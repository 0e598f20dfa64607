import QueueWorker.Json.Number
import QueueWorker.Json.Text

namespace QueueWorker.Json

inductive Bracket
  | list
  | object
  deriving DecidableEq, Repr

namespace Bracket

def close : Bracket → Char
  | list => ']'
  | object => '\x7d'

def unfinished : Bracket → Unfinished
  | list => .list
  | object => .object

def endWanted : Bracket → Reason
  | list => .elementEndWanted
  | object => .memberEndWanted

end Bracket

def readColon (cs : List Char) : Except Refusal (List Char) :=
  match skipBlank cs with
  | [] => .error (.ahead (.ended .object) [])
  | c :: rest => if c = ':' then .ok rest else .error (.ahead .colonWanted (c :: rest))

/-- Passes over what comes before a value inside a bracket: a key and its colon, or nothing. -/
def skipKey : Bracket → List Char → Except Refusal (List Char)
  | .list, cs => .ok cs
  | .object, cs =>
      match skipBlank cs with
      | [] => .error (.ahead (.ended .object) [])
      | c :: rest =>
          if c = '"' then
            match skipText rest with
            | .error e => .error e
            | .ok rest => readColon rest
          else .error (.ahead .keyWanted (c :: rest))

def skipStart (cs : List Char) : Reading (Option Bracket) :=
  match skipBlank cs with
  | [] => .error (.ahead (.ended .value) [])
  | c :: rest =>
      if c = 'n' then (readWord ['u', 'l', 'l'] rest).map (none, ·)
      else if c = 't' then (readWord ['r', 'u', 'e'] rest).map (none, ·)
      else if c = 'f' then (readWord ['a', 'l', 's', 'e'] rest).map (none, ·)
      else if c = '"' then (skipText rest).map (none, ·)
      else if c = '-' then (scanNumeral .badNumber rest).map (fun r => (none, r.2))
      else if c.isDigit then (scanNumeral .badNumber (c :: rest)).map (fun r => (none, r.2))
      else if c = '[' then .ok (some .list, rest)
      else if c = '\x7b' then .ok (some .object, rest)
      else .error (.ahead .valueWanted (c :: rest))

/-- Passes over the brackets that close behind a value. Those that stay open, with the comma and
the key before their next value read, come back innermost first. -/
def skipClosed : List Bracket → List Char → Reading (List Bracket)
  | [], cs => .ok ([], cs)
  | b :: open', cs =>
      match skipBlank cs with
      | [] => .error (.ahead (.ended b.unfinished) [])
      | c :: rest =>
          if c = ',' then (skipKey b rest).map (b :: open', ·)
          else if c = b.close then skipClosed open' rest
          else .error (.ahead b.endWanted (c :: rest))

def skipOpened (b : Bracket) (open' : List Bracket) (cs : List Char) : Reading (List Bracket) :=
  match skipBlank cs with
  | [] => .error (.ahead (.ended b.unfinished) [])
  | c :: rest =>
      if c = b.close then skipClosed open' rest
      else (skipKey b (c :: rest)).map (b :: open', ·)

/-- Passes over the next part of a value inside brackets, up to where another part has to follow.
None does when no bracket is left open. -/
def skipPart (open' : List Bracket) (cs : List Char) : Reading (List Bracket) :=
  match skipStart cs with
  | .error e => .error e
  | .ok (none, rest) => skipClosed open' rest
  | .ok (some b, rest) => skipOpened b open' rest

theorem readColon_length {cs rest : List Char} (h : readColon cs = .ok rest) :
    rest.length < cs.length := by
  unfold readColon at h
  split at h
  · contradiction
  next hb =>
  split at h
  · cases h; exact length_lt_of_skipBlank hb
  · contradiction

theorem skipKey_length {b : Bracket} {cs rest : List Char} (h : skipKey b cs = .ok rest) :
    rest.length ≤ cs.length := by
  unfold skipKey at h
  split at h
  · cases h; exact Nat.le_refl _
  · split at h
    · contradiction
    next hb =>
    split at h
    · split at h
      · contradiction
      next ht =>
        have := length_lt_of_skipBlank hb
        have := skipText_length ht
        have := readColon_length h
        omega
    · contradiction

theorem skipStart_length {o : Option Bracket} {cs rest : List Char}
    (h : skipStart cs = .ok (o, rest)) : rest.length < cs.length := by
  unfold skipStart at h
  split at h
  · contradiction
  next c mid hb =>
  have hlt := length_lt_of_skipBlank hb
  have word {w : List Char} (h : (readWord w mid).map (none, ·) = .ok (o, rest)) :
      rest.length < cs.length := by
    obtain ⟨a, ha, he⟩ := map_eq_ok h
    cases he
    exact Nat.lt_of_le_of_lt (readWord_length ha) hlt
  have numeral {ds : List Char} (hd : ds.length ≤ cs.length)
      (h : (scanNumeral .badNumber ds).map (fun r => (none, r.2)) = .ok (o, rest)) :
      rest.length < cs.length := by
    obtain ⟨a, ha, he⟩ := map_eq_ok h
    cases he
    exact Nat.lt_of_lt_of_le (scanNumeral_length ha) hd
  repeat' split at h
  · exact word h
  · exact word h
  · exact word h
  · obtain ⟨a, ha, he⟩ := map_eq_ok h
    cases he
    exact Nat.lt_trans (skipText_length ha) hlt
  · exact numeral (Nat.le_of_lt hlt) h
  · have hle : (c :: mid).length ≤ cs.length := hlt
    exact numeral hle h
  · cases h; exact hlt
  · cases h; exact hlt
  · contradiction

theorem skipClosed_length {left left' : List Bracket} {cs rest : List Char}
    (h : skipClosed left cs = .ok (left', rest)) : rest.length ≤ cs.length := by
  induction left generalizing cs with
  | nil => cases h; exact Nat.le_refl _
  | cons b left ih =>
      simp only [skipClosed] at h
      split at h
      · contradiction
      next hb =>
      have hlt := length_lt_of_skipBlank hb
      split at h
      · obtain ⟨a, ha, he⟩ := map_eq_ok h
        cases he
        exact Nat.le_of_lt (Nat.lt_of_le_of_lt (skipKey_length ha) hlt)
      · split at h
        · exact Nat.le_of_lt (Nat.lt_of_le_of_lt (ih h) hlt)
        · contradiction

theorem skipOpened_length {b : Bracket} {left left' : List Bracket} {cs rest : List Char}
    (h : skipOpened b left cs = .ok (left', rest)) : rest.length ≤ cs.length := by
  unfold skipOpened at h
  split at h
  · contradiction
  next hb =>
  have hlt := length_lt_of_skipBlank hb
  split at h
  · exact Nat.le_of_lt (Nat.lt_of_le_of_lt (skipClosed_length h) hlt)
  · obtain ⟨a, ha, he⟩ := map_eq_ok h
    cases he
    exact Nat.le_trans (skipKey_length ha) hlt

theorem skipPart_length {left left' : List Bracket} {cs rest : List Char}
    (h : skipPart left cs = .ok (left', rest)) : rest.length < cs.length := by
  unfold skipPart at h
  split at h
  · contradiction
  next hs => exact Nat.lt_of_le_of_lt (skipClosed_length h) (skipStart_length hs)
  next hs => exact Nat.lt_of_le_of_lt (skipOpened_length h) (skipStart_length hs)

def skipInside (open' : List Bracket) (cs : List Char) : Except Refusal (List Char) :=
  match _h : skipPart open' cs with
  | .error e => .error e
  | .ok ([], rest) => .ok rest
  | .ok (b :: open', rest) => skipInside (b :: open') rest
termination_by cs.length
decreasing_by exact skipPart_length _h

def skipValue (cs : List Char) : Except Refusal (List Char) := skipInside [] cs

theorem skipInside_length {left : List Bracket} {cs rest : List Char}
    (h : skipInside left cs = .ok rest) : rest.length < cs.length := by
  fun_induction skipInside left cs with
  | case1 => contradiction
  | case2 left cs mid hp => cases h; exact skipPart_length hp
  | case3 left cs b left' mid hp ih => exact Nat.lt_trans (ih h) (skipPart_length hp)

theorem skipValue_length {cs rest : List Char} (h : skipValue cs = .ok rest) :
    rest.length < cs.length := skipInside_length h

end QueueWorker.Json
