import QueueWorker.Json.Found
import QueueWorker.Json.Skip
import QueueWorker.Settings.Basic

namespace QueueWorker

open Json

namespace Priority

def keys : List String := [normal.key, background.key]

def readKey (cs : List Char) : Reading Priority :=
  match readText cs with
  | .error e => .error e
  | .ok (t, rest) =>
      match ofKey? (String.ofList t) with
      | some p => .ok (p, rest)
      | none => .error (.here (.unknownVariant (String.ofList t) keys) rest)

def readUnit (cs : List Char) : Except Refusal (List Char) :=
  match skipBlank cs with
  | [] => .error (.ahead (.ended .value) [])
  | c :: rest =>
      if c = 'n' then readWord ['u', 'l', 'l'] rest else .error (wrongKind "unit" (c :: rest))

def readClose (cs : List Char) : Except Refusal (List Char) :=
  match skipBlank cs with
  | [] => .error (.here (.ended .object) [])
  | c :: rest => if c = '\x7d' then .ok rest else .error (.here .valueWanted (c :: rest))

def readObject (cs : List Char) : Except Refusal (Priority × List Char) :=
  match skipBlank cs with
  | [] => .error (.ahead (.ended .object) [])
  | c :: rest =>
      if c = '"' then do
        let (p, rest) ← readKey rest
        let rest ← readColon rest
        let rest ← readUnit rest
        let rest ← readClose rest
        return (p, rest)
      else if c = '\x7d' then .error (.ahead .valueWanted (c :: rest))
      else .error (.ahead .keyWanted (c :: rest))

/-- A priority: its name, or an object with its name for the only key and null for the value. -/
def read (cs : List Char) : Reading Priority :=
  match skipBlank cs with
  | [] => .error (.ahead (.ended .value) [])
  | c :: rest =>
      if c = '"' then readKey rest
      else if c = '\x7b' then readObject rest
      else .error (.ahead .valueWanted (c :: rest))

def ofJson (text : String) : Except Fault Priority := document read text

theorem readKey_length {p : Priority} {cs rest : List Char} (h : readKey cs = .ok (p, rest)) :
    rest.length < cs.length := by
  unfold readKey at h
  split at h
  · contradiction
  next ht =>
  split at h
  · cases h; exact readText_length ht
  · contradiction

theorem readUnit_length {cs rest : List Char} (h : readUnit cs = .ok rest) :
    rest.length < cs.length := by
  unfold readUnit at h
  split at h
  · contradiction
  next hb =>
  split at h
  · exact Nat.lt_of_le_of_lt (readWord_length h) (length_lt_of_skipBlank hb)
  · contradiction

theorem readClose_length {cs rest : List Char} (h : readClose cs = .ok rest) :
    rest.length < cs.length := by
  unfold readClose at h
  split at h
  · contradiction
  next hb =>
  split at h
  · cases h; exact length_lt_of_skipBlank hb
  · contradiction

theorem readObject_length {p : Priority} {cs rest : List Char} (h : readObject cs = .ok (p, rest)) :
    rest.length < cs.length := by
  unfold readObject at h
  split at h
  · contradiction
  next hb =>
  split at h
  · simp only [bind, Except.bind, pure, Except.pure] at h
    split at h
    · contradiction
    next h₁ =>
    split at h
    · contradiction
    next h₂ =>
    split at h
    · contradiction
    next h₃ =>
    split at h
    · contradiction
    next h₄ =>
    cases h
    have := length_lt_of_skipBlank hb
    have := readKey_length h₁
    have := readColon_length h₂
    have := readUnit_length h₃
    have := readClose_length h₄
    omega
  · split at h <;> contradiction

theorem read_length {p : Priority} {cs rest : List Char} (h : read cs = .ok (p, rest)) :
    rest.length < cs.length := by
  unfold read at h
  split at h
  · contradiction
  next hb =>
  have hlt := length_lt_of_skipBlank hb
  split at h
  · exact Nat.lt_trans (readKey_length h) hlt
  · split at h
    · exact Nat.lt_trans (readObject_length h) hlt
    · contradiction

end Priority

namespace Settings

inductive Field
  | name
  | priority
  | stackSize
  deriving DecidableEq, Repr

namespace Field

def key : Field → String
  | name => "name"
  | priority => "priority"
  | stackSize => "stack_size"

def all : List Field := [name, priority, stackSize]

def ofKey? (s : String) : Option Field := all.find? (fun f => f.key = s)

end Field

/-- The fields that a text has given so far. -/
structure Draft where
  name : Option String := none
  priority : Option Priority := none
  stackSize : Option (Option UInt64) := none
  deriving DecidableEq, Repr

namespace Draft

def has (d : Draft) : Field → Bool
  | .name => d.name.isSome
  | .priority => d.priority.isSome
  | .stackSize => d.stackSize.isSome

def settings (d : Draft) : Settings where
  name := d.name.getD ({} : Settings).name
  priority := d.priority.getD ({} : Settings).priority
  stackSize := d.stackSize.getD ({} : Settings).stackSize

end Draft

def readStackSize (cs : List Char) : Reading (Option UInt64) :=
  match skipBlank cs with
  | [] => .error (.ahead (.ended .value) [])
  | c :: rest =>
      if c = 'n' then (readWord ['u', 'l', 'l'] rest).map (none, ·)
      else (readNatural "usize" wordLimit (c :: rest)).map
        (Prod.map (fun n => some (UInt64.ofNat n)) id)

def readField (d : Draft) (cs : List Char) : Field → Reading Draft
  | .name => (readString cs).map (Prod.map (fun s => { d with name := some s }) id)
  | .priority => (Priority.read cs).map (Prod.map (fun p => { d with priority := some p }) id)
  | .stackSize => (readStackSize cs).map (Prod.map (fun n => { d with stackSize := some n }) id)

/-- A second value for a field is refused behind the closing bracket if that is what follows the
key. -/
def duplicate (f : Field) (cs : List Char) : Refusal :=
  .here (.duplicateField f.key) (match skipBlank cs with
    | [] => []
    | c :: rest => if c = '\x7d' then rest else c :: rest)

def readMember (d : Draft) (cs : List Char) : Reading Draft :=
  match readText cs with
  | .error e => .error e
  | .ok (t, rest) =>
      match Field.ofKey? (String.ofList t) with
      | some f =>
          if d.has f then .error (duplicate f rest)
          else match readColon rest with
            | .error e => .error e
            | .ok rest => readField d rest f
      | none =>
          match readColon rest with
          | .error e => .error e
          | .ok rest => (skipValue rest).map (d, ·)

def readQuote (first : Bool) (c : Char) (cs : List Char) : Except Refusal (List Char) :=
  if first then if c = '"' then .ok cs else .error (.ahead .keyWanted (c :: cs))
  else if c = ',' then
    match skipBlank cs with
    | [] => .error (.ahead (.ended .value) [])
    | c :: rest =>
        if c = '"' then .ok rest
        else if c = '\x7d' then .error (.ahead .trailingComma (c :: rest))
        else .error (.ahead .keyWanted (c :: rest))
  else .error (.ahead .memberEndWanted (c :: cs))

theorem readQuote_length {b : Bool} {c : Char} {cs rest : List Char}
    (h : readQuote b c cs = .ok rest) : rest.length ≤ cs.length := by
  unfold readQuote at h
  split at h
  · split at h
    · cases h; exact Nat.le_refl _
    · contradiction
  · split at h
    · split at h
      · contradiction
      next hb =>
      split at h
      · cases h; exact Nat.le_of_lt (length_lt_of_skipBlank hb)
      · split at h <;> contradiction
    · contradiction

theorem readStackSize_length {n : Option UInt64} {cs rest : List Char}
    (h : readStackSize cs = .ok (n, rest)) : rest.length < cs.length := by
  unfold readStackSize at h
  split at h
  · contradiction
  next c mid hb =>
  have hle : (c :: mid).length ≤ cs.length := length_lt_of_skipBlank hb
  split at h
  · obtain ⟨a, ha, he⟩ := map_eq_ok h
    cases he
    exact Nat.lt_of_lt_of_le (Nat.lt_succ_of_le (readWord_length ha)) hle
  · obtain ⟨a, ha, he⟩ := map_eq_ok h
    cases he
    exact Nat.lt_of_lt_of_le (readNatural_length ha) hle

theorem readField_length {d d' : Draft} {f : Field} {cs rest : List Char}
    (h : readField d cs f = .ok (d', rest)) : rest.length < cs.length := by
  cases f
  all_goals
    obtain ⟨a, ha, he⟩ := map_eq_ok h
    cases he
  · exact readString_length ha
  · exact Priority.read_length ha
  · exact readStackSize_length ha

theorem readMember_length {d d' : Draft} {cs rest : List Char}
    (h : readMember d cs = .ok (d', rest)) : rest.length < cs.length := by
  unfold readMember at h
  split at h
  · contradiction
  next ht =>
  have hlt := readText_length ht
  split at h
  · split at h
    · contradiction
    · split at h
      · contradiction
      next hc =>
        exact Nat.lt_trans (readField_length h) (Nat.lt_trans (readColon_length hc) hlt)
  · split at h
    · contradiction
    next hc =>
      obtain ⟨a, ha, he⟩ := map_eq_ok h
      cases he
      exact Nat.lt_trans (skipValue_length ha) (Nat.lt_trans (readColon_length hc) hlt)

def readMembers (first : Bool) (d : Draft) (cs : List Char) : Reading Draft :=
  match _hb : skipBlank cs with
  | [] => .error (.ahead (.ended .object) [])
  | c :: rest =>
      if c = '\x7d' then .ok (d, rest)
      else match _hq : readQuote first c rest with
        | .error e => .error e
        | .ok rest' =>
            match _hm : readMember d rest' with
            | .error e => .error e
            | .ok (d, rest) => readMembers false d rest
termination_by cs.length
decreasing_by
  have := length_lt_of_skipBlank _hb
  have := readQuote_length _hq
  have := readMember_length _hm
  omega

def readListEnd (d : Draft) (cs : List Char) : Reading Draft :=
  match skipBlank cs with
  | [] => .error (.ahead (.ended .list) [])
  | c :: rest =>
      if c = ']' then .ok (d, rest)
      else if c = ',' then
        match skipBlank rest with
        | ']' :: rest => .error (.ahead .trailingComma (']' :: rest))
        | rest => .error (.ahead .trailingCharacters rest)
      else .error (.ahead .trailingCharacters (c :: rest))

def readComma (first : Bool) (c : Char) (cs : List Char) : Except Refusal (List Char) :=
  if first then .ok (c :: cs)
  else if c = ',' then
    match skipBlank cs with
    | [] => .error (.ahead (.ended .value) [])
    | c :: rest =>
        if c = ']' then .error (.ahead .trailingComma (c :: rest)) else .ok (c :: rest)
  else .error (.ahead .elementEndWanted (c :: cs))

def readElements (first : Bool) (d : Draft) : List Field → List Char → Reading Draft
  | [], cs => readListEnd d cs
  | f :: fs, cs =>
      match skipBlank cs with
      | [] => .error (.ahead (.ended .list) [])
      | c :: rest =>
          if c = ']' then .ok (d, rest)
          else match readComma first c rest with
            | .error e => .error e
            | .ok rest =>
                match readField d rest f with
                | .error e => .error e
                | .ok (d, rest) => readElements false d fs rest

/-- Settings as an object with any of the fields, or as a list of the first of them. -/
def read (cs : List Char) : Reading Settings :=
  match skipBlank cs with
  | [] => .error (.ahead (.ended .value) [])
  | c :: rest =>
      if c = '\x7b' then (readMembers true {} rest).map (Prod.map Draft.settings id)
      else if c = '[' then (readElements true {} Field.all rest).map (Prod.map Draft.settings id)
      else .error (wrongKind "struct WorkerThreadConfig" (c :: rest))

def ofJson (text : String) : Except Fault Settings := do
  let s ← document read text
  s.check
  return s

def keyed (f : Field) (value : List Char) : List Char := writeText f.key ++ ':' :: value

def writeStackSize : Option UInt64 → List Char
  | none => ['n', 'u', 'l', 'l']
  | some n => Nat.toDigits 10 n.toNat

def write (s : Settings) : List Char :=
  '\x7b' :: keyed .name (writeText s.name) ++ ',' :: keyed .priority (writeText s.priority.key) ++
    ',' :: keyed .stackSize (writeStackSize s.stackSize) ++ ['\x7d']

def toJson (s : Settings) : String := String.ofList s.write

end Settings

end QueueWorker
