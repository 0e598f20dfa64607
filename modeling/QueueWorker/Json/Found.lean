import QueueWorker.Json.Number
import QueueWorker.Json.Text

namespace QueueWorker.Json

/-- Reads a value only to name it. Of a list or an object not even the bracket is read. -/
def readFound : List Char → Reading Found
  | [] => .error (.ahead .valueWanted [])
  | c :: cs =>
      if c = 'n' then (readWord ['u', 'l', 'l'] cs).map (.null, ·)
      else if c = 't' then (readWord ['r', 'u', 'e'] cs).map (.bool true, ·)
      else if c = 'f' then (readWord ['a', 'l', 's', 'e'] cs).map (.bool false, ·)
      else if c = '"' then (readText cs).map (Prod.map (fun t => .string (String.ofList t)) id)
      else if c = '-' ∨ c.isDigit then (readNumber (c :: cs)).map (Prod.map Number.found id)
      else if c = '[' then .ok (.list, c :: cs)
      else if c = '\x7b' then .ok (.object, c :: cs)
      else .error (.ahead .valueWanted (c :: cs))

def wrongKind (wanted : String) (cs : List Char) : Refusal :=
  match readFound cs with
  | .error e => e
  | .ok (found, rest) => .here (.wrongKind found wanted) rest

def readNatural (wanted : String) (limit : Nat) (cs : List Char) : Reading Nat :=
  match skipBlank cs with
  | [] => .error (.ahead (.ended .value) [])
  | c :: rest =>
      if c = '-' ∨ c.isDigit then
        match readNumber (c :: rest) with
        | .error e => .error e
        | .ok (.real x, rest) => .error (.here (.wrongKind (Number.real x).found wanted) rest)
        | .ok (.whole n, rest) =>
            if 0 ≤ n ∧ n < limit then .ok (n.toNat, rest)
            else .error (.here (.wrongInteger n wanted) rest)
      else .error (wrongKind wanted (c :: rest))

def word32OfJson (text : String) : Except Fault Nat := document (readNatural "u32" 0x100000000) text

def readString (cs : List Char) : Reading String :=
  match skipBlank cs with
  | [] => .error (.ahead (.ended .value) [])
  | c :: rest =>
      if c = '"' then (readText rest).map (Prod.map String.ofList id)
      else .error (wrongKind "a string" (c :: rest))

theorem readNatural_length {wanted : String} {limit n : Nat} {cs rest : List Char}
    (h : readNatural wanted limit cs = .ok (n, rest)) : rest.length < cs.length := by
  unfold readNatural at h
  split at h
  · contradiction
  next c mid hb =>
  have hle : (c :: mid).length ≤ cs.length := length_lt_of_skipBlank hb
  split at h
  · split at h
    · contradiction
    · contradiction
    next hn =>
    split at h
    · cases h; exact Nat.lt_of_lt_of_le (readNumber_length hn) hle
    · contradiction
  · contradiction

theorem readString_length {s : String} {cs rest : List Char} (h : readString cs = .ok (s, rest)) :
    rest.length < cs.length := by
  unfold readString at h
  split at h
  · contradiction
  next hb =>
  split at h
  · obtain ⟨a, ha, he⟩ := map_eq_ok h
    cases he
    exact Nat.lt_trans (readText_length ha) (length_lt_of_skipBlank hb)
  · contradiction

end QueueWorker.Json
