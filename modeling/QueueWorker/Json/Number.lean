import QueueWorker.Decimal.Shortest
import QueueWorker.Json.Refusal

namespace QueueWorker.Json

/-- The digits of a written number, without its sign. An absent fraction has no digits. The power
of ten is marked by whether it is negative. -/
structure Numeral where
  whole : List Char
  fraction : List Char
  power : Option (Bool × List Char)
  deriving DecidableEq, Repr

def digits (cs : List Char) : List Char := cs.takeWhile Char.isDigit

def pastDigits (cs : List Char) : List Char := cs.dropWhile Char.isDigit

theorem pastDigits_length_le (cs : List Char) : (pastDigits cs).length ≤ cs.length := by
  induction cs with
  | nil => exact Nat.le_refl _
  | cons c cs ih =>
      simp only [pastDigits, List.dropWhile_cons]
      split
      · exact Nat.le_succ_of_le ih
      · exact Nat.le_refl _

def scanPower (short : Reason) (negative : Bool) : List Char → Reading (Bool × List Char)
  | [] => .error (.here short [])
  | c :: cs =>
      if c.isDigit then .ok ((negative, c :: digits cs), pastDigits cs)
      else .error (.ahead .badNumber (c :: cs))

def scanSignedPower (short : Reason) : List Char → Reading (Bool × List Char)
  | '+' :: cs => scanPower short false cs
  | '-' :: cs => scanPower short true cs
  | cs => scanPower short false cs

def scanPower? (short : Reason) : List Char → Reading (Option (Bool × List Char))
  | [] => .ok (none, [])
  | c :: cs =>
      if c = 'e' ∨ c = 'E' then (scanSignedPower short cs).map (Prod.map some id)
      else .ok (none, c :: cs)

def scanFraction (short : Reason) : List Char → Reading (List Char)
  | [] => .ok ([], [])
  | c :: cs =>
      if c = '.' then
        match digits cs, cs with
        | [], [] => .error (.here short [])
        | [], _ :: _ => .error (.ahead .badNumber cs)
        | d :: ds, _ => .ok (d :: ds, pastDigits cs)
      else .ok ([], c :: cs)

def scanWhole (short : Reason) : List Char → Reading (List Char)
  | [] => .error (.here short [])
  | c :: cs =>
      if c = '0' then
        if (digits cs).isEmpty then .ok ([c], cs) else .error (.ahead .badNumber cs)
      else if c.isDigit then .ok (c :: digits cs, pastDigits cs)
      else .error (.ahead .badNumber (c :: cs))

def scanNumeral (short : Reason) (cs : List Char) : Except Refusal (Numeral × List Char) := do
  let (whole, cs) ← scanWhole short cs
  let (fraction, cs) ← scanFraction short cs
  let (power, cs) ← scanPower? short cs
  return (⟨whole, fraction, power⟩, cs)

theorem scanPower_length {r : Reason} {n : Bool} {cs rest : List Char} {p : Bool × List Char}
    (h : scanPower r n cs = .ok (p, rest)) : rest.length < cs.length := by
  cases cs with
  | nil => contradiction
  | cons c cs =>
      simp only [scanPower] at h
      split at h
      · cases h; exact Nat.lt_succ_of_le (pastDigits_length_le cs)
      · contradiction

theorem scanSignedPower_length {r : Reason} {cs rest : List Char} {p : Bool × List Char}
    (h : scanSignedPower r cs = .ok (p, rest)) : rest.length < cs.length := by
  unfold scanSignedPower at h
  split at h
  · exact Nat.lt_succ_of_lt (scanPower_length h)
  · exact Nat.lt_succ_of_lt (scanPower_length h)
  · exact scanPower_length h

theorem scanPower?_length {r : Reason} {cs rest : List Char} {p : Option (Bool × List Char)}
    (h : scanPower? r cs = .ok (p, rest)) : rest.length ≤ cs.length := by
  cases cs with
  | nil => cases h; exact Nat.le_refl _
  | cons c cs =>
      simp only [scanPower?] at h
      split at h
      · cases hs : scanSignedPower r cs with
        | error e => rw [hs] at h; contradiction
        | ok q =>
            rw [hs] at h
            cases h
            exact Nat.le_of_lt (Nat.lt_succ_of_lt (scanSignedPower_length hs))
      · cases h; exact Nat.le_refl _

theorem scanFraction_length {r : Reason} {cs f rest : List Char}
    (h : scanFraction r cs = .ok (f, rest)) : rest.length ≤ cs.length := by
  cases cs with
  | nil => cases h; exact Nat.le_refl _
  | cons c cs =>
      simp only [scanFraction] at h
      split at h
      · split at h
        · contradiction
        · contradiction
        · cases h; exact Nat.le_succ_of_le (pastDigits_length_le _)
      · cases h; exact Nat.le_refl _

theorem scanWhole_length {r : Reason} {cs w rest : List Char}
    (h : scanWhole r cs = .ok (w, rest)) : rest.length < cs.length := by
  cases cs with
  | nil => contradiction
  | cons c cs =>
      simp only [scanWhole] at h
      split at h
      · split at h
        · cases h; exact Nat.lt_succ_self _
        · contradiction
      · split at h
        · cases h; exact Nat.lt_succ_of_le (pastDigits_length_le cs)
        · contradiction

theorem scanNumeral_length {r : Reason} {cs rest : List Char} {n : Numeral}
    (h : scanNumeral r cs = .ok (n, rest)) : rest.length < cs.length := by
  simp only [scanNumeral, bind, Except.bind, pure, Except.pure] at h
  split at h
  · contradiction
  next h₁ =>
  split at h
  · contradiction
  next h₂ =>
  split at h
  · contradiction
  next h₃ =>
  cases h
  exact Nat.lt_of_le_of_lt (Nat.le_trans (scanPower?_length h₃) (scanFraction_length h₂))
    (scanWhole_length h₁)

def digitValue (c : Char) : Nat := c.toNat - 48

def wordLimit : Nat := 0x10000000000000000

/-- Writes digits behind a number as long as it stays a 64-bit word. Gives the number and how many
of the digits it took. -/
def absorb (n : Nat) : List Char → Nat × Nat
  | [] => (n, 0)
  | d :: ds =>
      if n * 10 + digitValue d < wordLimit then
        let (m, taken) := absorb (n * 10 + digitValue d) ds
        (m, taken + 1)
      else (n, 0)

/-- Writes digits behind a power of ten as long as it stays a signed 32-bit word. Otherwise gives
the digits behind the first one that is too many. -/
def boundedPower (n : Nat) : List Char → Except (List Char) Nat
  | [] => .ok n
  | d :: ds => if n * 10 + digitValue d < 0x80000000 then boundedPower (n * 10 + digitValue d) ds
      else .error ds

def tenTo (k : Nat) : Float := Float.ofNat (Decimal.tenTo k)

def shrink (x : Float) (k : Nat) : Float :=
  if k ≤ 308 then x / tenTo k
  else if x == 0 then x
  else shrink (x / tenTo 308) (k - 308)
termination_by k
decreasing_by omega

def scaled? (n : Nat) (k : Int) : Option Float :=
  if k < 0 then some (shrink (Float.ofNat n) k.natAbs)
  else if k ≤ 308 then
    let x := Float.ofNat n * tenTo k.toNat
    if x.isInf then none else some x
  else if n = 0 then some 0
  else none

inductive Number
  | whole (n : Int)
  | real (x : Float)

def signed (negative : Bool) (x : Float) : Number := .real (if negative then -x else x)

/-- What a numeral stands for. A whole number from `-2 ^ 63` to `2 ^ 64 - 1` is exact, except that a
negative zero is real. `rest` is the text behind the numeral. -/
def Numeral.value (n : Numeral) (negative : Bool) (rest : List Char) : Except Refusal Number :=
  let (w, taken) := absorb 0 n.whole
  let dropped := n.whole.length - taken
  let (m, places) := absorb w n.fraction
  let plain (k : Int) : Except Refusal Number :=
    match scaled? m k with
    | some x => .ok (signed negative x)
    | none => .error (.here .numberRange rest)
  let k : Int := dropped - places
  match n.power with
  | some (down, ds) =>
      match boundedPower 0 ds with
      | .ok e => plain (if down then k - e else k + e)
      | .error ds =>
          if m = 0 ∨ down then .ok (signed negative 0)
          else .error (.here .numberRange (ds ++ rest))
  | none =>
      if n.fraction.isEmpty ∧ dropped = 0 then
        if ¬negative then .ok (.whole w)
        else if 0 < w ∧ w ≤ 0x8000000000000000 then .ok (.whole (-w))
        else .ok (signed true (Float.ofNat w))
      else plain k

def readUnsigned (negative : Bool) (cs : List Char) : Except Refusal (Number × List Char) := do
  let (n, rest) ← scanNumeral (.ended .value) cs
  return (← n.value negative rest, rest)

def readNumber : List Char → Reading Number
  | '-' :: cs => readUnsigned true cs
  | cs => readUnsigned false cs

def Number.found : Number → Found
  | .whole n => .integer n
  | .real x => .real (Decimal.ofFloat x)

theorem readUnsigned_length {b : Bool} {cs rest : List Char} {n : Number}
    (h : readUnsigned b cs = .ok (n, rest)) : rest.length < cs.length := by
  simp only [readUnsigned, bind, Except.bind, pure, Except.pure] at h
  split at h
  · contradiction
  next hs =>
  split at h
  · contradiction
  · cases h; exact scanNumeral_length hs

theorem readNumber_length {cs rest : List Char} {n : Number} (h : readNumber cs = .ok (n, rest)) :
    rest.length < cs.length := by
  unfold readNumber at h
  split at h
  · exact Nat.lt_succ_of_lt (readUnsigned_length h)
  · exact readUnsigned_length h

end QueueWorker.Json
