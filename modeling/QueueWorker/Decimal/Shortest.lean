namespace QueueWorker.Decimal

def leastMantissa : Nat := 0x10000000000000

def twoTo (n : Nat) : Nat := Nat.pow 2 n

def tenTo (n : Nat) : Nat := Nat.pow 10 n

/-- A positive finite double with the reals that round to it, all over the denominator `den`. The
ends belong to the reals that round to it when `closed` holds. -/
structure Neighbourhood where
  low : Nat
  mid : Nat
  high : Nat
  den : Nat
  closed : Bool

/-- The neighbourhood of `m · 2 ^ (e - 1075)`. The gap below a power of two is half as wide as the
one above it, save for the least normal number. -/
def Neighbourhood.around (m e : Nat) : Neighbourhood :=
  let below := if m = leastMantissa ∧ 1 < e then 4 * m - 1 else 4 * m - 2
  let up := twoTo (e - 1077)
  ⟨below * up, 4 * m * up, (4 * m + 2) * up, twoTo (1077 - e), m % 2 = 0⟩

def Neighbourhood.has (n : Neighbourhood) (v : Nat) : Bool :=
  n.low < v && v < n.high || n.closed && (v = n.low || v = n.high)

def Neighbourhood.onGrid? (n : Neighbourhood) (k : Int) : Option Nat :=
  let zoom := tenTo (-k).toNat
  let gap := tenTo k.toNat * n.den
  let z : Neighbourhood := ⟨n.low * zoom, n.mid * zoom, n.high * zoom, n.den, n.closed⟩
  let c := z.mid / gap
  let below := z.has (c * gap)
  let above := z.has ((c + 1) * gap)
  if below && above then
    let up := (c + 1) * gap - z.mid
    let down := z.mid - c * gap
    some (if down < up ∨ down = up ∧ c % 2 = 0 then c else c + 1)
  else if below then some c
  else if above then some (c + 1)
  else none

def Neighbourhood.shortest (n : Neighbourhood) : Nat → Nat × Int
  | 0 => (n.mid * tenTo 344 / n.den, -344)
  | i + 1 =>
      let k : Int := i - 344
      match n.onGrid? k with
      | some c => (c, k)
      | none => n.shortest i

def positioned (digits : List Char) (k : Int) : List Char :=
  let e := k + digits.length - 1
  if e < -5 ∨ 15 < e then
    let tail := if digits.length = 1 then [] else '.' :: digits.drop 1
    digits.take 1 ++ tail ++ 'e' :: (if e < 0 then '-' else '+') :: Nat.toDigits 10 e.natAbs
  else if 0 ≤ k then digits ++ List.replicate k.toNat '0' ++ ['.', '0']
  else if 0 ≤ e then digits.take (e.toNat + 1) ++ '.' :: digits.drop (e.toNat + 1)
  else '0' :: '.' :: List.replicate (-e - 1).toNat '0' ++ digits

/-- The fewest digits that read back as the same double, and of those the nearest. -/
def ofBits (b : Nat) : List Char :=
  let e := b / leastMantissa % 2048
  let f := b % leastMantissa
  let size :=
    if e = 2047 then if f = 0 then ['i', 'n', 'f'] else ['N', 'a', 'N']
    else if e = 0 ∧ f = 0 then ['0', '.', '0']
    else
      let m := if e = 0 then f else leastMantissa + f
      let (c, k) := (Neighbourhood.around m (max e 1)).shortest 654
      positioned (Nat.toDigits 10 c) k
  if b / twoTo 63 % 2 = 1 then '-' :: size else size

def ofFloat (x : Float) : String := String.ofList (ofBits x.toBits.toNat)

end QueueWorker.Decimal
