import QueueWorker.Json.Refusal

namespace QueueWorker.Json

def unescape? : Char → Option Char
  | '"' => some '"'
  | '\\' => some '\\'
  | '/' => some '/'
  | 'b' => some '\x08'
  | 'f' => some '\x0c'
  | 'n' => some '\n'
  | 'r' => some '\r'
  | 't' => some '\t'
  | _ => none

def hexDigit? (c : Char) : Option Nat :=
  if c.isDigit then some (c.toNat - 48)
  else if 'a' ≤ c ∧ c ≤ 'f' then some (c.toNat - 87)
  else if 'A' ≤ c ∧ c ≤ 'F' then some (c.toNat - 55)
  else none

def quad? : List Char → Option (Nat × List Char)
  | a :: b :: c :: d :: rest => do
      let a ← hexDigit? a
      let b ← hexDigit? b
      let c ← hexDigit? c
      let d ← hexDigit? d
      return (((a * 16 + b) * 16 + c) * 16 + d, rest)
  | _ => none

/-- Four bytes are taken whatever they hold, if the text has as many. -/
def readQuad (cs : List Char) : Reading Nat :=
  match quad? cs with
  | some r => .ok r
  | none =>
      if (bytes cs).length < 4 then .error (.here (.ended .string) [])
      else .error ⟨.badEscape, cs, 4⟩

def readInside (c : Char) : List Char → Except Refusal (List Char)
  | [] => .error (.here (.ended .string) [])
  | d :: cs => if d = c then .ok cs else .error (.ahead .cutSurrogate (d :: cs))

def isLeading (n : Nat) : Bool := 0xD800 ≤ n && n ≤ 0xDBFF

def isTrailing (n : Nat) : Bool := 0xDC00 ≤ n && n ≤ 0xDFFF

/-- The character beyond the first 65536 that a pair of numbers stands for. -/
def paired (leading trailing : Nat) : Char :=
  Char.ofNat (0x10000 + (leading - 0xD800) * 0x400 + (trailing - 0xDC00))

def readPair (leading : Nat) (cs : List Char) : Except Refusal (Char × List Char) := do
  let cs ← readInside '\\' cs
  let cs ← readInside 'u' cs
  let (n, rest) ← readQuad cs
  if isTrailing n then .ok (paired leading n, rest) else .error (.here .loneSurrogate rest)

def readNumbered (cs : List Char) : Except Refusal (Char × List Char) := do
  let (n, rest) ← readQuad cs
  if isTrailing n then .error (.here .loneSurrogate rest)
  else if isLeading n then readPair n rest
  else .ok (Char.ofNat n, rest)

def readEscape : List Char → Reading Char
  | [] => .error (.here (.ended .string) [])
  | c :: cs =>
      if c = 'u' then readNumbered cs
      else match unescape? c with
        | some d => .ok (d, cs)
        | none => .error (.ahead .badEscape (c :: cs))

def readChar (c : Char) (cs : List Char) : Reading Char :=
  if c = '\\' then readEscape cs
  else if c < ' ' then .error (.here .controlCharacter cs)
  else .ok (c, cs)

theorem quad?_length {cs rest : List Char} {n : Nat} (h : quad? cs = some (n, rest)) :
    cs.length = rest.length + 4 := by
  unfold quad? at h
  split at h
  · simp only [bind, Option.bind_eq_some_iff, pure, Option.some.injEq, Prod.mk.injEq] at h
    obtain ⟨_, _, _, _, _, _, _, _, _, rfl⟩ := h
    rfl
  · contradiction

theorem readQuad_length {cs rest : List Char} {n : Nat} (h : readQuad cs = .ok (n, rest)) :
    rest.length ≤ cs.length := by
  unfold readQuad at h
  split at h
  · next hq =>
      cases h
      have := quad?_length hq
      omega
  · split at h <;> contradiction

theorem readInside_length {c : Char} {cs rest : List Char} (h : readInside c cs = .ok rest) :
    rest.length ≤ cs.length := by
  cases cs with
  | nil => contradiction
  | cons d cs =>
      simp only [readInside] at h
      split at h
      · cases h; exact Nat.le_succ _
      · contradiction

theorem readPair_length {n : Nat} {cs rest : List Char} {c : Char}
    (h : readPair n cs = .ok (c, rest)) : rest.length ≤ cs.length := by
  simp only [readPair, bind, Except.bind] at h
  split at h
  · contradiction
  next h₁ =>
  split at h
  · contradiction
  next h₂ =>
  split at h
  · contradiction
  next h₃ =>
  split at h
  · simp only [Except.ok.injEq, Prod.mk.injEq] at h
    rw [← h.2]
    exact Nat.le_trans (readQuad_length h₃)
      (Nat.le_trans (readInside_length h₂) (readInside_length h₁))
  · contradiction

theorem readNumbered_length {cs rest : List Char} {c : Char} (h : readNumbered cs = .ok (c, rest)) :
    rest.length ≤ cs.length := by
  simp only [readNumbered, bind, Except.bind] at h
  split at h
  · contradiction
  next h₁ =>
  split at h
  · contradiction
  · split at h
    · exact Nat.le_trans (readPair_length h) (readQuad_length h₁)
    · simp only [Except.ok.injEq, Prod.mk.injEq] at h
      rw [← h.2]
      exact readQuad_length h₁

theorem readEscape_length {cs rest : List Char} {c : Char} (h : readEscape cs = .ok (c, rest)) :
    rest.length ≤ cs.length := by
  cases cs with
  | nil => contradiction
  | cons d cs =>
      simp only [readEscape] at h
      split at h
      · exact Nat.le_succ_of_le (readNumbered_length h)
      · split at h
        · cases h; exact Nat.le_succ _
        · contradiction

theorem readChar_length {c d : Char} {cs rest : List Char} (h : readChar c cs = .ok (d, rest)) :
    rest.length ≤ cs.length := by
  unfold readChar at h
  split at h
  · exact readEscape_length h
  · split at h
    · contradiction
    · cases h; exact Nat.le_refl _

def readText : List Char → Reading (List Char)
  | [] => .error (.here (.ended .string) [])
  | c :: cs =>
      if c = '"' then .ok ([], cs)
      else match _h : readChar c cs with
        | .error e => .error e
        | .ok (d, rest) =>
            match readText rest with
            | .error e => .error e
            | .ok (t, rest) => .ok (d :: t, rest)
termination_by cs => cs.length
decreasing_by exact Nat.lt_succ_of_le (readChar_length _h)

theorem readText_length {cs t rest : List Char} (h : readText cs = .ok (t, rest)) :
    rest.length < cs.length := by
  fun_induction readText cs generalizing t with
  | case1 => contradiction
  | case2 cs => cases h; exact Nat.lt_succ_self _
  | case3 => contradiction
  | case4 => contradiction
  | case5 c cs hq d mid hc t' rest' ht ih =>
      cases h
      exact Nat.lt_trans (ih ht) (Nat.lt_succ_of_le (readChar_length hc))

/-- Passes over an escape. The number of one is not looked at. -/
def skipEscape : List Char → Except Refusal (List Char)
  | [] => .error (.here (.ended .string) [])
  | c :: cs =>
      if c = 'u' then (readQuad cs).map (·.2)
      else if (unescape? c).isSome then .ok cs
      else .error (.ahead .badEscape (c :: cs))

theorem skipEscape_length {cs rest : List Char} (h : skipEscape cs = .ok rest) :
    rest.length ≤ cs.length := by
  cases cs with
  | nil => contradiction
  | cons c cs =>
      simp only [skipEscape] at h
      split at h
      · cases hq : readQuad cs with
        | error e => rw [hq] at h; contradiction
        | ok r =>
            rw [hq] at h
            cases h
            exact Nat.le_succ_of_le (readQuad_length hq)
      · split at h
        · cases h; exact Nat.le_succ _
        · contradiction

def skipText : List Char → Except Refusal (List Char)
  | [] => .error (.here (.ended .string) [])
  | c :: cs =>
      if c = '"' then .ok cs
      else if c = '\\' then
        match _h : skipEscape cs with
        | .error e => .error e
        | .ok rest => skipText rest
      else if c < ' ' then .error (.here .controlCharacter (c :: cs))
      else skipText cs
termination_by cs => cs.length
decreasing_by
  · exact Nat.lt_succ_of_le (skipEscape_length _h)
  · exact Nat.lt_succ_self _

theorem skipText_length {cs rest : List Char} (h : skipText cs = .ok rest) :
    rest.length < cs.length := by
  fun_induction skipText cs with
  | case1 => contradiction
  | case2 cs => cases h; exact Nat.lt_succ_self _
  | case3 => contradiction
  | case4 cs mid hm _ ih => exact Nat.lt_trans (ih h) (Nat.lt_succ_of_le (skipEscape_length hm))
  | case5 => contradiction
  | case6 c cs hq hb hc ih => exact Nat.lt_succ_of_lt (ih h)

def escape? : Char → Option Char
  | '"' => some '"'
  | '\\' => some '\\'
  | '\x08' => some 'b'
  | '\x0c' => some 'f'
  | '\n' => some 'n'
  | '\r' => some 'r'
  | '\t' => some 't'
  | _ => none

/-- A character inside a written string. Only the quote, the backslash and the characters below
the space are escaped. -/
def writeChar (c : Char) : List Char :=
  match escape? c with
  | some letter => ['\\', letter]
  | none =>
      if c < ' ' then
        ['\\', 'u', '0', '0', Nat.digitChar (c.toNat / 16), Nat.digitChar (c.toNat % 16)]
      else [c]

def writeText (s : String) : List Char := '"' :: s.toList.flatMap writeChar ++ ['"']

end QueueWorker.Json
