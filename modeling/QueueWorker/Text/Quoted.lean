import QueueWorker.Text.Visible

namespace QueueWorker.Text

def escapeLetter? : Char → Option Char
  | '"' => some '"'
  | '\\' => some '\\'
  | '\n' => some 'n'
  | '\r' => some 'r'
  | '\t' => some 't'
  | '\x00' => some '0'
  | _ => none

/-- A character inside quotes. One that no reader sees is given by its number, in as few
hexadecimal digits as it takes. -/
def spelled (c : Char) : List Char :=
  match escapeLetter? c with
  | some letter => ['\\', letter]
  | none =>
      if isVisible c then [c]
      else '\\' :: 'u' :: '\x7b' :: Nat.toDigits 16 c.toNat ++ ['\x7d']

def quoted (s : String) : String := String.ofList ('"' :: s.toList.flatMap spelled ++ ['"'])

theorem spelled_of_isVisible {c : Char} (h : isVisible c) (hq : c ≠ '"') (hb : c ≠ '\\') :
    spelled c = [c] := by
  have hl : escapeLetter? c = none := by
    unfold escapeLetter?
    split
    · exact absurd rfl hq
    · exact absurd rfl hb
    · exact absurd h (by decide)
    · exact absurd h (by decide)
    · exact absurd h (by decide)
    · exact absurd h (by decide)
    · rfl
  simp [spelled, hl, h]

end QueueWorker.Text
