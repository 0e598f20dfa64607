import QueueWorker.Fault

namespace QueueWorker.Json

open Text

inductive Unfinished
  | value | list | object | string
  deriving DecidableEq, Repr

/-- A well-formed value of a kind that is not wanted. A real number is kept as it is shown. -/
inductive Found
  | null
  | bool (b : Bool)
  | integer (n : Int)
  | real (shown : String)
  | string (s : String)
  | list
  | object
  deriving DecidableEq, Repr

inductive Reason
  | ended (inside : Unfinished)
  | trailingCharacters
  | trailingComma
  | keyWanted
  | colonWanted
  | memberEndWanted
  | elementEndWanted
  | valueWanted
  | wordWanted
  | controlCharacter
  | badEscape
  | loneSurrogate
  | cutSurrogate
  | badNumber
  | numberRange
  | wrongKind (found : Found) (wanted : String)
  | wrongInteger (n : Int) (wanted : String)
  | unknownVariant (found : String) (known : List String)
  | duplicateField (name : String)
  deriving DecidableEq, Repr

def ticked (s : String) : String := "`" ++ s ++ "`"

def Unfinished.text : Unfinished → String
  | value => "a value"
  | list => "a list"
  | object => "an object"
  | string => "a string"

def Found.text : Found → String
  | null => "null"
  | bool true => "boolean " ++ ticked "true"
  | bool false => "boolean " ++ ticked "false"
  | integer n => "integer " ++ ticked (toString n)
  | real shown => "floating point " ++ ticked shown
  | string s => "string " ++ quoted s
  | list => "sequence"
  | object => "map"

def Reason.text : Reason → String
  | ended inside => "EOF while parsing " ++ inside.text
  | trailingCharacters => "trailing characters"
  | trailingComma => "trailing comma"
  | keyWanted => "key must be a string"
  | colonWanted => "expected `:`"
  | memberEndWanted => "expected `,` or `\x7d`"
  | elementEndWanted => "expected `,` or `]`"
  | valueWanted => "expected value"
  | wordWanted => "expected ident"
  | controlCharacter => "control character (\\u0000-\\u001F) found while parsing a string"
  | badEscape => "invalid escape"
  | loneSurrogate => "lone leading surrogate in hex escape"
  | cutSurrogate => "unexpected end of hex escape"
  | badNumber => "invalid number"
  | numberRange => "number out of range"
  | wrongKind found wanted => "invalid type: " ++ found.text ++ ", expected " ++ wanted
  | wrongInteger n wanted =>
      "invalid value: integer " ++ ticked (toString n) ++ ", expected " ++ wanted
  | unknownVariant found known =>
      "unknown variant " ++ ticked found ++ ", expected " ++ " or ".intercalate (known.map ticked)
  | duplicateField name => "duplicate field " ++ ticked name

/-- A place in a text: what is still unread there, and how many bytes of that count as seen. -/
structure Spot where
  rest : List Char
  extra : Nat
  deriving DecidableEq, Repr

def bytes (cs : List Char) : List UInt8 := cs.flatMap String.utf8EncodeChar

def Spot.seen (s : Spot) (text : List Char) : List UInt8 :=
  (bytes text).take ((bytes text).length - (bytes s.rest).length + s.extra)

def lineFeed : UInt8 := 10

def Spot.line (s : Spot) (text : List Char) : Nat := 1 + (s.seen text).count lineFeed

def Spot.column (s : Spot) (text : List Char) : Nat :=
  ((s.seen text).reverse.takeWhile (· != lineFeed)).length

structure Refusal where
  reason : Reason
  spot : Spot
  deriving DecidableEq, Repr

namespace Refusal

def here (r : Reason) (rest : List Char) : Refusal := ⟨r, rest, 0⟩

def ahead (r : Reason) (rest : List Char) : Refusal := ⟨r, rest, 1⟩

def message (r : Refusal) (text : List Char) : String :=
  r.reason.text ++ " at line " ++ toString (r.spot.line text) ++
    " column " ++ toString (r.spot.column text)

def fault (r : Refusal) (text : List Char) : Fault := .setting "json" (r.message text)

end Refusal

/-- A reader takes a value off the front of a text, or refuses the text. -/
abbrev Reading (α : Type) := Except Refusal (α × List Char)

def isBlank (c : Char) : Bool := c = ' ' || c = '\t' || c = '\n' || c = '\r'

def skipBlank (cs : List Char) : List Char := cs.dropWhile isBlank

theorem skipBlank_length_le (cs : List Char) : (skipBlank cs).length ≤ cs.length := by
  induction cs with
  | nil => exact Nat.le_refl _
  | cons c cs ih =>
      simp only [skipBlank, List.dropWhile_cons]
      split
      · exact Nat.le_succ_of_le ih
      · exact Nat.le_refl _

theorem length_lt_of_skipBlank {cs rest : List Char} {c : Char} (h : skipBlank cs = c :: rest) :
    rest.length < cs.length := by
  have := skipBlank_length_le cs
  rw [h] at this
  exact this

def readWord : List Char → List Char → Except Refusal (List Char)
  | [], cs => .ok cs
  | _ :: _, [] => .error (.here (.ended .value) [])
  | l :: ls, c :: cs => if c = l then readWord ls cs else .error (.ahead .wordWanted (c :: cs))

theorem readWord_eq_ok {w cs rest : List Char} (h : readWord w cs = .ok rest) : cs = w ++ rest := by
  fun_induction readWord w cs with
  | case1 cs => simpa using h
  | case2 => contradiction
  | case3 ls l cs ih => simp [ih h]
  | case4 => contradiction

theorem readWord_length {w cs rest : List Char} (h : readWord w cs = .ok rest) :
    rest.length ≤ cs.length := by
  rw [readWord_eq_ok h, List.length_append]
  exact Nat.le_add_left _ _

theorem map_eq_ok {ε α β : Type} {f : α → β} {x : Except ε α} {b : β} (h : x.map f = .ok b) :
    ∃ a, x = .ok a ∧ f a = b := by
  cases x with
  | error e => contradiction
  | ok a => exact ⟨a, rfl, Except.ok.inj h⟩

def document {α : Type} (reader : List Char → Reading α) (text : String) : Except Fault α :=
  match reader text.toList with
  | .error r => .error (r.fault text.toList)
  | .ok (a, rest) =>
      match skipBlank rest with
      | [] => .ok a
      | c :: cs => .error ((Refusal.ahead .trailingCharacters (c :: cs)).fault text.toList)

end QueueWorker.Json
