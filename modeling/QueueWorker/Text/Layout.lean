import QueueWorker.Text.Quoted

namespace QueueWorker.Text

/-- A value as it is shown to a person: a word, a record with named fields, or a name applied to
values. -/
inductive Layout
  | word (text : String)
  | record (name : String) (fields : List (String × Layout))
  | applied (name : String) (args : List Layout)

namespace Layout

def text (s : String) : Layout := .word (quoted s)

def number (n : Nat) : Layout := .word (toString n)

def optional {α : Type} (show' : α → Layout) : Option α → Layout
  | none => .word "None"
  | some a => .applied "Some" [show' a]

mutual

def inline : Layout → String
  | .word t => t
  | .record name [] => name
  | .record name (f :: fs) => name ++ " \x7b " ++ inlineFields (f :: fs) ++ " \x7d"
  | .applied name [] => name
  | .applied name (a :: as) => name ++ "(" ++ inlineArgs (a :: as) ++ ")"

def inlineFields : List (String × Layout) → String
  | [] => ""
  | [(k, v)] => k ++ ": " ++ inline v
  | (k, v) :: f :: fs => k ++ ": " ++ inline v ++ ", " ++ inlineFields (f :: fs)

def inlineArgs : List Layout → String
  | [] => ""
  | [v] => inline v
  | v :: a :: as => inline v ++ ", " ++ inlineArgs (a :: as)

end

def margin (depth : Nat) : String := String.ofList (List.replicate (4 * depth) ' ')

mutual

/-- The value with each part on a line of its own. The first line carries no margin, the last one
that of `depth`. -/
def tall (depth : Nat) : Layout → String
  | .word t => t
  | .record name [] => name
  | .record name (f :: fs) =>
      name ++ " \x7b\n" ++ tallFields depth (f :: fs) ++ margin depth ++ "\x7d"
  | .applied name [] => name
  | .applied name (a :: as) => name ++ "(\n" ++ tallArgs depth (a :: as) ++ margin depth ++ ")"

def tallFields (depth : Nat) : List (String × Layout) → String
  | [] => ""
  | (k, v) :: fs =>
      margin (depth + 1) ++ k ++ ": " ++ tall (depth + 1) v ++ ",\n" ++ tallFields depth fs

def tallArgs (depth : Nat) : List Layout → String
  | [] => ""
  | v :: as => margin (depth + 1) ++ tall (depth + 1) v ++ ",\n" ++ tallArgs depth as

end

end Layout

end QueueWorker.Text
