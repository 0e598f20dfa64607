namespace QueueWorker

structure Standing where
  niceness : Nat := 0
  batch : Bool := false
  deriving DecidableEq, Repr

def Standing.lowered (s : Standing) : Standing := ⟨min (s.niceness + 1) 19, true⟩

def Standing.policy (s : Standing) : String := if s.batch then "batch" else "other"

/-- The standing a worker thread asks for before it takes its first item. -/
inductive Priority
  | normal
  | background
  deriving DecidableEq, Repr, Inhabited

namespace Priority

def ofBool : Bool → Priority
  | true => background
  | false => normal

def isBackground (p : Priority) : Bool := p = background

def apply : Priority → Standing → Standing
  | normal, s => s
  | background, s => s.lowered

def label : Priority → String
  | normal => "Normal"
  | background => "Background"

def key : Priority → String
  | normal => "normal"
  | background => "background"

def ofKey? (s : String) : Option Priority :=
  if s = normal.key then some normal else if s = background.key then some background else none

@[simp] theorem ofKey?_key (p : Priority) : ofKey? p.key = some p := by cases p <;> decide

@[simp] theorem isBackground_ofBool (b : Bool) : (ofBool b).isBackground = b := by cases b <;> rfl

end Priority

end QueueWorker
