namespace QueueWorker

/-- What travels through a worker's queue. The request to stop is no item, so that no item can be
taken for it, and it is met only after every item queued before it. -/
inductive Message (α : Type)
  | item (a : α)
  | stop
  deriving DecidableEq, Repr

namespace Message

variable {α : Type}

instance : Coe α (Message α) := ⟨item⟩

def isStop : Message α → Bool
  | item _ => false
  | stop => true

def item? : Message α → Option α
  | item a => some a
  | stop => none

def label : Message α → String
  | item _ => "Message::Item(..)"
  | stop => "Message::Stop"

theorem isStop_eq_isNone (m : Message α) : m.isStop = m.item?.isNone := by cases m <;> rfl

end Message

end QueueWorker
