namespace QueueWorker

/-- What unwinds a thread. A bomb unwinds the thread that throws it away once more. -/
inductive Payload
  | text (s : String)
  | mute
  | bomb (s : String)
  deriving DecidableEq, Repr

namespace Payload

def text? : Payload → Option String
  | text s => some s
  | mute | bomb _ => none

def message (p : Payload) : String := p.text?.getD "Unknown panic"

def relic? : Payload → Option Payload
  | bomb s => some (.text s)
  | text _ | mute => none

def selfJoin : Payload := .text "failed to join thread: Resource deadlock avoided (os error 35)"

end Payload

end QueueWorker
