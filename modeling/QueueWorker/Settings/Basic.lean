import QueueWorker.Fault
import QueueWorker.Priority

namespace QueueWorker

open Text

/-- What a worker consults each time it spawns its thread. Without a stack size the platform
chooses one. -/
structure Settings where
  name : String := "message-thread"
  priority : Priority := .normal
  stackSize : Option UInt64 := none
  deriving DecidableEq, Repr

namespace Settings

def named (name : String) : Settings := { name }

def withPriority (s : Settings) (p : Priority) : Settings := { s with priority := p }

def lowPriority (s : Settings) : Settings := s.withPriority .background

def withStackSize (s : Settings) (bytes : UInt64) : Settings := { s with stackSize := some bytes }

/-- The first reason, if any, for which no thread can be given these settings. -/
def check (s : Settings) : Except Fault Unit :=
  if s.name.isEmpty then .error (.setting "name" "must not be empty")
  else if s.name.toList.contains '\x00' then .error (.setting "name" "must not contain NUL bytes")
  else if s.stackSize = some 0 then .error (.setting "stack_size" "must be non-zero")
  else .ok ()

def layout (s : Settings) : Layout :=
  .record "WorkerThreadConfig" [("name", .text s.name), ("priority", .word s.priority.label),
    ("stack_size", .optional (fun n => .number n.toNat) s.stackSize)]

end Settings

end QueueWorker
