import QueueWorker.Message
import QueueWorker.Payload
import QueueWorker.Settings.Basic
import QueueWorker.Stats

namespace QueueWorker.Worker

open Text

inductive Status
  | idle
  | running
  | stopping
  deriving DecidableEq, Repr

def Status.label : Status → String
  | idle => "Idle"
  | running => "Running"
  | stopping => "Stopping"

/-- A worker's state as it keeps it. While a caller waits for a thread to end, the worker itself
does not know the thread. -/
inductive Phase
  | idle
  | running (thread : Nat)
  | stopping (thread : Nat)
  | joining
  deriving DecidableEq, Repr

def Phase.status : Phase → Status
  | idle => .idle
  | running _ => .running
  | stopping _ | joining => .stopping

/-- What a thread can ask of a worker. A batch is `sendBroken` when its source unwinds behind the
given items. -/
inductive Call (α : Type)
  | start
  | send (a : α)
  | sendAll (as : List α)
  | sendBroken (as : List α)
  | stop
  | join
  | drop
  | status
  | length
  | settings
  deriving DecidableEq, Repr

inductive Reply
  | done
  | broken
  | failed (f : Fault)
  | status (s : Status)
  | length (n : Nat)
  | settings (s : Settings)
  | gone
  deriving DecidableEq, Repr

structure Identity where
  name : String
  standing : Standing
  deriving DecidableEq, Repr

/-- The course of one run of a callback. It may wait until it is let go, report something, and use
its own worker. -/
inductive Script (α ρ : Type)
  | finish
  | unwind (p : Payload)
  | hold (rest : Script α ρ)
  | report (e : ρ) (rest : Script α ρ)
  | self (rest : Identity → Script α ρ)
  | ask (c : Call α) (rest : Reply → Script α ρ)

/-- An item that a callback was called on, with what it learnt from its worker meanwhile. -/
structure Visit (α : Type) where
  item : α
  replies : List Reply
  deriving DecidableEq, Repr

/-- A callback goes by the item and by all that it has been through before. -/
abbrev Callback (α ρ : Type) := List (Visit α) → α → Script α ρ

/-- The place where a worker keeps its callback. Each registration makes a new version. -/
structure Slot (α ρ : Type) where
  callback : Option (Callback α ρ)
  visits : List (Visit α) := []
  version : Nat := 0
  holder : Option Nat := none

inductive Agent
  | client (i : Nat)
  | thread (t : Nat)
  deriving DecidableEq, Repr

inductive Purpose
  | stop
  | join
  | drop
  deriving DecidableEq, Repr

/-- Where a call stands: what it does next. A call that is to start a thread carries the batch
that it has to queue, if any. -/
inductive Cursor (α : Type)
  | entering (load : Option (List α))
  | ensuring (load : Option (List α))
  | reclaiming (load : Option (List α)) (thread : Nat)
  | spawning (load : Option (List α))
  | counting (load : Option (List α)) (thread : Nat)
  | announcing (load : Option (List α)) (thread : Nat)
  | adopting (load : Option (List α)) (thread : Nat)
  | abandoning (load : Option (List α)) (f : Fault)
  | checking (batch : List α)
  | pushing (batch : List α)
  | leaving (load : Option (List α)) (r : Reply)
  | stopping (p : Purpose)
  | marking (p : Purpose) (thread : Nat)
  | enteringJoin
  | taking
  | awaiting (thread : Nat)
  | settling (r : Reply)
  | retiring
  | outliving (thread : Nat)
  | sweeping
  | readingStatus
  | readingLength
  deriving DecidableEq, Repr

inductive Outcome
  | returned
  | panicked (p : Payload)
  | skipped
  deriving DecidableEq, Repr

/-- Where a worker's thread stands. From `lacking` and `running` on up to `leaving` it holds the
callback. -/
inductive Stage (α ρ : Type)
  | starting
  | polling
  | sleeping
  | fetched (a : α)
  | lacking (a : α)
  | skipping (a : α)
  | running (a : α) (replies : List Reply) (script : Script α ρ)
  | calling (a : α) (replies : List Reply) (cursor : Cursor α) (rest : Reply → Script α ρ)
  | concluded (a : α) (o : Option Payload)
  | noted (a : α) (p : Payload)
  | leaving (p : Option Payload)
  | exiting
  | exited
  | dead (p : Payload)

structure Thread (α ρ : Type) where
  priority : Priority
  standing : Standing := {}
  stage : Stage α ρ := .starting

inductive Client (α ρ : Type)
  | idle (last : Option Reply)
  | calling (cursor : Cursor α)
  | registering (f : Callback α ρ)

inductive Owner
  | shared
  | dropping
  | gone
  deriving DecidableEq, Repr

inductive Line
  | spawned (p : Priority)
  | joined
  | exiting (items : Nat)
  | lacking
  | panicked (message : String)
  | reclaimed (f : Fault)
  | outlived (f : Fault)
  deriving DecidableEq, Repr

def Line.text (name : String) : Line → String
  | spawned p => "DEBUG spawned worker thread '" ++ name ++ "' (priority " ++ p.label ++ ")"
  | joined => "DEBUG joined worker thread '" ++ name ++ "'"
  | exiting n => "DEBUG worker thread '" ++ name ++ "' exiting after " ++ toString n ++ " items"
  | lacking => "WARN worker thread '" ++ name ++ "': no callback registered, item dropped"
  | panicked m => "ERROR worker thread '" ++ name ++ "': callback panicked: " ++ m
  | reclaimed f => "WARN " ++ f.message
  | outlived f => "ERROR " ++ f.message ++ " during drop"

inductive Entry (α ρ : Type)
  | queued (by' : Agent) (as : List α)
  | began (thread version : Nat) (a : α)
  | counted (thread : Nat) (a : α) (o : Outcome)
  | logged (by' : Agent) (line : Line)
  | reported (thread : Nat) (e : ρ)
  | discarded (a : α)
  deriving DecidableEq, Repr

/-- A worker with its threads, the clients that use it, and all that has happened. `lifecycle` and
`guard` tell who has the lock over spawning and joining, and the one over `phase`. -/
structure State (α ρ : Type) where
  queue : List (Message α) := []
  phase : Phase := .idle
  lifecycle : Option Agent := none
  guard : Option Agent := none
  slot : Slot α ρ
  settings : Settings
  stats : Stats := {}
  threads : List (Thread α ρ) := []
  clients : List (Client α ρ)
  owner : Owner := .shared
  attempts : Nat := 0
  rounds : Nat := 0
  trace : List (Entry α ρ) := []

/-- What a worker finds but does not decide: whether the system gives it a thread at an attempt,
what unwinds a thread that throws an item away, and how many microseconds each round takes. -/
structure Host (α : Type) where
  refusal : Nat → Option SystemError
  disposal : α → Option Payload
  elapsed : Nat → UInt64

variable {α ρ : Type}

def State.create (settings : Settings) (callback : Option (Callback α ρ)) (clients : Nat) :
    State α ρ :=
  { slot := { callback }, settings, clients := List.replicate clients (.idle none) }

def layout (settings : Settings) (status : Status) (length : Nat) : Layout :=
  .record "WorkerThread" [("config", settings.layout), ("state", .word status.label),
    ("queued", .number length)]

end QueueWorker.Worker
