import QueueWorker.Payload
import QueueWorker.Text.Layout

namespace QueueWorker.Notify

open Text

/-- The course of one run of a callback. It may report something, and use its own queue. -/
inductive Script (α ρ : Type)
  | finish
  | unwind (p : Payload)
  | report (e : ρ) (rest : Script α ρ)
  | notify (a : α) (rest : Script α ρ)
  | length (rest : Nat → Script α ρ)

/-- A callback goes by the item and by the items it was called on before. -/
abbrev Callback (α ρ : Type) := List α → α → Script α ρ

/-- Where the task stands that drains the queue. Before it waits it uses up a permit if there is
one. -/
inductive Task (α ρ : Type)
  | ready
  | waiting
  | checking
  | draining
  | calling (a : α) (script : Script α ρ)
  | waking (a : α) (rest : Script α ρ)
  | closing
  | ended
  | failed (p : Payload)

inductive Producer
  | idle
  | pushed
  deriving DecidableEq, Repr

/-- How far the owner has come with closing the queue, and what it then has done on completion.
However it closes the queue, it drops it in the end. -/
inductive Closing (δ : Type)
  | unasked
  | marked (after : Option δ)
  | woken (after : Option δ)
  | dropping
  | finished
  deriving DecidableEq, Repr

inductive Completion (δ : Type)
  | none
  | waiting (data : δ)
  | run
  deriving DecidableEq, Repr

inductive Line
  | unregistered (dropped : Nat)
  | failed (p : Payload)
  deriving DecidableEq, Repr

def Line.text : Line → String
  | unregistered n => "DEBUG notify queue unregistered (" ++ toString n ++ " items dropped)"
  | failed p => "ERROR notify queue drain task failed: task # panicked" ++
      match p.text? with
      | some s => " with message " ++ quoted s
      | none => ""

inductive Entry (α ρ δ : Type)
  | pushed (a : α)
  | called (a : α)
  | reported (e : ρ)
  | logged (line : Line)
  | completed (data : δ)
  deriving DecidableEq, Repr

/-- A queue whose items a task hands to a callback. The wake-ups of a task that does not wait
become one permit. The owner has the task's `handle` until it closes the queue. -/
structure State (α ρ δ : Type) where
  items : List α := []
  permit : Bool := false
  closed : Bool := false
  handle : Bool := true
  callback : Callback α ρ
  visits : List α := []
  task : Task α ρ := .ready
  producers : List Producer
  closing : Closing δ := .unasked
  completion : Completion δ := .none
  trace : List (Entry α ρ δ) := []

/-- What happens next: a producer notifies, the owner asks for the close or just drops the queue,
or one of the parties takes its next step. -/
inductive Act (α δ : Type)
  | notify (producer : Nat) (a : α)
  | close (after : Option δ)
  | drop
  | producer (producer : Nat)
  | owner
  | task
  | completion

variable {α ρ δ : Type}

namespace State

def create (callback : Callback α ρ) (producers : Nat) : State α ρ δ :=
  { callback, producers := List.replicate producers .idle }

def note (s : State α ρ δ) (e : Entry α ρ δ) : State α ρ δ := { s with trace := s.trace ++ [e] }

def push (s : State α ρ δ) (a : α) : State α ρ δ :=
  { s with items := s.items ++ [a] }.note (.pushed a)

def wake (s : State α ρ δ) : State α ρ δ :=
  match s.task with
  | .waiting => { s with task := .checking }
  | _ => { s with permit := true }

def follow (s : State α ρ δ) (a : α) : Script α ρ → State α ρ δ
  | .finish => { s with task := .draining, visits := s.visits ++ [a] }
  | .unwind p => { s with task := .failed p, visits := s.visits ++ [a] }
  | .report e rest => { s with task := .calling a rest }.note (.reported e)
  | .notify b rest => { s with task := .waking a rest }.push b
  | .length rest => { s with task := .calling a (rest s.items.length) }

def work? (s : State α ρ δ) : Option (State α ρ δ) :=
  match s.task with
  | .ready =>
      some (if s.permit then { s with permit := false, task := .checking }
        else { s with task := .waiting })
  | .waiting => none
  | .checking => some { s with task := if s.closed then .closing else .draining }
  | .draining =>
      some (match s.items with
        | [] => { s with task := .ready }
        | a :: as =>
            { s with items := as, task := .calling a (s.callback s.visits a) }.note (.called a))
  | .calling a script => some (s.follow a script)
  | .waking a rest => some { s.wake with task := .calling a rest }
  | .closing =>
      some ({ s with task := .ended }.note (.logged (.unregistered s.items.length)))
  | .ended => none
  | .failed _ => none

def unregister (s : State α ρ δ) (after : Option δ) : State α ρ δ :=
  if s.handle then { s with handle := false, closed := true, closing := .marked after }
  else { s with closing := .finished }

def proceed? (s : State α ρ δ) : Option (State α ρ δ) :=
  match s.closing with
  | .marked after => some { s.wake with closing := .woken after }
  | .woken none => some { s with closing := .dropping }
  | .woken (some d) => some { s with closing := .dropping, completion := .waiting d }
  | .dropping => some (s.unregister none)
  | .unasked | .finished => none

def complete? (s : State α ρ δ) : Option (State α ρ δ) :=
  match s.completion, s.task with
  | .waiting d, .ended => some ({ s with completion := .run }.note (.completed d))
  | .waiting d, .failed p =>
      some (({ s with completion := .run }.note (.logged (.failed p))).note (.completed d))
  | _, _ => none

def next? (s : State α ρ δ) : Act α δ → Option (State α ρ δ)
  | .notify i a =>
      match s.producers[i]?, s.closing with
      | some .idle, .unasked => some ({ s with producers := s.producers.set i .pushed }.push a)
      | _, _ => none
  | .close after =>
      match s.closing with
      | .unasked => some (s.unregister after)
      | _ => none
  | .drop =>
      match s.closing with
      | .unasked => some { s with closing := .dropping }
      | _ => none
  | .producer i =>
      match s.producers[i]? with
      | some .pushed => some { s.wake with producers := s.producers.set i .idle }
      | _ => none
  | .owner => s.proceed?
  | .task => s.work?
  | .completion => s.complete?

end State

def layout (length : Nat) (closed : Bool) : Layout :=
  .record "NotifyQueue" [("len", .number length),
    ("closed", .word (if closed then "true" else "false"))]

end QueueWorker.Notify
