import QueueWorker.Queue.Basic

namespace QueueWorker.Queue

variable {α : Type}

namespace State

def settle : Nat → State α → State α
  | 0, s => s
  | n + 1, s =>
      match (List.range s.threads.length).findSome? (fun i => s.next? (.step i 0)) with
      | none => s
      | some t => settle n t

def perform (s : State α) (a : Act α) : State α := (s.next? a).getD s

/-- Calls from a thread and lets all threads work on. No source may ask the queue, so a call takes
a step for each item of its batch and each thread a few of its own. -/
def finish (s : State α) (i : Nat) (c : Call α) (size : Nat) : State α :=
  (s.perform (.call i c)).settle (size + 4 * s.threads.length + 4)

def lastReply? (s : State α) (i : Nat) : Option (Reply α) :=
  match s.threads[i]? with
  | some (.idle r) => r
  | _ => none

end State

/-- Time is counted in billionths of a second, and the clock shows 2 ^ 63 seconds. -/
def second : Nat := 1000000000

def horizon : Nat := 0x8000000000000000 * second - 1

def caller : Nat := 0

inductive Slot
  | a
  | b
  deriving DecidableEq, Repr

def Slot.other : Slot → Slot
  | a => b
  | b => a

inductive Command (α : Type)
  | push (a : α)
  | pushAll (as : List α)
  | pushBroken (as : List α) (position : Nat)
  | refill (source : Slot)
  | pop
  | popWithin (seconds : Nat) (nanos : Nat)
  | tryPop
  | drain
  | isEmpty
  | look
  | move
  | renew
  | consume (timeout : Option Nat)

inductive Outcome (α : Type)
  | done
  | broken
  | wouldBlock
  | beyond
  | item? (a : Option α)
  | items (as : List α)
  | flag (b : Bool)
  | length (n : Nat)

def beyondMessage : String := "overflow when adding duration to instant"

def Reply.outcome : Reply α → Outcome α
  | done => .done
  | broken => .broken
  | beyond => .beyond
  | item a => .item? (some a)
  | nothing => .item? none
  | items as => .items as
  | length n => .length n

structure Answer (α : Type) where
  outcome : Outcome α
  lengths : Nat × Nat
  delivered : List α
  waiting : Nat

/-- Two queues, each with the threads that use it. -/
structure Scenario (α : Type) where
  a : State α
  b : State α

namespace Scenario

def empty : State α := .fresh 1 horizon

def start : Scenario α := ⟨empty, empty⟩

def queue (s : Scenario α) : Slot → State α
  | .a => s.a
  | .b => s.b

def replace (s : Scenario α) (slot : Slot) (q : State α) : Scenario α :=
  match slot with
  | .a => { s with a := q }
  | .b => { s with b := q }

def call (s : Scenario α) (slot : Slot) (c : Call α) (size : Nat) : Scenario α × Outcome α :=
  let q := (s.queue slot).finish caller c size
  (s.replace slot q, match q.lastReply? caller with
    | some r => r.outcome
    | none => .wouldBlock)

def ask (s : Scenario α) (slot : Slot) (r : Request α) : Scenario α × Outcome α :=
  s.call slot (.plain r) 0

def pushAll (s : Scenario α) (slot : Slot) (as : List α) : Scenario α × Outcome α :=
  s.call slot (.batch (.ofList as)) as.length

def popSoon (s : Scenario α) (slot : Slot) (time : Nat) : Scenario α × Outcome α :=
  let (s, _) := s.ask slot (.popWithin time)
  let q := (s.queue slot).perform (.pass time)
  let q := (q.perform (.expire caller)).settle (4 * q.threads.length + 4)
  (s.replace slot q, match q.lastReply? caller with
    | some r => r.outcome
    | none => .wouldBlock)

def consume (s : Scenario α) (slot : Slot) (r : Request α) : Scenario α × Outcome α :=
  let q := s.queue slot
  let i := q.threads.length
  let q := { q with threads := q.threads ++ [Stage.idle none] }.finish i (.plain r) 0
  (s.replace slot q, .done)

def run (s : Scenario α) (slot : Slot) : Command α → Scenario α × Outcome α
  | .push a => s.ask slot (.push a)
  | .pushAll as => s.pushAll slot as
  | .pushBroken as k =>
      if k < as.length then s.call slot (.batch (.broken (as.take k))) as.length
      else s.pushAll slot as
  | .refill source =>
      match s.ask source .drain with
      | (s, .items as) => s.pushAll slot as
      | r => r
  | .pop => if (s.queue slot).items.isEmpty then (s, .wouldBlock) else s.ask slot .pop
  | .popWithin seconds nanos =>
      let time := seconds * second + nanos
      if seconds = 0 then s.popSoon slot time
      else if (s.queue slot).items.isEmpty ∧ time ≤ horizon then (s, .wouldBlock)
      else s.ask slot (.popWithin time)
  | .tryPop => s.ask slot .tryPop
  | .drain => s.ask slot .drain
  | .isEmpty =>
      match s.ask slot .length with
      | (s, .length n) => (s, .flag (n = 0))
      | r => r
  | .look => s.ask slot .length
  | .move => ((s.replace slot.other (s.queue slot)).replace slot empty, .done)
  | .renew => (s.replace slot empty, .done)
  | .consume none => s.consume slot .pop
  | .consume (some time) => s.consume slot (.popWithin time)

def deliveries (es : List (Entry α)) : List α :=
  es.flatMap (fun e => match e with
    | .removed i as => if i = caller then [] else as
    | _ => [])

def step (s : Scenario α) (slot : Slot) (c : Command α) : Scenario α × Answer α :=
  let before := (s.queue slot).trace.length
  let (s, outcome) := s.run slot c
  let q := s.queue slot
  (s, ⟨outcome, (s.a.items.length, s.b.items.length), deliveries (q.trace.drop before),
    q.sleepers.length⟩)

def answers (s : Scenario α) : List (Slot × Command α) → List (Answer α)
  | [] => []
  | (slot, c) :: cs =>
      let (s, answer) := s.step slot c
      answer :: s.answers cs

end Scenario

end QueueWorker.Queue
