import QueueWorker.Worker.Job

namespace QueueWorker.Worker

variable {V : Type}

namespace State

variable {α ρ : Type}

def moves (s : State α ρ) : List (Act α ρ) :=
  (List.range s.clients.length).map .client ++ (List.range s.threads.length).map .thread

def settle (h : Host α) : Nat → State α ρ → State α ρ
  | 0, s => s
  | n + 1, s =>
      match s.moves.findSome? (s.next? h) with
      | none => s
      | some t => settle h n t

def perform (h : Host α) (s : State α ρ) (a : Act α ρ) : State α ρ := (s.next? h a).getD s

def held? (s : State α ρ) : Option Nat :=
  s.threads.findIdx? (fun th => th.stage matches .running _ _ (.hold _))

def lastReply? (s : State α ρ) (i : Nat) : Option Reply :=
  match s.clients[i]? with
  | some (.idle r) => r
  | _ => none

end State

structure Spec where
  callback : Option String := none
  settings : Settings := {}

inductive Command (V : Type)
  | start
  | send (j : Job V)
  | sendAll (js : List (Job V))
  | sendBroken (js : List (Job V)) (position : Nat)
  | stop
  | join
  | release
  | look
  | register (callback : String)
  | drop
  | prefer (p : Priority)

inductive Order (V : Type)
  | command (c : Command V)
  | renew (spec : Spec)

def Command.size : Command V → Nat
  | send j => j.jobSize
  | sendAll js | sendBroken js _ => Job.jobsSize js
  | _ => 1

def Order.size : Order V → Nat
  | command c => c.size
  | renew _ => 1

inductive Result
  | reply (r : Reply)
  | pending
  | busy
  | dropped
  | view (status : Status) (length : Nat) (settings : Settings) (layout : Text.Layout)

/-- What can be seen behind a command: events, and the log of the clients and of the threads, since
the command before. A worker that is gone shows no status. -/
structure Report (V : Type) where
  result : Result
  shown : Option (Status × Nat)
  stats : Stats
  events : List (Event V ⊕ V)
  log : List String
  threadLog : List String
  finished : Option Reply

inductive Answer (V : Type)
  | report (r : Report V)
  | renewed (s : Status) (length : Nat)
  | refused (f : Fault)

/-- A worker used by one client that may have to wait and by one that never does. -/
structure Scenario (V : Type) where
  worker : State (Job V) (Event V)
  pending : Bool := false

namespace Scenario

def patient : Nat := 0

def other : Nat := 1

def hugeStack : UInt64 := 0x80000000000000

def host (settings : Settings) : Host (Job V) where
  refusal _ := match settings.stackSize with
    | some n => if hugeStack ≤ n then some ⟨"WouldBlock", "Resource temporarily unavailable"⟩
        else none
    | none => none
  disposal := Job.disposal
  elapsed _ := 0

def make (spec : Spec) : Except Fault (Scenario V) := do
  spec.settings.check
  return ⟨.create spec.settings (spec.callback.map Job.callback) 2, false⟩

def settle (fuel : Nat) (s : Scenario V) : Scenario V :=
  { s with worker := s.worker.settle (host s.worker.settings) fuel }

def perform (s : Scenario V) (a : Act (Job V) (Event V)) : Scenario V :=
  { s with worker := s.worker.perform (host s.worker.settings) a }

def replyOf (s : Scenario V) (i : Nat) : Result :=
  match s.worker.lastReply? i with
  | some r => .reply r
  | none => .pending

def callPatiently (fuel : Nat) (s : Scenario V) (c : Call (Job V)) (js : List (Job V)) :
    Scenario V × Result :=
  if s.pending then ({ s with worker := s.worker.discard js }, .busy)
  else
    let s := (s.perform (.call patient c)).settle fuel
    let r := s.replyOf patient
    ({ s with pending := r matches .pending }, r)

def callOther (fuel : Nat) (s : Scenario V) (a : Act (Job V) (Event V)) : Scenario V × Result :=
  let s := (s.perform a).settle fuel
  (s, s.replyOf other)

def isBusy (s : Scenario V) : Bool := s.pending || s.worker.held?.isSome

def run (fuel : Nat) (s : Scenario V) : Command V → Scenario V × Result
  | .start => s.callPatiently fuel .start []
  | .send j => s.callPatiently fuel (.send j) [j]
  | .sendAll js => s.callPatiently fuel (.sendAll js) js
  | .sendBroken js k =>
      if k < js.length then s.callOther fuel (.call other (.sendBroken (js.take k)))
      else s.callPatiently fuel (.sendAll js) js
  | .stop => s.callOther fuel (.call other .stop)
  | .join => s.callPatiently fuel .join []
  | .release =>
      match s.worker.held? with
      | some t => ((s.perform (.release t)).settle fuel, .reply .done)
      | none => (s, .reply .done)
  | .look =>
      let status := s.worker.phase.status
      let n := s.worker.queue.length
      (s, .view status n s.worker.settings (layout s.worker.settings status n))
  | .register name =>
      if s.isBusy then (s, .busy) else s.callOther fuel (.register other (Job.callback name))
  | .drop => if s.isBusy then (s, .busy) else s.callOther fuel (.call other .drop)
  | .prefer p => if s.pending then (s, .busy) else (s.perform (.prefer other p), .reply .done)

def isGone (s : Scenario V) : Bool := s.worker.owner = .gone

def eventsOf (es : List (Entry (Job V) (Event V))) : List (Event V ⊕ V) :=
  es.filterMap (fun e => match e with
    | .reported _ e => some (.inl e)
    | .discarded j => some (.inr j.value)
    | _ => none)

def linesOf (name : String) (fromThreads : Bool) (es : List (Entry (Job V) (Event V))) :
    List String :=
  es.filterMap (fun e => match e with
    | .logged (.client _) line => if fromThreads then none else some (line.text name)
    | .logged (.thread _) line => if fromThreads then some (line.text name) else none
    | _ => none)

def report (s : Scenario V) (before : Nat) (result : Result) (finished : Option Reply) :
    Report V :=
  let es := s.worker.trace.drop before
  let name := s.worker.settings.name
  let shown := (s.worker.phase.status, s.worker.queue.length)
  ⟨result, if s.isGone then none else some shown, s.worker.stats, eventsOf es,
    linesOf name false es, linesOf name true es, finished⟩

def step (fuel : Nat) (s : Scenario V) (c : Command V) : Scenario V × Report V :=
  let before := s.worker.trace.length
  if s.isGone then (s, s.report before .dropped none)
  else
    let (t, result) := s.run fuel c
    if s.pending then
      match t.worker.lastReply? patient with
      | some r => ({ t with pending := false }, t.report before result (some r))
      | none => (t, t.report before result none)
    else (t, t.report before result none)

def answers (fuel : Nat) (s : Scenario V) : List (Order V) → List (Answer V)
  | [] => []
  | .renew spec :: os =>
      match make spec with
      | .error f => [.refused f]
      | .ok s => .renewed s.worker.phase.status s.worker.queue.length :: answers fuel s os
  | .command c :: os =>
      let (s, r) := s.step fuel c
      .report r :: answers fuel s os

def answersTo (spec : Spec) (os : List (Order V)) : Except Fault (List (Answer V)) := do
  let s ← make spec
  return s.answers (32 * (os.foldl (fun n o => n + o.size + 1) 4)) os

end Scenario

end QueueWorker.Worker
