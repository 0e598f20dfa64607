import QueueWorker.Worker.Basic

namespace QueueWorker.Worker

variable {α ρ : Type}

namespace Stage

def end? : Stage α ρ → Option (Option Payload)
  | exited => some none
  | dead p => some (some p)
  | _ => none

def isSleeping : Stage α ρ → Bool
  | sleeping => true
  | _ => false

def isCalling : Stage α ρ → Bool
  | calling .. => true
  | _ => false

end Stage

def Slot.visited (slot : Slot α ρ) (v : Visit α) : Slot α ρ :=
  { slot with visits := slot.visits ++ [v] }

def Client.isIdle : Client α ρ → Bool
  | idle _ => true
  | _ => false

def Outcome.counter : Outcome → Stats.Counter
  | returned => .processed
  | panicked _ => .panicked
  | skipped => .skipped

namespace State

def note (s : State α ρ) (e : Entry α ρ) : State α ρ := { s with trace := s.trace ++ [e] }

def log (s : State α ρ) (me : Agent) (line : Line) : State α ρ := s.note (.logged me line)

def discard (s : State α ρ) (as : List α) : State α ρ :=
  { s with trace := s.trace ++ as.map .discarded }

def setStage (s : State α ρ) (t : Nat) (stage : Stage α ρ) : State α ρ :=
  { s with threads := s.threads.modify t (fun th => { th with stage }) }

def end? (s : State α ρ) (t : Nat) : Option (Option Payload) :=
  s.threads[t]?.bind (fun th => th.stage.end?)

/-- Queues messages and wakes one sleeping thread, if there is one. -/
def push (s : State α ρ) (ms : List (Message α)) : State α ρ :=
  let s := { s with queue := s.queue ++ ms }
  match s.threads.findIdx? (fun th => th.stage.isSleeping) with
  | some t => if ms.isEmpty then s else s.setStage t .polling
  | none => s

def joinFault (s : State α ρ) (p : Payload) : Fault := .join s.settings.name p.message

def isQuiet (s : State α ρ) : Bool :=
  s.clients.all Client.isIdle && s.threads.all (fun th => !th.stage.isCalling)

end State

inductive Progress (α : Type)
  | at (c : Cursor α)
  | answer (r : Reply)
  | unwind (p : Payload)

/-- A call before its first step. One whose batch fails to come about has no first step. -/
def Call.begin (s : State α ρ) : Call α → Progress α
  | start => .at (.entering none)
  | send a => .at (.entering (some [a]))
  | sendAll as => .at (.entering (some as))
  | sendBroken _ => .answer .broken
  | stop => .at (.stopping .stop)
  | join => .at .enteringJoin
  | drop => .at (.stopping .drop)
  | status => .at .readingStatus
  | length => .at .readingLength
  | settings => .answer (.settings s.settings)

def Purpose.next : Purpose → Progress α
  | stop => .answer .done
  | join => .at .taking
  | drop => .at .retiring

namespace State

/-- A worker thread that waits for its own end is unwound and gives the lifecycle lock back. -/
def joinSelf (s : State α ρ) : State α ρ × Progress α :=
  ({ s with lifecycle := none }, .unwind .selfJoin)

/-- Performs one step of a call, unless the call has to wait. Every step that looks at the phase
needs its lock to be free, and those that queue something under that lock keep it for one more
step. -/
def advance (h : Host α) (s : State α ρ) (me : Agent) : Cursor α → Option (State α ρ × Progress α)
  | .entering load =>
      if s.lifecycle = none then some ({ s with lifecycle := some me }, .at (.ensuring load))
      else none
  | .ensuring load =>
      if s.guard ≠ none then none
      else match s.phase with
        | .running _ =>
            match load with
            | none => some (s, .at (.leaving none .done))
            | some batch => some (s, .at (.checking batch))
        | .stopping t => some ({ s with phase := .joining }, .at (.reclaiming load t))
        | .idle | .joining => some ({ s with phase := .idle }, .at (.spawning load))
  | .reclaiming load t =>
      if me = .thread t then some ((s.discard (load.getD [])).joinSelf)
      else match s.end? t with
        | none => none
        | some none => some (s.log me .joined, .at (.spawning load))
        | some (some p) => some (s.log me (.reclaimed (s.joinFault p)), .at (.spawning load))
  | .spawning load =>
      let s' := { s with attempts := s.attempts + 1 }
      match h.refusal s.attempts with
      | some e =>
          some (s', .at (.abandoning load
            (.spawn s.settings.name "Cannot create thread" (some e))))
      | none =>
          some ({ s' with threads := s.threads ++ [{ priority := s.settings.priority }] },
            .at (.counting load s.threads.length))
  | .counting load t => some ({ s with stats := s.stats.add .spawned 1 }, .at (.announcing load t))
  | .announcing load t =>
      match s.threads[t]? with
      | some th => some (s.log me (.spawned th.priority), .at (.adopting load t))
      | none => none
  | .adopting load t =>
      if s.guard ≠ none then none
      else
        let s' := { s with phase := .running t }
        match load with
        | none => some (s', .at (.leaving none .done))
        | some batch => some (s', .at (.checking batch))
  | .abandoning load f =>
      if s.guard ≠ none then none
      else some ({ s with phase := .idle }, .at (.leaving load (.failed f)))
  | .checking batch =>
      if s.guard ≠ none then none
      else match s.phase with
        | .running _ => some ({ s with guard := some me }, .at (.pushing batch))
        | _ => some (s, .at (.ensuring (some batch)))
  | .pushing batch =>
      let s := s.push (batch.map .item)
      some ({ s with guard := none }.note (.queued me batch), .at (.leaving none .done))
  | .leaving load r =>
      some ({ s with lifecycle := none }.discard (load.getD []), .answer r)
  | .stopping p =>
      if s.guard ≠ none then none
      else match s.phase with
        | .running t => some ({ s with guard := some me }, .at (.marking p t))
        | _ => some (s, p.next)
  | .marking p t =>
      some ({ s.push [.stop] with phase := .stopping t, guard := none }, p.next)
  | .enteringJoin =>
      if s.lifecycle = none then some ({ s with lifecycle := some me }, .at (.stopping .join))
      else none
  | .taking =>
      if s.guard ≠ none then none
      else match s.phase with
        | .stopping t => some ({ s with phase := .joining }, .at (.awaiting t))
        | _ => some (s, .at (.leaving none .done))
  | .awaiting t =>
      if me = .thread t then some s.joinSelf
      else match s.end? t with
        | none => none
        | some none => some (s.log me .joined, .at (.settling .done))
        | some (some p) => some (s, .at (.settling (.failed (s.joinFault p))))
  | .settling r =>
      if s.guard ≠ none then none
      else some ({ s with phase := .idle }, .at (.leaving none r))
  | .retiring =>
      match s.phase with
      | .stopping t => some ({ s with phase := .idle }, .at (.outliving t))
      | _ => some (s, .at .sweeping)
  | .outliving t =>
      if me = .thread t then some ({ s with owner := .gone }, .unwind .selfJoin)
      else match s.end? t with
        | none => none
        | some none => some (s.log me .joined, .at .sweeping)
        | some (some p) => some (s.log me (.outlived (s.joinFault p)), .at .sweeping)
  | .sweeping =>
      let s := { s with owner := .gone }
      if s.threads.all (fun th => th.stage.end?.isSome) then
        some ({ s with queue := [] }.discard (s.queue.filterMap Message.item?), .answer .done)
      else some (s, .answer .done)
  | .readingStatus => if s.guard = none then some (s, .answer (.status s.phase.status)) else none
  | .readingLength => some (s, .answer (.length s.queue.length))

def poll (s : State α ρ) (t : Nat) : State α ρ :=
  match s.queue with
  | [] => s.setStage t .sleeping
  | .item a :: ms => { s with queue := ms }.setStage t (.fetched a)
  | .stop :: ms => { s with queue := ms }.setStage t .exiting

def invoke? (s : State α ρ) (t : Nat) (a : α) : Option (State α ρ) :=
  if s.slot.holder ≠ none then none
  else
    let s' := { s with slot := { s.slot with holder := some t } }
    match s.slot.callback with
    | none => some (s'.setStage t (.lacking a))
    | some f =>
        some ((s'.note (.began t s.slot.version a)).setStage t
          (.running a [] (f s.slot.visits a)))

def conclude (s : State α ρ) (t : Nat) (a : α) (replies : List Reply) (o : Option Payload) :
    State α ρ :=
  { s with slot := s.slot.visited ⟨a, replies⟩ }.setStage t (.concluded a o)

def ask? (s : State α ρ) (t : Nat) (a : α) (replies : List Reply) (c : Call α)
    (rest : Reply → Script α ρ) : Option (State α ρ) :=
  if s.owner ≠ .shared then some (s.setStage t (.running a (replies ++ [.gone]) (rest .gone)))
  else if c matches .drop then
    if s.isQuiet then
      some ({ s with owner := .dropping }.setStage t (.calling a replies (.stopping .drop) rest))
    else none
  else match c.begin s with
    | .at cursor => some (s.setStage t (.calling a replies cursor rest))
    | .answer r => some (s.setStage t (.running a (replies ++ [r]) (rest r)))
    | .unwind p => some (s.conclude t a replies (some p))

def follow? (h : Host α) (s : State α ρ) (t : Nat) (th : Thread α ρ) (a : α)
    (replies : List Reply) : Script α ρ → Option (State α ρ)
  | .finish => some (s.conclude t a replies (h.disposal a))
  | .unwind p => some (s.conclude t a replies (some p))
  | .hold _ => none
  | .report e rest =>
      some ((s.note (.reported t e)).setStage t (.running a replies rest))
  | .self rest =>
      some (s.setStage t (.running a replies (rest ⟨s.settings.name, th.standing⟩)))
  | .ask c rest => s.ask? t a replies c rest

def clock (h : Host α) (s : State α ρ) : State α ρ :=
  { s with stats := s.stats.add .micros (h.elapsed s.rounds), rounds := s.rounds + 1 }

def count (s : State α ρ) (t : Nat) (a : α) (o : Outcome) : State α ρ :=
  { s with stats := s.stats.add o.counter 1 }.note (.counted t a o)

/-- Lets go of the callback. What is thrown away with it may end the thread. -/
def letGo (s : State α ρ) (t : Nat) (relic : Option Payload) : State α ρ :=
  { s with slot := { s.slot with holder := none } }.setStage t
    (match relic with
      | none => .polling
      | some p => .dead p)

def work? (h : Host α) (s : State α ρ) (t : Nat) (th : Thread α ρ) : Option (State α ρ) :=
  match th.stage with
  | .starting =>
      let ready := { th with standing := th.priority.apply th.standing, stage := .polling }
      some { s with threads := s.threads.set t ready }
  | .polling => some (s.poll t)
  | .sleeping => none
  | .fetched a => s.invoke? t a
  | .lacking a => some ((s.log (.thread t) .lacking).setStage t (.skipping a))
  | .skipping a => some (((s.count t a .skipped).discard [a]).letGo t (h.disposal a))
  | .running a replies script => s.follow? h t th a replies script
  | .calling a replies cursor rest =>
      match s.advance h (.thread t) cursor with
      | none => none
      | some (s, .at cursor) => some (s.setStage t (.calling a replies cursor rest))
      | some (s, .answer r) => some (s.setStage t (.running a (replies ++ [r]) (rest r)))
      | some (s, .unwind p) => some (s.conclude t a replies (some p))
  | .concluded a none => some (((s.clock h).count t a .returned).setStage t (.leaving none))
  | .concluded a (some p) =>
      some (((s.clock h).log (.thread t) (.panicked p.message)).setStage t (.noted a p))
  | .noted a p => some ((s.count t a (.panicked p)).setStage t (.leaving (some p)))
  | .leaving p => some (s.letGo t (p.bind Payload.relic?))
  | .exiting =>
      some ((s.log (.thread t) (.exiting s.stats.processed.toNat)).setStage t .exited)
  | .exited => none
  | .dead _ => none

def setClient (s : State α ρ) (i : Nat) (c : Client α ρ) : State α ρ :=
  { s with clients := s.clients.set i c }

def serve? (h : Host α) (s : State α ρ) (i : Nat) : Client α ρ → Option (State α ρ)
  | .idle _ => none
  | .calling cursor =>
      match s.advance h (.client i) cursor with
      | none => none
      | some (s, .at cursor) => some (s.setClient i (.calling cursor))
      | some (s, .answer r) => some (s.setClient i (.idle (some r)))
      | some (s, .unwind _) => some (s.setClient i (.idle none))
  | .registering f =>
      if s.slot.holder ≠ none then none
      else
        let slot : Slot α ρ := { callback := some f, version := s.slot.version + 1 }
        some ({ s with slot }.setClient i (.idle (some .done)))

def call? (s : State α ρ) (i : Nat) (c : Call α) : Option (State α ρ) :=
  if c matches .drop then
    if s.isQuiet then
      some ({ s with owner := .dropping }.setClient i (.calling (.stopping .drop)))
    else none
  else match c.begin s with
    | .at cursor => some (s.setClient i (.calling cursor))
    | .answer r => some (s.setClient i (.idle (some r)))
    | .unwind _ => none

end State

/-- What happens next: a client calls, registers a callback or chooses the priority of later
threads, a client or a thread takes its next step, a waiting callback is let go, or a sleeping
thread wakes up without cause. -/
inductive Act (α ρ : Type)
  | call (client : Nat) (c : Call α)
  | register (client : Nat) (f : Callback α ρ)
  | prefer (client : Nat) (p : Priority)
  | client (client : Nat)
  | thread (thread : Nat)
  | release (thread : Nat)
  | stir (thread : Nat)

namespace State

def isFree (s : State α ρ) (i : Nat) : Bool :=
  s.owner = .shared && s.clients[i]?.any Client.isIdle

def next? (h : Host α) (s : State α ρ) : Act α ρ → Option (State α ρ)
  | .call i c => if s.isFree i then s.call? i c else none
  | .register i f => if s.isFree i then some (s.setClient i (.registering f)) else none
  | .prefer i p =>
      if s.isFree i && s.isQuiet then some { s with settings := s.settings.withPriority p }
      else none
  | .client i => s.clients[i]?.bind (s.serve? h i)
  | .thread t => s.threads[t]?.bind (s.work? h t)
  | .release t =>
      match s.threads[t]?.map Thread.stage with
      | some (.running a replies (.hold rest)) => some (s.setStage t (.running a replies rest))
      | _ => none
  | .stir t =>
      match s.threads[t]?.map Thread.stage with
      | some .sleeping => some (s.setStage t .polling)
      | _ => none

end State

end QueueWorker.Worker
