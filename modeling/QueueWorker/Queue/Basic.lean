import QueueWorker.Text.Layout

namespace QueueWorker.Queue

inductive Request (α : Type)
  | push (a : α)
  | pushAll (as : List α)
  | pop
  | popWithin (time : Nat)
  | tryPop
  | drain
  | length

/-- What comes back. A call is `broken` when the source of its batch unwinds, and `beyond` when the
clock cannot show its deadline. -/
inductive Reply (α : Type)
  | done
  | broken
  | beyond
  | item (a : α)
  | nothing
  | items (as : List α)
  | length (n : Nat)
  deriving DecidableEq, Repr

/-- Where a batch comes from. It yields its items one by one, may use the queue in between, and may
unwind at any point. -/
inductive Source (α : Type)
  | finish
  | unwind
  | yield (a : α) (rest : Source α)
  | ask (r : Request α) (rest : Reply α → Source α)

inductive Call (α : Type)
  | plain (r : Request α)
  | batch (source : Source α)

/-- One stretch of work under the queue's lock. -/
inductive Section (α : Type)
  | append (as : List α)
  | take (deadline : Option Nat)
  | takeLast
  | tryTake
  | drain
  | length
  deriving DecidableEq, Repr

/-- A batch in the making that waits for an answer of the queue. -/
structure Frame (α : Type) where
  got : List α
  rest : Reply α → Source α

/-- Where a thread stands. A sleeping thread is inside a removal and has given the lock away. -/
inductive Stage (α : Type)
  | idle (last : Option (Reply α))
  | collecting (got : List α) (source : Source α)
  | entering (s : Section α) (into : Option (Frame α))
  | sleeping (deadline : Option Nat) (into : Option (Frame α))

inductive Entry (α : Type)
  | appended (thread : Nat) (as : List α)
  | removed (thread : Nat) (as : List α)
  | gaveUp (thread : Nat) (time : Nat)
  deriving DecidableEq, Repr

/-- A queue with the threads that use it and the clock they read, which shows no time beyond
`horizon`. -/
structure State (α : Type) where
  items : List α := []
  threads : List (Stage α)
  now : Nat := 0
  horizon : Nat
  trace : List (Entry α) := []

/-- What happens next: a call, the next stretch of a thread's work, a sleeper waking up without
cause or at its deadline, or time passing. A step that wakes a sleeper wakes the one at
`chosen`, counted round among those asleep. -/
inductive Act (α : Type)
  | call (thread : Nat) (c : Call α)
  | step (thread : Nat) (chosen : Nat)
  | stir (thread : Nat)
  | expire (thread : Nat)
  | pass (time : Nat)

variable {α : Type}

def Source.ofList : List α → Source α
  | [] => .finish
  | a :: as => .yield a (ofList as)

def Source.broken : List α → Source α
  | [] => .unwind
  | a :: as => .yield a (broken as)

def Stage.isIdle : Stage α → Bool
  | idle _ => true
  | _ => false

def Stage.isSleeping : Stage α → Bool
  | sleeping .. => true
  | _ => false

namespace State

def fresh (threads horizon : Nat) : State α :=
  { threads := List.replicate threads (.idle none), horizon }

def put (s : State α) (i : Nat) (t : Stage α) : State α := { s with threads := s.threads.set i t }

def note (s : State α) (e : Entry α) : State α := { s with trace := s.trace ++ [e] }

def answer (s : State α) (i : Nat) (r : Reply α) : Option (Frame α) → State α
  | none => s.put i (.idle (some r))
  | some f => s.put i (.collecting f.got (f.rest r))

def sleepers (s : State α) : List Nat :=
  (List.range s.threads.length).filter (fun i => s.threads[i]?.any Stage.isSleeping)

def wake (s : State α) (chosen : Nat) : State α :=
  match s.sleepers[chosen % s.sleepers.length]? with
  | none => s
  | some i =>
      match s.threads[i]? with
      | some (.sleeping deadline into) => s.put i (.entering (.take deadline) into)
      | _ => s

def commit (s : State α) (i : Nat) (into : Option (Frame α)) : List α → State α
  | [] => s.answer i .done into
  | a :: as => s.put i (.entering (.append (a :: as)) into)

def ask (s : State α) (i : Nat) (into : Option (Frame α)) : Request α → State α
  | .push a => s.put i (.entering (.append [a]) into)
  | .pushAll as => s.commit i into as
  | .pop => s.put i (.entering (.take none) into)
  | .popWithin time =>
      if s.now + time ≤ s.horizon then s.put i (.entering (.take (some (s.now + time))) into)
      else s.answer i .beyond into
  | .tryPop => s.put i (.entering .tryTake into)
  | .drain => s.put i (.entering .drain into)
  | .length => s.put i (.entering .length into)

def enter (s : State α) (i chosen : Nat) (into : Option (Frame α)) : Section α → State α
  | .append as =>
      (({ s with items := s.items ++ as }.note (.appended i as)).wake chosen).answer i .done into
  | .take deadline =>
      match s.items with
      | a :: as => ({ s with items := as }.note (.removed i [a])).answer i (.item a) into
      | [] => s.put i (.sleeping deadline into)
  | .takeLast =>
      match s.items with
      | a :: as => ({ s with items := as }.note (.removed i [a])).answer i (.item a) into
      | [] => (s.note (.gaveUp i s.now)).answer i .nothing into
  | .tryTake =>
      match s.items with
      | a :: as => ({ s with items := as }.note (.removed i [a])).answer i (.item a) into
      | [] => s.answer i .nothing into
  | .drain => ({ s with items := [] }.note (.removed i s.items)).answer i (.items s.items) into
  | .length => s.answer i (.length s.items.length) into

def collect (s : State α) (i : Nat) (got : List α) : Source α → State α
  | .finish => s.commit i none got
  | .unwind => s.answer i .broken none
  | .yield a rest => s.put i (.collecting (got ++ [a]) rest)
  | .ask r rest => s.ask i (some ⟨got, rest⟩) r

def next? (s : State α) : Act α → Option (State α)
  | .call i c =>
      match s.threads[i]?, c with
      | some (.idle _), .plain r => some (s.ask i none r)
      | some (.idle _), .batch source => some (s.put i (.collecting [] source))
      | _, _ => none
  | .step i chosen =>
      match s.threads[i]? with
      | some (.collecting got source) => some (s.collect i got source)
      | some (.entering sec into) => some (s.enter i chosen into sec)
      | _ => none
  | .stir i =>
      match s.threads[i]? with
      | some (.sleeping deadline into) => some (s.put i (.entering (.take deadline) into))
      | _ => none
  | .expire i =>
      match s.threads[i]? with
      | some (.sleeping (some deadline) into) =>
          if deadline ≤ s.now then some (s.put i (.entering .takeLast into)) else none
      | _ => none
  | .pass time => some { s with now := s.now + time }

end State

def layout (length : Nat) : Text.Layout := .record "BlockingQueue" [("len", .number length)]

end QueueWorker.Queue
