import QueueWorker.Notify.Basic

namespace QueueWorker.Notify

/-- An item that tells its callback what to notify the queue of, and whether to unwind. -/
inductive Letter (V : Type)
  | mk (value : V) (sends : Option (List (Letter V))) (panic : Option Payload)

inductive Event (V : Type)
  | called (value : V)
  | length (n : Nat)

variable {V : Type}

namespace Letter

def value : Letter V → V
  | mk v _ _ => v

mutual

def size : Letter V → Nat
  | mk _ none _ => 1
  | mk _ (some ls) _ => sizes ls + 1

def sizes : List (Letter V) → Nat
  | [] => 0
  | l :: ls => size l + sizes ls

end

def conclude : Option Payload → Script (Letter V) (Event V)
  | none => .finish
  | some p => .unwind p

def callback : Callback (Letter V) (Event V) := fun _ l =>
  match l with
  | mk v none p => .report (.called v) (conclude p)
  | mk v (some ls) p =>
      .report (.called v) (ls.foldr .notify (.length fun n => .report (.length n) (conclude p)))

end Letter

inductive Command (V : Type)
  | notify (ls : List (Letter V))
  | look
  | run
  | close (after : Option V)
  | renew

def Command.size : Command V → Nat
  | notify ls => Letter.sizes ls
  | _ => 1

inductive Result
  | done
  | already
  | closed
  | view (length : Nat)

structure Answer (V : Type) where
  result : Result
  length : Option Nat
  events : List (Event V ⊕ V)
  log : List String

abbrev Mailbox (V : Type) := State (Letter V) (Event V) V

namespace State

variable {α ρ δ : Type}

def perform (s : State α ρ δ) (a : Act α δ) : State α ρ δ := (s.next? a).getD s

def settle : Nat → State α ρ δ → State α ρ δ
  | 0, s => s
  | n + 1, s =>
      match [Act.task, .completion].findSome? s.next? with
      | none => s
      | some t => settle n t

def notify (s : State α ρ δ) (a : α) : State α ρ δ :=
  (s.perform (.notify 0 a)).perform (.producer 0)

def shut (s : State α ρ δ) (after : Option δ) : State α ρ δ :=
  (((s.perform (.close after)).perform .owner).perform .owner).perform .owner

end State

/-- A queue, if there is an open one, and those closed before whose tasks have yet to see it. Tasks
run in the order in which their queues were made. -/
structure Scenario (V : Type) where
  past : List (Mailbox V) := []
  current : Option (Mailbox V) := none

namespace Scenario

def fresh : Mailbox V := .create Letter.callback 1

def start : Scenario V := { current := some fresh }

def eventsOf (es : List (Entry (Letter V) (Event V) V)) : List (Event V ⊕ V) :=
  es.filterMap (fun e => match e with
    | .reported e => some (.inl e)
    | .completed d => some (.inr d)
    | _ => none)

def linesOf (es : List (Entry (Letter V) (Event V) V)) : List String :=
  es.filterMap (fun e => match e with
    | .logged line => some line.text
    | _ => none)

def run (fuel : Nat) (s : Scenario V) : Scenario V × List (Entry (Letter V) (Event V) V) :=
  let go (q : Mailbox V) : Mailbox V × List (Entry (Letter V) (Event V) V) :=
    let r := q.settle fuel
    (r, r.trace.drop q.trace.length)
  let past := s.past.map go
  let current := s.current.map go
  ({ current := current.map (·.1) },
    past.flatMap (·.2) ++ (current.map (·.2)).getD [])

def answer (s : Scenario V) (result : Result) (es : List (Entry (Letter V) (Event V) V)) :
    Scenario V × Answer V :=
  (s, ⟨result, s.current.map (fun q => q.items.length), eventsOf es, linesOf es⟩)

def step (fuel : Nat) (s : Scenario V) (c : Command V) : Scenario V × Answer V :=
  match c, s.current with
  | .run, _ =>
      let (s, es) := s.run fuel
      s.answer .done es
  | .renew, some _ => s.answer .already []
  | .renew, none => { s with current := some fresh }.answer .done []
  | _, none => s.answer .closed []
  | .notify ls, some q =>
      { s with current := some (ls.foldl State.notify q) }.answer .done []
  | .look, some q => s.answer (.view q.items.length) []
  | .close after, some q =>
      ({ past := s.past ++ [q.shut after] } : Scenario V).answer .done []

def go (fuel : Nat) (s : Scenario V) : List (Command V) → List (Answer V)
  | [] => []
  | c :: cs =>
      let (s, a) := s.step fuel c
      a :: go fuel s cs

def answers (cs : List (Command V)) : List (Answer V) :=
  start.go (16 * (cs.foldl (fun n c => n + c.size + 1) 1)) cs

end Scenario

end QueueWorker.Notify
