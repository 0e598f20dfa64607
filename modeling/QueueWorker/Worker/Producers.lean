import QueueWorker.Worker.Scenario

namespace QueueWorker.Worker.Producers

variable {V : Type}

structure Parcel (V : Type) where
  producer : Nat
  batch : Nat
  value : V

/-- What a worker makes of all that its producers send. `contiguous` tells whether each batch
arrived as one run, if batches were sent at all. -/
structure Delivery (V : Type) where
  joined : Option Reply
  received : List (List V)
  contiguous : Option Bool
  stats : Stats
  status : Status
  length : Nat

def parcels (producer batch : Nat) (vs : List V) : List (Parcel V) :=
  vs.map (fun v => ⟨producer, batch, v⟩)

def calls (single : Bool) (producer : Nat) (batches : List (List V)) : List (Call (Parcel V)) :=
  let ps := batches.mapIdx (fun k vs => parcels producer k vs)
  if single then ps.flatten.map .send else ps.map .sendAll

def rounds (cs : List (List (Call (Parcel V)))) : List (List (Nat × Call (Parcel V))) :=
  (List.range ((cs.map List.length).foldl max 0)).map (fun k =>
    (List.range cs.length).filterMap (fun i =>
      (cs[i]?.bind (fun own => own[k]?)).map (fun call => (i, call))))

def host : Host (Parcel V) where
  refusal _ := none
  disposal _ := none
  elapsed _ := 0

def callback : Callback (Parcel V) (Parcel V) := fun _ p => .report p .finish

def play (fuel : Nat) (s : State (Parcel V) (Parcel V)) (round : List (Nat × Call (Parcel V))) :
    State (Parcel V) (Parcel V) :=
  (round.foldl (fun s c => s.perform host (.call c.1 c.2)) s).settle host fuel

def runs : List (Nat × Nat) → List (Nat × Nat)
  | [] => []
  | [x] => [x]
  | x :: y :: xs => if x = y then runs (y :: xs) else x :: runs (y :: xs)

def deliver (single : Bool) (producers : List (List (List V))) : Delivery V :=
  let cs := producers.mapIdx (fun i batches => calls single i batches)
  let size := producers.foldl (fun n bs => n + bs.length + bs.flatten.length) 0
  let fuel := 16 * (size + producers.length + 4)
  let start : State (Parcel V) (Parcel V) := .create {} (some callback) (producers.length + 1)
  let s := (rounds cs).foldl (play fuel) start
  let s := play fuel s [(producers.length, .join)]
  let arrived := s.trace.filterMap (fun e => match e with
    | .reported _ p => some p
    | _ => none)
  { joined := s.lastReply? producers.length
    received := (List.range producers.length).map (fun i =>
      (arrived.filter (fun p => p.producer = i)).map Parcel.value)
    contiguous := if single then none
      else some (runs (arrived.map (fun p => (p.producer, p.batch)))).Nodup
    stats := s.stats
    status := s.phase.status
    length := s.queue.length }

end QueueWorker.Worker.Producers
