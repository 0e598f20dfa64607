import QueueWorker.Worker.Step

namespace QueueWorker.Worker

mutual

inductive Action (V : Type)
  | hold
  | stop
  | look
  | name
  | standing
  | send (j : Job V)
  | sendAll (js : List (Job V))
  | panic (p : Payload)

/-- An item that carries a value to show and tells its callback what to do. Throwing it away may
unwind the thread. -/
inductive Job (V : Type)
  | mk (value : V) (actions : List (Action V)) (disposal : Option Payload)

end

inductive Event (V : Type)
  | called (callback : String) (count : Nat) (value : V)
  | looked (status : Status) (length : Nat) (settings : Settings)
  | named (name : String)
  | standing (s : Standing)
  | sent (accepted : Bool)

variable {V : Type}

namespace Job

def value : Job V → V
  | mk v _ _ => v

def actions : Job V → List (Action V)
  | mk _ as _ => as

def disposal : Job V → Option Payload
  | mk _ _ d => d

def ofValue (v : V) : Job V := mk v [] none

mutual

def actionSize : Action V → Nat
  | .send j => jobSize j + 1
  | .sendAll js => jobsSize js + 1
  | .hold | .stop | .look | .name | .standing | .panic _ => 1

def jobSize : Job V → Nat
  | mk _ as _ => actionsSize as + 1

def actionsSize : List (Action V) → Nat
  | [] => 0
  | a :: as => actionSize a + actionsSize as

def jobsSize : List (Job V) → Nat
  | [] => 0
  | j :: js => jobSize j + jobsSize js

end

/-- Sends only to a worker that runs, so that a callback never restarts its own worker. -/
def sendIfRunning (c : Call (Job V)) (rest : Script (Job V) (Event V)) :
    Script (Job V) (Event V) :=
  .ask .status fun
    | .status .running => .ask c fun
      | .done => .report (.sent true) rest
      | _ => .report (.sent false) rest
    | _ => .report (.sent false) rest

def lookAround (rest : Script (Job V) (Event V)) : Script (Job V) (Event V) :=
  .ask .settings fun
    | .settings c => .ask .status fun
      | .status s => .ask .length fun
        | .length n => .report (.looked s n c) rest
        | _ => rest
      | _ => rest
    | _ => rest

def perform : List (Action V) → Script (Job V) (Event V)
  | [] => .finish
  | .hold :: as => .hold (perform as)
  | .stop :: as => .ask .stop fun _ => perform as
  | .look :: as => lookAround (perform as)
  | .name :: as => .self fun me => .report (.named me.name) (perform as)
  | .standing :: as => .self fun me => .report (.standing me.standing) (perform as)
  | .send j :: as => sendIfRunning (.send j) (perform as)
  | .sendAll js :: as => sendIfRunning (.sendAll js) (perform as)
  | .panic p :: _ => .unwind p

def callback (name : String) : Callback (Job V) (Event V) := fun visits j =>
  .report (.called name (visits.length + 1) j.value) (perform j.actions)

end Job

end QueueWorker.Worker
