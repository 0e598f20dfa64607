import QueueWorker.Text.Layout

namespace QueueWorker

open Text

/-- Why the system refused a request: the kind of refusal and its own words. -/
structure SystemError where
  kind : String
  detail : String
  deriving DecidableEq, Repr

/-- What a worker reports to its caller when it cannot do as asked. -/
inductive Fault
  | spawn (thread message : String) (source : Option SystemError)
  | join (thread message : String)
  | setting (parameter message : String)
  | other (message : String)
  deriving DecidableEq, Repr

def SystemError.layout (e : SystemError) : Layout :=
  .record "Custom" [("kind", .word e.kind), ("error", .text e.detail)]

namespace Fault

def label : Fault → String
  | spawn .. => "SpawnError"
  | join .. => "JoinError"
  | setting .. => "InvalidConfig"
  | other _ => "Other"

def message : Fault → String
  | spawn thread m _ => "Failed to spawn worker thread '" ++ thread ++ "': " ++ m
  | join thread m => "Failed to join worker thread '" ++ thread ++ "': " ++ m
  | setting parameter m => "Invalid configuration for '" ++ parameter ++ "': " ++ m
  | other m => m

def source? : Fault → Option SystemError
  | spawn _ _ source => source
  | _ => none

def layout (f : Fault) : Layout :=
  match f with
  | spawn thread m source =>
      .record f.label [("thread_name", .text thread), ("message", .text m),
        ("source", .optional SystemError.layout source)]
  | join thread m => .record f.label [("thread_name", .text thread), ("message", .text m)]
  | setting parameter m => .record f.label [("parameter", .text parameter), ("message", .text m)]
  | other m => .applied f.label [.text m]

end Fault

end QueueWorker
