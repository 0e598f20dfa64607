import QueueWorker.Text.Layout

namespace QueueWorker

open Text

/-- What a worker counts over all its threads. Every count is a 64-bit word and wraps around. -/
structure Stats where
  processed : UInt64 := 0
  panicked : UInt64 := 0
  skipped : UInt64 := 0
  spawned : UInt64 := 0
  /-- Microseconds spent inside the callback, whatever came of it. -/
  micros : UInt64 := 0
  deriving DecidableEq, Repr

namespace Stats

inductive Counter
  | processed | panicked | skipped | spawned | micros

def alter (f : UInt64 → UInt64) (s : Stats) : Counter → Stats
  | .processed => { s with processed := f s.processed }
  | .panicked => { s with panicked := f s.panicked }
  | .skipped => { s with skipped := f s.skipped }
  | .spawned => { s with spawned := f s.spawned }
  | .micros => { s with micros := f s.micros }

def store (s : Stats) (c : Counter) (n : UInt64) : Stats := s.alter (fun _ => n) c

def add (s : Stats) (c : Counter) (n : UInt64) : Stats := s.alter (· + n) c

/-- Microseconds per processed item, and zero before the first one. -/
def average (s : Stats) : Float :=
  if s.processed = 0 then 0 else s.micros.toFloat / s.processed.toFloat

def averageBits (s : Stats) : String :=
  let ds := Nat.toDigits 16 s.average.toBits.toNat
  String.ofList (List.replicate (16 - ds.length) '0' ++ ds)

def layout (s : Stats) : Layout :=
  .record "WorkerThreadStats" [("items_processed", .number s.processed.toNat),
    ("items_panicked", .number s.panicked.toNat), ("items_skipped", .number s.skipped.toNat),
    ("threads_spawned", .number s.spawned.toNat),
    ("total_processing_time_us", .number s.micros.toNat)]

end Stats

end QueueWorker
