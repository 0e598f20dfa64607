namespace QueueWorker

/-- How many threads can make progress at once. A machine that does not tell counts as one that
runs a single thread. -/
def parallelism : Option { n : Nat // 0 < n } → Nat
  | some n => n
  | none => 1

theorem one_le_parallelism (told : Option { n : Nat // 0 < n }) : 1 ≤ parallelism told := by
  cases told with
  | none => exact Nat.le_refl _
  | some n => exact n.2

end QueueWorker
