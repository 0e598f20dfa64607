import QueueWorker.Proofs.Worker.Delivery

namespace QueueWorker.Worker

variable {α ρ : Type}

namespace Entry

def outcome? : Entry α ρ → Option (α × Outcome)
  | .counted _ a o => some (a, o)
  | _ => none

end Entry

namespace State

/-- The items counted so far, each with what came of it. -/
def outcomes (s : State α ρ) : List (α × Outcome) := s.trace.filterMap Entry.outcome?

def tally (s : State α ρ) (k : Outcome → Bool) : UInt64 :=
  UInt64.ofNat (s.outcomes.countP (fun x => k x.2))

theorem outcomes_discard (s : State α ρ) (as : List α) : (s.discard as).outcomes = s.outcomes := by
  simp [outcomes, discard, Entry.outcome?]

theorem finished_eq (s : State α ρ) : s.finished = s.outcomes.map Prod.fst := by
  simp only [finished, outcomes]
  induction s.trace with
  | nil => rfl
  | cons e es ih => cases e <;> simpa [List.filterMap_cons, Entry.outcome?] using ih

end State

/-- Each counter shows how many items have come to its outcome. -/
structure Tallied (s : State α ρ) : Prop where
  processed : s.stats.processed = s.tally (· matches .returned)
  panicked : s.stats.panicked = s.tally (· matches .panicked _)
  skipped : s.stats.skipped = s.tally (· matches .skipped)

namespace Tallied

variable {s u : State α ρ}

theorem congr (hs : Tallied s) (outcomes : u.outcomes = s.outcomes)
    (processed : u.stats.processed = s.stats.processed)
    (panicked : u.stats.panicked = s.stats.panicked)
    (skipped : u.stats.skipped = s.stats.skipped) : Tallied u := by
  refine ⟨processed.trans (hs.processed.trans ?_), panicked.trans (hs.panicked.trans ?_),
    skipped.trans (hs.skipped.trans ?_)⟩
  all_goals rw [State.tally, State.tally, outcomes]

theorem count (hs : Tallied s) (t : Nat) (a : α) (o : Outcome) : Tallied (s.count t a o) := by
  have grown : (s.count t a o).outcomes = s.outcomes ++ [(a, o)] := by
    simp [State.outcomes, State.count, State.note, Entry.outcome?]
  obtain ⟨processed, panicked, skipped⟩ := hs
  cases o <;> constructor <;>
    simp_all [State.tally, State.count, State.note, Stats.add, Stats.alter, Outcome.counter,
      UInt64.ofNat_add]

end Tallied

theorem outcomes_advances {h : Host α} {s s' : State α ρ} {me : Agent} {c : Cursor α}
    {p : Progress α} (step : Advances h s me c s' p) : s'.outcomes = s.outcomes := by
  cases step with
  | pushed batch | marked q t =>
      rw [State.push_eq]
      simp [State.outcomes, State.note, Entry.outcome?]
  | _ =>
      simp [State.outcomes, State.log, State.note, State.discard, State.joinSelf, Entry.outcome?]

theorem tallied_advances {h : Host α} {s s' : State α ρ} {me : Agent} {c : Cursor α}
    {p : Progress α} (hs : Tallied s) (step : Advances h s me c s' p) : Tallied s' := by
  have same := outcomes_advances step
  cases step with
  | pushed batch | marked q t => rw [State.push_eq] at same ⊢; exact hs.congr same rfl rfl rfl
  | _ => exact hs.congr same rfl rfl rfl

theorem tallied_works {h : Host α} {s u : State α ρ} {t : Nat} {th : Thread α ρ} (hs : Tallied s)
    (hw : Works h s t th u) : Tallied u := by
  cases hw with
  | call a replies c rest s' p stage step =>
      have hs' := tallied_advances hs step
      cases p <;> exact hs'.congr rfl rfl rfl rfl
  | skip a stage =>
      refine (hs.count t a .skipped).congr ?_ rfl rfl rfl
      simp [State.outcomes, State.letGo, State.setStage, State.discard, Entry.outcome?]
  | returned a stage =>
      have hs' : Tallied (s.clock h) := hs.congr rfl rfl rfl rfl
      exact (hs'.count t a .returned).congr rfl rfl rfl rfl
  | panicked a p stage => exact (hs.count t a (.panicked p)).congr rfl rfl rfl rfl
  | _ =>
      refine hs.congr ?_ rfl rfl rfl
      simp [State.outcomes, State.setStage, State.conclude, State.letGo, State.log, State.note,
        State.clock, Entry.outcome?]

theorem tallied_step {h : Host α} {s u : State α ρ} {act : Act α ρ} (hs : Tallied s)
    (step : Step h s act u) : Tallied u := by
  cases step with
  | client i c s' p client step => exact (tallied_advances hs step).congr rfl rfl rfl rfl
  | thread t th u thread step => exact tallied_works hs step
  | _ => exact hs.congr rfl rfl rfl rfl

theorem Attainable.tallied {h : Host α} {s : State α ρ} (ha : Attainable h s) : Tallied s := by
  induction ha with
  | create settings callback clients => exact ⟨rfl, rfl, rfl⟩
  | next before step apart ih => exact tallied_step ih (step_of_next step)

theorem Reachable.tallied {h : Host α} {s : State α ρ} (hr : Reachable h s) : Tallied s :=
  hr.attainable.tallied

end QueueWorker.Worker
