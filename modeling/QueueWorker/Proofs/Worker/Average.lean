import Mathlib.Algebra.Order.BigOperators.Group.List
import Mathlib.Algebra.Order.Field.Rat
import Mathlib.Tactic.NormNum
import QueueWorker.Proofs.Worker.Counters

namespace QueueWorker

namespace Stats

/-- The quotient that is shown as the average, in any numbers that the counts are read as. -/
def quotient {K : Type} [Div K] [OfNat K 0] (s : Stats) (read : UInt64 → K) : K :=
  if s.processed = 0 then 0 else read s.micros / read s.processed

theorem quotient_of_none {K : Type} [Div K] [OfNat K 0] {s : Stats} (none : s.processed = 0)
    (read : UInt64 → K) : s.quotient read = 0 := if_pos none

theorem average_eq (s : Stats) : s.average = s.quotient UInt64.toFloat := rfl

/-- The average before it is rounded. -/
def exactAverage (s : Stats) : ℚ := s.quotient (fun n => n.toNat)

theorem exactAverage_eq (s : Stats) : s.exactAverage = s.micros.toNat / s.processed.toNat := by
  rw [exactAverage, quotient]
  split
  next none => rw [none]; exact (div_zero _).symm
  next => rfl

end Stats

namespace Worker

variable {α ρ : Type}

/-- What came of an item, with the microseconds that its callback took. -/
inductive Bout
  | returned (micros : UInt64)
  | panicked (micros : UInt64)
  | skipped
  deriving DecidableEq, Repr

namespace Bout

def returned? : Bout → Option Nat
  | returned n => some n.toNat
  | _ => none

def panicked? : Bout → Option Nat
  | panicked n => some n.toNat
  | _ => none

end Bout

/-- How long the callbacks took that returned. -/
def returnedTimes (l : List Bout) : List Nat := l.filterMap Bout.returned?

/-- How long the callbacks took that were unwound. -/
def panickedTimes (l : List Bout) : List Nat := l.filterMap Bout.panicked?

def mean (l : List Nat) : ℚ := l.sum / l.length

theorem le_mean {l : List Nat} {d : Nat} (some : l ≠ []) (least : ∀ x ∈ l, d ≤ x) :
    (d : ℚ) ≤ mean l := by
  have pos : (0 : ℚ) < l.length := Nat.cast_pos.mpr (List.length_pos_iff.mpr some)
  have sum : l.length * d ≤ l.sum := l.card_nsmul_le_sum d least
  rw [mean, le_div_iff₀ pos, mul_comm]
  exact_mod_cast sum

theorem mean_le {l : List Nat} {d : Nat} (some : l ≠ []) (most : ∀ x ∈ l, x ≤ d) :
    mean l ≤ d := by
  have pos : (0 : ℚ) < l.length := Nat.cast_pos.mpr (List.length_pos_iff.mpr some)
  have sum : l.sum ≤ l.length * d := l.sum_le_card_nsmul d most
  rw [mean, div_le_iff₀ pos, mul_comm]
  exact_mod_cast sum

theorem returnedTimes_append (l : List Bout) (b : Bout) :
    returnedTimes (l ++ [b]) = returnedTimes l ++ b.returned?.toList := by
  rw [returnedTimes, List.filterMap_append]
  cases b <;> rfl

theorem panickedTimes_append (l : List Bout) (b : Bout) :
    panickedTimes (l ++ [b]) = panickedTimes l ++ b.panicked?.toList := by
  rw [panickedTimes, List.filterMap_append]
  cases b <;> rfl

def Stage.bout? (micros : UInt64) : Stage α ρ → Option Bout
  | .concluded _ none => some (.returned micros)
  | .concluded _ (some _) => some (.panicked micros)
  | .skipping _ => some .skipped
  | _ => none

namespace State

def bout? (h : Host α) (s : State α ρ) : Act α ρ → Option Bout
  | .thread t => s.threads[t]?.bind (fun th => th.stage.bout? (h.elapsed s.rounds))
  | _ => none

def bouts (h : Host α) (s : State α ρ) (acts : List (Act α ρ)) : List Bout :=
  s.gather h (bout? h) acts

end State

/-- The counters show how many callbacks returned, and how long all of them took. -/
structure Timed (st : Stats) (l : List Bout) : Prop where
  processed : st.processed = UInt64.ofNat (returnedTimes l).length
  micros : st.micros = UInt64.ofNat ((returnedTimes l).sum + (panickedTimes l).sum)

namespace Timed

variable {st : Stats} {l : List Bout}

theorem congr {st' : Stats} (h : Timed st l) (processed : st'.processed = st.processed)
    (micros : st'.micros = st.micros) : Timed st' l :=
  ⟨processed.trans h.processed, micros.trans h.micros⟩

theorem still {st' : Stats} {b : Option Bout} (h : Timed st l) (quiet : b = none)
    (processed : st'.processed = st.processed) (micros : st'.micros = st.micros) :
    Timed st' (l ++ b.toList) := by
  rw [quiet, Option.toList_none, List.append_nil]
  exact h.congr processed micros

theorem grow {st' : Stats} (h : Timed st l) (b : Bout)
    (processed : st'.processed = st.processed + UInt64.ofNat b.returned?.toList.length)
    (micros : st'.micros =
      st.micros + UInt64.ofNat (b.returned?.toList.sum + b.panicked?.toList.sum)) :
    Timed st' (l ++ [b]) := by
  constructor
  · rw [processed, h.processed, returnedTimes_append, List.length_append, UInt64.ofNat_add]
  · rw [micros, h.micros, returnedTimes_append, panickedTimes_append, List.sum_append,
      List.sum_append, ← UInt64.ofNat_add, Nat.add_add_add_comm]

theorem returned (h : Timed st l) (d : UInt64) :
    Timed ((st.add .micros d).add .processed 1) (l ++ [.returned d]) :=
  h.grow (.returned d) rfl (by simp [Stats.add, Stats.alter, Bout.returned?, Bout.panicked?])

theorem panicked (h : Timed st l) (d : UInt64) :
    Timed (st.add .micros d) (l ++ [.panicked d]) :=
  h.grow (.panicked d) (UInt64.add_zero _).symm
    (by simp [Stats.add, Stats.alter, Bout.returned?, Bout.panicked?])

theorem skipped (h : Timed st l) : Timed (st.add .skipped 1) (l ++ [.skipped]) :=
  h.grow .skipped (UInt64.add_zero _).symm (UInt64.add_zero _).symm

theorem exactAverage_eq (h : Timed st l)
    (below : (returnedTimes l).sum + (panickedTimes l).sum < 2 ^ 64) :
    st.exactAverage = ((returnedTimes l).sum + (panickedTimes l).sum) /
      ((returnedTimes l).length % 2 ^ 64 : Nat) := by
  rw [Stats.exactAverage_eq, h.micros, h.processed, UInt64.toNat_ofNat_of_lt' below, Nat.cast_add,
    UInt64.toNat_ofNat']

theorem exactAverage_eq_mean_add (h : Timed st l)
    (below : (returnedTimes l).sum + (panickedTimes l).sum < 2 ^ 64)
    (few : (returnedTimes l).length < 2 ^ 64) :
    st.exactAverage =
      mean (returnedTimes l) + (panickedTimes l).sum / (returnedTimes l).length := by
  rw [h.exactAverage_eq below, Nat.mod_eq_of_lt few, add_div, mean]

theorem average_of_none (h : Timed st l) (none : returnedTimes l = []) :
    st.exactAverage = 0 ∧ st.average = 0 := by
  have zero : st.processed = 0 := by rw [h.processed, none]; rfl
  exact ⟨Stats.quotient_of_none zero _, st.average_eq.trans (Stats.quotient_of_none zero _)⟩

end Timed

variable {h : Host α} {s u : State α ρ} {l : List Bout}

theorem timed_advances {s' : State α ρ} {me : Agent} {c : Cursor α} {p : Progress α}
    (hs : Timed s.stats l) (step : Advances h s me c s' p) : Timed s'.stats l := by
  cases step with
  | pushed batch | marked q t => rw [State.push_eq]; exact hs
  | _ => exact hs.congr rfl rfl

theorem timed_works {t : Nat} {th : Thread α ρ} (hs : Timed s.stats l) (hw : Works h s t th u) :
    Timed u.stats (l ++ (th.stage.bout? (h.elapsed s.rounds)).toList) := by
  cases hw with
  | returned a stage => rw [stage]; exact hs.returned _
  | caught a p stage => rw [stage]; exact hs.panicked _
  | skip a stage => rw [stage]; exact hs.skipped
  | call a replies c rest s' p stage step =>
      have hs' := timed_advances hs step
      cases p <;> exact hs'.still (by rw [stage]; rfl) rfl rfl
  | start stage | sleep stage | fetch _ _ stage | halt _ stage | lack _ stage | begin _ _ stage
  | warn _ stage | finish _ _ stage | unwind _ _ _ stage | report _ _ _ _ stage
  | self _ _ _ stage | askGone _ _ _ _ stage | askDrop _ _ _ stage | ask _ _ _ _ _ stage
  | askNow _ _ _ _ _ stage | panicked _ _ stage | letGo _ stage | exit stage =>
      exact hs.still (by rw [stage]; rfl) rfl rfl

theorem timed_step {act : Act α ρ} (hs : Timed s.stats l) (step : Step h s act u) :
    Timed u.stats (l ++ (s.bout? h act).toList) := by
  cases step with
  | thread t th u thread step =>
      rw [State.bout?, thread, Option.bind_some]
      exact timed_works hs step
  | client i c s' p client step =>
      exact (timed_advances hs step).still rfl rfl rfl
  | _ => exact hs.still rfl rfl rfl

theorem timed_run {acts : List (Act α ρ)} (fresh : s.stats = {}) (run : s.run? h acts = some u) :
    Timed u.stats (s.bouts h acts) := by
  have new : Timed s.stats [] := by rw [fresh]; exact ⟨rfl, rfl⟩
  exact State.gather_keeps (P := fun s l => Timed s.stats l)
    (fun _ _ _ _ step hs => timed_step hs step) run new

/-- The time that an unwound callback took is divided among the items whose callbacks returned. So
what is shown as the average, but for rounding, is the mean of their times only if the other
callbacks took none, and it can be beyond the longest time of all. -/
theorem average_with_panics {acts : List (Act α ρ)} (fresh : s.stats = {})
    (run : s.run? h acts = some u) (bouts : s.bouts h acts = l)
    (below : (returnedTimes l).sum + (panickedTimes l).sum < 2 ^ 64) :
    u.stats.average = u.stats.quotient UInt64.toFloat ∧
      u.stats.exactAverage = ((returnedTimes l).sum + (panickedTimes l).sum) /
        ((returnedTimes l).length % 2 ^ 64 : Nat) ∧
      (returnedTimes l = [] → u.stats.exactAverage = 0 ∧ u.stats.average = 0) ∧
      (returnedTimes l ≠ [] → (returnedTimes l).length < 2 ^ 64 →
        u.stats.exactAverage =
          mean (returnedTimes l) + (panickedTimes l).sum / (returnedTimes l).length ∧
        (u.stats.exactAverage = mean (returnedTimes l) ↔ ∀ x ∈ panickedTimes l, x = 0) ∧
        (∀ d : Nat, (∀ x ∈ returnedTimes l, d ≤ x) → d ≤ u.stats.exactAverage) ∧
        ((∀ x ∈ panickedTimes l, x = 0) →
          ∀ d : Nat, (∀ x ∈ returnedTimes l, x ≤ d) → u.stats.exactAverage ≤ d)) := by
  have timed : Timed u.stats l := bouts ▸ timed_run fresh run
  refine ⟨u.stats.average_eq, timed.exactAverage_eq below, timed.average_of_none,
    fun some few => ?_⟩
  have shown := timed.exactAverage_eq_mean_add below few
  have count : ((returnedTimes l).length : ℚ) ≠ 0 :=
    Nat.cast_ne_zero.mpr (mt List.length_eq_zero_iff.mp some)
  have same : u.stats.exactAverage = mean (returnedTimes l) ↔ ∀ x ∈ panickedTimes l, x = 0 := by
    rw [shown, add_eq_left, div_eq_zero_iff, or_iff_left count, Nat.cast_eq_zero,
      List.sum_eq_zero_iff]
  refine ⟨shown, same, fun d least => ?_, fun quick d most => ?_⟩
  · rw [shown]
    exact le_add_of_le_of_nonneg (le_mean some least)
      (div_nonneg (Nat.cast_nonneg _) (Nat.cast_nonneg _))
  · rw [same.mpr quick]
    exact mean_le some most

def handleTwo (a b : Nat) : List (Act Nat Unit) :=
  .call 0 (.sendAll [a, b]) :: List.replicate 9 (.client 0) ++ List.replicate 11 (.thread 0)

def Host.paced (first later : UInt64) : Host Nat :=
  { Host.calm with elapsed := fun n => if n = 0 then first else later }

theorem average_with_panics_handleTwo :
    ∃ u, (State.create {} (some unwindOnSix) 1).run? (.paced 3 5) (handleTwo 5 7) = some u ∧
      u.stats.exactAverage = mean [3, 5] ∧ 3 ≤ u.stats.exactAverage ∧ u.stats.exactAverage ≤ 5 := by
  have ran : ((State.create {} (some unwindOnSix) 1).run? (.paced 3 5) (handleTwo 5 7)).isSome =
      true := by decide
  obtain ⟨u, hu⟩ := Option.isSome_iff_exists.mp ran
  have bouts : (State.create {} (some unwindOnSix) 1).bouts (.paced 3 5) (handleTwo 5 7) =
      [.returned 3, .returned 5] := by decide
  obtain ⟨-, -, -, average⟩ := average_with_panics rfl hu bouts (by decide)
  obtain ⟨-, same, least, most⟩ := average (by decide) (by decide)
  exact ⟨u, hu, same.mpr (by decide), by simpa using least 3 (by decide),
    by simpa using most (by decide) 5 (by decide)⟩

/-- One callback returns, and what is shown as the average is beyond the time of any. -/
theorem average_beyond_longest :
    ∃ u, (State.create {} (some unwindOnSix) 1).run? (.paced 1000 10) (handleTwo 6 5) = some u ∧
      (State.create {} (some unwindOnSix) 1).bouts (.paced 1000 10) (handleTwo 6 5) =
        [.panicked 1000, .returned 10] ∧
      u.stats.exactAverage = 1010 ∧ mean (returnedTimes [.panicked 1000, .returned 10]) = 10 := by
  have ran : ((State.create {} (some unwindOnSix) 1).run? (.paced 1000 10) (handleTwo 6 5)).any
      (fun u => u.stats.micros.toNat = 1010 ∧ u.stats.processed.toNat = 1) = true := by decide
  obtain ⟨u, hu, counts⟩ := (Option.any_eq_true _ _).mp ran
  obtain ⟨micros, processed⟩ := of_decide_eq_true counts
  have returned : returnedTimes [.panicked 1000, .returned 10] = [10] := by decide
  refine ⟨u, hu, by decide, ?_, ?_⟩
  · rw [Stats.exactAverage_eq, micros, processed]
    norm_num
  · rw [returned, mean]
    norm_num

end Worker

end QueueWorker
