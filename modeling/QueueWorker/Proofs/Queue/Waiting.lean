import QueueWorker.Proofs.Queue.Course

namespace QueueWorker.Queue

variable {α : Type}

/-- The states of a queue on which at most one thread is asleep at any time, as with a single
consumer. Any others may be on their way to the lock or behind it. -/
inductive Attended (items : List α) (threads horizon : Nat) : State α → Prop
  | create : Attended items threads horizon { State.fresh threads horizon with items }
  | next {s u : State α} {act : Act α} (before : Attended items threads horizon s)
      (step : s.next? act = some u) (single : u.sleepers.length ≤ 1) :
      Attended items threads horizon u

namespace State

variable {s u : State α}

/-- No thread goes on unless something comes in from outside: a call, a wake-up without cause or
the end of a wait. -/
def IsAtRest (s : State α) : Prop := ∀ i chosen, s.next? (.step i chosen) = none

/-- The state behind some acts, if at most one thread is asleep at any time. -/
def attend? (s : State α) : List (Act α) → Option (State α)
  | [] => some s
  | act :: acts =>
      (s.next? act).bind (fun u => if u.sleepers.length ≤ 1 then u.attend? acts else none)

theorem stage_of_put {i j : Nat} {t t' : Stage α} (hj : (s.put i t).threads[j]? = some t') :
    t' = t ∨ i ≠ j ∧ s.threads[j]? = some t' := by
  by_cases same : i = j
  · subst same
    have bound := (List.getElem?_eq_some_iff.mp hj).1
    rw [put, List.length_set] at bound
    rw [threads_put_self (List.getElem?_eq_getElem bound)] at hj
    exact .inl (Option.some.inj hj).symm
  · exact .inr ⟨same, (threads_put_ne same t).symm.trans hj⟩

theorem IsAtRest.stage {i : Nat} {t : Stage α} (rest : s.IsAtRest)
    (hi : s.threads[i]? = some t) :
    t.isIdle = true ∨ ∃ deadline into, t = .sleeping deadline into := by
  have still := rest i 0
  cases t with
  | idle => exact .inl rfl
  | sleeping deadline into => exact .inr ⟨deadline, into, rfl⟩
  | collecting | entering => simp only [next?, hi] at still; cases still

theorem eq_of_single {i j : Nat} (single : s.sleepers.length ≤ 1) (hi : i ∈ s.sleepers)
    (hj : j ∈ s.sleepers) : i = j := by
  cases sleepers : s.sleepers with
  | nil => rw [sleepers] at hi; cases hi
  | cons k rest =>
      rw [sleepers] at single hi hj
      obtain rfl : rest = [] :=
        List.length_eq_zero_iff.mp (Nat.le_zero.mp (Nat.le_of_succ_le_succ single))
      exact (List.mem_singleton.mp hi).trans (List.mem_singleton.mp hj).symm

end State

theorem Stage.isSleeping_answered (p : Reply α) (into : Option (Frame α)) :
    (Stage.answered p into).isSleeping = false := by
  cases into <;> rfl

theorem Section.Meets.of_empty {sec : Section α} {i now : Nat} {p : Reply α} {ys : List α}
    {es : List (Entry α)} (meets : sec.Meets i now p [] ys es) (quiet : ∀ as, sec ≠ .append as) :
    ys = [] := by
  cases meets with
  | append as => exact absurd rfl (quiet as)
  | giveUp | miss | drain | length => rfl

/-- A thread sleeps over an empty queue only. -/
def Watchful (s : State α) : Prop :=
  ∀ (i : Nat) (t : Stage α), s.threads[i]? = some t → t.isSleeping = true → s.items = []

namespace Watchful

variable {s u : State α}

theorem put (hs : Watchful s) {t : Stage α} (i : Nat) (awake : t.isSleeping = false) :
    Watchful (s.put i t) := by
  intro j t' hj asleep
  obtain rfl | ⟨-, hj⟩ := State.stage_of_put hj
  · rw [awake] at asleep; cases asleep
  · exact hs j t' hj asleep

theorem leave (hs : Watchful s) {ys : List α} (es : List (Entry α))
    (empty : s.items = [] → ys = []) : Watchful (s.leave ys es) :=
  fun j t hj asleep => empty (hs j t hj asleep)

/-- Whoever is asleep is woken, since no two threads are asleep. -/
theorem wake (single : s.sleepers.length ≤ 1) (chosen : Nat) : Watchful (s.wake chosen) := by
  intro i t hi asleep
  cases t with
  | idle | collecting | entering => cases asleep
  | sleeping deadline into =>
      obtain ⟨none, hw⟩ | ⟨j, deadline', into', hj, hw⟩ := s.wake_cases chosen
      · rw [hw] at hi
        exact absurd (State.mem_sleepers.mpr ⟨deadline, into, hi⟩) (none ▸ List.not_mem_nil)
      · rw [hw] at hi
        obtain same | ⟨other, hi⟩ := State.stage_of_put hi
        · cases same
        · exact absurd (State.eq_of_single single (State.mem_sleepers.mpr ⟨deadline', into', hj⟩)
            (State.mem_sleepers.mpr ⟨deadline, into, hi⟩)) other

end Watchful

theorem watchful_step {s u : State α} {act : Act α} (hs : Watchful s)
    (single : s.sleepers.length ≤ 1) (step : Step s act u) : Watchful u := by
  cases step with
  | append i chosen as into =>
      -- What was pushed may stay for a while, so nobody may be left asleep: one wake-up has to do.
      have woken := Watchful.wake (s := s.leave (s.items ++ as) [.appended i as]) single chosen
      exact woken.put i (Stage.isSleeping_answered ..)
  | meet i chosen sec into p ys es stage quiet meets =>
      exact (hs.leave es fun items => (items ▸ meets).of_empty quiet).put i
        (Stage.isSleeping_answered ..)
  | sleep i chosen deadline into stage items => exact fun _ _ _ _ => items
  | elapse time => exact hs
  | _ => exact hs.put _ rfl

namespace Attended

variable {items : List α} {threads horizon : Nat} {s u : State α}

theorem single (ha : Attended items threads horizon s) : s.sleepers.length ≤ 1 := by
  cases ha with
  | create =>
      have none : ({ State.fresh threads horizon with items } : State α).sleepers = [] := by
        refine List.eq_nil_iff_forall_not_mem.mpr fun i hi => ?_
        obtain ⟨deadline, into, hi⟩ := State.mem_sleepers.mp hi
        cases List.eq_of_mem_replicate (List.mem_of_getElem? hi)
      rw [none]
      exact Nat.zero_le 1
  | next before step single => exact single

theorem watchful (ha : Attended items threads horizon s) : Watchful s := by
  induction ha with
  | create =>
      intro i t hi asleep
      cases List.eq_of_mem_replicate (List.mem_of_getElem? hi)
      cases asleep
  | next before step _ ih => exact watchful_step ih before.single (step_of_next step)

theorem attend {acts : List (Act α)} (ha : Attended items threads horizon s)
    (hs : s.attend? acts = some u) : Attended items threads horizon u := by
  induction acts generalizing s with
  | nil => cases hs; exact ha
  | cons act acts ih =>
      obtain ⟨v, hv, hu⟩ := Option.bind_eq_some_iff.mp hs
      split at hu
      next single => exact ih (ha.next hv single) hu
      next => cases hu

end Attended

theorem removal_step {s u : State α} {i chosen : Nat} {deadline : Option Nat}
    {into : Option (Frame α)} (hi : s.threads[i]? = some (.entering (.take deadline) into))
    (hs : s.next? (.step i chosen) = some u) :
    (∃ a, s.items = a :: u.items ∧ u.threads[i]? = some (.answered (.item a) into)) ∨
      s.items = [] ∧ u.threads[i]? = some (.sleeping deadline into) := by
  simp only [State.next?, hi] at hs
  cases hs
  cases items : s.items with
  | nil =>
      simp only [State.enter, items]
      exact .inr ⟨trivial, State.threads_put_self hi _⟩
  | cons a xs =>
      simp only [State.enter, items, State.answer_eq]
      exact .inl ⟨a, rfl, State.threads_put_self (s := s.leave xs [.removed i [a]]) hi _⟩

theorem lastLook_step {s u : State α} {i chosen : Nat} {into : Option (Frame α)}
    (hi : s.threads[i]? = some (.entering .takeLast into))
    (hs : s.next? (.step i chosen) = some u) :
    (∃ a, s.items = a :: u.items ∧ u.threads[i]? = some (.answered (.item a) into)) ∨
      s.items = [] ∧ u.items = [] ∧ u.threads[i]? = some (.answered .nothing into) := by
  simp only [State.next?, hi] at hs
  cases hs
  cases items : s.items with
  | nil =>
      simp only [State.enter, items, State.answer_eq]
      exact .inr ⟨trivial, items, State.threads_put_self (s := s.note (.gaveUp i s.now)) hi _⟩
  | cons a xs =>
      simp only [State.enter, items, State.answer_eq]
      exact .inl ⟨a, rfl, State.threads_put_self (s := s.leave xs [.removed i [a]]) hi _⟩

theorem Request.Does.pop {s : State α} {acts : List (Act α)} {i now : Nat} {p : Reply α}
    {es : List (Entry α)} (does : Request.pop.Does s acts i now p es) :
    ∃ a xs at', p = .item a ∧ es = [.removed i [a]] ∧ s.Turns acts i at' (a :: xs) xs es := by
  cases does with
  | pass passes => cases passes
  | enter enters does =>
      cases enters
      cases does with
      | turn meets turns => cases meets; exact ⟨_, _, _, rfl, rfl, turns⟩

theorem Request.Does.popWithin {s : State α} {acts : List (Act α)} {i now time : Nat}
    {p : Reply α} {es : List (Entry α)} (does : (Request.popWithin time).Does s acts i now p es) :
    (p = .beyond ∧ s.horizon < now + time) ∨
      (∃ a xs at', p = .item a ∧ es = [.removed i [a]] ∧ s.Turns acts i at' (a :: xs) xs es) ∨
      ∃ at', p = .nothing ∧ now + time ≤ at' ∧ es = [.gaveUp i at'] ∧
        s.Turns acts i at' [] [] es := by
  cases does with
  | pass passes =>
      cases passes with
      | popWithin time beyond => exact .inl ⟨rfl, beyond⟩
  | enter enters does =>
      cases enters
      cases does with
      | turn meets turns => cases meets; exact .inr (.inl ⟨_, _, _, rfl, rfl, turns⟩)
      | late late meets turns =>
          cases meets with
          | takeLast a => exact .inr (.inl ⟨a, _, _, rfl, rfl, turns⟩)
          | giveUp => exact .inr (.inr ⟨_, rfl, late, rfl, turns⟩)

/-- No wake-up is lost, as long as at most one thread is asleep at any time. A thread is asleep over
an empty queue only, so that nothing is left in the queue when it comes to rest with somebody
waiting. `pop` takes the front when it returns. `popWithin` does too, or it has looked at an empty
queue once its deadline was over. -/
theorem no_lost_wake_up {items : List α} {threads horizon : Nat} {s : State α}
    (attended : Attended items threads horizon s) :
    (∀ (i : Nat) deadline into, s.threads[i]? = some (.sleeping deadline into) → s.items = []) ∧
      (s.IsAtRest → s.items ≠ [] → ∀ t ∈ s.threads, t.isIdle = true) ∧
      (∀ (i chosen : Nat) deadline into u, s.threads[i]? = some (.entering (.take deadline) into) →
        s.next? (.step i chosen) = some u →
        (∃ a, s.items = a :: u.items ∧ u.threads[i]? = some (.answered (.item a) into)) ∨
          s.items = [] ∧ u.threads[i]? = some (.sleeping deadline into)) ∧
      (∀ (i chosen : Nat) into u, s.threads[i]? = some (.entering .takeLast into) →
        s.next? (.step i chosen) = some u →
        (∃ a, s.items = a :: u.items ∧ u.threads[i]? = some (.answered (.item a) into)) ∨
          s.items = [] ∧ u.items = [] ∧ u.threads[i]? = some (.answered .nothing into)) ∧
      (∀ i acts u p, Answered s i (.plain .pop) acts u p →
        ∃ a xs now, p = .item a ∧
          s.Turns (.call i (.plain .pop) :: acts) i now (a :: xs) xs [.removed i [a]]) ∧
      ∀ i time acts u p, Answered s i (.plain (.popWithin time)) acts u p →
        (p = .beyond ∧ s.horizon < s.now + time) ∨
          (∃ a xs now, p = .item a ∧
            s.Turns (.call i (.plain (.popWithin time)) :: acts) i now (a :: xs) xs
              [.removed i [a]]) ∨
          ∃ now, p = .nothing ∧ s.now + time ≤ now ∧
            s.Turns (.call i (.plain (.popWithin time)) :: acts) i now [] [] [.gaveUp i now] := by
  refine ⟨fun i deadline into hi => attended.watchful i _ hi rfl, fun rest some t ht => ?_,
    fun i chosen deadline into u hi hs => removal_step hi hs,
    fun i chosen into u hi hs => lastLook_step hi hs, fun i acts u p answered => ?_,
    fun i time acts u p answered => ?_⟩
  · obtain ⟨i, hi⟩ := List.mem_iff_getElem?.mp ht
    obtain idle | ⟨deadline, into, rfl⟩ := rest.stage hi
    · exact idle
    · exact absurd (attended.watchful i _ hi rfl) some
  · obtain ⟨es, -, does⟩ := answered.does
    cases does with
    | plain does =>
        obtain ⟨a, xs, now, rfl, rfl, turns⟩ := does.pop
        exact ⟨a, xs, now, rfl, turns⟩
  · obtain ⟨es, -, does⟩ := answered.does
    cases does with
    | plain does =>
        obtain ⟨rfl, beyond⟩ | ⟨a, xs, now, rfl, rfl, turns⟩ | ⟨now, rfl, late, rfl, turns⟩ :=
          does.popWithin
        · exact .inl ⟨rfl, beyond⟩
        · exact .inr (.inl ⟨a, xs, now, rfl, turns⟩)
        · exact .inr (.inr ⟨now, rfl, late, turns⟩)

def stolenItem : List (Act Nat) :=
  [.step 1 0, .call 0 (.plain (.push 7)), .step 0 0, .call 2 (.plain .tryPop), .step 2 0, .step 1 0,
    .stir 1, .step 1 0]

def pushAtDeadline : List (Act Nat) :=
  [.pass 5, .expire 1, .call 0 (.plain (.push 8)), .step 0 0, .step 1 0]

theorem no_lost_wake_up_stolenItem :
    ∃ s u : State Nat, Attended [] 3 10 s ∧ 1 ∈ s.sleepers ∧ s.items = [] ∧
      Answered (.fresh 3 10) 1 (.plain (.popWithin 5)) (stolenItem ++ pushAtDeadline) u (.item 8) ∧
      ∃ xs now, (State.fresh 3 10).Turns
        (.call 1 (.plain (.popWithin 5)) :: (stolenItem ++ pushAtDeadline)) 1 now (8 :: xs) xs
        [.removed 1 [8]] := by
  have parked : ((State.fresh 3 10).attend? (.call 1 (.plain (.popWithin 5)) :: stolenItem)).any
      (fun s => 1 ∈ s.sleepers) = true := by decide
  have taken : ((State.fresh 3 10).run? (.call 1 (.plain (.popWithin 5)) ::
      (stolenItem ++ pushAtDeadline))).any (fun u => u.lastReply? 1 = some (.item 8)) = true := by
    decide
  obtain ⟨s, hs, asleep⟩ := (Option.any_eq_true _ _).mp parked
  obtain ⟨u, hu, reply⟩ := (Option.any_eq_true _ _).mp taken
  have attended : Attended [] 3 10 s := Attended.create.attend hs
  have answered : Answered (.fresh 3 10) 1 (.plain (.popWithin 5)) (stolenItem ++ pushAtDeadline) u
      (.item 8) :=
    ⟨hu, by decide, of_decide_eq_true reply⟩
  obtain ⟨deadline, into, hi⟩ := State.mem_sleepers.mp (of_decide_eq_true asleep)
  obtain ⟨empty, -⟩ := no_lost_wake_up attended
  have new : Attended [] 3 10 (State.fresh 3 10 : State Nat) := .create
  obtain ⟨-, -, -, -, -, popWithin⟩ := no_lost_wake_up new
  obtain ⟨other, -⟩ | ⟨a, xs, now, same, turns⟩ | ⟨-, other, -⟩ := popWithin _ _ _ _ _ answered
  · cases other
  · cases same
    exact ⟨s, u, attended, of_decide_eq_true asleep, empty 1 deadline into hi, answered, xs, now,
      turns⟩
  · cases other

end QueueWorker.Queue
