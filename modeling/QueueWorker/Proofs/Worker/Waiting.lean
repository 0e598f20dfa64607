import QueueWorker.Proofs.Worker.Course

namespace QueueWorker.Worker

variable {α ρ : Type}

/-- At most one thread is alive at a time, even when others have been unwound. -/
theorem Attainable.alone {h : Host α} {s : State α ρ} {t u : Nat} (ha : Attainable h s)
    (ht : s.IsAlive t) (hu : s.IsAlive u) : t = u := by
  by_cases gone : s.owner = .gone
  · obtain ⟨g, hg, alive⟩ := State.isAlive_iff.mp ht
    rw [(ha.deserted gone).ended t g hg] at alive
    cases alive
  · obtain ⟨ward, marked, staff⟩ := (ha.posed gone).staffed
    exact Option.some.inj
      ((State.Staffed.isAlive staff ht).symm.trans (State.Staffed.isAlive staff hu))

theorem Reachable.alone {h : Host α} {s : State α ρ} {t u : Nat} (hr : Reachable h s)
    (ht : s.IsAlive t) (hu : s.IsAlive u) : t = u := hr.attainable.alone ht hu

theorem Works.isAlive {h : Host α} {s u : State α ρ} {t : Nat} {th : Thread α ρ}
    (hw : Works h s t th u) (ht : s.threads[t]? = some th) : s.IsAlive t :=
  State.isAlive_iff.mpr ⟨_, State.grades_of_thread ht, running_of_works hw⟩

theorem Works.awake {h : Host α} {s u : State α ρ} {t : Nat} {th : Thread α ρ}
    (hw : Works h s t th u) : th.stage.isSleeping = false := by
  cases hw <;> simp_all [Stage.isSleeping]

def Watchful (s : State α ρ) : Prop :=
  ∀ (t : Nat) (th : Thread α ρ), s.threads[t]? = some th → th.stage.isSleeping = true →
    s.queue = []

theorem State.isAlive_of_sleeping {s : State α ρ} {t : Nat} {th : Thread α ρ}
    (ht : s.threads[t]? = some th) (asleep : th.stage.isSleeping = true) : s.IsAlive t := by
  refine ⟨th, ht, ?_⟩
  cases hst : th.stage <;> simp_all [Stage.isSleeping, Stage.end?]

/-- A push leaves nobody asleep, since no two threads sleep. -/
theorem sleeping_of_roused {s : State α ρ} {ms : List (Message α)} {t : Nat} {th : Thread α ρ}
    (alone : ∀ t u, s.IsAlive t → s.IsAlive u → t = u) (ht : (s.roused ms)[t]? = some th)
    (asleep : th.stage.isSleeping = true) : ms = [] ∧ s.threads[t]? = some th := by
  simp only [State.roused] at ht
  split at ht
  next v hv =>
    obtain ⟨hlt, first, -⟩ := List.findIdx?_eq_some_iff_getElem.mp hv
    split at ht
    next empty => exact ⟨List.isEmpty_iff.mp empty, ht⟩
    next =>
      rw [List.getElem?_modify] at ht
      obtain ⟨th', ht', rfl⟩ := Option.map_eq_some_iff.mp ht
      by_cases htv : v = t
      · simp [htv, Stage.isSleeping] at asleep
      · have same := alone v t (State.isAlive_of_sleeping (List.getElem?_eq_getElem hlt) first)
          (State.isAlive_of_sleeping ht' (by simpa [htv] using asleep))
        exact absurd same htv
  next none =>
    have awake := List.findIdx?_eq_none_iff.mp none th (List.mem_of_getElem? ht)
    rw [asleep] at awake
    cases awake

namespace Watchful

variable {h : Host α} {s v : State α ρ}

theorem congr (hs : Watchful s) (threads : v.threads = s.threads)
    (queue : v.queue = s.queue ∨ v.queue = []) : Watchful v := by
  intro t th ht hst
  rcases queue with queue | queue
  · exact queue.trans (hs t th (threads ▸ ht) hst)
  · exact queue

theorem setStage {t : Nat} {stage : Stage α ρ} (hs : Watchful s)
    (threads : v.threads = s.threads) (awake : stage.isSleeping = false)
    (queue : v.queue = s.queue ∨ s.queue ≠ []) : Watchful (v.setStage t stage) := by
  intro u th hu hst
  simp only [State.setStage, List.getElem?_modify, threads] at hu
  obtain ⟨th', hu', rfl⟩ := Option.map_eq_some_iff.mp hu
  by_cases htu : t = u
  · simp [htu, awake] at hst
  · have empty := hs u th' hu' (by simpa [htu] using hst)
    rcases queue with queue | filled
    · exact queue.trans empty
    · exact absurd empty filled

theorem push (hs : Watchful s) (alone : ∀ t u, s.IsAlive t → s.IsAlive u → t = u)
    (ms : List (Message α)) : Watchful (s.push ms) := by
  rw [State.push_eq]
  intro t th ht hst
  obtain ⟨rfl, old⟩ := sleeping_of_roused alone ht hst
  exact (List.append_nil _).trans (hs t th old hst)

theorem advances {me : Agent} {c : Cursor α} {p : Progress α} (hs : Watchful s)
    (alone : ∀ t u, s.IsAlive t → s.IsAlive u → t = u) (step : Advances h s me c v p) :
    Watchful v := by
  cases step with
  | pushed batch => exact (hs.push alone (batch.map .item)).congr rfl (.inl rfl)
  | marked p t => exact (hs.push alone [.stop]).congr rfl (.inl rfl)
  | spawned load =>
      exact State.forall_append (P := fun st => st.isSleeping = true → s.queue = [])
        (fun asleep => by cases asleep) hs
  | swept => exact hs.congr rfl (.inr rfl)
  | _ => exact hs.congr rfl (.inl rfl)

theorem works {t : Nat} {th : Thread α ρ} (hs : Watchful s)
    (alone : ∀ t u, s.IsAlive t → s.IsAlive u → t = u) (hw : Works h s t th v) : Watchful v := by
  cases hw with
  | start stage =>
      exact State.forall_set (P := fun st => st.isSleeping = true → s.queue = [])
        (fun asleep => by cases asleep) hs
  | sleep stage queue => intro u th' hu hst; exact queue
  | fetch a ms stage queue | halt ms stage queue =>
      exact hs.setStage rfl rfl (.inr (by rw [queue]; exact List.cons_ne_nil _ _))
  | skip a stage =>
      exact hs.setStage rfl (by cases h.disposal a <;> rfl) (.inl rfl)
  | letGo p stage =>
      exact hs.setStage rfl (by cases p.bind Payload.relic? <;> rfl) (.inl rfl)
  | call a replies c rest s' p stage step =>
      have hs' := hs.advances alone step
      cases p <;> exact hs'.setStage rfl rfl (.inl rfl)
  | _ => exact hs.setStage rfl rfl (.inl rfl)

theorem step {act : Act α ρ} (hs : Watchful s)
    (alone : ∀ t u, s.IsAlive t → s.IsAlive u → t = u) (step : Step h s act v) : Watchful v := by
  cases step with
  | client i c s' p client step => exact (hs.advances alone step).congr rfl (.inl rfl)
  | thread t th u thread step => exact hs.works alone step
  | release t th a replies rest | stir t th =>
      exact hs.setStage rfl rfl (.inl rfl)
  | _ => exact hs.congr rfl (.inl rfl)

end Watchful

theorem Reachable.watchful {h : Host α} {s : State α ρ} (hr : Reachable h s) : Watchful s := by
  induction hr with
  | create settings callback clients modest => intro t th ht; cases ht
  | next before modest step ih => exact ih.step (fun _ _ => before.alone) (step_of_next step)

def Stage.holdsSlot : Stage α ρ → Bool
  | .lacking _ | .skipping _ | .running .. | .calling .. | .concluded .. | .noted ..
  | .leaving _ => true
  | _ => false

theorem Stage.end?_of_holdsSlot {st : Stage α ρ} (holds : st.holdsSlot = true) :
    st.end? = none := by
  cases st <;> first | rfl | cases holds

theorem Stage.awake_of_holdsSlot {st : Stage α ρ} (holds : st.holdsSlot = true) :
    st.isSleeping = false := by
  cases st <;> first | rfl | cases holds

/-- Who holds the callback is on its way to let go of it. -/
def SlotHeld (s : State α ρ) : Prop :=
  ∀ t, s.slot.holder = some t → ∃ th, s.threads[t]? = some th ∧ th.stage.holdsSlot = true

namespace SlotHeld

variable {h : Host α} {s v : State α ρ}

theorem congr (hs : SlotHeld s) (threads : v.threads = s.threads)
    (holder : v.slot.holder = s.slot.holder) : SlotHeld v := by
  intro t ht
  rw [threads]
  exact hs t (holder ▸ ht)

theorem advances {me : Agent} {c : Cursor α} {p : Progress α} (hs : SlotHeld s)
    (step : Advances h s me c v p) : SlotHeld v := by
  have holder : v.slot.holder = s.slot.holder := by
    cases step with
    | pushed batch => rw [State.push_eq]; rfl
    | marked q t => rw [State.push_eq]
    | _ => rfl
  intro t ht
  obtain ⟨th, hth, holds⟩ := hs t (holder ▸ ht)
  refine ⟨th, threads_advances step hth ?_ ?_, holds⟩ <;> (intro he; rw [he] at holds; cases holds)

theorem setStage {t : Nat} {th : Thread α ρ} {stage : Stage α ρ} (hs : SlotHeld s)
    (ht : s.threads[t]? = some th) (threads : v.threads = s.threads)
    (holder : v.slot.holder = s.slot.holder)
    (keeps : th.stage.holdsSlot = true → stage.holdsSlot = true) :
    SlotHeld (v.setStage t stage) := by
  intro u hu
  obtain ⟨tu, htu, holds⟩ := hs u (holder ▸ hu)
  by_cases same : t = u
  · subst same
    cases ht.symm.trans htu
    exact ⟨{ th with stage }, by simp [State.setStage, threads, ht], keeps holds⟩
  · exact ⟨tu, by simpa [State.setStage, threads, same] using htu, holds⟩

theorem take {t : Nat} {th : Thread α ρ} {stage : Stage α ρ} (ht : s.threads[t]? = some th)
    (holder : s.slot.holder = some t) (holds : stage.holdsSlot = true) :
    SlotHeld (s.setStage t stage) := by
  intro u hu
  cases holder.symm.trans hu
  exact ⟨{ th with stage }, by simp [State.setStage, ht], holds⟩

theorem give (free : s.slot.holder = none) : SlotHeld s := by
  intro t ht
  rw [free] at ht
  cases ht

theorem works {t : Nat} {th : Thread α ρ} (hs : SlotHeld s) (ht : s.threads[t]? = some th)
    (hw : Works h s t th v) : SlotHeld v := by
  cases hw with
  | start stage =>
      intro u hu
      obtain ⟨tu, htu, holds⟩ := hs u hu
      by_cases same : t = u
      · subst same
        cases ht.symm.trans htu
        rw [stage] at holds
        cases holds
      · exact ⟨tu, by simpa [same] using htu, holds⟩
  | lack a stage | begin a f stage => exact take ht rfl rfl
  | skip | letGo => exact give rfl
  | call a replies c rest s' p stage step =>
      have ht' := threads_advances step ht (by simp [stage]) (by simp [stage])
      have hs' := hs.advances step
      cases p <;> exact hs'.setStage ht' rfl rfl (fun _ => rfl)
  | sleep stage | fetch _ _ stage | halt _ stage | exit stage =>
      exact hs.setStage ht rfl rfl (fun holds => by rw [stage] at holds; cases holds)
  | _ => exact hs.setStage ht rfl rfl (fun _ => rfl)

theorem step {act : Act α ρ} (hs : SlotHeld s) (step : Step h s act v) : SlotHeld v := by
  cases step with
  | client i c s' p client step => exact (hs.advances step).congr rfl rfl
  | place => exact give rfl
  | thread t th u thread step => exact hs.works thread step
  | release t th a replies rest thread => exact hs.setStage thread rfl rfl (fun _ => rfl)
  | stir t th thread stage =>
      exact hs.setStage thread rfl rfl (fun holds => by rw [stage] at holds; cases holds)
  | _ => exact hs.congr rfl rfl

end SlotHeld

theorem Reachable.slotHeld {h : Host α} {s : State α ρ} (hr : Reachable h s) : SlotHeld s := by
  induction hr with
  | create settings callback clients modest => exact SlotHeld.give rfl
  | next before modest step ih => exact ih.step (step_of_next step)

end QueueWorker.Worker
