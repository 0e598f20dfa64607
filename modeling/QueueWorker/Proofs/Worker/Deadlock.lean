import QueueWorker.Proofs.Worker.Waiting
import QueueWorker.Worker.Scenario

namespace QueueWorker.Worker

variable {α ρ : Type}

def Agent.act : Agent → Act α ρ
  | client i => .client i
  | thread t => .thread t

def State.CanMove (h : Host α) (s : State α ρ) (a : Agent) : Prop :=
  ∃ u, s.next? h a.act = some u

/-- What a call that cannot go on waits for: the phase, the lock over spawning and joining, the end
of a thread, or a thread that is not there yet. -/
inductive Waits (s : State α ρ) (c : Cursor α) : Prop
  | guard (taken : s.guard ≠ none)
  | lifecycle (taken : s.lifecycle ≠ none) (outside : c.pose? = none)
      (immodest : c.isModest = false)
  | exit (t) (retaking : c.pose? = some (.retaking t)) (alive : s.end? t = none)
  | hatching (t) (pose : c.pose? = some (.hatching t)) (absent : s.threads[t]? = none)

theorem waits_of_advance {h : Host α} {s : State α ρ} {me : Agent} {c : Cursor α}
    (hn : s.advance h me c = none) : Waits s c := by
  cases c with
  | entering load | enteringJoin =>
      simp only [State.advance] at hn
      split at hn
      next => cases hn
      next taken => exact .lifecycle taken rfl rfl
  | reclaiming load t | awaiting t | outliving t =>
      simp only [State.advance] at hn
      split at hn
      next => cases hn
      next =>
        split at hn
        next alive => exact .exit t rfl alive
        next => cases hn
        next => cases hn
  | announcing load t =>
      simp only [State.advance] at hn
      split at hn
      next => cases hn
      next absent => exact .hatching t rfl absent
  | ensuring load | adopting load t =>
      refine .guard (fun free => ?_)
      cases load <;> cases hp : s.phase <;> simp [State.advance, free, hp] at hn
  | abandoning | checking | stopping | taking | settling | readingStatus =>
      refine .guard (fun free => ?_)
      cases hp : s.phase <;> simp [State.advance, free, hp] at hn
  | spawning load =>
      simp only [State.advance] at hn
      split at hn <;> cases hn
  | retiring | sweeping =>
      simp only [State.advance] at hn
      split at hn <;> cases hn
  | _ => cases hn

theorem advance_of_holdsGuard {s : State α ρ} (h : Host α) (me : Agent) {c : Cursor α}
    (hc : c.holdsGuard = true) : ∃ s' p, s.advance h me c = some (s', p) ∧ s'.guard = none := by
  cases c with
  | pushing batch => exact ⟨_, _, rfl, rfl⟩
  | marking p t => exact ⟨_, _, rfl, rfl⟩
  | _ => cases hc

namespace State

variable {h : Host α} {s s' : State α ρ} {a : Agent} {c : Cursor α} {p : Progress α}

theorem client_of_cursor? {i : Nat} (hc : s.cursor? (.client i) = some c) :
    s.clients[i]? = some (.calling c) := by
  obtain ⟨cl, hi, hcl⟩ := Option.bind_eq_some_iff.mp hc
  cases cl <;> cases hcl
  exact hi

theorem thread_of_cursor? {t : Nat} (hc : s.cursor? (.thread t) = some c) :
    ∃ th a replies rest, s.threads[t]? = some th ∧ th.stage = .calling a replies c rest := by
  obtain ⟨th, ht, hst⟩ := Option.bind_eq_some_iff.mp hc
  cases hth : th.stage with
  | calling a replies c' rest =>
      rw [hth] at hst
      cases hst
      exact ⟨th, a, replies, rest, ht, hth⟩
  | _ => rw [hth] at hst; cases hst

theorem next?_of_calling {t : Nat} {th : Thread α ρ} {x : α} {replies : List Reply}
    {rest : Reply → Script α ρ} (ht : s.threads[t]? = some th)
    (hst : th.stage = .calling x replies c rest) (ha : s.advance h (.thread t) c = some (s', p)) :
    s.next? h (.thread t) = some (s'.resume t x replies rest p) := by
  cases p <;> simp [next?, ht, work?, hst, ha, resume]

theorem next?_of_advance (hc : s.cursor? a = some c) (ha : s.advance h a c = some (s', p)) :
    ∃ u, s.next? h a.act = some u ∧ u.guard = s'.guard := by
  cases a with
  | client i =>
      have hi := client_of_cursor? hc
      refine ⟨s'.setClient i p.client, ?_, rfl⟩
      cases p <;> simp [Agent.act, next?, hi, serve?, ha, Progress.client]
  | thread t =>
      obtain ⟨th, a, replies, rest, ht, hst⟩ := thread_of_cursor? hc
      exact ⟨s'.resume t a replies rest p, next?_of_calling ht hst ha, by cases p <;> rfl⟩

theorem mem_moves (hm : s.CanMove h a) : a.act ∈ s.moves := by
  obtain ⟨u, hu⟩ := hm
  obtain i | t := a
  · obtain ⟨cl, hi, -⟩ := Option.bind_eq_some_iff.mp hu
    simp [moves, Agent.act, (List.getElem?_eq_some_iff.mp hi).1]
  · obtain ⟨th, ht, -⟩ := Option.bind_eq_some_iff.mp hu
    simp [moves, Agent.act, (List.getElem?_eq_some_iff.mp ht).1]

end State

theorem guard_returns {h : Host α} {s : State α ρ} {a : Agent} (hl : Locked s)
    (held : s.guard = some a) : ∃ u, s.next? h a.act = some u ∧ u.guard = none := by
  obtain ⟨c, hc, holds⟩ := (Option.any_eq_true _ _).mp ((hl.guard a).mp held)
  obtain ⟨s', p, ha, free⟩ := advance_of_holdsGuard h a holds
  obtain ⟨u, hu, same⟩ := State.next?_of_advance hc ha
  exact ⟨u, hu, same.trans free⟩

def State.Moves (h : Host α) (s : State α ρ) : Prop := ∃ a, s.CanMove h a

theorem moves_of_guard {h : Host α} {s : State α ρ} (hl : Locked s) (taken : s.guard ≠ none) :
    s.Moves h := by
  obtain ⟨a, held⟩ := Option.ne_none_iff_exists'.mp taken
  obtain ⟨u, hu, -⟩ := guard_returns hl held
  exact ⟨a, u, hu⟩

theorem advance_of_modest {h : Host α} {s : State α ρ} {c : Cursor α} (me : Agent)
    (modest : c.isModest = true) (ready : s.guard = none ∨ c.holdsGuard = true) :
    ∃ s' p, s.advance h me c = some (s', p) := by
  have pose := Cursor.pose?_of_isModest modest
  cases ha : s.advance h me c with
  | some step => exact ⟨step.1, step.2, rfl⟩
  | none =>
      rcases ready with free | holds
      · cases waits_of_advance ha with
        | guard taken => exact absurd free taken
        | lifecycle taken outside immodest => rw [modest] at immodest; cases immodest
        | exit t waiting | hatching t waiting => rw [pose] at waiting; cases waiting
      · obtain ⟨s', p, ha', -⟩ := advance_of_holdsGuard h me holds
        rw [ha] at ha'
        cases ha'

theorem begin_of_modest (s : State α ρ) {c : Call α} (modest : c.isModest = true) :
    (∃ k, c.begin s = .at k ∧ k.isModest = true) ∨ ∃ r, c.begin s = .answer r := by
  cases c with
  | stop | status | length => exact .inl ⟨_, rfl, rfl⟩
  | settings => exact .inr ⟨_, rfl⟩
  | _ => cases modest

theorem ask_of_modest {s : State α ρ} (h : Host α) {t : Nat} {th : Thread α ρ} {a : α}
    {replies : List Reply} {c : Call α} {rest : Reply → Script α ρ}
    (ht : s.threads[t]? = some th) (stage : th.stage = .running a replies (.ask c rest))
    (modest : c.isModest = true) :
    ∃ st, s.next? h (.thread t) = some (s.setStage t st) ∧
      ((∃ k, st = .calling a replies k rest ∧ k.isModest = true) ∨
        ∃ r, st = .running a (replies ++ [r]) (rest r)) := by
  have next : s.next? h (.thread t) = s.ask? t a replies c rest := by
    simp [State.next?, ht, State.work?, stage, State.follow?]
  rw [next]
  by_cases shared : s.owner = .shared
  · rcases begin_of_modest s modest with ⟨k, first, hk⟩ | ⟨r, first⟩
    · refine ⟨.calling a replies k rest, ?_, .inl ⟨k, rfl, hk⟩⟩
      cases c <;> simp_all [State.ask?, Call.isModest]
    · refine ⟨.running a (replies ++ [r]) (rest r), ?_, .inr ⟨r, rfl⟩⟩
      cases c <;> simp_all [State.ask?, Call.isModest]
  · exact ⟨_, if_pos shared, .inr ⟨.gone, rfl⟩⟩

namespace Stage

def isHeld : Stage α ρ → Bool
  | .running _ _ (.hold _) => true
  | _ => false

def isInside : Stage α ρ → Bool
  | .running .. | .calling .. => true
  | _ => false

end Stage

theorem canMove_of_alive {h : Host α} {s : State α ρ} {t : Nat} {th : Thread α ρ}
    (hr : Reachable h s) (ht : s.threads[t]? = some th) (alive : th.stage.end? = none)
    (awake : th.stage.isSleeping = false) (unheld : th.stage.isHeld = false)
    (open' : s.guard = none) : s.CanMove h (.thread t) := by
  have modest := hr.civil.threads t th ht
  have move {u : State α ρ} (hu : s.work? h t th = some u) : s.CanMove h (.thread t) :=
    ⟨u, by simp [Agent.act, State.next?, ht, hu]⟩
  cases hst : th.stage with
  | fetched a =>
      have free : s.slot.holder = none := by
        by_contra held
        obtain ⟨v, hv⟩ := Option.ne_none_iff_exists'.mp held
        obtain ⟨tv, htv, holds⟩ := hr.slotHeld v hv
        have same : v = t := hr.alone ⟨tv, htv, Stage.end?_of_holdsSlot holds⟩ ⟨th, ht, alive⟩
        subst same
        cases ht.symm.trans htv
        rw [hst] at holds
        cases holds
      cases hc : s.slot.callback with
      | none => exact move (by simp only [State.work?, hst, State.invoke?, free, hc]; rfl)
      | some f => exact move (by simp only [State.work?, hst, State.invoke?, free, hc]; rfl)
  | running a replies script =>
      rw [hst] at modest unheld
      cases script with
      | hold rest => cases unheld
      | ask c rest =>
          obtain ⟨st, next, -⟩ := ask_of_modest h ht hst modest.1
          exact ⟨_, next⟩
      | _ => exact move (by simp only [State.work?, hst]; rfl)
  | calling a replies c rest =>
      rw [hst] at modest
      have hc : s.cursor? (.thread t) = some c := by rw [State.cursor?_of_thread ht, hst]; rfl
      obtain ⟨s', p, ha⟩ := advance_of_modest (h := h) (.thread t) modest.1 (.inl open')
      obtain ⟨u, hu, -⟩ := State.next?_of_advance hc ha
      exact ⟨u, hu⟩
  | sleeping => rw [hst] at awake; cases awake
  | exited | dead => rw [hst] at alive; cases alive
  | concluded a o => cases o <;> exact move (by simp only [State.work?, hst]; rfl)
  | _ => exact move (by simp only [State.work?, hst]; rfl)

theorem moves_of_alive {h : Host α} {s : State α ρ} {t : Nat} {th : Thread α ρ}
    (hr : Reachable h s) (ht : s.threads[t]? = some th) (alive : th.stage.end? = none)
    (awake : th.stage.isSleeping = false) (unheld : th.stage.isHeld = false) : s.Moves h := by
  by_cases open' : s.guard = none
  · exact ⟨.thread t, canMove_of_alive hr ht alive awake unheld open'⟩
  · exact moves_of_guard hr.locked open'

theorem queue_of_retaking {s : State α ρ} {t : Nat} {th : Thread α ρ}
    (staff : s.Staffed (some t) true) (ht : s.threads[t]? = some th)
    (working : th.stage.grade = .working) : s.queue ≠ [] := by
  intro empty
  have mem : Grade.working ∈ s.grades :=
    List.mem_of_getElem? ((State.grades_of_thread ht).trans (congrArg some working))
  have balance := staff.balance
  rw [empty] at balance
  have := List.count_pos_iff.mpr mem
  simp at balance
  omega

theorem awake_of_retaking {s : State α ρ} {t : Nat} {th : Thread α ρ} (watchful : Watchful s)
    (staff : s.Staffed (some t) true) (ht : s.threads[t]? = some th) :
    th.stage.isSleeping = false := by
  apply Bool.eq_false_iff.mpr
  intro asleep
  refine queue_of_retaking staff ht ?_ (watchful t th ht asleep)
  cases hst : th.stage <;> simp_all [Stage.isSleeping, Stage.grade]

/-- Whoever has the worker in its hands can go on, or somebody that it waits for can. -/
theorem moves_of_charged {h : Host α} {s : State α ρ} {a : Agent} {c : Cursor α} {q : Pose}
    (hr : Reachable h s) (unheld : ∀ th ∈ s.threads, th.stage.isHeld = false)
    (hc : s.cursor? a = some c) (hq : c.pose? = some q) : s.Moves h := by
  cases ha : s.advance h a c with
  | some step =>
      obtain ⟨u, hu, -⟩ := State.next?_of_advance (p := step.2) hc ha
      exact ⟨a, u, hu⟩
  | none =>
      cases waits_of_advance ha with
      | guard taken => exact moves_of_guard hr.locked taken
      | lifecycle taken outside => rw [hq] at outside; cases outside
      | exit t retaking alive =>
          have staff := (hr.fits hc retaking).2
          obtain ⟨th, ht⟩ : ∃ th, s.threads[t]? = some th :=
            ⟨_, List.getElem?_eq_getElem (by simpa [State.grades] using staff.present t rfl)⟩
          exact moves_of_alive hr ht (by simpa [State.end?, ht] using alive)
            (awake_of_retaking hr.watchful staff ht) (unheld th (List.mem_of_getElem? ht))
      | hatching t pose absent =>
          have present := (hr.fits hc pose).2.present t rfl
          rw [List.getElem?_eq_none_iff] at absent
          simp [State.grades] at present
          omega

theorem Cursor.pose_of_holdsLifecycle {c : Cursor α} (hc : c.holdsLifecycle = true) :
    ∃ q, c.pose? = some q := by
  cases c with
  | stopping p | marking p t => cases p <;> first | exact ⟨_, rfl⟩ | cases hc
  | _ => first | exact ⟨_, rfl⟩ | cases hc

theorem moves_of_cursor {h : Host α} {s : State α ρ} {a : Agent} {c : Cursor α}
    (hr : Reachable h s) (unheld : ∀ th ∈ s.threads, th.stage.isHeld = false)
    (hc : s.cursor? a = some c) : s.Moves h := by
  cases ha : s.advance h a c with
  | some step =>
      obtain ⟨u, hu, -⟩ := State.next?_of_advance (p := step.2) hc ha
      exact ⟨a, u, hu⟩
  | none =>
      cases waits_of_advance ha with
      | guard taken => exact moves_of_guard hr.locked taken
      | lifecycle taken =>
          obtain ⟨b, held⟩ := Option.ne_none_iff_exists'.mp taken
          obtain ⟨k, hk, holds⟩ := (Option.any_eq_true _ _).mp ((hr.locked.lifecycle b).mp held)
          obtain ⟨q, hq⟩ := Cursor.pose_of_holdsLifecycle holds
          exact moves_of_charged hr unheld hk hq
      | exit t retaking => exact moves_of_charged hr unheld hc retaking
      | hatching t pose => exact moves_of_charged hr unheld hc pose

/-- Some client's call has not returned, or some callback has not. -/
def State.IsBusy (s : State α ρ) : Prop :=
  (∃ cl ∈ s.clients, cl.isIdle = false) ∨ ∃ th ∈ s.threads, th.stage.isInside = true

theorem moves_of_isBusy {h : Host α} {s : State α ρ} (hr : Reachable h s)
    (unheld : ∀ th ∈ s.threads, th.stage.isHeld = false) (busy : s.IsBusy) : s.Moves h := by
  rcases busy with ⟨cl, hm, busy⟩ | ⟨th, hm, inside⟩
  · obtain ⟨i, hi⟩ := List.mem_iff_getElem?.mp hm
    cases cl with
    | idle last => cases busy
    | calling c => exact moves_of_cursor hr unheld (State.cursor?_of_client hi)
    | registering f =>
        by_cases free : s.slot.holder = none
        · exact ⟨.client i, _, by simp [Agent.act, State.next?, hi, State.serve?, free]; rfl⟩
        · obtain ⟨t, ht⟩ := Option.ne_none_iff_exists'.mp free
          obtain ⟨th, hth, holds⟩ := hr.slotHeld t ht
          exact moves_of_alive hr hth (Stage.end?_of_holdsSlot holds)
            (Stage.awake_of_holdsSlot holds) (unheld th (List.mem_of_getElem? hth))
  · obtain ⟨t, ht⟩ := List.mem_iff_getElem?.mp hm
    have holds : th.stage.holdsSlot = true := by
      cases hst : th.stage <;> simp_all [Stage.isInside, Stage.holdsSlot]
    exact moves_of_alive hr ht (Stage.end?_of_holdsSlot holds) (Stage.awake_of_holdsSlot holds)
      (unheld th hm)

def Stage.Asks (a : α) (replies : List Reply) (rest : Reply → Script α ρ) : Stage α ρ → Prop
  | .running b rs (.ask _ k) | .calling b rs _ k => b = a ∧ rs = replies ∧ k = rest
  | _ => False

def Answered (s : State α ρ) (t : Nat) (a : α) (replies : List Reply)
    (rest : Reply → Script α ρ) : Prop :=
  ∃ th r, s.threads[t]? = some th ∧ th.stage = .running a (replies ++ [r]) (rest r)

theorem answer_or_marking {h : Host α} {s s' : State α ρ} {me : Agent} {c : Cursor α}
    {p : Progress α} (modest : c.isModest = true) (step : Advances h s me c s' p) :
    (∃ r, p = .answer r) ∨
      (c.holdsGuard = false ∧ ∃ k, p = .at k ∧ k.isModest = true ∧ k.holdsGuard = true) := by
  cases step with
  | stopFound q t => cases q <;> first | exact .inr ⟨rfl, _, rfl, rfl, rfl⟩ | cases modest
  | stopMissed q | marked q t => cases q <;> first | exact .inl ⟨_, rfl⟩ | cases modest
  | status | length => exact .inl ⟨_, rfl⟩
  | _ => cases modest

section answers

variable {h : Host α} {s : State α ρ} {t : Nat} {th : Thread α ρ} {a : α} {replies : List Reply}
  {c : Cursor α} {rest : Reply → Script α ρ}

theorem answered_of_answer {s' : State α ρ} {r : Reply} (ht : s.threads[t]? = some th)
    (stage : th.stage = .calling a replies c rest)
    (ha : s.advance h (.thread t) c = some (s', .answer r)) :
    ∃ u, s.next? h (.thread t) = some u ∧ Answered u t a replies rest := by
  have ht' := threads_advances (advances_of_advance ha) ht (by simp [stage]) (by simp [stage])
  refine ⟨_, State.next?_of_calling ht stage ha, { th with stage := _ }, r, ?_, rfl⟩
  simp [State.resume, State.setStage, ht']

theorem answered_of_calling (ht : s.threads[t]? = some th)
    (stage : th.stage = .calling a replies c rest) (modest : c.isModest = true)
    (ready : s.guard = none ∨ c.holdsGuard = true) :
    ∃ n u, n ≤ 2 ∧ s.run? h (List.replicate n (.thread t)) = some u ∧
      Answered u t a replies rest := by
  obtain ⟨s', p, ha⟩ := advance_of_modest (h := h) (.thread t) modest ready
  rcases answer_or_marking modest (advances_of_advance ha) with
    ⟨r, rfl⟩ | ⟨-, k, rfl, modest', holds⟩
  · obtain ⟨u, hu, answered⟩ := answered_of_answer ht stage ha
    exact ⟨1, u, by omega, by simp [State.run?, hu], answered⟩
  · have ht' := threads_advances (advances_of_advance ha) ht (by simp [stage]) (by simp [stage])
    have hv := State.next?_of_calling ht stage ha
    have hv' : (s'.resume t a replies rest (.at k)).threads[t]? =
        some { th with stage := .calling a replies k rest } := by
      simp [State.resume, State.setStage, ht']
    obtain ⟨s'', p, ha'⟩ := advance_of_modest (h := h) (s := s'.resume t a replies rest (.at k))
      (.thread t) modest' (.inr holds)
    rcases answer_or_marking modest' (advances_of_advance ha') with ⟨r, rfl⟩ | ⟨free, -⟩
    · obtain ⟨u, hu, answered⟩ := answered_of_answer hv' rfl ha'
      exact ⟨2, u, by omega, by simp [List.replicate, State.run?, hv, hu], answered⟩
    · rw [holds] at free
      cases free

theorem answered_of_asks (civil : Civil s) (ht : s.threads[t]? = some th)
    (asks : th.stage.Asks a replies rest)
    (ready : s.guard = none ∨ (s.cursor? (.thread t)).any Cursor.holdsGuard = true) :
    ∃ n u, n ≤ 3 ∧ s.run? h (List.replicate n (.thread t)) = some u ∧
      Answered u t a replies rest := by
  have modest := civil.threads t th ht
  rw [State.cursor?_of_thread ht] at ready
  cases hst : th.stage with
  | calling b rs c k =>
      rw [hst] at asks modest ready
      obtain ⟨rfl, rfl, rfl⟩ := asks
      obtain ⟨n, u, hn, run, answered⟩ := answered_of_calling (h := h) ht hst modest.1 ready
      exact ⟨n, u, by omega, run, answered⟩
  | running b rs script =>
      rw [hst] at asks modest ready
      have free := ready.resolve_right (by simp [Stage.cursor?])
      cases script with
      | ask c k =>
          obtain ⟨rfl, rfl, rfl⟩ := asks
          obtain ⟨st, next, going⟩ := ask_of_modest h ht hst modest.1
          have hv : (s.setStage t st).threads[t]? = some { th with stage := st } := by
            simp [State.setStage, ht]
          rcases going with ⟨k', rfl, modest'⟩ | ⟨r, rfl⟩
          · obtain ⟨n, u, hn, run, answered⟩ :=
              answered_of_calling (h := h) hv rfl modest' (.inl free)
            refine ⟨n + 1, u, by omega, ?_, answered⟩
            simpa [List.replicate, State.run?, next] using run
          · exact ⟨1, _, by omega, by simp [State.run?, next], _, r, hv, rfl⟩
      | _ => exact asks.elim
  | _ => rw [hst] at asks; exact asks.elim

end answers

theorem thread_of_other {h : Host α} {s u : State α ρ} {t : Nat} {th : Thread α ρ} {b : Agent}
    (hu : s.next? h b.act = some u) (other : b ≠ .thread t) (ht : s.threads[t]? = some th)
    (awake : th.stage ≠ .sleeping) (busy : th.stage ≠ .polling) : u.threads[t]? = some th := by
  cases b with
  | client i =>
      cases step_of_next hu with
      | client i c s' p client step => exact threads_advances step ht awake busy
      | place => exact ht
  | thread v =>
      cases step_of_next hu with
      | thread v tv u thread step =>
          exact threads_works_ne step (fun he => other (congrArg Agent.thread he)) ht awake busy

/-- The callback can have its answer after three steps of its thread, and one step before them of
whoever has the lock over the phase. -/
def CanBeAnswered (h : Host α) (s : State α ρ) (t : Nat) (a : α) (replies : List Reply)
    (rest : Reply → Script α ρ) : Prop :=
  ∃ front n u, (front = [] ∨ ∃ b, s.guard = some b ∧ front = [b.act]) ∧ n ≤ 3 ∧
    s.run? h (front ++ List.replicate n (.thread t)) = some u ∧ Answered u t a replies rest

theorem canBeAnswered_of_asks {h : Host α} {s : State α ρ} {t : Nat} {th : Thread α ρ} {a : α}
    {replies : List Reply} {rest : Reply → Script α ρ} (hr : Reachable h s)
    (ht : s.threads[t]? = some th) (asks : th.stage.Asks a replies rest) :
    CanBeAnswered h s t a replies rest := by
  have alone (ready : s.guard = none ∨ (s.cursor? (.thread t)).any Cursor.holdsGuard = true) :
      CanBeAnswered h s t a replies rest := by
    obtain ⟨n, u, hn, run, answered⟩ := answered_of_asks hr.civil ht asks ready
    exact ⟨[], n, u, .inl rfl, hn, run, answered⟩
  cases held : s.guard with
  | none => exact alone (.inl held)
  | some b =>
      by_cases mine : b = .thread t
      · subst mine
        exact alone (.inr ((hr.locked.guard _).mp held))
      · obtain ⟨v, hv, free⟩ := guard_returns (h := h) hr.locked held
        have ht' := thread_of_other hv mine ht
          (fun he => by rw [he] at asks; exact asks) (fun he => by rw [he] at asks; exact asks)
        have civil := (hr.next (by cases b <;> trivial) hv).civil
        obtain ⟨n, u, hn, run, answered⟩ := answered_of_asks (h := h) civil ht' asks (.inl free)
        refine ⟨[b.act], n, u, .inr ⟨b, held, rfl⟩, hn, ?_, answered⟩
        simpa [State.run?, hv] using run

theorem held?_eq (s : State α ρ) : s.held? = s.threads.findIdx? (fun th => th.stage.isHeld) := by
  rw [State.held?]
  congr 1

theorem release_of_held {h : Host α} {s : State α ρ} {t : Nat} (held : s.held? = some t) :
    ∃ u, s.next? h (.release t) = some u := by
  rw [held?_eq] at held
  obtain ⟨hlt, waits, -⟩ := List.findIdx?_eq_some_iff_getElem.mp held
  have ht := List.getElem?_eq_getElem hlt
  cases hst : s.threads[t].stage with
  | running a replies script =>
      cases script with
      | hold rest => exact ⟨_, by simp [State.next?, ht, hst]; rfl⟩
      | _ => rw [hst] at waits; cases waits
  | _ => rw [hst] at waits; cases waits

/-- In every state that a worker comes to, however it is used: as long as a call or a callback has
not returned, a client or a thread can take its next step, unless a callback waits to be let go,
and then it can be. Who has the lock over the phase never waits. Hence a callback that looks at its
worker or stops it always can have its answer, whoever else joins or starts the worker meanwhile. -/
theorem deadlock_freedom {h : Host α} {s : State α ρ} (hr : Reachable h s) :
    (s.IsBusy → s.held? = none → ∃ act ∈ s.moves, ∃ u, s.next? h act = some u) ∧
      (∀ t, s.held? = some t → ∃ u, s.next? h (.release t) = some u) ∧
      (∀ a, s.guard = some a → ∃ u, s.next? h a.act = some u ∧ u.guard = none) ∧
      ∀ t th a replies rest, s.threads[t]? = some th → th.stage.Asks a replies rest →
        CanBeAnswered h s t a replies rest := by
  refine ⟨?_, fun _ held => release_of_held held, fun _ held => guard_returns hr.locked held,
    fun _ _ _ _ _ ht asks => canBeAnswered_of_asks hr ht asks⟩
  intro busy none
  rw [held?_eq] at none
  obtain ⟨a, move⟩ := moves_of_isBusy (h := h) hr (List.findIdx?_eq_none_iff.mp none) busy
  exact ⟨a.act, State.mem_moves move, move⟩

def stopSelf : Callback Nat Unit := fun _ _ => .ask .stop fun _ => .finish

def joinBehindStop : List (Act Nat Unit) :=
  .call 0 (.send 5) :: List.replicate 9 (.client 0) ++ List.replicate 3 (.thread 0) ++
    .call 0 .join :: List.replicate 4 (.client 0)

def Stage.isStopping (a : Nat) : Stage Nat ρ → Bool
  | .running b replies (.ask c _) => b = a && replies = [] && c = .stop
  | _ => false

theorem Stage.eq_of_isStopping {st : Stage Nat ρ} {a : Nat} (stopping : st.isStopping a = true) :
    ∃ rest, st = .running a [] (.ask .stop rest) := by
  cases st with
  | running b replies script =>
      cases script with
      | ask c rest =>
          simp only [isStopping, Bool.and_eq_true, decide_eq_true_eq] at stopping
          obtain ⟨⟨rfl, rfl⟩, rfl⟩ := stopping
          exact ⟨rest, rfl⟩
      | _ => cases stopping
  | _ => cases stopping

theorem deadlock_freedom_joinBehindStop :
    ∃ s, (State.create {} (some stopSelf) 1).run? Host.calm joinBehindStop = some s ∧
      s.clients[0]? = some (.calling (.awaiting 0)) ∧
      (∃ act ∈ s.moves, ∃ u, s.next? Host.calm act = some u) ∧
      ∃ th rest, s.threads[0]? = some th ∧ th.stage = .running 5 [] (.ask .stop rest) ∧
        CanBeAnswered Host.calm s 0 5 [] rest := by
  have modest : ∀ f : Callback Nat Unit, some stopSelf = some f → Callback.Modest f := by
    rintro f ⟨⟩
    exact fun _ _ => ⟨rfl, fun _ => trivial⟩
  have hp : ((State.create {} (some stopSelf) 1).run? Host.calm joinBehindStop).any (fun s =>
      s.clients[0]?.any (Client.isAt (.awaiting 0)) && s.held? = none &&
        s.threads[0]?.any (fun th => th.stage.isStopping 5)) = true := by
    decide
  obtain ⟨s, hs, hr, hp⟩ := Reachable.of_run hp modest (by simp [joinBehindStop, Act.Modest])
  simp only [Bool.and_eq_true, decide_eq_true_eq] at hp
  obtain ⟨⟨joining, unheld⟩, hp⟩ := hp
  obtain ⟨th, ht, hst⟩ := (Option.any_eq_true _ _).mp hp
  obtain ⟨moves, -, -, answers⟩ := deadlock_freedom hr
  have joining := Client.eq_of_isAt joining
  have busy : s.IsBusy := .inl ⟨_, List.mem_of_getElem? joining, rfl⟩
  obtain ⟨rest, stage⟩ := Stage.eq_of_isStopping hst
  exact ⟨s, hs, joining, moves busy unheld, th, rest, ht, stage,
    answers 0 th 5 [] rest ht (by rw [stage]; exact ⟨rfl, rfl, rfl⟩)⟩

end QueueWorker.Worker
