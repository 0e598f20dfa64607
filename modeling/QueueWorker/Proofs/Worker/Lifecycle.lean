import QueueWorker.Proofs.Worker.Charge

namespace QueueWorker.Worker

variable {α ρ : Type}

def Stage.hasMetStop : Stage α ρ → Bool
  | .exiting | .exited => true
  | _ => false

namespace State

def IsAlive (s : State α ρ) (t : Nat) : Prop :=
  ∃ th, s.threads[t]? = some th ∧ th.stage.end? = none

def HasMetStop (s : State α ρ) (t : Nat) : Prop :=
  ∃ th, s.threads[t]? = some th ∧ th.stage.hasMetStop = true

/-- No thread has been unwound. -/
def IsUnhurt (s : State α ρ) : Prop := ∀ t p, s.end? t ≠ some (some p)

/-- The worker is in use, and nobody has a lock. -/
def IsOpen (s : State α ρ) : Prop :=
  s.owner = .shared ∧ s.lifecycle = none ∧ s.guard = none

variable {s u : State α ρ} {t : Nat}

theorem isAlive_iff : s.IsAlive t ↔ ∃ g, s.grades[t]? = some g ∧ g.hasEnded = false := by
  have (th : Thread α ρ) : th.stage.end? = none ↔ th.stage.grade.hasEnded = false := by
    simp [Stage.hasEnded_grade]
  constructor
  · rintro ⟨th, ht, he⟩
    exact ⟨_, grades_of_thread ht, (this th).mp he⟩
  · rintro ⟨g, ht, he⟩
    simp only [grades, List.getElem?_map, Option.map_eq_some_iff] at ht
    obtain ⟨th, ht, rfl⟩ := ht
    exact ⟨th, ht, (this th).mpr he⟩

theorem hasMetStop_iff : s.HasMetStop t ↔ ∃ g, s.grades[t]? = some g ∧ g.metStop = true := by
  have (th : Thread α ρ) : th.stage.hasMetStop = th.stage.grade.metStop := by
    cases hst : th.stage <;> rfl
  constructor
  · rintro ⟨th, ht, hm⟩
    exact ⟨_, grades_of_thread ht, this th ▸ hm⟩
  · rintro ⟨g, ht, hm⟩
    simp only [grades, List.getElem?_map, Option.map_eq_some_iff] at ht
    obtain ⟨th, ht, rfl⟩ := ht
    exact ⟨th, ht, (this th).symm ▸ hm⟩

theorem dead_of_isUnhurt (h : s.IsUnhurt) : s.grades.count .dead = 0 := by
  apply List.count_eq_zero.mpr
  intro hm
  obtain ⟨th, hth, hg⟩ := List.mem_map.mp hm
  obtain ⟨t, ht⟩ := List.mem_iff_getElem?.mp hth
  cases hst : th.stage with
  | dead p => exact h t p (by simp [end?, ht, hst, Stage.end?])
  | _ => simp [hst, Stage.grade] at hg

theorem isUnhurt_of_all (hs : s.threads.all (fun th => th.stage.end?.isNone) = true) :
    s.IsUnhurt := by
  intro t p ht
  obtain ⟨th, hth, he⟩ := Option.bind_eq_some_iff.mp ht
  have := List.all_eq_true.mp hs th (List.mem_of_getElem? hth)
  rw [he] at this; cases this

end State

theorem not_mem_of_markers {ms : List (Message α)} (h : markers ms = 0) : .stop ∉ ms := by
  intro hm
  have : 0 < markers ms := List.countP_pos_iff.mpr ⟨.stop, hm, rfl⟩
  omega

theorem eq_items_of_markers {ms : List (Message α)} (h : markers ms = 0) :
    ms = (ms.filterMap Message.item?).map .item := by
  induction ms with
  | nil => rfl
  | cons m ms ih =>
      cases m with
      | item a => simpa [Message.item?] using ih (by simpa using h)
      | stop => simp at h

namespace Staffed

variable {grades : List Grade} {queue : List (Message α)} {ward : Option Nat} {marked : Bool}

theorem working_zero (h : Staffed grades queue ward marked)
    (hn : ∀ t, ward = some t → grades[t]? ≠ some .working) : grades.count .working = 0 := by
  apply List.count_eq_zero.mpr
  intro hm
  obtain ⟨t, ht⟩ := List.mem_iff_getElem?.mp hm
  exact hn t (h.working_eq ht) ht

theorem working_of_one {t : Nat} (h : Staffed grades queue (some t) marked)
    (hc : 0 < grades.count .working) : grades[t]? = some .working := by
  obtain ⟨u, hu⟩ := List.mem_iff_getElem?.mp (List.count_pos_iff.mp hc)
  rw [Option.some.inj (h.working_eq hu)]
  exact hu

theorem queue_empty (h : Staffed grades queue ward marked)
    (hc : grades.count .working + grades.count .dead = 0) : queue = [] := by
  have hb := h.balance
  cases queue with
  | nil => rfl
  | cons m ms =>
      cases m with
      | item a =>
          have hq : Message.item a :: ms = [] ++ .item a :: ms := rfl
          have := h.before_lt hq
          omega
      | stop => simp at hb; omega

theorem behind_stop (h : Staffed grades queue ward marked) (hd : grades.count .dead = 0)
    {before behind : List (Message α)} (hq : queue = before ++ .stop :: behind) (a : α) :
    .item a ∉ behind := by
  intro hm
  obtain ⟨front, rest, rfl⟩ := List.append_of_mem hm
  have hq : queue = (before ++ .stop :: front) ++ .item a :: rest := by simp [hq]
  have hlt := h.before_lt hq
  have := h.working_le
  simp at hlt
  omega

theorem queue_marked (h : Staffed grades queue ward true) (hd : grades.count .dead = 0)
    (hw : grades.count .working = 1) : ∃ items : List α, queue = items.map .item ++ [.stop] := by
  have hb := h.balance
  simp only [if_true] at hb
  have hm : Message.stop ∈ queue := by
    obtain ⟨m, hm, hs⟩ := List.countP_pos_iff.mp (show 0 < markers queue by omega)
    cases m with
    | item a => cases hs
    | stop => exact hm
  obtain ⟨before, behind, hq⟩ := List.append_of_mem hm
  have hc : markers before = 0 ∧ markers behind = 0 := by
    rw [hq] at hb
    simp at hb
    omega
  have hnil : behind = [] := by
    cases behind with
    | nil => rfl
    | cons m ms =>
        cases m with
        | item a => exact absurd List.mem_cons_self (h.behind_stop hd hq a)
        | stop => simp at hc
  exact ⟨before.filterMap Message.item?, by rw [hq, hnil, ← eq_items_of_markers hc.1]⟩

end Staffed

theorem Posed.staffed {s : State α ρ} (hs : Posed s) : ∃ ward marked, s.Staffed ward marked := by
  have of_fits {q : Pose} (fits : s.Fits q) : ∃ ward marked, s.Staffed ward marked := by
    cases q with
    | resting =>
        cases hp : s.phase with
        | idle => exact ⟨_, _, State.fits_idle fits hp⟩
        | running t => exact ⟨_, _, State.fits_running fits hp⟩
        | stopping t => exact ⟨_, _, State.fits_stopping fits hp⟩
        | joining => exact absurd hp (State.fits_not_joining fits)
    | retaking t | vacant | hatching t => exact ⟨_, _, fits.2⟩
  by_cases hq : ∃ a q, s.pose? a = some q
  · obtain ⟨a, q, hq⟩ := hq
    exact of_fits (hs.charged a q hq)
  · apply of_fits (hs.free _)
    intro a
    cases ha : s.pose? a with
    | none => rfl
    | some q => exact absurd ⟨a, q, ha⟩ hq

/-- Nothing is left of a worker that is gone. -/
structure Deserted (s : State α ρ) : Prop where
  ended : ∀ (t : Nat) (g : Grade), s.grades[t]? = some g → g.hasEnded = true
  queue : s.queue = []

theorem place_of_deserted {h : Host α} {s u : State α ρ} {act : Act α ρ} (hl : Locked s)
    (gone : s.owner = .gone) (hs : Deserted s) (step : Step h s act u) :
    ∃ slot i cl, u = { s with slot }.setClient i cl := by
  have notFree {i : Nat} (free : s.isFree i) : False := by
    have := State.shared_of_isFree free
    rw [gone] at this; cases this
  have alive {t : Nat} {th : Thread α ρ} (ht : s.threads[t]? = some th)
      (he : th.stage.grade.hasEnded = false) : False := by
    rw [hs.ended t _ (State.grades_of_thread ht)] at he; cases he
  cases step with
  | call i c k free | answer i c r free | drop i free | register i f free | prefer i p free =>
      exact (notFree free).elim
  | client i c s' p client step =>
      have := hl.owner (.client i) c (State.cursor?_of_client client)
      rw [gone] at this
      split at this <;> cases this
  | place i f client free => exact ⟨_, i, _, rfl⟩
  | thread t th u thread step => exact (alive thread (running_of_works step)).elim
  | release t th a replies rest thread stage | stir t th thread stage =>
      exact (alive thread (by rw [stage]; rfl)).elim

theorem deserted_step {h : Host α} {s u : State α ρ} {act : Act α ρ} (hl : Locked s)
    (gone : s.owner = .gone) (hs : Deserted s) (step : Step h s act u) : Deserted u := by
  obtain ⟨slot, i, cl, rfl⟩ := place_of_deserted hl gone hs step
  exact ⟨hs.ended, hs.queue⟩

theorem deserted_advances {h : Host α} {s s' : State α ρ} {me : Agent} {c : Cursor α}
    {p : Progress α} (step : Advances h s me c s' p)
    (apart : ∀ t, me = .thread t → c.awaited? ≠ some t) (fits : ∀ q, c.pose? = some q → s.Fits q)
    (here : s.owner ≠ .gone) (gone : s'.owner = .gone) : Deserted s' := by
  have ended (fits : s.Fits .vacant) (t : Nat) (g : Grade) (ht : s.grades[t]? = some g) :
      g.hasEnded = true := by
    cases he : g.hasEnded with
    | true => rfl
    | false => cases fits.2.alive t g ht he
  cases step with
  | outliveSelf t self => exact absurd rfl (apart t self)
  | swept all => exact ⟨ended (fits .vacant rfl), rfl⟩
  | sweptEarly some' =>
      obtain ⟨th, hm, he⟩ := List.all_eq_false.mp some'
      obtain ⟨t, ht⟩ := List.mem_iff_getElem?.mp hm
      have := ended (fits .vacant rfl) t _ (State.grades_of_thread ht)
      rw [Stage.hasEnded_grade] at this
      exact absurd this he
  | pushed batch => rw [State.push_eq] at gone; exact absurd gone here
  | marked p t => rw [State.push_eq] at gone; exact absurd gone here
  | _ => exact absurd gone here

theorem Attainable.deserted {h : Host α} {s : State α ρ} (ha : Attainable h s)
    (gone : s.owner = .gone) : Deserted s := by
  induction ha with
  | create settings callback clients => cases gone
  | @next s u act before step apart ih =>
      have step := step_of_next step
      by_cases here : s.owner = .gone
      · exact deserted_step before.locked here (ih here) step
      · cases step_turn step with
        | advance me c s' p cursor step alike moved =>
            have hs : Deserted s' := by
              refine deserted_advances step ?_ ?_ here (alike.owner ▸ gone)
              · intro t hme; subst me; exact before.apart t c cursor
              · intro q hq
                exact (before.posed here).charged me q (by rw [State.pose?, cursor]; exact hq)
            exact ⟨alike.grades ▸ hs.ended, alike.queue ▸ hs.queue⟩
        | begin me c k idle shared other first alike moved =>
            rw [alike.owner] at gone; exact absurd gone here
        | drop me quiet shared alike moved => rw [alike.owner] at gone; cases gone
        | silent phase lifecycle guard owner => rw [owner] at gone; exact absurd gone here

theorem Reachable.deserted {h : Host α} {s : State α ρ} (hr : Reachable h s)
    (gone : s.owner = .gone) : Deserted s := hr.attainable.deserted gone

def Cursor.looksForThread : Cursor α → Bool
  | .ensuring _ | .taking | .retiring => true
  | _ => false

/-- How the threads, the queue and the phase of a worker belong together. The phase alone tells all
while nobody has a lock. -/
structure Orderly (s : State α ρ) : Prop where
  alone : ∀ t u, s.IsAlive t → s.IsAlive u → t = u
  markers : markers s.queue ≤ 1
  behind : ∀ before behind, s.queue = before ++ .stop :: behind → ∀ a, .item a ∉ behind
  idle : s.IsOpen → s.phase = .idle → (∀ t, ¬ s.IsAlive t) ∧ s.queue = []
  running : ∀ t, s.IsOpen → s.phase = .running t →
    (∀ u, s.IsAlive u ↔ u = t) ∧ ¬ s.HasMetStop t ∧ .stop ∉ s.queue
  stopping : ∀ t, s.IsOpen → s.phase = .stopping t →
    (s.IsAlive t ∧ ¬ s.HasMetStop t ∧ ∃ items : List α, s.queue = items.map .item ++ [.stop]) ∨
      (s.HasMetStop t ∧ s.queue = [])
  notJoining : s.IsOpen → s.phase ≠ .joining
  unreached : ∀ a c, s.cursor? a = some c → c.looksForThread = true → s.phase ≠ .joining

namespace State

variable {s : State α ρ} {t : Nat}

theorem isAlive_of_working (ht : s.grades[t]? = some .working) :
    s.IsAlive t ∧ ¬ s.HasMetStop t := by
  refine ⟨isAlive_iff.mpr ⟨_, ht, rfl⟩, fun hm => ?_⟩
  obtain ⟨g, hg, hm⟩ := hasMetStop_iff.mp hm
  rw [ht] at hg
  cases hg
  cases hm

theorem Staffed.isAlive {ward : Option Nat} {marked : Bool} (h : s.Staffed ward marked)
    (ht : s.IsAlive t) : ward = some t := by
  obtain ⟨g, hg, he⟩ := isAlive_iff.mp ht
  exact h.alive t g hg he

theorem orderly_idle (h : s.Staffed none true) (hd : s.grades.count .dead = 0) :
    (∀ t, ¬ s.IsAlive t) ∧ s.queue = [] := by
  refine ⟨fun t ht => ?_, ?_⟩
  · cases Staffed.isAlive h ht
  · apply h.queue_empty
    rw [hd, h.working_zero (fun t ht => by cases ht)]

theorem orderly_running (h : s.Staffed (some t) false) (hd : s.grades.count .dead = 0) :
    (∀ u, s.IsAlive u ↔ u = t) ∧ ¬ s.HasMetStop t ∧ .stop ∉ s.queue := by
  have hb := h.balance
  have hle := h.working_le
  simp only [hd, Bool.false_eq_true, if_false] at hb
  have hw := h.working_of_one (by omega)
  obtain ⟨alive, unmet⟩ := isAlive_of_working hw
  refine ⟨fun u => ⟨fun hu => ?_, fun hu => hu ▸ alive⟩, unmet, ?_⟩
  · exact (Option.some.inj (Staffed.isAlive h hu)).symm
  · exact not_mem_of_markers (by omega)

theorem orderly_stopping (h : s.Staffed (some t) true) (hd : s.grades.count .dead = 0) :
    (s.IsAlive t ∧ ¬ s.HasMetStop t ∧ ∃ items : List α, s.queue = items.map .item ++ [.stop]) ∨
      (s.HasMetStop t ∧ s.queue = []) := by
  by_cases hw : 0 < s.grades.count .working
  · obtain ⟨alive, unmet⟩ := isAlive_of_working (h.working_of_one hw)
    have := h.working_le
    exact .inl ⟨alive, unmet, h.queue_marked hd (by omega)⟩
  · obtain ⟨g, hg⟩ : ∃ g, s.grades[t]? = some g := ⟨_, List.getElem?_eq_getElem (h.present t rfl)⟩
    have hm : g ∈ s.grades := List.mem_of_getElem? hg
    have met : g.metStop = true := by
      cases g with
      | working => exact absurd (List.count_pos_iff.mpr hm) hw
      | dead => exact absurd (List.count_pos_iff.mpr hm) (by omega)
      | halted | exited => rfl
    exact .inr ⟨hasMetStop_iff.mpr ⟨g, hg, met⟩, h.queue_empty (by omega)⟩

end State

theorem orderly_of_posed {s : State α ρ} (hl : Locked s) (hs : Posed s) (unhurt : s.IsUnhurt) :
    Orderly s := by
  have hd := State.dead_of_isUnhurt unhurt
  obtain ⟨ward, marked, staff⟩ := hs.staffed
  have rest (h : s.IsOpen) : s.Fits .resting :=
    hs.free (hl.nobody h.2.1 (by rw [h.1]; exact Owner.noConfusion))
  constructor
  · intro t u ht hu
    exact Option.some.inj ((State.Staffed.isAlive staff ht).symm.trans
      (State.Staffed.isAlive staff hu))
  · have := staff.balance
    have := staff.working_le
    omega
  · intro before behind hq a
    exact staff.behind_stop hd hq a
  · intro h hp
    exact State.orderly_idle (State.fits_idle (rest h) hp) hd
  · intro t h hp
    exact State.orderly_running (State.fits_running (rest h) hp) hd
  · intro t h hp
    exact State.orderly_stopping (State.fits_stopping (rest h) hp) hd
  · intro h
    exact State.fits_not_joining (rest h)
  · intro a c hc looks
    have hq : s.pose? a = some .resting := by
      rw [State.pose?, hc]
      cases c <;> first | rfl | cases looks
    exact State.fits_not_joining (hs.charged a _ hq)

theorem orderly_of_deserted {s : State α ρ} (hl : Locked s) (gone : s.owner = .gone)
    (hs : Deserted s) : Orderly s := by
  have dead (t : Nat) : ¬ s.IsAlive t := by
    rintro ht
    obtain ⟨g, hg, he⟩ := State.isAlive_iff.mp ht
    rw [hs.ended t g hg] at he; cases he
  have closed : ¬ s.IsOpen := by
    intro h
    rw [h.1] at gone; cases gone
  constructor
  · intro t u ht; exact absurd ht (dead t)
  · simp [hs.queue]
  · intro before behind hq; rw [hs.queue] at hq; simp at hq
  · intro h; exact absurd h closed
  · intro t h; exact absurd h closed
  · intro t h; exact absurd h closed
  · intro h; exact absurd h closed
  · intro a c hc
    have := hl.owner a c hc
    rw [gone] at this
    split at this <;> cases this

/-- As long as no thread has been unwound, whatever the clients, the threads and the system have
done. -/
theorem lifecycle_invariant {h : Host α} {s : State α ρ} (hr : Reachable h s)
    (unhurt : s.IsUnhurt) : Orderly s := by
  by_cases gone : s.owner = .gone
  · exact orderly_of_deserted hr.locked gone (hr.deserted gone)
  · exact orderly_of_posed hr.locked (hr.posed gone) unhurt

def stopBehindItem : List (Act Nat Unit) :=
  .call 0 (.send 7) :: List.replicate 9 (.client 0) ++ [.call 0 .stop, .client 0, .client 0]

theorem lifecycle_invariant_stopBehindItem :
    ∃ s, (State.create {} none 1).run? Host.calm stopBehindItem = some s ∧
      s.phase = .stopping 0 ∧ s.queue = [.item 7, .stop] ∧ Orderly s := by
  have hp : ((State.create {} none 1).run? Host.calm stopBehindItem).any (fun s =>
      s.phase = .stopping 0 && s.queue = [.item 7, .stop] &&
        s.threads.all (fun th => th.stage.end?.isNone)) = true := by decide
  obtain ⟨s, hs, hr, hp⟩ := Reachable.of_run hp (by simp) (by simp [stopBehindItem, Act.Modest])
  simp only [Bool.and_eq_true, decide_eq_true_eq] at hp
  exact ⟨s, hs, hp.1.1, hp.1.2, lifecycle_invariant hr (State.isUnhurt_of_all hp.2)⟩

end QueueWorker.Worker
