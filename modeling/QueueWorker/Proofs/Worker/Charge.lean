import QueueWorker.Proofs.Worker.Apart
import QueueWorker.Proofs.Worker.Locks

namespace QueueWorker.Worker

variable {α ρ : Type}

namespace Cursor

/-- What a call that stands here has seen of the phase, and can still rely on. -/
def Knows : Cursor α → Phase → Prop
  | .pushing _, ph => ∃ t, ph = .running t
  | .marking _ t, ph => ph = .running t
  | .taking, ph | .retiring, ph => ∀ t, ph ≠ .running t
  | _, _ => True

end Cursor

def Aware (s : State α ρ) : Prop := ∀ a c, s.cursor? a = some c → c.Knows s.phase

/-- The phase is moved by who has the lifecycle lock while the guard is free, by who has the guard,
and by who drops the worker. -/
theorem phase_advances {h : Host α} {s s' : State α ρ} {me : Agent} {c : Cursor α}
    {p : Progress α} (hs : Advances h s me c s' p) :
    s'.phase = s.phase ∨ (c.holdsLifecycle = true ∧ s.guard = none) ∨
      (c.holdsGuard = true ∧ ∃ t, s'.phase = .stopping t) ∨ c.isDropping = true := by
  cases hs with
  | reclaim load t free | vacate load free | adopted t free | adoptedLoaded t batch free
  | abandoned load f free | taken t free | settled r free => exact .inr (.inl ⟨rfl, free⟩)
  | marked p t => exact .inr (.inr (.inl ⟨rfl, t, rfl⟩))
  | retired t phase => exact .inr (.inr (.inr rfl))
  | pushed batch => rw [State.push_eq]; exact .inl rfl
  | _ => exact .inl rfl

theorem knows_advances {h : Host α} {s s' : State α ρ} {me : Agent} {c k : Cursor α}
    {p : Progress α} (hs : Advances h s me c s' p) (hc : c.Knows s.phase)
    (hk : p.cursor? = some k) : k.Knows s'.phase := by
  cases hs with
  | found batch t free phase => cases hk; exact ⟨t, phase⟩
  | stopFound p t free phase => cases hk; exact phase
  | stopMissed p free phase => cases p <;> cases hk <;> exact phase
  | marked p t => cases p <;> cases hk <;> (intro u hu; cases hu)
  | _ => cases hk <;> trivial

theorem Held.unique {lock : Option Agent} {cursor : Agent → Option (Cursor α)}
    {holds : Cursor α → Bool} {a b : Agent} {c k : Cursor α} (h : Held lock cursor holds)
    (ha : cursor a = some c) (hc : holds c = true) (hb : cursor b = some k)
    (hk : holds k = true) : a = b := by
  have hla := (h a).mpr (by rw [ha]; exact hc)
  have hlb := (h b).mpr (by rw [hb]; exact hk)
  exact Option.some.inj (hla.symm.trans hlb)

theorem knows_of_other {h : Host α} {s s' : State α ρ} {me a : Agent} {c k : Cursor α}
    {p : Progress α} (hl : Locked s) (hc : s.cursor? me = some c) (hs : Advances h s me c s' p)
    (ha : a ≠ me) (hk : s.cursor? a = some k) (knows : k.Knows s.phase) : k.Knows s'.phase := by
  have notDropping : c.isDropping ≠ true := by
    intro hd
    rw [hl.alone me c hc hd a ha] at hk; cases hk
  have notBoth (hg : k.holdsGuard = true) : s.guard ≠ none ∧ c.holdsGuard ≠ true := by
    refine ⟨?_, fun hg' => ha (hl.guard.unique hk hg hc hg')⟩
    rw [(hl.guard a).mpr (by rw [hk]; exact hg)]
    exact Option.some_ne_none a
  rcases phase_advances hs with same | ⟨hlc, open'⟩ | ⟨hg, t, stopping⟩ | dropping
  · rwa [same]
  · cases k with
    | pushing batch => exact absurd open' (notBoth rfl).1
    | marking p t => exact absurd open' (notBoth rfl).1
    | taking => exact absurd (hl.lifecycle.unique hk rfl hc hlc) ha
    | retiring =>
        rw [hl.alone a _ hk rfl me (Ne.symm ha)] at hc; cases hc
    | _ => trivial
  · cases k with
    | pushing batch => exact absurd hg (notBoth rfl).2
    | marking p t => exact absurd hg (notBoth rfl).2
    | taking | retiring => intro u; rw [stopping]; exact Phase.noConfusion
    | _ => trivial
  · exact absurd dropping notDropping

theorem aware_turn {h : Host α} {s u : State α ρ} (hl : Locked s) (ha : Aware s)
    (ht : Turn h s u) : Aware u := by
  intro a k hk
  cases ht with
  | advance me c s' p cursor step alike moved =>
      rw [alike.phase]
      rw [moved] at hk
      by_cases hme : a = me
      · subst a
        rw [Function.update_self] at hk
        exact knows_advances step (ha me c cursor) hk
      · rw [Function.update_of_ne hme] at hk
        exact knows_of_other hl cursor step hme hk (ha a k hk)
  | begin me c k' idle shared other first alike moved =>
      rw [alike.phase]
      rw [moved] at hk
      by_cases hme : a = me
      · subst a
        rw [Function.update_self] at hk
        cases hk
        cases c <;> cases first <;> trivial
      · rw [Function.update_of_ne hme] at hk
        exact ha a k hk
  | drop me quiet shared alike moved =>
      rw [moved] at hk
      by_cases hme : a = me
      · subst a
        rw [Function.update_self] at hk
        cases hk
        trivial
      · rw [Function.update_of_ne hme, quiet] at hk; cases hk
  | silent phase lifecycle guard owner staffed moved =>
      rw [phase]
      rw [moved] at hk
      exact ha a k hk

/-- How far the agent that has the worker in its hands is with replacing the thread. -/
inductive Pose
  | resting
  | retaking (thread : Nat)
  | vacant
  | hatching (thread : Nat)

def Cursor.pose? : Cursor α → Option Pose
  | .entering _ | .enteringJoin | .stopping .stop | .marking .stop _ | .readingStatus
  | .readingLength => none
  | .reclaiming _ t | .awaiting t | .outliving t => some (.retaking t)
  | .spawning _ | .abandoning .. | .settling _ | .sweeping => some .vacant
  | .counting _ t | .announcing _ t | .adopting _ t => some (.hatching t)
  | _ => some .resting

theorem Cursor.pose?_of_isModest {c : Cursor α} (modest : c.isModest = true) : c.pose? = none := by
  cases c with
  | stopping p | marking p t => cases p <;> first | rfl | cases modest
  | _ => first | rfl | cases modest

def Progress.pose? (p : Progress α) : Option Pose := p.cursor?.bind Cursor.pose?

namespace State

def pose? (s : State α ρ) (a : Agent) : Option Pose := (s.cursor? a).bind Cursor.pose?

def IsBetween (s : State α ρ) : Prop := s.phase = .idle ∨ s.phase = .joining

/-- The threads and the queue as they are in a pose. At rest the phase tells all. -/
def Fits (s : State α ρ) : Pose → Prop
  | .resting =>
      match s.phase with
      | .idle => s.Staffed none true
      | .running t => s.Staffed (some t) false
      | .stopping t => s.Staffed (some t) true
      | .joining => False
  | .retaking t => s.IsBetween ∧ s.Staffed (some t) true
  | .vacant => s.IsBetween ∧ s.Staffed none true
  | .hatching t => s.IsBetween ∧ s.Staffed (some t) false

variable {s u : State α ρ} {q : Pose}

theorem Fits.congr (h : s.Fits q) (phase : u.phase = s.phase)
    (staffed : ∀ ward marked, s.Staffed ward marked → u.Staffed ward marked) : u.Fits q := by
  cases q with
  | resting =>
      simp only [Fits, phase] at h ⊢
      cases hp : s.phase <;> simp only [hp] at h ⊢ <;> exact staffed _ _ h
  | retaking t | vacant | hatching t =>
      exact ⟨by rw [IsBetween, phase]; exact h.1, staffed _ _ h.2⟩

theorem fits_idle (h : s.Fits .resting) (hp : s.phase = .idle) : s.Staffed none true := by
  simpa only [Fits, hp] using h

theorem fits_running {t : Nat} (h : s.Fits .resting) (hp : s.phase = .running t) :
    s.Staffed (some t) false := by
  simpa only [Fits, hp] using h

theorem fits_stopping {t : Nat} (h : s.Fits .resting) (hp : s.phase = .stopping t) :
    s.Staffed (some t) true := by
  simpa only [Fits, hp] using h

theorem fits_not_joining (h : s.Fits .resting) : s.phase ≠ .joining := by
  intro hp
  simp only [Fits, hp] at h

theorem resting_of_running {t : Nat} (h : s.Fits q) (hp : s.phase = .running t) :
    q = .resting := by
  cases q with
  | resting => rfl
  | retaking | vacant | hatching => rcases h.1 with hp' | hp' <;> rw [hp] at hp' <;> cases hp'

theorem staffed_dismiss {t : Nat} {e : Option Payload} (h : s.Staffed (some t) true)
    (ended : s.end? t = some e) : s.Staffed none true := by
  obtain ⟨th, ht, he⟩ := Option.bind_eq_some_iff.mp ended
  apply h.dismiss (grades_of_thread ht)
  rw [Stage.hasEnded_grade, he]
  rfl

theorem staffed_spawn (h : s.Staffed none true) (th : Thread α ρ)
    (new : th.stage.grade = .working) :
    State.Staffed { s with threads := s.threads ++ [th] } (some s.threads.length) false := by
  have hs := h.spawn
  simpa only [Staffed, grades, List.map_append, List.map_cons, List.map_nil, new,
    List.length_map] using hs

theorem fits_pushed {t : Nat} (h : s.Fits .resting) (hp : s.phase = .running t) (as : List α) :
    (s.push (as.map .item)).Fits .resting := by
  have hs := (fits_running h hp).supply as
  rw [← s.grades_push (as.map .item)] at hs
  rw [push_eq] at hs ⊢
  simpa only [Fits, hp, Staffed] using hs

theorem fits_marked {t : Nat} (h : s.Fits q) (hp : s.phase = .running t) :
    State.Fits { s.push [.stop] with phase := .stopping t, guard := none } .resting := by
  have hq := resting_of_running h hp
  subst q
  have hs := (fits_running h hp).mark
  rw [← s.grades_push [.stop]] at hs
  rw [push_eq] at hs ⊢
  exact hs

end State

theorem fits_advances {h : Host α} {s s' : State α ρ} {me : Agent} {c : Cursor α}
    {p : Progress α} {q : Pose} (step : Advances h s me c s' p)
    (apart : ∀ t, me = .thread t → c.awaited? ≠ some t) (knows : c.Knows s.phase)
    (hq : c.pose? = some q) (fits : s.Fits q) (here : s'.owner ≠ .gone) :
    s'.Fits (p.pose?.getD .resting) := by
  cases step with
  | reclaim load t free phase | taken t free phase =>
      cases hq
      have staff := State.fits_stopping fits phase
      exact ⟨.inr rfl, staff⟩
  | vacate load free phase =>
      cases hq
      rcases phase with idle | joining
      · have staff := State.fits_idle fits idle
        exact ⟨.inl rfl, staff⟩
      · exact absurd joining (State.fits_not_joining fits)
  | reclaimSelf load t self | awaitSelf t self => exact absurd rfl (apart t self)
  | outliveSelf | swept | sweptEarly => exact absurd rfl here
  | reclaimed load t other ended | reclaimedDead load t e other ended | awaited t other ended
  | awaitedDead t e other ended | outlived t other ended | outlivedDead t e other ended =>
      cases hq
      exact ⟨fits.1, State.staffed_dismiss fits.2 ended⟩
  | spawned load refusal =>
      cases hq
      exact ⟨fits.1, State.staffed_spawn fits.2 { priority := s.settings.priority } rfl⟩
  | adopted t free | adoptedLoaded t batch free | abandoned load f free | settled r free =>
      cases hq; exact fits.2
  | pushed batch =>
      cases hq
      obtain ⟨t, hp⟩ := knows
      exact State.fits_pushed fits hp batch
  | marked p t => cases p <;> cases hq <;> exact State.fits_marked fits knows
  | retired t phase =>
      cases hq
      have staff := State.fits_stopping fits phase
      exact ⟨.inl rfl, staff⟩
  | retiredNone phase =>
      cases hq
      cases hp : s.phase with
      | idle => exact ⟨.inl hp, State.fits_idle fits hp⟩
      | running t => exact absurd hp (knows t)
      | stopping t => exact absurd hp (phase t)
      | joining => exact absurd hp (State.fits_not_joining fits)
  | stopFound p t | stopMissed p => cases p <;> cases hq <;> exact fits
  | enter | enterJoin | status | length => cases hq
  | _ => cases hq; exact fits

theorem fits_of_bystander {h : Host α} {s s' : State α ρ} {me : Agent} {c : Cursor α}
    {p : Progress α} {q : Pose} (step : Advances h s me c s' p) (knows : c.Knows s.phase)
    (hc : c.pose? = none) (hp : p.pose? = none) (fits : s.Fits q) : s'.Fits q := by
  cases step with
  | enter | enterJoin => cases hp
  | stopFound p t | stopMissed p => cases p <;> cases hc; exact fits
  | marked p t =>
      have resting := State.resting_of_running fits knows
      subst q
      cases p with
      | stop => exact State.fits_marked fits knows
      | join | drop => cases hc
  | status | length => exact fits
  | _ => cases hc

theorem entry_of_pose {h : Host α} {s s' : State α ρ} {me : Agent} {c : Cursor α}
    {p : Progress α} {q : Pose} (step : Advances h s me c s' p) (hc : c.pose? = none)
    (hp : p.pose? = some q) : q = .resting ∧ s.lifecycle = none ∧ c.isDropping = false ∧
      (s.Fits .resting → s'.Fits .resting) := by
  cases step with
  | enter load free | enterJoin free => cases hp; exact ⟨rfl, free, rfl, fun fits => fits⟩
  | stopFound p t | stopMissed p | marked p t => cases p <;> cases hc; cases hp
  | status | length => cases hp
  | _ => cases hc

theorem Cursor.holds_of_pose {c : Cursor α} {q : Pose} (hc : c.pose? = some q) :
    c.holdsLifecycle = true ∨ c.isDropping = true := by
  cases c with
  | stopping p => cases p <;> simp_all [Cursor.pose?, Cursor.holdsLifecycle, Cursor.isDropping]
  | marking p t => cases p <;> simp_all [Cursor.pose?, Cursor.holdsLifecycle, Cursor.isDropping]
  | _ => simp_all [Cursor.pose?, Cursor.holdsLifecycle, Cursor.isDropping]

namespace Locked

variable {s : State α ρ} {a b : Agent} {q q' : Pose}

theorem sole (hl : Locked s) (ha : s.pose? a = some q) (hb : s.pose? b = some q') : a = b := by
  obtain ⟨c, hc, hq⟩ := Option.bind_eq_some_iff.mp ha
  obtain ⟨k, hk, hq'⟩ := Option.bind_eq_some_iff.mp hb
  by_contra hab
  rcases Cursor.holds_of_pose hq with hc' | hc'
  · rcases Cursor.holds_of_pose hq' with hk' | hk'
    · exact hab (hl.lifecycle.unique hc hc' hk hk')
    · rw [hl.alone b k hk hk' a hab] at hc; cases hc
  · rw [hl.alone a c hc hc' b (Ne.symm hab)] at hk; cases hk

theorem nobody (hl : Locked s) (free : s.lifecycle = none) (shared : s.owner ≠ .dropping)
    (a : Agent) : s.pose? a = none := by
  cases hq : s.pose? a with
  | none => rfl
  | some q =>
      obtain ⟨c, hc, hq⟩ := Option.bind_eq_some_iff.mp hq
      rcases Cursor.holds_of_pose hq with hc' | hc'
      · have := (hl.lifecycle a).mpr (by rw [hc]; exact hc')
        rw [free] at this; cases this
      · have := hl.owner a c hc
        rw [hc'] at this
        exact absurd this shared

end Locked

def charge (c : Option (Cursor α)) : Option (Cursor α) := c.filter (fun k => k.pose?.isSome)

@[simp] theorem bind_charge (c : Option (Cursor α)) :
    (charge c).bind Cursor.pose? = c.bind Cursor.pose? := by
  cases c with
  | none => rfl
  | some k => cases hk : k.pose? <;> simp [charge, Option.filter, hk]

/-- What holds of the worker, going by the call that has it in its hands, if there is one. -/
structure Carried (F : State α ρ → Option (Cursor α) → Prop) (s : State α ρ) : Prop where
  charged : ∀ a c q, s.cursor? a = some c → c.pose? = some q → F s (some c)
  free : (∀ a, s.pose? a = none) → F s none

def State.InCharge (s : State α ρ) : Option (Cursor α) → Prop
  | some c => ∃ a q, s.cursor? a = some c ∧ c.pose? = some q
  | none => ∀ a, s.pose? a = none

theorem State.exists_inCharge (s : State α ρ) : ∃ k, s.InCharge k := by
  by_cases nobody : ∀ a, s.pose? a = none
  · exact ⟨none, nobody⟩
  · obtain ⟨a, ha⟩ := not_forall.mp nobody
    obtain ⟨q, hq⟩ := Option.ne_none_iff_exists'.mp ha
    obtain ⟨c, hc, hq⟩ := Option.bind_eq_some_iff.mp hq
    exact ⟨some c, a, q, hc, hq⟩

namespace Carried

variable {h : Host α} {s u : State α ρ} {me : Agent} {c : Option (Cursor α)}
  {F : State α ρ → Option (Cursor α) → Prop}

theorem holds {k : Option (Cursor α)} (hs : Carried F s) (hk : s.InCharge k) : F s k := by
  cases k with
  | none => exact hs.free hk
  | some c =>
      obtain ⟨a, q, hc, hq⟩ := hk
      exact hs.charged a c q hc hq

theorem of_idle (hs : Carried F s) (hme : s.pose? me = none)
    (moved : u.cursor? = Function.update s.cursor? me c) (hc : c.bind Cursor.pose? = none)
    (keeps : ∀ k, F s k → F u k) : Carried F u := by
  constructor
  · intro a k q hk hq
    rw [moved] at hk
    by_cases ha : a = me
    · subst a
      rw [Function.update_self] at hk
      rw [hk, Option.bind_some, hq] at hc
      cases hc
    · rw [Function.update_of_ne ha] at hk
      exact keeps _ (hs.charged a k q hk hq)
  · intro none
    apply keeps
    apply hs.free
    intro a
    by_cases ha : a = me
    · rw [ha, hme]
    · have := none a
      rwa [State.pose?, moved, Function.update_of_ne ha] at this

theorem of_sole (others : ∀ a, a ≠ me → s.pose? a = none)
    (moved : u.cursor? = Function.update s.cursor? me c) (new : F u (charge c)) : Carried F u := by
  constructor
  · intro a k q hk hq
    rw [moved] at hk
    by_cases ha : a = me
    · subst a
      rw [Function.update_self] at hk
      simpa [charge, hk, hq, Option.filter] using new
    · rw [Function.update_of_ne ha] at hk
      have := others a ha
      rw [State.pose?, hk, Option.bind_some, hq] at this
      cases this
  · intro none
    have := none me
    rw [State.pose?, moved, Function.update_self] at this
    cases c with
    | none => exact new
    | some k => simpa [charge, Option.filter, show k.pose? = Option.none from this] using new

/-- The call that has the worker in its hands goes on, or another one does that finds it in nobody's
hands, or one that does not come to have it. A step that is no part of a call does not tell who has
the worker in its hands, so it may use what holds beside, going by the same call. -/
theorem turn_beside {P : State α ρ → Option (Cursor α) → Prop} (hl : Locked s) (hp : Carried P s)
    (hs : Carried F s) (ht : Turn h s u) (alike : ∀ v k, v.Alike u → F v k → F u k)
    (own : ∀ me c s' p q, s.cursor? me = some c → Advances h s me c s' p → c.pose? = some q →
      s'.owner = u.owner → F s (some c) → F s' (charge p.cursor?))
    (other : ∀ me c s' p, s.cursor? me = some c → Advances h s me c s' p → c.pose? = none →
      p.pose? = none → ∀ k, F s k → F s' k)
    (entry : ∀ me c s' p q, s.cursor? me = some c → Advances h s me c s' p → c.pose? = none →
      p.pose? = some q → F s none → F s' p.cursor?)
    (drop : F s none → F { s with owner := .dropping } (some (.stopping .drop)))
    (silent : u.phase = s.phase → u.owner = s.owner →
      (∀ ward marked, s.Staffed ward marked → u.Staffed ward marked) → Aside h s u →
      ∀ k, P s k → F s k → F u k) : Carried F u := by
  cases ht with
  | advance me c s' p cursor step same moved =>
      have hpose : s.pose? me = c.pose? := by rw [State.pose?, cursor]; rfl
      cases hc : c.pose? with
      | some q =>
          rw [hc] at hpose
          refine of_sole (fun a ha => ?_) moved (alike s' _ same ?_)
          · cases hq : s.pose? a with
            | none => rfl
            | some q' => exact absurd (hl.sole hq hpose) ha
          · exact own me c s' p q cursor step hc same.owner.symm (hs.charged me c q cursor hc)
      | none =>
          cases hp : p.pose? with
          | some q =>
              obtain ⟨rfl, free, shared, -⟩ := entry_of_pose step hc hp
              have nobody := hl.nobody free
                (by rw [hl.owner me c cursor, shared]; exact Owner.noConfusion)
              obtain ⟨k, hk, hq⟩ := Option.bind_eq_some_iff.mp hp
              refine of_sole (fun a _ => nobody a) moved (alike s' _ same ?_)
              have := entry me c s' p .resting cursor step hc hp (hs.free nobody)
              simpa [charge, hk, hq, Option.filter] using this
          | none =>
              exact of_idle hs (hpose.trans hc) moved hp
                fun k hk => alike s' k same (other me c s' p cursor step hc hp k hk)
  | begin me c k idle shared not first same moved =>
      refine of_idle hs ?_ moved ?_ (fun k => alike s k same)
      · rw [State.pose?, idle]; rfl
      · cases c <;> cases first <;> first | rfl | exact absurd rfl not
  | drop me quiet shared same moved =>
      have nobody (a : Agent) : s.pose? a = none := by rw [State.pose?, quiet]; rfl
      exact of_sole (fun a _ => nobody a) moved (alike _ _ same (drop (hs.free nobody)))
  | silent phase lifecycle guard owner staffed moved aside =>
      have keeps := silent phase owner staffed aside
      constructor
      · intro a k q hk hq
        have before : s.cursor? a = some k := moved ▸ hk
        exact keeps _ (hp.charged a k q before hq) (hs.charged a k q before hq)
      · intro none
        have before (a : Agent) : s.pose? a = Option.none := by
          rw [State.pose?, ← moved]
          exact none a
        exact keeps _ (hp.free before) (hs.free before)

theorem turn (hl : Locked s) (hs : Carried F s) (ht : Turn h s u)
    (alike : ∀ v k, v.Alike u → F v k → F u k)
    (own : ∀ me c s' p q, s.cursor? me = some c → Advances h s me c s' p → c.pose? = some q →
      s'.owner = u.owner → F s (some c) → F s' (charge p.cursor?))
    (other : ∀ me c s' p, s.cursor? me = some c → Advances h s me c s' p → c.pose? = none →
      p.pose? = none → ∀ k, F s k → F s' k)
    (entry : ∀ me c s' p q, s.cursor? me = some c → Advances h s me c s' p → c.pose? = none →
      p.pose? = some q → F s none → F s' p.cursor?)
    (drop : F s none → F { s with owner := .dropping } (some (.stopping .drop)))
    (silent : u.phase = s.phase → u.owner = s.owner →
      (∀ ward marked, s.Staffed ward marked → u.Staffed ward marked) → Aside h s u →
      ∀ k, F s k → F u k) : Carried F u :=
  hs.turn_beside hl hs ht alike own other entry drop
    (fun phase owner staffed aside k _ => silent phase owner staffed aside k)

end Carried

/-- The threads and the queue are as the agent needs them that has the worker in its hands, and at
rest when nobody has. -/
structure Posed (s : State α ρ) : Prop where
  charged : ∀ a q, s.pose? a = some q → s.Fits q
  free : (∀ a, s.pose? a = none) → s.Fits .resting

def State.FitsCall (s : State α ρ) (c : Option (Cursor α)) : Prop :=
  s.Fits ((c.bind Cursor.pose?).getD .resting)

theorem posed_iff_carried {s : State α ρ} : Posed s ↔ Carried State.FitsCall s := by
  constructor
  · intro hs
    refine ⟨fun a c q hc hq => ?_, hs.free⟩
    have := hs.charged a q (by rw [State.pose?, hc]; exact hq)
    simpa [State.FitsCall, hq] using this
  · intro hs
    refine ⟨fun a q ha => ?_, hs.free⟩
    obtain ⟨c, hc, hq⟩ := Option.bind_eq_some_iff.mp ha
    simpa [State.FitsCall, hq] using hs.charged a c q hc hq

theorem fitsCall_charge {s : State α ρ} {p : Progress α} :
    s.FitsCall (charge p.cursor?) ↔ s.Fits (p.pose?.getD .resting) := by
  rw [State.FitsCall, bind_charge, Progress.pose?]

theorem posed_create (settings : Settings) (callback : Option (Callback α ρ)) (clients : Nat) :
    Posed (State.create settings callback clients) := by
  refine ⟨?_, fun _ => Staffed.initial⟩
  intro a q hq
  rw [State.pose?, cursor?_create] at hq; cases hq

theorem posed_turn {h : Host α} {s u : State α ρ} (hd : Apart s) (hl : Locked s)
    (aware : Aware s) (hs : Posed s) (here : u.owner ≠ .gone) (ht : Turn h s u) : Posed u := by
  rw [posed_iff_carried] at hs ⊢
  apply hs.turn hl ht
  · intro v k same fits
    exact State.Fits.congr fits same.phase (fun _ _ => same.staffed.mpr)
  · intro me c s' p q cursor step hq owner fits
    have apart (t : Nat) (hme : me = .thread t) : c.awaited? ≠ some t := by
      subst me; exact hd t c cursor
    rw [State.FitsCall, Option.bind_some, hq] at fits
    exact fitsCall_charge.mpr
      (fits_advances step apart (aware me c cursor) hq fits (owner ▸ here))
  · intro me c s' p cursor step hc hp k fits
    exact fits_of_bystander step (aware me c cursor) hc hp fits
  · intro me c s' p q cursor step hc hp fits
    obtain ⟨rfl, -, -, keeps⟩ := entry_of_pose step hc hp
    have := keeps fits
    rwa [State.FitsCall, show p.cursor?.bind Cursor.pose? = some .resting from hp]
  · exact fun fits => fits
  · intro phase _ staffed _ k fits
    exact State.Fits.congr fits phase staffed

theorem here_of_turn {h : Host α} {s u : State α ρ} (hl : Locked s) (ht : Turn h s u)
    (here : u.owner ≠ .gone) : s.owner ≠ .gone := by
  cases ht with
  | advance me c s' p cursor step alike moved =>
      rw [hl.owner me c cursor]
      split <;> exact Owner.noConfusion
  | begin me c k idle shared | drop me quiet shared => rw [shared]; exact Owner.noConfusion
  | silent phase lifecycle guard owner => exact owner ▸ here

namespace Attainable

variable {h : Host α} {s : State α ρ}

theorem locked (ha : Attainable h s) : Locked s := by
  induction ha with
  | create settings callback clients => exact locked_create settings callback clients
  | next before step apart ih => exact locked_turn ih (step_turn (step_of_next step))

theorem aware (ha : Attainable h s) : Aware s := by
  induction ha with
  | create settings callback clients =>
      intro a c hc
      rw [cursor?_create] at hc; cases hc
  | next before step apart ih =>
      exact aware_turn before.locked ih (step_turn (step_of_next step))

theorem posed (ha : Attainable h s) (here : s.owner ≠ .gone) : Posed s := by
  induction ha with
  | create settings callback clients => exact posed_create settings callback clients
  | next before step apart ih =>
      have turn := step_turn (step_of_next step)
      exact posed_turn before.apart before.locked before.aware
        (ih (here_of_turn before.locked turn here)) here turn

end Attainable

namespace Reachable

variable {h : Host α} {s : State α ρ}

theorem locked (hr : Reachable h s) : Locked s := hr.attainable.locked

theorem aware (hr : Reachable h s) : Aware s := hr.attainable.aware

theorem posed (hr : Reachable h s) (here : s.owner ≠ .gone) : Posed s :=
  hr.attainable.posed here

end Reachable

end QueueWorker.Worker
