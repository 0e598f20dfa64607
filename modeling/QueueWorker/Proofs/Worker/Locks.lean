import QueueWorker.Proofs.Worker.Outline

namespace QueueWorker.Worker

variable {α ρ : Type}

namespace Cursor

def holdsLifecycle : Cursor α → Bool
  | entering _ | enteringJoin | stopping .stop | stopping .drop | marking .stop _
  | marking .drop _ | retiring | outliving _ | sweeping | readingStatus | readingLength => false
  | _ => true

def holdsGuard : Cursor α → Bool
  | pushing _ | marking _ _ => true
  | _ => false

def isDropping : Cursor α → Bool
  | stopping .drop | marking .drop _ | retiring | outliving _ | sweeping => true
  | _ => false

end Cursor

/-- An agent has a lock just while its call stands where the lock is held. -/
def Held (lock : Option Agent) (cursor : Agent → Option (Cursor α)) (holds : Cursor α → Bool) :
    Prop :=
  ∀ a, lock = some a ↔ (cursor a).any holds = true

namespace Held

variable {lock : Option Agent} {cursor : Agent → Option (Cursor α)} {holds : Cursor α → Bool}
  {me : Agent} {c : Option (Cursor α)}

theorem keep (h : Held lock cursor holds) (hc : c.any holds = (cursor me).any holds) :
    Held lock (Function.update cursor me c) holds := by
  intro a
  by_cases ha : a = me
  · subst a; rw [Function.update_self, hc]; exact h me
  · rw [Function.update_of_ne ha]; exact h a

theorem take (h : Held none cursor holds) (hc : c.any holds = true) :
    Held (some me) (Function.update cursor me c) holds := by
  intro a
  by_cases ha : a = me
  · subst a; simp [hc]
  · have := h a
    rw [Function.update_of_ne ha, ← this]
    simp [Ne.symm ha]

theorem give (h : Held lock cursor holds) (mine : (cursor me).any holds = true)
    (hc : c.any holds = false) : Held none (Function.update cursor me c) holds := by
  intro a
  by_cases ha : a = me
  · subst a; simp [hc]
  · have hl := (h me).mpr mine
    rw [Function.update_of_ne ha, ← h a, hl]
    simp [Ne.symm ha]

end Held

/-- Each lock is held by the agent whose call stands where it is held, and by nobody else. Calls go
on only as long as the worker is there, and a call that drops it is the only one. -/
structure Locked (s : State α ρ) : Prop where
  lifecycle : Held s.lifecycle s.cursor? Cursor.holdsLifecycle
  guard : Held s.guard s.cursor? Cursor.holdsGuard
  owner : ∀ a c, s.cursor? a = some c → s.owner = if c.isDropping then .dropping else .shared
  alone : ∀ a c, s.cursor? a = some c → c.isDropping → ∀ b, b ≠ a → s.cursor? b = none

theorem cursor?_create (settings : Settings) (callback : Option (Callback α ρ)) (clients : Nat)
    (a : Agent) : (State.create settings callback clients).cursor? a = none := by
  cases a with
  | thread t => rfl
  | client i =>
      simp only [State.cursor?, State.create, List.getElem?_replicate]
      split <;> rfl

theorem locked_create (settings : Settings) (callback : Option (Callback α ρ)) (clients : Nat) :
    Locked (State.create settings callback clients) := by
  have hcur := cursor?_create settings callback clients
  constructor
  · intro a; rw [hcur]; simp [State.create]
  · intro a; rw [hcur]; simp [State.create]
  · intro a c hc; rw [hcur] at hc; cases hc
  · intro a c hc; rw [hcur] at hc; cases hc

theorem lifecycle_advances {h : Host α} {s s' : State α ρ} {me : Agent} {c : Cursor α}
    {p : Progress α} (hs : Advances h s me c s' p) (hc : s.cursor? me = some c)
    (hl : Held s.lifecycle s.cursor? Cursor.holdsLifecycle) :
    Held s'.lifecycle (Function.update s.cursor? me p.cursor?) Cursor.holdsLifecycle := by
  cases hs with
  | enter load free | enterJoin free => rw [free] at hl; exact hl.take rfl
  | left | reclaimSelf | awaitSelf => exact hl.give (by rw [hc]; rfl) rfl
  | stopMissed p | stopFound p => cases p <;> exact hl.keep (by rw [hc]; rfl)
  | marked p t => rw [State.push_eq]; cases p <;> exact hl.keep (by rw [hc]; rfl)
  | pushed batch => rw [State.push_eq]; exact hl.keep (by rw [hc]; rfl)
  | _ => exact hl.keep (by rw [hc]; rfl)

theorem guard_advances {h : Host α} {s s' : State α ρ} {me : Agent} {c : Cursor α}
    {p : Progress α} (hs : Advances h s me c s' p) (hc : s.cursor? me = some c)
    (hg : Held s.guard s.cursor? Cursor.holdsGuard) :
    Held s'.guard (Function.update s.cursor? me p.cursor?) Cursor.holdsGuard := by
  cases hs with
  | found batch t free | stopFound p t free => rw [free] at hg; exact hg.take rfl
  | marked p t => cases p <;> exact hg.give (by rw [hc]; rfl) rfl
  | pushed batch => exact hg.give (by rw [hc]; rfl) rfl
  | stopMissed p => cases p <;> exact hg.keep (by rw [hc]; rfl)
  | _ => exact hg.keep (by rw [hc]; rfl)

theorem owner_advances {h : Host α} {s s' : State α ρ} {me : Agent} {c : Cursor α}
    {p : Progress α} (hs : Advances h s me c s' p) :
    (s'.owner = s.owner ∧ ∀ k, p.cursor? = some k → k.isDropping = c.isDropping) ∨
      (s'.owner = .gone ∧ c.isDropping = true ∧ p.cursor? = none) := by
  cases hs with
  | swept | sweptEarly | outliveSelf => exact .inr ⟨rfl, rfl, rfl⟩
  | marked p t =>
      rw [State.push_eq]
      refine .inl ⟨rfl, ?_⟩
      cases p <;> (rintro k ⟨⟩ <;> rfl)
  | stopMissed p | stopFound p =>
      refine .inl ⟨rfl, ?_⟩
      cases p <;> (rintro k ⟨⟩ <;> rfl)
  | pushed batch =>
      rw [State.push_eq]
      refine .inl ⟨rfl, ?_⟩
      rintro k ⟨⟩; rfl
  | _ =>
      refine .inl ⟨rfl, ?_⟩
      rintro k ⟨⟩ <;> rfl

theorem begin_holdsNone {s : State α ρ} {c : Call α} {k : Cursor α} (other : c ≠ .drop)
    (first : c.begin s = .at k) :
    k.holdsLifecycle = false ∧ k.holdsGuard = false ∧ k.isDropping = false := by
  cases c <;> simp_all [Call.begin] <;> subst k <;> exact ⟨rfl, rfl, rfl⟩

theorem locked_advance {h : Host α} {s s' u : State α ρ} {me : Agent} {c : Cursor α}
    {p : Progress α} (hl : Locked s) (hc : s.cursor? me = some c) (hs : Advances h s me c s' p)
    (alike : s'.Alike u) (moved : u.cursor? = Function.update s.cursor? me p.cursor?) :
    Locked u := by
  have old {a : Agent} {k : Cursor α} (ha : a ≠ me) (hk : u.cursor? a = some k) :
      s.cursor? a = some k := by
    rwa [moved, Function.update_of_ne ha] at hk
  have new {k : Cursor α} (hk : u.cursor? me = some k) : p.cursor? = some k := by
    rwa [moved, Function.update_self] at hk
  constructor
  · rw [alike.lifecycle, moved]; exact lifecycle_advances hs hc hl.lifecycle
  · rw [alike.guard, moved]; exact guard_advances hs hc hl.guard
  · intro a k hk
    rw [alike.owner]
    rcases owner_advances hs with ⟨same, keeps⟩ | ⟨_, dropping, gone⟩
    · rw [same]
      by_cases ha : a = me
      · subst a; rw [keeps k (new hk)]; exact hl.owner me c hc
      · exact hl.owner a k (old ha hk)
    · by_cases ha : a = me
      · subst a; rw [new hk] at gone; cases gone
      · have hk := old ha hk
        rw [hl.alone me c hc dropping a ha] at hk; cases hk
  · intro a k hk dropping b hb
    by_cases ha : a = me
    · subst a
      rcases owner_advances hs with ⟨_, keeps⟩ | ⟨_, _, gone⟩
      · rw [moved, Function.update_of_ne hb]
        exact hl.alone me c hc (keeps k (new hk) ▸ dropping) b hb
      · rw [new hk] at gone; cases gone
    · rw [hl.alone a k (old ha hk) dropping me (Ne.symm ha)] at hc
      cases hc

theorem locked_turn {h : Host α} {s u : State α ρ} (hl : Locked s) (ht : Turn h s u) :
    Locked u := by
  cases ht with
  | advance me c s' p cursor step alike moved => exact locked_advance hl cursor step alike moved
  | begin me c k idle shared other first alike moved =>
      obtain ⟨noLifecycle, noGuard, noDrop⟩ := begin_holdsNone other first
      constructor
      · rw [alike.lifecycle, moved]; exact hl.lifecycle.keep (by rw [idle]; exact noLifecycle)
      · rw [alike.guard, moved]; exact hl.guard.keep (by rw [idle]; exact noGuard)
      · intro a k' hk
        rw [alike.owner]
        by_cases ha : a = me
        · subst a
          rw [moved, Function.update_self] at hk
          cases hk
          rw [noDrop, shared]; rfl
        · rw [moved, Function.update_of_ne ha] at hk
          exact hl.owner a k' hk
      · intro a k' hk dropping
        by_cases ha : a = me
        · subst a
          rw [moved, Function.update_self] at hk
          cases hk
          rw [noDrop] at dropping; cases dropping
        · rw [moved, Function.update_of_ne ha] at hk
          have := hl.owner a k' hk
          rw [dropping, shared] at this; cases this
  | drop me quiet shared alike moved =>
      constructor
      · rw [alike.lifecycle, moved]; exact hl.lifecycle.keep (by rw [quiet]; rfl)
      · rw [alike.guard, moved]; exact hl.guard.keep (by rw [quiet]; rfl)
      · intro a k hk
        by_cases ha : a = me
        · subst a
          rw [moved, Function.update_self] at hk
          cases hk
          exact alike.owner
        · rw [moved, Function.update_of_ne ha, quiet] at hk; cases hk
      · intro a k hk _ b hb
        by_cases ha : a = me
        · subst a; rw [moved, Function.update_of_ne hb]; exact quiet b
        · rw [moved, Function.update_of_ne ha, quiet] at hk; cases hk
  | silent phase lifecycle guard owner staffed moved =>
      exact ⟨by rw [lifecycle, moved]; exact hl.lifecycle, by rw [guard, moved]; exact hl.guard,
        by rw [owner, moved]; exact hl.owner, by rw [moved]; exact hl.alone⟩

end QueueWorker.Worker
