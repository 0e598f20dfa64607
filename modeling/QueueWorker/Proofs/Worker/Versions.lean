import QueueWorker.Proofs.Worker.Counters
import QueueWorker.Proofs.Worker.Waiting

namespace QueueWorker.Worker

variable {α ρ : Type}

/-- What matters to the succession of callbacks: a thread takes an item out of the queue, a thread
with an item gets hold of what stands for a callback, and a callback is put in the place of it. -/
inductive Incident (α ρ : Type)
  | fetched (thread : Nat) (a : α)
  | used (thread : Nat) (a : α) (version : Nat) (callback : Option (Callback α ρ))
  | placed (f : Callback α ρ)

namespace Incident

@[simp] def fetched? : Incident α ρ → Option α
  | .fetched _ a => some a
  | _ => none

@[simp] def version? : Incident α ρ → Option Nat
  | .used _ _ v _ => some v
  | _ => none

@[simp] def placed? : Incident α ρ → Option (Callback α ρ)
  | .placed f => some f
  | _ => none

@[simp] def mark? : Incident α ρ → Option (Nat × Option Nat × α)
  | .used t a v c => some (t, c.map fun _ => v, a)
  | _ => none

@[simp] def turn? (t : Nat) : Incident α ρ → Option (α ⊕ α)
  | .fetched u a => if u = t then some (.inl a) else none
  | .used u a _ _ => if u = t then some (.inr a) else none
  | .placed _ => none

@[simp] def usedBy? (t : Nat) : Incident α ρ → Option α
  | .used u a _ _ => if u = t then some a else none
  | _ => none

end Incident

@[simp] def Entry.mark? : Entry α ρ → Option (Nat × Option Nat × α)
  | .began t v a => some (t, some v, a)
  | .counted t a .skipped => some (t, none, a)
  | _ => none

namespace Stage

@[simp] def inHand : Stage α ρ → List α
  | .fetched a => [a]
  | _ => []

@[simp] def forgone : Stage α ρ → List α
  | .lacking a | .skipping a => [a]
  | _ => []

end Stage

namespace State

def incident? (s : State α ρ) : Act α ρ → Option (Incident α ρ)
  | .thread t =>
      match s.threads[t]?.map Thread.stage, s.queue with
      | some .polling, .item a :: _ => some (.fetched t a)
      | some (.fetched a), _ => some (.used t a s.slot.version s.slot.callback)
      | _, _ => none
  | .client i =>
      match s.clients[i]? with
      | some (.registering f) => some (.placed f)
      | _ => none
  | _ => none

/-- The incidents of a run, in their order. -/
def incidents (h : Host α) (s : State α ρ) (acts : List (Act α ρ)) : List (Incident α ρ) :=
  s.gather h incident? acts

theorem incident?_of_thread {s : State α ρ} {t : Nat} {th : Thread α ρ}
    (ht : s.threads[t]? = some th) (polling : th.stage ≠ .polling)
    (fetched : ∀ a, th.stage ≠ .fetched a) : s.incident? (.thread t) = none := by
  cases hst : th.stage <;> simp_all [incident?]

theorem incident?_of_calling {s : State α ρ} {i : Nat} {c : Cursor α}
    (hi : s.clients[i]? = some (.calling c)) : s.incident? (.client i) = none := by
  simp [incident?, hi]

theorem incident?_of_registering {s : State α ρ} {i : Nat} {f : Callback α ρ}
    (hi : s.clients[i]? = some (.registering f)) : s.incident? (.client i) = some (.placed f) := by
  simp [incident?, hi]

end State

/-- The callbacks put in place, in the order of their versions. -/
def placements (l : List (Incident α ρ)) : List (Callback α ρ) := l.filterMap Incident.placed?

def latest (first : Option (Callback α ρ)) (l : List (Incident α ρ)) : Option (Callback α ρ) :=
  (placements l).getLast?.or first

theorem placements_append (l m : List (Incident α ρ)) :
    placements (l ++ m) = placements l ++ placements m := List.filterMap_append

theorem placements_take (l : List (Incident α ρ)) {m n : Nat} (hmn : m ≤ n) :
    placements (l.take m) <+: placements (l.take n) :=
  (List.take_prefix_take_left hmn).filterMap Incident.placed?

theorem latest_placed (first : Option (Callback α ρ)) (l : List (Incident α ρ)) (f : Callback α ρ) :
    latest first (l ++ [.placed f]) = some f := by
  simp [latest, placements]

theorem latest_isSome_of_le {first : Option (Callback α ρ)} {l : List (Incident α ρ)} {m n : Nat}
    (hmn : m ≤ n) (before : (latest first (l.take m)).isSome) :
    (latest first (l.take n)).isSome := by
  have longer := (placements_take l hmn).length_le
  simp only [latest, Option.isSome_or, Bool.or_eq_true, List.getLast?_isSome, ← List.length_pos_iff]
    at before ⊢
  exact before.imp (fun some' => by omega) id

theorem length_placements_placed {l : List (Incident α ρ)} {m n : Nat} {f : Callback α ρ}
    (hm : l[m]? = some (.placed f)) (hmn : m < n) :
    (placements (l.take m)).length < (placements (l.take n)).length := by
  have next : placements (l.take (m + 1)) = placements (l.take m) ++ [f] := by
    rw [List.take_add_one, hm, placements_append]; rfl
  have := (placements_take l (Nat.succ_le_of_lt hmn)).length_le
  rw [next, List.length_append, List.length_singleton] at this
  omega

/-- Every item is handled with the callback that was put in place last, or with none if there has
never been one. -/
def Faithful (first : Option (Callback α ρ)) (l : List (Incident α ρ)) : Prop :=
  ∀ n t a v c, l[n]? = some (.used t a v c) →
    v = (placements (l.take n)).length ∧ c = latest first (l.take n)

/-- How the callbacks succeed one another: no item is handled with an earlier one than an item
before it, none with one that has been replaced, and none is skipped behind the first one. -/
structure Succession (first : Option (Callback α ρ)) (l : List (Incident α ρ)) : Prop where
  faithful : Faithful first l
  ordered : (l.filterMap Incident.version?).Pairwise (· ≤ ·)
  replaced : ∀ m n f t a v c, l[m]? = some (.placed f) → l[n]? = some (.used t a v c) → m < n →
    (placements (l.take m)).length < v ∧ c.isSome
  skippedFirst : ∀ (m n t u : Nat) (a b : α) (v w : Nat) (c d : Option (Callback α ρ)),
    l[m]? = some (.used t a v c) → l[n]? = some (.used u b w d) → m < n → c.isSome → d.isSome

namespace Faithful

variable {first : Option (Callback α ρ)} {l : List (Incident α ρ)}

theorem nil : Faithful first ([] : List (Incident α ρ)) := fun _ _ _ _ _ hn => by cases hn

theorem concat (hl : Faithful first l) {e : Incident α ρ}
    (last : ∀ t a v c, e = .used t a v c → v = (placements l).length ∧ c = latest first l) :
    Faithful first (l ++ [e]) := by
  intro n t a v c hn
  rcases Nat.lt_or_ge n l.length with before | behind
  · rw [List.getElem?_append_left before] at hn
    rw [List.take_append_of_le_length (Nat.le_of_lt before)]
    exact hl n t a v c hn
  · have here : n = l.length := by
      have := (List.getElem?_eq_some_iff.mp hn).1
      simp only [List.length_append, List.length_singleton] at this
      omega
    subst here
    rw [List.take_left' rfl]
    exact last t a v c (by simpa using hn)

theorem ordered (hl : Faithful first l) : (l.filterMap Incident.version?).Pairwise (· ≤ ·) := by
  rw [List.pairwise_filterMap, List.pairwise_iff_getElem]
  intro m n hm hn hmn v hv w hw
  have used {k : Nat} (hk : k < l.length) {x : Nat} (hx : l[k].version? = some x) :
      x = (placements (l.take k)).length := by
    cases he : l[k] with
    | used t a v c =>
        rw [he] at hx
        cases hx
        exact (hl k t a x c (by rw [List.getElem?_eq_getElem hk, he])).1
    | fetched | placed => rw [he] at hx; cases hx
  rw [used hm hv, used hn hw]
  exact (placements_take l (Nat.le_of_lt hmn)).length_le

theorem succession (hl : Faithful first l) : Succession first l where
  faithful := hl
  ordered := hl.ordered
  replaced m n f t a v c hm hn hmn := by
    obtain ⟨rfl, rfl⟩ := hl n t a v c hn
    refine ⟨length_placements_placed hm hmn, ?_⟩
    have here : (latest first (l.take (m + 1))).isSome := by
      rw [List.take_add_one, hm, Option.toList_some, latest_placed]; rfl
    exact latest_isSome_of_le (Nat.succ_le_of_lt hmn) here
  skippedFirst m n t u a b v w c d hm hn hmn some' := by
    obtain ⟨-, rfl⟩ := hl m t a v c hm
    obtain ⟨-, rfl⟩ := hl n u b w d hn
    exact latest_isSome_of_le (Nat.le_of_lt hmn) some'

end Faithful

theorem slot_advances {h : Host α} {s s' : State α ρ} {me : Agent} {c : Cursor α}
    {p : Progress α} (step : Advances h s me c s' p) : s'.slot = s.slot := by
  cases step with
  | pushed batch => rw [State.push_eq]; rfl
  | marked q t => rw [State.push_eq]
  | _ => rfl

theorem slot_works {h : Host α} {s u : State α ρ} {t : Nat} {th : Thread α ρ}
    (hw : Works h s t th u) :
    u.slot.version = s.slot.version ∧ u.slot.callback = s.slot.callback := by
  cases hw with
  | call a replies c rest s' p stage step =>
      rw [← slot_advances step]
      cases p <;> exact ⟨rfl, rfl⟩
  | _ => exact ⟨rfl, rfl⟩

/-- Nothing replaces the callback but a registration, and that while nobody holds the callback. -/
theorem slot_step {h : Host α} {s u : State α ρ} {act : Act α ρ} (step : Step h s act u) :
    (s.incident? act).bind Incident.placed? = none ∧ u.slot.version = s.slot.version ∧
        u.slot.callback = s.slot.callback ∨
      ∃ i f, act = .client i ∧ s.clients[i]? = some (.registering f) ∧ s.slot.holder = none ∧
        u = { s with slot := { callback := some f, version := s.slot.version + 1 } }.setClient i
          (.idle (some .done)) := by
  cases step with
  | client i c s' p client step =>
      refine .inl ⟨by rw [State.incident?_of_calling client]; rfl, ?_⟩
      rw [← slot_advances step]
      exact ⟨rfl, rfl⟩
  | place i f client free => exact .inr ⟨i, f, rfl, client, free, rfl⟩
  | thread t th u thread step =>
      refine .inl ⟨?_, slot_works step⟩
      simp only [State.incident?]
      split <;> rfl
  | _ => exact .inl ⟨rfl, rfl, rfl⟩

structure Placed (first : Option (Callback α ρ)) (s : State α ρ) (l : List (Incident α ρ)) :
    Prop where
  version : s.slot.version = (placements l).length
  callback : s.slot.callback = latest first l
  faithful : Faithful first l

theorem placed_step {h : Host α} {first : Option (Callback α ρ)} {s u : State α ρ}
    {act : Act α ρ} {l : List (Incident α ρ)} (step : Step h s act u) (hp : Placed first s l) :
    Placed first u (l ++ (s.incident? act).toList) := by
  rcases slot_step step with ⟨other, version, callback⟩ | ⟨i, f, rfl, client, free, rfl⟩
  · cases he : s.incident? act with
    | none =>
        simp only [Option.toList_none, List.append_nil]
        exact ⟨version.trans hp.version, callback.trans hp.callback, hp.faithful⟩
    | some e =>
        have same : placements (l ++ [e]) = placements l := by
          rw [he, Option.bind_some] at other
          rw [placements_append, placements, placements, List.filterMap_cons_none other]
          exact List.append_nil _
        refine ⟨?_, ?_, hp.faithful.concat ?_⟩
        · rw [Option.toList_some, same]; exact version.trans hp.version
        · rw [Option.toList_some, latest, same]; exact callback.trans hp.callback
        · rintro t a v c rfl
          cases act with
          | thread t =>
              simp only [State.incident?] at he
              split at he <;> cases he
              exact ⟨hp.version, hp.callback⟩
          | client i => simp only [State.incident?] at he; split at he <;> cases he
          | _ => cases he
  · rw [State.incident?_of_registering client, Option.toList_some]
    refine ⟨?_, (latest_placed first l f).symm, hp.faithful.concat fun _ _ _ _ he => by cases he⟩
    simp [placements, State.setClient, hp.version]

namespace State

variable {β : Type}

def view (s : State α ρ) (f : Stage α ρ → β) (t : Nat) : β :=
  (s.threads[t]?.map fun th => f th.stage).getD (f .starting)

theorem view_of_thread {s : State α ρ} {t : Nat} {th : Thread α ρ} (ht : s.threads[t]? = some th)
    (f : Stage α ρ → β) : s.view f t = f th.stage := by
  rw [view, ht]; rfl

theorem view_setStage {s v : State α ρ} {t : Nat} {th : Thread α ρ} (ht : s.threads[t]? = some th)
    (threads : v.threads = s.threads) (stage : Stage α ρ) (f : Stage α ρ → β) (u : Nat) :
    (v.setStage t stage).view f u = if u = t then f stage else s.view f u := by
  by_cases htu : u = t
  · subst htu
    simp [view, setStage, threads, ht]
  · simp [view, setStage, threads, htu, Ne.symm htu]

theorem view_advances {h : Host α} {s s' : State α ρ} {me : Agent} {c : Cursor α}
    {p : Progress α} (step : Advances h s me c s' p) {f : Stage α ρ → β}
    (sleeping : f .sleeping = f .starting) (polling : f .polling = f .starting) (t : Nat) :
    s'.view f t = s.view f t := by
  have roused (ms : List (Message α)) :
      (s.roused ms)[t]?.map (fun th => f th.stage) = s.threads[t]?.map (fun th => f th.stage) := by
    rw [← List.getElem?_map, ← List.getElem?_map,
      s.map_roused ms _ fun th hst => by rw [hst, sleeping, polling]]
  cases step with
  | pushed batch | marked q t =>
      rw [State.push_eq]
      exact congrArg (fun x => Option.getD x (f .starting)) (roused _)
  | spawned load =>
      simp only [view, List.getElem?_append]
      split
      next => rfl
      next beyond =>
        rw [List.getElem?_eq_none (Nat.le_of_not_lt beyond)]
        cases t - s.threads.length <;> rfl
  | _ => rfl

theorem view_works_ne {h : Host α} {s u : State α ρ} {t w : Nat} {th : Thread α ρ}
    (ht : s.threads[t]? = some th) (hw : Works h s t th u) {f : Stage α ρ → β}
    (sleeping : f .sleeping = f .starting) (polling : f .polling = f .starting) (hne : w ≠ t) :
    u.view f w = s.view f w := by
  cases hw with
  | start stage => simp [view, Ne.symm hne]
  | call a replies c rest s' p stage step =>
      have ht' := threads_advances step ht (by simp [stage]) (by simp [stage])
      rw [← view_advances step sleeping polling w]
      cases p <;> exact (view_setStage ht' rfl _ f w).trans (if_neg hne)
  | _ => exact (view_setStage ht rfl _ f w).trans (if_neg hne)

end State

def SlotTaken (s : State α ρ) : Prop :=
  ∀ t : Nat, s.view Stage.holdsSlot t = true → s.slot.holder = some t

namespace SlotTaken

variable {h : Host α} {s v : State α ρ}

theorem congr (hs : SlotTaken s) (view : v.view Stage.holdsSlot = s.view Stage.holdsSlot)
    (holder : v.slot.holder = s.slot.holder) : SlotTaken v := by
  intro t ht
  rw [holder]
  exact hs t (view ▸ ht)

theorem holder_of_thread {t : Nat} {th : Thread α ρ} (hs : SlotTaken s)
    (ht : s.threads[t]? = some th) (holds : th.stage.holdsSlot = true) :
    s.slot.holder = some t :=
  hs t ((State.view_of_thread ht _).trans holds)

theorem setStage {t : Nat} {th : Thread α ρ} {stage : Stage α ρ} (hs : SlotTaken s)
    (ht : s.threads[t]? = some th) (threads : v.threads = s.threads)
    (new : stage.holdsSlot = true → v.slot.holder = some t)
    (old : v.slot.holder = s.slot.holder ∨ ∀ w, s.slot.holder = some w → w = t) :
    SlotTaken (v.setStage t stage) := by
  intro w hw
  rw [State.view_setStage ht threads] at hw
  split at hw
  next same => exact same ▸ new hw
  next other =>
    rcases old with old | old
    · exact old.trans (hs w hw)
    · exact absurd (old w (hs w hw)) other

theorem advances {me : Agent} {c : Cursor α} {p : Progress α} (hs : SlotTaken s)
    (step : Advances h s me c v p) : SlotTaken v :=
  hs.congr (funext fun t => State.view_advances step rfl rfl t)
    (congrArg Slot.holder (slot_advances step))

theorem works {t : Nat} {th : Thread α ρ} (hs : SlotTaken s) (ht : s.threads[t]? = some th)
    (hw : Works h s t th v) : SlotTaken v := by
  have sole (holds : th.stage.holdsSlot = true) (w : Nat) (hw : s.slot.holder = some w) : w = t :=
    Option.some.inj (hw.symm.trans (hs.holder_of_thread ht holds))
  cases hw with
  | start stage =>
      intro w hw
      by_cases same : w = t
      · subst same
        rw [State.view, List.getElem?_set_self (List.getElem?_eq_some_iff.mp ht).1] at hw
        cases hw
      · rw [State.view_works_ne ht (.start (h := h) stage) rfl rfl same] at hw
        exact hs w hw
  | lack a stage free | begin a f stage free =>
      exact hs.setStage ht rfl (fun _ => rfl) (.inr fun w hw => by cases free.symm.trans hw)
  | skip a stage =>
      refine hs.setStage ht rfl (fun holds => ?_) (.inr (sole (by rw [stage]; rfl)))
      cases hd : h.disposal a <;> rw [hd] at holds <;> cases holds
  | letGo p stage =>
      refine hs.setStage ht rfl (fun holds => ?_) (.inr (sole (by rw [stage]; rfl)))
      cases hd : p.bind Payload.relic? <;> rw [hd] at holds <;> cases holds
  | call a replies c rest s' p stage step =>
      have hs' := hs.advances step
      have ht' := threads_advances step ht (by simp [stage]) (by simp [stage])
      have mine := hs'.holder_of_thread ht' (by rw [stage]; rfl)
      cases p <;> exact hs'.setStage ht' rfl (fun _ => mine) (.inl rfl)
  | sleep | fetch | halt | exit =>
      exact hs.setStage ht rfl (fun holds => by cases holds) (.inl rfl)
  | warn _ stage | finish _ _ stage | unwind _ _ _ stage | report _ _ _ _ stage
  | self _ _ _ stage | askGone _ _ _ _ stage | askDrop _ _ _ stage | ask _ _ _ _ _ stage
  | askNow _ _ _ _ _ stage | returned _ stage | caught _ _ stage | panicked _ _ stage =>
      exact hs.setStage ht rfl (fun _ => hs.holder_of_thread ht (by rw [stage]; rfl)) (.inl rfl)

theorem step {act : Act α ρ} (hs : SlotTaken s) (step : Step h s act v) : SlotTaken v := by
  cases step with
  | client i c s' p client step => exact (hs.advances step).congr rfl rfl
  | place i f client free => exact hs.congr rfl free.symm
  | thread t th u thread step => exact hs.works thread step
  | release t th a replies rest thread stage =>
      exact hs.setStage thread rfl (fun _ => hs.holder_of_thread thread (by rw [stage]; rfl))
        (.inl rfl)
  | stir t th thread stage => exact hs.setStage thread rfl (fun holds => by cases holds) (.inl rfl)
  | _ => exact hs.congr rfl rfl

end SlotTaken

namespace State

def served (s : State α ρ) : List (Nat × Option Nat × α) := s.trace.filterMap Entry.mark?

def forgone (s : State α ρ) : List (Nat × Option Nat × α) :=
  match s.slot.holder with
  | some t => (s.view Stage.forgone t).map fun a => (t, none, a)
  | none => []

theorem served_advances {h : Host α} {s s' : State α ρ} {me : Agent} {c : Cursor α}
    {p : Progress α} (step : Advances h s me c s' p) : s'.served = s.served := by
  cases step with
  | pushed batch | marked q t => rw [State.push_eq]; simp [State.served, State.note]
  | _ => simp [State.served, State.log, State.note, State.discard, State.joinSelf]

theorem forgone_congr {s v : State α ρ} (holder : v.slot.holder = s.slot.holder)
    (view : ∀ t, v.view Stage.forgone t = s.view Stage.forgone t) : v.forgone = s.forgone := by
  simp only [forgone, holder, view]

theorem forgone_setStage {s v : State α ρ} {t : Nat} {th : Thread α ρ} {stage : Stage α ρ}
    (ht : s.threads[t]? = some th) (threads : v.threads = s.threads)
    (holder : v.slot.holder = s.slot.holder) (same : stage.forgone = th.stage.forgone) :
    (v.setStage t stage).forgone = s.forgone := by
  refine forgone_congr holder fun u => ?_
  rw [view_setStage ht threads]
  split
  next here => rw [here, view_of_thread ht, same]
  next => rfl

theorem forgone_of_holder {s : State α ρ} {t : Nat} {th : Thread α ρ}
    (ht : s.threads[t]? = some th) (holder : s.slot.holder = some t) :
    s.forgone = th.stage.forgone.map fun a => (t, none, a) := by
  simp only [forgone, holder, view_of_thread ht]

theorem forgone_of_free {s : State α ρ} (free : s.slot.holder = none) : s.forgone = [] := by
  simp only [forgone, free]

end State

theorem marks_works {h : Host α} {s u : State α ρ} {t : Nat} {th : Thread α ρ} (hs : SlotTaken s)
    (ht : s.threads[t]? = some th) (hw : Works h s t th u) :
    u.served ++ u.forgone =
      s.served ++ s.forgone ++ (s.incident? (.thread t)).toList.filterMap Incident.mark? := by
  have silent (polling : th.stage ≠ .polling) (fetched : ∀ a, th.stage ≠ .fetched a) :
      (s.incident? (.thread t)).toList.filterMap Incident.mark? = [] := by
    rw [State.incident?_of_thread ht polling fetched]; rfl
  cases hw with
  | lack a stage free callback =>
      have now : (State.setStage { s with slot := { s.slot with holder := some t } } t
          (.lacking a)).threads[t]? = some { th with stage := .lacking a } := by
        simp [State.setStage, ht]
      rw [State.forgone_of_free free, State.forgone_of_holder now rfl]
      simp [State.incident?, ht, stage, callback, State.served, State.setStage]
  | begin a f stage free callback =>
      have now : (State.setStage ({ s with slot := { s.slot with holder := some t } }.note
          (.began t s.slot.version a)) t (.running a [] (f s.slot.visits a))).threads[t]? =
            some { th with stage := .running a [] (f s.slot.visits a) } := by
        simp [State.setStage, State.note, ht]
      rw [State.forgone_of_free free, State.forgone_of_holder now rfl]
      simp [State.incident?, ht, stage, callback, State.served, State.setStage, State.note]
  | skip a stage =>
      have holder := hs.holder_of_thread ht (by rw [stage]; rfl)
      have given : (((s.count t a .skipped).discard [a]).letGo t (h.disposal a)).forgone = [] :=
        State.forgone_of_free rfl
      rw [silent (by simp [stage]) (by simp [stage]), State.forgone_of_holder ht holder, given,
        stage]
      simp [State.served, State.letGo, State.setStage, State.discard, State.count, State.note]
  | letGo p stage =>
      have holder := hs.holder_of_thread ht (by rw [stage]; rfl)
      have given : (s.letGo t (p.bind Payload.relic?)).forgone = [] := State.forgone_of_free rfl
      rw [silent (by simp [stage]) (by simp [stage]), State.forgone_of_holder ht holder, given,
        stage]
      simp [State.served, State.letGo, State.setStage]
  | call a replies c rest s' p stage step =>
      have ht' := threads_advances step ht (by simp [stage]) (by simp [stage])
      have forgone : s'.forgone = s.forgone :=
        State.forgone_congr (congrArg Slot.holder (slot_advances step))
          (State.view_advances step rfl rfl)
      rw [silent (by simp [stage]) (by simp [stage]), ← State.served_advances step, ← forgone,
        List.append_nil]
      cases p <;> exact congrArg _ (State.forgone_setStage ht' rfl rfl (by rw [stage]; rfl))
  | start stage =>
      rw [silent (by simp [stage]) (by simp [stage]), List.append_nil]
      refine congrArg _ (State.forgone_congr rfl fun w => ?_)
      by_cases same : w = t
      · subst same
        rw [State.view_of_thread ht, State.view,
          List.getElem?_set_self (List.getElem?_eq_some_iff.mp ht).1, stage]
        rfl
      · exact State.view_works_ne ht (.start (h := h) stage) rfl rfl same
  | sleep stage queue | fetch _ _ stage queue | halt _ stage queue =>
      have unseen : (s.incident? (.thread t)).toList.filterMap Incident.mark? = [] := by
        simp [State.incident?, ht, stage, queue]
      rw [unseen, List.append_nil]
      exact congrArg _ (State.forgone_setStage ht rfl rfl (by rw [stage]; rfl))
  | warn _ stage | finish _ _ stage | unwind _ _ _ stage | report _ _ _ _ stage
  | self _ _ _ stage | askGone _ _ _ _ stage | askDrop _ _ _ stage | ask _ _ _ _ _ stage
  | askNow _ _ _ _ _ stage | returned _ stage | caught _ _ stage | panicked _ _ stage
  | exit stage =>
      rw [silent (by simp [stage]) (by simp [stage]), List.append_nil]
      refine congrArg₂ _ ?_ (State.forgone_setStage ht rfl rfl (by rw [stage]; rfl))
      simp [State.served, State.setStage, State.conclude, State.count, State.log, State.note,
        State.clock]

theorem marks_step {h : Host α} {s u : State α ρ} {act : Act α ρ} (hs : SlotTaken s)
    (step : Step h s act u) :
    u.served ++ u.forgone =
      s.served ++ s.forgone ++ (s.incident? act).toList.filterMap Incident.mark? := by
  cases step with
  | client i c s' p client step =>
      have forgone : s'.forgone = s.forgone :=
        State.forgone_congr (congrArg Slot.holder (slot_advances step))
          (State.view_advances step rfl rfl)
      rw [State.incident?_of_calling client, ← State.served_advances step, ← forgone]
      exact (List.append_nil _).symm
  | place i f client free =>
      rw [State.incident?_of_registering client, State.forgone_of_free free,
        State.forgone_of_free rfl]
      exact (List.append_nil _).symm
  | thread t th u thread step => exact marks_works hs thread step
  | release t th a replies rest thread stage | stir t th thread stage =>
      refine Eq.trans ?_ (List.append_nil _).symm
      exact congrArg _ (State.forgone_setStage thread rfl rfl (by rw [stage]; rfl))
  | _ => exact (List.append_nil _).symm

theorem State.pushed_discard (s : State α ρ) (as : List α) : (s.discard as).pushed = s.pushed := by
  simp [State.pushed, State.discard]

/-- The items taken out of the queue are the first that have been pushed, and the rest is still
there, until the worker is gone. Then some may be missing, but none has been taken twice. -/
structure Drawn (l : List α) (s : State α ρ) : Prop where
  once : (l ++ s.queued).Sublist s.pushed
  all : s.owner ≠ .gone → l ++ s.queued = s.pushed

namespace Drawn

variable {h : Host α} {s v : State α ρ} {l : List α}

theorem congr (hs : Drawn l s) (queued : v.queued = s.queued) (pushed : v.pushed = s.pushed)
    (owner : v.owner = s.owner ∨ v.owner = .gone ∨ s.owner ≠ .gone) : Drawn l v := by
  refine ⟨by rw [queued, pushed]; exact hs.once, fun here => ?_⟩
  rw [queued, pushed]
  rcases owner with same | gone | shared
  · exact hs.all (same ▸ here)
  · exact absurd gone here
  · exact hs.all shared

theorem grow (hs : Drawn l s) (more : List α) (queued : v.queued = s.queued ++ more)
    (pushed : v.pushed = s.pushed ++ more) (owner : v.owner = s.owner) : Drawn l v := by
  rw [← List.append_nil l]
  refine ⟨?_, fun here => ?_⟩
  · rw [queued, pushed, List.append_nil, ← List.append_assoc]
    exact hs.once.append (List.Sublist.refl more)
  · rw [queued, pushed, List.append_nil, ← List.append_assoc, hs.all (owner ▸ here)]

theorem advances {me : Agent} {c : Cursor α} {p : Progress α} (hs : Drawn l s)
    (step : Advances h s me c v p) : Drawn l v := by
  cases step with
  | pushed batch =>
      rw [State.push_eq]
      refine hs.grow batch ?_ (by simp [State.pushed, State.note]) rfl
      simp [State.queued, State.note, List.filterMap_map, Function.comp_def, Message.item?]
  | marked q t =>
      rw [State.push_eq]
      exact hs.congr (by simp [State.queued, List.filterMap_cons, Message.item?]) rfl (.inl rfl)
  | swept all =>
      refine ⟨?_, fun here => absurd rfl here⟩
      rw [State.pushed_discard]
      exact (List.append_nil l).symm ▸ (List.sublist_append_left l s.queued).trans hs.once
  | left load r => exact hs.congr rfl (State.pushed_discard _ _) (.inl rfl)
  | reclaimSelf load t self => exact hs.congr rfl (s.pushed_discard _) (.inl rfl)
  | outliveSelf | sweptEarly => exact hs.congr rfl rfl (.inr (.inl rfl))
  | _ =>
      exact hs.congr rfl (by simp [State.pushed, State.log, State.note, State.joinSelf]) (.inl rfl)

theorem works {t : Nat} {th : Thread α ρ} (hs : Drawn l s) (ht : s.threads[t]? = some th)
    (hw : Works h s t th v) :
    Drawn (l ++ (s.incident? (.thread t)).toList.filterMap Incident.fetched?) v := by
  have unseen (polling : th.stage ≠ .polling) (after : Drawn l v) :
      Drawn (l ++ (s.incident? (.thread t)).toList.filterMap Incident.fetched?) v := by
    have silent : (s.incident? (.thread t)).toList.filterMap Incident.fetched? = [] := by
      cases hst : th.stage <;> simp_all [State.incident?]
    rwa [silent, List.append_nil]
  cases hw with
  | fetch a ms stage queue =>
      have seen : s.incident? (.thread t) = some (.fetched t a) := by
        simp [State.incident?, ht, stage, queue]
      have front : s.queued = a :: ms.filterMap Message.item? := by
        simp [State.queued, queue, Message.item?]
      have same : l ++ [a] ++ ms.filterMap Message.item? = l ++ s.queued := by simp [front]
      rw [seen]
      exact ⟨same ▸ hs.once, fun here => same.trans (hs.all here)⟩
  | sleep stage queue | halt _ stage queue =>
      have seen : s.incident? (.thread t) = none := by simp [State.incident?, ht, stage, queue]
      rw [seen, Option.toList_none, List.filterMap_nil, List.append_nil]
      refine hs.congr ?_ rfl (.inl rfl)
      simp [State.queued, State.setStage, queue, List.filterMap_cons, Message.item?]
  | call a replies c rest s' p stage step =>
      have hs' := hs.advances step
      refine unseen (by simp [stage]) ?_
      cases p <;> exact hs'.congr rfl rfl (.inl rfl)
  | skip a stage =>
      refine unseen (by simp [stage]) (hs.congr rfl ?_ (.inl rfl))
      simp [State.pushed, State.letGo, State.setStage, State.discard, State.count, State.note]
  | askDrop a replies rest stage shared =>
      exact unseen (by simp [stage]) (hs.congr rfl rfl (.inr (.inr (by simp [shared]))))
  | start stage | lack _ stage | begin _ _ stage | warn _ stage | finish _ _ stage
  | unwind _ _ _ stage | report _ _ _ _ stage | self _ _ _ stage | askGone _ _ _ _ stage
  | ask _ _ _ _ _ stage | askNow _ _ _ _ _ stage | returned _ stage | caught _ _ stage
  | panicked _ _ stage | letGo _ stage | exit stage =>
      refine unseen (by simp [stage]) (hs.congr rfl ?_ (.inl rfl))
      simp [State.pushed, State.setStage, State.conclude, State.letGo, State.count, State.log,
        State.note, State.clock]

theorem step {act : Act α ρ} (hs : Drawn l s) (step : Step h s act v) :
    Drawn (l ++ (s.incident? act).toList.filterMap Incident.fetched?) v := by
  cases step with
  | client i c s' p client step =>
      rw [State.incident?_of_calling client, Option.toList_none, List.filterMap_nil,
        List.append_nil]
      exact (hs.advances step).congr rfl rfl (.inl rfl)
  | place i f client free =>
      rw [State.incident?_of_registering client, Option.toList_some, List.filterMap_cons_none rfl,
        List.filterMap_nil, List.append_nil]
      exact hs.congr rfl rfl (.inl rfl)
  | thread t th u thread step => exact hs.works thread step
  | drop i free quiet =>
      have shared := State.shared_of_isFree free
      rw [show s.incident? (.call i .drop) = none from rfl, Option.toList_none, List.filterMap_nil,
        List.append_nil]
      exact hs.congr rfl rfl (.inr (.inr (by simp [shared])))
  | _ =>
      refine (List.append_nil l).symm ▸ ?_
      exact hs.congr rfl rfl (.inl rfl)

end Drawn

/-- A thread uses the callback for each item that it takes out of the queue, before it takes the
next one. -/
def TakesTurns (s : State α ρ) (l : List (Incident α ρ)) : Prop :=
  ∀ t : Nat, l.filterMap (Incident.turn? t) =
    (l.filterMap (Incident.usedBy? t)).flatMap (fun a => [.inl a, .inr a]) ++
      (s.view Stage.inHand t).map .inl

namespace TakesTurns

variable {h : Host α} {s u : State α ρ} {l : List (Incident α ρ)}

theorem silent (hs : TakesTurns s l) {more : List (Incident α ρ)}
    (quiet : ∀ t : Nat,
      more.filterMap (Incident.turn? t) = [] ∧ more.filterMap (Incident.usedBy? t) = [])
    (view : ∀ t, u.view Stage.inHand t = s.view Stage.inHand t) : TakesTurns u (l ++ more) := by
  intro t
  rw [List.filterMap_append, List.filterMap_append, (quiet t).1, (quiet t).2, List.append_nil,
    List.append_nil, view]
  exact hs t

theorem concat (hs : TakesTurns s l) {t : Nat} {e : Incident α ρ}
    (others : ∀ w, w ≠ t → e.turn? w = none ∧ e.usedBy? w = none ∧
      u.view Stage.inHand w = s.view Stage.inHand w)
    (own : (∃ a, e = .fetched t a ∧ s.view Stage.inHand t = [] ∧ u.view Stage.inHand t = [a]) ∨
      ∃ a v c, e = .used t a v c ∧ s.view Stage.inHand t = [a] ∧ u.view Stage.inHand t = []) :
    TakesTurns u (l ++ [e]) := by
  intro w
  rw [List.filterMap_append, List.filterMap_append, hs w]
  by_cases same : w = t
  · subst same
    rcases own with ⟨a, rfl, before, after⟩ | ⟨a, v, c, rfl, before, after⟩
    · simp [before, after]
    · simp [before, after]
  · obtain ⟨turn, used, view⟩ := others w same
    rw [List.filterMap_cons_none turn, List.filterMap_cons_none used, view]
    simp

theorem works {t : Nat} {th : Thread α ρ} (hs : TakesTurns s l) (ht : s.threads[t]? = some th)
    (hw : Works h s t th u) : TakesTurns u (l ++ (s.incident? (.thread t)).toList) := by
  have others (w : Nat) (hne : w ≠ t) : u.view Stage.inHand w = s.view Stage.inHand w :=
    State.view_works_ne ht hw rfl rfl hne
  have before : s.view Stage.inHand t = th.stage.inHand := State.view_of_thread ht _
  have unseen (none' : s.incident? (.thread t) = none) (empty : th.stage.inHand = [])
      (after : u.view Stage.inHand t = []) :
      TakesTurns u (l ++ (s.incident? (.thread t)).toList) := by
    rw [none']
    refine hs.silent (fun _ => ⟨rfl, rfl⟩) fun w => ?_
    by_cases same : w = t
    · rw [same, after, before, empty]
    · exact others w same
  cases hw with
  | fetch a ms stage queue =>
      have seen : s.incident? (.thread t) = some (.fetched t a) := by
        simp [State.incident?, ht, stage, queue]
      rw [seen]
      refine hs.concat (t := t) (fun w hne => ⟨if_neg hne.symm, rfl, others w hne⟩)
        (.inl ⟨a, rfl, before.trans (by rw [stage]; rfl), ?_⟩)
      exact (State.view_setStage ht rfl _ _ t).trans (if_pos rfl)
  | lack a stage | begin a f stage =>
      have seen : s.incident? (.thread t) = some (.used t a s.slot.version s.slot.callback) := by
        simp [State.incident?, ht, stage]
      rw [seen]
      refine hs.concat (t := t) (fun w hne => ⟨if_neg hne.symm, if_neg hne.symm, others w hne⟩)
        (.inr ⟨a, _, _, rfl, before.trans (by rw [stage]; rfl), ?_⟩)
      exact (State.view_setStage ht rfl _ _ t).trans (if_pos rfl)
  | sleep stage queue | halt _ stage queue =>
      exact unseen (by simp [State.incident?, ht, stage, queue]) (by rw [stage]; rfl)
        ((State.view_setStage ht rfl _ _ t).trans (if_pos rfl))
  | start stage =>
      refine unseen (State.incident?_of_thread ht (by simp [stage]) (by simp [stage]))
        (by rw [stage]; rfl) ?_
      rw [State.view, List.getElem?_set_self (List.getElem?_eq_some_iff.mp ht).1]
      rfl
  | call a replies c rest s' p stage step =>
      have ht' := threads_advances step ht (by simp [stage]) (by simp [stage])
      refine unseen (State.incident?_of_thread ht (by simp [stage]) (by simp [stage]))
        (by rw [stage]; rfl) ?_
      cases p <;> exact (State.view_setStage ht' rfl _ _ t).trans (if_pos rfl)
  | skip a stage =>
      refine unseen (State.incident?_of_thread ht (by simp [stage]) (by simp [stage]))
        (by rw [stage]; rfl) ((State.view_setStage ht rfl _ _ t).trans ?_)
      cases h.disposal a <;> exact if_pos rfl
  | letGo p stage =>
      refine unseen (State.incident?_of_thread ht (by simp [stage]) (by simp [stage]))
        (by rw [stage]; rfl) ((State.view_setStage ht rfl _ _ t).trans ?_)
      cases p.bind Payload.relic? <;> exact if_pos rfl
  | warn _ stage | finish _ _ stage | unwind _ _ _ stage | report _ _ _ _ stage
  | self _ _ _ stage | askGone _ _ _ _ stage | askDrop _ _ _ stage | ask _ _ _ _ _ stage
  | askNow _ _ _ _ _ stage | returned _ stage | caught _ _ stage | panicked _ _ stage
  | exit stage =>
      exact unseen (State.incident?_of_thread ht (by simp [stage]) (by simp [stage]))
        (by rw [stage]; rfl) ((State.view_setStage ht rfl _ _ t).trans (if_pos rfl))

theorem step {act : Act α ρ} (hs : TakesTurns s l) (step : Step h s act u) :
    TakesTurns u (l ++ (s.incident? act).toList) := by
  cases step with
  | client i c s' p client step =>
      rw [State.incident?_of_calling client]
      exact hs.silent (fun _ => ⟨rfl, rfl⟩) (State.view_advances step rfl rfl)
  | place i f client free =>
      rw [State.incident?_of_registering client]
      exact hs.silent (fun _ => ⟨rfl, rfl⟩) fun _ => rfl
  | thread t th u thread step => exact hs.works thread step
  | release t th a replies rest thread stage | stir t th thread stage =>
      refine hs.silent (fun _ => ⟨rfl, rfl⟩) fun w => ?_
      rw [State.view_setStage thread rfl]
      split
      next same => rw [same, State.view_of_thread thread, stage]; rfl
      next => rfl
  | _ => exact hs.silent (fun _ => ⟨rfl, rfl⟩) fun _ => rfl

end TakesTurns

def Matched (l : List (Incident α ρ)) : Prop :=
  ∀ before t a v c after, l = before ++ .used t a v c :: after →
    ∃ early late, before = early ++ .fetched t a :: late ∧ ∀ e ∈ late, e.turn? t = none

theorem Matched.concat {l : List (Incident α ρ)} {e : Incident α ρ} (hl : Matched l)
    (last : ∀ t a v c, e = .used t a v c →
      ∃ early late, l = early ++ .fetched t a :: late ∧ ∀ e ∈ late, e.turn? t = none) :
    Matched (l ++ [e]) := by
  intro before t a v c after he
  rcases List.eq_nil_or_concat after with rfl | ⟨after, x, rfl⟩
  · obtain ⟨rfl, same⟩ := List.append_inj' he rfl
    exact last t a v c (List.cons.inj same).1
  · rw [List.concat_eq_append, ← List.cons_append, ← List.append_assoc] at he
    exact hl before t a v c after (List.append_inj' he rfl).1

theorem State.incident?_used {s : State α ρ} {act : Act α ρ} {t v : Nat} {a : α}
    {c : Option (Callback α ρ)} (used : s.incident? act = some (.used t a v c)) :
    act = .thread t ∧ v = s.slot.version ∧ c = s.slot.callback ∧
      ∃ th, s.threads[t]? = some th ∧ th.stage = .fetched a := by
  cases act with
  | thread u =>
      cases ht : s.threads[u]? with
      | none => simp [incident?, ht] at used
      | some th =>
          simp only [incident?, ht, Option.map_some] at used
          split at used
          next => cases used
          next b stage =>
            cases used
            exact ⟨rfl, rfl, rfl, th, ht, Option.some.inj stage⟩
          next => cases used
  | client i => simp only [incident?] at used; split at used <;> cases used
  | _ => cases used

theorem TakesTurns.fetched {s : State α ρ} {l : List (Incident α ρ)} {t : Nat} {a : α}
    (hs : TakesTurns s l) (inHand : s.view Stage.inHand t = [a]) :
    ∃ early late, l = early ++ .fetched t a :: late ∧ ∀ e ∈ late, e.turn? t = none := by
  have turns := hs t
  rw [inHand, List.map_singleton] at turns
  obtain ⟨first, rest, rfl, -, last⟩ := List.filterMap_eq_append_iff.mp turns
  obtain ⟨more, e, late, rfl, -, he, quiet⟩ := List.filterMap_eq_cons_iff.mp last
  refine ⟨first ++ more, late, ?_, List.filterMap_eq_nil_iff.mp quiet⟩
  cases e with
  | fetched u b =>
      simp only [Incident.turn?] at he
      split at he
      next same => cases he; rw [same, List.append_assoc]
      next => cases he
  | used u b v c =>
      simp only [Incident.turn?] at he
      split at he <;> cases he
  | placed f => cases he

/-- The incidents up to here account for what the history, the queue, and the threads show. -/
structure Shown (s : State α ρ) (l : List (Incident α ρ)) : Prop where
  taken : SlotTaken s
  marks : s.served ++ s.forgone = l.filterMap Incident.mark?
  drawn : Drawn (l.filterMap Incident.fetched?) s
  turns : TakesTurns s l
  matched : Matched l

theorem shown_step {h : Host α} {s u : State α ρ} {act : Act α ρ} {l : List (Incident α ρ)}
    (step : Step h s act u) (hs : Shown s l) : Shown u (l ++ (s.incident? act).toList) where
  taken := hs.taken.step step
  marks := by rw [marks_step hs.taken step, hs.marks, List.filterMap_append]
  drawn := by
    rw [List.filterMap_append]
    exact hs.drawn.step step
  turns := hs.turns.step step
  matched := by
    cases he : s.incident? act with
    | none => rw [Option.toList_none, List.append_nil]; exact hs.matched
    | some e =>
        refine hs.matched.concat ?_
        rintro t a v c rfl
        obtain ⟨-, -, -, th, ht, stage⟩ := State.incident?_used he
        exact hs.turns.fetched (by rw [State.view_of_thread ht, stage]; rfl)

/-- What one step does to the callback and with it. While a thread has it in hands, it stays. When
it is replaced, the call that does so is over. When it is used, it is called on the item. -/
structure Handles (act : Act α ρ) (v w : State α ρ) : Prop where
  kept : ∀ (t : Nat) (th : Thread α ρ), v.threads[t]? = some th → th.stage.holdsSlot = true →
    w.slot.version = v.slot.version ∧ w.slot.callback = v.slot.callback
  placed : ∀ f, v.incident? act = some (.placed f) →
    ∃ i, act = .client i ∧ v.clients[i]? = some (.registering f) ∧
      w.clients[i]? = some (.idle (some .done)) ∧ w.slot.version = v.slot.version + 1 ∧
      w.slot.callback = some f
  used : ∀ t a n c, v.incident? act = some (.used t a n c) →
    act = .thread t ∧ n = v.slot.version ∧ c = v.slot.callback ∧
      w.threads[t]?.map Thread.stage =
        some (c.elim (.lacking a) fun f => .running a [] (f v.slot.visits a))

theorem handles_step {h : Host α} {v w : State α ρ} {act : Act α ρ} (taken : SlotTaken v)
    (step : Step h v act w) : Handles act v w where
  kept t th ht holds := by
    rcases slot_step step with ⟨-, version, callback⟩ | ⟨i, f, rfl, client, free, rfl⟩
    · exact ⟨version, callback⟩
    · cases free.symm.trans (taken.holder_of_thread ht holds)
  placed f he := by
    rcases slot_step step with ⟨other, -, -⟩ | ⟨i, g, rfl, client, free, rfl⟩
    · rw [he] at other
      cases other
    · cases (State.incident?_of_registering client).symm.trans he
      exact ⟨i, rfl, client, State.clients_setClient client _, rfl, rfl⟩
  used t a n c he := by
    obtain ⟨rfl, rfl, rfl, th, ht, stage⟩ := State.incident?_used he
    refine ⟨rfl, rfl, rfl, ?_⟩
    cases step with
    | thread t th' w thread step =>
        cases ht.symm.trans thread
        cases step with
        | lack b here free callback =>
            cases stage.symm.trans here
            simp [State.setStage, ht, callback]
        | begin b f here free callback =>
            cases stage.symm.trans here
            simp [State.setStage, State.note, ht, callback]
        | _ => simp_all

section

variable {h : Host α} {settings : Settings} {callback : Option (Callback α ρ)} {clients : Nat}
  {acts : List (Act α ρ)} {s : State α ρ}

theorem shown_of_run (run : (State.create settings callback clients).run? h acts = some s) :
    Shown s ((State.create settings callback clients).incidents h acts) := by
  have new : Shown (State.create settings callback clients : State α ρ) [] :=
    ⟨fun t ht => (by cases ht), rfl, ⟨List.Sublist.refl [], fun _ => rfl⟩, fun t => rfl,
      fun before t a v c after he => (by simp at he)⟩
  exact State.gather_keeps (fun _ _ _ _ => shown_step) run new

theorem placed_of_run (run : (State.create settings callback clients).run? h acts = some s) :
    Placed callback s ((State.create settings callback clients).incidents h acts) := by
  have new : Placed callback (State.create settings callback clients : State α ρ) [] :=
    ⟨rfl, rfl, .nil⟩
  exact State.gather_keeps (fun _ _ _ _ => placed_step) run new

/-- Callbacks succeed one another in the order in which they are put in place. Whatever the
callbacks, the clients and the threads do, every item taken out of the queue is handled once, and
with the callback that stands there when the thread gets hold of it. -/
theorem callback_succession
    (run : (State.create settings callback clients).run? h acts = some s) :
    Succession callback ((State.create settings callback clients).incidents h acts) ∧
      Shown s ((State.create settings callback clients).incidents h acts) ∧
      ∀ before act after v w, acts = before ++ act :: after →
        (State.create settings callback clients).run? h before = some v →
        v.next? h act = some w →
        (State.create settings callback clients).incidents h acts =
            (State.create settings callback clients).incidents h before ++
              (v.incident? act).toList ++ w.incidents h after ∧
          v.slot.version =
            (placements ((State.create settings callback clients).incidents h before)).length ∧
          Handles act v w := by
  refine ⟨(placed_of_run run).faithful.succession, shown_of_run run, ?_⟩
  rintro before act after v w rfl first step
  refine ⟨?_, (placed_of_run first).version, handles_step (shown_of_run first).taken
    (step_of_next step)⟩
  rw [State.incidents, State.gather_append first, State.gather, step, List.append_assoc]
  rfl

end

def finishAll : Callback Nat Unit := fun _ _ => .finish

def replaceInHand : List (Act Nat Unit) :=
  .call 0 (.sendAll [5, 6, 7]) :: List.replicate 9 (.client 0) ++ List.replicate 3 (.thread 0) ++
    .register 1 finishAll :: List.replicate 3 (.thread 0) ++
    .client 1 :: List.replicate 4 (.thread 0) ++
    .register 1 finishAll :: .client 1 :: List.replicate 3 (.thread 0)

theorem callback_succession_replaceInHand :
    ∃ s, (State.create {} none 2).run? Host.calm replaceInHand = some s ∧
      s.served = [(0, none, 5), (0, some 1, 6), (0, some 2, 7)] ∧ s.slot.version = 2 ∧
      Succession none ((State.create {} none 2).incidents Host.calm replaceInHand) ∧
      Shown s ((State.create {} none 2).incidents Host.calm replaceInHand) := by
  have hp : ((State.create {} none 2).run? Host.calm replaceInHand).any (fun s =>
      s.served = [(0, none, 5), (0, some 1, 6), (0, some 2, 7)] && s.slot.version = 2) = true := by
    decide
  cases run : (State.create {} none 2).run? Host.calm replaceInHand with
  | none => rw [run] at hp; cases hp
  | some s =>
      rw [run] at hp
      simp only [Option.any_some, Bool.and_eq_true, decide_eq_true_eq] at hp
      obtain ⟨succession, shown, -⟩ := callback_succession run
      exact ⟨s, rfl, hp.1, hp.2, succession, shown⟩

end QueueWorker.Worker
