import QueueWorker.Proofs.Worker.Outline

namespace QueueWorker.Worker

variable {α ρ : Type}

def Call.isModest : Call α → Bool
  | .stop | .status | .length | .settings => true
  | _ => false

def Script.Modest : Script α ρ → Prop
  | .finish | .unwind _ => True
  | .hold rest | .report _ rest => rest.Modest
  | .self rest => ∀ me, (rest me).Modest
  | .ask c rest => c.isModest = true ∧ ∀ r, (rest r).Modest

/-- A callback that does no more to its own worker than to stop it and to look at it. -/
def Callback.Modest (f : Callback α ρ) : Prop := ∀ visits a, Script.Modest (f visits a)

def Act.Modest : Act α ρ → Prop
  | .register _ f => Callback.Modest f
  | _ => True

/-- The states of a worker that is used in any way by any clients, with modest callbacks. -/
inductive Reachable (h : Host α) : State α ρ → Prop
  | create (settings : Settings) (callback : Option (Callback α ρ)) (clients : Nat)
      (modest : ∀ f, callback = some f → Callback.Modest f) :
      Reachable h (State.create settings callback clients)
  | next {s u : State α ρ} {act : Act α ρ} (before : Reachable h s) (modest : act.Modest)
      (step : s.next? h act = some u) : Reachable h u

/-- The state behind some acts in a row, unless one of them is out of place. -/
def State.run? (h : Host α) (s : State α ρ) : List (Act α ρ) → Option (State α ρ)
  | [] => some s
  | act :: acts => (s.next? h act).bind (fun u => u.run? h acts)

theorem State.run?_keeps {h : Host α} {P : State α ρ → Prop} {s u : State α ρ}
    {acts : List (Act α ρ)}
    (keeps : ∀ v w act, act ∈ acts → v.next? h act = some w → P v → P w)
    (hs : s.run? h acts = some u) (hp : P s) : P u := by
  induction acts generalizing s with
  | nil => cases hs; exact hp
  | cons act acts ih =>
      obtain ⟨v, hv, hu⟩ := Option.bind_eq_some_iff.mp hs
      exact ih (fun v w b hb => keeps v w b (List.mem_cons_of_mem act hb)) hu
        (keeps s v act List.mem_cons_self hv hp)

/-- What shows in the steps of a run, each in the state in which it is taken. -/
def State.gather {β : Type} (h : Host α) (f : State α ρ → Act α ρ → Option β) (s : State α ρ) :
    List (Act α ρ) → List β
  | [] => []
  | act :: acts =>
      match s.next? h act with
      | none => []
      | some u => (f s act).toList ++ u.gather h f acts

theorem State.gather_append {β : Type} {h : Host α} {f : State α ρ → Act α ρ → Option β}
    {s v : State α ρ} {acts more : List (Act α ρ)} (run : s.run? h acts = some v) :
    s.gather h f (acts ++ more) = s.gather h f acts ++ v.gather h f more := by
  induction acts generalizing s with
  | nil => cases run; rfl
  | cons act acts ih =>
      obtain ⟨u, hu, rest⟩ := Option.bind_eq_some_iff.mp run
      simp only [List.cons_append, gather, hu, ih rest, List.append_assoc]

theorem State.gather_keeps {β : Type} {h : Host α} {f : State α ρ → Act α ρ → Option β}
    {P : State α ρ → List β → Prop} {s u : State α ρ} {acts : List (Act α ρ)} {l : List β}
    (keeps : ∀ v w act l, Step h v act w → P v l → P w (l ++ (f v act).toList))
    (run : s.run? h acts = some u) (hp : P s l) : P u (l ++ s.gather h f acts) := by
  induction acts generalizing s l with
  | nil => cases run; simpa [gather] using hp
  | cons act acts ih =>
      obtain ⟨v, hv, hu⟩ := Option.bind_eq_some_iff.mp run
      simp only [gather, hv, ← List.append_assoc]
      exact ih hu (keeps s v act l (step_of_next hv) hp)

theorem Reachable.run {h : Host α} {s u : State α ρ} {acts : List (Act α ρ)} (hr : Reachable h s)
    (modest : ∀ act ∈ acts, act.Modest) (hs : s.run? h acts = some u) : Reachable h u :=
  State.run?_keeps (fun _ _ act hm hw hv => hv.next (modest act hm) hw) hs hr

theorem Reachable.of_run {h : Host α} {settings : Settings} {callback : Option (Callback α ρ)}
    {clients : Nat} {acts : List (Act α ρ)} {p : State α ρ → Bool}
    (hp : ((State.create settings callback clients).run? h acts).any p = true)
    (modest : ∀ f, callback = some f → Callback.Modest f) (hm : ∀ act ∈ acts, act.Modest) :
    ∃ s, (State.create settings callback clients).run? h acts = some s ∧ Reachable h s ∧
      p s = true := by
  cases hs : (State.create settings callback clients).run? h acts with
  | none => rw [hs] at hp; cases hp
  | some s =>
      rw [hs] at hp
      exact ⟨s, rfl, (Reachable.create settings callback clients modest).run hm hs, hp⟩

def Client.hasReply (r : Reply) : Client α ρ → Bool
  | .idle last => last = some r
  | _ => false

theorem Client.eq_of_hasReply {c : Option (Client α ρ)} {r : Reply}
    (h : c.any (Client.hasReply r) = true) : c = some (.idle (some r)) := by
  rcases c with _ | ⟨last | cursor | f⟩
  · cases h
  · rw [decide_eq_true_eq.mp h]
  · cases h
  · cases h

def Client.isAt [DecidableEq α] (c : Cursor α) : Client α ρ → Bool
  | .calling k => k = c
  | _ => false

theorem Client.eq_of_isAt [DecidableEq α] {cl : Option (Client α ρ)} {c : Cursor α}
    (h : cl.any (Client.isAt c) = true) : cl = some (.calling c) := by
  rcases cl with _ | ⟨last | k | f⟩
  · cases h
  · cases h
  · rw [decide_eq_true_eq.mp h]
  · cases h

def Host.calm : Host α where
  refusal _ := none
  disposal _ := none
  elapsed _ := 0

def Cursor.isModest : Cursor α → Bool
  | .stopping .stop | .marking .stop _ | .readingStatus | .readingLength => true
  | _ => false

def Stage.Modest : Stage α ρ → Prop
  | .running _ _ script => script.Modest
  | .calling _ _ c rest => c.isModest = true ∧ ∀ r, (rest r).Modest
  | _ => True

def Client.Modest : Client α ρ → Prop
  | .registering f => Callback.Modest f
  | _ => True

/-- Every callback is modest, wherever it is kept, and so is all that is left of one that runs. -/
structure Civil (s : State α ρ) : Prop where
  slot : ∀ f, s.slot.callback = some f → Callback.Modest f
  clients : ∀ (i : Nat) (c : Client α ρ), s.clients[i]? = some c → c.Modest
  threads : ∀ (t : Nat) (th : Thread α ρ), s.threads[t]? = some th → th.stage.Modest

namespace Civil

variable {s : State α ρ}

theorem setStage {v : State α ρ} {t : Nat} {stage : Stage α ρ} (hs : Civil s)
    (slot : v.slot.callback = s.slot.callback) (clients : v.clients = s.clients)
    (threads : v.threads = s.threads) (hm : stage.Modest) : Civil (v.setStage t stage) := by
  constructor
  · intro f hf; exact hs.slot f (slot ▸ hf)
  · intro i c hi; exact hs.clients i c (clients ▸ hi)
  · exact State.forall_setStage hm (by rw [threads]; exact hs.threads)

theorem setClient {i : Nat} {c : Client α ρ} (hs : Civil s) (hm : c.Modest) :
    Civil (s.setClient i c) := by
  refine ⟨hs.slot, ?_, hs.threads⟩
  intro j c' hj
  simp only [State.setClient, List.getElem?_set] at hj
  split at hj
  next =>
    split at hj
    next => cases hj; exact hm
    next => cases hj
  next => exact hs.clients j c' hj

theorem cursor (hs : Civil s) {t : Nat} {c : Cursor α} (hc : s.cursor? (.thread t) = some c) :
    c.isModest = true := by
  simp only [State.cursor?] at hc
  obtain ⟨th, ht, hst⟩ := Option.bind_eq_some_iff.mp hc
  have hm := hs.threads t th ht
  cases hth : th.stage <;> simp_all [Stage.cursor?, Stage.Modest]

end Civil

theorem civil_create (settings : Settings) (callback : Option (Callback α ρ)) (clients : Nat)
    (modest : ∀ f, callback = some f → Callback.Modest f) :
    Civil (State.create settings callback clients) := by
  refine ⟨modest, ?_, by simp [State.create]⟩
  intro i c hi
  simp only [State.create, List.getElem?_replicate] at hi
  split at hi
  next => cases hi; trivial
  next => cases hi

theorem civil_advances {h : Host α} {s s' : State α ρ} {me : Agent} {c : Cursor α}
    {p : Progress α} (hs : Civil s) (step : Advances h s me c s' p) : Civil s' := by
  cases step with
  | spawned load =>
      have new : Stage.Modest (.starting : Stage α ρ) := trivial
      exact ⟨hs.slot, hs.clients, State.forall_append new hs.threads⟩
  | pushed batch | marked p t =>
      rw [State.push_eq]
      exact ⟨hs.slot, hs.clients, State.forall_roused trivial hs.threads _⟩
  | _ => exact ⟨hs.slot, hs.clients, hs.threads⟩

theorem modest_advances {h : Host α} {s s' : State α ρ} {me : Agent} {c : Cursor α}
    {p : Progress α} (hc : c.isModest = true) (step : Advances h s me c s' p) :
    (∃ k, p = .at k ∧ k.isModest = true) ∨ ∃ r, p = .answer r := by
  cases step with
  | stopFound p t => cases p <;> cases hc; exact .inl ⟨_, rfl, rfl⟩
  | stopMissed p => cases p <;> cases hc; exact .inr ⟨_, rfl⟩
  | marked p t => cases p <;> cases hc; exact .inr ⟨_, rfl⟩
  | status | length => exact .inr ⟨_, rfl⟩
  | _ => cases hc

theorem modest_begin {s : State α ρ} {c : Call α} {k : Cursor α} (hc : c.isModest = true)
    (first : c.begin s = .at k) : k.isModest = true := by
  cases c <;> cases hc <;> cases first <;> rfl

theorem civil_works {h : Host α} {s u : State α ρ} {t : Nat} {th : Thread α ρ} (hs : Civil s)
    (ht : s.threads[t]? = some th) (hw : Works h s t th u) : Civil u := by
  have old := hs.threads t th ht
  cases hw with
  | start stage =>
      have new : Stage.Modest (.polling : Stage α ρ) := trivial
      exact ⟨hs.slot, hs.clients, State.forall_set new hs.threads⟩
  | begin a f stage free callback =>
      exact hs.setStage rfl rfl rfl (hs.slot f callback _ a)
  | report a replies e rest stage =>
      rw [stage] at old
      exact hs.setStage rfl rfl rfl old
  | self a replies rest stage => rw [stage] at old; exact hs.setStage rfl rfl rfl (old _)
  | askGone a replies c rest stage gone =>
      rw [stage] at old
      exact hs.setStage rfl rfl rfl (old.2 _)
  | askDrop a replies rest stage shared quiet => rw [stage] at old; cases old.1
  | ask a replies c rest k stage shared other first =>
      rw [stage] at old
      exact hs.setStage rfl rfl rfl ⟨modest_begin old.1 first, old.2⟩
  | askNow a replies c rest r stage shared other first =>
      rw [stage] at old
      exact hs.setStage rfl rfl rfl (old.2 r)
  | call a replies c rest s' p stage step =>
      rw [stage] at old
      have hs' := civil_advances hs step
      rcases modest_advances old.1 step with ⟨k, rfl, hk⟩ | ⟨r, rfl⟩
      · exact hs'.setStage rfl rfl rfl ⟨hk, old.2⟩
      · exact hs'.setStage rfl rfl rfl (old.2 r)
  | skip a stage =>
      refine hs.setStage rfl rfl rfl ?_
      cases h.disposal a <;> trivial
  | letGo p stage =>
      refine hs.setStage rfl rfl rfl ?_
      cases p.bind Payload.relic? <;> trivial
  | _ => exact hs.setStage rfl rfl rfl trivial

theorem civil_step {h : Host α} {s u : State α ρ} {act : Act α ρ} (hs : Civil s)
    (modest : act.Modest) (step : Step h s act u) : Civil u := by
  cases step with
  | call i c k free other first => exact hs.setClient trivial
  | answer i c r free other first => exact hs.setClient trivial
  | drop i free quiet => exact Civil.setClient ⟨hs.slot, hs.clients, hs.threads⟩ trivial
  | register i f free => exact hs.setClient modest
  | prefer i p free quiet => exact ⟨hs.slot, hs.clients, hs.threads⟩
  | client i c s' p client step =>
      refine (civil_advances hs step).setClient ?_
      cases p <;> trivial
  | place i f client free =>
      have placed : Civil { s with
          slot := { callback := some f, version := s.slot.version + 1 } } := by
        refine ⟨?_, hs.clients, hs.threads⟩
        rintro g ⟨⟩
        exact hs.clients i _ client
      exact placed.setClient trivial
  | thread t th u thread step => exact civil_works hs thread step
  | release t th a replies rest thread stage =>
      have old := hs.threads t th thread
      rw [stage] at old
      exact hs.setStage rfl rfl rfl old
  | stir t th thread stage => exact hs.setStage rfl rfl rfl trivial

theorem Reachable.civil {h : Host α} {s : State α ρ} (hr : Reachable h s) : Civil s := by
  induction hr with
  | create settings callback clients modest => exact civil_create settings callback clients modest
  | next before modest step ih => exact civil_step ih modest (step_of_next step)

end QueueWorker.Worker
