import QueueWorker.Proofs.Worker.Recovery

namespace QueueWorker.Worker

variable {α ρ : Type}

theorem trace_advances {h : Host α} {s s' : State α ρ} {me : Agent} {c : Cursor α}
    {p : Progress α} (step : Advances h s me c s' p) : s.trace <+: s'.trace := by
  cases step with
  | pushed batch | marked q t => simp [State.push_eq, State.note]
  | _ => simp [State.log, State.note, State.discard, State.joinSelf]

theorem trace_step {h : Host α} {s u : State α ρ} {act : Act α ρ} (step : Step h s act u) :
    s.trace <+: u.trace := by
  cases step with
  | client i c s' p client step =>
      have := trace_advances step
      exact this
  | thread t th u thread step =>
      cases step with
      | call a replies c rest s' p stage step =>
          have := trace_advances step
          cases p <;> exact this
      | _ =>
          simp [State.setStage, State.conclude, State.letGo, State.count, State.log, State.note,
            State.discard, State.clock]
  | _ => exact List.prefix_rfl

theorem end?_run {h : Host α} {s u : State α ρ} {acts : List (Act α ρ)} {t : Nat}
    {e : Option Payload} (hs : s.run? h acts = some u) (he : s.end? t = some e) :
    u.end? t = some e :=
  State.run?_keeps (P := fun v => v.end? t = some e)
    (fun _ _ _ _ hw he => end?_step (step_of_next hw) he) hs he

namespace State

variable {h : Host α} {s u : State α ρ} {acts : List (Act α ρ)}

theorem pushed_prefix (ht : s.trace <+: u.trace) : s.pushed <+: u.pushed := by
  obtain ⟨new, ht⟩ := ht
  exact ⟨new.flatMap Entry.pushed, by rw [pushed, pushed, ← ht, List.flatMap_append]⟩

theorem finished_prefix (ht : s.trace <+: u.trace) : s.finished <+: u.finished := by
  obtain ⟨new, ht⟩ := ht
  exact ⟨new.flatMap Entry.finished, by rw [finished, finished, ← ht, List.flatMap_append]⟩

theorem IsUnhurt.of_run (unhurt : u.IsUnhurt) (hs : s.run? h acts = some u) : s.IsUnhurt :=
  fun t p ht => unhurt t p (end?_run hs ht)

theorem IsUnhurt.of_step {act : Act α ρ} (unhurt : u.IsUnhurt) (step : Step h s act u) :
    s.IsUnhurt :=
  fun t p ht => unhurt t p (end?_step step ht)

end State

namespace Attainable

variable {h : Host α} {s : State α ρ} {a : Agent} {c : Cursor α}

theorem here (ha : Attainable h s) (hc : s.cursor? a = some c) : s.owner ≠ .gone := by
  rw [ha.locked.owner a c hc]
  split <;> exact Owner.noConfusion

theorem fits (ha : Attainable h s) {q : Pose} (hc : s.cursor? a = some c) (hq : c.pose? = some q) :
    s.Fits q :=
  (ha.posed (ha.here hc)).charged a q (by rw [State.pose?, hc]; exact hq)

theorem pose_of_thread (ha : Attainable h s) {t : Nat} (hc : s.cursor? (.thread t) = some c) :
    c.pose? ≠ some .vacant := by
  intro vacant
  obtain ⟨th, thread, calling⟩ := Option.bind_eq_some_iff.mp hc
  have alive : th.stage.grade.hasEnded = false := by
    cases hst : th.stage <;> simp_all [Stage.cursor?, Stage.grade, Grade.hasEnded]
  cases (ha.fits hc vacant).2.alive t _ (State.grades_of_thread thread) alive

end Attainable

namespace Reachable

variable {h : Host α} {s : State α ρ} {a : Agent} {c : Cursor α}

theorem here (hr : Reachable h s) (hc : s.cursor? a = some c) : s.owner ≠ .gone :=
  hr.attainable.here hc

theorem fits (hr : Reachable h s) {q : Pose} (hc : s.cursor? a = some c) (hq : c.pose? = some q) :
    s.Fits q :=
  hr.attainable.fits hc hq

end Reachable

theorem clients_step_ne {h : Host α} {s u : State α ρ} {act : Act α ρ} {i : Nat}
    (step : Step h s act u) (request : act.isRequestOf i = false)
    (other : ∀ j, act = .client j → j ≠ i) : u.clients[i]? = s.clients[i]? := by
  have ne {j : Nat} (hj : decide (j = i) = false) : j ≠ i := of_decide_eq_false hj
  cases step with
  | call j c k | answer j c r | drop j | register j f => exact List.getElem?_set_ne (ne request)
  | client j c s' p client step =>
      rw [State.setClient, clients_advances step]
      exact List.getElem?_set_ne (other j rfl)
  | place j f => exact List.getElem?_set_ne (other j rfl)
  | thread t th u thread step => rw [clients_works step]
  | _ => rfl

theorem request_of_busy {h : Host α} {s u : State α ρ} {act : Act α ρ} {i : Nat} {cl : Client α ρ}
    (step : Step h s act u) (hi : s.clients[i]? = some cl) (busy : cl.isIdle = false) :
    act.isRequestOf i = false := by
  have ne {j : Nat} (free : s.isFree j) : decide (j = i) = false := by
    apply decide_eq_false
    rintro rfl
    obtain ⟨r, idle⟩ := State.idle_of_isFree free
    cases hi.symm.trans idle
    cases busy
  cases step with
  | call j c k free | answer j c r free | drop j free | register j f free => exact ne free
  | _ => rfl

theorem clients_setClient_self {h : Host α} {s s' : State α ρ} {i : Nat} {me : Agent}
    {old : Client α ρ} {c : Cursor α} {p : Progress α} (hi : s.clients[i]? = some old)
    (step : Advances h s me c s' p) (cl : Client α ρ) :
    (s'.setClient i cl).clients[i]? = some cl := by
  rw [← clients_advances step] at hi
  exact State.clients_setClient hi cl

theorem client_step {h : Host α} {s u : State α ρ} {act : Act α ρ} {i : Nat} {cl : Client α ρ}
    {P : Client α ρ → Prop} (step : Step h s act u) (request : act.isRequestOf i = false)
    (hi : s.clients[i]? = some cl) (others : u.clients[i]? = some cl → P cl)
    (notRegistering : ∀ f, cl ≠ .registering f)
    (own : ∀ c s' p, cl = .calling c → Advances h s (.client i) c s' p →
      u = s'.setClient i p.client → P p.client) : ∃ cl', u.clients[i]? = some cl' ∧ P cl' := by
  by_cases mine : act = .client i
  · subst mine
    cases step with
    | client i c s' p client step =>
        exact ⟨p.client, clients_setClient_self hi step _,
          own c s' p (Option.some.inj (hi.symm.trans client)) step rfl⟩
    | place i f client => exact absurd (Option.some.inj (hi.symm.trans client)) (notRegistering f)
  · have same := clients_step_ne step request (fun j hj he => mine (he ▸ hj))
    exact ⟨cl, same.trans hi, others (same.trans hi)⟩

theorem Walk.client {h : Host α} {P : State α ρ → Client α ρ → Prop} {i : Nat} {s u : State α ρ}
    {acts : List (Act α ρ)} {cl : Client α ρ}
    (keeps : ∀ v w act rest cl, Attainable h v → Step h v act w → act.isRequestOf i = false →
      Walk h w rest u → v.clients[i]? = some cl → P v cl →
      ∃ cl', w.clients[i]? = some cl' ∧ P w cl')
    (hw : Walk h s acts u) (ha : Attainable h s)
    (requests : ∀ act ∈ acts, act.isRequestOf i = false) (hi : s.clients[i]? = some cl)
    (hp : P s cl) : ∃ cl', u.clients[i]? = some cl' ∧ P u cl' := by
  induction hw generalizing cl with
  | refl s => exact ⟨cl, hi, hp⟩
  | @cons s v u act acts step apart rest ih =>
      obtain ⟨cl', hi', hp'⟩ := keeps s v act acts cl ha (step_of_next step)
        (requests act List.mem_cons_self) rest hi hp
      exact ih keeps (ha.next step apart) (fun b hb => requests b (List.mem_cons_of_mem act hb))
        hi' hp'

theorem own_step {h : Host α} {s v : State α ρ} {i : Nat} {c : Cursor α}
    (hi : s.clients[i]? = some (.calling c)) (step : s.next? h (.client i) = some v) :
    ∃ s' p, Advances h s (.client i) c s' p ∧ v = s'.setClient i p.client ∧
      v.clients[i]? = some p.client := by
  cases step_of_next step with
  | place i f client => cases hi.symm.trans client
  | client i k s' p client step =>
      cases hi.symm.trans client
      exact ⟨s', p, step, rfl, clients_setClient_self hi step _⟩

theorem length_advances {h : Host α} {s s' : State α ρ} {me : Agent} {c : Cursor α}
    {p : Progress α} (step : Advances h s me c s' p) :
    s'.threads.length = s.threads.length ∨
      ∃ load, c = .spawning load ∧ s'.threads.length = s.threads.length + 1 := by
  cases step with
  | pushed batch | marked p t => exact .inl (by simp [State.push_eq, State.note, s.length_roused])
  | spawned load => exact .inr ⟨load, rfl, by simp⟩
  | _ => exact .inl rfl

theorem length_works {h : Host α} {s u : State α ρ} {t : Nat} {th : Thread α ρ}
    (hw : Works h s t th u) (silent : th.stage.cursor? = none) :
    u.threads.length = s.threads.length := by
  cases hw with
  | call a replies c rest s' p stage => rw [stage] at silent; cases silent
  | start stage => exact List.length_set ..
  | _ => exact List.length_modify ..

theorem spawning_step {h : Host α} {s u : State α ρ} {act : Act α ρ} (ha : Attainable h s)
    (step : Step h s act u) : u.threads.length = s.threads.length ∨
      ∃ i load, act = .client i ∧ s.cursor? (.client i) = some (.spawning load) := by
  cases step with
  | client i c s' p client step =>
      rcases length_advances step with same | ⟨load, rfl, -⟩
      · exact .inl same
      · exact .inr ⟨i, load, rfl, State.cursor?_of_client client⟩
  | thread t th u thread step =>
      left
      cases step with
      | call a replies c rest s' p stage step =>
          rcases length_advances step with same | ⟨load, rfl, -⟩
          · cases p <;> simpa [State.resume, State.conclude, State.setStage] using same
          · have spawning : s.cursor? (.thread t) = some (.spawning load) := by
              rw [State.cursor?_of_thread thread, stage]; rfl
            exact absurd rfl (ha.pose_of_thread spawning)
      | start stage => simp
      | _ =>
          simp [State.setStage, State.conclude, State.letGo, State.count, State.log, State.note,
            State.discard, State.clock]
  | release | stir => exact .inl (by simp [State.setStage])
  | _ => exact .inl rfl

theorem length_of_other {h : Host α} {s u : State α ρ} {act : Act α ρ} {i : Nat} {q : Pose}
    (ha : Attainable h s) (step : Step h s act u) (mine : s.pose? (.client i) = some q)
    (other : act ≠ .client i) : u.threads.length = s.threads.length := by
  obtain same | ⟨j, load, rfl, spawning⟩ := spawning_step ha step
  · exact same
  · have theirs : s.pose? (.client j) = some .vacant := by rw [State.pose?, spawning]; rfl
    have := ha.locked.sole theirs mine
    exact absurd (congrArg Act.client (Agent.client.inj this)) other

theorem attempts_advances {h : Host α} {s s' : State α ρ} {me : Agent} {c : Cursor α}
    {p : Progress α} (step : Advances h s me c s' p) :
    s'.attempts = s.attempts ∨ ∃ load, c = .spawning load ∧ s'.attempts = s.attempts + 1 := by
  cases step with
  | refused load | spawned load => exact .inr ⟨load, rfl, rfl⟩
  | pushed batch | marked p t => exact .inl (by simp [State.push_eq, State.note])
  | _ => exact .inl rfl

theorem attempts_step {h : Host α} {s u : State α ρ} {act : Act α ρ} (step : Step h s act u) :
    u.attempts = s.attempts ∨ ∃ a load, act.agent? = some a ∧
      s.cursor? a = some (.spawning load) ∧ u.attempts = s.attempts + 1 := by
  cases step with
  | client i c s' p client step =>
      obtain same | ⟨load, rfl, more⟩ := attempts_advances step
      · exact .inl same
      · exact .inr ⟨_, load, rfl, State.cursor?_of_client client, more⟩
  | thread t th u thread step =>
      cases step with
      | call a replies c rest s' p stage step =>
          obtain same | ⟨load, rfl, more⟩ := attempts_advances step
          · exact .inl (by cases p <;> exact same)
          · refine .inr ⟨_, load, rfl, ?_, by cases p <;> exact more⟩
            rw [State.cursor?_of_thread thread, stage]
            rfl
      | _ => exact .inl rfl
  | _ => exact .inl rfl

theorem attempts_le_step {h : Host α} {s u : State α ρ} {act : Act α ρ} (step : Step h s act u) :
    s.attempts ≤ u.attempts := by
  obtain same | ⟨a, load, -, -, more⟩ := attempts_step step <;> omega

theorem attempts_of_other {h : Host α} {s u : State α ρ} {act : Act α ρ} {i : Nat} {q : Pose}
    (ha : Attainable h s) (step : Step h s act u) (mine : s.pose? (.client i) = some q)
    (other : act ≠ .client i) : u.attempts = s.attempts := by
  obtain same | ⟨a, load, agent, spawning, -⟩ := attempts_step step
  · exact same
  · have theirs : s.pose? a = some .vacant := by rw [State.pose?, spawning]; rfl
    have := ha.locked.sole theirs mine
    subst this
    exact absurd (Act.eq_of_agent? agent) other

theorem Walk.attempts_le {h : Host α} {s u : State α ρ} {acts : List (Act α ρ)}
    (walk : Walk h s acts u) : s.attempts ≤ u.attempts := by
  induction walk with
  | refl s => exact Nat.le_refl _
  | cons step apart rest ih => exact Nat.le_trans (attempts_le_step (step_of_next step)) ih

/-- While a call stands where the worker has no thread, everybody else can only come and go, and
register callbacks. -/
theorem step_of_vacant {h : Host α} {s u : State α ρ} {act : Act α ρ} {i : Nat} {c : Cursor α}
    (ha : Attainable h s) (step : Step h s act u) (hi : s.clients[i]? = some (.calling c))
    (vacant : c.pose? = some .vacant) (other : act ≠ .client i) :
    ∃ j cl, u = s.setClient j cl ∨
      ∃ f, s.clients[j]? = some (.registering f) ∧
        u = { s with slot := { callback := some f, version := s.slot.version + 1 } }.setClient j
          cl := by
  have hc := State.cursor?_of_client hi
  have mine : s.pose? (.client i) = some .vacant := by rw [State.pose?, hc]; exact vacant
  have fits : s.Fits .vacant := ha.fits hc vacant
  have dead {t : Nat} {th : Thread α ρ} (ht : s.threads[t]? = some th)
      (alive : th.stage.grade.hasEnded = false) : False := by
    cases fits.2.alive t _ (State.grades_of_thread ht) alive
  cases step with
  | call j | answer j | register j => exact ⟨j, _, .inl rfl⟩
  | drop j free quiet | prefer j p free quiet =>
      cases (State.cursor?_of_isQuiet quiet _).symm.trans hc
  | place j f client => exact ⟨j, _, .inr ⟨f, client, rfl⟩⟩
  | client j k s' p client step =>
      have theirs : s.cursor? (.client j) = some k := State.cursor?_of_client client
      have idle : k.pose? = none := by
        cases hk : k.pose? with
        | none => rfl
        | some q =>
            have posed : s.pose? (.client j) = some q := by rw [State.pose?, theirs]; exact hk
            have same := ha.locked.sole posed mine
            exact absurd (congrArg Act.client (Agent.client.inj same)) other
      cases step with
      | marked q t =>
          have running : s.phase = .running t := ha.aware _ _ theirs
          rcases fits.1 with phase | phase <;> cases running.symm.trans phase
      | stopFound q t open' running =>
          rcases fits.1 with phase | phase <;> cases running.symm.trans phase
      | enter load free | enterJoin free =>
          obtain holds | dropping := Cursor.holds_of_pose vacant
          · have held := (ha.locked.lifecycle (.client i)).mpr (by rw [hc]; exact holds)
            cases free.symm.trans held
          · have apart : Agent.client j ≠ .client i := fun same =>
              other (congrArg Act.client (Agent.client.inj same))
            cases (ha.locked.alone _ c hc dropping _ apart).symm.trans theirs
      | status | length | stopMissed => exact ⟨j, _, .inl rfl⟩
      | _ => cases idle
  | thread t th u thread step => exact (dead thread (running_of_works step)).elim
  | release t th a replies rest thread stage | stir t th thread stage =>
      exact (dead thread (by rw [stage]; rfl)).elim

/-- The acts lead from one state to another while a client is in the middle of a call, and no
thread is unwound on the way. -/
structure Course (h : Host α) (i : Nat) (s : State α ρ) (acts : List (Act α ρ)) (u : State α ρ) :
    Prop where
  run : s.run? h acts = some u
  modest : ∀ act ∈ acts, act.Modest
  requests : ∀ act ∈ acts, act.isRequestOf i = false
  unhurt : u.IsUnhurt

namespace Course

variable {h : Host α} {i : Nat} {s u : State α ρ} {act : Act α ρ} {acts : List (Act α ρ)}
  {old : List α}

theorem walk (hc : Course h i s acts u) (hr : Reachable h s) : Walk h s acts u :=
  Walk.of_run hr hc.modest hc.run

theorem unhurt_start (hc : Course h i s acts u) : s.IsUnhurt := hc.unhurt.of_run hc.run

theorem uncons (hc : Course h i s (act :: acts) u) :
    ∃ v, s.next? h act = some v ∧ act.Modest ∧ act.isRequestOf i = false ∧ Course h i v acts u := by
  obtain ⟨v, hv, hu⟩ := Option.bind_eq_some_iff.mp hc.run
  exact ⟨v, hv, hc.modest act List.mem_cons_self, hc.requests act List.mem_cons_self, hu,
    fun b hb => hc.modest b (List.mem_cons_of_mem act hb),
    fun b hb => hc.requests b (List.mem_cons_of_mem act hb), hc.unhurt⟩

end Course

end QueueWorker.Worker
