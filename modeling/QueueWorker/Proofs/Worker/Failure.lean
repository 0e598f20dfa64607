import QueueWorker.Proofs.Worker.Counters
import QueueWorker.Proofs.Worker.Instead

namespace QueueWorker.Worker

variable {α ρ : Type}

def Reply.IsRefusal : Reply → Prop
  | .failed (.spawn ..) => True
  | _ => False

/-- A client whose call has been refused a thread, whether it has been told yet or not. -/
def Client.IsRefused : Client α ρ → Prop
  | .calling (.abandoning ..) => True
  | .calling (.leaving _ r) | .calling (.settling r) | .idle (some r) => r.IsRefusal
  | _ => False

theorem refused_advances {h : Host α} {s s' : State α ρ} {me : Agent} {c : Cursor α}
    {p : Progress α} (step : Advances h s me c s' p)
    (before : ¬ (Client.calling c : Client α ρ).IsRefused)
    (behind : (p.client : Client α ρ).IsRefused) :
    ∃ load e, c = .spawning load ∧ h.refusal s.attempts = some e ∧
      s' = { s with attempts := s.attempts + 1 } ∧
      p = .at (.abandoning load (.spawn s.settings.name "Cannot create thread" (some e))) := by
  cases step with
  | refused load e refusal => exact ⟨load, e, rfl, refusal, rfl, rfl⟩
  | abandoned load f => exact absurd trivial before
  | left load r | settled r => exact absurd behind before
  | stopMissed q | marked q t => cases q <;> exact behind.elim
  | _ => exact behind.elim

/-- The worker is the same in both states, but for its phase, its clients, the number of attempts
and the callbacks that have been registered in between. -/
structure Undisturbed (s u : State α ρ) : Prop where
  queue : u.queue = s.queue
  lifecycle : u.lifecycle = s.lifecycle
  guard : u.guard = s.guard
  slot : u.slot = s.slot ∨ s.slot.version < u.slot.version
  settings : u.settings = s.settings
  stats : u.stats = s.stats
  threads : u.threads = s.threads
  owner : u.owner = s.owner
  rounds : u.rounds = s.rounds
  trace : u.trace = s.trace

namespace Undisturbed

variable {h : Host α} {s v u : State α ρ} {act : Act α ρ} {i : Nat} {c : Cursor α}

theorem trans (first : Undisturbed s v) (second : Undisturbed v u) : Undisturbed s u where
  queue := second.queue.trans first.queue
  lifecycle := second.lifecycle.trans first.lifecycle
  guard := second.guard.trans first.guard
  slot := by
    rcases first.slot with same | later
    · exact same ▸ second.slot
    · exact .inr (second.slot.elim (fun same => same ▸ later) (Nat.lt_trans later))
  settings := second.settings.trans first.settings
  stats := second.stats.trans first.stats
  threads := second.threads.trans first.threads
  owner := second.owner.trans first.owner
  rounds := second.rounds.trans first.rounds
  trace := second.trace.trans first.trace

theorem of_other (ha : Attainable h s) (step : Step h s act u)
    (hi : s.clients[i]? = some (.calling c)) (vacant : c.pose? = some .vacant)
    (other : act ≠ .client i) : Undisturbed s u := by
  obtain ⟨j, cl, rfl | ⟨f, -, rfl⟩⟩ := step_of_vacant ha step hi vacant other
  · exact ⟨rfl, rfl, rfl, .inl rfl, rfl, rfl, rfl, rfl, rfl, rfl⟩
  · exact ⟨rfl, rfl, rfl, .inr (Nat.lt_succ_self _), rfl, rfl, rfl, rfl, rfl, rfl⟩

end Undisturbed

/-- On the way the client's attempt to start a thread is refused in `v`, for the reason `e`. The
call gives up, and in `w` it is about to let go of the worker and to answer so. -/
structure Fails (h : Host α) (i : Nat) (s : State α ρ) (acts : List (Act α ρ)) (u v w : State α ρ)
    (load : Option (List α)) (e : SystemError) : Prop where
  path : ∃ front middle behind, acts = front ++ .client i :: (middle ++ .client i :: behind) ∧
    Walk h s front v ∧ Walk h v (.client i :: (middle ++ [.client i])) w ∧ Walk h w behind u
  attempt : v.clients[i]? = some (.calling (.spawning load))
  refusal : h.refusal v.attempts = some e
  answer : w.clients[i]? = some (.calling
    (.leaving load (.failed (.spawn v.settings.name "Cannot create thread" (some e)))))

namespace Walk

variable {h : Host α} {s v u : State α ρ} {acts : List (Act α ρ)} {i : Nat}

theorem answers {load : Option (List α)} {r : Reply} {last : Option Reply} (walk : Walk h s acts u)
    (ha : Attainable h s) (requests : ∀ act ∈ acts, act.isRequestOf i = false)
    (hi : s.clients[i]? = some (.calling (.leaving load r)))
    (idle : u.clients[i]? = some (.idle last)) : last = some r := by
  obtain ⟨cl, hcl, kept⟩ := walk.client
    (P := fun _ cl => cl = .calling (.leaving load r) ∨ cl = .idle (some r))
    (fun v w act rest cl _ step request _ hi kept => by
      apply client_step step request hi (fun _ => kept)
      · rintro f rfl
        rcases kept with kept | kept <;> cases kept
      · rintro c s' p rfl advances rfl
        rcases kept with kept | kept <;> cases kept
        cases advances
        exact .inr rfl)
    ha requests hi (.inl rfl)
  cases idle.symm.trans hcl
  rcases kept with kept | kept <;> cases kept
  rfl

theorem gives_up {load : Option (List α)} {f : Fault} {last : Option Reply}
    (walk : Walk h s acts u) (ha : Attainable h s)
    (requests : ∀ act ∈ acts, act.isRequestOf i = false)
    (hi : s.clients[i]? = some (.calling (.abandoning load f)))
    (idle : u.clients[i]? = some (.idle last)) :
    ∃ middle behind w, acts = middle ++ .client i :: behind ∧
      Walk h s (middle ++ [.client i]) w ∧ Walk h w behind u ∧
      w.clients[i]? = some (.calling (.leaving load (.failed f))) ∧ w.phase = .idle ∧
      Undisturbed s w ∧ last = some (.failed f) := by
  induction walk with
  | refl s => cases hi.symm.trans idle
  | @cons s v u act acts step apart rest ih =>
      have hv := ha.next step apart
      have requests' (b) (hb : b ∈ acts) : b.isRequestOf i = false :=
        requests b (List.mem_cons_of_mem act hb)
      by_cases mine : act = .client i
      · subst mine
        obtain ⟨s', p, advances, rfl, now⟩ := own_step hi step
        cases advances with
        | abandoned load f free =>
            exact ⟨[], acts, _, rfl, .cons step apart (.refl _), rest, now, rfl,
              ⟨rfl, rfl, rfl, .inl rfl, rfl, rfl, rfl, rfl, rfl, rfl⟩,
              rest.answers hv requests' now idle⟩
      · have request := requests act List.mem_cons_self
        have same := clients_step_ne (step_of_next step) request (fun j hj he => mine (he ▸ hj))
        have still := Undisturbed.of_other ha (step_of_next step) hi rfl mine
        obtain ⟨middle, behind, w, rfl, first, second, leaving, phase, kept, answer⟩ :=
          ih hv requests' (same.trans hi) idle
        exact ⟨act :: middle, behind, w, rfl, .cons step apart first, second, leaving, phase,
          still.trans kept, answer⟩

theorem fails {cl : Client α ρ} {r : Reply} (walk : Walk h s acts u) (ha : Attainable h s)
    (requests : ∀ act ∈ acts, act.isRequestOf i = false) (hi : s.clients[i]? = some cl)
    (before : ¬ cl.IsRefused) (idle : u.clients[i]? = some (.idle (some r)))
    (refused : r.IsRefusal) :
    ∃ v w load e, Fails h i s acts u v w load e ∧ w.phase = .idle ∧ Undisturbed v w ∧
      r = .failed (.spawn v.settings.name "Cannot create thread" (some e)) := by
  induction walk generalizing cl with
  | refl s =>
      cases hi.symm.trans idle
      exact absurd refused before
  | @cons s v u act acts step apart rest ih =>
      have hv := ha.next step apart
      have requests' (b) (hb : b ∈ acts) : b.isRequestOf i = false :=
        requests b (List.mem_cons_of_mem act hb)
      have later {cl' : Client α ρ} (hi' : v.clients[i]? = some cl') (before' : ¬ cl'.IsRefused) :
          ∃ v w load e, Fails h i s (act :: acts) u v w load e ∧ w.phase = .idle ∧
            Undisturbed v w ∧
            r = .failed (.spawn v.settings.name "Cannot create thread" (some e)) := by
        obtain ⟨x, w, load, e, fails, kept⟩ := ih hv requests' hi' before' idle
        obtain ⟨front, middle, behind, rfl, first, more⟩ := fails.path
        exact ⟨x, w, load, e,
          ⟨⟨act :: front, middle, behind, rfl, .cons step apart first, more⟩, fails.attempt,
            fails.refusal, fails.answer⟩, kept⟩
      -- The attempt is found at the client's first step into `IsRefused`. Up to there the walk goes
      -- on.
      by_cases mine : act = .client i
      · subst mine
        cases cl with
        | idle last =>
            cases step_of_next step with
            | client i k s' p client | place i f client => cases hi.symm.trans client
        | registering f =>
            cases step_of_next step with
            | client i k s' p client => cases hi.symm.trans client
            | place i g client free =>
                exact later (State.clients_setClient client _) id
        | calling c =>
            obtain ⟨s', p, advances, rfl, now⟩ := own_step hi step
            by_cases behind : (p.client : Client α ρ).IsRefused
            · obtain ⟨load, e, rfl, refusal, rfl, rfl⟩ := refused_advances advances before behind
              obtain ⟨middle, tail, w, rfl, first, second, leaving, phase, kept, answer⟩ :=
                rest.gives_up hv requests' now idle
              cases answer
              have path := Walk.cons step apart first
              exact ⟨s, w, load, e, ⟨⟨[], middle, tail, rfl, .refl s, path, second⟩, hi, refusal,
                leaving⟩, phase, { kept with }, rfl⟩
            · exact later now behind
      · have same := clients_step_ne (step_of_next step) (requests act List.mem_cons_self)
          (fun j hj he => mine (he ▸ hj))
        exact later (same.trans hi) before

end Walk

/-- A worker without a thread. What is queued, if anything, is left from threads that were
unwound. -/
structure State.IsVacated (s : State α ρ) : Prop where
  phase : s.phase = .idle
  ended : ∀ t, ¬ s.IsAlive t
  markers : markers s.queue = s.deaths
  pushed : s.pushed = s.finished ++ s.queued
  clean : s.IsUnhurt → s.queue = [] ∧ s.pushed = s.finished ∧ s.threads.length = s.joins

theorem Attainable.isVacated {h : Host α} {s : State α ρ} {a : Agent} {c : Cursor α}
    (ha : Attainable h s) (hc : s.cursor? a = some c) (hq : c.pose? = some .resting)
    (idle : s.phase = .idle) : s.IsVacated := by
  have staff : s.Staffed none true := State.fits_idle (ha.fits hc hq) idle
  have nobody (t : Nat) : ¬ s.IsAlive t := fun ht => by cases State.Staffed.isAlive staff ht
  refine ⟨idle, nobody, ?_, ?_, fun unhurt => ?_⟩
  · have balance := staff.balance
    have working := staff.working_zero (fun t ht => by cases ht)
    rw [State.deaths_eq]
    simp only [if_true] at balance
    omega
  · have placed := (ha.delivered (ha.here hc)).finished
    rwa [held_of_nobody nobody, List.append_nil] at placed
  · have drained := ha.isDrained_of_idle unhurt hc hq idle
    have balanced := ((ha.balanced unhurt).charged a c .resting hc hq).threads
    rw [Option.bind_some, hq, Option.getD_some] at balanced
    exact ⟨drained.queue, drained.pushed,
      balanced.trans (congrArg _ (State.owes_of_between (.inl idle)))⟩

def Act.batch? (i : Nat) : Act α ρ → Option (List α)
  | .call j c => if j = i then some c.batch else none
  | _ => none

/-- All that a client has pushed beyond `base` are whole batches out of those that it has asked for.
What it is still to push is the last of them. -/
def State.Charged (i : Nat) (base : List α) (asked : List (List α)) (s : State α ρ) : Prop :=
  ∃ sent, s.pushedBy (.client i) = base ++ sent.flatten ∧ List.Sublist sent asked ∧
    ∀ c, s.clients[i]? = some (.calling c) → c.load = [] ∨ List.Sublist (sent ++ [c.load]) asked

theorem load_advances {h : Host α} {s s' : State α ρ} {me : Agent} {c k : Cursor α}
    (step : Advances h s me c s' (.at k)) : k.load = c.load ∧ c.pushes = [] ∨ k.load = [] := by
  generalize hp : Progress.at k = p at step
  cases step with
  | stopMissed q | marked q => cases q <;> cases hp <;> exact .inr rfl
  | _ => cases hp <;> first | exact .inr rfl | exact .inl ⟨rfl, rfl⟩

theorem load_begin {s : State α ρ} {c : Call α} {k : Cursor α} (first : c.begin s = .at k) :
    k.load = c.batch := by
  cases c <;> cases first <;> rfl

namespace State.Charged

variable {h : Host α} {s u : State α ρ} {i : Nat} {base : List α} {asked more : List (List α)}

theorem congr (hs : s.Charged i base asked)
    (pushedBy : u.pushedBy (.client i) = s.pushedBy (.client i))
    (client : ∀ c, u.clients[i]? = some (.calling c) →
      s.clients[i]? = some (.calling c) ∨ c.load = []) : u.Charged i base (asked ++ more) := by
  obtain ⟨sent, pushed, sub, loaded⟩ := hs
  have grown : List.Sublist asked (asked ++ more) := List.sublist_append_left _ _
  refine ⟨sent, pushedBy.trans pushed, sub.trans grown, fun c hc => ?_⟩
  rcases client c hc with same | empty
  · exact (loaded c same).imp id fun sub => sub.trans grown
  · exact .inl empty

theorem call {c : Call α} {k : Cursor α} (hs : s.Charged i base asked) (load : k.load = c.batch)
    (pushedBy : u.pushedBy (.client i) = s.pushedBy (.client i))
    (now : u.clients[i]? = some (.calling k)) : u.Charged i base (asked ++ [c.batch]) := by
  obtain ⟨sent, pushed, sub, -⟩ := hs
  refine ⟨sent, pushedBy.trans pushed, sub.trans (List.sublist_append_left _ _), fun k' hk => ?_⟩
  cases now.symm.trans hk
  exact .inr (load ▸ sub.append (List.Sublist.refl _))

theorem advances {c : Cursor α} {p : Progress α} (hs : s.Charged i base asked)
    (hi : s.clients[i]? = some (.calling c)) (step : Advances h s (.client i) c u p) :
    (u.setClient i p.client).Charged i base (asked ++ more) := by
  obtain ⟨sent, pushed, sub, loaded⟩ := hs
  have grown : List.Sublist asked (asked ++ more) := List.sublist_append_left _ _
  have now := clients_setClient_self hi step p.client
  have pushedBy : (u.setClient i p.client).pushedBy (.client i) =
      s.pushedBy (.client i) ++ c.pushes := by
    have := pushedBy_advances step (.client i)
    rwa [if_pos rfl] at this
  -- A step either pushes the whole load, which is then the last batch sent, or nothing.
  by_cases pushes : c.pushes = []
  · refine ⟨sent, by rw [pushedBy, pushes, List.append_nil, pushed], sub.trans grown, ?_⟩
    intro k hk
    rw [now] at hk
    cases p <;> cases hk
    rcases load_advances step with ⟨same, -⟩ | empty
    · exact same ▸ (loaded c hi).imp id fun sub => sub.trans grown
    · exact .inl empty
  · have same : c.pushes = c.load := by cases c <;> first | rfl | exact absurd rfl pushes
    have sub' := (loaded c hi).resolve_left (same ▸ pushes)
    refine ⟨sent ++ [c.load], ?_, sub'.trans grown, ?_⟩
    · rw [pushedBy, pushed, same]; simp
    · intro k hk
      rw [now] at hk
      cases p <;> cases hk
      rcases load_advances step with ⟨-, none⟩ | empty
      · exact absurd none pushes
      · exact .inl empty

theorem step {act : Act α ρ} (hs : s.Charged i base asked) (step : Step h s act u) :
    u.Charged i base (asked ++ (act.batch? i).toList) := by
  have set {v : State α ρ} {j : Nat} {cl : Client α ρ} (same : v.clients = s.clients)
      (new : j = i → ∀ c, cl = .calling c → c.load = []) (c : Cursor α)
      (hc : (v.setClient j cl).clients[i]? = some (.calling c)) :
      s.clients[i]? = some (.calling c) ∨ c.load = [] := by
    rw [State.setClient, same, List.getElem?_set] at hc
    split at hc
    next hj =>
      split at hc
      next => exact .inr (new hj c (Option.some.inj hc))
      next => cases hc
    next => exact .inl hc
  cases step with
  | call j c k free other first =>
      obtain ⟨r, client⟩ := State.idle_of_isFree free
      by_cases hj : j = i
      · subst hj
        simp only [Act.batch?, if_true]
        exact hs.call (load_begin first) rfl (State.clients_setClient client _)
      · exact hs.congr rfl (set rfl fun he => absurd he hj)
  | answer j c r | register j f => exact hs.congr rfl (set rfl (by rintro - c ⟨⟩))
  | drop j => exact hs.congr rfl (set rfl (by rintro - c ⟨⟩; rfl))
  | place j f => exact hs.congr rfl (set rfl (by rintro - c ⟨⟩))
  | prefer | release | stir => exact hs.congr rfl fun c => .inl
  | client j c s' p client step =>
      by_cases hj : j = i
      · subst hj
        exact hs.advances client step
      · have pushedBy := pushedBy_advances step (.client i)
        rw [if_neg (fun he => hj (Agent.client.inj he)), List.append_nil] at pushedBy
        exact hs.congr pushedBy (set (clients_advances step) fun he => absurd he hj)
  | thread t th u thread step =>
      exact hs.congr (pushedBy_works step) fun c hc => .inl (clients_works step ▸ hc)

end State.Charged

theorem Walk.charged {h : Host α} {s u : State α ρ} {i : Nat} {acts : List (Act α ρ)}
    {base : List α} {asked : List (List α)} (walk : Walk h s acts u)
    (hs : s.Charged i base asked) : u.Charged i base (asked ++ acts.filterMap (Act.batch? i)) := by
  induction walk generalizing asked with
  | refl s => simpa using hs
  | @cons s v u act acts step apart rest ih =>
      have later := ih (hs.step (step_of_next step))
      cases hb : act.batch? i <;> simpa [List.filterMap_cons, hb] using later

theorem Walk.pushedBy {h : Host α} {s u : State α ρ} {i : Nat} {acts : List (Act α ρ)}
    {last : Option Reply} (walk : Walk h s acts u) (idle : s.clients[i]? = some (.idle last)) :
    ∃ sent, u.pushedBy (.client i) = s.pushedBy (.client i) ++ sent.flatten ∧
      List.Sublist sent (acts.filterMap (Act.batch? i)) := by
  have start : s.Charged i (s.pushedBy (.client i)) [] := by
    refine ⟨[], by simp, List.Sublist.refl _, fun c hc => ?_⟩
    cases idle.symm.trans hc
  obtain ⟨sent, pushed, sub, -⟩ := walk.charged start
  exact ⟨sent, pushed, sub⟩

theorem settings_advances {h : Host α} {s s' : State α ρ} {me : Agent} {c : Cursor α}
    {p : Progress α} (step : Advances h s me c s' p) : s'.settings = s.settings := by
  cases step with
  | pushed batch => rw [State.push_eq]; rfl
  | marked q t => rw [State.push_eq]
  | _ => rfl

theorem settings_step {h : Host α} {s u : State α ρ} {act : Act α ρ} (step : Step h s act u) :
    u.settings = s.settings ∨ ∃ p, u.settings = s.settings.withPriority p := by
  cases step with
  | prefer i p free quiet => exact .inr ⟨p, rfl⟩
  | client i c s' p client step =>
      have same := settings_advances step
      exact .inl same
  | thread t th u thread step =>
      left
      cases step with
      | call a replies c rest s' p stage step =>
          rw [← settings_advances step]
          cases p <;> rfl
      | _ => rfl
  | _ => exact .inl rfl

theorem Walk.check {h : Host α} {s u : State α ρ} {acts : List (Act α ρ)} (walk : Walk h s acts u)
    (valid : s.settings.check = .ok ()) : u.settings.check = .ok () := by
  induction walk with
  | refl s => exact valid
  | cons step apart rest ih =>
      apply ih
      rcases settings_step (step_of_next step) with same | ⟨p, same⟩ <;> (rw [same]; exact valid)

theorem Settings.noNul_of_check {s : Settings} (valid : s.check = .ok ()) :
    '\x00' ∉ s.name.toList := by
  intro nul
  simp only [Settings.check] at valid
  split at valid
  next => cases valid
  next =>
    rw [if_pos (List.contains_iff_mem.mpr nul)] at valid
    cases valid

theorem Walk.pushed_grows {h : Host α} {s u : State α ρ} {acts : List (Act α ρ)}
    (walk : Walk h s acts u) : s.pushed <+: u.pushed := by
  induction walk with
  | refl s => exact List.prefix_rfl
  | cons step apart rest ih =>
      exact (State.pushed_prefix (trace_step (step_of_next step))).trans ih

theorem Walk.refused {h : Host α} {s u : State α ρ} {i : Nat} {c : Call α} {r : Reply}
    {acts : List (Act α ρ)} (walk : Walk h s (.call i c :: acts) u) (ha : Attainable h s)
    (requests : ∀ act ∈ acts, act.isRequestOf i = false)
    (idle : u.clients[i]? = some (.idle (some r))) (refused : r.IsRefusal) :
    ∃ v w load e, Fails h i s (.call i c :: acts) u v w load e ∧ w.IsVacated ∧ Undisturbed v w ∧
      s.pushed <+: w.pushed ∧
      r = .failed (.spawn v.settings.name "Cannot create thread" (some e)) := by
  cases walk with
  | @cons s v u act acts step apart rest =>
      obtain ⟨cl, hi, before⟩ : ∃ cl, v.clients[i]? = some cl ∧ ¬ cl.IsRefused := by
        cases step_of_next step with
        | call i c k free other first | answer i c k free other first =>
            obtain ⟨r, client⟩ := State.idle_of_isFree free
            refine ⟨_, State.clients_setClient client _, ?_⟩
            cases c <;> cases first <;> exact id
        | drop i free quiet =>
            obtain ⟨r, client⟩ := State.idle_of_isFree free
            exact ⟨_, State.clients_setClient client _, id⟩
      have hv := ha.next step apart
      obtain ⟨x, w, load, e, fails, phase, kept, rfl⟩ :=
        rest.fails hv requests hi before idle refused
      obtain ⟨front, middle, behind, rfl, first, second, third⟩ := fails.path
      have toFailure : Walk h s (.call i c :: front) x := .cons step apart first
      refine ⟨x, w, load, e, ⟨⟨.call i c :: front, middle, behind, rfl, toFailure, second, third⟩,
        fails.attempt, fails.refusal, fails.answer⟩, ?_, kept, ?_, rfl⟩
      · have hw := second.attainable (toFailure.attainable ha)
        exact hw.isVacated (State.cursor?_of_client fails.answer) rfl phase
      · exact (toFailure.trans second).pushed_grows

theorem Fails.spared {h : Host α} {s u v w : State α ρ} {i : Nat} {c : Call α} {r : Reply}
    {acts : List (Act α ρ)} {load : Option (List α)} {e : SystemError}
    (fails : Fails h i s (.call i c :: acts) u v w load e) (ha : Attainable h s)
    (requests : ∀ act ∈ acts, act.isRequestOf i = false)
    (idle : u.clients[i]? = some (.idle (some r))) :
    ∃ acts' u', Spared h v.attempts i r s (.call i c :: acts) u acts' u' := by
  obtain ⟨front, middle, behind, same, first, second, third⟩ := fails.path
  cases front with
  | nil => cases same
  | cons act front =>
      obtain ⟨rfl, rfl⟩ := List.cons_eq_cons.mp same
      have rest : Walk h v (.client i :: (middle ++ .client i :: behind)) u := by
        simpa using second.trans third
      have refused : h.refusal v.attempts ≠ none := by rw [fails.refusal]; exact nofun
      refine first.spared rest ha (fun act hm => requests act ?_) fails.attempt refused idle
      rcases List.mem_append.mp hm with hm | hm
      · exact List.mem_append_left _ hm
      · exact List.mem_append_right _ (List.mem_cons_of_mem _ hm)

/-- A call that is refused a thread does nothing but to wait for the thread before, and a batch that
fails to come about nothing at all.

None of its items is ever pushed: what the client pushes beyond what it had pushed before are
batches of later calls. When the call lets go of the worker, that is idle, all that was pushed is
counted, and the rest of it is as it was before the attempt. Without that attempt, and with nothing
in place of the call but starts that succeed and waits for a thread to end, the same acts of
everybody else lead to the same worker, and whatever comes later comes alike to both. A callback's
own call is never refused a thread, and no name of a thread can be refused for what it holds. -/
theorem failed_calls_atomic {h : Host α} {s : State α ρ} (ha : Attainable h s) :
    (∀ i c acts u name detail source, Walk h s (.call i c :: acts) u →
      (∀ act ∈ acts, act.isRequestOf i = false) →
      u.clients[i]? = some (.idle (some (.failed (.spawn name detail source)))) →
        (∀ later z, Walk h u later z → ∃ sent,
          z.pushedBy (.client i) = s.pushedBy (.client i) ++ sent.flatten ∧
            List.Sublist sent (later.filterMap (Act.batch? i))) ∧
        ∃ v w load e, Fails h i s (.call i c :: acts) u v w load e ∧
          name = v.settings.name ∧ detail = "Cannot create thread" ∧ source = some e ∧
          Undisturbed v w ∧ w.IsVacated ∧ s.pushed <+: w.pushed ∧
          ∃ acts' u',
            Spared h v.attempts i (.failed (.spawn name detail source)) s (.call i c :: acts) u
              acts' u' ∧
            SameFuture h u (h.without v.attempts)
              (u'.setClient i (.idle (some (.failed (.spawn name detail source)))))) ∧
      (∀ t c, s.cursor? (.thread t) = some c → c.pose? ≠ some .vacant) ∧
      (∀ i as u, s.next? h (.call i (.sendBroken as)) = some u →
        u = s.setClient i (.idle (some .broken))) ∧
      (∀ t th a replies as rest u, s.threads[t]? = some th →
        th.stage = .running a replies (.ask (.sendBroken as) rest) → s.owner = .shared →
        s.next? h (.thread t) = some u →
          u = s.setStage t (.running a (replies ++ [.broken]) (rest .broken))) ∧
      ∀ acts u, Walk h s acts u → s.settings.check = .ok () →
        u.settings.check = .ok () ∧ '\x00' ∉ u.settings.name.toList := by
  refine ⟨?_, fun t c hc => ha.pose_of_thread hc, ?_, ?_, ?_⟩
  · intro i c acts u name detail source walk requests failed
    obtain ⟨v, w, load, e, fails, vacated, kept, pushed, answer⟩ :=
      walk.refused ha requests failed trivial
    cases answer
    obtain ⟨acts', u', spared⟩ := fails.spared ha requests failed
    refine ⟨fun later z rest => ?_, v, w, load, e, fails, rfl, rfl, rfl, kept, vacated, pushed,
      acts', u', spared, spared.sameFuture⟩
    obtain ⟨sent, more, sub⟩ := rest.pushedBy failed
    have none := pushedBy_of_call walk.run requests failed
    exact ⟨sent, by rw [more, none]; simp [Reply.total], sub⟩
  · intro i as u step
    cases step_of_next step with
    | call i c k free other first => cases first
    | answer i c r free other first => cases first; rfl
  · intro t th a replies as rest u thread stage shared step
    simp only [State.next?, thread, Option.bind_some, State.work?, stage, State.follow?, State.ask?,
      shared, ne_eq, not_true_eq_false, if_false, Call.begin] at step
    exact (Option.some.inj step).symm
  · intro acts u walk valid
    exact ⟨walk.check valid, Settings.noNul_of_check (walk.check valid)⟩

def Host.sparing : Host Nat :=
  { Host.calm with
    refusal := fun n => if n = 1 then some ⟨"WouldBlock", "no thread left"⟩ else none }

def sendAndStop : List (Act Nat Unit) :=
  .call 0 (.send 5) :: List.replicate 9 (.client 0) ++ [.call 0 .stop, .client 0, .client 0] ++
    List.replicate 8 (.thread 0)

def sendAgain : List (Act Nat Unit) := .call 0 (.send 6) :: List.replicate 6 (.client 0)

theorem failed_calls_sendAgain :
    ∃ (s u w : State Nat Unit),
      (State.create {} (some fun _ _ => .finish) 1).run? Host.sparing sendAndStop = some s ∧
      s.run? Host.sparing sendAgain = some u ∧ s.phase = .stopping 0 ∧
      u.pushedBy (.client 0) = [5] ∧ w.phase = .idle ∧ w.queue = [] ∧ w.pushed = w.finished ∧
      w.threads.length = w.joins ∧ '\x00' ∉ u.settings.name.toList ∧
      ∃ acts u', s.run? (Host.sparing.without 1) acts = some u' ∧ u'.attempts = 1 ∧
        u'.slot = u.slot ∧ u'.threads = u.threads ∧
        SameFuture Host.sparing u (Host.sparing.without 1)
          (u'.setClient 0 (.idle (some (.failed (.spawn "message-thread" "Cannot create thread"
            (some ⟨"WouldBlock", "no thread left"⟩)))))) := by
  have hp : ((State.create {} (some fun _ _ => .finish) 1).run? Host.sparing sendAndStop).any
      (fun s => s.phase = .stopping 0 && s.pushedBy (.client 0) = [5] && s.settings = {} &&
        (s.run? Host.sparing sendAgain).any (fun u =>
          u.clients[0]?.any (Client.hasReply (.failed (.spawn "message-thread"
            "Cannot create thread" (some ⟨"WouldBlock", "no thread left"⟩)))) &&
          u.deaths = 0 && u.attempts = 2)) = true := by
    decide
  obtain ⟨s, hs, hr, hp⟩ := Reachable.of_run hp finish_modest (by simp [sendAndStop, Act.Modest])
  simp only [Bool.and_eq_true, decide_eq_true_eq] at hp
  obtain ⟨⟨⟨stopping, before⟩, settings⟩, hp⟩ := hp
  obtain ⟨u, hu, hp⟩ := (Option.any_eq_true _ _).mp hp
  simp only [Bool.and_eq_true, decide_eq_true_eq] at hp
  obtain ⟨⟨failed, deaths⟩, attempts⟩ := hp
  have walk := Walk.of_run hr (by simp [sendAgain, Act.Modest]) hu
  obtain ⟨calls, -, -, -, check⟩ := failed_calls_atomic hr.attainable
  obtain ⟨later, v, w, load, e, fails, -, -, -, -, vacated, -, acts, u', spared, future⟩ :=
    calls 0 _ _ u _ _ _ walk (by simp [Act.isRequestOf]) (Client.eq_of_hasReply failed)
  obtain ⟨sent, pushed, sub⟩ := later [] u (.refl u)
  cases sub
  obtain ⟨_, _, _, _, _, _, third⟩ := fails.path
  obtain ⟨queue, finished, joined⟩ :=
    vacated.clean ((State.isUnhurt_iff.mpr deaths).of_run third.run)
  -- It was the second attempt that failed.
  have second : v.attempts = 1 := by
    by_contra other
    cases (if_neg other).symm.trans fails.refusal
  have path := spared.path.walk.run
  have slot := congrArg State.slot spared.same
  have threads := congrArg State.threads spared.same
  rw [second] at path future
  refine ⟨s, u, w, hs, hu, stopping, pushed.trans ?_, vacated.phase, queue, finished, joined, ?_,
    acts, u', path, ?_, slot, threads, future⟩
  · rw [before]; rfl
  · exact (check _ u walk (by rw [settings]; rfl)).2
  · exact Nat.succ.inj (spared.attempts.symm.trans attempts)

end QueueWorker.Worker
