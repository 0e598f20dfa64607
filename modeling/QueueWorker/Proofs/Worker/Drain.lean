import QueueWorker.Proofs.Worker.Course
import QueueWorker.Proofs.Worker.Tally

namespace QueueWorker.Worker

variable {α ρ : Type}

namespace State

variable {s : State α ρ}

/-- All that has been pushed is counted, and no thread is left. -/
structure IsDrained (s : State α ρ) : Prop where
  queue : s.queue = []
  pushed : s.pushed = s.finished
  ended : ∀ t, ¬ s.IsAlive t

theorem isDrained_of_staffed (hs : Delivered s) (unhurt : s.IsUnhurt)
    (staff : s.Staffed none true) : s.IsDrained := by
  obtain ⟨queue, pushed, ended⟩ := finished_of_staffed hs unhurt staff
  exact ⟨queue, pushed, ended⟩

end State

namespace Attainable

variable {h : Host α} {s : State α ρ} {a : Agent} {c : Cursor α}

theorem isDrained_of_vacant (ha : Attainable h s) (unhurt : s.IsUnhurt)
    (hc : s.cursor? a = some c) (hq : c.pose? = some .vacant) : s.IsDrained :=
  State.isDrained_of_staffed (ha.delivered (ha.here hc)) unhurt (ha.fits hc hq).2

theorem isDrained_of_idle (ha : Attainable h s) (unhurt : s.IsUnhurt) (hc : s.cursor? a = some c)
    (hq : c.pose? = some .resting) (idle : s.phase = .idle) : s.IsDrained :=
  State.isDrained_of_staffed (ha.delivered (ha.here hc)) unhurt
    (State.fits_idle (ha.fits hc hq) idle)

end Attainable

theorem Reachable.isDrained_of_vacant {h : Host α} {s : State α ρ} {a : Agent} {c : Cursor α}
    (hr : Reachable h s) (unhurt : s.IsUnhurt) (hc : s.cursor? a = some c)
    (hq : c.pose? = some .vacant) : s.IsDrained :=
  hr.attainable.isDrained_of_vacant unhurt hc hq

def Cursor.Joins (good : Reply → Prop) (phase : Phase) : Cursor α → Prop
  | .enteringJoin | .stopping .join | .marking .join _ | .taking | .awaiting _ => True
  | .settling r => good r
  | .leaving load r => load = none ∧ good r ∧ phase = .idle
  | _ => False

theorem joins_advances {h : Host α} {s s' : State α ρ} {i : Nat} {c : Cursor α} {p : Progress α}
    {good : Reply → Prop} (step : Advances h s (.client i) c s' p) (hc : c.Joins good s.phase)
    (knows : c.Knows s.phase) (fits : ∀ q, c.pose? = some q → s.Fits q) (done : good .done)
    (failed : ∀ t e, s.end? t = some (some e) → good (.failed (s.joinFault e))) :
    (∃ k, p = .at k ∧ k.Joins good s'.phase) ∨
      (∃ r, p = .answer r ∧ good r ∧ c.pose? = some .resting ∧ s.phase = .idle ∧
        s'.phase = .idle) := by
  cases step with
  | awaitSelf t self => cases self
  | stopFound p t | stopMissed p | marked p t =>
      cases p <;> first | exact hc.elim | exact .inl ⟨_, rfl, trivial⟩
  | enterJoin | taken => exact .inl ⟨_, rfl, trivial⟩
  | takenNone open' phase =>
      refine .inl ⟨_, rfl, rfl, done, ?_⟩
      cases hp : s.phase with
      | idle => rfl
      | running t => exact absurd hp (knows t)
      | stopping t => exact absurd hp (phase t)
      | joining => exact absurd hp (State.fits_not_joining (fits .resting rfl))
  | awaited => exact .inl ⟨_, rfl, done⟩
  | awaitedDead t e other ended => exact .inl ⟨_, rfl, failed t e ended⟩
  | settled r => exact .inl ⟨_, rfl, rfl, hc, rfl⟩
  | left load r =>
      obtain ⟨rfl, hr, idle⟩ := hc
      exact .inr ⟨r, rfl, hr, rfl, idle, idle⟩
  | _ => exact hc.elim

theorem idle_of_leaving {h : Host α} {s u : State α ρ} {a : Agent} {load : Option (List α)}
    {r : Reply} (hl : Locked s) (aware : Aware s) (turn : Turn h s u)
    (before : s.cursor? a = some (.leaving load r)) (behind : u.cursor? a = some (.leaving load r))
    (idle : s.phase = .idle) : u.phase = .idle := by
  cases turn with
  | advance me c s' p cursor step alike moved =>
      have other : a ≠ me := by
        rintro rfl
        rw [before] at cursor
        cases cursor
        cases step
        rw [moved, Function.update_self] at behind
        cases behind
      rw [alike.phase]
      rcases phase_advances step with same | ⟨hlc, -⟩ | ⟨hg, -⟩ | dropping
      · exact same.trans idle
      · exact absurd (hl.lifecycle.unique before rfl cursor hlc) other
      · have knows := aware me c cursor
        cases c with
        | pushing batch => exact absurd (hl.lifecycle.unique before rfl cursor rfl) other
        | marking q t => cases idle.symm.trans knows
        | _ => cases hg
      · rw [hl.alone me c cursor dropping a other] at before; cases before
  | begin me c k free shared other first alike moved => exact alike.phase.trans idle
  | drop me quiet shared alike moved => rw [quiet] at before; cases before
  | silent phase lifecycle guard owner staffed moved => exact phase.trans idle

def Client.Joins (good : Reply → Prop) (old : List α) (s : State α ρ) : Client α ρ → Prop
  | .calling c => c.Joins good s.phase
  | .idle (some r) => good r ∧ old <+: s.finished
  | _ => False

theorem Client.Joins.of_other {h : Host α} {s u : State α ρ} {i : Nat} {cl : Client α ρ}
    {good : Reply → Prop} {old : List α} {act : Act α ρ} (ha : Attainable h s)
    (step : Step h s act u) (before : s.clients[i]? = some cl) (behind : u.clients[i]? = some cl)
    (hc : cl.Joins good old s) : cl.Joins good old u := by
  cases cl with
  | idle r =>
      cases r with
      | none => exact hc
      | some r => exact ⟨hc.1, hc.2.trans (State.finished_prefix (trace_step step))⟩
  | registering f => exact hc
  | calling c =>
      cases c with
      | leaving load r =>
          exact ⟨hc.1, hc.2.1, idle_of_leaving ha.locked ha.aware (step_turn step)
            (State.cursor?_of_client before) (State.cursor?_of_client behind) hc.2.2⟩
      | stopping p | marking p t => cases p <;> exact hc
      | _ => exact hc

theorem joins_step {h : Host α} {s u : State α ρ} {i : Nat} {cl : Client α ρ}
    {good : Reply → Prop} {old : List α} {act : Act α ρ} (ha : Attainable h s)
    (step : Step h s act u) (request : act.isRequestOf i = false) (hi : s.clients[i]? = some cl)
    (hc : cl.Joins good old s) (done : good .done)
    (failed : ∀ t e, s.end? t = some (some e) → good (.failed (s.joinFault e)))
    (rested : ∀ c, cl = .calling c → c.pose? = some .resting → s.phase = .idle →
      old <+: s.finished) :
    ∃ cl', u.clients[i]? = some cl' ∧ cl'.Joins good old u := by
  apply client_step step request hi (fun behind => hc.of_other ha step hi behind)
  · rintro f rfl
    exact hc
  · rintro c s' p rfl advances rfl
    have cursor : s.cursor? (.client i) = some c := State.cursor?_of_client hi
    rcases joins_advances advances hc (ha.aware _ _ cursor) (fun q hq => ha.fits cursor hq) done
      failed with ⟨k, rfl, hk⟩ | ⟨r, rfl, answer, rest, idle, -⟩
    · exact hk
    · have grown : s.finished <+: s'.finished := State.finished_prefix (trace_advances advances)
      exact ⟨answer, (rested c rfl rest idle).trans grown⟩

theorem drops_advances {h : Host α} {s s' : State α ρ} {i : Nat} {c : Cursor α} {p : Progress α}
    (step : Advances h s (.client i) c s' p) (hc : c.isDropping = true) :
    (∃ k, p = .at k ∧ k.isDropping = true) ∨ (p = .answer .done ∧ s'.owner = .gone) := by
  cases step with
  | stopFound q t | stopMissed q | marked q t =>
      cases q <;> first | exact .inl ⟨_, rfl, rfl⟩ | cases hc
  | retired | retiredNone | outlived | outlivedDead => exact .inl ⟨_, rfl, rfl⟩
  | outliveSelf t self => cases self
  | swept | sweptEarly => exact .inr ⟨rfl, rfl⟩
  | _ => cases hc

def Client.Drops (s : State α ρ) : Client α ρ → Prop
  | .calling c => c.isDropping = true
  | .idle (some r) => r = .done ∧ s.owner = .gone
  | _ => False

theorem drops_step {h : Host α} {s u : State α ρ} {i : Nat} {cl : Client α ρ} {act : Act α ρ}
    (ha : Attainable h s) (step : Step h s act u) (request : act.isRequestOf i = false)
    (hi : s.clients[i]? = some cl) (hc : cl.Drops s) :
    ∃ cl', u.clients[i]? = some cl' ∧ cl'.Drops u := by
  apply client_step step request hi
  · intro _
    rcases cl with ⟨_ | r⟩ | c | f
    · exact hc
    · refine ⟨hc.1, ?_⟩
      by_contra here
      exact here_of_turn ha.locked (step_turn step) here hc.2
    · exact hc
    · exact hc
  · rintro f rfl
    exact hc
  · rintro c s' p rfl advances rfl
    rcases drops_advances advances hc with ⟨k, rfl, hk⟩ | ⟨rfl, gone⟩
    · exact hk
    · exact ⟨rfl, gone⟩

theorem sweeping_of_gone {h : Host α} {s s' : State α ρ} {i : Nat} {c : Cursor α}
    {p : Progress α} (step : Advances h s (.client i) c s' p) (here : s.owner ≠ .gone)
    (gone : s'.owner = .gone) :
    c = .sweeping ∧ ∃ as : List α, s'.trace = s.trace ++ as.map .discarded := by
  cases step with
  | swept all => exact ⟨rfl, _, rfl⟩
  | sweptEarly => exact ⟨rfl, [], (List.append_nil _).symm⟩
  | outliveSelf t self => cases self
  | pushed batch => rw [State.push_eq] at gone; exact absurd gone here
  | marked q t => rw [State.push_eq] at gone; exact absurd gone here
  | _ => exact absurd gone here

theorem not_gone_of_works {h : Host α} {s u : State α ρ} {t : Nat} {th : Thread α ρ}
    (ha : Attainable h s) (ht : s.threads[t]? = some th) (hw : Works h s t th u)
    (here : s.owner ≠ .gone) : u.owner ≠ .gone := by
  cases hw with
  | askDrop a replies rest stage => exact Owner.noConfusion
  | call a replies c rest s' p stage step =>
      have cursor : s.cursor? (.thread t) = some c := by
        rw [State.cursor?_of_thread ht, stage]; rfl
      rcases owner_advances step with ⟨same, -⟩ | ⟨gone, -, -⟩
      · rw [← same] at here
        cases p <;> exact here
      · cases step with
        | swept | sweptEarly => exact absurd rfl (ha.pose_of_thread cursor)
        | outliveSelf v self => cases self; exact absurd rfl (ha.apart t _ cursor)
        | pushed batch | marked q v => rw [State.push_eq] at gone; exact absurd gone here
        | _ => exact absurd gone here
  | _ => exact here

/-- The worker goes when its threads have ended and all is counted. It only throws away what is
left. -/
theorem drained_of_going {h : Host α} {s u : State α ρ} {act : Act α ρ} (ha : Attainable h s)
    (unhurt : s.IsUnhurt) (step : Step h s act u) (here : s.owner ≠ .gone)
    (gone : u.owner = .gone) :
    s.IsDrained ∧ ∃ as : List α, u.trace = s.trace ++ as.map .discarded := by
  cases step with
  | drop => cases gone
  | client i c s' p client step =>
      obtain ⟨rfl, swept⟩ := sweeping_of_gone step here gone
      exact ⟨ha.isDrained_of_vacant unhurt (State.cursor?_of_client client) rfl, swept⟩
  | thread t th u thread step => exact absurd gone (not_gone_of_works ha thread step here)
  | _ => exact absurd gone here

namespace Attainable

variable {h : Host α} {s : State α ρ}

theorem drained_of_gone (ha : Attainable h s) (gone : s.owner = .gone) (unhurt : s.IsUnhurt) :
    ∃ (v : State α ρ) (as : List α), Delivered v ∧ v.IsDrained ∧
      s.trace = v.trace ++ as.map .discarded := by
  induction ha with
  | create settings callback clients => cases gone
  | @next s u act before step apart ih =>
      have step := step_of_next step
      have unhurt' := State.IsUnhurt.of_step unhurt step
      by_cases here : s.owner = .gone
      · obtain ⟨slot, i, cl, rfl⟩ :=
          place_of_deserted before.locked here (before.deserted here) step
        exact ih here unhurt'
      · obtain ⟨drained, as, swept⟩ := drained_of_going before unhurt' step here gone
        exact ⟨s, as, before.delivered here, drained, swept⟩

theorem finished_of_gone (ha : Attainable h s) (gone : s.owner = .gone) (unhurt : s.IsUnhurt) :
    s.pushed = s.finished := by
  obtain ⟨v, as, -, drained, swept⟩ := ha.drained_of_gone gone unhurt
  have pushed : s.pushed = v.pushed := by simp [State.pushed, swept]
  have finished : s.finished = v.finished := by simp [State.finished, swept]
  rw [pushed, finished, drained.pushed]

theorem isDrained_of_gone (ha : Attainable h s) (gone : s.owner = .gone) (unhurt : s.IsUnhurt) :
    s.IsDrained := by
  have deserted := ha.deserted gone
  refine ⟨deserted.queue, ha.finished_of_gone gone unhurt, fun t ht => ?_⟩
  obtain ⟨g, hg, alive⟩ := State.isAlive_iff.mp ht
  rw [deserted.ended t g hg] at alive
  cases alive

end Attainable

theorem Reachable.drained_of_gone {h : Host α} {s : State α ρ} (hr : Reachable h s)
    (gone : s.owner = .gone) (unhurt : s.IsUnhurt) :
    ∃ (v : State α ρ) (as : List α), Delivered v ∧ v.IsDrained ∧
      s.trace = v.trace ++ as.map .discarded :=
  hr.attainable.drained_of_gone gone unhurt

theorem Reachable.isDrained_of_gone {h : Host α} {s : State α ρ} (hr : Reachable h s)
    (gone : s.owner = .gone) (unhurt : s.IsUnhurt) : s.IsDrained :=
  hr.attainable.isDrained_of_gone gone unhurt

def Client.Fails : Client α ρ → Prop
  | .calling (.abandoning ..) | .calling (.leaving _ (.failed _)) | .idle (some (.failed _)) => True
  | _ => False

theorem fails_step {h : Host α} {s u : State α ρ} {i : Nat} {cl : Client α ρ} {act : Act α ρ}
    (step : Step h s act u) (request : act.isRequestOf i = false)
    (hi : s.clients[i]? = some cl) (hc : cl.Fails) :
    ∃ cl', u.clients[i]? = some cl' ∧ cl'.Fails := by
  apply client_step step request hi (fun _ => hc)
  · rintro f rfl
    exact hc
  · rintro c s' p rfl advances rfl
    cases advances with
    | abandoned => trivial
    | left load r => cases r <;> first | exact hc.elim | trivial
    | _ => exact hc.elim

def Cursor.Replaces : Cursor α → Prop
  | .reclaiming .. | .spawning _ => True
  | _ => False

theorem Cursor.Replaces.pose {c : Cursor α} (hc : c.Replaces) : ∃ q, c.pose? = some q := by
  cases c with
  | reclaiming | spawning => exact ⟨_, rfl⟩
  | _ => exact hc.elim

theorem replaces_advances {h : Host α} {s s' : State α ρ} {i : Nat} {c : Cursor α}
    {p : Progress α} (step : Advances h s (.client i) c s' p) (hc : c.Replaces) :
    (∃ k, p = .at k ∧ k.Replaces ∧ s'.threads.length = s.threads.length) ∨
      (c.pose? = some .vacant ∧ ∃ th, s'.threads = s.threads ++ [th]) ∨
      (p.client : Client α ρ).Fails := by
  cases step with
  | reclaimSelf load t self => cases self
  | reclaimed | reclaimedDead => exact .inl ⟨_, rfl, trivial, rfl⟩
  | spawned => exact .inr (.inl ⟨rfl, _, rfl⟩)
  | refused => exact .inr (.inr trivial)
  | _ => exact hc.elim

/-- On the way the client starts a thread, the first one in this run, when no thread is left and
`old` is counted. -/
def StartsBehind (h : Host α) (i : Nat) (old : List α) (s : State α ρ)
    (acts : List (Act α ρ)) : Prop :=
  ∃ front behind v w th, acts = front ++ .client i :: behind ∧ s.run? h front = some v ∧
    v.next? h (.client i) = some w ∧ v.threads.length = s.threads.length ∧
    w.threads = v.threads ++ [th] ∧ old <+: v.finished ∧ ∀ t, ¬ v.IsAlive t

theorem StartsBehind.cons {h : Host α} {s v : State α ρ} {i : Nat} {old : List α}
    {act : Act α ρ} {acts : List (Act α ρ)} (hs : StartsBehind h i old v acts)
    (step : s.next? h act = some v) (length : v.threads.length = s.threads.length) :
    StartsBehind h i old s (act :: acts) := by
  obtain ⟨front, behind, w, x, th, rfl, run, spawn, same, threads, finished, dead⟩ := hs
  exact ⟨act :: front, behind, w, x, th, rfl, Option.bind_eq_some_iff.mpr ⟨v, step, run⟩, spawn,
    same.trans length, threads, finished, dead⟩

theorem Walk.joins {h : Host α} {i : Nat} {s u : State α ρ} {acts : List (Act α ρ)}
    (hw : Walk h s acts u) (ha : Attainable h s)
    (requests : ∀ act ∈ acts, act.isRequestOf i = false) (unhurt : u.IsUnhurt)
    (hi : s.clients[i]? = some (.calling .enteringJoin)) :
    ∃ cl, u.clients[i]? = some cl ∧ cl.Joins (· = .done) s.pushed u := by
  refine (hw.client (P := fun v cl => s.pushed <+: v.pushed ∧ cl.Joins (· = .done) s.pushed v)
    ?_ ha requests hi ⟨List.prefix_rfl, trivial⟩).imp fun cl hcl => ⟨hcl.1, hcl.2.2⟩
  rintro v w act rest cl hv step request hu hi ⟨pushed, joins⟩
  have unhurt : v.IsUnhurt := (unhurt.of_run hu.run).of_step step
  have rested (c) (he : cl = .calling c) (hq : c.pose? = some .resting) (idle : v.phase = .idle) :
      s.pushed <+: v.finished := by
    subst he
    exact (hv.isDrained_of_idle unhurt (State.cursor?_of_client hi) hq idle).pushed ▸ pushed
  obtain ⟨cl', hi', joins'⟩ := joins_step hv step request hi joins rfl
    (fun t e ended => absurd ended (unhurt t e)) rested
  exact ⟨cl', hi', pushed.trans (State.pushed_prefix (trace_step step)), joins'⟩

namespace Course

variable {h : Host α} {i : Nat} {s u : State α ρ} {act : Act α ρ} {acts : List (Act α ρ)}
  {old : List α}

theorem joins (hc : Course h i s acts u) (hr : Reachable h s)
    (hi : s.clients[i]? = some (.calling .enteringJoin)) :
    ∃ cl, u.clients[i]? = some cl ∧ cl.Joins (· = .done) s.pushed u :=
  (hc.walk hr).joins hr.attainable hc.requests hc.unhurt hi

theorem drops (hc : Course h i s acts u) (hr : Reachable h s) {cl : Client α ρ}
    (hi : s.clients[i]? = some cl) (drops : cl.Drops s) :
    ∃ cl, u.clients[i]? = some cl ∧ cl.Drops u :=
  (hc.walk hr).client (P := fun v cl => cl.Drops v)
    (fun _ _ _ _ _ hv step request _ hi drops => drops_step hv step request hi drops)
    hr.attainable hc.requests hi drops

theorem fails (hc : Course h i s acts u) (hr : Reachable h s) {cl : Client α ρ}
    (hi : s.clients[i]? = some cl) (fails : cl.Fails) :
    ∃ cl, u.clients[i]? = some cl ∧ cl.Fails :=
  (hc.walk hr).client (P := fun _ cl => cl.Fails)
    (fun _ _ _ _ _ _ step request _ hi fails => fails_step step request hi fails)
    hr.attainable hc.requests hi fails

theorem startsBehind (hc : Course h i s acts u) (hr : Reachable h s) {c : Cursor α}
    (hi : s.clients[i]? = some (.calling c)) (replaces : c.Replaces) (pushed : old <+: s.pushed)
    (done : u.clients[i]? = some (.idle (some .done))) : StartsBehind h i old s acts := by
  induction acts generalizing s c with
  | nil =>
      cases hc.run
      cases hi.symm.trans done
  | cons act acts ih =>
      obtain ⟨v, hv, modest, request, rest⟩ := hc.uncons
      have step := step_of_next hv
      have pushed' : old <+: v.pushed := pushed.trans (State.pushed_prefix (trace_step step))
      have later := hr.next modest hv
      have cursor : s.cursor? (.client i) = some c := State.cursor?_of_client hi
      obtain ⟨q, hq⟩ := replaces.pose
      by_cases mine : act = .client i
      · subst mine
        cases step with
        | place i f client => cases hi.symm.trans client
        | client i c' s' p client advances =>
            cases hi.symm.trans client
            have now := clients_setClient_self hi advances p.client
            rcases replaces_advances advances replaces with
              ⟨k, rfl, hk, length⟩ | ⟨vacant, th, threads⟩ | fails
            · exact (ih rest later now hk pushed').cons hv length
            · have drained := hr.isDrained_of_vacant hc.unhurt_start cursor vacant
              exact ⟨[], acts, s, _, th, rfl, rfl, hv, rfl, threads, drained.pushed ▸ pushed,
                drained.ended⟩
            · obtain ⟨cl, hcl, fails⟩ := rest.fails later now fails
              cases done.symm.trans hcl
              exact fails.elim
      · have same := clients_step_ne step request (fun j hj he => mine (he ▸ hj))
        have pose : s.pose? (.client i) = some q := by
          rw [State.pose?, cursor]
          exact hq
        have length := length_of_other hr.attainable step pose mine
        exact (ih rest later (same.trans hi) replaces pushed').cons hv length

end Course

theorem dropping_of_call {h : Host α} {s v : State α ρ} {i : Nat}
    (hv : s.next? h (.call i .drop) = some v) :
    v.clients[i]? = some (.calling (.stopping .drop)) := by
  cases step_of_next hv with
  | call i c k free other => exact absurd rfl other
  | answer i c r free other => exact absurd rfl other
  | drop i free quiet =>
      obtain ⟨r, client⟩ := State.idle_of_isFree free
      exact State.clients_setClient client _

theorem reclaiming_of_stopping {h : Host α} {s v : State α ρ} {i t : Nat}
    {load : Option (List α)} (hi : s.clients[i]? = some (.calling (.ensuring load)))
    (stopping : s.phase = .stopping t) (hv : s.next? h (.client i) = some v) :
    v.clients[i]? = some (.calling (.reclaiming load t)) ∧
      v.threads.length = s.threads.length ∧ s.pushed <+: v.pushed := by
  cases step_of_next hv with
  | place i f client => cases hi.symm.trans client
  | client i c s' p client step =>
      cases hi.symm.trans client
      have now := clients_setClient_self hi step p.client
      cases step with
      | reclaim load u free phase =>
          cases stopping.symm.trans phase
          exact ⟨now, rfl, List.prefix_rfl⟩
      | ready u free phase | loaded u batch free phase => cases stopping.symm.trans phase
      | vacate load free phase =>
          rcases phase with phase | phase <;> cases stopping.symm.trans phase

/-- A join answers when all that was pushed before it took the lock is counted, and it never
answers that the thread died. A drop answers when nothing at all is left, and a call that finds the
worker stopping starts the next thread when all that was pushed before is counted. The counters
show the outcomes. -/
theorem drain_guarantee {h : Host α} {s : State α ρ} (hr : Reachable h s) :
    (s.finished = s.outcomes.map Prod.fst ∧ Tallied s) ∧
      (∀ i acts u last, s.clients[i]? = some (.calling .enteringJoin) → Course h i s acts u →
        u.clients[i]? = some (.idle last) → last = some .done ∧ s.pushed <+: u.finished) ∧
      (∀ i acts v u last, s.next? h (.call i .drop) = some v → Course h i v acts u →
        u.clients[i]? = some (.idle last) → last = some .done ∧ u.IsDrained) ∧
      ∀ i load t acts u, s.clients[i]? = some (.calling (.ensuring load)) →
        s.phase = .stopping t → Course h i s (.client i :: acts) u →
        u.clients[i]? = some (.idle (some .done)) →
        StartsBehind h i s.pushed s (.client i :: acts) := by
  refine ⟨⟨s.finished_eq, hr.tallied⟩, ?_, ?_, ?_⟩
  · intro i acts u last joining course idle
    obtain ⟨cl, hcl, joins⟩ := course.joins hr joining
    cases idle.symm.trans hcl
    cases last with
    | none => exact joins.elim
    | some r => exact ⟨congrArg some joins.1, joins.2⟩
  · intro i acts v u last dropping course idle
    have hv := hr.next (show Act.Modest (.call i .drop) from trivial) dropping
    obtain ⟨cl, hcl, drops⟩ := course.drops hv (dropping_of_call dropping) rfl
    cases idle.symm.trans hcl
    cases last with
    | none => exact drops.elim
    | some r =>
        have hu := hv.run course.modest course.run
        exact ⟨congrArg some drops.1, hu.isDrained_of_gone drops.2 course.unhurt⟩
  · intro i load t acts u ensuring stopping course done
    obtain ⟨v, hv, modest, request, rest⟩ := course.uncons
    obtain ⟨now, length, pushed⟩ := reclaiming_of_stopping ensuring stopping hv
    exact (rest.startsBehind (hr.next modest hv) now trivial pushed done).cons hv length

def serveItem : List (Act Nat Unit) := List.replicate 8 (.thread 0)

def joinBehindSend : List (Act Nat Unit) :=
  .call 0 (.send 5) :: List.replicate 9 (.client 0) ++ [.call 1 .join]

def joinToTheEnd : List (Act Nat Unit) :=
  List.replicate 4 (.client 1) ++ serveItem ++ List.replicate 3 (.client 1)

def startBehindStop : List (Act Nat Unit) :=
  .call 0 (.send 5) :: List.replicate 9 (.client 0) ++
    [.call 0 .stop, .client 0, .client 0, .call 0 .start, .client 0]

def startToTheEnd : List (Act Nat Unit) :=
  .client 0 :: serveItem ++ List.replicate 6 (.client 0)

theorem finish_modest : ∀ f : Callback Nat Unit, some (fun _ _ => .finish) = some f →
    Callback.Modest f := by
  rintro f ⟨⟩
  exact fun _ _ => trivial

theorem Course.of_run {h : Host Nat} {i : Nat} {s : State Nat Unit} {acts : List (Act Nat Unit)}
    {p : State Nat Unit → Bool} (modest : ∀ act ∈ acts, act.Modest)
    (requests : ∀ act ∈ acts, act.isRequestOf i = false)
    (hp : (s.run? h acts).any (fun u =>
      u.clients[i]?.any (Client.hasReply .done) && u.deaths = 0 && p u) = true) :
    ∃ u, Course h i s acts u ∧ u.clients[i]? = some (.idle (some .done)) ∧ p u = true := by
  obtain ⟨u, hu, hp⟩ := (Option.any_eq_true _ _).mp hp
  simp only [Bool.and_eq_true, decide_eq_true_eq] at hp
  exact ⟨u, ⟨hu, modest, requests, State.isUnhurt_iff.mpr hp.1.2⟩,
    Client.eq_of_hasReply hp.1.1, hp.2⟩

theorem drain_joinBehindSend :
    (∃ s u v w, (State.create {} (some fun _ _ => .finish) 2).run? Host.calm joinBehindSend =
        some s ∧ s.run? Host.calm joinToTheEnd = some u ∧ [5] <+: u.finished ∧
      u.next? Host.calm (.call 0 .drop) = some v ∧
      v.run? Host.calm (List.replicate 3 (.client 0)) = some w ∧ w.IsDrained) ∧
    ∃ s, (State.create {} (some fun _ _ => .finish) 2).run? Host.calm startBehindStop = some s ∧
      StartsBehind Host.calm 0 [5] s startToTheEnd := by
  constructor
  · have hp : ((State.create {} (some fun _ _ => .finish) 2).run? Host.calm joinBehindSend).any
        (fun s => s.clients[1]?.any (Client.isAt .enteringJoin) && s.pushed = [5] &&
          (s.run? Host.calm joinToTheEnd).any (fun u =>
            u.clients[1]?.any (Client.hasReply .done) && u.deaths = 0 &&
              (u.next? Host.calm (.call 0 .drop)).any (fun v =>
                (v.run? Host.calm (List.replicate 3 (.client 0))).any (fun w =>
                  w.clients[0]?.any (Client.hasReply .done) && w.deaths = 0 && true)))) = true := by
      decide
    obtain ⟨s, hs, hr, hp⟩ :=
      Reachable.of_run hp finish_modest (by simp [joinBehindSend, Act.Modest])
    simp only [Bool.and_eq_true, decide_eq_true_eq] at hp
    obtain ⟨⟨joining, pushed⟩, hp⟩ := hp
    obtain ⟨u, course, joined, hp⟩ := Course.of_run
      (by simp [joinToTheEnd, serveItem, Act.Modest])
      (by simp [joinToTheEnd, serveItem, Act.isRequestOf]) hp
    obtain ⟨v, hv, hp⟩ := (Option.any_eq_true _ _).mp hp
    obtain ⟨w, course', dropped, -⟩ :=
      Course.of_run (by simp [Act.Modest]) (by simp [Act.isRequestOf]) hp
    obtain ⟨-, join, -⟩ := drain_guarantee hr
    obtain ⟨-, -, drop, -⟩ := drain_guarantee (hr.run course.modest course.run)
    obtain ⟨-, counted⟩ := join 1 _ u _ (Client.eq_of_isAt joining) course joined
    exact ⟨s, u, v, w, hs, course.run, pushed ▸ counted, hv, course'.run,
      (drop 0 _ v w _ hv course' dropped).2⟩
  · have hp : ((State.create {} (some fun _ _ => .finish) 2).run? Host.calm startBehindStop).any
        (fun s => s.clients[0]?.any (Client.isAt (.ensuring none)) && s.pushed = [5] &&
          s.phase = .stopping 0 && (s.run? Host.calm startToTheEnd).any (fun u =>
            u.clients[0]?.any (Client.hasReply .done) && u.deaths = 0 && true)) = true := by
      decide
    obtain ⟨s, hs, hr, hp⟩ :=
      Reachable.of_run hp finish_modest (by simp [startBehindStop, Act.Modest])
    simp only [Bool.and_eq_true, decide_eq_true_eq] at hp
    obtain ⟨⟨⟨ensuring, pushed⟩, stopping⟩, hp⟩ := hp
    obtain ⟨u, course, started, -⟩ := Course.of_run
      (by simp [startToTheEnd, serveItem, Act.Modest])
      (by simp [startToTheEnd, serveItem, Act.isRequestOf]) hp
    obtain ⟨-, -, -, restart⟩ := drain_guarantee hr
    exact ⟨s, hs,
      pushed ▸ restart 0 none 0 _ u (Client.eq_of_isAt ensuring) stopping course started⟩

end QueueWorker.Worker
