import QueueWorker.Proofs.Worker.Lifecycle

namespace QueueWorker.Worker

variable {α ρ : Type}

namespace Entry

@[simp] def pushed : Entry α ρ → List α
  | .queued _ as => as
  | _ => []

@[simp] def pushedBy (me : Agent) : Entry α ρ → List α
  | .queued who as => if who = me then as else []
  | _ => []

/-- An item is handled once the callback is called on it, or once it is skipped. -/
@[simp] def handled : Entry α ρ → List α
  | .began _ _ a => [a]
  | .counted _ a .skipped => [a]
  | _ => []

@[simp] def finished : Entry α ρ → List α
  | .counted _ a _ => [a]
  | _ => []

end Entry

namespace Stage

/-- The item that a thread has taken and not handled yet. -/
@[simp] def waiting : Stage α ρ → List α
  | .fetched a | .lacking a | .skipping a => [a]
  | _ => []

/-- The item that a thread has taken and not counted yet. -/
@[simp] def held : Stage α ρ → List α
  | .fetched a | .lacking a | .skipping a | .running a _ _ | .calling a _ _ _ | .concluded a _
  | .noted a _ => [a]
  | _ => []

end Stage

namespace State

def pushed (s : State α ρ) : List α := s.trace.flatMap Entry.pushed

def pushedBy (s : State α ρ) (me : Agent) : List α := s.trace.flatMap (Entry.pushedBy me)

def handled (s : State α ρ) : List α := s.trace.flatMap Entry.handled

def finished (s : State α ρ) : List α := s.trace.flatMap Entry.finished

def waiting (s : State α ρ) : List α := s.threads.flatMap (fun th => th.stage.waiting)

def held (s : State α ρ) : List α := s.threads.flatMap (fun th => th.stage.held)

def queued (s : State α ρ) : List α := s.queue.filterMap Message.item?

end State

/-- Every item pushed is handled, or in the hands of a thread, or in the queue, in this order. -/
structure Delivered (s : State α ρ) : Prop where
  handled : s.pushed = s.handled ++ s.waiting ++ s.queued
  finished : s.pushed = s.finished ++ s.held ++ s.queued

theorem flatMap_of_sole {β γ : Type} {l : List β} {f : β → List γ} {t : Nat} {x : β}
    (ht : l[t]? = some x) (others : ∀ u y, l[u]? = some y → u ≠ t → f y = []) :
    l.flatMap f = f x := by
  induction l generalizing t with
  | nil => cases ht
  | cons y l ih =>
      cases t with
      | zero =>
          cases ht
          have rest : l.flatMap f = [] := by
            apply List.flatMap_eq_nil_iff.mpr
            intro z hz
            obtain ⟨u, hu⟩ := List.mem_iff_getElem?.mp hz
            exact others (u + 1) z hu (Nat.succ_ne_zero u)
          rw [List.flatMap_cons, rest, List.append_nil]
      | succ t =>
          have first := others 0 y rfl (Nat.succ_ne_zero t).symm
          rw [List.flatMap_cons, first, List.nil_append]
          exact ih ht fun u z hu hne => others (u + 1) z hu (fun he => hne (Nat.succ.inj he))

theorem flatMap_of_alive {β : Type} {s : State α ρ} {ward : Option Nat} {marked : Bool} {t : Nat}
    {th : Thread α ρ} (staff : s.Staffed ward marked) (ht : s.threads[t]? = some th)
    (alive : th.stage.grade.hasEnded = false) (stage : Stage α ρ) (f : Stage α ρ → List β)
    (hf : ∀ st : Stage α ρ, st.grade.hasEnded = true → f st = []) :
    s.threads.flatMap (fun th => f th.stage) = f th.stage ∧
      (s.setStage t stage).threads.flatMap (fun th => f th.stage) = f stage := by
  have ended {u : Nat} {y : Thread α ρ} (hu : s.threads[u]? = some y) (hne : u ≠ t) :
      f y.stage = [] := by
    cases he : y.stage.grade.hasEnded with
    | true => exact hf _ he
    | false =>
        have hwt := staff.alive t _ (State.grades_of_thread ht) alive
        have hwu := staff.alive u _ (State.grades_of_thread hu) he
        exact absurd (Option.some.inj (hwu.symm.trans hwt)) hne
  refine ⟨flatMap_of_sole ht fun u y hu hne => ended hu hne, ?_⟩
  have new : (s.setStage t stage).threads[t]? = some { th with stage } := by
    simp [State.setStage, ht]
  apply flatMap_of_sole (f := fun th => f th.stage) new
  intro u y hu hne
  simp only [State.setStage, List.getElem?_modify, if_neg (Ne.symm hne)] at hu
  obtain ⟨y', hy', rfl⟩ := Option.map_eq_some_iff.mp hu
  exact ended hy' hne

theorem waiting_of_ended (st : Stage α ρ) (he : st.grade.hasEnded = true) : st.waiting = [] := by
  cases st <;> first | rfl | cases he

theorem held_of_ended (st : Stage α ρ) (he : st.grade.hasEnded = true) : st.held = [] := by
  cases st <;> first | rfl | cases he

theorem delivered_setStage {s v : State α ρ} {ward : Option Nat} {marked : Bool} {t : Nat}
    {th : Thread α ρ} {stage : Stage α ρ} (hs : Delivered s) (staff : s.Staffed ward marked)
    (ht : s.threads[t]? = some th) (alive : th.stage.grade.hasEnded = false)
    (threads : v.threads = s.threads)
    (handled : s.pushed = s.handled ++ th.stage.waiting ++ s.queued →
      v.pushed = v.handled ++ stage.waiting ++ v.queued)
    (finished : s.pushed = s.finished ++ th.stage.held ++ s.queued →
      v.pushed = v.finished ++ stage.held ++ v.queued) : Delivered (v.setStage t stage) := by
  have hw := flatMap_of_alive staff ht alive stage Stage.waiting waiting_of_ended
  have hh := flatMap_of_alive staff ht alive stage Stage.held held_of_ended
  have hold := hs.handled
  have cold := hs.finished
  rw [State.waiting, hw.1] at hold
  rw [State.held, hh.1] at cold
  constructor
  · have := hw.2
    simp only [State.setStage, ← threads] at this
    rw [State.waiting, State.setStage, this]
    exact handled hold
  · have := hh.2
    simp only [State.setStage, ← threads] at this
    rw [State.held, State.setStage, this]
    exact finished cold

theorem flatMap_of_map {β γ : Type} {l l' : List β} {f : β → List γ} (h : l.map f = l'.map f) :
    l.flatMap f = l'.flatMap f := by
  rw [List.flatMap_def, h, ← List.flatMap_def]

namespace Delivered

variable {s u : State α ρ}

theorem grow (hs : Delivered s) (new : List α) (pushed : u.pushed = s.pushed ++ new)
    (handled : u.handled = s.handled) (finished : u.finished = s.finished)
    (queued : u.queued = s.queued ++ new) (waiting : u.waiting = s.waiting)
    (held : u.held = s.held) : Delivered u := by
  constructor
  · rw [pushed, handled, queued, waiting, hs.handled]; simp
  · rw [pushed, finished, queued, held, hs.finished]; simp

theorem congr (hs : Delivered s) (trace : u.trace = s.trace) (queued : u.queued = s.queued)
    (waiting : u.waiting = s.waiting) (held : u.held = s.held) : Delivered u := by
  refine hs.grow [] ?_ ?_ ?_ (by simpa using queued) waiting held
  all_goals simp [State.pushed, State.handled, State.finished, trace]

theorem log (hs : Delivered s) (me : Agent) (line : Line) : Delivered (s.log me line) := by
  refine hs.grow [] ?_ ?_ ?_ (List.append_nil _).symm rfl rfl
  all_goals simp [State.pushed, State.handled, State.finished, State.log, State.note]

theorem discard (hs : Delivered s) (as : List α) : Delivered (s.discard as) := by
  refine hs.grow [] ?_ ?_ ?_ (List.append_nil _).symm rfl rfl
  all_goals simp [State.pushed, State.handled, State.finished, State.discard]

theorem waiting_push (s : State α ρ) (ms : List (Message α)) : (s.push ms).waiting = s.waiting := by
  rw [State.push_eq]
  exact flatMap_of_map (s.map_roused ms _ fun th hst => by simp [hst])

theorem held_push (s : State α ρ) (ms : List (Message α)) : (s.push ms).held = s.held := by
  rw [State.push_eq]
  exact flatMap_of_map (s.map_roused ms _ fun th hst => by simp [hst])

theorem supply (hs : Delivered s) (me : Agent) (as : List α) :
    Delivered ((s.push (as.map .item)).note (.queued me as)) := by
  refine hs.grow as ?_ ?_ ?_ ?_ (waiting_push s _) (held_push s _)
  all_goals
    simp [State.push_eq, State.pushed, State.handled, State.finished, State.queued, State.note,
      List.filterMap_map, Function.comp_def, Message.item?]

theorem mark (hs : Delivered s) : Delivered (s.push [.stop]) := by
  refine hs.grow [] ?_ ?_ ?_ ?_ (waiting_push s _) (held_push s _)
  all_goals
    simp [State.push_eq, State.pushed, State.handled, State.finished, State.queued, Message.item?]

theorem setStage (hs : Delivered s) {t : Nat} {th : Thread α ρ} {stage : Stage α ρ}
    (ht : s.threads[t]? = some th) (waiting : stage.waiting = th.stage.waiting)
    (held : stage.held = th.stage.held) : Delivered (s.setStage t stage) :=
  hs.congr rfl rfl (flatMap_of_map (State.map_setStage ht _ waiting))
    (flatMap_of_map (State.map_setStage ht _ held))

end Delivered

theorem delivered_advances {h : Host α} {s s' : State α ρ} {me : Agent} {c : Cursor α}
    {p : Progress α} (hs : Delivered s) (here : s'.owner ≠ .gone)
    (step : Advances h s me c s' p) : Delivered s' := by
  cases step with
  | pushed batch => exact (hs.supply me batch).congr rfl rfl rfl rfl
  | marked p t => exact hs.mark.congr rfl rfl rfl rfl
  | spawned load refusal => exact hs.congr rfl rfl (by simp [State.waiting]) (by simp [State.held])
  | swept | sweptEarly | outliveSelf => exact absurd rfl here
  | reclaimSelf load t self => exact (hs.discard _).congr rfl rfl rfl rfl
  | left load r => exact (hs.discard _).congr rfl rfl rfl rfl
  | reclaimed | reclaimedDead | announced | awaited | outlived | outlivedDead => exact hs.log _ _
  | _ => exact hs.congr rfl rfl rfl rfl

theorem delivered_works {h : Host α} {s u : State α ρ} {ward : Option Nat} {marked : Bool}
    {t : Nat} {th : Thread α ρ} (hs : Delivered s) (staff : s.Staffed ward marked)
    (here : u.owner ≠ .gone) (ht : s.threads[t]? = some th) (hw : Works h s t th u) :
    Delivered u := by
  have alive := running_of_works hw
  cases hw with
  | start stage =>
      refine hs.congr rfl rfl (flatMap_of_map (map_set_of_eq ht _ ?_))
        (flatMap_of_map (map_set_of_eq ht _ ?_))
      all_goals rw [stage]; rfl
  | call a replies c rest s' p stage step =>
      have ht' : s'.threads[t]? = some th :=
        threads_advances step ht (by simp [stage]) (by simp [stage])
      have here' : s'.owner ≠ .gone := by cases p <;> exact here
      have hs' := delivered_advances hs here' step
      cases p with
      | «at» | answer => exact hs'.setStage ht' (by rw [stage]; rfl) (by rw [stage]; rfl)
      | unwind q =>
          have set : Delivered (s'.setStage t (.concluded a (some q))) :=
            hs'.setStage ht' (by rw [stage]; rfl) (by rw [stage]; rfl)
          exact set.congr rfl rfl rfl rfl
  | fetch a ms stage queue | halt ms stage queue =>
      refine delivered_setStage hs staff ht alive rfl ?_ ?_ <;>
        simp [stage, queue, State.pushed, State.handled, State.finished, State.queued,
          List.filterMap_cons, Message.item?]
  | skip a stage =>
      refine delivered_setStage hs staff ht alive rfl ?_ ?_ <;> cases h.disposal a <;>
        simp [stage, State.pushed, State.handled, State.finished, State.queued, State.discard,
          State.count, State.note]
  | letGo p stage =>
      refine delivered_setStage hs staff ht alive rfl ?_ ?_ <;> cases p.bind Payload.relic? <;>
        simp [stage, State.pushed, State.handled, State.finished, State.queued]
  | sleep stage | lack _ stage | begin _ _ stage | warn _ stage | finish _ _ stage
  | unwind _ _ _ stage | report _ _ _ _ stage | self _ _ _ stage | askGone _ _ _ _ stage
  | askDrop _ _ _ stage | ask _ _ _ _ _ stage | askNow _ _ _ _ _ stage | returned _ stage
  | caught _ _ stage | panicked _ _ stage | exit stage =>
      refine delivered_setStage hs staff ht alive rfl ?_ ?_ <;>
        simp [stage, State.pushed, State.handled, State.finished, State.queued, State.note,
          State.log, State.clock, State.count]

theorem delivered_step {h : Host α} {s u : State α ρ} {ward : Option Nat} {marked : Bool}
    {act : Act α ρ} (hs : Delivered s) (staff : s.Staffed ward marked) (here : u.owner ≠ .gone)
    (step : Step h s act u) : Delivered u := by
  cases step with
  | call | answer | drop | register | prefer | place => exact hs.congr rfl rfl rfl rfl
  | client i c s' p client step =>
      have here' : s'.owner ≠ .gone := here
      exact (delivered_advances hs here' step).congr rfl rfl rfl rfl
  | thread t th u thread step => exact delivered_works hs staff here thread step
  | release t th a replies rest thread stage | stir t th thread stage =>
      exact hs.setStage thread (by rw [stage]; rfl) (by rw [stage]; rfl)

theorem Attainable.delivered {h : Host α} {s : State α ρ} (ha : Attainable h s)
    (here : s.owner ≠ .gone) : Delivered s := by
  induction ha with
  | create settings callback clients => exact ⟨rfl, rfl⟩
  | next before step apart ih =>
      have step := step_of_next step
      have here' := here_of_turn before.locked (step_turn step) here
      obtain ⟨ward, marked, staff⟩ := (before.posed here').staffed
      exact delivered_step (ih here') staff here step

theorem Reachable.delivered {h : Host α} {s : State α ρ} (hr : Reachable h s)
    (here : s.owner ≠ .gone) : Delivered s := hr.attainable.delivered here

def Call.batch : Call α → List α
  | .send a => [a]
  | .sendAll as => as
  | _ => []

def Act.isRequestOf (i : Nat) : Act α ρ → Bool
  | .call j _ | .register j _ => j = i
  | _ => false

namespace Cursor

/-- What a call that stands here is still to queue. -/
def load : Cursor α → List α
  | .entering load | .ensuring load | .reclaiming load _ | .spawning load | .counting load _
  | .announcing load _ | .adopting load _ => load.getD []
  | .checking batch | .pushing batch => batch
  | _ => []

def pushes : Cursor α → List α
  | .pushing batch => batch
  | _ => []

end Cursor

/-- What a caller has pushed by the end of its call, going by what it had pushed before. -/
def Reply.total (r : Reply) (before batch : List α) : List α :=
  before ++ if r = .done then batch else []

def Cursor.Accounts (before batch now : List α) : Cursor α → Prop
  | .leaving _ r => now = r.total before batch
  | .abandoning .. => now = before
  | c => now = before ∧ c.load = batch

def Client.Accounts (before batch now : List α) : Client α ρ → Prop
  | .calling c => c.Accounts before batch now
  | .idle (some r) => now = r.total before batch
  | _ => False

theorem pushedBy_advances {h : Host α} {s s' : State α ρ} {me : Agent} {c : Cursor α}
    {p : Progress α} (step : Advances h s me c s' p) (who : Agent) :
    s'.pushedBy who = s.pushedBy who ++ if me = who then c.pushes else [] := by
  cases step with
  | pushed batch | marked p t =>
      simp [State.push_eq, State.pushedBy, State.note, Cursor.pushes]
  | left load r | reclaimSelf load t self =>
      simp [State.pushedBy, State.discard, State.joinSelf, Cursor.pushes]
  | swept all =>
      simp [State.pushedBy, State.discard, Cursor.pushes]
      rintro _ a _ _ _ rfl
      rfl
  | _ => simp [State.pushedBy, State.log, State.note, Cursor.pushes, State.joinSelf]

theorem clients_works {h : Host α} {s u : State α ρ} {t : Nat} {th : Thread α ρ}
    (hw : Works h s t th u) : u.clients = s.clients := by
  cases hw with
  | call a replies c rest s' p stage step =>
      rw [← clients_advances step]
      cases p <;> rfl
  | _ => rfl

theorem pushedBy_works {h : Host α} {s u : State α ρ} {t i : Nat} {th : Thread α ρ}
    (hw : Works h s t th u) : u.pushedBy (.client i) = s.pushedBy (.client i) := by
  cases hw with
  | call a replies c rest s' p stage step =>
      have := pushedBy_advances step (.client i)
      simp only [reduceCtorEq, if_false, List.append_nil] at this
      rw [← this]
      cases p <;> rfl
  | begin | warn | report | returned | caught | panicked | exit | skip =>
      simp [State.pushedBy, State.setStage, State.note, State.log, State.count, State.clock,
        State.letGo, State.discard]
  | _ => rfl

theorem accounts_advances {h : Host α} {s s' : State α ρ} {i : Nat} {c : Cursor α}
    {p : Progress α} {before batch : List α} (step : Advances h s (.client i) c s' p)
    (hc : c.Accounts before batch (s.pushedBy (.client i))) :
    (p.client : Client α ρ).Accounts before batch (s'.pushedBy (.client i)) := by
  rw [pushedBy_advances step]
  cases step with
  | reclaimSelf load t self | awaitSelf t self | outliveSelf t self => cases self
  | stopFound p t | stopMissed p | marked p t =>
      cases p <;> simp_all [Client.Accounts, Cursor.Accounts, Cursor.load, Cursor.pushes,
        Progress.client, Purpose.next, Reply.total]
  | _ =>
      simp_all [Client.Accounts, Cursor.Accounts, Cursor.load, Cursor.pushes, Progress.client,
        Reply.total]

theorem accounts_begin {s : State α ρ} {c : Call α} {k : Cursor α} (first : c.begin s = .at k)
    (now : List α) : k.Accounts now c.batch now := by
  cases c <;> cases first <;> exact ⟨rfl, rfl⟩

theorem accounts_answer {s : State α ρ} {c : Call α} {r : Reply} (first : c.begin s = .answer r)
    (now : List α) : now = r.total now c.batch := by
  cases c <;> cases first <;> simp [Reply.total]

theorem accounts_call {h : Host α} {s u : State α ρ} {i : Nat} {c : Call α}
    (step : Step h s (.call i c) u) : ∃ cl, u.clients[i]? = some cl ∧
      cl.Accounts (s.pushedBy (.client i)) c.batch (u.pushedBy (.client i)) := by
  cases step with
  | call i c k free other first =>
      obtain ⟨r, hi⟩ := State.idle_of_isFree free
      exact ⟨_, State.clients_setClient hi _, accounts_begin first _⟩
  | answer i c r free other first =>
      obtain ⟨r, hi⟩ := State.idle_of_isFree free
      exact ⟨_, State.clients_setClient hi _, accounts_answer first _⟩
  | drop i free quiet =>
      obtain ⟨r, hi⟩ := State.idle_of_isFree free
      exact ⟨_, State.clients_setClient hi _, rfl, rfl⟩

theorem accounts_step {h : Host α} {s u : State α ρ} {act : Act α ρ} {i : Nat}
    {cl : Client α ρ} {before batch : List α} (hi : s.clients[i]? = some cl)
    (ha : cl.Accounts before batch (s.pushedBy (.client i))) (other : act.isRequestOf i = false)
    (step : Step h s act u) : ∃ cl', u.clients[i]? = some cl' ∧
      cl'.Accounts before batch (u.pushedBy (.client i)) := by
  have set_ne {j : Nat} {c : Client α ρ} (hj : j ≠ i) :
      (s.clients.set j c)[i]? = some cl := by
    rw [List.getElem?_set_ne hj]; exact hi
  have ne {j : Nat} (hj : decide (j = i) = false) : j ≠ i := of_decide_eq_false hj
  cases step with
  | call j c k | answer j c r | drop j | register j f => exact ⟨cl, set_ne (ne other), ha⟩
  | prefer => exact ⟨cl, hi, ha⟩
  | client j c s' p client step =>
      by_cases hj : j = i
      · subst j
        rw [hi] at client
        cases client
        have hlt := (List.getElem?_eq_some_iff.mp hi).1
        have ha' := accounts_advances step ha
        refine ⟨p.client, ?_, ha'⟩
        rw [State.setClient, clients_advances step]
        exact List.getElem?_set_self hlt
      · refine ⟨cl, ?_, ?_⟩
        · rw [State.setClient, clients_advances step]
          exact set_ne hj
        · have same := pushedBy_advances step (.client i)
          rw [if_neg (fun he => hj (Agent.client.inj he)), List.append_nil] at same
          exact same ▸ ha
  | place j f client free =>
      by_cases hj : j = i
      · subst j
        rw [hi] at client
        cases client
        exact ha.elim
      · exact ⟨cl, set_ne hj, ha⟩
  | thread t th u thread step =>
      exact ⟨cl, (clients_works step) ▸ hi, (pushedBy_works step) ▸ ha⟩
  | release | stir => exact ⟨cl, hi, ha⟩

theorem accounts_run {h : Host α} {s u : State α ρ} {acts : List (Act α ρ)} {i : Nat}
    {cl : Client α ρ} {before batch : List α} (hi : s.clients[i]? = some cl)
    (ha : cl.Accounts before batch (s.pushedBy (.client i)))
    (others : ∀ act ∈ acts, act.isRequestOf i = false) (hs : s.run? h acts = some u) :
    ∃ cl', u.clients[i]? = some cl' ∧ cl'.Accounts before batch (u.pushedBy (.client i)) := by
  refine State.run?_keeps (P := fun v =>
    ∃ cl', v.clients[i]? = some cl' ∧ cl'.Accounts before batch (v.pushedBy (.client i)))
    ?_ hs ⟨cl, hi, ha⟩
  rintro v w act hm hw ⟨cl', hi', ha'⟩
  exact accounts_step hi' ha' (others act hm) (step_of_next hw)

theorem pushedBy_of_call {h : Host α} {s u : State α ρ} {i : Nat} {c : Call α}
    {acts : List (Act α ρ)} {r : Reply} (hs : s.run? h (.call i c :: acts) = some u)
    (others : ∀ act ∈ acts, act.isRequestOf i = false)
    (hr : u.clients[i]? = some (.idle (some r))) :
    u.pushedBy (.client i) = r.total (s.pushedBy (.client i)) c.batch := by
  obtain ⟨v, hv, hu⟩ := Option.bind_eq_some_iff.mp hs
  obtain ⟨cl, hi, ha⟩ := accounts_call (step_of_next hv)
  obtain ⟨cl', hi', ha'⟩ := accounts_run hi ha others hu
  rw [hr] at hi'
  cases hi'
  exact ha'

theorem flatMap_of_nobody {β : Type} {s : State α ρ} (nobody : ∀ t, ¬ s.IsAlive t)
    (f : Stage α ρ → List β) (hf : ∀ st : Stage α ρ, st.grade.hasEnded = true → f st = []) :
    s.threads.flatMap (fun th => f th.stage) = [] := by
  apply List.flatMap_eq_nil_iff.mpr
  intro th hm
  obtain ⟨t, ht⟩ := List.mem_iff_getElem?.mp hm
  apply hf
  cases he : th.stage.grade.hasEnded with
  | true => rfl
  | false => exact absurd (State.isAlive_iff.mpr ⟨_, State.grades_of_thread ht, he⟩) (nobody t)

theorem held_of_nobody {s : State α ρ} (nobody : ∀ t, ¬ s.IsAlive t) : s.held = [] :=
  flatMap_of_nobody nobody Stage.held held_of_ended

theorem waiting_of_nobody {s : State α ρ} (nobody : ∀ t, ¬ s.IsAlive t) : s.waiting = [] :=
  flatMap_of_nobody nobody Stage.waiting waiting_of_ended

theorem finished_of_staffed {s : State α ρ} (hs : Delivered s) (unhurt : s.IsUnhurt)
    (staff : s.Staffed none true) :
    s.queue = [] ∧ s.pushed = s.finished ∧ ∀ t, ¬ s.IsAlive t := by
  obtain ⟨ended, queue⟩ := State.orderly_idle staff (State.dead_of_isUnhurt unhurt)
  refine ⟨queue, ?_, ended⟩
  have := hs.finished
  rwa [held_of_nobody ended, State.queued, queue, List.filterMap_nil, List.append_nil,
    List.append_nil] at this

theorem held_length_le {s : State α ρ} {ward : Option Nat} {marked : Bool}
    (staff : s.Staffed ward marked) : s.held.length ≤ 1 := by
  by_cases alive : ∃ t, s.IsAlive t
  · obtain ⟨t, th, ht, he⟩ := alive
    have working : th.stage.grade.hasEnded = false := by rw [Stage.hasEnded_grade, he]; rfl
    have hh := (flatMap_of_alive staff ht working th.stage Stage.held held_of_ended).1
    rw [State.held, hh]
    cases th.stage <;> simp
  · rw [held_of_nobody fun t ht => alive ⟨t, ht⟩]
    simp

/-- Whatever the clients, the threads and the system do, and however often threads are stopped and
started again, no item is lost, doubled or moved before another. A call adds its items when it
succeeds, and none when it fails. -/
theorem delivery_exactly_once {h : Host α} {s : State α ρ} (hr : Reachable h s)
    (here : s.owner ≠ .gone) :
    s.pushed = s.handled ++ s.waiting ++ s.queued ∧
      s.pushed = s.finished ++ s.held ++ s.queued ∧ s.held.length ≤ 1 ∧
      ∀ i c acts u r, s.run? h (.call i c :: acts) = some u →
        (∀ act ∈ acts, act.isRequestOf i = false) → u.clients[i]? = some (.idle (some r)) →
        u.pushedBy (.client i) = s.pushedBy (.client i) ++ if r = .done then c.batch else [] := by
  obtain ⟨ward, marked, staff⟩ := (hr.posed here).staffed
  refine ⟨(hr.delivered here).handled, (hr.delivered here).finished, held_length_le staff, ?_⟩
  intro i c acts u r hs others idle
  exact pushedBy_of_call hs others idle

def sendBehindItem : List (Act Nat Unit) :=
  .call 0 (.send 5) :: (List.replicate 9 (.client 0) ++ List.replicate 3 (.thread 0) ++
    .call 1 (.sendAll [6, 7]) :: List.replicate 5 (.client 1))

theorem delivery_sendBehindItem :
    ∃ s, (State.create {} (some fun _ _ => .finish) 2).run? Host.calm sendBehindItem = some s ∧
      s.handled = [5] ∧ s.held = [5] ∧ s.queued = [6, 7] ∧
      s.pushed = s.handled ++ s.waiting ++ s.queued ∧
      s.pushed = s.finished ++ s.held ++ s.queued ∧ s.pushedBy (.client 0) = [5] := by
  have modest : ∀ f : Callback Nat Unit, some (fun _ _ => .finish) = some f →
      Callback.Modest f := by
    rintro f ⟨⟩
    exact fun _ _ => trivial
  have hp : ((State.create {} (some fun _ _ => .finish) 2).run? Host.calm sendBehindItem).any
      (fun s => s.owner = .shared && s.handled = [5] && s.held = [5] && s.queued = [6, 7] &&
        s.clients[0]?.any (Client.hasReply .done)) = true := by decide
  obtain ⟨s, hs, hr, hp⟩ := Reachable.of_run hp modest (by simp [sendBehindItem, Act.Modest])
  simp only [Bool.and_eq_true, decide_eq_true_eq] at hp
  obtain ⟨⟨⟨⟨shared, handled⟩, held⟩, queued⟩, idle⟩ := hp
  obtain ⟨first, second, -⟩ :=
    delivery_exactly_once hr (by rw [shared]; exact Owner.noConfusion)
  obtain ⟨-, -, -, calls⟩ := delivery_exactly_once
    (Reachable.create (h := Host.calm) {} (some fun _ _ => .finish) 2 modest) Owner.noConfusion
  refine ⟨s, hs, handled, held, queued, first, second, ?_⟩
  exact calls 0 _ _ s _ hs (by simp [Act.isRequestOf]) (Client.eq_of_hasReply idle)

end QueueWorker.Worker
