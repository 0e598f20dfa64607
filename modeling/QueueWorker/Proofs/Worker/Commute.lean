import QueueWorker.Proofs.Worker.Secluded
import QueueWorker.Proofs.Worker.Tally
import QueueWorker.Proofs.Worker.Waiting

namespace QueueWorker.Worker

variable {α ρ : Type}

/-- What a client finds of a worker, but for the threads and the queue, is the same in both
states. -/
structure SameDesk (s u : State α ρ) : Prop where
  phase : u.phase = s.phase
  lifecycle : u.lifecycle = s.lifecycle
  guard : u.guard = s.guard
  owner : u.owner = s.owner
  attempts : u.attempts = s.attempts
  clients : u.clients = s.clients
  settings : u.settings = s.settings

def Stage.rested : Stage α ρ → Stage α ρ
  | .sleeping => .polling
  | st => st

def Thread.rested (th : Thread α ρ) : Thread α ρ := { th with stage := th.stage.rested }

theorem Thread.rested_of_awake {th : Thread α ρ} (awake : th.stage.isSleeping = false) :
    th.rested = th := by
  obtain ⟨priority, standing, stage⟩ := th
  cases stage <;> first | rfl | cases awake

/-- The second state is as the first one for the threads, but for some messages at the end of the
queue, some new threads and so many more spawns counted. What has happened beyond the outcomes is
left open. -/
structure Extends (ms : List (Message α)) (new : List (Thread α ρ)) (n : UInt64)
    (s u : State α ρ) : Prop where
  queue : u.queue = s.queue ++ ms
  threads : u.threads.map Thread.rested = (s.threads ++ new).map Thread.rested
  slot : u.slot = s.slot
  settings : u.settings = s.settings
  rounds : u.rounds = s.rounds
  stats : u.stats = s.stats.add .spawned n
  outcomes : u.outcomes = s.outcomes

namespace Extends

variable {ms : List (Message α)} {new : List (Thread α ρ)} {n : UInt64} {s u : State α ρ}

theorem note (he : Extends ms new n s u) {e e' : Entry α ρ} (same : e'.outcome? = e.outcome?) :
    Extends ms new n (s.note e) (u.note e') := by
  refine ⟨he.queue, he.threads, he.slot, he.settings, he.rounds, he.stats, ?_⟩
  have := he.outcomes
  simp only [State.outcomes] at this
  simp [State.outcomes, State.note, this, List.filterMap_cons, same]

theorem log (he : Extends ms new n s u) (me : Agent) (line line' : Line) :
    Extends ms new n (s.log me line) (u.log me line') :=
  he.note rfl

theorem discard (he : Extends ms new n s u) (as : List α) :
    Extends ms new n (s.discard as) (u.discard as) := by
  refine ⟨he.queue, he.threads, he.slot, he.settings, he.rounds, he.stats, ?_⟩
  rw [State.outcomes_discard, State.outcomes_discard]
  exact he.outcomes

theorem clock (he : Extends ms new n s u) (h : Host α) :
    Extends ms new n (s.clock h) (u.clock h) := by
  refine ⟨he.queue, he.threads, he.slot, he.settings, congrArg (· + 1) he.rounds, ?_, he.outcomes⟩
  simp only [State.clock, he.stats, he.rounds]
  rfl

theorem count (he : Extends ms new n s u) (t : Nat) (a : α) (o : Outcome) :
    Extends ms new n (s.count t a o) (u.count t a o) := by
  have counted : Extends ms new n { s with stats := s.stats.add o.counter 1 }
      { u with stats := u.stats.add o.counter 1 } := by
    refine ⟨he.queue, he.threads, he.slot, he.settings, he.rounds, ?_, he.outcomes⟩
    simp only [he.stats]
    cases o <;> rfl
  exact counted.note rfl

theorem reslot (he : Extends ms new n s u) (slot : Slot α ρ) :
    Extends ms new n { s with slot } { u with slot } :=
  ⟨he.queue, he.threads, rfl, he.settings, he.rounds, he.stats, he.outcomes⟩

theorem dequeue (he : Extends ms new n s u) (q : List (Message α)) :
    Extends ms new n { s with queue := q } { u with queue := q ++ ms } :=
  ⟨rfl, he.threads, he.slot, he.settings, he.rounds, he.stats, he.outcomes⟩

theorem set (he : Extends ms new n s u) {t : Nat} {th : Thread α ρ}
    (ht : s.threads[t]? = some th) (x : Thread α ρ) :
    Extends ms new n { s with threads := s.threads.set t x }
      { u with threads := u.threads.set t x } := by
  refine ⟨he.queue, ?_, he.slot, he.settings, he.rounds, he.stats, he.outcomes⟩
  have hlt := (List.getElem?_eq_some_iff.mp ht).1
  calc (u.threads.set t x).map Thread.rested
      = (u.threads.map Thread.rested).set t x.rested := List.map_set
    _ = ((s.threads ++ new).map Thread.rested).set t x.rested := by rw [he.threads]
    _ = ((s.threads ++ new).set t x).map Thread.rested := List.map_set.symm
    _ = (s.threads.set t x ++ new).map Thread.rested := by rw [List.set_append_left _ _ hlt]

theorem setStage (he : Extends ms new n s u) {t : Nat} {th : Thread α ρ}
    (ht : s.threads[t]? = some th) (hu : u.threads[t]? = some th) (stage : Stage α ρ) :
    Extends ms new n (s.setStage t stage) (u.setStage t stage) := by
  have := he.set ht { th with stage }
  simpa only [State.setStage, modify_of_getElem? ht, modify_of_getElem? hu] using this

theorem conclude (he : Extends ms new n s u) {t : Nat} {th : Thread α ρ}
    (ht : s.threads[t]? = some th) (hu : u.threads[t]? = some th) (a : α) (replies : List Reply)
    (o : Option Payload) :
    Extends ms new n (s.conclude t a replies o) (u.conclude t a replies o) := by
  rw [State.conclude, State.conclude, he.slot]
  exact (he.reslot (s.slot.visited ⟨a, replies⟩)).setStage ht hu _

theorem letGo (he : Extends ms new n s u) {t : Nat} {th : Thread α ρ}
    (ht : s.threads[t]? = some th) (hu : u.threads[t]? = some th) (relic : Option Payload) :
    Extends ms new n (s.letGo t relic) (u.letGo t relic) := by
  unfold State.letGo
  rw [he.slot]
  exact (he.reslot { s.slot with holder := none }).setStage ht hu _

theorem thread (he : Extends ms new n s u) (watchful : Watchful u) {t : Nat} {th : Thread α ρ}
    (ht : s.threads[t]? = some th) (awake : th.stage.isSleeping = false)
    (busy : th.stage = .polling → s.queue ≠ []) : u.threads[t]? = some th := by
  have hlt := (List.getElem?_eq_some_iff.mp ht).1
  have view := congrArg (fun l => l[t]?) he.threads
  simp only [List.getElem?_map, List.getElem?_append_left hlt, ht, Option.map_some,
    Thread.rested_of_awake awake] at view
  obtain ⟨th', ht', same⟩ := Option.map_eq_some_iff.mp view
  cases asleep : th'.stage.isSleeping with
  | false => rw [ht', ← same, Thread.rested_of_awake asleep]
  | true =>
      have empty := he.queue.symm.trans (watchful t th' ht' asleep)
      refine absurd (List.append_eq_nil_iff.mp empty).1 (busy ?_)
      rw [← same]
      obtain ⟨priority, standing, stage⟩ := th'
      cases stage <;> first | rfl | cases asleep

end Extends

theorem desk_of_works {h : Host α} {s u : State α ρ} {t : Nat} {th : Thread α ρ}
    (aloof : th.stage.Aloof) (hw : Works h s t th u) : SameDesk s u := by
  cases hw with
  | askGone _ _ _ _ stage | askDrop _ _ _ stage | ask _ _ _ _ _ stage | askNow _ _ _ _ _ stage
  | call _ _ _ _ _ _ stage => rw [stage] at aloof; exact aloof.elim
  | _ => exact ⟨rfl, rfl, rfl, rfl, rfl, rfl, rfl⟩

theorem works_extends {h : Host α} {s s' u : State α ρ} {t : Nat} {th : Thread α ρ}
    {ms : List (Message α)} {new : List (Thread α ρ)} {n : UInt64} (he : Extends ms new n s u)
    (ht : s.threads[t]? = some th) (hu : u.threads[t]? = some th) (aloof : th.stage.Aloof)
    (busy : th.stage = .polling → s.queue ≠ []) (hw : Works h s t th s') :
    ∃ u', Works h u t th u' ∧ Extends ms new n s' u' := by
  cases hw with
  | start stage => exact ⟨_, .start stage, he.set ht _⟩
  | sleep stage queue => exact absurd queue (busy stage)
  | fetch a q stage queue =>
      have queue' : u.queue = .item a :: (q ++ ms) := by rw [he.queue, queue]; rfl
      exact ⟨_, .fetch a _ stage queue', (he.dequeue q).setStage ht hu _⟩
  | halt q stage queue =>
      have queue' : u.queue = .stop :: (q ++ ms) := by rw [he.queue, queue]; rfl
      exact ⟨_, .halt _ stage queue', (he.dequeue q).setStage ht hu _⟩
  | lack a stage free callback =>
      refine ⟨_, .lack a stage (he.slot ▸ free) (he.slot ▸ callback), ?_⟩
      rw [he.slot]
      exact (he.reslot { s.slot with holder := some t }).setStage ht hu _
  | begin a f stage free callback =>
      refine ⟨_, .begin a f stage (he.slot ▸ free) (he.slot ▸ callback), ?_⟩
      rw [he.slot]
      exact ((he.reslot { s.slot with holder := some t }).note rfl).setStage ht hu _
  | warn a stage => exact ⟨_, .warn a stage, (he.log _ _ _).setStage ht hu _⟩
  | skip a stage =>
      exact ⟨_, .skip a stage, ((he.count t a _).discard _).letGo ht hu _⟩
  | finish a replies stage => exact ⟨_, .finish a replies stage, he.conclude ht hu _ _ _⟩
  | unwind a replies p stage => exact ⟨_, .unwind a replies p stage, he.conclude ht hu _ _ _⟩
  | report a replies e rest stage =>
      exact ⟨_, .report a replies e rest stage, (he.note rfl).setStage ht hu _⟩
  | self a replies rest stage =>
      refine ⟨_, .self a replies rest stage, ?_⟩
      rw [he.settings]
      exact he.setStage ht hu _
  | askGone _ _ _ _ stage | askDrop _ _ _ stage | ask _ _ _ _ _ stage | askNow _ _ _ _ _ stage
  | call _ _ _ _ _ _ stage => rw [stage] at aloof; exact aloof.elim
  | returned a stage =>
      exact ⟨_, .returned a stage, ((he.clock h).count t a _).setStage ht hu _⟩
  | caught a p stage =>
      exact ⟨_, .caught a p stage, ((he.clock h).log _ _ _).setStage ht hu _⟩
  | panicked a p stage => exact ⟨_, .panicked a p stage, (he.count t a _).setStage ht hu _⟩
  | letGo p stage =>
      exact ⟨_, .letGo p stage, he.letGo ht hu _⟩
  | exit stage => exact ⟨_, .exit stage, (he.log _ _ _).setStage ht hu _⟩

def Cursor.supplies : Cursor α → List (Message α)
  | .pushing batch => batch.map .item
  | .marking .. => [.stop]
  | _ => []

def State.hires (h : Host α) (s : State α ρ) : Cursor α → List (Thread α ρ)
  | .spawning _ => if h.refusal s.attempts = none then [{ priority := s.settings.priority }] else []
  | _ => []

def Cursor.tells : Cursor α → UInt64
  | .counting .. => 1
  | _ => 0

theorem Extends.of_eq {s u : State α ρ} (queue : u.queue = s.queue)
    (threads : u.threads.map Thread.rested = s.threads.map Thread.rested) (slot : u.slot = s.slot)
    (settings : u.settings = s.settings) (rounds : u.rounds = s.rounds) (stats : u.stats = s.stats)
    (outcomes : u.outcomes = s.outcomes) : Extends [] [] 0 s u := by
  refine ⟨by simpa using queue, by simp [threads], slot, settings, rounds, ?_, outcomes⟩
  rw [stats]
  simp [Stats.add, Stats.alter]

theorem Extends.of_push (s : State α ρ) (ms : List (Message α)) :
    Extends ms [] 0 s (s.push ms) := by
  rw [State.push_eq]
  refine ⟨rfl, ?_, rfl, rfl, rfl, by simp [Stats.add, Stats.alter], rfl⟩
  rw [List.append_nil]
  exact s.map_roused ms Thread.rested (fun th hst => by simp [Thread.rested, hst, Stage.rested])

theorem advances_extends {h : Host α} {s s' : State α ρ} {me : Agent} {c : Cursor α}
    {p : Progress α} (step : Advances h s me c s' p) (hc : c ≠ .sweeping) :
    Extends c.supplies (s.hires h c) c.tells s s' := by
  cases step with
  | swept | sweptEarly => exact absurd rfl hc
  | pushed batch =>
      have he := Extends.of_push s (batch.map .item)
      refine ⟨he.queue, he.threads, he.slot, he.settings, he.rounds, he.stats, ?_⟩
      rw [← he.outcomes]
      simp [State.outcomes, State.note, Entry.outcome?, List.filterMap_cons]
  | marked q t =>
      have he := Extends.of_push s [.stop]
      exact ⟨he.queue, he.threads, he.slot, he.settings, he.rounds, he.stats, he.outcomes⟩
  | spawned load refusal =>
      refine ⟨(List.append_nil _).symm, ?_, rfl, rfl, rfl, ?_, rfl⟩
      · simp [State.hires, refusal]
      · simp [Cursor.tells, Stats.add, Stats.alter]
  | refused load e refusal =>
      have none : s.hires h (.spawning load) = [] := by simp [State.hires, refusal]
      rw [none]
      exact .of_eq rfl rfl rfl rfl rfl rfl rfl
  | counted load t =>
      exact ⟨(List.append_nil _).symm, by simp [State.hires], rfl, rfl, rfl, rfl, rfl⟩
  | _ =>
      refine .of_eq rfl rfl rfl rfl rfl rfl ?_
      simp [State.outcomes, State.log, State.note, State.discard, State.joinSelf, Entry.outcome?]

theorem advances_of_desk {h : Host α} {s s' s₁ : State α ρ} {i : Nat} {c : Cursor α}
    {p : Progress α} (desk : SameDesk s s₁) (length : s₁.threads.length = s.threads.length)
    (ended : ∀ t e, s.end? t = some e → s₁.end? t = some e)
    (step : Advances h s (.client i) c s' p) (hc : c ≠ .sweeping) (hc' : c ≠ .readingLength) :
    ∃ s₁', Advances h s₁ (.client i) c s₁' p ∧ SameDesk s' s₁' := by
  cases step with
  | enter load free =>
      exact ⟨_, .enter load (desk.lifecycle.trans free), { desk with lifecycle := rfl }⟩
  | ready t free phase =>
      exact ⟨_, .ready t (desk.guard.trans free) (desk.phase.trans phase), desk⟩
  | loaded t batch free phase =>
      exact ⟨_, .loaded t batch (desk.guard.trans free) (desk.phase.trans phase), desk⟩
  | reclaim load t free phase =>
      exact ⟨_, .reclaim load t (desk.guard.trans free) (desk.phase.trans phase),
        { desk with phase := rfl }⟩
  | vacate load free phase =>
      exact ⟨_, .vacate load (desk.guard.trans free) (by rw [desk.phase]; exact phase),
        { desk with phase := rfl }⟩
  | reclaimSelf load t self | awaitSelf t self | outliveSelf t self => cases self
  | reclaimed load t other end' =>
      exact ⟨_, .reclaimed load t other (ended t _ end'), { desk with }⟩
  | reclaimedDead load t e other end' =>
      exact ⟨_, .reclaimedDead load t e other (ended t _ end'), { desk with }⟩
  | refused load e refusal =>
      have step : Advances h s₁ (.client i) (.spawning load) _ _ :=
        .refused load e (desk.attempts ▸ refusal)
      rw [desk.settings] at step
      exact ⟨_, step, { desk with attempts := congrArg (· + 1) desk.attempts, settings := rfl }⟩
  | spawned load refusal =>
      have step : Advances h s₁ (.client i) (.spawning load) _ _ :=
        .spawned load (desk.attempts ▸ refusal)
      rw [length] at step
      exact ⟨_, step, { desk with attempts := congrArg (· + 1) desk.attempts }⟩
  | counted load t => exact ⟨_, .counted load t, { desk with }⟩
  | announced load t th thread =>
      have hlt := (List.getElem?_eq_some_iff.mp thread).1
      exact ⟨_, .announced load t _ (List.getElem?_eq_getElem (length ▸ hlt)), { desk with }⟩
  | adopted t free =>
      exact ⟨_, .adopted t (desk.guard.trans free), { desk with phase := rfl }⟩
  | adoptedLoaded t batch free =>
      exact ⟨_, .adoptedLoaded t batch (desk.guard.trans free), { desk with phase := rfl }⟩
  | abandoned load f free =>
      exact ⟨_, .abandoned load f (desk.guard.trans free), { desk with phase := rfl }⟩
  | found batch t free phase =>
      exact ⟨_, .found batch t (desk.guard.trans free) (desk.phase.trans phase),
        { desk with guard := rfl }⟩
  | missed batch free phase =>
      exact ⟨_, .missed batch (desk.guard.trans free) (desk.phase.symm ▸ phase), desk⟩
  | pushed batch =>
      refine ⟨_, .pushed batch, ?_⟩
      rw [State.push_eq, State.push_eq]
      exact { desk with guard := rfl }
  | left load r => exact ⟨_, .left load r, { desk with lifecycle := rfl }⟩
  | stopFound q t free phase =>
      exact ⟨_, .stopFound q t (desk.guard.trans free) (desk.phase.trans phase),
        { desk with guard := rfl }⟩
  | stopMissed q free phase =>
      exact ⟨_, .stopMissed q (desk.guard.trans free) (desk.phase.symm ▸ phase), desk⟩
  | marked q t =>
      refine ⟨_, .marked q t, ?_⟩
      rw [State.push_eq, State.push_eq]
      exact { desk with phase := rfl, guard := rfl }
  | enterJoin free =>
      exact ⟨_, .enterJoin (desk.lifecycle.trans free), { desk with lifecycle := rfl }⟩
  | taken t free phase =>
      exact ⟨_, .taken t (desk.guard.trans free) (desk.phase.trans phase),
        { desk with phase := rfl }⟩
  | takenNone free phase =>
      exact ⟨_, .takenNone (desk.guard.trans free) (desk.phase.symm ▸ phase), desk⟩
  | awaited t other end' => exact ⟨_, .awaited t other (ended t _ end'), { desk with }⟩
  | awaitedDead t e other end' =>
      have step : Advances h s₁ (.client i) (.awaiting t) _ _ :=
        .awaitedDead t e other (ended t _ end')
      rw [State.joinFault, desk.settings] at step
      exact ⟨_, step, desk⟩
  | settled r free => exact ⟨_, .settled r (desk.guard.trans free), { desk with phase := rfl }⟩
  | retired t phase => exact ⟨_, .retired t (desk.phase.trans phase), { desk with phase := rfl }⟩
  | retiredNone phase => exact ⟨_, .retiredNone (desk.phase.symm ▸ phase), desk⟩
  | outlived t other end' => exact ⟨_, .outlived t other (ended t _ end'), { desk with }⟩
  | outlivedDead t e other end' =>
      exact ⟨_, .outlivedDead t e other (ended t _ end'), { desk with }⟩
  | swept | sweptEarly => exact absurd rfl hc
  | status free =>
      have step : Advances h s₁ (.client i) .readingStatus _ _ := .status (desk.guard.trans free)
      rw [desk.phase] at step
      exact ⟨_, step, desk⟩
  | length => exact absurd rfl hc'

/-- Nobody can tell the two states apart, but for what has been logged and for who sleeps. -/
structure Same (s u : State α ρ) : Prop where
  desk : SameDesk s u
  work : Extends [] [] 0 s u

namespace SameDesk

variable {s u v : State α ρ}

theorem refl (s : State α ρ) : SameDesk s s := ⟨rfl, rfl, rfl, rfl, rfl, rfl, rfl⟩

theorem symm (h : SameDesk s u) : SameDesk u s :=
  ⟨h.phase.symm, h.lifecycle.symm, h.guard.symm, h.owner.symm, h.attempts.symm, h.clients.symm,
    h.settings.symm⟩

theorem trans (h : SameDesk s u) (h' : SameDesk u v) : SameDesk s v :=
  ⟨h'.phase.trans h.phase, h'.lifecycle.trans h.lifecycle, h'.guard.trans h.guard,
    h'.owner.trans h.owner, h'.attempts.trans h.attempts, h'.clients.trans h.clients,
    h'.settings.trans h.settings⟩

end SameDesk

namespace Extends

variable {ms : List (Message α)} {new : List (Thread α ρ)} {n : UInt64} {s s₁ u u₁ : State α ρ}

theorem refl (s : State α ρ) : Extends [] [] 0 s s := .of_eq rfl rfl rfl rfl rfl rfl rfl

theorem stats_eq (h : Extends [] [] 0 s u) : u.stats = s.stats := by
  rw [h.stats]
  simp [Stats.add, Stats.alter]

theorem symm (h : Extends [] [] 0 s u) : Extends [] [] 0 u s := by
  refine ⟨by simpa using h.queue.symm, by simpa using h.threads.symm, h.slot.symm, h.settings.symm,
    h.rounds.symm, ?_, h.outcomes.symm⟩
  rw [h.stats_eq]
  simp [Stats.add, Stats.alter]

theorem congr (h : Extends [] [] 0 s s₁) (he : Extends ms new n s u)
    (he₁ : Extends ms new n s₁ u₁) : Extends [] [] 0 u u₁ := by
  refine ⟨?_, ?_, ?_, ?_, ?_, ?_, ?_⟩
  · rw [he₁.queue, he.queue, h.queue, List.append_nil, List.append_nil]
  · have := h.threads
    rw [List.append_nil] at this
    rw [List.append_nil, he₁.threads, he.threads, List.map_append, List.map_append, this]
  · rw [he₁.slot, he.slot, h.slot]
  · rw [he₁.settings, he.settings, h.settings]
  · rw [he₁.rounds, he.rounds, h.rounds]
  · rw [he₁.stats, he.stats, h.stats_eq]
    simp [Stats.add, Stats.alter]
  · rw [he₁.outcomes, he.outcomes, h.outcomes]

theorem length (h : Extends [] [] 0 s u) : u.threads.length = s.threads.length := by
  simpa using congrArg List.length h.threads

theorem rested (h : Extends [] [] 0 s u) :
    u.threads.map Thread.rested = s.threads.map Thread.rested := by
  simpa using h.threads

end Extends

theorem Stage.end?_rested (st : Stage α ρ) : st.rested.end? = st.end? := by cases st <;> rfl

theorem Extends.end? {s u : State α ρ} (h : Extends [] [] 0 s u) (t : Nat) :
    u.end? t = s.end? t := by
  have view (v : State α ρ) :
      v.end? t = ((v.threads.map Thread.rested)[t]?).bind (fun th => th.stage.end?) := by
    rw [State.end?, List.getElem?_map]
    cases v.threads[t]? with
    | none => rfl
    | some th => exact (Stage.end?_rested th.stage).symm
  rw [view, view, h.rested]

namespace Same

variable {s u v : State α ρ}

theorem refl (s : State α ρ) : Same s s := ⟨.refl s, .refl s⟩

theorem symm (h : Same s u) : Same u s := ⟨h.desk.symm, h.work.symm⟩

theorem trans (h : Same s u) (h' : Same u v) : Same s v :=
  ⟨h.desk.trans h'.desk, (Extends.refl u).congr h.work.symm h'.work⟩

end Same

theorem SameDesk.begin {s s₁ : State α ρ} (desk : SameDesk s s₁) (c : Call α) :
    c.begin s₁ = c.begin s := by
  cases c <;> simp [Call.begin, desk.settings]

theorem SameDesk.isFree {s s₁ : State α ρ} (desk : SameDesk s s₁) (i : Nat) :
    s₁.isFree i = s.isFree i := by
  rw [State.isFree, State.isFree, desk.owner, desk.clients]

theorem SameDesk.setClient {s s₁ : State α ρ} (desk : SameDesk s s₁) (i : Nat) (cl : Client α ρ) :
    SameDesk (s.setClient i cl) (s₁.setClient i cl) :=
  { desk with clients := by rw [State.setClient, State.setClient, desk.clients] }

theorem call_of_desk {h : Host α} {s s₁ u : State α ρ} {i : Nat} {c : Call α}
    (desk : SameDesk s s₁) (hs : Secluded s) (hs₁ : Secluded s₁) (step : Step h s (.call i c) u) :
    ∃ u₁, Step h s₁ (.call i c) u₁ ∧ SameDesk u u₁ ∧ Extends [] [] 0 s u ∧
      Extends [] [] 0 s₁ u₁ := by
  have same (s : State α ρ) (cl : Client α ρ) (owner : Owner) :
      Extends [] [] 0 s ({ s with owner }.setClient i cl) := .of_eq rfl rfl rfl rfl rfl rfl rfl
  cases step with
  | call i c k free other first =>
      exact ⟨_, .call i c k (desk.isFree i ▸ free) other ((desk.begin c).trans first),
        desk.setClient i _, same s _ _, same s₁ _ _⟩
  | answer i c r free other first =>
      exact ⟨_, .answer i c r (desk.isFree i ▸ free) other ((desk.begin c).trans first),
        desk.setClient i _, same s _ _, same s₁ _ _⟩
  | drop i free quiet =>
      have quiet₁ : s₁.isQuiet := by
        rw [hs₁.isQuiet_eq, desk.clients, ← hs.isQuiet_eq]
        exact quiet
      have desk' : SameDesk { s with owner := .dropping } { s₁ with owner := .dropping } :=
        { desk with owner := rfl }
      exact ⟨_, .drop i (desk.isFree i ▸ free) quiet₁, desk'.setClient i _, same s _ _, same s₁ _ _⟩

theorem State.hires_of_desk {s s₁ : State α ρ} (h : Host α) (desk : SameDesk s s₁)
    (c : Cursor α) : s₁.hires h c = s.hires h c := by
  cases c <;> simp [State.hires, desk.attempts, desk.settings]

theorem client_of_desk {h : Host α} {s s₁ u : State α ρ} {i : Nat} {c : Cursor α}
    (desk : SameDesk s s₁) (length : s₁.threads.length = s.threads.length)
    (ended : ∀ t e, s.end? t = some e → s₁.end? t = some e)
    (hi : s.clients[i]? = some (.calling c)) (hc : c ≠ .sweeping) (hc' : c ≠ .readingLength)
    (step : Step h s (.client i) u) :
    ∃ u₁, Step h s₁ (.client i) u₁ ∧ SameDesk u u₁ ∧
      Extends c.supplies (s.hires h c) c.tells s u ∧
      Extends c.supplies (s.hires h c) c.tells s₁ u₁ := by
  cases step with
  | place i f client => cases hi.symm.trans client
  | client i c s' p client step =>
      cases hi.symm.trans client
      obtain ⟨s₁', step₁, desk'⟩ := advances_of_desk desk length ended step hc hc'
      have he := advances_extends step hc
      have he₁ := advances_extends step₁ hc
      rw [State.hires_of_desk h desk] at he₁
      exact ⟨_, .client i c s₁' p (desk.clients ▸ hi) step₁, desk'.setClient i _,
        ⟨he.queue, he.threads, he.slot, he.settings, he.rounds, he.stats, he.outcomes⟩,
        ⟨he₁.queue, he₁.threads, he₁.slot, he₁.settings, he₁.rounds, he₁.stats, he₁.outcomes⟩⟩

theorem sweep_of_same {h : Host α} {s s₁ u : State α ρ} {i : Nat} (same : Same s s₁)
    (hi : s.clients[i]? = some (.calling .sweeping)) (step : Step h s (.client i) u) :
    ∃ u₁, Step h s₁ (.client i) u₁ ∧ Same u u₁ := by
  have hi₁ : s₁.clients[i]? = some (.calling .sweeping) := by rw [same.desk.clients]; exact hi
  have view (v : State α ρ) : v.threads.all (fun th => th.stage.end?.isSome) =
      (v.threads.map Thread.rested).all (fun th => th.stage.end?.isSome) := by
    simp [List.all_map, Function.comp_def, Thread.rested, Stage.end?_rested]
  have all : s₁.threads.all (fun th => th.stage.end?.isSome) =
      s.threads.all (fun th => th.stage.end?.isSome) := by
    rw [view, view, same.work.rested]
  cases step with
  | place i f client => cases hi.symm.trans client
  | client i c s' p client step =>
      cases hi.symm.trans client
      cases step with
      | swept ended =>
          have desk (as bs : List α) :
              SameDesk (State.discard { s with owner := .gone, queue := [] } as)
                (State.discard { s₁ with owner := .gone, queue := [] } bs) :=
            { same.desk with owner := rfl }
          have work : Extends [] [] 0 { s with owner := .gone, queue := [] }
              { s₁ with owner := .gone, queue := [] } := { same.work with queue := rfl }
          have work := work.discard (s.queue.filterMap Message.item?)
          refine ⟨_, .client i _ _ _ hi₁ (.swept (all.trans ended)), (desk _ _).setClient i _, ?_⟩
          rw [same.work.queue, List.append_nil]
          exact { work with }
      | sweptEarly alive =>
          have desk : SameDesk { s with owner := .gone } { s₁ with owner := .gone } :=
            { same.desk with owner := rfl }
          exact ⟨_, .client i _ _ _ hi₁ (.sweptEarly (all.trans alive)), desk.setClient i _,
            { same.work with }⟩

end QueueWorker.Worker
