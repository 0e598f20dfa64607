import QueueWorker.Proofs.Worker.Drain

namespace QueueWorker.Worker

variable {α ρ : Type}

namespace Stage

/-- What has come of the item of a thread that stands here, as long as it is not counted. -/
@[simp] def pending : Stage α ρ → List (α × Outcome)
  | .lacking a | .skipping a => [(a, .skipped)]
  | .concluded a none => [(a, .returned)]
  | .concluded a (some p) | .noted a p => [(a, .panicked p)]
  | _ => []

/-- What the step to this place has decided about an item: its callback has returned or has been
unwound, or there is none. -/
@[simp] def verdict : Stage α ρ → List (α × Outcome)
  | .lacking a => [(a, .skipped)]
  | .concluded a none => [(a, .returned)]
  | .concluded a (some p) => [(a, .panicked p)]
  | _ => []

theorem pending_of_ended (st : Stage α ρ) (he : st.grade.hasEnded = true) : st.pending = [] := by
  cases st <;> first | rfl | cases he

theorem pending_length_le (st : Stage α ρ) : st.pending.length ≤ st.held.length := by
  cases st with
  | concluded a o => cases o <;> simp
  | _ => simp

end Stage

def Act.verdict (u : State α ρ) : Act α ρ → List (α × Outcome)
  | .thread t => (u.threads[t]?.map fun th => th.stage.verdict).getD []
  | _ => []

namespace State

def pending (s : State α ρ) : List (α × Outcome) := s.threads.flatMap (fun th => th.stage.pending)

/-- What the callbacks make of the items in the course of a run, in the order in which they are
over. -/
def verdicts (h : Host α) (s : State α ρ) : List (Act α ρ) → List (α × Outcome)
  | [] => []
  | act :: acts =>
      match s.next? h act with
      | none => []
      | some u => act.verdict u ++ u.verdicts h acts

end State

theorem flatMap_advances {β : Type} {h : Host α} {s s' : State α ρ} {me : Agent} {c : Cursor α}
    {p : Progress α} (step : Advances h s me c s' p) {f : Stage α ρ → List β}
    (starting : f .starting = []) (sleeping : f .sleeping = []) (polling : f .polling = []) :
    s'.threads.flatMap (fun th => f th.stage) = s.threads.flatMap (fun th => f th.stage) := by
  have roused (ms : List (Message α)) :
      (s.roused ms).flatMap (fun th => f th.stage) = s.threads.flatMap (fun th => f th.stage) :=
    flatMap_of_map (s.map_roused ms _ fun th hst => by rw [hst, sleeping, polling])
  cases step with
  | pushed batch => rw [State.push_eq]; exact roused _
  | marked q t => rw [State.push_eq]; exact roused _
  | spawned load => simp [starting]
  | _ => rfl

theorem pending_setStage {s v : State α ρ} {ward : Option Nat} {marked : Bool} {t : Nat}
    {th : Thread α ρ} {stage : Stage α ρ} (staff : s.Staffed ward marked)
    (ht : s.threads[t]? = some th) (alive : th.stage.grade.hasEnded = false)
    (threads : v.threads = s.threads)
    (step : v.outcomes ++ stage.pending = s.outcomes ++ th.stage.pending ++ stage.verdict) :
    (v.setStage t stage).outcomes ++ (v.setStage t stage).pending =
      s.outcomes ++ s.pending ++ (Act.thread t).verdict (v.setStage t stage) := by
  obtain ⟨old, new⟩ := flatMap_of_alive staff ht alive stage Stage.pending Stage.pending_of_ended
  have after : (v.setStage t stage).pending = stage.pending := by
    rw [State.pending, State.setStage, threads]; exact new
  have verdict : (Act.thread t).verdict (v.setStage t stage) = stage.verdict := by
    simp [Act.verdict, State.setStage, threads, ht]
  rw [after, verdict, State.pending, old]
  exact step

theorem pending_unchanged {v : State α ρ} {t : Nat} {th : Thread α ρ} {stage : Stage α ρ}
    (ht : v.threads[t]? = some th) (same : stage.pending = th.stage.pending) :
    (v.setStage t stage).pending = v.pending :=
  flatMap_of_map (State.map_setStage ht (fun th => th.stage.pending) same)

theorem pending_keep {s v : State α ρ} {t : Nat} {th : Thread α ρ} {stage : Stage α ρ}
    (ht : v.threads[t]? = some th) (outcomes : v.outcomes = s.outcomes)
    (pending : v.pending = s.pending) (same : stage.pending = th.stage.pending)
    (silent : stage.verdict = []) :
    (v.setStage t stage).outcomes ++ (v.setStage t stage).pending =
      s.outcomes ++ s.pending ++ (Act.thread t).verdict (v.setStage t stage) := by
  have now : (v.setStage t stage).threads[t]? = some { th with stage } := by
    simp [State.setStage, ht]
  have verdict : (Act.thread t).verdict (v.setStage t stage) = [] := by
    rw [Act.verdict, now]; exact silent
  rw [pending_unchanged ht same, verdict, List.append_nil, pending, ← outcomes]
  rfl

theorem pending_works {h : Host α} {s u : State α ρ} {ward : Option Nat} {marked : Bool} {t : Nat}
    {th : Thread α ρ} (apart : Apart s) (staff : s.Staffed ward marked)
    (ht : s.threads[t]? = some th) (hw : Works h s t th u) :
    u.outcomes ++ u.pending = s.outcomes ++ s.pending ++ (Act.thread t).verdict u := by
  have alive := running_of_works hw
  cases hw with
  | start stage =>
      have lt := (List.getElem?_eq_some_iff.mp ht).1
      have same : (Stage.polling : Stage α ρ).pending = th.stage.pending := by rw [stage]; rfl
      have after := flatMap_of_map (map_set_of_eq ht
        (y := { th with standing := th.priority.apply th.standing, stage := .polling })
        (fun th : Thread α ρ => th.stage.pending) same)
      simp only [State.pending, after, Act.verdict, List.getElem?_set_self lt]
      exact (List.append_nil _).symm
  | call a replies c rest s' p stage step =>
      have ht' := threads_advances step ht (by simp [stage]) (by simp [stage])
      have cursor : s.cursor? (.thread t) = some c := by
        rw [State.cursor?_of_thread ht, stage]; rfl
      have outcomes := outcomes_advances step
      have pending : s'.pending = s.pending := flatMap_advances step rfl rfl rfl
      cases p with
      | «at» | answer => exact pending_keep ht' outcomes pending (by rw [stage]; rfl) rfl
      | unwind q =>
          obtain ⟨v, same, awaited⟩ := awaits_of_unwind step
          cases same
          exact absurd awaited (apart t c cursor)
  | skip a stage =>
      refine pending_setStage staff ht alive rfl ?_
      cases h.disposal a <;>
        simp [stage, State.outcomes, State.discard, State.count, State.note, Entry.outcome?]
  | letGo p stage =>
      refine pending_setStage staff ht alive rfl ?_
      cases p.bind Payload.relic? <;> simp [stage, State.outcomes]
  | finish a replies stage =>
      refine pending_setStage staff ht alive rfl ?_
      cases h.disposal a <;> simp [stage, State.outcomes]
  | sleep stage | fetch _ _ stage | halt _ stage | lack _ stage | begin _ _ stage | warn _ stage
  | unwind _ _ _ stage | report _ _ _ _ stage | self _ _ _ stage
  | askGone _ _ _ _ stage | askDrop _ _ _ stage | ask _ _ _ _ _ stage | askNow _ _ _ _ _ stage
  | returned _ stage | caught _ _ stage | panicked _ _ stage | exit stage =>
      refine pending_setStage staff ht alive rfl ?_
      simp [stage, State.outcomes, State.note, State.log, State.clock, State.count, Entry.outcome?]

theorem pending_step {h : Host α} {s u : State α ρ} {act : Act α ρ} (ha : Attainable h s)
    (step : Step h s act u) :
    u.outcomes ++ u.pending = s.outcomes ++ s.pending ++ act.verdict u := by
  cases step with
  | client i c s' p client step =>
      have outcomes := outcomes_advances step
      have pending : s'.pending = s.pending := flatMap_advances step rfl rfl rfl
      rw [← outcomes, ← pending]
      exact (List.append_nil _).symm
  | thread t th u thread step =>
      have here : s.owner ≠ .gone := by
        intro gone
        have alive := running_of_works step
        rw [(ha.deserted gone).ended t _ (State.grades_of_thread thread)] at alive
        cases alive
      obtain ⟨ward, marked, staff⟩ := (ha.posed here).staffed
      exact pending_works ha.apart staff thread step
  | release t th a replies rest thread stage | stir t th thread stage =>
      rw [pending_unchanged thread (by rw [stage]; rfl)]
      exact (List.append_nil _).symm
  | _ => exact (List.append_nil _).symm

theorem Walk.verdicts {h : Host α} {s u : State α ρ} {acts : List (Act α ρ)} (hw : Walk h s acts u)
    (ha : Attainable h s) :
    u.outcomes ++ u.pending = s.outcomes ++ s.pending ++ s.verdicts h acts := by
  induction hw with
  | refl s => exact (List.append_nil _).symm
  | cons step apart rest ih =>
      have first := pending_step ha (step_of_next step)
      have later := ih (ha.next step apart)
      rw [later, first, State.verdicts, step, List.append_assoc]

theorem State.pending_length_le (s : State α ρ) : s.pending.length ≤ s.held.length := by
  simp only [State.pending, State.held]
  induction s.threads with
  | nil => simp
  | cons th ths ih =>
      have := th.stage.pending_length_le
      simp only [List.flatMap_cons, List.length_append]
      omega

theorem State.length_outcomes (s : State α ρ) : UInt64.ofNat s.outcomes.length =
    s.tally (· matches .returned) + s.tally (· matches .panicked _) +
      s.tally (· matches .skipped) := by
  have split : s.outcomes.length = s.outcomes.countP (fun x => x.2 matches .returned) +
      s.outcomes.countP (fun x => x.2 matches .panicked _) +
      s.outcomes.countP (fun x => x.2 matches .skipped) := by
    induction s.outcomes with
    | nil => rfl
    | cons x xs ih =>
        rcases x with ⟨a, _ | p | _⟩ <;> simp at ih ⊢ <;> omega
  rw [split, UInt64.ofNat_add, UInt64.ofNat_add]
  rfl

theorem Tallied.total {s : State α ρ} (counted : Tallied s)
    (placed : s.pushed = s.finished ++ s.held ++ s.queued) : UInt64.ofNat s.pushed.length =
      s.stats.processed + s.stats.panicked + s.stats.skipped + UInt64.ofNat s.held.length +
        UInt64.ofNat s.queued.length := by
  have finished : s.finished.length = s.outcomes.length := by rw [s.finished_eq, List.length_map]
  have counts : UInt64.ofNat s.outcomes.length =
      s.stats.processed + s.stats.panicked + s.stats.skipped := by
    rw [counted.processed, counted.panicked, counted.skipped]
    exact s.length_outcomes
  rw [placed, List.length_append, List.length_append, finished, UInt64.ofNat_add,
    UInt64.ofNat_add, counts]

theorem State.IsDrained.nothing_left {s : State α ρ} (hs : s.IsDrained) :
    s.held = [] ∧ s.queued = [] := by
  refine ⟨held_of_nobody hs.ended, ?_⟩
  rw [State.queued, hs.queue]
  rfl

/-- A caller has waited for a thread to end. -/
def Entry.isJoin : Entry α ρ → Bool
  | .logged _ .joined => true
  | _ => false

def uncounted : Option (Cursor α) → UInt64
  | some (.counting ..) => 1
  | _ => 0

namespace State

def joins (s : State α ρ) : Nat := s.trace.countP Entry.isJoin

def owes (s : State α ρ) : Pose → Nat
  | .resting =>
      match s.phase with
      | .running _ | .stopping _ => 1
      | .idle | .joining => 0
  | .retaking _ | .hatching _ => 1
  | .vacant => 0

theorem joins_discard (s : State α ρ) (as : List α) : (s.discard as).joins = s.joins := by
  simp [joins, discard, List.countP_map, Function.comp_def, Entry.isJoin]

theorem joins_log (s : State α ρ) (me : Agent) (line : Line) :
    (s.log me line).joins = s.joins + if line = .joined then 1 else 0 := by
  cases line <;> simp [joins, log, note, Entry.isJoin]

theorem length_push (s : State α ρ) (ms : List (Message α)) :
    (s.push ms).threads.length = s.threads.length := by
  rw [push_eq]
  exact s.length_roused ms

theorem trace_push (s : State α ρ) (ms : List (Message α)) : (s.push ms).trace = s.trace := by
  rw [push_eq]

theorem owes_of_between {s : State α ρ} (between : s.IsBetween) : s.owes .resting = 0 := by
  rcases between with phase | phase <;> simp only [owes, phase]

end State

/-- Every thread that has been started has been joined, or is still to be, and it has been counted,
or is about to be. -/
structure Balanced (s : State α ρ) (c : Option (Cursor α)) : Prop where
  threads : s.threads.length = s.joins + s.owes ((c.bind Cursor.pose?).getD .resting)
  spawned : s.stats.spawned + uncounted c = UInt64.ofNat s.threads.length
  gone : s.owner = .gone → s.IsBetween

namespace Balanced

variable {h : Host α} {s u : State α ρ} {c k : Option (Cursor α)}

theorem congr (hs : Balanced s c) (length : u.threads.length = s.threads.length)
    (joins : u.joins = s.joins) (spawned : u.stats.spawned = s.stats.spawned)
    (owner : u.owner = s.owner) (phase : u.phase = s.phase) : Balanced u c := by
  constructor
  · have := hs.threads
    simp only [State.owes, length, joins, phase] at this ⊢
    exact this
  · rw [spawned, length]
    exact hs.spawned
  · rw [owner, State.IsBetween, phase]
    exact hs.gone

theorem charge (hs : Balanced s c) : Balanced s (charge c) := by
  have same : uncounted (Worker.charge c) = uncounted c := by
    rcases c with - | k
    · rfl
    · cases k with
      | stopping p | marking p t => cases p <;> rfl
      | _ => rfl
  exact ⟨by simpa using hs.threads, same ▸ hs.spawned, hs.gone⟩

theorem own {me : Agent} {c : Cursor α} {p : Progress α} {q : Pose} (hs : Balanced s (some c))
    (step : Advances h s me c u p) (hq : c.pose? = some q) (knows : c.Knows s.phase)
    (fits : s.Fits q) (apart : ∀ t, me = .thread t → c.awaited? ≠ some t) (unhurt : s.IsUnhurt)
    (here : s.owner ≠ .gone) : Balanced u p.cursor? := by
  obtain ⟨threads, spawned, -⟩ := hs
  have still (v : State α ρ) (gone : s.owner = .gone) : v.IsBetween := absurd gone here
  rw [Option.bind_some, hq, Option.getD_some] at threads
  cases step with
  -- Nobody waits for itself, and no thread ends unwound.
  | reclaimSelf load t self | awaitSelf t self | outliveSelf t self =>
      exact absurd rfl (apart t self)
  | reclaimedDead load t e other ended => exact absurd ended (unhurt t e)
  | awaitedDead t e other ended | outlivedDead t e other ended => exact absurd ended (unhurt t e)
  | ready | loaded | found | missed | takenNone | refused | adopted | adoptedLoaded | abandoned
  | settled => cases hq; exact ⟨threads, spawned, still _⟩
  | stopFound p | stopMissed p => cases p <;> cases hq <;> exact ⟨threads, spawned, still _⟩
  | reclaim load t free phase | taken t free phase | retired t phase =>
      cases hq
      simp only [State.owes, phase] at threads
      exact ⟨threads, spawned, still _⟩
  | vacate load free phase =>
      cases hq
      refine ⟨?_, spawned, still _⟩
      rcases phase with phase | phase <;> (simp only [State.owes, phase] at threads; exact threads)
  | retiredNone phase =>
      cases hq
      refine ⟨?_, spawned, still _⟩
      cases hp : s.phase with
      | idle | joining => simp only [State.owes, hp] at threads; exact threads
      | running t => exact absurd hp (knows t)
      | stopping t => exact absurd hp (phase t)
  | reclaimed | awaited | outlived | announced =>
      cases hq
      refine ⟨?_, spawned, still _⟩
      rw [State.joins_log]
      exact threads
  | spawned load =>
      -- The new thread is there but not in the count yet: that is what `uncounted` stands for.
      cases hq
      refine ⟨?_, ?_, still _⟩
      · rw [List.length_append]; exact congrArg (· + 1) threads
      · rw [List.length_append, UInt64.ofNat_add, ← spawned]
        exact congrArg (· + 1) (UInt64.add_zero _).symm
  | counted load t =>
      cases hq
      exact ⟨threads, (UInt64.add_zero _).trans spawned, still _⟩
  | pushed batch =>
      cases hq
      have before : Balanced s (some (.leaving none .done)) := ⟨threads, spawned, still _⟩
      refine before.congr (s.length_push _) ?_ ?_ ?_ ?_
      · simp [State.joins, State.note, s.trace_push, List.countP_append, Entry.isJoin]
      all_goals rw [State.push_eq]; rfl
  | marked p t =>
      cases p with
      | stop => cases hq
      | join | drop =>
          cases hq
          simp only [State.owes, show s.phase = .running t from knows] at threads
          rw [State.push_eq]
          exact ⟨(s.length_roused _).trans threads,
            spawned.trans (congrArg UInt64.ofNat (s.length_roused _).symm), still _⟩
  | left load r =>
      cases hq
      refine ⟨?_, spawned, still _⟩
      rw [State.joins_discard]
      exact threads
  | swept all =>
      cases hq
      refine ⟨?_, spawned, fun _ => fits.1⟩
      rw [State.joins_discard]
      exact threads.trans (congrArg _ (State.owes_of_between fits.1).symm)
  | sweptEarly =>
      cases hq
      exact ⟨threads.trans (congrArg _ (State.owes_of_between fits.1).symm), spawned,
        fun _ => fits.1⟩
  | enter | enterJoin | status | length => cases hq

theorem other {me : Agent} {c : Cursor α} {p : Progress α} {k : Option (Cursor α)}
    (hs : Balanced s k) (step : Advances h s me c u p) (hc : c.pose? = none) (hp : p.pose? = none)
    (knows : c.Knows s.phase) (here : s.owner ≠ .gone) : Balanced u k := by
  cases step with
  | enter | enterJoin => cases hp
  | status | length => exact hs
  | stopFound p t | stopMissed p => cases p <;> cases hc; exact hs.congr rfl rfl rfl rfl rfl
  | marked p t =>
      have owes (q : Pose) : State.owes { s with phase := .stopping t } q = s.owes q := by
        cases q with
        | resting => simp only [State.owes, show s.phase = .running t from knows]
        | retaking | vacant | hatching => rfl
      rw [State.push_eq]
      exact ⟨(s.length_roused _).trans (hs.threads.trans (congrArg _ (owes _).symm)),
        hs.spawned.trans (congrArg UInt64.ofNat (s.length_roused _).symm),
        fun gone => absurd gone here⟩
  | _ => cases hc

theorem aside (hs : Balanced s c) (phase : u.phase = s.phase) (owner : u.owner = s.owner)
    (step : Aside h s u) : Balanced u c := by
  cases step with
  | still trace stats length =>
      exact hs.congr length (by rw [State.joins, trace]; rfl) (by rw [stats]) owner phase
  | work t th thread silent step =>
      have same : u.threads.length = s.threads.length ∧ u.joins = s.joins ∧
          u.stats.spawned = s.stats.spawned := by
        cases step with
        | call a replies c rest s' p stage => rw [stage] at silent; cases silent
        | start stage => exact ⟨List.length_set .., rfl, rfl⟩
        | _ =>
            refine ⟨List.length_modify .., ?_, rfl⟩
            simp [State.joins, State.setStage, State.conclude, State.letGo, State.count, State.log,
              State.note, State.discard, State.clock, Entry.isJoin]
      exact hs.congr same.1 same.2.1 same.2.2 owner phase

end Balanced

theorem Attainable.balanced {h : Host α} {s : State α ρ} (ha : Attainable h s)
    (unhurt : s.IsUnhurt) : Carried Balanced s := by
  induction ha with
  | create settings callback clients =>
      refine ⟨?_, fun _ => ⟨rfl, rfl, fun gone => by cases gone⟩⟩
      intro a c q hc
      rw [cursor?_create] at hc
      cases hc
  | @next s u act before step apart ih =>
      have step := step_of_next step
      have unhurt' := State.IsUnhurt.of_step unhurt step
      apply (ih unhurt').turn before.locked (step_turn step)
      · intro v k same hv
        have joins : u.joins = v.joins := by rw [State.joins, same.trace]; rfl
        exact hv.congr same.length joins (by rw [same.stats]) same.owner same.phase
      · intro me c s' p q cursor step hq _ hs
        have apart (t : Nat) (hme : me = .thread t) : c.awaited? ≠ some t := by
          subst me; exact before.apart t c cursor
        exact (hs.own step hq (before.aware me c cursor) (before.fits cursor hq) apart unhurt'
          (before.here cursor)).charge
      · intro me c s' p cursor step hc hp k hs
        exact hs.other step hc hp (before.aware me c cursor) (before.here cursor)
      · intro me c s' p q cursor step hc hp hs
        cases step with
        | enter | enterJoin => exact ⟨hs.threads, hs.spawned, hs.gone⟩
        | stopFound p t | stopMissed p | marked p t => cases p <;> cases hc; cases hp
        | status | length => cases hp
        | _ => cases hc
      · exact fun hs => ⟨hs.threads, hs.spawned, fun gone => by cases gone⟩
      · exact fun phase owner _ aside k hs => hs.aside phase owner aside

theorem Attainable.placed {h : Host α} {s : State α ρ} (ha : Attainable h s)
    (unhurt : s.IsUnhurt) :
    s.pushed = s.finished ++ s.held ++ s.queued ∧ s.held.length ≤ 1 := by
  by_cases gone : s.owner = .gone
  · have drained := ha.isDrained_of_gone gone unhurt
    obtain ⟨held, queued⟩ := drained.nothing_left
    rw [drained.pushed, held, queued]
    simp
  · obtain ⟨ward, marked, staff⟩ := (ha.posed gone).staffed
    exact ⟨(ha.delivered gone).finished, held_length_le staff⟩

/-- The threads that have been started are those joined, and one more as long as the phase tells of
one. -/
theorem Attainable.spawned_eq {h : Host α} {s : State α ρ} (ha : Attainable h s)
    (unhurt : s.IsUnhurt) (free : s.lifecycle = none) (shared : s.owner = .shared) :
    s.stats.spawned = UInt64.ofNat (s.joins + if s.phase.status = .idle then 0 else 1) := by
  have nobody := ha.locked.nobody free (by rw [shared]; exact Owner.noConfusion)
  have balanced := (ha.balanced unhurt).free nobody
  have fits := (ha.posed (by rw [shared]; exact Owner.noConfusion)).free nobody
  have owes : s.owes .resting = if s.phase.status = .idle then 0 else 1 := by
    cases hp : s.phase with
    | joining => exact absurd hp (State.fits_not_joining fits)
    | _ => simp [State.owes, hp, Phase.status]
  rw [← owes]
  exact (UInt64.add_zero _).symm.trans (balanced.spawned.trans (congrArg _ balanced.threads))

theorem Attainable.spawned_of_gone {h : Host α} {s : State α ρ} (ha : Attainable h s)
    (unhurt : s.IsUnhurt) (gone : s.owner = .gone) : s.stats.spawned = UInt64.ofNat s.joins := by
  have nobody (a : Agent) : s.pose? a = none := by
    cases hc : s.cursor? a with
    | none => rw [State.pose?, hc]; rfl
    | some c => exact absurd gone (ha.here hc)
  have balanced := (ha.balanced unhurt).free nobody
  have owes : s.owes .resting = 0 := State.owes_of_between (balanced.gone gone)
  have threads : s.threads.length = s.joins := balanced.threads.trans (congrArg _ owes)
  exact (UInt64.add_zero _).symm.trans (balanced.spawned.trans (congrArg _ threads))

theorem Attainable.total_of_join {h : Host α} {s u : State α ρ} {i : Nat}
    {acts : List (Act α ρ)} {last : Option Reply} (ha : Attainable h s)
    (walk : Walk h s (.call i .join :: acts) u)
    (requests : ∀ act ∈ acts, act.isRequestOf i = false) (unhurt : u.IsUnhurt)
    (idle : u.clients[i]? = some (.idle last)) (alone : u.pushed = s.pushed) :
    last = some .done ∧
      u.stats.processed + u.stats.panicked + u.stats.skipped = UInt64.ofNat u.pushed.length := by
  have hu := walk.attainable ha
  cases walk with
  | @cons s v u act acts step apart rest =>
      have hv := ha.next step apart
      obtain ⟨joining, same⟩ : v.clients[i]? = some (.calling .enteringJoin) ∧
          v.pushed = s.pushed := by
        cases step_of_next step with
        | call i c k free other first =>
            cases first
            obtain ⟨r, client⟩ := State.idle_of_isFree free
            exact ⟨State.clients_setClient client _, rfl⟩
        | answer i c r free other first => cases first
      obtain ⟨cl, hcl, joins⟩ := rest.joins hv requests unhurt joining
      cases idle.symm.trans hcl
      cases last with
      | none => exact joins.elim
      | some r =>
          obtain ⟨done, counted⟩ := joins
          refine ⟨congrArg some done, ?_⟩
          obtain ⟨placed, -⟩ := hu.placed unhurt
          have finished : u.pushed.length ≤ u.finished.length := by
            rw [alone, ← same]; exact counted.length_le
          have lengths := congrArg List.length placed
          simp only [List.length_append] at lengths
          have total := hu.tallied.total placed
          rw [total, show u.held.length = 0 by omega, show u.queued.length = 0 by omega]
          simp

/-- The counters lose nothing, however the callbacks end and however often the worker is stopped and
started. What the callbacks have made of the items is counted, but for the item that is about to
be. Every item pushed is counted, in the hands of the thread, or queued. Every thread started has
been joined, but for the one that the phase tells of, or that a call has in its hands. -/
theorem counter_conservation {h : Host α} {settings : Settings}
    {callback : Option (Callback α ρ)} {clients : Nat} {acts : List (Act α ρ)} {s : State α ρ}
    (walk : Walk h (State.create settings callback clients) acts s) (unhurt : s.IsUnhurt) :
    (Tallied s ∧
        (State.create settings callback clients).verdicts h acts = s.outcomes ++ s.pending ∧
        s.pending.length ≤ s.held.length) ∧
      (s.pushed = s.outcomes.map Prod.fst ++ s.held ++ s.queued ∧ s.held.length ≤ 1 ∧
        UInt64.ofNat s.pushed.length =
          s.stats.processed + s.stats.panicked + s.stats.skipped + UInt64.ofNat s.held.length +
            UInt64.ofNat s.queued.length) ∧
      ((s.lifecycle = none → s.owner = .shared →
          s.stats.spawned = UInt64.ofNat (s.joins + if s.phase.status = .idle then 0 else 1)) ∧
        (s.owner = .gone → s.stats.spawned = UInt64.ofNat s.joins) ∧
        ∀ a c q, s.cursor? a = some c → c.pose? = some q →
          s.stats.spawned + uncounted (some c) = UInt64.ofNat (s.joins + s.owes q)) ∧
      ∀ i more u last, Walk h s (.call i .join :: more) u →
        (∀ act ∈ more, act.isRequestOf i = false) → u.IsUnhurt →
        u.clients[i]? = some (.idle last) → u.pushed = s.pushed → last = some .done ∧
          u.stats.processed + u.stats.panicked + u.stats.skipped =
            UInt64.ofNat u.pushed.length := by
  have new : Attainable h (State.create settings callback clients) := .create _ _ _
  have ha := walk.attainable new
  obtain ⟨placed, held⟩ := ha.placed unhurt
  refine ⟨⟨ha.tallied, (walk.verdicts new).symm, s.pending_length_le⟩,
    ⟨s.finished_eq ▸ placed, held, ha.tallied.total placed⟩,
    ⟨ha.spawned_eq unhurt, ha.spawned_of_gone unhurt, ?_⟩, ?_⟩
  · intro a c q hc hq
    have balanced := (ha.balanced unhurt).charged a c q hc hq
    have threads := balanced.threads
    rw [Option.bind_some, hq, Option.getD_some] at threads
    rw [balanced.spawned, threads]
  · intro i more u last walk requests unhurt idle alone
    exact ha.total_of_join walk requests unhurt idle alone

def unwindOnSix : Callback Nat Unit := fun _ a => if a = 6 then .unwind .mute else .finish

theorem unwindOnSix_modest : ∀ f, some unwindOnSix = some f → Callback.Modest f := by
  rintro f ⟨⟩ visits a
  simp only [unwindOnSix]
  split <;> trivial

def sendTwo : List (Act Nat Unit) :=
  .call 0 (.sendAll [5, 6]) :: List.replicate 9 (.client 0) ++ List.replicate 7 (.thread 0)

def joinBehindTwo : List (Act Nat Unit) :=
  .call 0 .join :: (List.replicate 4 (.client 0) ++ List.replicate 7 (.thread 0) ++
    List.replicate 3 (.client 0))

theorem counter_conservation_sendTwo :
    ∃ s u, (State.create {} (some unwindOnSix) 1).run? Host.calm sendTwo = some s ∧
      s.run? Host.calm joinBehindTwo = some u ∧ s.held = [6] ∧
      s.pushed = s.outcomes.map Prod.fst ++ [6] ++ s.queued ∧
      s.stats.spawned = UInt64.ofNat (s.joins + 1) ∧
      (State.create {} (some unwindOnSix) 1).verdicts Host.calm sendTwo = s.outcomes ++ s.pending ∧
      u.stats.processed + u.stats.panicked + u.stats.skipped = 2 := by
  have hp : ((State.create {} (some unwindOnSix) 1).run? Host.calm sendTwo).any (fun s =>
      s.held = [6] && s.lifecycle = none && s.owner = .shared && s.phase.status = .running &&
        s.deaths = 0 && (s.run? Host.calm joinBehindTwo).any (fun u =>
          u.clients[0]?.any (Client.hasReply .done) && u.deaths = 0 && s.pushed = [5, 6] &&
            u.pushed = [5, 6])) = true := by
    decide
  obtain ⟨s, hs, hr, hp⟩ :=
    Reachable.of_run hp unwindOnSix_modest (by simp [sendTwo, Act.Modest])
  simp only [Bool.and_eq_true, decide_eq_true_eq] at hp
  obtain ⟨⟨⟨⟨⟨held, free⟩, shared⟩, running⟩, deaths⟩, hp⟩ := hp
  obtain ⟨u, hu, hp⟩ := (Option.any_eq_true _ _).mp hp
  simp only [Bool.and_eq_true, decide_eq_true_eq] at hp
  obtain ⟨⟨⟨idle, deaths'⟩, before⟩, after⟩ := hp
  have new : Reachable Host.calm (State.create {} (some unwindOnSix) 1) :=
    .create {} _ 1 unwindOnSix_modest
  have walk := Walk.of_run new (by simp [sendTwo, Act.Modest]) hs
  obtain ⟨⟨-, verdicts, -⟩, ⟨placed, -, -⟩, ⟨spawned, -, -⟩, join⟩ :=
    counter_conservation walk (State.isUnhurt_iff.mpr deaths)
  have walk' := Walk.of_run hr (by simp [joinBehindTwo, Act.Modest]) hu
  obtain ⟨-, total⟩ := join 0 _ u _ walk' (by simp [Act.isRequestOf])
    (State.isUnhurt_iff.mpr deaths') (Client.eq_of_hasReply idle) (after.trans before.symm)
  refine ⟨s, u, hs, hu, held, held ▸ placed, ?_, verdicts, ?_⟩
  · simpa [running] using spawned free shared
  · simpa [after] using total

end QueueWorker.Worker
