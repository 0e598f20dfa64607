import QueueWorker.Proofs.Worker.Counters

namespace QueueWorker.Worker

variable {α ρ : Type}

/-- A line of the log with the thread that has written it. A caller's line has none. -/
structure Remark where
  writer : Option Nat
  line : Line
  deriving DecidableEq, Repr

def Agent.thread? : Agent → Option Nat
  | client _ => none
  | thread t => some t

def Entry.remark? : Entry α ρ → Option Remark
  | .logged who line => some ⟨who.thread?, line⟩
  | _ => none

def Remark.by? (t : Nat) (r : Remark) : Option Line :=
  if r.writer = some t then some r.line else none

namespace State

def journal (s : State α ρ) : List Remark := s.trace.filterMap Entry.remark?

/-- The lines that a thread has written. -/
def said (s : State α ρ) (t : Nat) : List Line := s.journal.filterMap (Remark.by? t)

theorem journal_log (s : State α ρ) (me : Agent) (line : Line) :
    (s.log me line).journal = s.journal ++ [⟨me.thread?, line⟩] := by
  simp [journal, log, note, Entry.remark?]

theorem journal_discard (s : State α ρ) (as : List α) : (s.discard as).journal = s.journal := by
  simp [journal, discard, Entry.remark?]

theorem said_of_journal {s u : State α ρ} {r : Remark} (h : u.journal = s.journal ++ [r])
    (caller : r.writer = none) : u.said = s.said := by
  funext t
  simp [said, h, Remark.by?, caller]

end State

theorem by?_written (t v : Nat) (ls : List Line) :
    (ls.map (Remark.mk (some v))).filterMap (Remark.by? t) = if v = t then ls else [] := by
  induction ls with
  | nil => simp
  | cons l ls ih => by_cases h : v = t <;> simp_all [Remark.by?]

/-- A thread in the log, as far as it has come: how a caller tells of its start, and what it writes
itself. -/
def chapter (t : Nat) (p : Priority) (said : List Line) : List Remark :=
  ⟨none, .spawned p⟩ :: said.map (Remark.mk (some t))

/-- The first threads in the log, one behind the other, each with the line that tells of its end. -/
inductive Cycles (said : Nat → List Line) : Nat → List Remark → Prop
  | nil : Cycles said 0 []
  | next {t l} (p) (before : Cycles said t l) :
      Cycles said (t + 1) (l ++ chapter t p (said t) ++ [⟨none, .joined⟩])

namespace Cycles

variable {said said' : Nat → List Line} {n : Nat} {l : List Remark}

theorem congr (h : Cycles said n l) (same : ∀ t < n, said' t = said t) : Cycles said' n l := by
  induction h with
  | nil => exact .nil
  | @next t l p before ih =>
      rw [← same t (Nat.lt_succ_self t)]
      exact .next p (ih fun u hu => same u (Nat.lt_succ_of_lt hu))

theorem silent (h : Cycles said n l) {v : Nat} (later : n ≤ v) :
    l.filterMap (Remark.by? v) = [] := by
  induction h with
  | nil => rfl
  | @next t l p before ih =>
      have ne : t ≠ v := by omega
      simp [chapter, ne, ih (by omega), Remark.by?]

end Cycles

/-- How far the log is with the last thread: it is over with all of them, it does not tell of the
last one yet, or it does. -/
inductive Scene
  | empty
  | fresh (t : Nat)
  | served (t : Nat)

def Scene.ward : Scene → Option Nat
  | empty => none
  | fresh t | served t => some t

def Cursor.fresh? : Cursor α → Option Nat
  | .counting _ t | .announcing _ t => some t
  | _ => none

theorem Cursor.pose?_of_fresh {c : Cursor α} {t : Nat} (h : c.fresh? = some t) :
    c.pose? = some (.hatching t) := by
  cases c <;> cases h <;> rfl

def Phase.scene : Phase → Scene
  | .running t | .stopping t => .served t
  | .idle | .joining => .empty

theorem Phase.scene_ne_fresh (ph : Phase) (t : Nat) : ph.scene ≠ .fresh t := by
  cases ph <;> exact Scene.noConfusion

def Pose.scene (ph : Phase) : Pose → Scene
  | .resting => ph.scene
  | .retaking t | .hatching t => .served t
  | .vacant => .empty

theorem Pose.scene_ne_fresh (ph : Phase) (q : Pose) (t : Nat) : q.scene ph ≠ .fresh t := by
  cases q with
  | resting => exact ph.scene_ne_fresh t
  | retaking | vacant | hatching => exact Scene.noConfusion

namespace State

def scene (s : State α ρ) (k : Option (Cursor α)) : Scene :=
  match k.bind Cursor.fresh? with
  | some t => .fresh t
  | none => ((k.bind Cursor.pose?).getD .resting).scene s.phase

/-- What the log tells in a scene. A thread that it does not tell of has done nothing yet. -/
def Told (s : State α ρ) : Scene → Prop
  | .empty => Cycles s.said s.threads.length s.journal
  | .fresh t => s.threads.length = t + 1 ∧ s.pushed = s.finished ∧ Cycles s.said t s.journal
  | .served t => s.threads.length = t + 1 ∧
      ∃ l p, Cycles s.said t l ∧ s.journal = l ++ chapter t p (s.said t)

variable {s u : State α ρ} {k : Option (Cursor α)} {x : Scene}

theorem scene_congr (phase : u.phase = s.phase) (k : Option (Cursor α)) :
    u.scene k = s.scene k := by
  rw [scene, scene, phase]

theorem scene_charge (s : State α ρ) (c : Option (Cursor α)) : s.scene (charge c) = s.scene c := by
  have fresh : (charge c).bind Cursor.fresh? = c.bind Cursor.fresh? := by
    rcases c with - | k
    · rfl
    · cases k with
      | stopping p | marking p t => cases p <;> rfl
      | _ => rfl
  rw [scene, scene, fresh, bind_charge]

theorem scene_between (between : s.IsBetween) : s.phase.scene = .empty := by
  rcases between with phase | phase <;> rw [phase] <;> rfl

theorem staffed_of_scene (fits : s.FitsCall k) :
    ∃ marked, s.Staffed (s.scene k).ward marked ∧ ∀ t, s.scene k = .fresh t → marked = false := by
  rw [FitsCall] at fits
  rw [scene]
  cases hf : k.bind Cursor.fresh? with
  | some t =>
      obtain ⟨c, rfl, hc⟩ := Option.bind_eq_some_iff.mp hf
      rw [Option.bind_some, Cursor.pose?_of_fresh hc] at fits
      exact ⟨false, fits.2, fun _ _ => rfl⟩
  | none =>
      generalize (k.bind Cursor.pose?).getD .resting = q at fits
      cases q with
      | resting =>
          cases phase : s.phase with
          | idle => exact ⟨_, fits_idle fits phase, fun _ h => by cases h⟩
          | running t => exact ⟨_, fits_running fits phase, fun _ h => by cases h⟩
          | stopping t => exact ⟨_, fits_stopping fits phase, fun _ h => by cases h⟩
          | joining => exact absurd phase (fits_not_joining fits)
      | retaking t | vacant | hatching t => exact ⟨_, fits.2, fun _ h => by cases h⟩

theorem Told.congr (told : s.Told x) (length : u.threads.length = s.threads.length)
    (journal : u.journal = s.journal)
    (drained : ∀ t, x = .fresh t → s.pushed = s.finished → u.pushed = u.finished) : u.Told x := by
  have said : u.said = s.said := by funext t; simp only [State.said, journal]
  cases x with
  | empty | served t => simp only [Told, length, journal, said] at told ⊢; exact told
  | fresh t =>
      obtain ⟨count, same, cycles⟩ := told
      refine ⟨length.trans count, drained t rfl same, ?_⟩
      rwa [said, journal]

theorem Told.of_trace (told : s.Told x) (length : u.threads.length = s.threads.length)
    (trace : u.trace = s.trace) : u.Told x := by
  apply told.congr length
  · simp only [journal, trace]
  · intro t _ same
    simpa only [pushed, finished, trace] using same

theorem Told.of_journal (told : s.Told x) (old : ∀ t, x ≠ .fresh t)
    (length : u.threads.length = s.threads.length) (journal : u.journal = s.journal) : u.Told x :=
  told.congr length journal fun t fresh => absurd fresh (old t)

theorem Told.join {t : Nat} (told : s.Told (.served t))
    (length : u.threads.length = s.threads.length)
    (journal : u.journal = s.journal ++ [⟨none, .joined⟩]) : u.Told .empty := by
  obtain ⟨count, l, p, cycles, same⟩ := told
  have next := Cycles.next p cycles
  rw [Told, length, count, said_of_journal journal rfl, journal, same]
  exact next

theorem Told.announce {t : Nat} {p : Priority} (told : s.Told (.fresh t))
    (length : u.threads.length = s.threads.length)
    (journal : u.journal = s.journal ++ [⟨none, .spawned p⟩]) : u.Told (.served t) := by
  obtain ⟨count, -, cycles⟩ := told
  refine ⟨length.trans count, s.journal, p, ?_, ?_⟩
  · rwa [said_of_journal journal rfl]
  · have nothing : s.said t = [] := cycles.silent (Nat.le_refl t)
    rw [said_of_journal journal rfl, journal, nothing]
    rfl

end State

theorem told_advances {h : Host α} {s s' : State α ρ} {i : Nat} {c : Cursor α} {p : Progress α}
    {q : Pose} (step : Advances h s (.client i) c s' p) (hq : c.pose? = some q)
    (knows : c.Knows s.phase) (fits : s.Fits q) (unhurt : s.IsUnhurt)
    (drained : q = .vacant → s.pushed = s.finished) (told : s.Told (s.scene (some c))) :
    s'.Told (s'.scene p.cursor?) := by
  cases step with
  | reclaimSelf load t self | awaitSelf t self | outliveSelf t self => cases self
  | reclaimedDead load t e other ended => exact absurd ended (unhurt t e)
  | awaitedDead t e other ended | outlivedDead t e other ended => exact absurd ended (unhurt t e)
  | enter | enterJoin | status | length => cases hq
  | reclaimed load t | awaited t | outlived t =>
      exact State.Told.join (t := t) told rfl (s.journal_log _ _)
  | spawned load =>
      have cycles : Cycles s.said s.threads.length s.journal := told
      cases hq
      exact ⟨List.length_append, drained rfl, cycles⟩
  | announced load t th => exact State.Told.announce (t := t) told rfl (s.journal_log _ _)
  | reclaim load t free phase | taken t free phase | retired t phase =>
      have served : s.Told s.phase.scene := told
      rw [phase] at served
      exact served
  | vacate load free phase =>
      have empty : s.Told s.phase.scene := told
      rw [State.scene_between phase] at empty
      exact empty
  | retiredNone phase =>
      have empty : s.Told s.phase.scene := told
      cases hp : s.phase with
      | running t => exact absurd hp (knows t)
      | stopping t => exact absurd hp (phase t)
      | idle | joining => rw [hp] at empty; exact empty
  | pushed batch =>
      have told : s.Told s.phase.scene := told
      rw [State.push_eq]
      refine told.of_journal s.phase.scene_ne_fresh (s.length_roused _) ?_
      simp [State.journal, State.note, Entry.remark?]
  | marked p t =>
      cases p with
      | stop => cases hq
      | join | drop =>
          have served : s.Told s.phase.scene := told
          rw [show s.phase = .running t from knows] at served
          rw [State.push_eq]
          exact served.of_trace (s.length_roused _) rfl
  | stopFound p t | stopMissed p => cases p <;> cases hq <;> exact told
  | left load r =>
      have told : s.Told s.phase.scene := told
      exact told.of_journal s.phase.scene_ne_fresh rfl (State.journal_discard _ _)
  | swept all =>
      have told : s.Told .empty := told
      rw [← State.scene_between (by cases hq; exact fits.1)] at told
      exact told.of_journal s.phase.scene_ne_fresh rfl (State.journal_discard _ _)
  | sweptEarly =>
      have told : s.Told .empty := told
      rw [← State.scene_between (by cases hq; exact fits.1)] at told
      exact told.of_trace rfl rfl
  | _ => exact told

theorem trace_of_bystander {h : Host α} {s s' : State α ρ} {me : Agent} {c : Cursor α}
    {p : Progress α} (step : Advances h s me c s' p) (hc : c.pose? = none) :
    s'.trace = s.trace ∧ s'.threads.length = s.threads.length := by
  cases step with
  | enter | enterJoin | status | length => exact ⟨rfl, rfl⟩
  | stopFound p t | stopMissed p => cases p <;> cases hc; exact ⟨rfl, rfl⟩
  | marked p t => exact ⟨s.trace_push _, s.length_push _⟩
  | _ => cases hc

theorem scene_of_bystander {h : Host α} {s s' : State α ρ} {me : Agent} {c : Cursor α}
    {p : Progress α} (step : Advances h s me c s' p) (hc : c.pose? = none)
    (knows : c.Knows s.phase) (k : Option (Cursor α)) : s'.scene k = s.scene k := by
  have congr (same : s'.phase.scene = s.phase.scene) : s'.scene k = s.scene k := by
    rw [State.scene, State.scene]
    cases k.bind Cursor.fresh? with
    | some t => rfl
    | none => cases (k.bind Cursor.pose?).getD .resting <;> first | rfl | exact same
  apply congr
  cases step with
  | enter | enterJoin | status | length => rfl
  | stopFound p t | stopMissed p => cases p <;> cases hc; rfl
  | marked p t => rw [show s.phase = .running t from knows]; rfl
  | _ => cases hc

def State.utters (s : State α ρ) : Stage α ρ → List Line
  | .lacking _ => [.lacking]
  | .concluded _ (some p) => [.panicked p.message]
  | .exiting => [.exiting s.stats.processed.toNat]
  | _ => []

theorem journal_works {h : Host α} {s u : State α ρ} {t : Nat} {th : Thread α ρ}
    (hw : Works h s t th u) (silent : th.stage.cursor? = none) :
    u.journal = s.journal ++ (s.utters th.stage).map (Remark.mk (some t)) := by
  cases hw with
  | call a replies c rest s' p stage => rw [stage] at silent; cases silent
  | _ =>
      simp [*, State.journal, State.utters, State.setStage, State.conclude, State.letGo,
        State.count, State.log, State.note, State.discard, State.clock, Entry.remark?,
        Agent.thread?]

theorem said_works {h : Host α} {s u : State α ρ} {t : Nat} {th : Thread α ρ}
    (hw : Works h s t th u) (silent : th.stage.cursor? = none) (v : Nat) :
    u.said v = s.said v ++ if t = v then s.utters th.stage else [] := by
  rw [State.said, journal_works hw silent, List.filterMap_append, by?_written]
  rfl

theorem trace_works {h : Host α} {s u : State α ρ} {t : Nat} {th : Thread α ρ}
    (hw : Works h s t th u) (silent : th.stage.cursor? = none) (held : th.stage.held = [])
    (working : th.stage.grade = .working) : u.trace = s.trace := by
  cases hw with
  | call a replies c rest s' p stage => rw [stage] at silent; cases silent
  | _ => simp_all [State.setStage, State.letGo, Stage.grade]

theorem idle_of_fresh {s : State α ρ} {t : Nat} {th : Thread α ρ} (placed : Delivered s)
    (staff : s.Staffed (some t) false) (unhurt : s.IsUnhurt) (drained : s.pushed = s.finished)
    (ht : s.threads[t]? = some th) (alive : th.stage.grade.hasEnded = false) :
    th.stage.held = [] ∧ th.stage.grade = .working := by
  constructor
  · have same := placed.finished
    rw [drained, List.append_assoc, List.self_eq_append_right, List.append_eq_nil_iff] at same
    rw [← (flatMap_of_alive staff ht alive .starting Stage.held held_of_ended).1]
    exact same.1
  · have balance := staff.balance
    rw [State.dead_of_isUnhurt unhurt] at balance
    have working := staff.working_of_one (by simp at balance; omega)
    exact Option.some.inj ((State.grades_of_thread ht).symm.trans working)

theorem told_works {h : Host α} {s u : State α ρ} {t : Nat} {th : Thread α ρ}
    {k : Option (Cursor α)} (hw : Works h s t th u) (ht : s.threads[t]? = some th)
    (silent : th.stage.cursor? = none) (placed : Delivered s) (fits : s.FitsCall k)
    (unhurt : s.IsUnhurt) (told : s.Told (s.scene k)) : u.Told (s.scene k) := by
  have length := length_works hw silent
  obtain ⟨marked, staff, unmarked⟩ := State.staffed_of_scene fits
  have alive := running_of_works hw
  have ward := staff.alive t _ (State.grades_of_thread ht) alive
  cases hx : s.scene k with
  | empty => rw [hx] at ward; cases ward
  | fresh v =>
      rw [hx] at ward staff told
      cases ward
      cases unmarked t hx
      obtain ⟨held, working⟩ := idle_of_fresh placed staff unhurt told.2.1 ht alive
      exact told.of_trace length (trace_works hw silent held working)
  | served v =>
      rw [hx] at ward told
      cases ward
      obtain ⟨count, l, p, cycles, same⟩ := told
      have said := said_works hw silent
      refine ⟨length.trans count, l, p, cycles.congr fun v hv => ?_, ?_⟩
      · have ne : t ≠ v := by omega
        rw [said, if_neg ne, List.append_nil]
      · rw [journal_works hw silent, same, said, if_pos rfl, chapter, chapter, List.map_append]
        simp

theorem Reachable.client_of_pose {h : Host α} {s : State α ρ} {a : Agent} {c : Cursor α} {q : Pose}
    (hr : Reachable h s) (hc : s.cursor? a = some c) (hq : c.pose? = some q) :
    ∃ i, a = .client i := by
  cases a with
  | client i => exact ⟨i, rfl⟩
  | thread t => rw [Cursor.pose?_of_isModest (hr.civil.cursor hc)] at hq; cases hq

theorem Attainable.not_gone_of_alive {h : Host α} {s : State α ρ} {t : Nat} (ha : Attainable h s)
    (alive : s.IsAlive t) : s.owner ≠ .gone := by
  intro gone
  obtain ⟨g, hg, going⟩ := State.isAlive_iff.mp alive
  rw [(ha.deserted gone).ended t g hg] at going
  cases going

theorem Attainable.fitting {h : Host α} {s : State α ρ} (ha : Attainable h s) :
    Carried (fun v k => v.owner ≠ .gone → v.FitsCall k) s := by
  constructor
  · exact fun a c q hc hq here => (posed_iff_carried.mp (ha.posed here)).charged a c q hc hq
  · exact fun none here => (posed_iff_carried.mp (ha.posed here)).free none

/-- The log is a row of cycles, with the last one as far as it has come, whoever has the worker in
its hands. -/
theorem Reachable.told {h : Host α} {s : State α ρ} (hr : Reachable h s) (unhurt : s.IsUnhurt) :
    Carried (fun v k => v.Told (v.scene k)) s := by
  induction hr with
  | create settings callback clients modest =>
      refine ⟨?_, fun _ => .nil⟩
      intro a c q hc
      rw [cursor?_create] at hc
      cases hc
  | @next s u act before modest step ih =>
      have step := step_of_next step
      have unhurt' := State.IsUnhurt.of_step unhurt step
      have ha := before.attainable
      apply Carried.turn_beside ha.locked ha.fitting (ih unhurt') (step_turn step)
      · intro v k same told
        rw [State.scene_congr same.phase]
        exact told.of_trace same.length same.trace
      · intro me c s' p q cursor step hq _ told
        obtain ⟨i, rfl⟩ := before.client_of_pose cursor hq
        rw [State.scene_charge]
        refine told_advances step hq (ha.aware _ c cursor) (ha.fits cursor hq) unhurt' ?_ told
        rintro rfl
        exact (ha.isDrained_of_vacant unhurt' cursor hq).pushed
      · intro me c s' p cursor step hc hp k told
        obtain ⟨trace, length⟩ := trace_of_bystander step hc
        rw [scene_of_bystander step hc (ha.aware me c cursor)]
        exact told.of_trace length trace
      · intro me c s' p q cursor step hc hp told
        cases step with
        | enter | enterJoin => exact told
        | stopFound p t | stopMissed p | marked p t => cases p <;> cases hc; cases hp
        | status | length => cases hp
        | _ => cases hc
      · exact fun told => told
      · intro phase owner staffed aside k fits told
        rw [State.scene_congr phase]
        cases aside with
        | still trace stats length => exact told.of_trace length trace
        | work t th thread silent step =>
            have here := ha.not_gone_of_alive
              (State.isAlive_iff.mpr ⟨_, State.grades_of_thread thread, running_of_works step⟩)
            exact told_works step thread silent (ha.delivered here) (fits here) unhurt' told

theorem Reachable.last_of_alive {h : Host α} {s : State α ρ} {t : Nat} (hr : Reachable h s)
    (unhurt : s.IsUnhurt) (alive : s.IsAlive t) : s.threads.length = t + 1 := by
  obtain ⟨k, hk⟩ := s.exists_inCharge
  have here := hr.attainable.not_gone_of_alive alive
  have told := (hr.told unhurt).holds hk
  obtain ⟨marked, staff, -⟩ :=
    State.staffed_of_scene (hr.attainable.fitting.holds hk here)
  obtain ⟨g, hg, going⟩ := State.isAlive_iff.mp alive
  have ward := staff.alive t g hg going
  cases hx : s.scene k with
  | empty => rw [hx] at ward; cases ward
  | fresh v | served v =>
      rw [hx] at ward told
      cases ward
      exact told.1

end QueueWorker.Worker
