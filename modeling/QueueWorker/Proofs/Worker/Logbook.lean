import QueueWorker.Proofs.Worker.Record

namespace QueueWorker.Worker

variable {α ρ : Type}

/-- One thread in the log, complete. -/
structure Cycle where
  priority : Priority
  troubles : List Line
  items : Nat
  deriving DecidableEq, Repr

namespace Cycle

def lines (t : Nat) (c : Cycle) : List Remark :=
  chapter t c.priority (c.troubles ++ [.exiting c.items]) ++ [⟨none, .joined⟩]

theorem chapter_le_lines (t : Nat) (c : Cycle) (ended : Prop) [Decidable ended] :
    chapter t c.priority (c.troubles ++ if ended then [.exiting c.items] else []) <+:
      c.lines t := by
  rw [lines]
  split
  next => exact List.prefix_append ..
  next =>
    rw [List.append_nil, chapter, chapter, List.map_append, ← List.cons_append, List.append_assoc]
    exact List.prefix_append ..

/-- The log of threads in a row, numbered from `t` on. -/
def row : Nat → List Cycle → List Remark
  | _, [] => []
  | t, c :: cs => c.lines t ++ row (t + 1) cs

theorem row_concat (t : Nat) (cs : List Cycle) (c : Cycle) :
    row t (cs ++ [c]) = row t cs ++ c.lines (t + cs.length) := by
  induction cs generalizing t with
  | nil => simp [row]
  | cons d cs ih =>
      rw [List.cons_append, row, row, ih, List.append_assoc, List.length_cons, Nat.add_assoc,
        Nat.add_comm 1]

theorem row_dropLast (t : Nat) (cs : List Cycle) : row t cs.dropLast <+: row t cs := by
  rcases List.eq_nil_or_concat cs with rfl | ⟨front, c, rfl⟩
  · exact List.prefix_rfl
  · rw [List.concat_eq_append, List.dropLast_concat, row_concat]
    exact List.prefix_append ..

theorem writers_lines (t : Nat) (c : Cycle) :
    (c.lines t).filterMap Remark.writer = List.replicate (c.troubles.length + 1) t := by
  have written (ls : List Line) :
      (ls.map (Remark.mk (some t))).filterMap Remark.writer = List.replicate ls.length t := by
    have same : Remark.writer ∘ Remark.mk (some t) = some ∘ fun _ => t := rfl
    rw [List.filterMap_map, same, List.filterMap_eq_map, List.map_const']
  simp [lines, chapter, written, List.replicate_succ']

theorem sorted_row (t : Nat) (cs : List Cycle) :
    ((row t cs).filterMap Remark.writer).Pairwise (· ≤ ·) ∧
      ∀ w ∈ (row t cs).filterMap Remark.writer, t ≤ w := by
  induction cs generalizing t with
  | nil => simp [row]
  | cons c cs ih =>
      obtain ⟨sorted, later⟩ := ih (t + 1)
      rw [row, List.filterMap_append, writers_lines]
      constructor
      · rw [List.pairwise_append]
        refine ⟨List.pairwise_replicate.mpr (.inr (Nat.le_refl t)), sorted, ?_⟩
        intro v hv w hw
        rw [List.eq_of_mem_replicate hv]
        exact Nat.le_of_succ_le (later w hw)
      · intro w hw
        rcases List.mem_append.mp hw with hw | hw
        · exact Nat.le_of_eq (List.eq_of_mem_replicate hw).symm
        · exact Nat.le_of_succ_le (later w hw)

end Cycle

theorem forall_concat {β : Type} {P : Nat → β → Prop} {l : List β} {x : β}
    (old : ∀ (t : Nat) y, l[t]? = some y → P t y) (new : P l.length x) (t : Nat) (y : β)
    (hy : (l ++ [x])[t]? = some y) : P t y := by
  rw [List.getElem?_append] at hy
  split at hy
  next => exact old t y hy
  next later =>
    have last : t = l.length := by
      have := (List.getElem?_eq_some_iff.mp hy).1
      simp at this
      omega
    subst t
    rw [Nat.sub_self] at hy
    cases hy
    exact new

theorem Cycles.row {said : Nat → List Line} {n : Nat} {l : List Remark} {P : Nat → Cycle → Prop}
    (h : Cycles said n l) (closed : ∀ t < n, ∃ troubles items,
      said t = troubles ++ [.exiting items] ∧ ∀ p, P t ⟨p, troubles, items⟩) :
    ∃ cs : List Cycle, cs.length = n ∧ l = Cycle.row 0 cs ∧ ∀ t c, cs[t]? = some c → P t c := by
  induction h with
  | nil => exact ⟨[], rfl, rfl, by simp⟩
  | @next n l p before ih =>
      obtain ⟨cs, rfl, rfl, hP⟩ := ih fun t ht => closed t (Nat.lt_succ_of_lt ht)
      obtain ⟨troubles, items, same, new⟩ := closed _ (Nat.lt_succ_self _)
      refine ⟨cs ++ [⟨p, troubles, items⟩], by simp, ?_, forall_concat hP (new p)⟩
      rw [Cycle.row_concat, Nat.zero_add, Cycle.lines, ← same, List.append_assoc]

/-- What is on record of each thread, and of the markers left for them. -/
structure Recorded (s : State α ρ) (stops : List Nat) : Prop where
  marked : s.Marked stops
  spoken : s.Spoken
  met : s.Met stops

/-- Behind how many items each marker of a run is left. -/
def State.stops (h : Host α) (s : State α ρ) (acts : List (Act α ρ)) : List Nat :=
  s.gather h State.stop? acts

theorem recorded_create (settings : Settings) (callback : Option (Callback α ρ)) (clients : Nat) :
    Recorded (State.create settings callback clients) [] where
  marked := ⟨[], 0, rfl, rfl, rfl⟩
  spoken _ _ := rfl
  met t g hg := by simp [State.create, State.grades] at hg

theorem Recorded.step {h : Host α} {s u : State α ρ} {act : Act α ρ} {stops : List Nat}
    (hs : Recorded s stops) (hr : Reachable h s) (unhurt : s.IsUnhurt) (step : Step h s act u) :
    Recorded u (stops ++ (s.stop? act).toList) where
  marked := marked_step hr.attainable unhurt hs.marked step
  spoken := spoken_step hr hs.spoken step
  met := met_step hr unhurt hs.marked hs.spoken hs.met step

theorem recorded_run {h : Host α} {settings : Settings} {callback : Option (Callback α ρ)}
    {clients : Nat} {acts : List (Act α ρ)} {s : State α ρ}
    (modest : ∀ f, callback = some f → Callback.Modest f) (proper : ∀ act ∈ acts, act.Modest)
    (run : (State.create settings callback clients).run? h acts = some s) (unhurt : s.IsUnhurt) :
    Recorded s ((State.create settings callback clients).stops h acts) := by
  have start : Reachable h (State.create settings callback clients) := .create _ _ _ modest
  have keeps := (Walk.of_run start proper run).gather_keeps (f := State.stop?) (l := [])
    (P := fun v l => Reachable h v ∧ (v.IsUnhurt → Recorded v l)) start.attainable ?_
    ⟨start, fun _ => recorded_create settings callback clients⟩
  · exact keeps.2 unhurt
  · rintro v w act l ha step hm ⟨hv, recorded⟩
    refine ⟨hv.next (proper act hm) (next_of_step step), fun unhurt => ?_⟩
    have unhurt' := unhurt.of_step step
    exact (recorded unhurt').step hv unhurt' step

def Line.isSpawn : Line → Bool
  | spawned _ => true
  | _ => false

def State.spawns (s : State α ρ) : Nat := s.journal.countP (fun r => r.line.isSpawn)

theorem State.isSpawn_troubles (s : State α ρ) (t : Nat) :
    (s.troubles t).countP Line.isSpawn = 0 := by
  rw [List.countP_eq_zero]
  intro l hl
  obtain ⟨o, -, ho⟩ := List.mem_filterMap.mp hl
  cases o <;> cases ho <;> exact Bool.noConfusion

theorem State.isSpawn_voice (s : State α ρ) (t : Nat) : (s.voice t).countP Line.isSpawn = 0 := by
  cases thread : s.threads[t]? with
  | none => simp [voice, voices, thread]
  | some th =>
      rw [voice_of_thread thread]
      cases th.stage <;> rfl

theorem isSpawn_chapter (t : Nat) (p : Priority) {ls : List Line}
    (silent : ls.countP Line.isSpawn = 0) :
    (chapter t p ls).countP (fun r => r.line.isSpawn) = 1 := by
  rw [chapter, List.countP_cons, List.countP_map]
  exact congrArg (· + 1) silent

namespace Recorded

variable {h : Host α} {s : State α ρ} {stops : List Nat} {t : Nat}

theorem ended (hs : Recorded s stops) (ended : s.end? t = some none) : ∃ k, stops[t]? = some k ∧
    k ≤ s.outcomes.length ∧ s.said t = s.troubles t ++ [.exiting (s.returned k)] := by
  obtain ⟨th, thread, exited⟩ := Option.bind_eq_some_iff.mp ended
  have grade : s.grades[t]? = some .exited := by
    rw [State.grades_of_thread thread]
    cases hst : th.stage <;> simp_all [Stage.end?, Stage.grade]
  obtain ⟨k, stop, counted, -, told⟩ := hs.met t .exited grade rfl
  exact ⟨k, stop, counted, told rfl⟩

theorem voice_of_ended (ended : s.end? t = some none) : s.voice t = [] := by
  obtain ⟨th, thread, exited⟩ := Option.bind_eq_some_iff.mp ended
  rw [State.voice_of_thread thread]
  cases hst : th.stage <;> simp_all [Stage.end?]

theorem isSpawn_said (hs : Recorded s stops) (t : Nat) : (s.said t).countP Line.isSpawn = 0 := by
  by_cases ended : s.end? t = some none
  · obtain ⟨k, -, -, said⟩ := hs.ended ended
    rw [said, List.countP_append, s.isSpawn_troubles]
    rfl
  · rw [hs.spoken t ended, List.countP_append, s.isSpawn_troubles, s.isSpawn_voice]

end Recorded

theorem Cycles.spawns {said : Nat → List Line} {n : Nat} {l : List Remark} (h : Cycles said n l)
    (silent : ∀ t, (said t).countP Line.isSpawn = 0) : l.countP (fun r => r.line.isSpawn) = n := by
  induction h with
  | nil => rfl
  | @next n l p before ih =>
      rw [List.countP_append, List.countP_append, ih, isSpawn_chapter n p (silent n)]
      rfl

theorem State.Told.spawns {s : State α ρ} {k : Option (Cursor α)} (told : s.Told (s.scene k))
    (silent : ∀ t, (s.said t).countP Line.isSpawn = 0) :
    s.threads.length = s.spawns + if (k.bind Cursor.fresh?).isSome then 1 else 0 := by
  cases hf : k.bind Cursor.fresh? with
  | some t =>
      rw [State.scene, hf] at told
      rw [told.1, State.spawns, told.2.2.spawns silent]
      rfl
  | none =>
      have told : s.Told (((k.bind Cursor.pose?).getD .resting).scene s.phase) := by
        rwa [State.scene, hf] at told
      generalize hx : ((k.bind Cursor.pose?).getD .resting).scene s.phase = x at told
      cases x with
      | empty =>
          have cycles : Cycles s.said s.threads.length s.journal := told
          exact (cycles.spawns silent).symm
      | fresh t => exact absurd hx (Pose.scene_ne_fresh _ _ t)
      | served t =>
          obtain ⟨count, l, p, cycles, same⟩ := told
          rw [count, State.spawns, same, List.countP_append, cycles.spawns silent,
            isSpawn_chapter t p (silent t)]
          rfl

theorem Recorded.counted {h : Host α} {s : State α ρ} {stops : List Nat} (hs : Recorded s stops)
    (hr : Reachable h s) (unhurt : s.IsUnhurt) :
    (∀ a load t, s.cursor? a = some (.announcing load t) →
      s.stats.spawned = UInt64.ofNat (s.spawns + 1)) ∧
    ((∀ a load t, s.cursor? a ≠ some (.announcing load t)) →
      s.stats.spawned = UInt64.ofNat s.spawns) := by
  have known {k : Option (Cursor α)} (hk : s.InCharge k) :
      s.stats.spawned + uncounted k =
        UInt64.ofNat (s.spawns + if (k.bind Cursor.fresh?).isSome then 1 else 0) := by
    rw [← ((hr.told unhurt).holds hk).spawns hs.isSpawn_said]
    exact ((hr.attainable.balanced unhurt).holds hk).spawned
  constructor
  · intro a load t cursor
    have charged : s.InCharge (some (.announcing load t)) := ⟨a, _, cursor, rfl⟩
    exact (UInt64.add_zero _).symm.trans (known charged)
  · intro nobody
    obtain ⟨k, hk⟩ := s.exists_inCharge
    have count := known hk
    rcases k with - | c
    · exact (UInt64.add_zero _).symm.trans count
    · obtain ⟨a, q, cursor, -⟩ := hk
      cases c with
      | announcing load t => exact absurd cursor (nobody a load t)
      | counting load t =>
          rw [UInt64.ofNat_add] at count
          exact (UInt64.add_left_inj 1).mp count
      | _ => exact (UInt64.add_zero _).symm.trans count

/-- A complete cycle of a thread as far as it is known: a line for each item that has been skipped
or has panicked, and at the end how many have been processed of those pushed before the marker. -/
structure Cycle.Tells (s : State α ρ) (stops : List Nat) (t : Nat) (c : Cycle) : Prop where
  troubles : c.troubles = s.troubles t ++ s.voice t
  said : s.said t = c.troubles ++ if s.end? t = some none then [.exiting c.items] else []
  items : s.end? t = some none → ∃ k, stops[t]? = some k ∧ k ≤ s.outcomes.length ∧
    (s.outcomes.take k).map Prod.fst = s.pushed.take k ∧ c.items = s.returned k

theorem Attainable.outcomes_take {h : Host α} {s : State α ρ} {k : Nat} (ha : Attainable h s)
    (unhurt : s.IsUnhurt) (counted : k ≤ s.outcomes.length) :
    (s.outcomes.take k).map Prod.fst = s.pushed.take k := by
  have enough : k ≤ s.finished.length := by rwa [s.finished_eq, List.length_map]
  rw [List.map_take, ← s.finished_eq, (ha.placed unhurt).1, List.append_assoc,
    List.take_append_of_le_length enough]

namespace Recorded

variable {h : Host α} {s : State α ρ} {stops : List Nat}

theorem tells (hs : Recorded s stops) (ha : Attainable h s) (unhurt : s.IsUnhurt) (t : Nat) :
    ∃ troubles items, ∀ p, Cycle.Tells s stops t ⟨p, troubles, items⟩ := by
  by_cases ended : s.end? t = some none
  · obtain ⟨k, stop, counted, said⟩ := hs.ended ended
    refine ⟨s.troubles t ++ s.voice t, s.returned k, fun p => ⟨rfl, ?_, fun _ => ?_⟩⟩
    · rw [if_pos ended, voice_of_ended ended, List.append_nil]
      exact said
    · exact ⟨k, stop, counted, ha.outcomes_take unhurt counted, rfl⟩
  · refine ⟨s.troubles t ++ s.voice t, 0, fun p => ⟨rfl, ?_, fun now => absurd now ended⟩⟩
    rw [if_neg ended, List.append_nil]
    exact hs.spoken t ended

end Recorded

theorem Attainable.ended_of_scene {h : Host α} {s : State α ρ} {k : Option (Cursor α)} {t : Nat}
    (ha : Attainable h s) (unhurt : s.IsUnhurt) (hk : s.InCharge k) (lt : t < s.threads.length)
    (other : (s.scene k).ward ≠ some t) : s.end? t = some none := by
  have thread : s.threads[t]? = some s.threads[t] := List.getElem?_eq_getElem lt
  have ended : s.threads[t].stage.grade.hasEnded = true := by
    by_cases gone : s.owner = .gone
    · exact (ha.deserted gone).ended t _ (State.grades_of_thread thread)
    · obtain ⟨marked, staff, -⟩ := State.staffed_of_scene (ha.fitting.holds hk gone)
      by_contra alive
      exact other (staff.alive t _ (State.grades_of_thread thread) (by simpa using alive))
  rw [Stage.hasEnded_grade] at ended
  obtain ⟨e, he⟩ := Option.isSome_iff_exists.mp ended
  have now : s.end? t = some e := by rw [State.end?, thread]; exact he
  cases e with
  | none => exact now
  | some p => exact absurd now (unhurt t p)

/-- The log as far as it goes with the cycles of its threads, the last one being under way. -/
structure Unfolds (s : State α ρ) (stops : List Nat) (cycles : List Cycle) : Prop where
  length : cycles.length = s.threads.length
  earlier : Cycle.row 0 cycles.dropLast <+: s.journal
  part : s.journal <+: Cycle.row 0 cycles
  tells : ∀ (t : Nat) (c : Cycle), cycles[t]? = some c → c.Tells s stops t

theorem Unfolds.concat {s : State α ρ} {stops : List Nat} {cs : List Cycle} {c : Cycle}
    {rest : List Remark} (length : s.threads.length = cs.length + 1)
    (journal : s.journal = Cycle.row 0 cs ++ rest) (part : rest <+: c.lines cs.length)
    (tells : ∀ (t : Nat) (c : Cycle), cs[t]? = some c → c.Tells s stops t)
    (last : c.Tells s stops cs.length) : Unfolds s stops (cs ++ [c]) where
  length := by rw [length, List.length_append]; rfl
  earlier := by rw [List.dropLast_concat, journal]; exact List.prefix_append ..
  part := by
    rw [journal, Cycle.row_concat, Nat.zero_add]
    exact (List.prefix_append_right_inj _).mpr part
  tells := forall_concat tells last

theorem Recorded.unfolds {h : Host α} {s : State α ρ} {stops : List Nat} (hs : Recorded s stops)
    (hr : Reachable h s) (unhurt : s.IsUnhurt) : ∃ cycles, Unfolds s stops cycles := by
  obtain ⟨k, hk⟩ := s.exists_inCharge
  have told := (hr.told unhurt).holds hk
  have closed {n : Nat} (ended : ∀ t < n, s.end? t = some none) : ∀ t < n, ∃ troubles items,
      s.said t = troubles ++ [.exiting items] ∧
        ∀ p, Cycle.Tells s stops t ⟨p, troubles, items⟩ := by
    intro t ht
    obtain ⟨troubles, items, tells⟩ := hs.tells hr.attainable unhurt t
    have said := (tells s.settings.priority).said
    rw [if_pos (ended t ht)] at said
    exact ⟨troubles, items, said, tells⟩
  have ended (t : Nat) := hr.attainable.ended_of_scene (t := t) unhurt hk
  cases hx : s.scene k with
  | empty =>
      rw [hx] at told ended
      have cycles : Cycles s.said s.threads.length s.journal := told
      obtain ⟨cs, length, journal, tells⟩ :=
        cycles.row (closed fun t lt => ended t lt (fun he => by cases he))
      exact ⟨cs, length, journal ▸ Cycle.row_dropLast 0 cs, journal ▸ List.prefix_rfl, tells⟩
  | fresh t =>
      rw [hx] at told ended
      obtain ⟨length, -, cycles⟩ := told
      obtain ⟨cs, rfl, journal, tells⟩ := cycles.row (closed fun v hv =>
        ended v (by omega) (fun he => by cases he; exact Nat.lt_irrefl _ hv))
      obtain ⟨troubles, items, last⟩ := hs.tells hr.attainable unhurt cs.length
      have journal : s.journal = Cycle.row 0 cs ++ [] := by rw [List.append_nil, journal]
      exact ⟨_, .concat length journal List.nil_prefix tells (last s.settings.priority)⟩
  | served t =>
      rw [hx] at told ended
      obtain ⟨length, l, p, cycles, journal⟩ := told
      obtain ⟨cs, rfl, rfl, tells⟩ := cycles.row (closed fun v hv =>
        ended v (by omega) (fun he => by cases he; exact Nat.lt_irrefl _ hv))
      obtain ⟨troubles, items, last⟩ := hs.tells hr.attainable unhurt cs.length
      refine ⟨_, .concat length journal ?_ tells (last p)⟩
      rw [(last p).said]
      exact Cycle.chapter_le_lines cs.length ⟨p, troubles, items⟩ _

/-- Whatever the clients do, and with callbacks of any kind that leave it to others to start
threads, the log is the first part of a row of cycles, one for each thread. The threads write one
behind the other, each a line for every item that it skips or that panics and, as its last one, how
many have been processed of those pushed before its marker. The counter of threads is ahead of the
log only between its update and the line. -/
theorem log_faithful {h : Host α} {settings : Settings} {callback : Option (Callback α ρ)}
    {clients : Nat} {acts : List (Act α ρ)} {s : State α ρ}
    (modest : ∀ f, callback = some f → Callback.Modest f) (proper : ∀ act ∈ acts, act.Modest)
    (run : (State.create settings callback clients).run? h acts = some s) (unhurt : s.IsUnhurt) :
    (∃ cycles, Unfolds s ((State.create settings callback clients).stops h acts) cycles) ∧
    (s.journal.filterMap Remark.writer).Pairwise (· ≤ ·) ∧
    (∀ a load t, s.cursor? a = some (.announcing load t) →
      s.stats.spawned = UInt64.ofNat (s.spawns + 1)) ∧
    ((∀ a load t, s.cursor? a ≠ some (.announcing load t)) →
      s.stats.spawned = UInt64.ofNat s.spawns) := by
  have hr : Reachable h s := (Reachable.create _ _ _ modest).run proper run
  have recorded := recorded_run modest proper run unhurt
  obtain ⟨cycles, unfolds⟩ := recorded.unfolds hr unhurt
  refine ⟨⟨cycles, unfolds⟩, ?_, recorded.counted hr unhurt⟩
  exact (Cycle.sorted_row 0 cycles).1.sublist (unfolds.part.sublist.filterMap _)

def grumble : Callback Nat Unit := fun _ a => if a = 7 then .unwind (.text "seven") else .finish

def startBehindJoin : List (Act Nat Unit) :=
  .call 0 (.sendAll [5, 7]) :: List.replicate 9 (.client 0) ++ List.replicate 12 (.thread 0) ++
    .call 0 .join :: List.replicate 3 (.client 0) ++ List.replicate 2 (.thread 0) ++
    List.replicate 4 (.client 0) ++ .call 0 .start :: List.replicate 4 (.client 0)

theorem grumble_modest : ∀ f, some grumble = some f → Callback.Modest f := by
  rintro f ⟨⟩ visits a
  by_cases seven : a = 7 <;> simp [grumble, seven, Script.Modest]

theorem log_faithful_startBehindJoin :
    ∃ s, (State.create {} (some grumble) 1).run? Host.calm startBehindJoin = some s ∧
      s.journal = [⟨none, .spawned .normal⟩, ⟨some 0, .panicked "seven"⟩, ⟨some 0, .exiting 1⟩,
        ⟨none, .joined⟩] ∧
      (∃ cycles, Unfolds s [2] cycles) ∧ s.stats.spawned = UInt64.ofNat (s.spawns + 1) := by
  have hp : ((State.create {} (some grumble) 1).run? Host.calm startBehindJoin).any (fun s =>
      s.journal = [⟨none, .spawned .normal⟩, ⟨some 0, .panicked "seven"⟩, ⟨some 0, .exiting 1⟩,
        ⟨none, .joined⟩] && s.deaths = 0 &&
      s.clients[0]?.any (Client.isAt (.announcing none 1))) = true := by decide
  have stops : (State.create {} (some grumble) 1).stops Host.calm startBehindJoin = [2] := by decide
  have proper : ∀ act ∈ startBehindJoin, act.Modest := by simp [startBehindJoin, Act.Modest]
  obtain ⟨s, hs, hr, hp⟩ := Reachable.of_run hp grumble_modest proper
  simp only [Bool.and_eq_true, decide_eq_true_eq] at hp
  obtain ⟨⟨journal, deaths⟩, announcing⟩ := hp
  obtain ⟨unfolds, -, ahead, -⟩ :=
    log_faithful grumble_modest proper hs (State.isUnhurt_iff.mpr deaths)
  refine ⟨s, hs, journal, stops ▸ unfolds, ahead (.client 0) none 1 ?_⟩
  rw [State.cursor?_of_client (Client.eq_of_isAt announcing)]
  rfl

end QueueWorker.Worker
