import QueueWorker.Proofs.Worker.Journal
import QueueWorker.Proofs.Worker.Waiting

namespace QueueWorker.Worker

variable {α ρ : Type}

/-- What has come of an item in the hands of a thread. -/
def Entry.outcomeOf? (t : Nat) : Entry α ρ → Option Outcome
  | .counted v _ o => if v = t then some o else none
  | _ => none

def Outcome.trouble? : Outcome → Option Line
  | returned => none
  | panicked p => some (.panicked p.message)
  | skipped => some .lacking

namespace Stage

@[simp] def voice : Stage α ρ → List Line
  | .skipping _ => [.lacking]
  | .noted _ p => [.panicked p.message]
  | _ => []

@[simp] def counts : Stage α ρ → List Outcome
  | .skipping _ => [.skipped]
  | .concluded _ none => [.returned]
  | .noted _ p => [.panicked p]
  | _ => []

theorem trouble_counts (st : Stage α ρ) : st.counts.filterMap Outcome.trouble? = st.voice := by
  cases st with
  | concluded a o => cases o <;> rfl
  | _ => rfl

end Stage

namespace State

def outcomesOf (s : State α ρ) (t : Nat) : List Outcome := s.trace.filterMap (Entry.outcomeOf? t)

/-- The lines due for the items that a thread has counted. -/
def troubles (s : State α ρ) (t : Nat) : List Line := (s.outcomesOf t).filterMap Outcome.trouble?

def voices (s : State α ρ) : List (List Line) := s.threads.map (fun th => th.stage.voice)

def voice (s : State α ρ) (t : Nat) : List Line := s.voices[t]?.getD []

theorem voice_of_voices {s u : State α ρ} (same : u.voices = s.voices) : u.voice = s.voice := by
  funext t
  rw [voice, voice, same]

theorem voices_push (s : State α ρ) (ms : List (Message α)) : (s.push ms).voices = s.voices := by
  rw [push_eq]
  exact s.map_roused ms _ fun th hst => by simp [hst]

theorem voice_of_thread {s : State α ρ} {t : Nat} {th : Thread α ρ} (ht : s.threads[t]? = some th) :
    s.voice t = th.stage.voice := by
  simp [voice, voices, ht]

theorem voice_setStage {s : State α ρ} {t : Nat} {th : Thread α ρ} (ht : s.threads[t]? = some th)
    (stage : Stage α ρ) (v : Nat) :
    (s.setStage t stage).voice v = if t = v then stage.voice else s.voice v := by
  by_cases htv : t = v
  · subst v
    simp [voice, voices, setStage, ht]
  · simp [voice, voices, setStage, htv]

/-- What is kept by the callers, and by the callbacks as long as they leave it to others to start
threads: what the threads have written, what they have counted, and how far they are. There may be
one thread more. -/
structure Steady (s u : State α ρ) : Prop where
  said : u.said = s.said
  counted : u.outcomesOf = s.outcomesOf
  outcomes : u.outcomes = s.outcomes
  voice : u.voice = s.voice
  grades : u.grades = s.grades ∨ u.grades = s.grades ++ [.working]

end State

def Entry.IsQuiet : Entry α ρ → Prop
  | .counted .. | .logged (.thread _) _ => False
  | _ => True

theorem filterMap_of_quiet {β : Type} {new : List (Entry α ρ)} {f : Entry α ρ → Option β}
    (quiet : ∀ e ∈ new, e.IsQuiet) (hf : ∀ e : Entry α ρ, e.IsQuiet → f e = none) :
    new.filterMap f = [] :=
  List.filterMap_eq_nil_iff.mpr fun e he => hf e (quiet e he)

namespace State.Steady

variable {s u : State α ρ}

theorem of_trace {new : List (Entry α ρ)} (trace : u.trace = s.trace ++ new)
    (quiet : ∀ e ∈ new, e.IsQuiet) (voice : u.voice = s.voice)
    (grades : u.grades = s.grades ∨ u.grades = s.grades ++ [.working]) : s.Steady u := by
  refine ⟨?_, ?_, ?_, voice, grades⟩
  · funext t
    have nothing : new.filterMap (fun e => e.remark?.bind (Remark.by? t)) = [] := by
      refine filterMap_of_quiet quiet fun e he => ?_
      cases e with
      | logged who line =>
          cases who with
          | client i => simp [Entry.remark?, Remark.by?, Agent.thread?]
          | thread t => exact he.elim
      | _ => rfl
    simp [State.said, State.journal, trace, List.filterMap_filterMap, nothing]
  · funext t
    have nothing : new.filterMap (Entry.outcomeOf? t) = [] :=
      filterMap_of_quiet quiet fun e he => by cases e <;> first | rfl | exact he.elim
    simp [State.outcomesOf, trace, nothing]
  · have nothing : new.filterMap Entry.outcome? = [] :=
      filterMap_of_quiet quiet fun e he => by cases e <;> first | rfl | exact he.elim
    simp [State.outcomes, trace, nothing]

theorem of_still (trace : u.trace = s.trace) (voice : u.voice = s.voice)
    (grades : u.grades = s.grades) : s.Steady u := by
  have none : u.trace = s.trace ++ [] := trace.trans (List.append_nil _).symm
  exact .of_trace none (by simp) voice (.inl grades)

theorem still {v : State α ρ} (first : s.Steady v) (trace : u.trace = v.trace)
    (voice : u.voice = v.voice) (grades : u.grades = v.grades) : s.Steady u := by
  have second : v.Steady u := .of_still trace voice grades
  exact ⟨second.said.trans first.said, second.counted.trans first.counted,
    second.outcomes.trans first.outcomes, voice.trans first.voice, grades ▸ first.grades⟩

theorem restage {v : State α ρ} {t : Nat} {th : Thread α ρ} {stage : Stage α ρ}
    (first : s.Steady v) (ht : v.threads[t]? = some th) (voice : stage.voice = th.stage.voice)
    (grade : stage.grade = th.stage.grade) : s.Steady (v.setStage t stage) := by
  exact first.still rfl (voice_of_voices (map_setStage ht (fun th => th.stage.voice) voice))
    (map_setStage ht (fun th => th.stage.grade) grade)

end State.Steady

theorem quiet_advances {h : Host α} {s s' : State α ρ} {me : Agent} {c : Cursor α}
    {p : Progress α} (step : Advances h s me c s' p)
    (caller : c.pose?.isSome → me.thread? = none) :
    ∃ new : List (Entry α ρ), s'.trace = s.trace ++ new ∧ ∀ e ∈ new, e.IsQuiet := by
  cases step with
  | pushed batch =>
      refine ⟨[.queued me batch], ?_, by simp [Entry.IsQuiet]⟩
      simp [State.note, s.trace_push]
  | marked q t => exact ⟨[], by simp [s.trace_push], by simp⟩
  | reclaimed | reclaimedDead | announced | awaited | outlived | outlivedDead =>
      cases me with
      | thread t => cases caller rfl
      | client i => exact ⟨_, rfl, by simp [Entry.IsQuiet]⟩
  | reclaimSelf | left | swept =>
      refine ⟨_, rfl, ?_⟩
      intro e he
      obtain ⟨a, -, rfl⟩ := List.mem_map.mp he
      trivial
  | _ => exact ⟨[], (List.append_nil _).symm, by simp⟩

theorem grades_advances {h : Host α} {s s' : State α ρ} {me : Agent} {c : Cursor α}
    {p : Progress α} (step : Advances h s me c s' p) :
    s'.grades = s.grades ∨ s'.grades = s.grades ++ [.working] := by
  cases step with
  | pushed batch | marked q t => exact .inl (s.grades_push _)
  | spawned load => exact .inr (by simp [State.grades, Stage.grade])
  | _ => exact .inl rfl

theorem voice_advances {h : Host α} {s s' : State α ρ} {me : Agent} {c : Cursor α}
    {p : Progress α} (step : Advances h s me c s' p) : s'.voice = s.voice := by
  cases step with
  | pushed batch | marked q t => exact State.voice_of_voices (s.voices_push _)
  | spawned load =>
      funext v
      simp only [State.voice, State.voices, List.map_append, List.getElem?_append]
      split
      next => rfl
      next later =>
        have none : (s.threads.map fun th => th.stage.voice)[v]? = none :=
          List.getElem?_eq_none (by simpa using later)
        rw [none]
        cases v - (s.threads.map fun th => th.stage.voice).length <;> rfl
  | _ => rfl

theorem steady_advances {h : Host α} {s s' : State α ρ} {me : Agent} {c : Cursor α}
    {p : Progress α} (step : Advances h s me c s' p)
    (caller : c.pose?.isSome → me.thread? = none) : s.Steady s' := by
  obtain ⟨new, trace, quiet⟩ := quiet_advances step caller
  exact .of_trace trace quiet (voice_advances step) (grades_advances step)

theorem steady_step {h : Host α} {s u : State α ρ} {act : Act α ρ} (hr : Reachable h s)
    (step : Step h s act u) : s.Steady u ∨ ∃ t th, act = .thread t ∧ s.threads[t]? = some th ∧
      th.stage.cursor? = none ∧ Works h s t th u := by
  have same : s.Steady s := .of_still rfl rfl rfl
  cases step with
  | client i c s' p client step =>
      exact .inl ((steady_advances step fun _ => rfl).still rfl rfl rfl)
  | thread t th u thread step =>
      cases hc : th.stage.cursor? with
      | none => exact .inr ⟨t, th, rfl, thread, hc, step⟩
      | some c =>
          left
          obtain ⟨a, replies, rest, s', p, stage, further, rfl⟩ := step.call_of_cursor hc
          have modest := hr.civil.cursor ((State.cursor?_of_thread thread).trans hc)
          have first : s.Steady s' := steady_advances further (by
            rw [Cursor.pose?_of_isModest modest]; exact Bool.noConfusion)
          have ht' := threads_advances further thread (by simp [stage]) (by simp [stage])
          have concluded : s.Steady { s' with slot := s'.slot.visited ⟨a, replies⟩ } :=
            first.still rfl rfl rfl
          cases p with
          | «at» | answer => exact first.restage ht' (by rw [stage]; rfl) (by rw [stage]; rfl)
          | unwind q => exact concluded.restage ht' (by rw [stage]; rfl) (by rw [stage]; rfl)
  | release t th a replies rest thread stage =>
      exact .inl (same.restage thread (by rw [stage]; rfl) (by rw [stage]; rfl))
  | stir t th thread stage =>
      exact .inl (same.restage thread (by rw [stage]; rfl) (by rw [stage]; rfl))
  | _ => exact .inl (.of_still rfl rfl rfl)

/-- Each thread has written what is due for the items that it has counted, and a line for the one
in its hands at most. -/
def State.Spoken (s : State α ρ) : Prop :=
  ∀ t, s.end? t ≠ some none → s.said t = s.troubles t ++ s.voice t

theorem counted_works {h : Host α} {s u : State α ρ} {t : Nat} {th : Thread α ρ}
    (hw : Works h s t th u) (silent : th.stage.cursor? = none) (v : Nat) :
    u.outcomesOf v = s.outcomesOf v ++ if t = v then th.stage.counts else [] := by
  cases hw with
  | call a replies c rest s' p stage => rw [stage] at silent; cases silent
  | skip a stage | returned a stage | panicked a p stage =>
      by_cases htv : t = v <;>
        simp [stage, htv, State.outcomesOf, State.setStage, State.letGo, State.count, State.note,
          State.discard, State.clock, Entry.outcomeOf?]
  | _ =>
      simp [*, State.outcomesOf, State.setStage, State.conclude, State.letGo,
        State.log, State.note, State.clock, Entry.outcomeOf?]

theorem troubles_works {h : Host α} {s u : State α ρ} {t : Nat} {th : Thread α ρ}
    (hw : Works h s t th u) (silent : th.stage.cursor? = none) (v : Nat) :
    u.troubles v = s.troubles v ++ if t = v then th.stage.voice else [] := by
  rw [State.troubles, counted_works hw silent, List.filterMap_append]
  split
  next => rw [Stage.trouble_counts]; rfl
  next => rfl

theorem voice_works {h : Host α} {s u : State α ρ} {t v : Nat} {th : Thread α ρ}
    (hw : Works h s t th u) (ht : s.threads[t]? = some th) (silent : th.stage.cursor? = none)
    (going : t = v → u.end? t ≠ some none) :
    u.voice v = if t = v then s.utters th.stage else s.voice v := by
  cases hw with
  | call a replies c rest s' p stage => rw [stage] at silent; cases silent
  | start stage =>
      have silent : s.voice t = [] := by rw [State.voice_of_thread ht, stage]; rfl
      rw [State.voice, State.voices,
        map_set_of_eq ht (fun th => th.stage.voice) (by rw [stage]; rfl), stage]
      split
      next htv => exact htv ▸ silent
      next => rfl
  | exit stage =>
      have ended : State.end? ((s.log (.thread t) (.exiting s.stats.processed.toNat)).setStage t
          .exited) t = some none := by
        simp [State.end?, State.setStage, State.log, State.note, ht, Stage.end?]
      rw [if_neg fun same => going same ended]
      exact (State.voice_setStage ht _ v).trans (if_neg fun same => going same ended)
  | skip a stage | letGo a stage =>
      refine (State.voice_setStage ht _ v).trans ?_
      simp only [stage, State.utters]
      split
      next => split <;> rfl
      next => rfl
  | _ =>
      refine (State.voice_setStage ht _ v).trans ?_
      simp [*, State.utters]

theorem spoken_step {h : Host α} {s u : State α ρ} {act : Act α ρ} (hr : Reachable h s)
    (hs : s.Spoken) (step : Step h s act u) : u.Spoken := by
  intro t going
  have before := hs t fun ended => going (end?_step step ended)
  obtain steady | ⟨v, th, rfl, thread, silent, hw⟩ := steady_step hr step
  · rw [steady.said, State.troubles, steady.counted, steady.voice]
    exact before
  · rw [said_works hw silent, troubles_works hw silent, before,
      voice_works hw thread silent fun same => same ▸ going]
    by_cases hv : v = t
    · subst v
      rw [if_pos rfl, if_pos rfl, if_pos rfl, State.voice_of_thread thread]
    · simp [hv]

/-- Behind how many items each marker in the queue stands, those before the queue included. -/
def marks (base : Nat) : List (Message α) → List Nat
  | [] => []
  | .item _ :: ms => marks (base + 1) ms
  | .stop :: ms => base :: marks base ms

theorem marks_append (base : Nat) (ms ns : List (Message α)) :
    marks base (ms ++ ns) =
      marks base ms ++ marks (base + (ms.filterMap Message.item?).length) ns := by
  induction ms generalizing base with
  | nil => rfl
  | cons m ms ih =>
      cases m with
      | item a =>
          simp only [List.cons_append, marks, ih, List.filterMap_cons, Message.item?,
            List.length_cons]
          rw [Nat.add_right_comm, Nat.add_assoc]
      | stop => simp only [List.cons_append, marks, ih, List.filterMap_cons, Message.item?]

theorem marks_items (base : Nat) (as : List α) : marks base (as.map .item) = [] := by
  induction as generalizing base with
  | nil => rfl
  | cons a as ih => exact ih (base + 1)

def Cursor.stop? (pushed : Nat) : Cursor α → Option Nat
  | .marking .. => some pushed
  | _ => none

namespace State

def stop? (s : State α ρ) (act : Act α ρ) : Option Nat :=
  (act.agent?.bind s.cursor?).bind (Cursor.stop? s.pushed.length)

/-- The markers left so far are those taken and those in the queue, in order. -/
def Marked (s : State α ρ) (stops : List Nat) : Prop :=
  ∃ front base, base + s.queued.length = s.pushed.length ∧ stops = front ++ marks base s.queue ∧
    front.length = halts s.grades

theorem Marked.grow {s u : State α ρ} {stops : List Nat} (hs : s.Marked stops)
    (ms : List (Message α)) (queue : u.queue = s.queue ++ ms)
    (pushed : u.pushed = s.pushed ++ ms.filterMap Message.item?)
    (met : halts u.grades = halts s.grades) : u.Marked (stops ++ marks s.pushed.length ms) := by
  obtain ⟨front, base, total, rfl, taken⟩ := hs
  refine ⟨front, base, ?_, ?_, taken.trans met.symm⟩
  · rw [queued, queue, pushed, List.filterMap_append, List.length_append, List.length_append,
      ← total, Nat.add_assoc]
    rfl
  · rw [queue, marks_append, ← total, List.append_assoc]
    rfl

theorem Marked.congr {s u : State α ρ} {stops : List Nat} (hs : s.Marked stops)
    (queue : u.queue = s.queue) (pushed : u.pushed = s.pushed)
    (met : halts u.grades = halts s.grades) : u.Marked stops := by
  have grown := hs.grow [] (by simpa using queue) (by simpa using pushed) met
  simpa [marks] using grown

end State

theorem halts_advances {h : Host α} {s s' : State α ρ} {me : Agent} {c : Cursor α}
    {p : Progress α} (step : Advances h s me c s' p) : halts s'.grades = halts s.grades := by
  rcases grades_advances step with same | grown
  · rw [same]
  · simp [grown, halts, Grade.metStop]

theorem marked_advances {h : Host α} {s s' : State α ρ} {me : Agent} {c : Cursor α}
    {p : Progress α} {stops : List Nat} (hs : s.Marked stops) (step : Advances h s me c s' p)
    (swept : c = .sweeping → s.queue = []) :
    s'.Marked (stops ++ (c.stop? s.pushed.length).toList) := by
  have met := halts_advances step
  have old : s.Marked (stops ++ []) := by rwa [List.append_nil]
  cases step with
  | pushed batch =>
      have none : marks s.pushed.length (batch.map .item) = [] := marks_items _ _
      rw [show (Cursor.pushing batch).stop? s.pushed.length = Option.none from rfl, Option.toList,
        ← none]
      refine hs.grow (batch.map .item) ?_ ?_ met
      · simp [State.push_eq, State.note]
      · simp [State.pushed, State.note, s.trace_push, List.filterMap_map, Function.comp_def,
          Message.item?]
  | marked q t =>
      refine hs.grow [.stop] ?_ ?_ met
      · simp [State.push_eq]
      · simp [State.pushed, s.trace_push, Message.item?]
  | swept all =>
      have empty := swept rfl
      refine old.congr empty.symm ?_ met
      simp [State.pushed, State.discard, empty]
  | _ =>
      refine old.congr rfl ?_ met
      simp [State.pushed, State.log, State.note, State.discard, State.joinSelf]

theorem halts_restage {s : State α ρ} {t : Nat} {th : Thread α ρ} (ht : s.threads[t]? = some th)
    (stage : Stage α ρ) :
    halts (s.setStage t stage).grades + (if th.stage.grade.metStop then 1 else 0) =
      halts s.grades + (if stage.grade.metStop then 1 else 0) := by
  rw [State.grades_setStage]
  exact halts_set (State.grades_of_thread ht) stage.grade

theorem halts_keep {s : State α ρ} {t : Nat} {th : Thread α ρ} {stage : Stage α ρ}
    (ht : s.threads[t]? = some th) (same : stage.grade.metStop = th.stage.grade.metStop) :
    halts (s.setStage t stage).grades = halts s.grades := by
  have met := halts_restage ht stage
  rw [same] at met
  exact Nat.add_right_cancel met

theorem marked_works {h : Host α} {s u : State α ρ} {t : Nat} {th : Thread α ρ} {stops : List Nat}
    (hs : s.Marked stops) (hw : Works h s t th u) (ht : s.threads[t]? = some th)
    (silent : th.stage.cursor? = none) : u.Marked stops := by
  cases hw with
  | call a replies c rest s' p stage => rw [stage] at silent; cases silent
  | fetch a ms stage queue =>
      obtain ⟨front, base, total, rfl, taken⟩ := hs
      have met := halts_restage (s := { s with queue := ms }) ht (.fetched a)
      rw [stage] at met
      refine ⟨front, base + 1, ?_, by rw [queue]; rfl, taken.trans met.symm⟩
      rw [State.queued, queue] at total
      rw [Nat.add_right_comm]
      exact total
  | halt ms stage queue =>
      obtain ⟨front, base, total, rfl, taken⟩ := hs
      have met := halts_restage (s := { s with queue := ms }) ht .exiting
      rw [stage] at met
      refine ⟨front ++ [base], base, ?_, ?_, ?_⟩
      · rw [State.queued, queue] at total
        exact total
      · rw [queue, List.append_assoc]
        rfl
      · rw [List.length_append, taken]
        exact met.symm
  | start stage =>
      refine hs.congr rfl rfl (congrArg halts ?_)
      exact map_set_of_eq ht (fun th => th.stage.grade) (by rw [stage]; rfl)
  | skip a stage | letGo a stage =>
      refine hs.congr rfl ?_ (halts_keep ht ?_)
      · simp [State.pushed, State.letGo, State.setStage, State.discard, State.count, State.note]
      · rw [stage]; split <;> rfl
  | _ =>
      refine hs.congr rfl ?_ (halts_keep ht ?_)
      · simp [State.pushed, State.setStage, State.conclude, State.count, State.log, State.note,
          State.clock]
      · simp [*, Stage.grade, Grade.metStop]

theorem marked_step {h : Host α} {s u : State α ρ} {act : Act α ρ} {stops : List Nat}
    (ha : Attainable h s) (unhurt : s.IsUnhurt) (hs : s.Marked stops) (step : Step h s act u) :
    u.Marked (stops ++ (s.stop? act).toList) := by
  have old : s.Marked (stops ++ []) := by rwa [List.append_nil]
  have swept {a : Agent} {c : Cursor α} (hc : s.cursor? a = some c) (he : c = .sweeping) :
      s.queue = [] :=
    (ha.isDrained_of_vacant unhurt hc (by rw [he]; rfl)).queue
  cases step with
  | client i c s' p client step =>
      have cursor := State.cursor?_of_client client
      have shown : s.stop? (.client i) = c.stop? s.pushed.length := by
        simp [State.stop?, Act.agent?, cursor, Client.cursor?]
      rw [shown]
      exact (marked_advances hs step (swept cursor)).congr rfl rfl rfl
  | place i f client free =>
      have shown : s.stop? (.client i) = none := by
        simp [State.stop?, Act.agent?, State.cursor?_of_client client, Client.cursor?]
      rw [shown]
      exact old.congr rfl rfl rfl
  | thread t th u thread step =>
      have cursor := State.cursor?_of_thread thread
      have shown : s.stop? (.thread t) = th.stage.cursor?.bind (Cursor.stop? s.pushed.length) := by
        rw [State.stop?, Act.agent?, Option.bind_some, cursor]
      rw [shown]
      cases hc : th.stage.cursor? with
      | none => exact marked_works old step thread hc
      | some c =>
          obtain ⟨a, replies, rest, s', p, stage, further, rfl⟩ := step.call_of_cursor hc
          have ht' := threads_advances further thread (by simp [stage]) (by simp [stage])
          have now := marked_advances hs further (swept (cursor.trans hc))
          cases p <;> exact now.congr rfl rfl (halts_keep ht' (by rw [stage]; rfl))
  | release t th a replies rest thread stage | stir t th thread stage =>
      exact old.congr rfl rfl (halts_keep thread (by rw [stage]; rfl))
  | _ => exact old.congr rfl rfl rfl

/-- How many of the first items have been processed, as the counter shows it. -/
def State.returned (s : State α ρ) (k : Nat) : Nat :=
  (UInt64.ofNat ((s.outcomes.take k).countP (fun x => x.2 matches .returned))).toNat

theorem State.outcomes_of_trace {s u : State α ρ} (ht : s.trace <+: u.trace) :
    s.outcomes <+: u.outcomes := by
  obtain ⟨new, ht⟩ := ht
  exact ⟨new.filterMap Entry.outcome?, by rw [outcomes, outcomes, ← ht, List.filterMap_append]⟩

theorem State.returned_of_trace {s u : State α ρ} {k : Nat} (ht : s.trace <+: u.trace)
    (counted : k ≤ s.outcomes.length) : u.returned k = s.returned k := by
  obtain ⟨new, grown⟩ := State.outcomes_of_trace ht
  rw [returned, returned, ← grown, List.take_append_of_le_length counted]

/-- A thread finds all counted that was pushed before its marker, and tells so in its last line. -/
def State.MeetsStop (s : State α ρ) (stops : List Nat) (t : Nat) (g : Grade) : Prop :=
  ∃ k, stops[t]? = some k ∧ k ≤ s.outcomes.length ∧ (g = .halted → k = s.outcomes.length) ∧
    (g = .exited → s.said t = s.troubles t ++ [.exiting (s.returned k)])

def State.Met (s : State α ρ) (stops : List Nat) : Prop :=
  ∀ t g, s.grades[t]? = some g → g.metStop = true → s.MeetsStop stops t g

theorem State.Met.append {s : State α ρ} {stops : List Nat} (hs : s.Met stops) (more : List Nat) :
    s.Met (stops ++ more) := by
  intro t g hg met
  obtain ⟨k, stop, rest⟩ := hs t g hg met
  have lt := (List.getElem?_eq_some_iff.mp stop).1
  exact ⟨k, (List.getElem?_append_left lt).trans stop, rest⟩

theorem State.Met.steady {s u : State α ρ} {stops : List Nat} (hs : s.Met stops)
    (steady : s.Steady u) : u.Met stops := by
  intro t g hg met
  have old : s.grades[t]? = some g := by
    rcases steady.grades with same | grown
    · rwa [same] at hg
    · rw [grown, List.getElem?_append] at hg
      split at hg
      next => exact hg
      next =>
        rw [List.getElem?_singleton] at hg
        split at hg <;> cases hg
        cases met
  obtain ⟨k, stop, rest⟩ := hs t g old met
  refine ⟨k, stop, ?_⟩
  rw [steady.outcomes, steady.said, State.troubles, steady.counted, State.returned, steady.outcomes]
  exact rest

theorem grades_works {h : Host α} {s u : State α ρ} {t : Nat} {th : Thread α ρ}
    (hw : Works h s t th u) (silent : th.stage.cursor? = none) :
    ∃ g, u.grades = s.grades.set t g := by
  cases hw with
  | call a replies c rest s' p stage => rw [stage] at silent; cases silent
  | start stage => exact ⟨.working, by simp [State.grades, List.map_set, Stage.grade]⟩
  | _ => exact ⟨_, State.grades_setStage _ t _⟩

theorem met_works {h : Host α} {s u : State α ρ} {t : Nat} {th : Thread α ρ} {g : Grade}
    (hw : Works h s t th u) (ht : s.threads[t]? = some th) (silent : th.stage.cursor? = none)
    (hg : u.grades[t]? = some g) (met : g.metStop = true) :
    u.outcomes = s.outcomes ∧
      ((th.stage = .polling ∧ g = .halted ∧ ∃ ms, s.queue = .stop :: ms) ∨
        (th.stage = .exiting ∧ g = .exited)) := by
  have now {v : State α ρ} {stage : Stage α ρ} (hv : v.threads[t]? = some th)
      (hg : (v.setStage t stage).grades[t]? = some g) : g = stage.grade := by
    rw [State.grades_setStage, List.getElem?_set_self] at hg
    · exact (Option.some.inj hg).symm
    · exact (List.getElem?_eq_some_iff.mp (State.grades_of_thread hv)).1
  cases hw with
  | call a replies c rest s' p stage => rw [stage] at silent; cases silent
  | halt ms stage queue => exact ⟨rfl, .inl ⟨stage, now ht hg, ms, queue⟩⟩
  | exit stage =>
      refine ⟨?_, .inr ⟨stage, now ht hg⟩⟩
      simp [State.outcomes, State.setStage, State.log, State.note, Entry.outcome?]
  | start stage =>
      have lt := (List.getElem?_eq_some_iff.mp ht).1
      simp only [State.grades, List.getElem?_map, List.getElem?_set_self lt, Option.map_some] at hg
      cases hg
      cases met
  | skip a stage | letGo a stage =>
      rw [now ht hg] at met
      split at met <;> cases met
  | _ =>
      rw [now ht hg] at met
      cases met

theorem Reachable.stop_of_polling {h : Host α} {s : State α ρ} {t : Nat} {th : Thread α ρ}
    {ms : List (Message α)} {stops : List Nat} (hr : Reachable h s) (unhurt : s.IsUnhurt)
    (marked : s.Marked stops) (ht : s.threads[t]? = some th) (polling : th.stage = .polling)
    (queue : s.queue = .stop :: ms) : stops[t]? = some s.outcomes.length := by
  have hg : s.grades[t]? = some .working := by
    rw [State.grades_of_thread ht, polling]; rfl
  have alive : s.IsAlive t := State.isAlive_iff.mpr ⟨_, hg, rfl⟩
  have here := hr.attainable.not_gone_of_alive alive
  obtain ⟨ward, m, staff⟩ := (hr.posed here).staffed
  obtain ⟨front, base, total, rfl, taken⟩ := marked
  have first : front.length = t := by
    have split := length_eq_halts s.grades
    have one : 0 < s.grades.count .working := List.count_pos_iff.mpr (List.mem_of_getElem? hg)
    have most := staff.working_le
    have last := hr.last_of_alive unhurt alive
    rw [State.dead_of_isUnhurt unhurt, State.grades, List.length_map, ← State.grades] at split
    omega
  have all : base = s.outcomes.length := by
    have placed := (hr.delivered here).finished
    have held := (flatMap_of_alive staff ht (by rw [polling]; rfl) .starting Stage.held
      held_of_ended).1
    rw [polling] at held
    have sum := congrArg List.length placed
    rw [State.held, held, s.finished_eq] at sum
    simp at sum
    omega
  rw [queue, marks, List.getElem?_append_right (by omega), first, Nat.sub_self, all]
  rfl

section works

variable {h : Host α} {s u : State α ρ} {t v : Nat} {th : Thread α ρ} {g : Grade}
  {stops : List Nat}

theorem met_of_other (hr : Reachable h s) (hs : s.Met stops) (hw : Works h s v th u)
    (thread : s.threads[v]? = some th) (silent : th.stage.cursor? = none)
    (trace : s.trace <+: u.trace) (other : v ≠ t) (hg : u.grades[t]? = some g)
    (met : g.metStop = true) : u.MeetsStop stops t g := by
  obtain ⟨g', grades⟩ := grades_works hw silent
  rw [grades, List.getElem?_set_ne other] at hg
  obtain ⟨k, stop, counted, -, told⟩ := hs t g hg met
  refine ⟨k, stop, Nat.le_trans counted (State.outcomes_of_trace trace).length_le, ?_, ?_⟩
  · intro halted
    have alive : s.IsAlive t := State.isAlive_iff.mpr ⟨g, hg, by rw [halted]; rfl⟩
    exact absurd (hr.alone (hw.isAlive thread) alive) other
  · intro exited
    rw [said_works hw silent, troubles_works hw silent, if_neg other, if_neg other,
      List.append_nil, List.append_nil, State.returned_of_trace trace counted]
    exact told exited

theorem met_of_own (hr : Reachable h s) (unhurt : s.IsUnhurt) (marked : s.Marked stops)
    (spoken : s.Spoken) (hs : s.Met stops) (hw : Works h s t th u)
    (thread : s.threads[t]? = some th) (silent : th.stage.cursor? = none)
    (trace : s.trace <+: u.trace) (hg : u.grades[t]? = some g) (met : g.metStop = true) :
    u.MeetsStop stops t g := by
  obtain ⟨outcomes, ⟨polling, rfl, ms, queue⟩ | ⟨exiting, rfl⟩⟩ :=
    met_works hw thread silent hg met
  · refine ⟨s.outcomes.length, hr.stop_of_polling unhurt marked thread polling queue, ?_, ?_, ?_⟩
    · exact Nat.le_of_eq (congrArg List.length outcomes).symm
    · exact fun _ => (congrArg List.length outcomes).symm
    · exact fun exited => by cases exited
  · have halted : s.grades[t]? = some .halted := by
      rw [State.grades_of_thread thread, exiting]; rfl
    obtain ⟨k, stop, counted, all, -⟩ := hs t .halted halted rfl
    have before := spoken t (by simp [State.end?, thread, exiting, Stage.end?])
    rw [State.voice_of_thread thread, exiting] at before
    have last : s.stats.processed.toNat = s.returned k := by
      rw [hr.tallied.processed, State.returned, all rfl, List.take_length]
      rfl
    refine ⟨k, stop, by rwa [congrArg List.length outcomes], ?_, fun _ => ?_⟩
    · exact fun halted => by cases halted
    · rw [said_works hw silent, troubles_works hw silent, before,
        State.returned_of_trace trace counted, ← last, exiting]
      simp [State.utters]

end works

theorem met_step {h : Host α} {s u : State α ρ} {act : Act α ρ} {stops more : List Nat}
    (hr : Reachable h s) (unhurt : s.IsUnhurt) (marked : s.Marked stops) (spoken : s.Spoken)
    (hs : s.Met stops) (step : Step h s act u) : u.Met (stops ++ more) := by
  obtain steady | ⟨v, th, rfl, thread, silent, hw⟩ := steady_step hr step
  · exact (hs.steady steady).append more
  · refine State.Met.append (fun t g hg met => ?_) more
    have trace := trace_step step
    by_cases hv : v = t
    · subst v
      exact met_of_own hr unhurt marked spoken hs hw thread silent trace hg met
    · exact met_of_other hr hs hw thread silent trace hv hg met

end QueueWorker.Worker
