import QueueWorker.Proofs.Worker.Reachable

namespace QueueWorker.Worker

variable {α ρ : Type}

def Host.since (h : Host α) (n : Nat) : Host α := { h with refusal := fun k => h.refusal (n + k) }

namespace State

variable (n : Nat) (l : List (Entry α ρ)) (s : State α ρ)

/-- The same worker with a longer past. -/
def aged : State α ρ := { s with attempts := n + s.attempts, trace := l ++ s.trace }

@[simp] theorem queue_aged : (s.aged n l).queue = s.queue := rfl

@[simp] theorem slot_aged : (s.aged n l).slot = s.slot := rfl

@[simp] theorem threads_aged : (s.aged n l).threads = s.threads := rfl

@[simp] theorem clients_aged : (s.aged n l).clients = s.clients := rfl

@[simp] theorem end?_aged (t : Nat) : (s.aged n l).end? t = s.end? t := rfl

theorem note_aged (e : Entry α ρ) : (s.aged n l).note e = (s.note e).aged n l := by
  simp [note, aged]

theorem log_aged (me : Agent) (line : Line) : (s.aged n l).log me line = (s.log me line).aged n l :=
  note_aged n l s _

theorem discard_aged (as : List α) : (s.aged n l).discard as = (s.discard as).aged n l := by
  simp [discard, aged]

theorem push_aged (ms : List (Message α)) : (s.aged n l).push ms = (s.push ms).aged n l := by
  rw [push_eq, push_eq]
  rfl

theorem joinFault_aged (p : Payload) : (s.aged n l).joinFault p = s.joinFault p := rfl

theorem advance_aged (h : Host α) (me : Agent) (c : Cursor α) :
    (s.aged n l).advance h me c =
      (s.advance (h.since n) me c).map (Prod.map (State.aged n l) id) := by
  cases c with
  | counting | readingLength => rfl
  | entering load | enteringJoin =>
      by_cases free : s.lifecycle = none <;> simp [advance, aged, free]
  | abandoning load f | settling r | readingStatus =>
      by_cases open' : s.guard = none <;> simp [advance, aged, open']
  | adopting load t =>
      by_cases open' : s.guard = none <;> cases load <;> simp [advance, aged, open']
  | ensuring load =>
      by_cases open' : s.guard = none <;> cases hp : s.phase <;> cases load <;>
        simp [advance, aged, open', hp]
  | checking batch | stopping p | taking =>
      by_cases open' : s.guard = none <;> cases hp : s.phase <;> simp [advance, aged, open', hp]
  | retiring => cases hp : s.phase <;> simp [advance, aged, hp]
  | spawning load =>
      cases hr : h.refusal (n + s.attempts) <;>
        simp [advance, aged, Host.since, hr, Nat.add_assoc]
  | reclaiming load t | awaiting t | outliving t =>
      by_cases self : me = .thread t
      · simp [advance, self, joinSelf, aged, discard]
      · simp only [advance, if_neg self, end?_aged, log_aged, joinFault_aged]
        rcases s.end? t with _ | _ | e <;> rfl
  | announcing load t =>
      simp only [advance, threads_aged, log_aged]
      cases s.threads[t]? <;> rfl
  | leaving load r =>
      exact congrArg some (Prod.ext (discard_aged n l { s with lifecycle := none } _) rfl)
  | pushing batch =>
      simp only [advance, push_aged]
      exact congrArg some
        (Prod.ext (note_aged n l { s.push (batch.map .item) with guard := none } _) rfl)
  | marking p t =>
      simp only [advance, push_aged]
      rfl
  | sweeping =>
      cases ended : s.threads.all (fun th => th.stage.end?.isSome) with
      | false => simp [advance, aged, ended]
      | true => simp [advance, aged, ended, discard]

theorem letGo_aged (t : Nat) (relic : Option Payload) :
    (s.aged n l).letGo t relic = (s.letGo t relic).aged n l := rfl

theorem count_aged (t : Nat) (a : α) (o : Outcome) :
    (s.aged n l).count t a o = (s.count t a o).aged n l :=
  note_aged n l { s with stats := s.stats.add o.counter 1 } _

theorem clock_aged (h : Host α) : (s.aged n l).clock h = (s.clock (h.since n)).aged n l := rfl

theorem ask?_aged (t : Nat) (a : α) (replies : List Reply) (c : Call α)
    (rest : Reply → Script α ρ) :
    (s.aged n l).ask? t a replies c rest = (s.ask? t a replies c rest).map (aged n l) := by
  by_cases shared : s.owner = .shared
  · cases c with
    | drop =>
        have same : (s.aged n l).isQuiet = s.isQuiet := rfl
        simp only [ask?, same]
        cases s.isQuiet <;> simp [aged, shared, setStage]
    | _ => simp [ask?, aged, shared, Call.begin, setStage]
  · simp [ask?, aged, shared, setStage]

theorem work?_aged (h : Host α) (t : Nat) (th : Thread α ρ) :
    (s.aged n l).work? h t th = (s.work? (h.since n) t th).map (aged n l) := by
  cases hst : th.stage with
  | starting | sleeping | exited | dead => simp only [work?, hst]; rfl
  | polling =>
      simp only [work?, hst, poll, queue_aged]
      rcases s.queue with _ | ⟨_ | _, ms⟩ <;> rfl
  | fetched a =>
      simp only [work?, hst, invoke?, slot_aged]
      by_cases free : s.slot.holder = none
      · cases hc : s.slot.callback with
        | none => simp [free, aged, setStage]
        | some f => simp [free, aged, setStage, note]
      · simp [free]
  | lacking a => simp only [work?, hst, log_aged]; rfl
  | skipping a => simp only [work?, hst, count_aged, discard_aged, letGo_aged]; rfl
  | running a replies script =>
      simp only [work?, hst]
      cases script with
      | ask c rest => exact ask?_aged n l s t a replies c rest
      | report e rest => simp only [follow?, note_aged]; rfl
      | _ => rfl
  | calling a replies c rest =>
      simp only [work?, hst, advance_aged]
      rcases s.advance (h.since n) (.thread t) c with _ | ⟨u, k | r | p⟩ <;> rfl
  | concluded a o => cases o <;> simp only [work?, hst, clock_aged, count_aged, log_aged] <;> rfl
  | noted a p => simp only [work?, hst, count_aged]; rfl
  | leaving p => simp only [work?, hst, letGo_aged]; rfl
  | exiting => simp only [work?, hst, log_aged]; rfl

theorem serve?_aged (h : Host α) (i : Nat) (cl : Client α ρ) :
    (s.aged n l).serve? h i cl = (s.serve? (h.since n) i cl).map (aged n l) := by
  cases cl with
  | idle r => rfl
  | calling c =>
      simp only [serve?, advance_aged]
      rcases s.advance (h.since n) (.client i) c with _ | ⟨u, k | r | p⟩ <;> rfl
  | registering f =>
      by_cases free : s.slot.holder = none <;> simp [serve?, aged, free, setClient]

theorem call?_aged (i : Nat) (c : Call α) :
    (s.aged n l).call? i c = (s.call? i c).map (aged n l) := by
  cases c with
  | drop =>
      have same : (s.aged n l).isQuiet = s.isQuiet := rfl
      simp only [call?, same]
      cases s.isQuiet <;> rfl
  | _ => rfl

/-- What can happen next does not go by the past, but for how many attempts to start a thread the
system has seen. -/
theorem next?_aged (h : Host α) (act : Act α ρ) :
    (s.aged n l).next? h act = (s.next? (h.since n) act).map (aged n l) := by
  cases act with
  | call i c =>
      have same : (s.aged n l).isFree i = s.isFree i := rfl
      simp only [next?, same, call?_aged]
      cases s.isFree i <;> rfl
  | register i f =>
      have same : (s.aged n l).isFree i = s.isFree i := rfl
      simp only [next?, same]
      cases s.isFree i <;> rfl
  | prefer i p =>
      have same : ((s.aged n l).isFree i && (s.aged n l).isQuiet) = (s.isFree i && s.isQuiet) := rfl
      simp only [next?, same]
      cases (s.isFree i && s.isQuiet) <;> rfl
  | client i =>
      simp only [next?, clients_aged]
      cases s.clients[i]? with
      | none => rfl
      | some cl => exact serve?_aged n l s h i cl
  | thread t =>
      simp only [next?, threads_aged]
      cases s.threads[t]? with
      | none => rfl
      | some th => exact work?_aged n l s h t th
  | release t =>
      simp only [next?, threads_aged]
      rcases s.threads[t]?.map Thread.stage with _ | (_ | _ | _ | _ | _ | _ | ⟨_, _, _ | _ | _⟩) <;>
        rfl
  | stir t =>
      simp only [next?, threads_aged]
      rcases s.threads[t]?.map Thread.stage with _ | (_ | _ | _) <;> rfl

theorem run?_aged (h : Host α) (acts : List (Act α ρ)) :
    (s.aged n l).run? h acts = (s.run? (h.since n) acts).map (aged n l) := by
  induction acts generalizing s with
  | nil => rfl
  | cons act acts ih =>
      simp only [run?, next?_aged]
      cases s.next? (h.since n) act with
      | none => rfl
      | some u => exact ih u

def forgotten (s : State α ρ) : State α ρ := { s with attempts := 0, trace := [] }

theorem aged_forgotten : s.forgotten.aged s.attempts s.trace = s := by
  simp [aged, forgotten]

theorem run?_forgotten (h : Host α) (acts : List (Act α ρ)) :
    s.run? h acts =
      (s.forgotten.run? (h.since s.attempts) acts).map (aged s.attempts s.trace) := by
  conv_lhs => rw [← s.aged_forgotten]
  exact run?_aged ..

end State
end QueueWorker.Worker
