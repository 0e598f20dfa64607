import QueueWorker.Proofs.Notify.Delivery

namespace QueueWorker.Notify

variable {α ρ δ : Type}

namespace Entry

@[simp] def completion : Entry α ρ δ → List δ
  | .completed d => [d]
  | _ => []

end Entry

namespace Task

/-- The task has come to its end, by itself or unwound. -/
def hasEnded : Task α ρ → Bool
  | ended | failed _ => true
  | _ => false

def isSpent : Task α ρ → Bool
  | closing | ended | failed _ => true
  | _ => false

def isHeeding : Task α ρ → Bool
  | checking | closing | ended | failed _ => true
  | _ => false

theorem hand_of_hasEnded {t : Task α ρ} (ended : t.hasEnded = true) : t.hand = [] := by
  cases t <;> first | rfl | cases ended

end Task

def Act.request? : Act α δ → Option (Option δ)
  | .close after => some after
  | .drop => some none
  | _ => none

def requests (acts : List (Act α δ)) : List (Option δ) := acts.filterMap Act.request?

namespace State

def completed (s : State α ρ δ) : List δ := s.trace.flatMap Entry.completion

/-- Nothing goes on by itself any more. -/
structure IsAtRest (s : State α ρ δ) : Prop where
  task : s.next? .task = none
  owner : s.next? .owner = none
  completion : s.next? .completion = none

@[simp] theorem closing_wake (s : State α ρ δ) : s.wake.closing = s.closing := by
  simp only [wake]; split <;> rfl

@[simp] theorem handle_wake (s : State α ρ δ) : s.wake.handle = s.handle := by
  simp only [wake]; split <;> rfl

@[simp] theorem completion_wake (s : State α ρ δ) : s.wake.completion = s.completion := by
  simp only [wake]; split <;> rfl

theorem unregister_of_handle {s : State α ρ δ} (handle : s.handle = true) (after : Option δ) :
    s.unregister after = { s with handle := false, closed := true, closing := .marked after } :=
  if_pos handle

theorem unregister_of_taken {s : State α ρ δ} (taken : s.handle = false) (after : Option δ) :
    s.unregister after = { s with closing := .finished } :=
  if_neg (by rw [taken]; exact Bool.false_ne_true)

end State

/-- Once the owner has woken the task, the task comes to look at the close before it waits. -/
def Heeded (s : State α ρ δ) : Prop :=
  s.closed = true → (∀ after, s.closing ≠ .marked after) →
    s.task.isHeeding = true ∨ s.permit = true

namespace Heeded

variable {s u : State α ρ δ}

theorem of_wake (task : u.task = s.wake.task) (permit : u.permit = s.wake.permit) :
    Heeded u := by
  intro _ _
  obtain ⟨-, checking, -⟩ | ⟨-, -, kept⟩ := s.task_wake
  · exact .inl (by rw [task, checking]; rfl)
  · exact .inr (permit.trans kept)

theorem of_permit (hs : Heeded s) (task : s.task.isHeeding = false) (closed : u.closed = s.closed)
    (closing : u.closing = s.closing) (permit : u.permit = s.permit) : Heeded u := by
  intro hc unmarked
  rw [closed] at hc
  rw [closing] at unmarked
  refine .inr (permit.trans ((hs hc unmarked).resolve_left ?_))
  rw [task]
  exact Bool.false_ne_true

theorem unregister (hs : Heeded s) (unmarked : ∀ after, s.closing ≠ .marked after)
    (after : Option δ) : Heeded (s.unregister after) := by
  cases handle : s.handle with
  | true =>
      rw [State.unregister_of_handle handle]
      exact fun _ marked => absurd rfl (marked after)
  | false =>
      rw [State.unregister_of_taken handle]
      exact fun closed _ => hs closed unmarked

end Heeded

theorem heeded_step {s u : State α ρ δ} {act : Act α δ} (hs : Heeded s) (step : Step s act u) :
    Heeded u := by
  cases step with
  | push | complete | completeFailed => exact hs
  -- Whoever wakes the task leaves it checking or with a permit, also for the close.
  | wake i producer => exact .of_wake (s := s) rfl rfl
  | announce after closing => exact .of_wake (s := s) rfl rfl
  | close after closing => exact hs.unregister (by simp [closing]) _
  | relinquish closing => exact hs.unregister (by simp [closing]) _
  | drop closing | leave closing | entrust d closing =>
      exact fun closed _ => hs closed (by simp [closing])
  | wait task permit =>
      intro closed unmarked
      rcases hs closed unmarked with heeding | given
      · rw [task] at heeding; cases heeding
      · rw [permit] at given; cases given
  | goOn task open' =>
      intro closed
      rw [open'] at closed; cases closed
  | wakeSelf a rest task =>
      obtain ⟨waiting, -⟩ | ⟨-, -, kept⟩ := s.task_wake
      · rw [task] at waiting; cases waiting
      · exact fun _ _ => .inr kept
  -- The permit of the close is used up only by a task that then looks at the close.
  | useUp | stop | unwind | retire => exact fun _ _ => .inl rfl
  | rest task => exact hs.of_permit (by rw [task]; rfl) rfl rfl rfl
  | take a as task | finish a task | report a e rest task | pushSelf a b rest task
  | measure a rest task => exact hs.of_permit (by rw [task]; rfl) rfl rfl rfl

/-- A task that is spent hands nothing more to the callback, and stays spent. -/
structure Spent (s u : State α ρ δ) : Prop where
  task : u.task.isSpent = true
  handed : u.handed = s.handed
  visits : u.visits = s.visits

theorem spent_step {s u : State α ρ δ} {act : Act α δ} (spent : s.task.isSpent = true)
    (step : Step s act u) : Spent s u := by
  have task_wake : s.wake.task = s.task := by
    obtain ⟨waiting, -⟩ | ⟨-, same, -⟩ := s.task_wake
    · rw [waiting] at spent; cases spent
    · exact same
  cases step with
  | push | complete | completeFailed =>
      exact ⟨spent, by simp [State.handed, State.push, State.note], rfl⟩
  | wake | announce =>
      exact ⟨task_wake ▸ spent, by simp [State.handed], by simp⟩
  | close | relinquish => exact ⟨by simpa using spent, by simp [State.handed], by simp⟩
  | drop | leave | entrust => exact ⟨spent, rfl, rfl⟩
  | retire task => exact ⟨rfl, by simp [State.handed, State.note], rfl⟩
  | useUp task | wait task | goOn task | stop task | rest task | take a as task | finish a task
  | unwind a p task | report a e rest task | pushSelf a b rest task | measure a rest task
  | wakeSelf a rest task => rw [task] at spent; cases spent

theorem spent_run {s u : State α ρ δ} {acts : List (Act α δ)} (spent : s.task.isSpent = true)
    (run : s.run? acts = some u) : Spent s u := by
  induction acts generalizing s with
  | nil => cases run; exact ⟨spent, rfl, rfl⟩
  | cons act acts ih =>
      obtain ⟨v, hv, hu⟩ := Option.bind_eq_some_iff.mp run
      have first := spent_step spent (step_of_next hv)
      have later := ih first.task hu
      exact ⟨later.task, later.handed.trans first.handed, later.visits.trans first.visits⟩

def Passed (handle : Bool) (completion : Completion δ) (asked : List (Option δ)) : Prop :=
  handle = false ∧
    (completion = .none ∧ asked = [none] ∨ ∃ d, completion = .waiting d ∧ asked = [some d])

/-- What an owner that stands here has been asked for, as long as nothing is completed. One that
just drops the queue comes to look for the handle twice. -/
def Closing.Tells (handle : Bool) (completion : Completion δ) (asked : List (Option δ)) :
    Closing δ → Prop
  | .unasked => handle = true ∧ completion = .none ∧ asked = []
  | .marked after | .woken after => handle = false ∧ completion = .none ∧ asked = [after]
  | .dropping =>
      handle = true ∧ completion = .none ∧ asked = [none] ∨ Passed handle completion asked
  | .finished => Passed handle completion asked

structure Asked (s : State α ρ δ) (asked : List (Option δ)) : Prop where
  closed : s.closed = !s.handle
  tells : s.closing.Tells s.handle s.completion asked
  completed : s.completed = []

namespace Asked

variable {s u : State α ρ δ} {asked : List (Option δ)}

theorem congr (hs : Asked s asked) (closing : u.closing = s.closing)
    (handle : u.handle = s.handle) (closed : u.closed = s.closed)
    (completion : u.completion = s.completion) (completed : u.completed = s.completed) :
    Asked u asked := by
  refine ⟨?_, ?_, completed.trans hs.completed⟩
  · rw [closed, handle]; exact hs.closed
  · rw [closing, handle, completion]; exact hs.tells

theorem tells_of_closing (hs : Asked s asked) {c : Closing δ} (closing : s.closing = c) :
    c.Tells s.handle s.completion asked :=
  closing ▸ hs.tells

theorem not_completed (hs : Asked s asked) (d : δ) : .completed d ∉ s.trace := by
  intro mem
  exact List.ne_nil_of_mem (List.mem_flatMap.mpr ⟨_, mem, List.mem_singleton_self d⟩) hs.completed

end Asked

theorem asked_step {s u : State α ρ δ} {act : Act α δ} {asked : List (Option δ)}
    (hs : Asked s asked) (step : Step s act u) (other : act ≠ .completion) :
    Asked u (asked ++ act.request?.toList) := by
  cases step with
  | close after closing =>
      obtain ⟨handle, completion, rfl⟩ := hs.tells_of_closing closing
      rw [State.unregister_of_handle handle]
      exact ⟨rfl, ⟨rfl, completion, rfl⟩, hs.completed⟩
  | drop closing =>
      obtain ⟨handle, completion, rfl⟩ := hs.tells_of_closing closing
      exact ⟨hs.closed, .inl ⟨handle, completion, rfl⟩, hs.completed⟩
  | announce after closing =>
      obtain ⟨handle, completion, rfl⟩ := hs.tells_of_closing closing
      exact ⟨by simpa using hs.closed, ⟨by simpa using handle, by simpa using completion, rfl⟩,
        by simpa [State.completed] using hs.completed⟩
  | leave closing =>
      obtain ⟨handle, completion, rfl⟩ := hs.tells_of_closing closing
      exact ⟨hs.closed, .inr ⟨handle, .inl ⟨completion, rfl⟩⟩, hs.completed⟩
  | entrust d closing =>
      obtain ⟨handle, completion, rfl⟩ := hs.tells_of_closing closing
      exact ⟨hs.closed, .inr ⟨handle, .inr ⟨d, rfl, rfl⟩⟩, hs.completed⟩
  | relinquish closing =>
      simp only [Act.request?, Option.toList_none, List.append_nil]
      rcases hs.tells_of_closing closing with ⟨handle, completion, rfl⟩ | passed
      · rw [State.unregister_of_handle handle]
        exact ⟨rfl, ⟨rfl, completion, rfl⟩, hs.completed⟩
      · rw [State.unregister_of_taken passed.1]
        exact ⟨hs.closed, passed, hs.completed⟩
  | complete | completeFailed => exact absurd rfl other
  | _ =>
      simp only [Act.request?, Option.toList_none, List.append_nil]
      refine hs.congr ?_ ?_ ?_ ?_ ?_ <;> simp [State.completed, State.push, State.note]

/-- The close is completed, and nothing that goes on since then is to be seen. -/
structure Completed (s : State α ρ δ) (d : δ) : Prop where
  closing : s.closing = .dropping ∨ s.closing = .finished
  handle : s.handle = false
  completion : s.completion = .run
  task : s.task.hasEnded = true
  trace : ∃ before, s.trace = before ++ [.completed d] ∧ before.flatMap Entry.completion = []

theorem completed_step {s u : State α ρ δ} {act : Act α δ} {d : δ} (hs : Completed s d)
    (step : Step s act u) : Completed u d ∧ act.request? = none := by
  obtain ⟨closing', handle, completion', task', trace⟩ := hs
  have task_wake : s.wake.task = s.task := by
    obtain ⟨waiting, -⟩ | ⟨-, same, -⟩ := s.task_wake
    · rw [waiting] at task'; cases task'
    · exact same
  cases step with
  | push i a producer closing | close after closing | drop closing | announce after closing
  | leave closing | entrust d closing => rw [closing] at closing'; simp at closing'
  | wake i producer =>
      exact ⟨⟨by simpa using closing', by simpa using handle, by simpa using completion',
        by simpa [task_wake] using task', by simpa using trace⟩, rfl⟩
  | relinquish closing =>
      rw [State.unregister_of_taken handle]
      exact ⟨⟨.inr rfl, handle, completion', task', trace⟩, rfl⟩
  | complete d completion | completeFailed d p completion =>
      rw [completion] at completion'; cases completion'
  | useUp task | wait task | goOn task | stop task | rest task | take a as task | finish a task
  | unwind a p task | report a e rest task | pushSelf a b rest task | measure a rest task
  | wakeSelf a rest task | retire task => rw [task] at task'; cases task'

theorem Asked.of_waiting {s : State α ρ δ} {asked : List (Option δ)} {d : δ}
    (hs : Asked s asked) (completion : s.completion = .waiting d) :
    (s.closing = .dropping ∨ s.closing = .finished) ∧ s.handle = false ∧ asked = [some d] := by
  have tells := hs.tells
  cases closing : s.closing <;> simp_all [Closing.Tells, Passed]

theorem completed_of_asked {s u : State α ρ δ} {asked : List (Option δ)} (hs : Asked s asked)
    (step : Step s .completion u) : ∃ d, asked = [some d] ∧ Completed u d := by
  have silent := hs.completed
  rw [State.completed] at silent
  cases step with
  | complete d completion task =>
      obtain ⟨closing, handle, rfl⟩ := hs.of_waiting completion
      exact ⟨d, rfl, closing, handle, rfl, by rw [State.note, task]; rfl, _, rfl, silent⟩
  | completeFailed d p completion task =>
      obtain ⟨closing, handle, rfl⟩ := hs.of_waiting completion
      exact ⟨d, rfl, closing, handle, rfl, by rw [State.note, State.note, task]; rfl, _, rfl,
        by simp [State.note, silent]⟩

/-- What has been asked of the owner is under way, or it is completed. -/
def Outcome (s : State α ρ δ) (asked : List (Option δ)) : Prop :=
  Asked s asked ∨ ∃ d, asked = [some d] ∧ Completed s d

theorem outcome_step {s u : State α ρ δ} {act : Act α δ} {asked : List (Option δ)}
    (hs : Outcome s asked) (step : Step s act u) :
    Outcome u (asked ++ act.request?.toList) := by
  rcases hs with hs | ⟨d, rfl, hs⟩
  · by_cases other : act = .completion
    · subst other
      obtain ⟨d, rfl, completed⟩ := completed_of_asked hs step
      exact .inr ⟨d, rfl, completed⟩
    · exact .inl (asked_step hs step other)
  · obtain ⟨completed, none⟩ := completed_step hs step
    exact .inr ⟨d, by rw [none]; rfl, completed⟩

theorem outcome_run {s u : State α ρ δ} {acts : List (Act α δ)} {asked : List (Option δ)}
    (hs : Outcome s asked) (run : s.run? acts = some u) : Outcome u (asked ++ requests acts) := by
  induction acts generalizing s asked with
  | nil => cases run; rwa [requests, List.filterMap_nil, List.append_nil]
  | cons act acts ih =>
      obtain ⟨v, hv, hu⟩ := Option.bind_eq_some_iff.mp run
      have later := ih (outcome_step hs (step_of_next hv)) hu
      have split : requests (act :: acts) = act.request?.toList ++ requests acts := by
        simp only [requests, List.filterMap_cons]
        cases act.request? <;> rfl
      rwa [List.append_assoc, ← split] at later

theorem Reachable.heeded {callback : Callback α ρ} {producers : Nat} {s : State α ρ δ}
    (hr : Reachable callback producers s) : Heeded s := by
  induction hr with
  | create => exact fun closed => by cases closed
  | next before step ih => exact heeded_step ih (step_of_next step)

theorem asked_create (callback : Callback α ρ) (producers : Nat) :
    Asked (State.create callback producers : State α ρ δ) [] :=
  ⟨rfl, ⟨rfl, rfl, rfl⟩, rfl⟩

theorem outcome_of_run {callback : Callback α ρ} {producers : Nat} {acts : List (Act α δ)}
    {s : State α ρ δ} (run : (State.create callback producers).run? acts = some s) :
    Outcome s (requests acts) :=
  outcome_run (.inl (asked_create callback producers)) run

theorem mem_requests {acts : List (Act α δ)} {after : Option δ} (asked : .close after ∈ acts) :
    after ∈ requests acts :=
  List.mem_filterMap.mpr ⟨_, asked, rfl⟩

theorem taken_step {s u : State α ρ δ} {act : Act α δ} (taken : s.handle = false)
    (step : Step s act u) : u.handle = false := by
  cases step with
  | wake | announce | wakeSelf => simpa using taken
  | close | relinquish => rw [State.unregister_of_taken taken]; exact taken
  | _ => exact taken

theorem taken_of_close {s u : State α ρ δ} {acts : List (Act α δ)} {after : Option δ}
    (asked : s.handle = false ∨ .close after ∈ acts) (run : s.run? acts = some u) :
    u.handle = false := by
  induction acts generalizing s with
  | nil =>
      cases run
      exact asked.resolve_right List.not_mem_nil
  | cons act acts ih =>
      obtain ⟨v, hv, hu⟩ := Option.bind_eq_some_iff.mp run
      refine ih ?_ hu
      rcases asked with taken | asked
      · exact .inl (taken_step taken (step_of_next hv))
      · rcases List.mem_cons.mp asked with rfl | later
        · cases step_of_next hv with
          | close after closing => exact .inl (by simp only [State.unregister]; split <;> simp_all)
        · exact .inr later

namespace State

variable {s : State α ρ δ}

theorem next_task_of_active (awake : s.task ≠ .waiting) (active : s.task.hasEnded = false) :
    (s.next? .task).isSome := by
  cases task : s.task with
  | waiting => exact absurd task awake
  | ended | failed => rw [task] at active; cases active
  | _ => simp [next?, work?, task]

theorem next_completion_of_ended {d : δ} (completion : s.completion = .waiting d)
    (ended : s.task.hasEnded = true) : (s.next? .completion).isSome := by
  cases task : s.task with
  | ended | failed => simp [next?, complete?, completion, task]
  | _ => rw [task] at ended; cases ended

end State

theorem Heeded.task {s : State α ρ δ} (hs : Heeded s) (attended : Attended s)
    (closed : s.closed = true) (unmarked : ∀ after, s.closing ≠ .marked after) :
    s.task.hasEnded = true ∨
      (s.next? .task).isSome ∧ (s.task = .checking ∨ s.task = .closing ∨ s.permit = true) := by
  cases active : s.task.hasEnded with
  | true => exact .inl rfl
  | false =>
      rcases hs closed unmarked with heeding | permit
      · cases task : s.task with
        | checking => exact .inr ⟨State.next_task_of_active (by simp [task]) active, .inl rfl⟩
        | closing => exact .inr ⟨State.next_task_of_active (by simp [task]) active, .inr (.inl rfl)⟩
        | ended | failed => rw [task] at active; cases active
        | _ => rw [task] at heeding; cases heeding
      · have awake : s.task ≠ .waiting := by
          intro waiting
          rw [attended.waiting waiting] at permit; cases permit
        exact .inr ⟨State.next_task_of_active awake active, .inr (.inr permit)⟩

namespace Asked

variable {s : State α ρ δ} {asked : List (Option δ)}

theorem passed_of_rest (hs : Asked s asked) (some' : asked ≠ []) (rest : s.next? .owner = none) :
    s.closing = .finished ∧ s.closed = true ∧ Passed s.handle s.completion asked := by
  cases closing : s.closing with
  | finished =>
      have passed : Passed s.handle s.completion asked := hs.tells_of_closing closing
      exact ⟨rfl, by rw [hs.closed, passed.1]; rfl, passed⟩
  | unasked => exact absurd (hs.tells_of_closing closing).2.2 some'
  | woken after => cases after <;> simp [State.next?, State.proceed?, closing] at rest
  | marked | dropping => simp [State.next?, State.proceed?, closing] at rest

end Asked

namespace Completed

variable {s : State α ρ δ} {d : δ}

theorem eq_of_trace (hs : Completed s d) {before behind : List (Entry α ρ δ)} {e : δ}
    (trace : s.trace = before ++ .completed e :: behind) :
    behind = [] ∧ e = d ∧ ∀ e', .completed e' ∉ before := by
  obtain ⟨front, last, silent⟩ := hs.trace
  have none (e' : δ) : .completed e' ∉ front := by
    intro mem
    exact List.ne_nil_of_mem (List.mem_flatMap.mpr ⟨_, mem, List.mem_singleton_self e'⟩) silent
  rw [last] at trace
  rcases List.eq_nil_or_concat behind with rfl | ⟨rest, x, rfl⟩
  · obtain ⟨rfl, same⟩ := List.append_inj' trace rfl
    cases same
    exact ⟨rfl, rfl, none⟩
  · have trace : front ++ [.completed d] = (before ++ .completed e :: rest) ++ [x] := by
      simpa using trace
    have mem : .completed e ∈ front := by
      rw [(List.append_inj' trace rfl).1]
      simp
    exact absurd mem (none e)

end Completed

namespace Outcome

variable {s : State α ρ δ} {acts : List (Act α δ)} {d : δ}

theorem of_trace (hs : Outcome s (requests acts)) {before behind : List (Entry α ρ δ)}
    (trace : s.trace = before ++ .completed d :: behind) :
    behind = [] ∧ (∀ e, .completed e ∉ before) ∧ s.task.hasEnded = true ∧
      .close (some d) ∈ acts := by
  rcases hs with asked | ⟨e, asked, completed⟩
  · exact absurd (by rw [trace]; simp) (asked.not_completed d)
  · obtain ⟨rfl, rfl, first⟩ := completed.eq_of_trace trace
    have mem : some d ∈ requests acts := by rw [asked]; exact List.mem_singleton_self _
    obtain ⟨act, mem, request⟩ := List.mem_filterMap.mp mem
    cases act with
    | close after => cases request; exact ⟨rfl, first, completed.task, mem⟩
    | _ => cases request

theorem of_rest (hs : Outcome s (requests acts)) (heeded : Heeded s) (attended : Attended s)
    (rest : s.IsAtRest) (some' : requests acts ≠ []) :
    s.task.hasEnded = true ∧ ∀ d, .close (some d) ∈ acts → .completed d ∈ s.trace := by
  rcases hs with asked | ⟨e, asked, completed⟩
  · obtain ⟨finished, closed, -, passed⟩ := asked.passed_of_rest some' rest.owner
    have ended : s.task.hasEnded = true := by
      rcases heeded.task attended closed (by simp [finished]) with ended | ⟨active, -⟩
      · exact ended
      · rw [rest.task] at active; cases active
    refine ⟨ended, fun d mem => ?_⟩
    have mem := mem_requests mem
    rcases passed with ⟨-, asked⟩ | ⟨e, completion, -⟩
    · rw [asked] at mem; simp at mem
    · have active := State.next_completion_of_ended completion ended
      rw [rest.completion] at active; cases active
  · refine ⟨completed.task, fun d mem => ?_⟩
    have mem := mem_requests mem
    rw [asked] at mem
    obtain rfl : d = e := by simpa using mem
    obtain ⟨before, trace, -⟩ := completed.trace
    rw [trace]
    simp

theorem not_completed (hs : Outcome s (requests acts)) (asked : none ∈ requests acts) (d : δ) :
    .completed d ∉ s.trace := by
  rcases hs with open' | ⟨e, only, -⟩
  · exact open'.not_completed d
  · rw [only] at asked; simp at asked

end Outcome

/-- Whenever the owner closes the queue, and however its steps fall between those of the task and
of the producers, the close is not missed. The task calls no callback behind it, and leaves queued
what the callback has not been given. What is to be done on completion is done once, last of all,
and only if it has been asked for. The drop that follows a close finds nothing to do. -/
theorem close_protocol {callback : Callback α ρ} {producers : Nat} {acts : List (Act α δ)}
    {s : State α ρ δ} (run : (State.create callback producers).run? acts = some s) :
    (s.closed = true →
      (∃ after, s.closing = .marked after ∧ (s.next? .owner).isSome) ∨ s.task.hasEnded = true ∨
        (s.next? .task).isSome ∧ (s.task = .checking ∨ s.task = .closing ∨ s.permit = true)) ∧
      (s.task.isSpent = true → ∀ later u, s.run? later = some u →
        u.task.isSpent = true ∧ u.handed = s.handed ∧ u.visits = s.visits) ∧
      (s.task.hasEnded = true → s.pushed = s.handed ++ s.items ∧ s.handed = s.visits) ∧
      (∀ before d behind, s.trace = before ++ .completed d :: behind →
        behind = [] ∧ (∀ e, .completed e ∉ before) ∧ s.task.hasEnded = true ∧
          .close (some d) ∈ acts) ∧
      (s.IsAtRest → requests acts ≠ [] → s.task.hasEnded = true ∧
        ∀ d, .close (some d) ∈ acts → .completed d ∈ s.trace) ∧
      (.close none ∈ acts ∨ .drop ∈ acts → ∀ d, .completed d ∉ s.trace) ∧
      ∀ after, .close after ∈ acts → s.closing = .dropping →
        s.next? .owner = some { s with closing := .finished } := by
  have hr := Reachable.create.run run
  have outcome := outcome_of_run run
  refine ⟨fun closed => ?_, fun spent later u run => ?_, fun ended => ?_, ?_, ?_, ?_, ?_⟩
  · by_cases marked : ∃ after, s.closing = .marked after
    · obtain ⟨after, marked⟩ := marked
      exact .inl ⟨after, marked, by simp [State.next?, State.proceed?, marked]⟩
    · exact .inr (hr.heeded.task hr.attended closed fun after he => marked ⟨after, he⟩)
  · obtain ⟨task, handed, visits⟩ := spent_run spent run
    exact ⟨task, handed, visits⟩
  · obtain ⟨pushed, handed⟩ := hr.delivered
    rw [Task.hand_of_hasEnded ended, List.append_nil] at pushed handed
    exact ⟨handed ▸ pushed, handed⟩
  · exact fun before d behind trace => outcome.of_trace trace
  · exact fun rest some' => outcome.of_rest hr.heeded hr.attended rest some'
  · rintro (asked | asked) d
    · exact outcome.not_completed (mem_requests asked) d
    · exact outcome.not_completed (List.mem_filterMap.mpr ⟨_, asked, rfl⟩) d
  · intro after asked dropping
    have taken := taken_of_close (.inr asked) run
    simp [State.next?, State.proceed?, dropping, State.unregister_of_taken taken]

def unwindOnTwo : Callback Nat Unit := fun _ a => if a = 2 then .unwind .mute else .finish

def closeInPass : List (Act Nat Nat) :=
  [.notify 0 1, .notify 1 2, .notify 2 3, .producer 0, .task, .task, .task, .close (some 7), .owner,
    .owner, .task, .task]

def failBehindClose : List (Act Nat Nat) := [.task, .completion, .owner]

theorem close_protocol_closeInPass :
    ∃ s u : State Nat Unit Nat, (State.create unwindOnTwo 3).run? closeInPass = some s ∧
      (s.next? .task).isSome ∧ s.next? .owner = some { s with closing := .finished } ∧
      s.run? failBehindClose = some u ∧ u.handed = [1, 2] ∧ u.items = [3] ∧
      u.pushed = u.handed ++ u.items ∧ .completed 7 ∈ u.trace := by
  have hp : ((State.create unwindOnTwo 3).run? closeInPass).any (fun s =>
      s.closed && s.closing = .dropping && !s.task.hasEnded &&
        (s.run? failBehindClose).any (fun u => u.handed = [1, 2] && u.items = [3] &&
          (u.next? .task).isNone && (u.next? .owner).isNone && (u.next? .completion).isNone)) =
      true := by
    decide
  obtain ⟨s, hs, -, hp⟩ := Reachable.of_run hp
  simp only [Bool.and_eq_true, decide_eq_true_eq, Bool.not_eq_true'] at hp
  obtain ⟨⟨⟨closed, dropping⟩, active⟩, hp⟩ := hp
  obtain ⟨u, hu, hp⟩ := (Option.any_eq_true _ _).mp hp
  simp only [Bool.and_eq_true, decide_eq_true_eq, Option.isNone_iff_eq_none] at hp
  obtain ⟨⟨⟨⟨handed, items⟩, task⟩, owner⟩, completion⟩ := hp
  have asked : Act.close (some 7) ∈ closeInPass := by simp [closeInPass]
  have askedThen : Act.close (some 7) ∈ closeInPass ++ failBehindClose :=
    List.mem_append_left _ asked
  obtain ⟨heeded, -, -, -, -, -, relinquish⟩ := close_protocol hs
  obtain ⟨-, -, left, -, rest, -⟩ :=
    close_protocol ((State.run?_append hs failBehindClose).trans hu)
  obtain ⟨ended, completed⟩ :=
    rest ⟨task, owner, completion⟩ (List.ne_nil_of_mem (mem_requests askedThen))
  refine ⟨s, u, hs, ?_, relinquish _ asked dropping, hu, handed, items, (left ended).1,
    completed 7 askedThen⟩
  rcases heeded closed with ⟨after, marked, -⟩ | ended | ⟨goesOn, -⟩
  · rw [dropping] at marked; cases marked
  · rw [active] at ended; cases ended
  · exact goesOn

end QueueWorker.Notify
