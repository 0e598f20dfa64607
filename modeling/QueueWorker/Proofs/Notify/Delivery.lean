import QueueWorker.Proofs.Notify.Step

namespace QueueWorker.Notify

variable {α ρ δ : Type}

namespace Entry

@[simp] def arrival : Entry α ρ δ → List α
  | .pushed a => [a]
  | _ => []

@[simp] def handover : Entry α ρ δ → List α
  | .called a => [a]
  | _ => []

end Entry

namespace Task

/-- The item that the callback is being run on. -/
def hand : Task α ρ → List α
  | calling a _ | waking a _ => [a]
  | _ => []

def isResting : Task α ρ → Bool
  | ready | waiting => true
  | _ => false

def isOver : Task α ρ → Bool
  | closing | ended => true
  | _ => false

end Task

namespace State

def pushed (s : State α ρ δ) : List α := s.trace.flatMap Entry.arrival

def handed (s : State α ρ δ) : List α := s.trace.flatMap Entry.handover

@[simp] theorem items_wake (s : State α ρ δ) : s.wake.items = s.items := by
  simp only [wake]; split <;> rfl

@[simp] theorem visits_wake (s : State α ρ δ) : s.wake.visits = s.visits := by
  simp only [wake]; split <;> rfl

@[simp] theorem trace_wake (s : State α ρ δ) : s.wake.trace = s.trace := by
  simp only [wake]; split <;> rfl

@[simp] theorem callback_wake (s : State α ρ δ) : s.wake.callback = s.callback := by
  simp only [wake]; split <;> rfl

@[simp] theorem closed_wake (s : State α ρ δ) : s.wake.closed = s.closed := by
  simp only [wake]; split <;> rfl

@[simp] theorem producers_wake (s : State α ρ δ) : s.wake.producers = s.producers := by
  simp only [wake]; split <;> rfl

@[simp] theorem items_unregister (s : State α ρ δ) (after : Option δ) :
    (s.unregister after).items = s.items := by
  simp only [unregister]; split <;> rfl

@[simp] theorem permit_unregister (s : State α ρ δ) (after : Option δ) :
    (s.unregister after).permit = s.permit := by
  simp only [unregister]; split <;> rfl

@[simp] theorem visits_unregister (s : State α ρ δ) (after : Option δ) :
    (s.unregister after).visits = s.visits := by
  simp only [unregister]; split <;> rfl

@[simp] theorem trace_unregister (s : State α ρ δ) (after : Option δ) :
    (s.unregister after).trace = s.trace := by
  simp only [unregister]; split <;> rfl

@[simp] theorem callback_unregister (s : State α ρ δ) (after : Option δ) :
    (s.unregister after).callback = s.callback := by
  simp only [unregister]; split <;> rfl

@[simp] theorem task_unregister (s : State α ρ δ) (after : Option δ) :
    (s.unregister after).task = s.task := by
  simp only [unregister]; split <;> rfl

@[simp] theorem producers_unregister (s : State α ρ δ) (after : Option δ) :
    (s.unregister after).producers = s.producers := by
  simp only [unregister]; split <;> rfl

theorem closed_unregister {s : State α ρ δ} (after : Option δ) (closed : s.closed = true) :
    (s.unregister after).closed = true := by
  simp only [unregister]; split <;> first | rfl | exact closed

theorem task_wake (s : State α ρ δ) :
    (s.task = .waiting ∧ s.wake.task = .checking ∧ s.wake.permit = s.permit) ∨
      (s.task ≠ .waiting ∧ s.wake.task = s.task ∧ s.wake.permit = true) := by
  cases task : s.task <;> simp [wake, task]

theorem hand_wake (s : State α ρ δ) : s.wake.task.hand = s.task.hand := by
  obtain ⟨task, wake, -⟩ | ⟨-, wake, -⟩ := s.task_wake
  · rw [wake, task]; rfl
  · rw [wake]

end State

/-- Every item pushed has been given to the callback or is still queued, in this order. -/
structure Delivered (s : State α ρ δ) : Prop where
  pushed : s.pushed = s.visits ++ s.task.hand ++ s.items
  handed : s.handed = s.visits ++ s.task.hand

theorem Delivered.congr {s u : State α ρ δ} (hs : Delivered s) (trace : u.trace = s.trace)
    (items : u.items = s.items) (visits : u.visits = s.visits) (hand : u.task.hand = s.task.hand) :
    Delivered u := by
  obtain ⟨pushed, handed⟩ := hs
  constructor
  · rw [State.pushed, trace, visits, hand, items]; exact pushed
  · rw [State.handed, trace, visits, hand]; exact handed

theorem delivered_step {s u : State α ρ δ} {act : Act α δ} (hs : Delivered s)
    (step : Step s act u) : Delivered u := by
  have wake : Delivered s.wake :=
    hs.congr s.trace_wake s.items_wake s.visits_wake s.hand_wake
  have unregister (after : Option δ) : Delivered (s.unregister after) :=
    hs.congr (by simp) (by simp) (by simp) (by simp)
  obtain ⟨pushed, handed⟩ := hs
  simp only [State.pushed, State.handed] at pushed handed
  cases step with
  | wake i producer => exact wake.congr rfl rfl rfl rfl
  | announce after closing => exact wake.congr rfl rfl rfl rfl
  | wakeSelf a rest task => exact wake.congr rfl rfl rfl (by rw [s.hand_wake, task]; rfl)
  | close | relinquish => exact unregister _
  | _ => constructor <;> simp_all [State.pushed, State.handed, State.push, State.note, Task.hand]

/-- Items are left queued only while the task is at them, or has a permit, or is about to be given
one. -/
structure Attended (s : State α ρ δ) : Prop where
  queued : s.items ≠ [] →
    s.task.isResting = false ∨ s.permit = true ∨ Producer.pushed ∈ s.producers
  waiting : s.task = .waiting → s.permit = false

namespace Attended

variable {s u : State α ρ δ}

theorem of_active (task : u.task.isResting = false) : Attended u :=
  ⟨fun _ => .inl task, fun waiting => by rw [waiting] at task; cases task⟩

theorem of_wake (task : u.task = s.wake.task) (permit : u.permit = s.wake.permit) :
    Attended u := by
  obtain ⟨-, checking, -⟩ | ⟨awake, same, kept⟩ := s.task_wake
  · exact of_active (by rw [task, checking]; rfl)
  · exact ⟨fun _ => .inr (.inl (permit.trans kept)),
      fun waiting => absurd (same.symm.trans (task.symm.trans waiting)) awake⟩

theorem congr (hs : Attended s) (items : u.items = s.items) (task : u.task = s.task)
    (permit : u.permit = s.permit) (producers : u.producers = s.producers) : Attended u := by
  obtain ⟨queued, waiting⟩ := hs
  constructor
  · rwa [items, task, permit, producers]
  · rwa [task, permit]

end Attended

theorem attended_step {s u : State α ρ δ} {act : Act α δ} (hs : Attended s)
    (step : Step s act u) : Attended u := by
  cases step with
  | push i a producer closing =>
      have hlt := (List.getElem?_eq_some_iff.mp producer).1
      exact ⟨fun _ => .inr (.inr (List.mem_of_getElem? (List.getElem?_set_self hlt))), hs.waiting⟩
  | wake i producer => exact .of_wake (s := s) rfl rfl
  | announce after closing => exact .of_wake (s := s) rfl rfl
  | drop | leave | entrust | complete | completeFailed => exact hs.congr rfl rfl rfl rfl
  | close | relinquish => exact hs.congr (by simp) (by simp) (by simp) (by simp)
  | wait task permit =>
      refine ⟨fun items => ?_, fun _ => permit⟩
      rcases hs.queued items with resting | given | pushed
      · rw [task] at resting; cases resting
      · rw [permit] at given; cases given
      · exact .inr (.inr pushed)
  | rest task items => exact ⟨fun some => absurd items some, fun waiting => by cases waiting⟩
  | _ => exact .of_active rfl

def Script.Calm : Script α ρ → Prop
  | .finish => True
  | .unwind _ => False
  | .report _ rest | .notify _ rest => rest.Calm
  | .length rest => ∀ n, (rest n).Calm

/-- A callback that never unwinds. -/
def Callback.Calm (f : Callback α ρ) : Prop := ∀ visits a, Script.Calm (f visits a)

def Task.Calm : Task α ρ → Prop
  | .calling _ script => script.Calm
  | .waking _ rest => rest.Calm
  | .failed _ => False
  | _ => True

theorem calm_step {s u : State α ρ δ} {act : Act α δ} (calm : Callback.Calm s.callback)
    (hs : s.task.Calm) (step : Step s act u) : u.task.Calm := by
  have wake : s.wake.task.Calm := by
    obtain ⟨-, wake, -⟩ | ⟨-, wake, -⟩ := s.task_wake
    · rw [wake]; trivial
    · rwa [wake]
  cases step with
  | push | drop | leave | entrust | complete | completeFailed => exact hs
  | close | relinquish => rwa [State.task_unregister]
  | wake i producer => exact wake
  | announce after closing => exact wake
  | take a as task items => exact calm s.visits a
  | unwind a p task | report a e rest task | pushSelf a b rest task | wakeSelf a rest task =>
      rw [task] at hs; exact hs
  | measure a rest task => rw [task] at hs; exact hs _
  | _ => trivial

theorem isOver_step {s u : State α ρ δ} {act : Act α δ}
    (hs : s.task.isOver = true → s.closed = true) (step : Step s act u) :
    u.task.isOver = true → u.closed = true := by
  have wake : s.wake.task.isOver = true → s.wake.closed = true := by
    obtain ⟨-, wake, -⟩ | ⟨-, wake, -⟩ := s.task_wake
    · rw [wake]; exact fun h => by cases h
    · rwa [wake, s.closed_wake]
  cases step with
  | push | drop | leave | entrust | complete | completeFailed => exact hs
  | wake i producer => exact wake
  | announce after closing => exact wake
  | close | relinquish =>
      rw [State.task_unregister]
      exact fun isOver => State.closed_unregister _ (hs isOver)
  | stop task closed => exact fun _ => closed
  | retire task => exact fun _ => hs (by rw [task]; rfl)
  | _ => exact fun h => by cases h

theorem callback_step {s u : State α ρ δ} {act : Act α δ} (step : Step s act u) :
    u.callback = s.callback := by
  cases step with
  | wake | announce | wakeSelf => exact s.callback_wake
  | close | relinquish => exact s.callback_unregister _
  | _ => rfl

namespace Reachable

variable {callback : Callback α ρ} {producers : Nat} {s : State α ρ δ}

theorem delivered (hr : Reachable callback producers s) : Delivered s := by
  induction hr with
  | create => exact ⟨rfl, rfl⟩
  | next before step ih => exact delivered_step ih (step_of_next step)

theorem attended (hr : Reachable callback producers s) : Attended s := by
  induction hr with
  | create => exact ⟨fun some => absurd rfl some, fun waiting => by cases waiting⟩
  | next before step ih => exact attended_step ih (step_of_next step)

theorem callback_eq (hr : Reachable callback producers s) : s.callback = callback := by
  induction hr with
  | create => rfl
  | next before step ih => exact (callback_step (step_of_next step)).trans ih

theorem calm (hr : Reachable callback producers s) (hc : Callback.Calm callback) :
    s.task.Calm := by
  induction hr with
  | create => trivial
  | next before step ih => exact calm_step (before.callback_eq ▸ hc) ih (step_of_next step)

theorem closed_of_isOver (hr : Reachable callback producers s) :
    s.task.isOver = true → s.closed = true := by
  induction hr with
  | create => exact fun h => by cases h
  | next before step ih => exact isOver_step ih (step_of_next step)

end Reachable

theorem next_of_pushed {s : State α ρ δ} (hp : Producer.pushed ∈ s.producers) :
    ∃ i, (s.next? (.producer i)).isSome := by
  obtain ⟨i, hi⟩ := List.mem_iff_getElem?.mp hp
  exact ⟨i, by simp [State.next?, hi]⟩

/-- However the producers' pushes and wake-ups and the task's steps fall, the callback is given the
items in the order in which they were pushed, and no wake-up is lost: a task that waits leaves
nothing behind, and as long as something is queued and the queue is open, the task can go on or a
producer is about to wake it. -/
theorem delivery_and_wake_ups {callback : Callback α ρ} {producers : Nat} {s : State α ρ δ}
    (hr : Reachable callback producers s) :
    s.pushed = s.visits ++ s.task.hand ++ s.items ∧ s.handed = s.visits ++ s.task.hand ∧
      (s.task = .waiting → s.permit = false → Producer.pushed ∉ s.producers → s.items = []) ∧
      (callback.Calm → s.closed = false → s.items ≠ [] →
        (s.next? .task).isSome ∨ ∃ i, (s.next? (.producer i)).isSome) := by
  refine ⟨hr.delivered.pushed, hr.delivered.handed, ?_, ?_⟩
  · intro waiting permit idle
    by_contra items
    rcases hr.attended.queued items with active | given | pushed
    · rw [waiting] at active; cases active
    · rw [permit] at given; cases given
    · exact idle pushed
  · intro calm open' items
    cases task : s.task with
    | waiting =>
        rcases hr.attended.queued items with active | given | pushed
        · rw [task] at active; cases active
        · rw [hr.attended.waiting task] at given; cases given
        · exact .inr (next_of_pushed pushed)
    | ended =>
        have := hr.closed_of_isOver (by rw [task]; rfl)
        rw [open'] at this; cases this
    | failed p => exact absurd (hr.calm calm) (by rw [task]; exact id)
    | _ => exact .inl (by simp [State.next?, State.work?, task])

def Task.isWaiting : Task α ρ → Bool
  | waiting => true
  | _ => false

theorem Task.eq_of_isWaiting {t : Task α ρ} (rest : t.isWaiting = true) : t = .waiting := by
  cases t <;> first | rfl | cases rest

def pushOnce : Callback Nat Unit := fun _ a => if a = 1 then .notify 9 .finish else .finish

def pushBehindWait : List (Act Nat Unit) := [.task, .notify 0 1]

def wakeInPass : List (Act Nat Unit) :=
  [.notify 1 2, .producer 0, .task, .task, .task, .producer 1] ++ List.replicate 11 .task

theorem delivery_wakeInPass :
    ∃ s u, (State.create pushOnce 2).run? pushBehindWait = some s ∧ s.task.isResting = true ∧
      s.items = [1] ∧ ((s.next? .task).isSome ∨ ∃ i, (s.next? (.producer i)).isSome) ∧
      s.run? wakeInPass = some u ∧ u.handed = [1, 2, 9] ∧
      u.pushed = u.visits ++ u.task.hand ++ u.items ∧ u.task = .waiting ∧ u.items = [] := by
  have calm : Callback.Calm pushOnce := by
    intro visits a
    simp only [pushOnce]
    split <;> trivial
  have hp : ((State.create pushOnce 2).run? pushBehindWait).any (fun s =>
      s.task.isResting && s.items = [1] && !s.closed && (s.run? wakeInPass).any (fun u =>
        u.handed = [1, 2, 9] && u.producers = [.idle, .idle] && !u.permit &&
          u.task.isWaiting)) = true := by
    decide
  obtain ⟨s, hs, hr, hp⟩ := Reachable.of_run hp
  simp only [Bool.and_eq_true, decide_eq_true_eq, Bool.not_eq_true'] at hp
  obtain ⟨⟨⟨resting, items⟩, open'⟩, hp⟩ := hp
  obtain ⟨u, hu, hp⟩ := (Option.any_eq_true _ _).mp hp
  simp only [Bool.and_eq_true, decide_eq_true_eq, Bool.not_eq_true'] at hp
  obtain ⟨⟨⟨handed, producers⟩, permit⟩, waiting⟩ := hp
  have waiting := Task.eq_of_isWaiting waiting
  have idle : Producer.pushed ∉ u.producers := by rw [producers]; decide
  obtain ⟨-, -, -, goesOn⟩ := delivery_and_wake_ups hr
  obtain ⟨order, -, rests, -⟩ := delivery_and_wake_ups (hr.run hu)
  exact ⟨s, u, hs, resting, items, goesOn calm open' (by simp [items]), hu, handed, order, waiting,
    rests waiting permit idle⟩

end QueueWorker.Notify
