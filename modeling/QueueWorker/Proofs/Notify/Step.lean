import Mathlib.Tactic.Common
import QueueWorker.Notify.Basic

namespace QueueWorker.Notify

variable {α ρ δ : Type}

/-- One step of a queue with its task, its producers and its owner, case by case. -/
inductive Step (s : State α ρ δ) : Act α δ → State α ρ δ → Prop
  | push (i a) (producer : s.producers[i]? = some .idle) (closing : s.closing = .unasked) :
      Step s (.notify i a) ({ s with producers := s.producers.set i .pushed }.push a)
  | wake (i) (producer : s.producers[i]? = some .pushed) :
      Step s (.producer i) { s.wake with producers := s.producers.set i .idle }
  | close (after) (closing : s.closing = .unasked) : Step s (.close after) (s.unregister after)
  | drop (closing : s.closing = .unasked) : Step s .drop { s with closing := .dropping }
  | announce (after) (closing : s.closing = .marked after) :
      Step s .owner { s.wake with closing := .woken after }
  | leave (closing : s.closing = .woken none) : Step s .owner { s with closing := .dropping }
  | entrust (d) (closing : s.closing = .woken (some d)) :
      Step s .owner { s with closing := .dropping, completion := .waiting d }
  | relinquish (closing : s.closing = .dropping) : Step s .owner (s.unregister none)
  | useUp (task : s.task = .ready) (permit : s.permit = true) :
      Step s .task { s with permit := false, task := .checking }
  | wait (task : s.task = .ready) (permit : s.permit = false) :
      Step s .task { s with task := .waiting }
  | goOn (task : s.task = .checking) (open' : s.closed = false) :
      Step s .task { s with task := .draining }
  | stop (task : s.task = .checking) (closed : s.closed = true) :
      Step s .task { s with task := .closing }
  | rest (task : s.task = .draining) (items : s.items = []) : Step s .task { s with task := .ready }
  | take (a as) (task : s.task = .draining) (items : s.items = a :: as) :
      Step s .task
        ({ s with items := as, task := .calling a (s.callback s.visits a) }.note (.called a))
  | finish (a) (task : s.task = .calling a .finish) :
      Step s .task { s with task := .draining, visits := s.visits ++ [a] }
  | unwind (a p) (task : s.task = .calling a (.unwind p)) :
      Step s .task { s with task := .failed p, visits := s.visits ++ [a] }
  | report (a e rest) (task : s.task = .calling a (.report e rest)) :
      Step s .task ({ s with task := .calling a rest }.note (.reported e))
  | pushSelf (a b rest) (task : s.task = .calling a (.notify b rest)) :
      Step s .task ({ s with task := .waking a rest }.push b)
  | measure (a rest) (task : s.task = .calling a (.length rest)) :
      Step s .task { s with task := .calling a (rest s.items.length) }
  | wakeSelf (a rest) (task : s.task = .waking a rest) :
      Step s .task { s.wake with task := .calling a rest }
  | retire (task : s.task = .closing) :
      Step s .task ({ s with task := .ended }.note (.logged (.unregistered s.items.length)))
  | complete (d) (completion : s.completion = .waiting d) (task : s.task = .ended) :
      Step s .completion ({ s with completion := .run }.note (.completed d))
  | completeFailed (d p) (completion : s.completion = .waiting d) (task : s.task = .failed p) :
      Step s .completion
        (({ s with completion := .run }.note (.logged (.failed p))).note (.completed d))

theorem step_of_follow {s : State α ρ δ} {a : α} {script : Script α ρ}
    (task : s.task = .calling a script) : Step s .task (s.follow a script) := by
  cases script with
  | finish => exact .finish a task
  | unwind p => exact .unwind a p task
  | report e rest => exact .report a e rest task
  | notify b rest => exact .pushSelf a b rest task
  | length rest => exact .measure a rest task

theorem step_of_work {s u : State α ρ δ} (hs : s.work? = some u) : Step s .task u := by
  cases task : s.task with
  | ready =>
      simp only [State.work?, task] at hs
      cases hs
      split
      next permit => exact .useUp task permit
      next permit => exact .wait task (eq_false_of_ne_true permit)
  | waiting | ended | failed => simp only [State.work?, task] at hs; cases hs
  | checking =>
      simp only [State.work?, task] at hs
      cases hs
      split
      next closed => exact .stop task closed
      next open' => exact .goOn task (eq_false_of_ne_true open')
  | draining =>
      simp only [State.work?, task] at hs
      cases hs
      split
      next items => exact .rest task items
      next a as items => exact .take a as task items
  | calling a script =>
      simp only [State.work?, task] at hs
      cases hs
      exact step_of_follow task
  | waking a rest => simp only [State.work?, task] at hs; cases hs; exact .wakeSelf a rest task
  | closing => simp only [State.work?, task] at hs; cases hs; exact .retire task

theorem step_of_proceed {s u : State α ρ δ} (hs : s.proceed? = some u) : Step s .owner u := by
  cases closing : s.closing with
  | unasked | finished => simp only [State.proceed?, closing] at hs; cases hs
  | marked after =>
      simp only [State.proceed?, closing] at hs
      cases hs
      exact .announce after closing
  | woken after =>
      cases after with
      | none => simp only [State.proceed?, closing] at hs; cases hs; exact .leave closing
      | some d => simp only [State.proceed?, closing] at hs; cases hs; exact .entrust d closing
  | dropping => simp only [State.proceed?, closing] at hs; cases hs; exact .relinquish closing

theorem step_of_complete {s u : State α ρ δ} (hs : s.complete? = some u) :
    Step s .completion u := by
  simp only [State.complete?] at hs
  split at hs
  next d completion task => cases hs; exact .complete d completion task
  next d p completion task => cases hs; exact .completeFailed d p completion task
  next => cases hs

theorem step_of_next {s u : State α ρ δ} {act : Act α δ} (hs : s.next? act = some u) :
    Step s act u := by
  cases act with
  | notify i a =>
      simp only [State.next?] at hs
      split at hs
      next producer closing => cases hs; exact .push i a producer closing
      next => cases hs
  | close after =>
      simp only [State.next?] at hs
      split at hs
      next closing => cases hs; exact .close after closing
      next => cases hs
  | drop =>
      simp only [State.next?] at hs
      split at hs
      next closing => cases hs; exact .drop closing
      next => cases hs
  | producer i =>
      simp only [State.next?] at hs
      split at hs
      next producer => cases hs; exact .wake i producer
      next => cases hs
  | owner => exact step_of_proceed hs
  | task => exact step_of_work hs
  | completion => exact step_of_complete hs

/-- The states of a queue with any producers and whatever callback. -/
inductive Reachable (callback : Callback α ρ) (producers : Nat) : State α ρ δ → Prop
  | create : Reachable callback producers (State.create callback producers)
  | next {s u : State α ρ δ} {act : Act α δ} (before : Reachable callback producers s)
      (step : s.next? act = some u) : Reachable callback producers u

def State.run? (s : State α ρ δ) : List (Act α δ) → Option (State α ρ δ)
  | [] => some s
  | act :: acts => (s.next? act).bind (fun u => u.run? acts)

theorem State.run?_append {s u : State α ρ δ} {acts : List (Act α δ)} (hs : s.run? acts = some u)
    (later : List (Act α δ)) : s.run? (acts ++ later) = u.run? later := by
  induction acts generalizing s with
  | nil => cases hs; rfl
  | cons act acts ih =>
      obtain ⟨v, hv, hu⟩ := Option.bind_eq_some_iff.mp hs
      rw [List.cons_append, State.run?, hv]
      exact ih hu

namespace Reachable

variable {callback : Callback α ρ} {producers : Nat} {s u : State α ρ δ}

theorem run {acts : List (Act α δ)} (hr : Reachable callback producers s)
    (hs : s.run? acts = some u) : Reachable callback producers u := by
  induction acts generalizing s with
  | nil => cases hs; exact hr
  | cons act acts ih =>
      obtain ⟨v, hv, hu⟩ := Option.bind_eq_some_iff.mp hs
      exact ih (hr.next hv) hu

theorem of_run {acts : List (Act α δ)} {p : State α ρ δ → Bool}
    (hp : ((State.create callback producers).run? acts).any p = true) :
    ∃ s, (State.create callback producers).run? acts = some s ∧
      Reachable callback producers s ∧ p s = true := by
  cases hs : (State.create callback producers).run? acts with
  | none => rw [hs] at hp; cases hp
  | some s =>
      rw [hs] at hp
      exact ⟨s, rfl, create.run hs, hp⟩

end Reachable

end QueueWorker.Notify
