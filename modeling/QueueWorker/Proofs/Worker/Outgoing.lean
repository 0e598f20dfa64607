import QueueWorker.Proofs.Worker.Deadlock
import QueueWorker.Proofs.Worker.Retry

namespace QueueWorker.Worker

variable {α ρ : Type}

/-- What a thread that has to end does next, with so many messages in the queue. -/
inductive Follows : Nat × Stage α ρ → Nat × Stage α ρ → Prop
  | start (n) : Follows (n, .starting) (n, .polling)
  | fetch (n a) : Follows (n + 1, .polling) (n, .fetched a)
  | halt (n) : Follows (n + 1, .polling) (n, .exiting)
  | lack (n a) : Follows (n, .fetched a) (n, .lacking a)
  | begin (n a script) : Follows (n, .fetched a) (n, .running a [] script)
  | warn (n a) : Follows (n, .lacking a) (n, .skipping a)
  | skip (n a) : Follows (n, .skipping a) (n, .polling)
  | skipDead (n a p) : Follows (n, .skipping a) (n, .dead p)
  | conclude (n a replies script o) : Follows (n, .running a replies script) (n, .concluded a o)
  | hold (n a replies rest) :
      Follows (n, .running a replies (.hold rest)) (n, .running a replies rest)
  | report (n a replies e rest) :
      Follows (n, .running a replies (.report e rest)) (n, .running a replies rest)
  | self (n a replies rest me) :
      Follows (n, .running a replies (.self rest)) (n, .running a replies (rest me))
  | ask (n a replies c rest k) :
      Follows (n, .running a replies (.ask c rest)) (n, .calling a replies k rest)
  | told (n a replies c rest replies' x) :
      Follows (n, .running a replies (.ask c rest)) (n, .running a replies' (rest x))
  | answer (n a replies k rest replies' x) :
      Follows (n, .calling a replies k rest) (n, .running a replies' (rest x))
  | returned (n a) : Follows (n, .concluded a none) (n, .leaving none)
  | caught (n a p) : Follows (n, .concluded a (some p)) (n, .noted a p)
  | panicked (n a p) : Follows (n, .noted a p) (n, .leaving (some p))
  | letGo (n p) : Follows (n, .leaving p) (n, .polling)
  | letGoDead (n p p') : Follows (n, .leaving p) (n, .dead p')
  | exit (n) : Follows (n, .exiting) (n, .exited)

namespace Follows

def Ending (x : Nat × Stage α ρ) : Prop := Acc (fun y x => Follows x y) x

theorem ending_of_ended {n : Nat} {st : Stage α ρ} {e : Option Payload} (ended : st.end? = some e) :
    Ending (n, st) := by
  constructor
  rintro y follows
  cases follows <;> cases ended

theorem ending_leaving {n : Nat} (polling : Ending (n, (.polling : Stage α ρ)))
    (p : Option Payload) : Ending (n, (.leaving p : Stage α ρ)) := by
  constructor
  rintro y follows
  cases follows with
  | letGo => exact polling
  | letGoDead => exact ending_of_ended rfl

theorem ending_concluded {n : Nat} (polling : Ending (n, (.polling : Stage α ρ))) (a : α)
    (o : Option Payload) : Ending (n, (.concluded a o : Stage α ρ)) := by
  constructor
  rintro y follows
  cases follows with
  | returned => exact ending_leaving polling none
  | caught n a p =>
      constructor
      rintro z follows
      cases follows with
      | panicked => exact ending_leaving polling (some p)

theorem ending_running {n : Nat} (polling : Ending (n, (.polling : Stage α ρ))) (a : α)
    (replies : List Reply) (script : Script α ρ) : Ending (n, .running a replies script) := by
  induction script generalizing replies with
  | finish =>
      constructor
      rintro y follows
      cases follows with
      | conclude => exact ending_concluded polling a _
  | unwind p =>
      constructor
      rintro y follows
      cases follows with
      | conclude => exact ending_concluded polling a _
  | hold rest ih =>
      constructor
      rintro y follows
      cases follows with
      | conclude => exact ending_concluded polling a _
      | hold => exact ih replies
  | report e rest ih =>
      constructor
      rintro y follows
      cases follows with
      | conclude => exact ending_concluded polling a _
      | report => exact ih replies
  | self rest ih =>
      constructor
      rintro y follows
      cases follows with
      | conclude => exact ending_concluded polling a _
      | self n a replies rest me => exact ih me replies
  | ask c rest ih =>
      constructor
      rintro y follows
      cases follows with
      | conclude => exact ending_concluded polling a _
      | told n a replies c rest replies' x => exact ih x replies'
      | ask n a replies c rest k =>
          constructor
          rintro z follows
          cases follows with
          | answer n a replies k rest replies' x => exact ih x replies'

theorem ending_of_polling {n : Nat} (polling : Ending (n, (.polling : Stage α ρ)))
    (st : Stage α ρ) : Ending (n, st) := by
  have lacking (a : α) : Ending (n, (.lacking a : Stage α ρ)) := by
    constructor
    rintro y follows
    cases follows with
    | warn =>
        constructor
        rintro z follows
        cases follows with
        | skip => exact polling
        | skipDead => exact ending_of_ended rfl
  cases st with
  | polling => exact polling
  | starting =>
      constructor
      rintro y follows
      cases follows with
      | start => exact polling
  | sleeping =>
      constructor
      rintro y follows
      cases follows
  | fetched a =>
      constructor
      rintro y follows
      cases follows with
      | lack => exact lacking a
      | begin n a script => exact ending_running polling a [] script
  | lacking a => exact lacking a
  | skipping a => exact (lacking a).inv (.warn n a)
  | running a replies script => exact ending_running polling a replies script
  | calling a replies k rest =>
      exact (ending_running polling a replies (.ask .status rest)).inv (.ask n a replies _ rest k)
  | concluded a o => exact ending_concluded polling a o
  | noted a p => exact (ending_concluded polling a (some p)).inv (.caught n a p)
  | leaving p => exact ending_leaving polling p
  | exiting =>
      constructor
      rintro y follows
      cases follows with
      | exit => exact ending_of_ended rfl
  | exited => exact ending_of_ended rfl
  | dead p => exact ending_of_ended rfl

theorem ending (n : Nat) (st : Stage α ρ) : Ending (n, st) := by
  induction n generalizing st with
  | zero =>
      apply ending_of_polling
      constructor
      rintro y follows
      cases follows
  | succ n ih =>
      apply ending_of_polling
      constructor
      rintro y follows
      cases follows with
      | fetch n a => exact ih _
      | halt => exact ih _

end Follows

theorem Works.unheld {h : Host α} {s u : State α ρ} {t : Nat} {th : Thread α ρ}
    (hw : Works h s t th u) : th.stage.isHeld = false := by
  cases hw <;> simp_all [Stage.isHeld]

def Stage.next (t : Nat) (st : Stage α ρ) : Act α ρ :=
  if st.isHeld then .release t else .thread t

/-- A thread that has to end, with the worker in the hands of a client that waits for that. -/
structure Outgoing (s : State α ρ) (i t : Nat) (th : Thread α ρ) : Prop where
  thread : s.threads[t]? = some th
  alive : th.stage.end? = none
  pose : s.pose? (.client i) = some (.retaking t)
  free : s.guard = none

namespace Outgoing

variable {h : Host α} {s u : State α ρ} {i t : Nat} {th : Thread α ρ} {act : Act α ρ}

theorem fits (hs : Outgoing s i t th) (hr : Reachable h s) : s.Fits (.retaking t) := by
  obtain ⟨c, hc, hq⟩ := Option.bind_eq_some_iff.mp hs.pose
  exact hr.fits hc hq

theorem not_running (hs : Outgoing s i t th) (hr : Reachable h s) (v : Nat) :
    s.phase ≠ .running v := by
  intro running
  rcases (hs.fits hr).1 with phase | phase <;> rw [running] at phase <;> cases phase

theorem awake (hs : Outgoing s i t th) (hr : Reachable h s) : th.stage.isSleeping = false :=
  awake_of_retaking hr.watchful (hs.fits hr).2 hs.thread

theorem still (hs : Outgoing s i t th) (hr : Reachable h s) (step : Step h s act u)
    (other : act ≠ .client i) (unmoved : act ≠ th.stage.next t) :
    u.threads[t]? = some th ∧ u.queue = s.queue := by
  have unique {v : Nat} {tv : Thread α ρ} (thread : s.threads[v]? = some tv)
      (alive : tv.stage.end? = none) : v = t ∧ tv = th := by
    obtain rfl := hr.alone ⟨tv, thread, alive⟩ ⟨th, hs.thread, hs.alive⟩
    exact ⟨rfl, Option.some.inj (thread.symm.trans hs.thread)⟩
  cases step with
  | client j c s' p client step =>
      have ne : Agent.client j ≠ .client i := fun same => other (by cases same; rfl)
      obtain ⟨pose, guard⟩ :=
        bystander_of_charged hr.locked hs.pose ne hs.free (State.cursor?_of_client client)
      cases step with
      | enter | enterJoin | status | length | stopFound | stopMissed => exact ⟨hs.thread, rfl⟩
      | marked q v => cases guard
      | _ => cases pose
  | thread v tv u thread step =>
      obtain ⟨w, there, alive⟩ := step.isAlive thread
      cases thread.symm.trans there
      obtain ⟨rfl, rfl⟩ := unique thread alive
      exact absurd (if_neg (by simp [step.unheld])).symm unmoved
  | release v tv a replies rest thread stage =>
      obtain ⟨rfl, rfl⟩ := unique thread (by rw [stage]; rfl)
      exact absurd (by rw [stage]; rfl) unmoved
  | stir v tv thread stage =>
      obtain ⟨rfl, rfl⟩ := unique thread (by rw [stage]; rfl)
      have := hs.awake hr
      rw [stage] at this
      cases this
  | _ => exact ⟨hs.thread, rfl⟩

theorem follows_setStage {v : State α ρ} {st : Stage α ρ} (thread : v.threads[t]? = some th)
    (follows : Follows (s.queue.length, th.stage) (v.queue.length, st)) :
    ∃ th', (v.setStage t st).threads[t]? = some th' ∧
      Follows (s.queue.length, th.stage) ((v.setStage t st).queue.length, th'.stage) :=
  ⟨{ th with stage := st }, by simp [State.setStage, thread], follows⟩

theorem follows_of_works (hs : Outgoing s i t th) (hr : Reachable h s)
    (step : Works h s t th u) : ∃ th', u.threads[t]? = some th' ∧
      Follows (s.queue.length, th.stage) (u.queue.length, th'.stage) := by
  have modest := hr.civil.threads t th hs.thread
  have thread := hs.thread
  cases step with
  | start stage =>
      refine ⟨_, List.getElem?_set_self (List.getElem?_eq_some_iff.mp thread).1, ?_⟩
      rw [stage]
      exact .start _
  | sleep stage empty =>
      exact absurd empty (queue_of_retaking (hs.fits hr).2 thread (by rw [stage]; rfl))
  | fetch a ms stage queue =>
      exact follows_setStage thread (by rw [stage, queue]; exact .fetch _ a)
  | halt ms stage queue => exact follows_setStage thread (by rw [stage, queue]; exact .halt _)
  | lack a stage => exact follows_setStage thread (by rw [stage]; exact .lack _ a)
  | begin a f stage => exact follows_setStage thread (by rw [stage]; exact .begin _ a _)
  | warn a stage => exact follows_setStage thread (by rw [stage]; exact .warn _ a)
  | skip a stage =>
      refine follows_setStage thread ?_
      rw [stage]
      cases h.disposal a with
      | none => exact .skip _ a
      | some p => exact .skipDead _ a p
  | finish a replies stage | unwind a replies p stage =>
      exact follows_setStage thread (by rw [stage]; exact .conclude _ a replies _ _)
  | report a replies e rest stage =>
      exact follows_setStage thread (by rw [stage]; exact .report _ a replies e rest)
  | self a replies rest stage =>
      exact follows_setStage thread (by rw [stage]; exact .self _ a replies rest _)
  | askGone a replies c rest stage | askNow a replies c rest r stage =>
      exact follows_setStage thread (by rw [stage]; exact .told _ a replies c rest _ _)
  | askDrop a replies rest stage =>
      rw [stage] at modest
      cases modest.1
  | ask a replies c rest k stage =>
      exact follows_setStage thread (by rw [stage]; exact .ask _ a replies c rest k)
  | call a replies c rest s' p stage step =>
      rw [stage] at modest
      have hc : s.cursor? (.thread t) = some c := by rw [State.cursor?_of_thread thread, stage]; rfl
      obtain ⟨-, unheld⟩ :=
        bystander_of_charged hr.locked hs.pose Agent.noConfusion hs.free hc
      have answer (r : Reply) : Follows (s.queue.length, th.stage)
          (s.queue.length, .running a (replies ++ [r]) (rest r)) := by
        rw [stage]; exact .answer _ a replies c rest _ r
      cases step with
      | stopFound q v open' phase => exact absurd phase (hs.not_running hr v)
      | stopMissed q open' phase =>
          cases q with
          | stop => exact follows_setStage thread (answer _)
          | join | drop => cases modest.1
      | marked q v => cases unheld
      | status | length => exact follows_setStage thread (answer _)
      | _ => cases modest.1
  | returned a stage => exact follows_setStage thread (by rw [stage]; exact .returned _ a)
  | caught a p stage => exact follows_setStage thread (by rw [stage]; exact .caught _ a p)
  | panicked a p stage => exact follows_setStage thread (by rw [stage]; exact .panicked _ a p)
  | letGo p stage =>
      refine follows_setStage thread ?_
      rw [stage]
      cases p.bind Payload.relic? with
      | none => exact .letGo _ p
      | some p' => exact .letGoDead _ p p'
  | exit stage => exact follows_setStage thread (by rw [stage]; exact .exit _)

theorem follows (hs : Outgoing s i t th) (hr : Reachable h s)
    (step : Step h s (th.stage.next t) u) : ∃ th', u.threads[t]? = some th' ∧
      Follows (s.queue.length, th.stage) (u.queue.length, th'.stage) := by
  generalize moved : th.stage.next t = act at step
  cases step with
  | thread v tv u thread step =>
      obtain rfl : v = t := by
        unfold Stage.next at moved
        split at moved <;> cases moved
        rfl
      cases hs.thread.symm.trans thread
      exact hs.follows_of_works hr step
  | release v tv a replies rest thread stage =>
      obtain rfl : v = t := by
        unfold Stage.next at moved
        split at moved <;> cases moved
        rfl
      cases hs.thread.symm.trans thread
      exact follows_setStage thread (by rw [stage]; exact .hold _ a replies rest)
  | _ =>
      unfold Stage.next at moved
      split at moved <;> cases moved

end Outgoing

end QueueWorker.Worker
