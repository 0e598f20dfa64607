import Mathlib.Algebra.GroupWithZero.Nat
import QueueWorker.Proofs.Worker.Session

namespace QueueWorker

variable {α ρ : Type}

def Message.effort : Message α → Nat
  | .item _ => 7
  | .stop => 2

theorem Message.effort_items (as : List α) :
    ((as.map Message.item).map Message.effort).sum = 7 * as.length := by
  induction as with
  | nil => rfl
  | cons a as ih => simp only [List.map_cons, List.sum_cons, ih, effort, List.length_cons]; omega

namespace Worker

def Stage.effort : Stage α ρ → Nat
  | .fetched _ => 6
  | .lacking _ | .running .. | .calling .. => 5
  | .skipping _ | .concluded .. => 4
  | .noted .. => 3
  | .leaving _ => 2
  | .starting | .exiting => 1
  | .polling | .sleeping | .exited | .dead _ => 0

/-- A call that misses the running thread begins anew. Only then it is a long way from `checking`
to the end. -/
def Cursor.effort (phase : Phase) : Cursor α → Nat
  | .entering load => 11 + 7 * (load.getD []).length
  | .ensuring load => 10 + 7 * (load.getD []).length
  | .reclaiming load _ => 9 + 7 * (load.getD []).length
  | .spawning load => 8 + 7 * (load.getD []).length
  | .counting load _ => 6 + 7 * (load.getD []).length
  | .announcing load _ => 5 + 7 * (load.getD []).length
  | .adopting load _ => 4 + 7 * (load.getD []).length
  | .checking batch => (match phase with | .running _ => 3 | _ => 11) + 7 * batch.length
  | .pushing batch => 2 + 7 * batch.length
  | .enteringJoin => 9
  | .stopping _ => 8
  | .marking .. => 7
  | .abandoning .. | .taking => 4
  | .awaiting _ | .retiring => 3
  | .settling _ | .outliving _ => 2
  | .leaving .. | .sweeping | .readingStatus | .readingLength => 1

def Client.effort (phase : Phase) : Client α ρ → Nat
  | .calling c => c.effort phase
  | _ => 0

def Call.effort : Call α → Nat
  | .send _ => 19
  | .sendAll as => 12 + 7 * as.length
  | _ => 12

theorem Call.effort_pos (c : Call α) : 0 < c.effort := by
  cases c <;> simp only [effort] <;> omega

def State.effort (s : State α ρ) : Nat :=
  (s.queue.map Message.effort).sum + (s.threads.map (fun th => th.stage.effort)).sum

/-- What is still to be done in a session: a bound for the moves in it, but for those within a
callback. -/
def Session.effort (x : Session α ρ) : Nat :=
  x.worker.effort + (x.worker.clients.map (Client.effort x.worker.phase)).sum +
    (x.todo.map Call.effort).sum

theorem sum_map_set {β : Type} {l : List β} {t : Nat} {x : β} (ht : l[t]? = some x) (y : β)
    (f : β → Nat) : ((l.set t y).map f).sum + f x = (l.map f).sum + f y := by
  induction l generalizing t with
  | nil => cases ht
  | cons z l ih =>
      cases t with
      | zero => cases ht; simp only [List.set_cons_zero, List.map_cons, List.sum_cons]; omega
      | succ t =>
          have := ih (t := t) ht
          simp only [List.set_cons_succ, List.map_cons, List.sum_cons]
          omega

theorem effort_setStage {s : State α ρ} {t : Nat} {th : Thread α ρ}
    (ht : s.threads[t]? = some th) (stage : Stage α ρ) :
    (s.setStage t stage).effort + th.stage.effort = s.effort + stage.effort := by
  have := sum_map_set ht { th with stage } (fun th => th.stage.effort)
  simp only [State.effort, State.setStage, modify_of_getElem? ht] at this ⊢
  omega

theorem effort_push (s : State α ρ) (ms : List (Message α)) :
    (s.push ms).effort = s.effort + (ms.map Message.effort).sum := by
  have threads := s.map_roused ms (fun th => th.stage.effort) (fun th hst => by rw [hst]; rfl)
  simp only [State.push_eq, State.effort, threads, List.map_append, List.sum_append]
  omega

theorem effort_advances {h : Host α} {s s' : State α ρ} {i : Nat} {c : Cursor α}
    {p : Progress α} (step : Advances h s (.client i) c s' p) :
    s'.effort + (p.client : Client α ρ).effort s'.phase < s.effort + c.effort s.phase := by
  cases step with
  | reclaimSelf load t self | awaitSelf t self | outliveSelf t self => cases self
  | pushed batch =>
      have push := effort_push s (batch.map .item)
      rw [Message.effort_items] at push
      have same : State.effort ({ s.push (batch.map .item) with guard := none }.note
          (.queued (.client i) batch)) = (s.push (batch.map .item)).effort := rfl
      simp only [same, Progress.client, Client.effort, Cursor.effort]
      omega
  | marked q t =>
      have push := effort_push s [.stop]
      have same : State.effort { s.push [.stop] with phase := .stopping t, guard := none } =
          (s.push [.stop]).effort := rfl
      rw [same, push]
      cases q <;> simp [Progress.client, Purpose.next, Client.effort, Cursor.effort, Message.effort]
  | spawned load =>
      simp only [State.effort, List.map_append, List.sum_append, Progress.client, Client.effort,
        Cursor.effort, List.map_cons, List.map_nil, List.sum_cons, List.sum_nil, Stage.effort]
      omega
  | stopMissed q open' phase =>
      cases q <;> simp [Progress.client, Purpose.next, Client.effort, Cursor.effort]
  | missed batch open' phase =>
      cases hp : s.phase with
      | running t => exact absurd hp (phase t)
      | _ => simp [Progress.client, Client.effort, Cursor.effort]
  | swept ended =>
      simp only [State.effort, State.discard, Progress.client, Client.effort, Cursor.effort,
        List.map_nil, List.sum_nil]
      omega
  | loaded t batch open' phase | found batch t open' phase =>
      simp [Progress.client, Client.effort, Cursor.effort, State.effort, phase]
  | refused load e refusal =>
      simp only [Progress.client, Client.effort, Cursor.effort, State.effort]
      omega
  | _ =>
      simp [Progress.client, Client.effort, Cursor.effort, State.effort, State.log, State.note,
        State.discard]

theorem effort_first {s : State α ρ} {c : Call α} {k : Cursor α} (first : c.begin s = .at k)
    (phase : Phase) : k.effort phase < c.effort := by
  cases c <;> cases first <;> simp [Cursor.effort, Call.effort]

theorem effort_works {h : Host α} {s u : State α ρ} {t : Nat} {th : Thread α ρ}
    (ht : s.threads[t]? = some th) (aloof : th.stage.Aloof)
    (busy : th.stage = .polling → s.queue ≠ [])
    (outside : ∀ a replies script, th.stage ≠ .running a replies script)
    (hw : Works h s t th u) : u.effort < s.effort := by
  have move {v : State α ρ} {stage : Stage α ρ} (threads : v.threads = s.threads)
      (less : v.effort + stage.effort < s.effort + th.stage.effort) :
      (v.setStage t stage).effort < s.effort := by
    have := effort_setStage (threads ▸ ht) stage
    omega
  cases hw with
  | start stage =>
      have := sum_map_set ht
        { th with standing := th.priority.apply th.standing, stage := .polling }
        (fun th => th.stage.effort)
      simp only [State.effort, stage, Stage.effort] at this ⊢
      omega
  | sleep stage queue => exact absurd queue (busy stage)
  | fetch a ms stage queue | halt ms stage queue =>
      refine move rfl ?_
      simp only [State.effort, queue, stage, List.map_cons, List.sum_cons, Stage.effort,
        Message.effort]
      omega
  | finish a replies stage | unwind a replies p stage | report a replies e rest stage
  | self a replies rest stage => exact absurd stage (outside _ _ _)
  | askGone _ _ _ _ stage | askDrop _ _ _ stage | ask _ _ _ _ _ stage | askNow _ _ _ _ _ stage
  | call _ _ _ _ _ _ stage => rw [stage] at aloof; exact aloof.elim
  | skip a stage =>
      refine move rfl (Nat.add_lt_add_left ?_ _)
      cases h.disposal a <;> simp [stage, Stage.effort]
  | letGo p stage =>
      refine move rfl (Nat.add_lt_add_left ?_ _)
      cases p.bind Payload.relic? <;> simp [stage, Stage.effort]
  | lack a stage | begin a f stage | warn a stage | returned a stage | caught a p stage
  | panicked a p stage | exit stage =>
      refine move rfl (Nat.add_lt_add_left ?_ _)
      simp [stage, Stage.effort]

theorem Session.effort_eq {x : Session α ρ} {cl : Client α ρ} (clients : x.worker.clients = [cl]) :
    x.effort = x.worker.effort + cl.effort x.worker.phase + (x.todo.map Call.effort).sum := by
  rw [effort, clients, List.map_singleton, List.sum_singleton]

theorem effort_begin {h : Host α} {x : Session α ρ} {r : Option Reply} {c : Call α}
    {cs : List (Call α)} {u : State α ρ} (clients : x.worker.clients = [.idle r])
    (todo : x.todo = c :: cs) (step : Step h x.worker (.call 0 c) u) :
    (x.heard cs u).effort < x.effort := by
  have less {cl : Client α ρ} {owner : Owner} (short : cl.effort x.worker.phase < c.effort) :
      (x.heard cs ({ x.worker with owner }.setClient 0 cl)).effort < x.effort := by
    have clients' :
        (x.heard cs ({ x.worker with owner }.setClient 0 cl)).worker.clients = [cl] := by
      simp [Session.heard, State.setClient, clients]
    have same : (x.heard cs ({ x.worker with owner }.setClient 0 cl)).worker.effort =
        x.worker.effort := rfl
    rw [Session.effort_eq clients', Session.effort_eq clients, same, todo, List.map_cons,
      List.sum_cons]
    simp only [Session.heard, State.setClient, Client.effort] at short ⊢
    omega
  cases step with
  | call i c k free other first => exact less (effort_first first _)
  | answer i c r' free other first => exact less (c.effort_pos)
  | drop i free quiet => exact less (by simp [Client.effort, Cursor.effort, Call.effort])

theorem effort_go {h : Host α} {x : Session α ρ} {c : Cursor α} {u : State α ρ}
    (clients : x.worker.clients = [.calling c]) (step : Step h x.worker (.client 0) u) :
    (x.heard x.todo u).effort < x.effort := by
  cases step with
  | place i f client => simp [clients] at client
  | client i c' s' p client step =>
      obtain rfl : c' = c := by simpa [clients] using client.symm
      have clients' : (x.heard x.todo (s'.setClient 0 p.client)).worker.clients = [p.client] := by
        simp [Session.heard, State.setClient, clients_advances step, clients]
      have same : (x.heard x.todo (s'.setClient 0 p.client)).worker.effort = s'.effort := rfl
      have less := effort_advances step
      rw [Session.effort_eq clients', Session.effort_eq clients, same]
      simp only [Session.heard, State.setClient, Client.effort] at less ⊢
      omega

theorem Fair.work {h : Host α} {x : Session α ρ} {t : Nat} {th : Thread α ρ} {u : State α ρ}
    (fair : Fair h x) (ht : x.worker.threads[t]? = some th)
    (busy : th.stage = .polling → x.worker.queue ≠ []) (works : Works h x.worker t th u) :
    ∃ y, Goes h x (.thread t) y ∧ Fair h y ∧ y.worker = u ∧
      y.effort + x.worker.effort = x.effort + u.effort := by
  have goes : Goes h x (.thread t) { x with worker := u } := .thread t th u ht busy works
  have desk := desk_of_works (fair.secluded.threads t th ht) works
  refine ⟨_, goes, fair_goes fair goes, rfl, ?_⟩
  simp only [Session.effort, desk.clients, desk.phase]
  omega

def HasEnd (h : Host α) (x : Session α ρ) : Prop := ∃ z n, Ends h z n x

theorem HasEnd.of_goes {h : Host α} {x y : Session α ρ} {m : Move} (ends : HasEnd h y)
    (goes : Goes h x m y) : HasEnd h x := by
  obtain ⟨z, n, ends⟩ := ends
  exact ⟨z, n + 1, .move n x m y goes ends⟩

section running

variable {h : Host α} {x : Session α ρ} {t n : Nat} {th : Thread α ρ} {a : α}
  {replies : List Reply} {script : Script α ρ} {v : State α ρ}

theorem HasEnd.of_concluded (later : ∀ y : Session α ρ, Fair h y → y.effort < n → HasEnd h y)
    (fair : Fair h x) (bound : x.effort ≤ n) (ht : x.worker.threads[t]? = some th)
    (stage : th.stage = .running a replies script) {o : Option Payload}
    (works : Works h x.worker t th (x.worker.conclude t a replies o)) : HasEnd h x := by
  obtain ⟨y, goes, fairY, -, shares⟩ := fair.work ht (by simp [stage]) works
  have moved : (x.worker.conclude t a replies o).effort + th.stage.effort =
      x.worker.effort + Stage.effort (.concluded a o : Stage α ρ) := effort_setStage ht _
  simp only [stage, Stage.effort] at moved
  exact (later y fairY (by omega)).of_goes goes

theorem HasEnd.of_rest {rest : Script α ρ} (fair : Fair h x) (bound : x.effort ≤ n)
    (ht : x.worker.threads[t]? = some th) (stage : th.stage = .running a replies script)
    (works : Works h x.worker t th (v.setStage t (.running a replies rest)))
    (threads : v.threads = x.worker.threads) (same : v.effort = x.worker.effort)
    (behind : ∀ {y : Session α ρ} {th' : Thread α ρ}, Fair h y → y.effort ≤ n →
      y.worker.threads[t]? = some th' → th'.stage = .running a replies rest → HasEnd h y) :
    HasEnd h x := by
  obtain ⟨y, goes, fairY, worker, shares⟩ := fair.work ht (by simp [stage]) works
  have hv : v.threads[t]? = some th := threads ▸ ht
  have moved := effort_setStage hv (.running a replies rest)
  simp only [stage, Stage.effort] at moved
  have hy : y.worker.threads[t]? = some { th with stage := .running a replies rest } := by
    simp [worker, State.setStage, hv]
  exact (behind fairY (by omega) hy rfl).of_goes goes

theorem HasEnd.of_running (later : ∀ y : Session α ρ, Fair h y → y.effort < n → HasEnd h y)
    (fair : Fair h x) (bound : x.effort ≤ n) (ht : x.worker.threads[t]? = some th)
    (stage : th.stage = .running a replies script) : HasEnd h x := by
  have aloof := fair.secluded.threads t th ht
  rw [stage] at aloof
  induction script generalizing x th with
  | finish => exact .of_concluded later fair bound ht stage (.finish a replies stage)
  | unwind p => exact .of_concluded later fair bound ht stage (.unwind a replies p stage)
  | report e rest ih =>
      exact .of_rest fair bound ht stage (.report a replies e rest stage) rfl rfl
        fun fair bound ht stage => ih fair bound ht stage aloof
  | self rest ih =>
      exact .of_rest fair bound ht stage (.self a replies rest stage) rfl rfl
        fun fair bound ht stage => ih _ fair bound ht stage (aloof _)
  | hold | ask => exact aloof.elim

end running

/-- There is an end to every session. -/
theorem Fair.hasEnd {h : Host α} {x : Session α ρ} (fair : Fair h x) : HasEnd h x := by
  induction hn : x.effort using Nat.strongRecOn generalizing x with
  | ind n ih =>
      subst hn
      have later (y : Session α ρ) (fairY : Fair h y) (less : y.effort < x.effort) : HasEnd h y :=
        ih _ less fairY rfl
      by_cases still : ∀ m y, ¬ Goes h x m y
      · exact ⟨x, 0, .still x ⟨.refl _, rfl, rfl⟩ still⟩
      · obtain ⟨m, y, goes⟩ : ∃ m y, Goes h x m y := by simpa using still
        have fairY := fair_goes fair goes
        cases goes with
        | client act cs u chosen step =>
            refine HasEnd.of_goes (later _ fairY ?_) (.client act cs u chosen step)
            rcases fair.act chosen with ⟨r, c, clients, todo, rfl⟩ | ⟨c, clients, -, rfl, rfl⟩
            · exact effort_begin clients todo step
            · exact effort_go clients step
        | thread t th u ht busy works =>
            by_cases inside : ∃ a replies script, th.stage = .running a replies script
            · obtain ⟨a, replies, script, stage⟩ := inside
              exact .of_running later fair (Nat.le_refl _) ht stage
            · have outside a replies script (stage : th.stage = .running a replies script) :
                  False :=
                inside ⟨a, replies, script, stage⟩
              obtain ⟨y, goes, fairY, -, shares⟩ := fair.work ht busy works
              have less := effort_works ht (fair.secluded.threads t th ht) busy outside works
              exact (later y fairY (by omega)).of_goes goes

end Worker

end QueueWorker
