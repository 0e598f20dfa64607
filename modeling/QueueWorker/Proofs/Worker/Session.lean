import QueueWorker.Proofs.Worker.Commute
import QueueWorker.Proofs.Worker.Deadlock

namespace QueueWorker.Worker

variable {α ρ : Type}

/-- A worker with its only client, the calls that the client has yet to make and the answers that
it has had. -/
structure Session (α ρ : Type) where
  worker : State α ρ
  todo : List (Call α)
  replies : List Reply := []

inductive Move
  | client
  | thread (t : Nat)
  | stir (t : Nat)

namespace Session

def act? (x : Session α ρ) : Option (Act α ρ × List (Call α)) :=
  match x.worker.clients.head? with
  | some (.idle _) =>
      match x.todo with
      | [] => none
      | c :: cs => some (.call 0 c, cs)
  | _ => some (.client 0, x.todo)

def heard (x : Session α ρ) (todo : List (Call α)) (u : State α ρ) : Session α ρ :=
  ⟨u, todo, x.replies ++ (u.lastReply? 0).toList⟩

def next? (h : Host α) (x : Session α ρ) : Move → Option (Session α ρ)
  | .client => x.act?.bind (fun step => (x.worker.next? h step.1).map (x.heard step.2))
  | .thread t => (x.worker.next? h (.thread t)).map (fun u => { x with worker := u })
  | .stir t => (x.worker.next? h (.stir t)).map (fun u => { x with worker := u })

def run? (h : Host α) (x : Session α ρ) : List Move → Option (Session α ρ)
  | [] => some x
  | m :: ms => (x.next? h m).bind (fun y => y.run? h ms)

theorem run?_keeps {h : Host α} {P : Session α ρ → Prop} {x y : Session α ρ} {ms : List Move}
    (keeps : ∀ v w m, v.next? h m = some w → P v → P w) (run : x.run? h ms = some y) (hp : P x) :
    P y := by
  induction ms generalizing x with
  | nil => cases run; exact hp
  | cons m ms ih =>
      obtain ⟨w, hw, run⟩ := Option.bind_eq_some_iff.mp run
      exact ih run (keeps x w m hw hp)

theorem run?_append {h : Host α} {x y z : Session α ρ} {front behind : List Move}
    (hy : x.run? h front = some y) (hz : y.run? h behind = some z) :
    x.run? h (front ++ behind) = some z := by
  induction front generalizing x with
  | nil => cases hy; exact hz
  | cons m ms ih =>
      obtain ⟨w, hw, hy⟩ := Option.bind_eq_some_iff.mp hy
      exact Option.bind_eq_some_iff.mpr ⟨w, hw, ih hy⟩

/-- Every call has been made, and has returned. -/
def IsOver (x : Session α ρ) : Prop := x.todo = [] ∧ x.worker.clients.all Client.isIdle = true

/-- Nobody can tell the two sessions apart. -/
structure Same (x y : Session α ρ) : Prop where
  worker : Worker.Same x.worker y.worker
  todo : y.todo = x.todo
  replies : y.replies = x.replies

theorem Same.symm {x y : Session α ρ} (same : x.Same y) : y.Same x :=
  ⟨same.worker.symm, same.todo.symm, same.replies.symm⟩

theorem Same.trans {x y z : Session α ρ} (same : x.Same y) (same' : y.Same z) : x.Same z :=
  ⟨same.worker.trans same'.worker, same'.todo.trans same.todo,
    same'.replies.trans same.replies⟩

theorem act?_of_desk {x y : Session α ρ} (desk : SameDesk x.worker y.worker)
    (todo : y.todo = x.todo) : y.act? = x.act? := by
  rw [act?, act?, desk.clients, todo]

end Session

/-- A step of a session that somebody can see: whoever polls an empty queue does nothing. -/
inductive Goes (h : Host α) (x : Session α ρ) : Move → Session α ρ → Prop
  | client (act cs u) (chosen : x.act? = some (act, cs)) (step : Step h x.worker act u) :
      Goes h x .client (x.heard cs u)
  | thread (t th u) (thread : x.worker.threads[t]? = some th)
      (busy : th.stage = .polling → x.worker.queue ≠ []) (step : Works h x.worker t th u) :
      Goes h x (.thread t) { x with worker := u }

theorem next_of_goes {h : Host α} {x y : Session α ρ} {m : Move} (goes : Goes h x m y) :
    x.next? h m = some y := by
  cases goes with
  | client act cs u chosen step => simp [Session.next?, chosen, next_of_step step]
  | thread t th u thread busy step =>
      simp [Session.next?, State.next?, thread, work_of_works step]

theorem same_of_doze {s : State α ρ} {t : Nat} {th : Thread α ρ} {stage : Stage α ρ}
    (ht : s.threads[t]? = some th) (hs : stage.rested = th.stage.rested) :
    Same s (s.setStage t stage) := by
  refine ⟨⟨rfl, rfl, rfl, rfl, rfl, rfl, rfl⟩, .of_eq rfl ?_ rfl rfl rfl rfl rfl⟩
  exact State.map_setStage ht Thread.rested (by simp [Thread.rested, hs])

theorem goes_or_dozes {h : Host α} {x : Session α ρ} {t : Nat} {th : Thread α ρ} {u : State α ρ}
    (ht : x.worker.threads[t]? = some th) (hw : x.worker.work? h t th = some u) :
    Goes h x (.thread t) { x with worker := u } ∨
      (th.stage = .polling ∧ u = x.worker.setStage t .sleeping) := by
  by_cases doze : th.stage = .polling ∧ x.worker.queue = []
  · have sleep := work_of_works (Works.sleep (h := h) (t := t) doze.1 doze.2)
    exact .inr ⟨doze.1, Option.some.inj (hw.symm.trans sleep)⟩
  · exact .inl (.thread t th u ht (fun polling empty => doze ⟨polling, empty⟩) (works_of_work hw))

theorem goes_of_next {h : Host α} {x y : Session α ρ} {m : Move} (hx : x.next? h m = some y) :
    Goes h x m y ∨ x.Same y := by
  cases m with
  | client =>
      obtain ⟨⟨act, cs⟩, chosen, hx⟩ := Option.bind_eq_some_iff.mp hx
      obtain ⟨u, hu, rfl⟩ := Option.map_eq_some_iff.mp hx
      exact .inl (.client act cs u chosen (step_of_next hu))
  | thread t =>
      obtain ⟨u, hu, rfl⟩ := Option.map_eq_some_iff.mp hx
      obtain ⟨th, ht, hw⟩ := Option.bind_eq_some_iff.mp hu
      rcases goes_or_dozes ht hw with goes | ⟨polling, rfl⟩
      · exact .inl goes
      · exact .inr ⟨same_of_doze ht (by rw [polling]; rfl), rfl, rfl⟩
  | stir t =>
      obtain ⟨u, hu, rfl⟩ := Option.map_eq_some_iff.mp hx
      cases step_of_next hu with
      | stir t th thread stage =>
          exact .inr ⟨same_of_doze thread (by rw [stage]; rfl), rfl, rfl⟩

/-- A call of a single client that tells nothing of how far the thread has come. -/
def Call.isPlain : Call α → Bool
  | .start | .send _ | .sendAll _ | .sendBroken _ | .stop | .join => true
  | _ => false

/-- Some plain calls, closed by a join or a drop. -/
inductive Closed : List (Call α) → Prop
  | last (c) (final : c = .join ∨ c = .drop) : Closed [c]
  | cons (c cs) (plain : c.isPlain = true) (rest : Closed cs) : Closed (c :: cs)

def Client.IsPlain : Client α ρ → Prop
  | .idle _ => True
  | .calling c => c ≠ .readingLength
  | .registering _ => False

/-- A session that is played by the rules: the callbacks leave their worker alone, and the only
client makes plain calls up to a last one. -/
structure Fair (h : Host α) (x : Session α ρ) : Prop where
  reachable : Reachable h x.worker
  secluded : Secluded x.worker
  client : ∃ cl, x.worker.clients = [cl] ∧ cl.IsPlain
  todo : x.todo = [] ∨ (Closed x.todo ∧ x.worker.owner = .shared)

theorem Fair.act {h : Host α} {x : Session α ρ} {act : Act α ρ} {cs : List (Call α)}
    (fair : Fair h x) (chosen : x.act? = some (act, cs)) :
    (∃ r c, x.worker.clients = [.idle r] ∧ x.todo = c :: cs ∧ act = .call 0 c) ∨
      ∃ c, x.worker.clients = [.calling c] ∧ c ≠ .readingLength ∧ cs = x.todo ∧
        act = .client 0 := by
  obtain ⟨cl, clients, plain⟩ := fair.client
  simp only [Session.act?, clients, List.head?_cons] at chosen
  cases cl with
  | registering f => exact plain.elim
  | idle r =>
      cases todo : x.todo with
      | nil => rw [todo] at chosen; cases chosen
      | cons c cs =>
          rw [todo] at chosen
          cases chosen
          exact .inl ⟨r, c, clients, rfl, rfl⟩
  | calling c =>
      cases chosen
      exact .inr ⟨c, clients, plain, rfl, rfl⟩

theorem plain_advances {h : Host α} {s s' : State α ρ} {me : Agent} {c : Cursor α}
    {p : Progress α} (step : Advances h s me c s' p) : (p.client : Client α ρ).IsPlain := by
  cases step with
  | stopFound q t | stopMissed q | marked q t =>
      cases q <;> simp [Progress.client, Purpose.next, Client.IsPlain]
  | _ => simp [Progress.client, Client.IsPlain]

theorem Closed.plain_first {s : State α ρ} {c : Call α} {cs : List (Call α)} {k : Cursor α}
    (closed : Closed (c :: cs)) (first : c.begin s = .at k) : k ≠ .readingLength := by
  have notLength : c ≠ .length := by
    rintro rfl
    cases closed with
    | last c final => rcases final with h | h <;> cases h
    | cons c cs plain => cases plain
  cases c <;> cases first <;> simp_all

theorem fair_begin {h : Host α} {x : Session α ρ} {r : Option Reply} {c : Call α}
    {cs : List (Call α)} {u : State α ρ} (fair : Fair h x) (clients : x.worker.clients = [.idle r])
    (todo : x.todo = c :: cs) (step : Step h x.worker (.call 0 c) u) : Fair h (x.heard cs u) := by
  obtain ⟨closed, shared⟩ := fair.todo.resolve_left (by rw [todo]; exact List.cons_ne_nil _ _)
  rw [todo] at closed
  have modest : (Act.call 0 c : Act α ρ).Modest := trivial
  have reachable := fair.reachable.next modest (next_of_step step)
  have todo' (owner : c ≠ .drop → u.owner = .shared) :
      cs = [] ∨ (Closed cs ∧ u.owner = .shared) := by
    cases closed with
    | last c final => exact .inl rfl
    | cons c cs plain rest =>
        exact .inr ⟨rest, owner (by rintro rfl; cases plain)⟩
  cases step with
  | call i c k free other first =>
      exact ⟨reachable, fair.secluded.congr rfl rfl,
        ⟨.calling k, by simp [Session.heard, State.setClient, clients], closed.plain_first first⟩,
        todo' (fun _ => shared)⟩
  | answer i c r' free other first =>
      exact ⟨reachable, fair.secluded.congr rfl rfl,
        ⟨.idle (some r'), by simp [Session.heard, State.setClient, clients], trivial⟩,
        todo' (fun _ => shared)⟩
  | drop i free quiet =>
      exact ⟨reachable, fair.secluded.congr rfl rfl,
        ⟨.calling (.stopping .drop), by simp [Session.heard, State.setClient, clients],
          by simp [Client.IsPlain]⟩, todo' (fun other => absurd rfl other)⟩

theorem fair_go {h : Host α} {x : Session α ρ} {c : Cursor α} {u : State α ρ} (fair : Fair h x)
    (clients : x.worker.clients = [.calling c]) (step : Step h x.worker (.client 0) u) :
    Fair h (x.heard x.todo u) := by
  have reachable :=
    fair.reachable.next (show Act.Modest (.client 0) from trivial) (next_of_step step)
  cases step with
  | place i f client => simp [clients] at client
  | client i c s' p client step =>
      refine ⟨reachable, (fair.secluded.advances step).congr rfl rfl, ⟨p.client, ?_,
        plain_advances step⟩, fair.todo.imp_right fun todo => ⟨todo.1, ?_⟩⟩
      · simp [Session.heard, State.setClient, clients_advances step, clients]
      · have owner := fair.reachable.locked.owner (.client 0) c (State.cursor?_of_client client)
        rcases owner_advances step with ⟨same, -⟩ | ⟨-, dropping, -⟩
        · exact same.trans todo.2
        · rw [dropping, todo.2] at owner
          cases owner

theorem fair_thread {h : Host α} {x : Session α ρ} {u : State α ρ} (fair : Fair h x)
    (reachable : Reachable h u) (secluded : Secluded u) (desk : SameDesk x.worker u) :
    Fair h { x with worker := u } := by
  refine ⟨reachable, secluded, ?_, ?_⟩
  · rw [desk.clients]; exact fair.client
  · rw [desk.owner]; exact fair.todo

theorem fair_next {h : Host α} {x y : Session α ρ} {m : Move} (fair : Fair h x)
    (hx : x.next? h m = some y) : Fair h y := by
  cases m with
  | client =>
      obtain ⟨⟨act, cs⟩, chosen, hx⟩ := Option.bind_eq_some_iff.mp hx
      obtain ⟨u, hu, rfl⟩ := Option.map_eq_some_iff.mp hx
      rcases fair.act chosen with ⟨r, c, clients, todo, rfl⟩ | ⟨c, clients, -, rfl, rfl⟩
      · exact fair_begin fair clients todo (step_of_next hu)
      · exact fair_go fair clients (step_of_next hu)
  | thread t =>
      obtain ⟨u, hu, rfl⟩ := Option.map_eq_some_iff.mp hx
      have reachable := fair.reachable.next (show Act.Modest (.thread t) from trivial) hu
      obtain ⟨th, ht, hw⟩ := Option.bind_eq_some_iff.mp hu
      exact fair_thread fair reachable (fair.secluded.works ht (works_of_work hw))
        (desk_of_works (fair.secluded.threads t th ht) (works_of_work hw))
  | stir t =>
      obtain ⟨u, hu, rfl⟩ := Option.map_eq_some_iff.mp hx
      have reachable := fair.reachable.next (show Act.Modest (.stir t) from trivial) hu
      cases step_of_next hu with
      | stir t th thread stage =>
          exact fair_thread fair reachable (fair.secluded.setStage rfl rfl trivial)
            ⟨rfl, rfl, rfl, rfl, rfl, rfl, rfl⟩

theorem fair_goes {h : Host α} {x y : Session α ρ} {m : Move} (fair : Fair h x)
    (goes : Goes h x m y) : Fair h y :=
  fair_next fair (next_of_goes goes)

theorem goes_unique {h : Host α} {x y z : Session α ρ} {m : Move} (hy : Goes h x m y)
    (hz : Goes h x m z) : y = z :=
  Option.some.inj ((next_of_goes hy).symm.trans (next_of_goes hz))

theorem SameDesk.lastReply? {s u : State α ρ} (desk : SameDesk s u) (i : Nat) :
    u.lastReply? i = s.lastReply? i := by
  rw [State.lastReply?, State.lastReply?, desk.clients]

theorem not_sweeping {h : Host α} {s : State α ρ} {t i : Nat} {c : Cursor α} (hr : Reachable h s)
    (hi : s.clients[i]? = some (.calling c)) (alive : s.IsAlive t) : c ≠ .sweeping := by
  rintro rfl
  have fits : s.Fits .vacant := hr.fits (State.cursor?_of_client hi) rfl
  cases State.Staffed.isAlive fits.2 alive

theorem client_commutes {h : Host α} {x : Session α ρ} {t : Nat} {th : Thread α ρ} {act : Act α ρ}
    {cs : List (Call α)} {u s₁ : State α ρ} (fair : Fair h x) (chosen : x.act? = some (act, cs))
    (step : Step h x.worker act u) (ht : x.worker.threads[t]? = some th)
    (works : Works h x.worker t th s₁) (secluded : Secluded s₁) :
    ∃ ms new n u₁, Step h s₁ act u₁ ∧ SameDesk u u₁ ∧ Extends ms new n x.worker u ∧
      Extends ms new n s₁ u₁ := by
  have aloof := fair.secluded.threads t th ht
  have desk := desk_of_works aloof works
  rcases fair.act chosen with ⟨r, c, clients, todo, rfl⟩ | ⟨c, clients, notLength, rfl, rfl⟩
  · obtain ⟨u₁, step₁, desk₁, he, he₁⟩ := call_of_desk desk fair.secluded secluded step
    exact ⟨_, _, _, u₁, step₁, desk₁, he, he₁⟩
  · have hi : x.worker.clients[0]? = some (.calling c) := by rw [clients]; rfl
    obtain ⟨u₁, step₁, desk₁, he, he₁⟩ := client_of_desk desk (length_works works aloof.silent)
      (fun _ _ => end?_step (.thread t th s₁ ht works)) hi
      (not_sweeping fair.reachable hi (works.isAlive ht)) notLength step
    exact ⟨_, _, _, u₁, step₁, desk₁, he, he₁⟩

theorem goes_commute {h : Host α} {x y z : Session α ρ} {t : Nat} (fair : Fair h x)
    (hy : Goes h x .client y) (hz : Goes h x (.thread t) z) :
    ∃ w w', Goes h y (.thread t) w ∧ Goes h z .client w' ∧ w.Same w' := by
  have fairY := fair_goes fair hy
  have fairZ := fair_goes fair hz
  cases hy with
  | client act cs u chosen step =>
      cases hz with
      | thread t th s₁ ht busy works =>
          have aloof := fair.secluded.threads t th ht
          have desk := desk_of_works aloof works
          obtain ⟨ms, new, n, u₁, step₁, desk₁, he, he₁⟩ :=
            client_commutes fair chosen step ht works fairZ.secluded
          have hu := he.thread fairY.reachable.watchful ht works.awake busy
          obtain ⟨u', works', he'⟩ := works_extends he ht hu aloof busy works
          have busy' : th.stage = .polling → u.queue ≠ [] := by
            intro polling empty
            rw [he.queue, List.append_eq_nil_iff] at empty
            exact busy polling empty.1
          have act : Session.act? { x with worker := s₁ } = x.act? :=
            Session.act?_of_desk desk rfl
          refine ⟨_, _, .thread t th u' hu busy' works', .client _ cs u₁ (act.trans chosen) step₁,
            ⟨(desk_of_works aloof works').symm.trans desk₁, (Extends.refl s₁).congr he' he₁⟩,
            rfl, ?_⟩
          simp only [Session.heard, desk₁.lastReply?]

theorem goes_of_same {h : Host α} {x x' y : Session α ρ} {m : Move} (fair : Fair h x)
    (fair' : Fair h x') (same : x.Same x') (goes : Goes h x m y) :
    ∃ y', Goes h x' m y' ∧ y.Same y' := by
  have desk := same.worker.desk
  cases goes with
  | client act cs u chosen step =>
      obtain ⟨u₁, step₁, same₁⟩ : ∃ u₁, Step h x'.worker act u₁ ∧ Same u u₁ := by
        rcases fair.act chosen with ⟨r, c, clients, todo, rfl⟩ | ⟨c, clients, notLength, rfl, rfl⟩
        · obtain ⟨u₁, step₁, desk₁, he, he₁⟩ := call_of_desk desk fair.secluded fair'.secluded step
          exact ⟨u₁, step₁, desk₁, same.worker.work.congr he he₁⟩
        · have hi : x.worker.clients[0]? = some (.calling c) := by rw [clients]; rfl
          by_cases sweeping : c = .sweeping
          · subst sweeping
            exact sweep_of_same same.worker hi step
          · obtain ⟨u₁, step₁, desk₁, he, he₁⟩ := client_of_desk desk same.worker.work.length
              (fun t e ended => (same.worker.work.end? t).trans ended) hi sweeping notLength step
            exact ⟨u₁, step₁, desk₁, same.worker.work.congr he he₁⟩
      refine ⟨_, .client act cs u₁ ((Session.act?_of_desk desk same.todo).trans chosen) step₁,
        same₁, rfl, ?_⟩
      simp only [Session.heard, same₁.desk.lastReply?, same.replies]
  | thread t th u ht busy works =>
      have aloof := fair.secluded.threads t th ht
      have ht' := same.worker.work.thread fair'.reachable.watchful ht works.awake busy
      obtain ⟨u', works', he'⟩ := works_extends same.worker.work ht ht' aloof busy works
      have busy' : th.stage = .polling → x'.worker.queue ≠ [] := by
        rw [same.worker.work.queue, List.append_nil]
        exact busy
      refine ⟨_, .thread t th u' ht' busy' works', ⟨?_, he'⟩, same.todo, same.replies⟩
      exact ((desk_of_works aloof works).symm.trans desk).trans (desk_of_works aloof works')

/-- Two different moves can be made in either order. -/
theorem goes_diamond {h : Host α} {x y z : Session α ρ} {m m' : Move} (fair : Fair h x)
    (hy : Goes h x m y) (hz : Goes h x m' z) (ne : m ≠ m') :
    ∃ w w', Goes h y m' w ∧ Goes h z m w' ∧ w.Same w' := by
  cases m with
  | stir t => cases hy
  | client =>
      cases m' with
      | client => exact absurd rfl ne
      | thread t => exact goes_commute fair hy hz
      | stir t => cases hz
  | thread t =>
      cases m' with
      | client =>
          obtain ⟨w, w', hw, hw', same⟩ := goes_commute fair hz hy
          exact ⟨w', w, hw', hw, same.symm⟩
      | thread v =>
          -- there is only one thread that could move
          cases hy with
          | thread t th u ht busy works =>
              cases hz with
              | thread v tv u' hv busy' works' =>
                  have := fair.reachable.alone (works.isAlive ht) (works'.isAlive hv)
                  exact absurd (congrArg Move.thread this) ne
      | stir t => cases hz

/-- After so many more moves there is nothing left to do, and nobody can tell the session from the
given one. -/
inductive Ends (h : Host α) (z : Session α ρ) : Nat → Session α ρ → Prop
  | still (x) (same : x.Same z) (still : ∀ m y, ¬ Goes h x m y) : Ends h z 0 x
  | move (n x m y) (goes : Goes h x m y) (ends : Ends h z n y) : Ends h z (n + 1) x

theorem Ends.congr {h : Host α} {x x' z : Session α ρ} {n : Nat} (ends : Ends h z n x)
    (fair : Fair h x) (fair' : Fair h x') (same : x.Same x') : Ends h z n x' := by
  induction ends generalizing x' with
  | still x same' still =>
      refine .still x' (same.symm.trans same') fun m y goes => ?_
      obtain ⟨y', goes', -⟩ := goes_of_same fair' fair same.symm goes
      exact still m y' goes'
  | move n x m y goes ends ih =>
      obtain ⟨y', goes', same'⟩ := goes_of_same fair fair' same goes
      exact .move n x' m y' goes' (ih (fair_goes fair goes) (fair_goes fair' goes') same')

theorem Ends.goes {h : Host α} {x y z : Session α ρ} {m : Move} {n : Nat} (ends : Ends h z n x)
    (fair : Fair h x) (goes : Goes h x m y) : ∃ k, n = k + 1 ∧ Ends h z k y := by
  induction ends generalizing m y with
  | still x same still => exact absurd goes (still m y)
  | move n x m' y' goes' ends ih =>
      refine ⟨n, rfl, ?_⟩
      by_cases first : m = m'
      · subst first
        rwa [goes_unique goes goes']
      · obtain ⟨w, w', hw, hw', same⟩ := goes_diamond fair goes goes' first
        have fairY := fair_goes fair goes
        have fairY' := fair_goes fair goes'
        obtain ⟨k, rfl, ends'⟩ := ih fairY' hw'
        exact .move k y m' w hw
          (ends'.congr (fair_goes fairY' hw') (fair_goes fairY hw) same.symm)

theorem Ends.next {h : Host α} {x y z : Session α ρ} {m : Move} {n : Nat} (ends : Ends h z n x)
    (fair : Fair h x) (hx : x.next? h m = some y) : ∃ k, k ≤ n ∧ Ends h z k y := by
  rcases goes_of_next hx with goes | same
  · obtain ⟨k, rfl, ends'⟩ := ends.goes fair goes
    exact ⟨k, Nat.le_succ k, ends'⟩
  · exact ⟨n, Nat.le_refl n, ends.congr fair (fair_next fair hx) same⟩

theorem Ends.run {h : Host α} {x y z : Session α ρ} {ms : List Move} {n : Nat}
    (ends : Ends h z n x) (fair : Fair h x) (run : x.run? h ms = some y) :
    Fair h y ∧ ∃ k, k ≤ n ∧ Ends h z k y := by
  refine Session.run?_keeps (P := fun v => Fair h v ∧ ∃ k, k ≤ n ∧ Ends h z k v) ?_ run
    ⟨fair, n, Nat.le_refl n, ends⟩
  rintro v w m hw ⟨fairV, k, le, endsV⟩
  obtain ⟨l, le', endsW⟩ := endsV.next fairV hw
  exact ⟨fair_next fairV hw, l, Nat.le_trans le' le, endsW⟩

theorem Ends.reach {h : Host α} {x z : Session α ρ} {n : Nat} (ends : Ends h z n x) :
    ∃ ms y, x.run? h ms = some y ∧ ∀ m w, ¬ Goes h y m w := by
  induction ends with
  | still x same still => exact ⟨[], x, rfl, still⟩
  | move n x m y goes ends ih =>
      obtain ⟨ms, w, run, still⟩ := ih
      exact ⟨m :: ms, w, Option.bind_eq_some_iff.mpr ⟨y, next_of_goes goes, run⟩, still⟩

theorem Ends.same_of_still {h : Host α} {x z : Session α ρ} {n : Nat} (ends : Ends h z n x)
    (still : ∀ m y, ¬ Goes h x m y) : x.Same z := by
  cases ends with
  | still x same still => exact same
  | move n x m y goes ends => exact absurd goes (still m y)

end QueueWorker.Worker
