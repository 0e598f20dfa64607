import QueueWorker.Proofs.Worker.Drain
import QueueWorker.Proofs.Worker.Effort

namespace QueueWorker.Worker

variable {α ρ : Type}

def Client.Closes (s : State α ρ) : Client α ρ → Prop
  | .calling c => c.Joins (fun _ => True) s.phase ∨ c.isDropping = true
  | .idle _ => s.phase = .idle ∨ s.owner = .gone
  | .registering _ => False

def Closing (x : Session α ρ) : Prop :=
  x.todo = [] → ∃ cl, x.worker.clients = [cl] ∧ cl.Closes x.worker

theorem closes_of_desk {s u : State α ρ} {cl : Client α ρ} (desk : SameDesk s u)
    (closes : cl.Closes s) : cl.Closes u := by
  cases cl with
  | calling c => rw [Client.Closes, desk.phase]; exact closes
  | idle r => rw [Client.Closes, desk.phase, desk.owner]; exact closes
  | registering f => exact closes

theorem closes_begin {h : Host α} {s u : State α ρ} {r : Option Reply} {c : Call α}
    (clients : s.clients = [.idle r]) (final : c = .join ∨ c = .drop)
    (step : Step h s (.call 0 c) u) : ∃ cl, u.clients = [cl] ∧ cl.Closes u := by
  cases step with
  | call i c k free other first =>
      obtain rfl := final.resolve_right other
      cases first
      exact ⟨.calling .enteringJoin, by simp [State.setClient, clients], Or.inl trivial⟩
  | answer i c r' free other first =>
      obtain rfl := final.resolve_right other
      cases first
  | drop i free quiet =>
      exact ⟨.calling (.stopping .drop), by simp [State.setClient, clients], Or.inr rfl⟩

theorem closes_go {h : Host α} {s u : State α ρ} {c : Cursor α} (hr : Reachable h s)
    (clients : s.clients = [.calling c]) (closes : (Client.calling c : Client α ρ).Closes s)
    (step : Step h s (.client 0) u) : ∃ cl, u.clients = [cl] ∧ cl.Closes u := by
  cases step with
  | place i f client => simp [clients] at client
  | client i c' s' p client step =>
      obtain rfl : c' = c := by simpa [clients] using client.symm
      refine ⟨p.client, by simp [State.setClient, clients_advances step, clients], ?_⟩
      have cursor : s.cursor? (.client 0) = some c' := State.cursor?_of_client client
      rcases closes with joins | dropping
      · rcases joins_advances step joins (hr.aware _ _ cursor) (fun q hq => hr.fits cursor hq)
          trivial (fun _ _ _ => trivial) with ⟨k, rfl, hk⟩ | ⟨r, rfl, -, -, -, idle⟩
        · exact .inl hk
        · exact .inl idle
      · rcases drops_advances step dropping with ⟨k, rfl, hk⟩ | ⟨rfl, gone⟩
        · exact .inr hk
        · exact .inr gone

theorem closing_next {h : Host α} {x y : Session α ρ} {m : Move} (fair : Fair h x)
    (closing : Closing x) (hx : x.next? h m = some y) : Closing y := by
  intro none
  cases m with
  | client =>
      obtain ⟨⟨act, cs⟩, chosen, hx⟩ := Option.bind_eq_some_iff.mp hx
      obtain ⟨u, hu, rfl⟩ := Option.map_eq_some_iff.mp hx
      rcases fair.act chosen with ⟨r, c, clients, todo, rfl⟩ | ⟨c, clients, -, rfl, rfl⟩
      · obtain ⟨closed, -⟩ := fair.todo.resolve_left (by rw [todo]; exact List.cons_ne_nil _ _)
        rw [todo, show cs = [] from none] at closed
        cases closed with
        | last c final => exact closes_begin clients final (step_of_next hu)
        | cons c cs plain rest => cases rest
      · obtain ⟨cl, clients', closes⟩ := closing none
        obtain rfl : cl = .calling c := by simpa [clients] using clients'.symm
        exact closes_go fair.reachable clients closes (step_of_next hu)
  | thread t =>
      obtain ⟨u, hu, rfl⟩ := Option.map_eq_some_iff.mp hx
      obtain ⟨th, ht, hw⟩ := Option.bind_eq_some_iff.mp hu
      have desk := desk_of_works (fair.secluded.threads t th ht) (works_of_work hw)
      obtain ⟨cl, clients, closes⟩ := closing none
      exact ⟨cl, desk.clients.trans clients, closes_of_desk desk closes⟩
  | stir t =>
      obtain ⟨u, hu, rfl⟩ := Option.map_eq_some_iff.mp hx
      cases step_of_next hu with
      | stir t th thread stage => exact closing none

theorem closing_run {h : Host α} {x z : Session α ρ} {ms : List Move} (fair : Fair h x)
    (closing : Closing x) (run : x.run? h ms = some z) : Closing z := by
  refine (Session.run?_keeps (P := fun v => Fair h v ∧ Closing v) ?_ run ⟨fair, closing⟩).2
  rintro v w m hw ⟨fairV, closingV⟩
  exact ⟨fair_next fairV hw, closing_next fairV closingV hw⟩

theorem still_of_isOver {h : Host α} {x : Session α ρ} (fair : Fair h x) (closing : Closing x)
    (isOver : x.IsOver) (m : Move) (y : Session α ρ) : ¬ Goes h x m y := by
  intro goes
  obtain ⟨cl, clients, closes⟩ := closing isOver.1
  obtain ⟨r, rfl⟩ : ∃ r, cl = .idle r := by
    have idle : cl.isIdle = true := by simpa [clients] using isOver.2
    cases cl with
    | idle r => exact ⟨r, rfl⟩
    | calling | registering => cases idle
  cases goes with
  | client act cs u chosen step => simp [Session.act?, clients, isOver.1] at chosen
  | thread t th u ht busy works =>
      have alive := works.isAlive ht
      by_cases gone : x.worker.owner = .gone
      · obtain ⟨g, hg, he⟩ := State.isAlive_iff.mp alive
        rw [(fair.reachable.deserted gone).ended t g hg] at he
        cases he
      · have quiet := State.cursor?_of_isQuiet (fair.secluded.isQuiet_eq.trans isOver.2)
        have fits := (fair.reachable.posed gone).free
          (fun a => by rw [State.pose?, quiet a]; rfl)
        cases State.Staffed.isAlive (State.fits_idle fits (closes.resolve_right gone)) alive

theorem call_of_idle {h : Host α} {x : Session α ρ} {r : Option Reply} {c : Call α}
    {cs : List (Call α)} (fair : Fair h x) (clients : x.worker.clients = [.idle r])
    (todo : x.todo = c :: cs) : ∃ u, Step h x.worker (.call 0 c) u := by
  obtain ⟨-, shared⟩ := fair.todo.resolve_left (by rw [todo]; exact List.cons_ne_nil _ _)
  have free : x.worker.isFree 0 := by simp [State.isFree, shared, clients, Client.isIdle]
  by_cases drop : c = .drop
  · subst drop
    have quiet : x.worker.isQuiet := by
      simp [fair.secluded.isQuiet_eq, clients, Client.isIdle]
    exact ⟨_, .drop 0 free quiet⟩
  · cases first : c.begin x.worker with
    | «at» k => exact ⟨_, .call 0 c k free drop first⟩
    | answer r => exact ⟨_, .answer 0 c r free drop first⟩
    | unwind p => exact absurd first (begin_ne_unwind _ _ _)

def State.polls (s : State α ρ) : Bool := s.threads.any (fun th => th.stage matches .polling)

def Session.Heard (old : List Reply) (x : Session α ρ) : Prop :=
  x.replies = old ++ (x.worker.lastReply? 0).toList

inductive Subsides (h : Host α) (x : Session α ρ) (m : Move) (y : Session α ρ) : Prop
  | goes (goes : Goes h x m y)
  | dozes (same : x.Same y) (before : x.worker.polls = true) (behind : y.worker.polls = false)

theorem subsides_of_polling {h : Host α} {x : Session α ρ} {t : Nat} {th : Thread α ρ}
    (fair : Fair h x) (ht : x.worker.threads[t]? = some th) (stage : th.stage = .polling) :
    Subsides h x (.thread t) { x with worker := x.worker.setStage t .sleeping } := by
  refine .dozes ⟨same_of_doze ht (by rw [stage]; rfl), rfl, rfl⟩ ?_ ?_
  · exact List.any_eq_true.mpr ⟨th, List.mem_of_getElem? ht, by rw [stage]⟩
  · rw [State.polls, List.any_eq_false]
    intro tv hm polling
    obtain ⟨v, hv⟩ := List.mem_iff_getElem?.mp hm
    simp only [State.setStage, List.getElem?_modify] at hv
    obtain ⟨tv', hv', rfl⟩ := Option.map_eq_some_iff.mp hv
    by_cases same : t = v
    · simp [same] at polling
    · have alive : tv'.stage.end? = none := by
        cases hst : tv'.stage <;> simp_all [Stage.end?]
      exact same (fair.reachable.alone ⟨th, ht, by rw [stage]; rfl⟩ ⟨tv', hv', alive⟩)

theorem subsides_of_moves {h : Host α} {x : Session α ρ} {act : Act α ρ} {u : State α ρ}
    (fair : Fair h x) (mem : act ∈ x.worker.moves) (hu : x.worker.next? h act = some u) :
    ∃ m y, x.next? h m = some y ∧ Subsides h x m y ∧ y.worker = u ∧ y.todo = x.todo ∧
      ∀ old, x.Heard old → y.Heard old := by
  obtain ⟨cl, clients, plain⟩ := fair.client
  simp only [State.moves, List.mem_append, List.mem_map, List.mem_range, clients,
    List.length_singleton] at mem
  rcases mem with ⟨i, hi, rfl⟩ | ⟨t, -, rfl⟩
  · obtain rfl : i = 0 := by omega
    cases step_of_next hu with
    | place i f client =>
        obtain rfl : cl = .registering f := by simpa [clients] using client
        exact plain.elim
    | client i c s' p client step =>
        have chosen : x.act? = some (.client 0, x.todo) := by
          obtain rfl : cl = .calling c := by simpa [clients] using client
          simp [Session.act?, clients]
        have goes : Goes h x .client _ := .client _ _ _ chosen (step_of_next hu)
        have silent : x.worker.lastReply? 0 = none := by simp [State.lastReply?, client]
        refine ⟨.client, _, next_of_goes goes, .goes goes, rfl, rfl, fun old heard => ?_⟩
        rw [Session.Heard, Session.heard, heard, silent, Option.toList_none, List.append_nil]
  · obtain ⟨th, ht, hw⟩ := Option.bind_eq_some_iff.mp hu
    have desk := desk_of_works (fair.secluded.threads t th ht) (works_of_work hw)
    have next : x.next? h (.thread t) = some { x with worker := u } := by
      rw [Session.next?, hu, Option.map_some]
    refine ⟨.thread t, _, next, ?_, rfl, rfl, fun old heard => ?_⟩
    · rcases goes_or_dozes ht hw with goes | ⟨polling, rfl⟩
      · exact .goes goes
      · exact subsides_of_polling fair ht polling
    · rw [Session.Heard, desk.lastReply?]
      exact heard

theorem settle_run {h : Host α} {x z : Session α ρ} {n fuel : Nat} (fair : Fair h x)
    (ends : Ends h z n x) (enough : 2 * n + x.worker.polls.toNat < fuel) :
    ∃ ms y, x.run? h ms = some y ∧ y.worker = x.worker.settle h fuel ∧ y.todo = x.todo ∧
      (∀ old, x.Heard old → y.Heard old) ∧ ¬ y.worker.Moves h := by
  -- before each move that lies ahead a thread may go to sleep, but only once
  induction fuel generalizing x n with
  | zero => omega
  | succ fuel ih =>
      rw [State.settle]
      cases hu : x.worker.moves.findSome? (x.worker.next? h) with
      | none =>
          refine ⟨[], x, rfl, rfl, rfl, fun _ heard => heard, ?_⟩
          rintro ⟨a, u, ha⟩
          have stuck := List.findSome?_eq_none_iff.mp hu a.act (State.mem_moves ⟨u, ha⟩)
          rw [stuck] at ha
          cases ha
      | some u =>
          obtain ⟨act, mem, hu⟩ := List.exists_of_findSome?_eq_some hu
          obtain ⟨m, y, hy, subsides, rfl, todo, heard⟩ := subsides_of_moves fair mem hu
          have fairY := fair_next fair hy
          obtain ⟨k, endsY, fewer⟩ :
              ∃ k, Ends h z k y ∧ 2 * k + y.worker.polls.toNat < fuel := by
            cases subsides with
            | goes goes =>
                obtain ⟨k, rfl, endsY⟩ := ends.goes fair goes
                have := Bool.toNat_le y.worker.polls
                exact ⟨k, endsY, by omega⟩
            | dozes same before behind =>
                refine ⟨n, ends.congr fair fairY same, ?_⟩
                simp only [before, behind, Bool.toNat_true, Bool.toNat_false] at enough ⊢
                omega
          obtain ⟨ms, w, run, worker, todo', heard', still⟩ := ih fairY endsY fewer
          exact ⟨m :: ms, w, Option.bind_eq_some_iff.mpr ⟨y, hy, run⟩, worker, todo'.trans todo,
            fun old heardX => heard' old (heard old heardX), still⟩

theorem Secluded.unheld {s : State α ρ} (hs : Secluded s) :
    ∀ th ∈ s.threads, th.stage.isHeld = false := by
  intro th hm
  obtain ⟨t, ht⟩ := List.mem_iff_getElem?.mp hm
  have aloof := hs.threads t th ht
  cases hst : th.stage with
  | running a replies script =>
      rw [hst] at aloof
      cases script <;> first | rfl | exact aloof.elim
  | _ => rfl

theorem idle_of_still {h : Host α} {x : Session α ρ} (fair : Fair h x)
    (still : ¬ x.worker.Moves h) : ∃ r, x.worker.clients = [.idle r] := by
  obtain ⟨cl, clients, -⟩ := fair.client
  have idle : cl.isIdle = true := by
    by_contra busy
    exact still (moves_of_isBusy fair.reachable fair.secluded.unheld
      (.inl ⟨cl, by simp [clients], Bool.eq_false_iff.mpr busy⟩))
  cases cl with
  | idle r => exact ⟨r, clients⟩
  | calling | registering => cases idle

/-- One call after the other: the client makes it, and everybody goes on for as long as anybody
can. -/
def Session.playOut (h : Host α) (fuel : Nat) : List (Call α) → Session α ρ → Session α ρ
  | [], x => x
  | c :: cs, x => playOut h fuel cs (x.heard cs ((x.worker.perform h (.call 0 c)).settle h fuel))

theorem Session.eq_heard {x y : Session α ρ} {u : State α ρ} {cs : List (Call α)}
    (heard : y.Heard x.replies) (worker : y.worker = u) (todo : y.todo = cs) :
    y = x.heard cs u := by
  obtain ⟨s, todo', replies⟩ := y
  subst worker todo
  exact congrArg _ heard

theorem playOut_run {h : Host α} {x z : Session α ρ} {r : Option Reply} {n fuel : Nat}
    {cs : List (Call α)} (fair : Fair h x) (clients : x.worker.clients = [.idle r])
    (todo : x.todo = cs) (ends : Ends h z n x) (enough : 2 * n + 1 < fuel) :
    (∃ ms, x.run? h ms = some (x.playOut h fuel cs)) ∧ (x.playOut h fuel cs).IsOver := by
  induction cs generalizing x r n with
  | nil => exact ⟨⟨[], rfl⟩, todo, by simp [Session.playOut, clients, Client.isIdle]⟩
  | cons c cs ih =>
      obtain ⟨u, step⟩ := call_of_idle fair clients todo
      have performed : x.worker.perform h (.call 0 c) = u := by
        rw [State.perform, next_of_step step, Option.getD_some]
      have chosen : x.act? = some (.call 0 c, cs) := by simp [Session.act?, clients, todo]
      have goes : Goes h x .client (x.heard cs u) := .client _ cs u chosen step
      have fairY := fair_goes fair goes
      obtain ⟨k, rfl, endsY⟩ := ends.goes fair goes
      have fewer : 2 * k + u.polls.toNat < fuel := by
        have := Bool.toNat_le u.polls
        omega
      obtain ⟨ms, w, run, worker, todoW, heard, still⟩ := settle_run fairY endsY fewer
      have settled : w = x.heard cs (u.settle h fuel) :=
        Session.eq_heard (heard x.replies rfl) worker todoW
      obtain ⟨fairW, l, le, endsW⟩ := endsY.run fairY run
      obtain ⟨r', clients'⟩ := idle_of_still fairW still
      obtain ⟨⟨ms', run'⟩, isOver⟩ := ih fairW clients' todoW endsW (by omega)
      rw [Session.playOut, performed, ← settled]
      have first : x.run? h (.client :: ms) = some w :=
        Option.bind_eq_some_iff.mpr ⟨_, next_of_goes goes, run⟩
      exact ⟨⟨.client :: ms ++ ms', Session.run?_append first run'⟩, isOver⟩

theorem isOver_of_still {h : Host α} {x : Session α ρ} (fair : Fair h x)
    (still : ∀ m y, ¬ Goes h x m y) : x.IsOver := by
  -- a thread may still go to sleep, and behind that nobody can move
  have ends : Ends h x 0 x := .still x ⟨.refl _, rfl, rfl⟩ still
  have enough : 2 * 0 + x.worker.polls.toNat < 2 := by
    have := Bool.toNat_le x.worker.polls
    omega
  obtain ⟨ms, y, run, -, -, -, quiet⟩ := settle_run fair ends enough
  obtain ⟨fairY, k, le, endsY⟩ := ends.run fair run
  obtain rfl : k = 0 := Nat.le_zero.mp le
  obtain ⟨r, clients⟩ : ∃ r, x.worker.clients = [.idle r] := by
    cases endsY with
    | still y same => exact same.worker.desk.clients ▸ idle_of_still fairY quiet
  cases todo : x.todo with
  | nil => exact ⟨todo, by simp [clients, Client.isIdle]⟩
  | cons c cs =>
      obtain ⟨u, step⟩ := call_of_idle fair clients todo
      have chosen : x.act? = some (.call 0 c, cs) := by simp [Session.act?, clients, todo]
      exact absurd (.client _ cs u chosen step) (still _ _)

/-- What can be told of a session that is over: the client's answers, what has come of the items,
and what the worker shows. -/
structure Upshot (α : Type) where
  replies : List Reply
  outcomes : List (α × Outcome)
  processed : UInt64
  panicked : UInt64
  skipped : UInt64
  spawned : UInt64
  status : Status
  queue : List (Message α)
  deriving DecidableEq

namespace Session

def upshot (x : Session α ρ) : Upshot α where
  replies := x.replies
  outcomes := x.worker.outcomes
  processed := x.worker.stats.processed
  panicked := x.worker.stats.panicked
  skipped := x.worker.stats.skipped
  spawned := x.worker.stats.spawned
  status := x.worker.phase.status
  queue := x.worker.queue

theorem Same.upshot {x y : Session α ρ} (same : x.Same y) : y.upshot = x.upshot := by
  have queue : y.worker.queue = x.worker.queue := by simpa using same.worker.work.queue
  simp only [Session.upshot, same.replies, same.worker.work.outcomes, same.worker.work.stats_eq,
    same.worker.desk.phase, queue]

def create (settings : Settings) (callback : Option (Callback α ρ)) (calls : List (Call α)) :
    Session α ρ :=
  ⟨.create settings callback 1, calls, []⟩

end Session

theorem Closed.of_plain {calls : List (Call α)} {last : Call α}
    (plain : ∀ c ∈ calls, c.isPlain = true) (final : last = .join ∨ last = .drop) :
    Closed (calls ++ [last]) := by
  induction calls with
  | nil => exact .last last final
  | cons c cs ih =>
      exact .cons c _ (plain c List.mem_cons_self)
        (ih fun c' hc' => plain c' (List.mem_cons_of_mem c hc'))

theorem fair_create {h : Host α} {settings : Settings} {callback : Option (Callback α ρ)}
    {calls : List (Call α)} (aloof : ∀ f, callback = some f → Callback.Aloof f)
    (closed : Closed calls) :
    Fair h (Session.create settings callback calls) where
  reachable := .create settings callback 1 fun f hf => Callback.modest_of_aloof (aloof f hf)
  secluded := secluded_create settings callback 1 aloof
  client := ⟨.idle none, rfl, trivial⟩
  todo := .inr ⟨closed, rfl⟩

/-- A client that has a worker for itself makes some calls, and then joins it or drops it. It does
not matter when the client and the threads move: every schedule can be carried on to its end, and
there the client has had the same answers, the same has come of the same items in the same order,
and the worker shows the same, as when everybody goes on behind every call for as long as anybody
can, which is one of the schedules. -/
theorem scheduling_independence (h : Host α) (settings : Settings)
    (callback : Option (Callback α ρ)) (calls : List (Call α)) (last : Call α)
    (aloof : ∀ f, callback = some f → Callback.Aloof f) (plain : ∀ c ∈ calls, c.isPlain = true)
    (final : last = .join ∨ last = .drop) :
    let x := Session.create settings callback (calls ++ [last])
    ∃ n, ∀ fuel, n ≤ fuel →
      ((∃ ms, x.run? h ms = some (x.playOut h fuel x.todo)) ∧ (x.playOut h fuel x.todo).IsOver) ∧
        ∀ ms y, x.run? h ms = some y →
          (∃ ms' z, y.run? h ms' = some z ∧ z.IsOver) ∧
            (y.IsOver → y.upshot = (x.playOut h fuel x.todo).upshot) := by
  intro x
  have closed := Closed.of_plain plain final
  have fair : Fair h x := fair_create aloof closed
  have closing : Closing x := fun none => absurd none (by simp [x, Session.create])
  obtain ⟨e, n, ends⟩ := fair.hasEnd
  have same {ms : List Move} {y : Session α ρ} (run : x.run? h ms = some y) (isOver : y.IsOver) :
      y.Same e := by
    obtain ⟨fairY, k, -, endsY⟩ := ends.run fair run
    exact endsY.same_of_still (still_of_isOver fairY (closing_run fair closing run) isOver)
  refine ⟨2 * n + 2, fun fuel enough => ?_⟩
  have ample : 2 * n + 1 < fuel := enough
  obtain ⟨⟨front, played⟩, isOver⟩ := playOut_run fair rfl rfl ends ample
  refine ⟨⟨⟨front, played⟩, isOver⟩, fun ms y run => ⟨?_, fun isOverY => ?_⟩⟩
  · obtain ⟨fairY, k, -, endsY⟩ := ends.run fair run
    obtain ⟨ms', z, run', still⟩ := endsY.reach
    exact ⟨ms', z, run', isOver_of_still (endsY.run fairY run').1 still⟩
  · exact ((same played isOver).trans (same run isOverY).symm).upshot

def frail : Callback Nat Unit := fun _ a => if a = 6 then .unwind (.text "six") else .finish

def sendDuringCall : List Move :=
  List.replicate 10 .client ++ List.replicate 3 (.thread 0) ++ List.replicate 4 .client ++
    List.replicate 4 (.thread 0) ++ .stir 0 :: List.replicate 7 .client ++
    List.replicate 8 (.thread 0) ++ List.replicate 3 .client

theorem scheduling_sendDuringCall :
    ∃ y, (Session.create {} (some frail) ([.send 5, .send 6] ++ [.join])).run? Host.calm
        sendDuringCall = some y ∧
      y.upshot = ⟨[.done, .done, .done], [(5, .returned), (6, .panicked (.text "six"))], 1, 1, 0, 1,
        .idle, []⟩ ∧
      ∃ n, ∀ fuel, n ≤ fuel → y.upshot =
        ((Session.create {} (some frail) ([.send 5, .send 6] ++ [.join])).playOut Host.calm fuel
          ([.send 5, .send 6] ++ [.join])).upshot := by
  have aloof : ∀ f, some frail = some f → Callback.Aloof f := by
    rintro f ⟨⟩ visits a
    rw [frail]
    split <;> trivial
  have hp : ((Session.create {} (some frail) ([.send 5, .send 6] ++ [.join])).run? Host.calm
      sendDuringCall).any (fun y => y.todo = [] && y.worker.clients.all Client.isIdle &&
        y.upshot = ⟨[.done, .done, .done], [(5, .returned), (6, .panicked (.text "six"))], 1, 1, 0,
          1, .idle, []⟩) = true := by
    decide
  obtain ⟨y, run, hp⟩ := (Option.any_eq_true _ _).mp hp
  simp only [Bool.and_eq_true, decide_eq_true_eq] at hp
  obtain ⟨⟨todo, idle⟩, upshot⟩ := hp
  obtain ⟨n, independent⟩ := scheduling_independence Host.calm {} (some frail)
    [.send 5, .send 6] .join aloof (by simp [Call.isPlain]) (Or.inl rfl)
  exact ⟨y, run, upshot, n, fun fuel enough =>
    ((independent fuel enough).2 sendDuringCall y run).2 ⟨todo, idle⟩⟩

end QueueWorker.Worker
