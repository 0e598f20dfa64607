import QueueWorker.Proofs.Worker.Drain
import QueueWorker.Proofs.Worker.Outgoing

namespace QueueWorker.Worker

variable {α ρ : Type}

theorem guard_of_other {h : Host α} {s u : State α ρ} {act : Act α ρ} {b : Agent}
    (hl : Locked s) (step : Step h s act u) (held : s.guard = some b) (other : act ≠ b.act) :
    u.guard = some b := by
  have bystander {a : Agent} {c : Cursor α} {s' : State α ρ} {p : Progress α}
      (hc : s.cursor? a = some c) (ne : a ≠ b) (step : Advances h s a c s' p) :
      s'.guard = some b := by
    have unheld : c.holdsGuard = false := by
      apply Bool.eq_false_iff.mpr
      intro holds
      exact ne (Option.some.inj (((hl.guard a).mpr (by rw [hc]; exact holds)).symm.trans held))
    cases step with
    | found batch t free | stopFound p t free => rw [free] at held; cases held
    | pushed batch | marked p t => cases unheld
    | _ => exact held
  cases step with
  | client j c s' p client step =>
      have kept := bystander (State.cursor?_of_client client) (fun same => other (same ▸ rfl)) step
      exact kept
  | thread t th u thread step =>
      cases step with
      | call a replies c rest s' p stage step =>
          have hc : s.cursor? (.thread t) = some c := by
            rw [State.cursor?_of_thread thread, stage]; rfl
          have kept := bystander hc (fun same => other (same ▸ rfl)) step
          cases p <;> exact kept
      | _ => exact held
  | _ => exact held

/-- A run of a worker that goes on for ever. At some moments nothing happens. -/
structure Chronicle (ρ : Type) (h : Host α) where
  state : Nat → State α ρ
  act : Nat → Option (Act α ρ)
  start : Reachable h (state 0)
  modest : ∀ n a, act n = some a → a.Modest
  rest : ∀ n, act n = none → state (n + 1) = state n
  next : ∀ n a, act n = some a → (state n).next? h a = some (state (n + 1))

namespace Chronicle

variable {h : Host α} {r : Chronicle ρ h}

/-- Nobody who can move all the time is kept from it, and every callback that waits is let go. -/
structure Fair (r : Chronicle ρ h) : Prop where
  agents : ∀ a n, (∀ m, n ≤ m → (r.state m).CanMove h a) → ∃ m, n ≤ m ∧ r.act m = some a.act
  callbacks : ∀ t n,
    (∀ m, n ≤ m → (r.state m).threads[t]?.any (fun th => th.stage.isHeld) = true) →
      ∃ m, n ≤ m ∧ r.act m = some (.release t)

/-- Nobody ends the worker any more while it runs. -/
def Spared (r : Chronicle ρ h) (n : Nat) : Prop :=
  ∀ m a, n ≤ m → r.act m = some a → (r.state m).isStop a = false

theorem kept {P : State α ρ → Prop} {n : Nat} (hn : P (r.state n))
    (keeps : ∀ m a, n ≤ m → r.act m = some a → P (r.state m) → P (r.state (m + 1))) {m : Nat}
    (hm : n ≤ m) : P (r.state m) := by
  obtain ⟨k, rfl⟩ := Nat.exists_eq_add_of_le hm
  clear hm
  induction k with
  | zero => exact hn
  | succ k ih =>
      cases ha : r.act (n + k) with
      | none => rw [← Nat.add_assoc, r.rest _ ha]; exact ih
      | some a => exact keeps _ a (Nat.le_add_right n k) ha ih

theorem reachable (r : Chronicle ρ h) (n : Nat) : Reachable h (r.state n) :=
  r.kept r.start (fun m a _ ha hr => hr.next (r.modest m a ha) (r.next m a ha)) (Nat.zero_le n)

theorem step (r : Chronicle ρ h) {n : Nat} {a : Act α ρ} (ha : r.act n = some a) :
    Step h (r.state n) a (r.state (n + 1)) := step_of_next (r.next n a ha)

theorem happens {P : State α ρ → Prop} {a : Act α ρ} {n : Nat} (hn : P (r.state n))
    (due : (∀ m, n ≤ m → P (r.state m)) → ∃ m, n ≤ m ∧ r.act m = some a)
    (keeps : ∀ m b, n ≤ m → r.act m = some b → b ≠ a → P (r.state m) → P (r.state (m + 1))) :
    ∃ m, n ≤ m ∧ r.act m = some a ∧ P (r.state m) := by
  by_contra never
  have always (m : Nat) (hm : n ≤ m) : P (r.state m) :=
    r.kept hn (fun m b hm hb hp => keeps m b hm hb (fun same => never ⟨m, hm, same ▸ hb, hp⟩) hp) hm
  obtain ⟨m, hm, acted⟩ := due always
  exact never ⟨m, hm, acted, always m hm⟩

theorem Fair.freed (fair : r.Fair) (n : Nat) : ∃ m, n ≤ m ∧ (r.state m).guard = none := by
  cases held : (r.state n).guard with
  | none => exact ⟨n, Nat.le_refl n, held⟩
  | some b =>
      obtain ⟨m, hm, acted, held'⟩ := r.happens (P := fun s => s.guard = some b) (a := b.act) held
        (fun always => fair.agents b n fun m hm => by
          obtain ⟨u, hu, -⟩ := guard_returns (r.reachable m).locked (always m hm)
          exact ⟨u, hu⟩)
        (fun m a _ ha other held => guard_of_other (r.reachable m).locked (r.step ha) held other)
      obtain ⟨u, hu, free⟩ := guard_returns (r.reachable m).locked held'
      have same := Option.some.inj ((r.next m _ acted).symm.trans hu)
      exact ⟨m + 1, Nat.le_succ_of_le hm, same ▸ free⟩

variable {i n : Nat} {c : Cursor α} {q : Pose}

theorem Fair.next {t : Nat} {th : Thread α ρ} (fair : r.Fair)
    (there : ∀ m, n ≤ m → (r.state m).threads[t]? = some th ∧
      (th.stage.isHeld = false → (r.state m).CanMove h (.thread t))) :
    ∃ m, n ≤ m ∧ r.act m = some (th.stage.next t) := by
  unfold Stage.next
  split
  next held => exact fair.callbacks t n fun m hm => by rw [(there m hm).1]; exact held
  next unheld =>
    exact fair.agents (.thread t) n fun m hm => (there m hm).2 (Bool.eq_false_iff.mpr unheld)

/-- A client that does not move from here any more, though nobody ends the worker. -/
structure Stuck (r : Chronicle ρ h) (i : Nat) (c : Cursor α) (n : Nat) : Prop where
  cursor : ∀ m, n ≤ m → (r.state m).cursor? (.client i) = some c
  unmoved : ∀ m, n ≤ m → r.act m ≠ some (.client i)
  spared : r.Spared n

namespace Stuck

theorem later (hs : r.Stuck i c n) {m : Nat} (hm : n ≤ m) : r.Stuck i c m :=
  ⟨fun k hk => hs.cursor k (Nat.le_trans hm hk), fun k hk => hs.unmoved k (Nat.le_trans hm hk),
    fun k a hk => hs.spared k a (Nat.le_trans hm hk)⟩

theorem pose (hs : r.Stuck i c n) (hq : c.pose? = some q) {m : Nat} (hm : n ≤ m) :
    (r.state m).pose? (.client i) = some q := by
  rw [State.pose?, hs.cursor m hm]
  exact hq

theorem other (hs : r.Stuck i c n) {m : Nat} {a : Act α ρ} (hm : n ≤ m) (ha : r.act m = some a) :
    a ≠ .client i := fun same => hs.unmoved m hm (same ▸ ha)

theorem cannot (hs : r.Stuck i c n) (fair : r.Fair)
    (can : ∀ m, n ≤ m → (r.state m).CanMove h (.client i)) : False := by
  obtain ⟨m, hm, acted⟩ := fair.agents (.client i) n can
  exact hs.unmoved m hm acted

theorem calm (hs : r.Stuck i c n) (hq : c.pose? = some q) (free : (r.state n).guard = none)
    {m : Nat} (hm : n ≤ m) : (r.state m).guard = none :=
  r.kept (P := fun s => s.guard = none) free (fun k a hk ha free =>
    (calm_of_other (r.reachable k).attainable (r.step ha) (hs.pose hq hk)
      (fun mine => hs.other hk ha (Act.eq_of_agent? mine)) (hs.spared k a hk ha) free).1) hm

theorem waits (hs : r.Stuck i c n) (fair : r.Fair) (hq : c.pose? = some q)
    (free : (r.state n).guard = none) :
    ∃ t, q = .retaking t ∧ ∀ m, n ≤ m → (r.state m).end? t = none := by
  have can_of_advance {m : Nat} (hm : n ≤ m) {x : State α ρ × Progress α}
      (ha : (r.state m).advance h (.client i) c = some x) : (r.state m).CanMove h (.client i) := by
    obtain ⟨u, hu, -⟩ := State.next?_of_advance (p := x.2) (hs.cursor m hm) ha
    exact ⟨u, hu⟩
  have why {m : Nat} (hm : n ≤ m) (cannot : ¬(r.state m).CanMove h (.client i)) :
      ∃ t, q = .retaking t ∧ (r.state m).end? t = none := by
    cases ha : (r.state m).advance h (.client i) c with
    | some x => exact absurd (can_of_advance hm ha) cannot
    | none =>
        cases waits_of_advance ha with
        | guard taken => exact absurd (hs.calm hq free hm) taken
        | lifecycle taken outside => rw [hq] at outside; cases outside
        | exit t retaking alive => exact ⟨t, Option.some.inj (hq.symm.trans retaking), alive⟩
        | hatching t pose absent =>
            have present := ((r.reachable m).fits (hs.cursor m hm) pose).2.present t rfl
            rw [List.getElem?_eq_none_iff] at absent
            simp [State.grades] at present
            omega
  obtain ⟨m, hm, cannot⟩ : ∃ m, n ≤ m ∧ ¬(r.state m).CanMove h (.client i) := by
    by_contra can
    exact hs.cannot fair fun m hm => by_contra fun cannot => can ⟨m, hm, cannot⟩
  obtain ⟨t, rfl, -⟩ := why hm cannot
  refine ⟨t, rfl, fun k hk => ?_⟩
  by_contra ended
  obtain ⟨e, he⟩ := Option.ne_none_iff_exists'.mp ended
  refine (hs.later hk).cannot fair fun m hm => by_contra fun cannot => ?_
  obtain ⟨t', same, alive⟩ := why (Nat.le_trans hk hm) cannot
  cases same
  have past := r.kept (P := fun s => s.end? t = some e) he
    (fun m a _ ha he => end?_step (r.step ha) he) hm
  rw [alive] at past
  cases past

theorem ends (hs : r.Stuck i c n) (fair : r.Fair) {t : Nat} (hq : c.pose? = some (.retaking t))
    (free : (r.state n).guard = none) (alive : ∀ m, n ≤ m → (r.state m).end? t = none) : False := by
  have outgoing {m : Nat} {th : Thread α ρ} (hm : n ≤ m)
      (thread : (r.state m).threads[t]? = some th) : Outgoing (r.state m) i t th :=
    ⟨thread, by simpa [State.end?, thread] using alive m hm, hs.pose hq hm, hs.calm hq free hm⟩
  suffices never : ∀ x, Follows.Ending x → ∀ m th, n ≤ m → (r.state m).threads[t]? = some th →
      ((r.state m).queue.length, th.stage) ≠ x by
    have present := ((r.reachable n).fits (hs.cursor n (Nat.le_refl n)) hq).2.present t rfl
    have bound : t < (r.state n).threads.length := by simpa [State.grades] using present
    exact never _ (Follows.ending _ _) n _ (Nat.le_refl n) (List.getElem?_eq_getElem bound) rfl
  intro x ending
  induction ending with
  | intro x _ later =>
  rintro m th hm thread rfl
  obtain ⟨k, hk, acted, thread', queue⟩ := r.happens (a := th.stage.next t)
    (P := fun s => s.threads[t]? = some th ∧ s.queue = (r.state m).queue) ⟨thread, rfl⟩
    (fun always => fair.next fun k hk =>
      ⟨(always k hk).1, fun unheld =>
        have out := outgoing (Nat.le_trans hm hk) (always k hk).1
        canMove_of_alive (r.reachable k) out.thread out.alive (out.awake (r.reachable k)) unheld
          out.free⟩)
    (fun k b hk hb unmoved same => by
      have hk' := Nat.le_trans hm hk
      obtain ⟨thread, queue⟩ := (outgoing hk' same.1).still (r.reachable k) (r.step hb)
        (hs.other hk' hb) unmoved
      exact ⟨thread, queue.trans same.2⟩)
  obtain ⟨th', after, follows⟩ := (outgoing (Nat.le_trans hm hk) thread').follows (r.reachable k)
    (r.step acted)
  rw [queue] at follows
  exact later _ follows (k + 1) th' (by omega) after rfl

theorem elim (hs : r.Stuck i c n) (fair : r.Fair) (hq : c.pose? = some q) : False := by
  obtain ⟨m, hm, free⟩ := fair.freed n
  obtain ⟨t, rfl, alive⟩ := (hs.later hm).waits fair hq free
  exact (hs.later hm).ends fair hq free alive

end Stuck

theorem charged_of_tries {batch : List α} {d : List (Deed α)} {s : State α ρ} {c : Cursor α}
    (hc : c.Tries batch d s) : ∃ q, c.pose? = some q := by
  cases c with
  | _ => first | exact ⟨_, rfl⟩ | exact hc.elim

theorem Fair.tries {batch : List α} {d : List (Deed α)} (fair : r.Fair) (spared : r.Spared n)
    (client : (r.state n).clients[i]? = some (.calling c)) (hc : c.Tries batch d (r.state n)) :
    ∃ m, n ≤ m ∧ r.act m = some (.client i) ∧
      (r.state m).clients[i]? = some (.calling c) ∧ c.Tries batch d (r.state m) := by
  obtain ⟨q, hq⟩ := charged_of_tries hc
  refine r.happens (P := fun s => s.clients[i]? = some (.calling c) ∧ c.Tries batch d s)
    ⟨client, hc⟩ (fun always => ?_) (fun m a hm ha other before => ?_)
  · by_contra never
    refine Stuck.elim (c := c) ⟨fun m hm => ?_, fun m hm acted => never ⟨m, hm, acted⟩, spared⟩
      fair hq
    rw [State.cursor?_of_client (always m hm).1]
    rfl
  · have step := r.step ha
    have request := request_of_busy step before.1 rfl
    have mine : a.agent? ≠ some (.client i) := fun mine => other (Act.eq_of_agent? mine)
    have same := (clients_step_ne step request fun j hj he => other (by rw [hj, he])).trans before.1
    obtain ⟨cl, hi, after⟩ := tries_step (r.reachable m).attainable step request before.1 before.2
    cases same.symm.trans hi
    rw [State.deed?, if_neg mine, if_neg (by rw [spared m a hm ha]; decide)] at after
    exact ⟨same, by simpa [Client.Tries] using after⟩

theorem Fair.returns {batch : List α} (fair : r.Fair) (w : Nat) {n : Nat} (spared : r.Spared n)
    {cl : Client α ρ} {d : List (Deed α)} (client : (r.state n).clients[i]? = some cl)
    (hc : cl.Tries batch d (r.state n))
    (room : 7 * (d.countP Deed.isStop + 1) + 2 ≤
      d.countP Deed.isOwn + w) :
    ∃ m x, (r.state m).clients[i]? = some (.idle (some x)) := by
  induction w using Nat.strongRecOn generalizing n cl d with
  | ind w later =>
  cases cl with
  | idle x =>
      cases x with
      | none => exact hc.elim
      | some x => exact ⟨n, x, client⟩
  | registering f => exact hc.elim
  | calling c =>
      obtain ⟨m, hm, acted, client, hc⟩ := fair.tries spared client hc
      obtain ⟨cl, client', after⟩ :=
        tries_step (r.reachable m).attainable (r.step acted) rfl client hc
      rw [State.deed?_of_client client, Option.toList_some] at after
      have fewer := after.bounds.2.2.2
      rw [countP_isOwn, countP_isStop] at fewer
      refine later (w - 1) (by omega) (fun k a hk => spared k a (by omega)) client' after ?_
      rw [countP_isOwn, countP_isStop]
      omega

end Chronicle

/-- A client that sends a batch has taken the lock over spawning and joining. From then on it goes
round at most once more than somebody ends the worker, and starts and joins no more threads than
that. Each of its steps puts into the queue what the deed says and nothing else. If it returns it
has queued the batch once, while the worker ran, or it has failed and queued nothing; and it does
return if the worker is ended only so often. -/
theorem send_retry_bounded {h : Host α} {s v : State α ρ} {i : Nat} {batch : List α}
    (hr : Reachable h s) (enters : s.clients[i]? = some (.calling (.entering (some batch))))
    (step : s.next? h (.client i) = some v) :
    (∀ acts u, v.run? h acts = some u → (∀ act ∈ acts, act.Modest) →
      (∀ act ∈ acts, act.isRequestOf i = false) →
      ∃ d k, d = v.deeds h i acts ∧ k = d.countP Deed.isStop ∧
        d.countP Deed.isRound ≤ k + 1 ∧ d.countP Deed.isSpawn ≤ k + 1 ∧
        d.countP Deed.isJoin ≤ k + 1 ∧ d.countP Deed.isOwn ≤ 7 * (k + 1) + 2 ∧
        u.pushedBy (.client i) =
          v.pushedBy (.client i) ++ (d.filterMap Deed.push?).flatMap Prod.fst ∧
        (∀ front behind x y, acts = front ++ .client i :: behind → v.run? h front = some x →
          x.next? h (.client i) = some y →
            ∃ e, x.deed? h i (.client i) = some e ∧ y.queue = x.queue ++ e.messages) ∧
        ∀ r, u.clients[i]? = some (.idle r) →
          r = some .done ∧ d.filterMap Deed.push? = [(batch, true)] ∨
            (∃ f, r = some (.failed f)) ∧ d.filterMap Deed.push? = []) ∧
    ∀ r : Chronicle ρ h, r.state 0 = v → r.Fair → (∃ n, r.Spared n) →
      ∃ n x, (r.state n).clients[i]? = some (.idle (some x)) := by
  have first : v.clients[i]? = some (.calling (.ensuring (some batch))) := by
    cases step_of_next step with
    | client i c s' p client step =>
        cases enters.symm.trans client
        cases step with
        | enter load free => exact State.clients_setClient client _
    | place i f client => cases enters.symm.trans client
  have tries : Client.Tries batch [] v (.calling (.ensuring (some batch))) :=
    ⟨rfl, Pace.nil, rfl⟩
  have modest : (Act.client i : Act α ρ).Modest := trivial
  have hv := hr.next modest step
  constructor
  · intro acts u run modest requests
    obtain ⟨cl, client, after⟩ :=
      (Walk.of_run hv modest run).tries hv.attainable requests first tries
    obtain ⟨rounds, spawns, joins, steps⟩ := after.bounds
    refine ⟨_, _, rfl, rfl, rounds, spawns, joins, steps, ?_, ?_, fun r idle => ?_⟩
    · exact State.gather_keeps (l := []) (P := fun w d => w.pushedBy (.client i) =
        v.pushedBy (.client i) ++ (d.filterMap Deed.push?).flatMap Prod.fst)
        (fun w x act d step pushed => by
          rw [pushedBy_step step i, pushed]; simp) run (by simp)
    · rintro front behind x y rfl before next
      obtain ⟨cl, client, after⟩ := Walk.tries
        (Walk.of_run hv (fun act hm => modest act (List.mem_append_left _ hm)) before) hv.attainable
        (fun act hm => requests act (List.mem_append_left _ hm)) first tries
      cases step_of_next next with
      | client i c s' p calling step =>
          cases client.symm.trans calling
          have queue := queue_of_tries after step
          exact ⟨_, State.deed?_of_client calling, queue⟩
      | place i f registering =>
          cases client.symm.trans registering
          exact after.elim
    · cases idle.symm.trans client
      cases r with
      | none => exact after.elim
      | some r =>
          rcases after with ⟨done, pushed, -⟩ | ⟨⟨f, failed⟩, owing⟩
          · exact .inl ⟨congrArg some done, pushed⟩
          · exact .inr ⟨⟨f, congrArg some failed⟩, owing.unpushed⟩
  · rintro r rfl fair ⟨n, spared⟩
    by_contra never
    obtain ⟨cl, d, client, hc⟩ := r.kept (n := 0) (m := n)
      (P := fun w => ∃ cl d, w.clients[i]? = some cl ∧ cl.Tries batch d w)
      ⟨_, _, first, tries⟩
      (by
        rintro m a - ha ⟨cl, d, client, hc⟩
        have busy : cl.isIdle = false := by
          cases cl with
          | idle x =>
              cases x with
              | none => exact hc.elim
              | some x => exact absurd ⟨m, x, client⟩ never
          | _ => rfl
        obtain ⟨cl', client', hc'⟩ := tries_step (r.reachable m).attainable (r.step ha)
          (request_of_busy (r.step ha) client busy) client hc
        exact ⟨cl', _, client', hc'⟩)
      (Nat.zero_le n)
    exact never (fair.returns (7 * (d.countP Deed.isStop + 1) + 2) spared client hc (by omega))

def sendIntoStop : List (Act Nat Unit) :=
  List.replicate 5 (.client 0) ++ .call 1 .stop :: List.replicate 2 (.client 1) ++
    List.replicate 2 (.client 0) ++ List.replicate 3 (.thread 0) ++ List.replicate 8 (.client 0)

theorem send_retry_sendIntoStop :
    ∃ s v u, (State.create {} (some fun _ _ => .finish) 2).run? Host.calm [.call 0 (.send 5)] =
        some s ∧ s.next? Host.calm (.client 0) = some v ∧
      v.run? Host.calm sendIntoStop = some u ∧
      (v.deeds Host.calm 0 sendIntoStop).countP Deed.isStop = 1 ∧
      (v.deeds Host.calm 0 sendIntoStop).countP Deed.isRound = 2 ∧
      (v.deeds Host.calm 0 sendIntoStop).filterMap Deed.push? = [([5], true)] ∧
      u.pushedBy (.client 0) = v.pushedBy (.client 0) ++ [5] ∧
      ∀ r : Chronicle Unit Host.calm, r.state 0 = v → r.Fair → (∃ n, r.Spared n) →
        ∃ n x, (r.state n).clients[0]? = some (.idle (some x)) := by
  have hp : ((State.create {} (some fun _ _ => .finish) 2).run? Host.calm
      [.call 0 (.send 5)]).any (fun s => s.clients[0]?.any (Client.isAt (.entering (some [5]))) &&
        (s.next? Host.calm (.client 0)).any (fun v =>
          (v.deeds Host.calm 0 sendIntoStop).countP Deed.isStop = 1 &&
            (v.deeds Host.calm 0 sendIntoStop).countP Deed.isRound = 2 &&
            (v.run? Host.calm sendIntoStop).any (fun u =>
              u.clients[0]?.any (Client.hasReply .done)))) = true := by
    decide
  obtain ⟨s, hs, hr, hp⟩ := Reachable.of_run hp finish_modest (by simp [Act.Modest])
  simp only [Bool.and_eq_true] at hp
  obtain ⟨enters, hp⟩ := hp
  obtain ⟨v, hv, hp⟩ := (Option.any_eq_true _ _).mp hp
  simp only [Bool.and_eq_true, decide_eq_true_eq] at hp
  obtain ⟨⟨stops, rounds⟩, hp⟩ := hp
  obtain ⟨u, hu, done⟩ := (Option.any_eq_true _ _).mp hp
  obtain ⟨bounded, returns⟩ := send_retry_bounded hr (Client.eq_of_isAt enters) hv
  obtain ⟨d, k, rfl, -, -, -, -, -, pushed, -, upshot⟩ := bounded sendIntoStop u hu
    (by simp [sendIntoStop, Act.Modest]) (by simp [sendIntoStop, Act.isRequestOf])
  obtain ⟨-, once⟩ | ⟨⟨f, failed⟩, -⟩ := upshot _ (Client.eq_of_hasReply done)
  · rw [once] at pushed
    exact ⟨s, v, u, hs, hv, hu, stops, rounds, once, pushed, returns⟩
  · cases failed

end QueueWorker.Worker
