import QueueWorker.Proofs.Worker.Course

namespace QueueWorker.Worker

variable {α ρ : Type}

/-- What a step has to do with a client that is about to queue a batch. Somebody stops the running
worker, or the client itself goes on: it begins a round, waits for a thread until that has ended,
starts one, queues the batch, or does anything else. -/
inductive Deed (α : Type)
  | stopped
  | began
  | joined
  | spawned
  | pushed (batch : List α) (running : Bool)
  | other

namespace Deed

def isStop : Deed α → Bool
  | stopped => true
  | _ => false

def isRound : Deed α → Bool
  | began => true
  | _ => false

def isJoin : Deed α → Bool
  | joined => true
  | _ => false

def isSpawn : Deed α → Bool
  | spawned => true
  | _ => false

def isOwn (d : Deed α) : Bool := !d.isStop

def push? : Deed α → Option (List α × Bool)
  | pushed batch running => some (batch, running)
  | _ => none

def messages : Deed α → List (Message α)
  | pushed batch _ => batch.map .item
  | _ => []

end Deed

def Cursor.deed (h : Host α) (s : State α ρ) : Cursor α → Deed α
  | .ensuring _ => .began
  | .reclaiming .. => .joined
  | .spawning _ => if (h.refusal s.attempts).isNone then .spawned else .other
  | .pushing batch => .pushed batch (s.phase.status = .running)
  | _ => .other

namespace State

/-- A step that is to end the worker takes effect if it finds it running. -/
def isStop (s : State α ρ) (act : Act α ρ) : Bool :=
  match act.agent?.bind s.cursor? with
  | some (.stopping .stop) => s.phase.status = .running
  | _ => false

def deed? (h : Host α) (i : Nat) (s : State α ρ) (act : Act α ρ) : Option (Deed α) :=
  if act.agent? = some (.client i) then (s.cursor? (.client i)).map (Cursor.deed h s)
  else if s.isStop act then some .stopped
  else none

/-- The deeds of a run, in their order. -/
def deeds (h : Host α) (i : Nat) (s : State α ρ) (acts : List (Act α ρ)) : List (Deed α) :=
  s.gather h (deed? h i) acts

end State

theorem State.deed?_of_client {h : Host α} {s : State α ρ} {i : Nat} {c : Cursor α}
    (client : s.clients[i]? = some (.calling c)) :
    s.deed? h i (.client i) = some (c.deed h s) := by
  simp [State.deed?, Act.agent?, State.cursor?_of_client client, Client.cursor?]

theorem Cursor.isStop_deed (h : Host α) (s : State α ρ) (c : Cursor α) :
    (c.deed h s).isStop = false := by
  cases c with
  | spawning load =>
      cases hr : (h.refusal s.attempts).isNone <;> simp [Cursor.deed, Deed.isStop, hr]
  | _ => rfl

section counts

variable (h : Host α) (s : State α ρ) (c : Cursor α) (d : List (Deed α))

theorem countP_isStop :
    (d ++ [c.deed h s]).countP Deed.isStop = d.countP Deed.isStop := by
  simp [Cursor.isStop_deed]

theorem countP_isOwn : (d ++ [c.deed h s]).countP Deed.isOwn =
    d.countP Deed.isOwn + 1 := by
  simp [List.countP_append, Deed.isOwn, Cursor.isStop_deed]

end counts

/-- How many more rounds, threads, joins and steps there may be before the next stop, the next
round, and the end of the call. A round takes seven steps at most, and the rest of the call two. -/
structure Pace (d : List (Deed α)) (r t j n : Nat) : Prop where
  rounds : d.countP Deed.isRound + r ≤ d.countP Deed.isStop + 1
  spawns : d.countP Deed.isSpawn + t ≤ d.countP Deed.isRound
  joins : d.countP Deed.isJoin + j ≤ d.countP Deed.isRound
  steps : d.countP Deed.isOwn + n ≤ 7 * d.countP Deed.isRound + 2

namespace Pace

variable {d : List (Deed α)} {r t j n r' t' j' n' : Nat}

theorem bounds (hd : Pace d r t j n) :
    d.countP Deed.isRound ≤ d.countP Deed.isStop + 1 ∧
      d.countP Deed.isSpawn ≤ d.countP Deed.isStop + 1 ∧
      d.countP Deed.isJoin ≤ d.countP Deed.isStop + 1 ∧
      d.countP Deed.isOwn ≤ 7 * (d.countP Deed.isStop + 1) + 2 := by
  obtain ⟨rounds, spawns, joins, steps⟩ := hd
  refine ⟨?_, ?_, ?_, ?_⟩ <;> omega

theorem nil : Pace ([] : List (Deed α)) 1 0 0 2 :=
  ⟨Nat.le_refl _, Nat.le_refl _, Nat.le_refl _, Nat.le_refl _⟩

theorem mono (hd : Pace d r t j n) (hr : r' ≤ r) (ht : t' ≤ t) (hj : j' ≤ j) (hn : n' ≤ n) :
    Pace d r' t' j' n' := by
  obtain ⟨rounds, spawns, joins, steps⟩ := hd
  constructor <;> omega

theorem concat (hd : Pace d r t j n) {e : Deed α}
    (hr : r' + e.isRound.toNat ≤ r + e.isStop.toNat)
    (ht : t' + e.isSpawn.toNat ≤ t + e.isRound.toNat)
    (hj : j' + e.isJoin.toNat ≤ j + e.isRound.toNat)
    (hn : n' + e.isOwn.toNat ≤ n + 7 * e.isRound.toNat) : Pace (d ++ [e]) r' t' j' n' := by
  have count (p : Deed α → Bool) : (d ++ [e]).countP p = d.countP p + (p e).toNat := by
    rw [List.countP_append, List.countP_singleton]
    cases p e <;> rfl
  obtain ⟨rounds, spawns, joins, steps⟩ := hd
  constructor <;> simp only [count] <;> omega

theorem stopped (hd : Pace d r t j n) : Pace (d ++ [.stopped]) (r + 1) t j n :=
  hd.concat (Nat.le_refl _) (Nat.le_refl _) (Nat.le_refl _) (Nat.le_refl _)

theorem began (hd : Pace d (r + 1) t j n) : Pace (d ++ [.began]) r (t + 1) (j + 1) (n + 6) :=
  hd.concat (Nat.le_refl _) (Nat.le_refl _) (Nat.le_refl _) (Nat.le_refl _)

theorem joined (hd : Pace d r t (j + 1) (n + 1)) : Pace (d ++ [.joined]) r t j n :=
  hd.concat (Nat.le_refl _) (Nat.le_refl _) (Nat.le_refl _) (Nat.le_refl _)

theorem spawned (hd : Pace d r (t + 1) j (n + 1)) : Pace (d ++ [.spawned]) r t j n :=
  hd.concat (Nat.le_refl _) (Nat.le_refl _) (Nat.le_refl _) (Nat.le_refl _)

theorem pushed (hd : Pace d r t j (n + 1)) (batch : List α) (running : Bool) :
    Pace (d ++ [.pushed batch running]) r t j n :=
  hd.concat (Nat.le_refl _) (Nat.le_refl _) (Nat.le_refl _) (Nat.le_refl _)

theorem other (hd : Pace d r t j (n + 1)) : Pace (d ++ [.other]) r t j n :=
  hd.concat (Nat.le_refl _) (Nat.le_refl _) (Nat.le_refl _) (Nat.le_refl _)

end Pace

structure Owing (d : List (Deed α)) (r t j n : Nat) : Prop extends Pace d r t j n where
  unpushed : d.filterMap Deed.push? = []

namespace Owing

variable {d : List (Deed α)} {r t j n r' t' j' n' : Nat}

theorem concat (hd : Owing d r t j n) {e : Deed α} (pace : Pace (d ++ [e]) r' t' j' n')
    (silent : e.push? = none) : Owing (d ++ [e]) r' t' j' n' := by
  refine ⟨pace, ?_⟩
  rw [List.filterMap_append, hd.unpushed, List.filterMap_cons_none silent]
  rfl

theorem began (hd : Owing d (r + 1) t j n) : Owing (d ++ [.began]) r (t + 1) (j + 1) (n + 6) :=
  hd.concat hd.toPace.began rfl

theorem joined (hd : Owing d r t (j + 1) (n + 1)) : Owing (d ++ [.joined]) r t j n :=
  hd.concat hd.toPace.joined rfl

theorem other (hd : Owing d r t j (n + 1)) : Owing (d ++ [.other]) r t j n :=
  hd.concat hd.toPace.other rfl

theorem pushed (hd : Owing d r t j n) (batch : List α) (running : Bool) :
    (d ++ [Deed.pushed batch running]).filterMap Deed.push? = [(batch, running)] := by
  rw [List.filterMap_append, hd.unpushed]
  rfl

theorem mono (hd : Owing d r t j n) (hr : r' ≤ r) (ht : t' ≤ t) (hj : j' ≤ j) (hn : n' ≤ n) :
    Owing d r' t' j' n' :=
  ⟨hd.toPace.mono hr ht hj hn, hd.unpushed⟩

end Owing

/-- How a client's attempt to queue a batch stands. Where it has found the worker running, it has to
begin another round only if somebody stops the worker in between. -/
def Cursor.Tries (batch : List α) (d : List (Deed α)) (s : State α ρ) : Cursor α → Prop
  | .ensuring load => load = some batch ∧ Owing d 1 0 0 2
  | .reclaiming load _ => load = some batch ∧ Owing d 0 1 1 8
  | .spawning load => load = some batch ∧ Owing d 0 1 0 7
  | .counting load _ => load = some batch ∧ Owing d 0 0 0 6
  | .announcing load _ => load = some batch ∧ Owing d 0 0 0 5
  | .adopting load _ => load = some batch ∧ Owing d 0 0 0 4
  | .abandoning load _ => load = some batch ∧ Owing d 0 0 0 2
  | .checking as => as = batch ∧ Owing d 0 0 0 3 ∧
      (s.guard = none ∧ s.phase.status = .running ∨ Pace d 1 0 0 3)
  | .pushing as => as = batch ∧ Owing d 0 0 0 2
  | .leaving none r => r = .done ∧ d.filterMap Deed.push? = [(batch, true)] ∧ Pace d 0 0 0 1
  | .leaving (some _) r => (∃ f, r = .failed f) ∧ Owing d 0 0 0 1
  | _ => False

def Client.Tries (batch : List α) (d : List (Deed α)) (s : State α ρ) : Client α ρ → Prop
  | .calling c => c.Tries batch d s
  | .idle (some r) =>
      r = .done ∧ d.filterMap Deed.push? = [(batch, true)] ∧ Pace d 0 0 0 0 ∨
        (∃ f, r = .failed f) ∧ Owing d 0 0 0 0
  | _ => False

theorem Phase.running_of_status {ph : Phase} (running : ph.status = .running) :
    ∃ t, ph = .running t := by
  cases ph with
  | running t => exact ⟨t, rfl⟩
  | _ => cases running

theorem tries_advances {h : Host α} {s s' : State α ρ} {i : Nat} {c : Cursor α}
    {p : Progress α} {batch : List α} {d : List (Deed α)} (hc : c.Tries batch d s)
    (knows : c.Knows s.phase) (step : Advances h s (.client i) c s' p) :
    (p.client : Client α ρ).Tries batch (d ++ [c.deed h s]) s' := by
  cases step with
  | loaded t as free phase =>
      obtain ⟨⟨⟩, owing⟩ := hc
      have begun := owing.began
      exact ⟨rfl, begun.mono (by omega) (by omega) (by omega) (by omega),
        .inl ⟨free, by rw [phase]; rfl⟩⟩
  | reclaim load t =>
      obtain ⟨rfl, owing⟩ := hc
      exact ⟨rfl, owing.began⟩
  | vacate load =>
      obtain ⟨rfl, owing⟩ := hc
      exact ⟨rfl, owing.began.mono (by omega) (by omega) (by omega) (by omega)⟩
  | reclaimed load t | reclaimedDead load t =>
      obtain ⟨rfl, owing⟩ := hc
      exact ⟨rfl, owing.joined⟩
  | refused load e refusal =>
      obtain ⟨rfl, owing⟩ := hc
      have deed : Cursor.deed h s (.spawning (some batch)) = .other := by
        simp [Cursor.deed, refusal]
      rw [deed]
      exact ⟨rfl, owing.other.mono (by omega) (by omega) (by omega) (by omega)⟩
  | spawned load refusal =>
      obtain ⟨rfl, owing⟩ := hc
      have deed : Cursor.deed h s (.spawning (some batch)) = .spawned := by
        simp [Cursor.deed, refusal]
      rw [deed]
      exact ⟨rfl, owing.concat owing.toPace.spawned rfl⟩
  | counted load t | announced load t =>
      obtain ⟨rfl, owing⟩ := hc
      exact ⟨rfl, owing.other⟩
  | adoptedLoaded t as free =>
      obtain ⟨⟨⟩, owing⟩ := hc
      exact ⟨rfl, owing.other, .inl ⟨free, rfl⟩⟩
  | abandoned load f =>
      obtain ⟨rfl, owing⟩ := hc
      exact ⟨⟨f, rfl⟩, owing.other⟩
  | found as t free phase =>
      obtain ⟨rfl, owing, -⟩ := hc
      exact ⟨rfl, owing.other⟩
  | missed as free phase =>
      obtain ⟨rfl, owing, ⟨-, running⟩ | pace⟩ := hc
      · obtain ⟨t, running⟩ := Phase.running_of_status running
        exact absurd running (phase t)
      · exact ⟨rfl, owing.concat pace.other rfl⟩
  | pushed as =>
      obtain ⟨rfl, owing⟩ := hc
      obtain ⟨t, phase⟩ := knows
      have deed : Cursor.deed h s (.pushing as) = .pushed as true := by
        simp [Cursor.deed, phase, Phase.status]
      rw [deed]
      exact ⟨rfl, owing.pushed as true, owing.toPace.pushed as true⟩
  | left load r =>
      cases load with
      | none =>
          obtain ⟨rfl, pushed, pace⟩ := hc
          refine .inl ⟨rfl, ?_, pace.other⟩
          rw [List.filterMap_append, pushed]
          rfl
      | some as =>
          obtain ⟨failed, owing⟩ := hc
          exact .inr ⟨failed, owing.other⟩
  | ready | adopted => cases hc.1
  | reclaimSelf load t self => cases self
  | _ => exact hc.elim

theorem queue_of_tries {h : Host α} {s s' : State α ρ} {i : Nat} {c : Cursor α} {p : Progress α}
    {batch : List α} {d : List (Deed α)} (hc : c.Tries batch d s)
    (step : Advances h s (.client i) c s' p) : s'.queue = s.queue ++ (c.deed h s).messages := by
  cases step with
  | pushed as => simp [Cursor.deed, Deed.messages, State.push_eq, State.note]
  | refused load e refusal | spawned load refusal =>
      simp [Cursor.deed, Deed.messages, refusal]
  | stopFound | stopMissed | marked | enterJoin | taken | takenNone | awaitSelf | awaited
  | awaitedDead | settled | retired | retiredNone | outliveSelf | outlived | outlivedDead | swept
  | sweptEarly => exact hc.elim
  | _ => exact (List.append_nil _).symm

theorem stop_of_bystander {h : Host α} {s s' : State α ρ} {me : Agent} {c : Cursor α}
    {p : Progress α} (step : Advances h s me c s' p) (hc : c.pose? = none)
    (guard : c.holdsGuard = false) :
    (c = .stopping .stop ∧ s.phase.status = .running) ∨
      s'.guard = s.guard ∧ s'.phase = s.phase := by
  cases step with
  | stopFound q t free phase =>
      cases q with
      | stop => exact .inl ⟨rfl, by rw [phase]; rfl⟩
      | join | drop => cases hc
  | enter | enterJoin | status | length => exact .inr ⟨rfl, rfl⟩
  | stopMissed q => exact .inr ⟨rfl, rfl⟩
  | marked q t => cases guard
  | _ => cases hc

theorem bystander_of_charged {s : State α ρ} {a b : Agent} {c : Cursor α} {q : Pose}
    (hl : Locked s) (mine : s.pose? b = some q) (other : a ≠ b) (open' : s.guard = none)
    (hc : s.cursor? a = some c) : c.pose? = none ∧ c.holdsGuard = false := by
  constructor
  · cases hq : c.pose? with
    | none => rfl
    | some q' =>
        have theirs : s.pose? a = some q' := by rw [State.pose?, hc]; exact hq
        exact absurd (hl.sole theirs mine) other
  · apply Bool.eq_false_iff.mpr
    intro holds
    have taken := (hl.guard a).mpr (by rw [hc]; exact holds)
    rw [open'] at taken
    cases taken

/-- A worker that runs and whose guard is free stays so while a client has it in its hands, until
somebody stops it. -/
theorem calm_of_other {h : Host α} {s u : State α ρ} {act : Act α ρ} {i : Nat} {q : Pose}
    (ha : Attainable h s) (step : Step h s act u) (mine : s.pose? (.client i) = some q)
    (other : act.agent? ≠ some (.client i)) (unstopped : s.isStop act = false)
    (open' : s.guard = none) : u.guard = none ∧ u.phase = s.phase := by
  have bystander {a : Agent} {c : Cursor α} {s' : State α ρ} {p : Progress α}
      (hc : s.cursor? a = some c) (ha' : act.agent? = some a) (step : Advances h s a c s' p) :
      s'.guard = none ∧ s'.phase = s.phase := by
    obtain ⟨pose, guard⟩ := bystander_of_charged ha.locked mine
      (fun same => other (ha'.trans (congrArg some same))) open' hc
    rcases stop_of_bystander step pose guard with ⟨rfl, running⟩ | ⟨same, phase⟩
    · simp [State.isStop, ha', hc, running] at unstopped
    · exact ⟨same.trans open', phase⟩
  cases step with
  | client j c s' p client step =>
      have calm := bystander (State.cursor?_of_client client) rfl step
      exact calm
  | thread t th u thread step =>
      cases step with
      | call a replies c rest s' p stage step =>
          have hc : s.cursor? (.thread t) = some c := by
            rw [State.cursor?_of_thread thread, stage]; rfl
          have calm := bystander hc rfl step
          cases p <;> exact calm
      | _ => exact ⟨open', rfl⟩
  | _ => exact ⟨open', rfl⟩

namespace Client.Tries

variable {s u : State α ρ} {cl : Client α ρ} {batch : List α} {d : List (Deed α)}

theorem pace (hc : cl.Tries batch d s) : ∃ r t j n, Pace d r t j n := by
  cases cl with
  | idle r =>
      cases r with
      | none => exact hc.elim
      | some r =>
          rcases hc with ⟨-, -, pace⟩ | ⟨-, owing⟩
          · exact ⟨_, _, _, _, pace⟩
          · exact ⟨_, _, _, _, owing.toPace⟩
  | registering f => exact hc.elim
  | calling c =>
      cases c with
      | leaving load r =>
          cases load with
          | none => exact ⟨_, _, _, _, hc.2.2⟩
          | some as => exact ⟨_, _, _, _, hc.2.toPace⟩
      | checking as => exact ⟨_, _, _, _, hc.2.1.toPace⟩
      | ensuring | reclaiming | spawning | counting | announcing | adopting | abandoning
      | pushing => exact ⟨_, _, _, _, hc.2.toPace⟩
      | _ => exact hc.elim

theorem stopped (hc : cl.Tries batch d s) : cl.Tries batch (d ++ [.stopped]) u := by
  have owing {r t j n : Nat} (hd : Owing d r t j n) : Owing (d ++ [.stopped]) r t j n :=
    (hd.concat hd.toPace.stopped rfl).mono (by omega) (by omega) (by omega) (by omega)
  have pushed (hd : d.filterMap Deed.push? = [(batch, true)]) :
      (d ++ [Deed.stopped]).filterMap Deed.push? = [(batch, true)] := by
    rw [List.filterMap_append, hd]
    rfl
  cases cl with
  | idle r =>
      cases r with
      | none => exact hc
      | some r =>
          exact hc.imp (fun hd => ⟨hd.1, pushed hd.2.1, hd.2.2.stopped.mono (by omega) (by omega)
            (by omega) (by omega)⟩) (fun hd => ⟨hd.1, owing hd.2⟩)
  | registering f => exact hc
  | calling c =>
      cases c with
      | checking as => exact ⟨hc.1, owing hc.2.1, .inr hc.2.1.toPace.stopped⟩
      | leaving load r =>
          cases load with
          | none => exact ⟨hc.1, pushed hc.2.1, hc.2.2.stopped.mono (by omega) (by omega)
              (by omega) (by omega)⟩
          | some as => exact ⟨hc.1, owing hc.2⟩
      | ensuring | reclaiming | spawning | counting | announcing | adopting | abandoning
      | pushing => exact ⟨hc.1, owing hc.2⟩
      | _ => exact hc

theorem keep (hc : cl.Tries batch d s)
    (calm : ∀ as, cl = .calling (.checking as) → s.guard = none →
      u.guard = none ∧ u.phase = s.phase) : cl.Tries batch d u := by
  cases cl with
  | idle r => cases r <;> exact hc
  | registering f => exact hc
  | calling c =>
      cases c with
      | checking as =>
          refine ⟨hc.1, hc.2.1, hc.2.2.imp (fun running => ?_) id⟩
          obtain ⟨open', phase⟩ := calm as rfl running.1
          exact ⟨open', phase ▸ running.2⟩
      | leaving load r => cases load <;> exact hc
      | _ => exact hc

end Client.Tries

theorem tries_step {h : Host α} {s u : State α ρ} {act : Act α ρ} {i : Nat} {cl : Client α ρ}
    {batch : List α} {d : List (Deed α)} (ha : Attainable h s) (step : Step h s act u)
    (request : act.isRequestOf i = false) (hi : s.clients[i]? = some cl)
    (hc : cl.Tries batch d s) :
    ∃ cl', u.clients[i]? = some cl' ∧ cl'.Tries batch (d ++ (s.deed? h i act).toList) u := by
  by_cases mine : act.agent? = some (.client i)
  · cases step with
    | client j c s' p client step =>
        cases mine
        cases hi.symm.trans client
        have cursor := State.cursor?_of_client client
        rw [State.deed?_of_client client]
        have tries := tries_advances hc (ha.aware _ c cursor) step
        exact ⟨p.client, clients_setClient_self client step _, tries.keep fun _ _ open' =>
          ⟨open', rfl⟩⟩
    | place j f client => cases mine; cases hi.symm.trans client; exact hc.elim
    | _ => cases mine
  · have same := (clients_step_ne step request fun j hj he => mine (by rw [hj, he]; rfl)).trans hi
    refine ⟨cl, same, ?_⟩
    rw [State.deed?, if_neg mine]
    split
    next stop => exact hc.stopped
    next unstopped =>
      rw [Option.toList_none, List.append_nil]
      refine hc.keep fun as hcl open' => ?_
      have pose : s.pose? (.client i) = some .resting := by
        rw [State.pose?, State.cursor?_of_client hi, hcl]; rfl
      exact calm_of_other ha step pose mine (Bool.eq_false_iff.mpr unstopped) open'

theorem Client.Tries.bounds {s : State α ρ} {cl : Client α ρ} {batch : List α}
    {d : List (Deed α)} (hc : cl.Tries batch d s) :
    d.countP Deed.isRound ≤ d.countP Deed.isStop + 1 ∧
      d.countP Deed.isSpawn ≤ d.countP Deed.isStop + 1 ∧
      d.countP Deed.isJoin ≤ d.countP Deed.isStop + 1 ∧
      d.countP Deed.isOwn ≤ 7 * (d.countP Deed.isStop + 1) + 2 := by
  obtain ⟨r, t, j, n, pace⟩ := hc.pace
  exact pace.bounds

theorem Walk.tries {h : Host α} {s u : State α ρ} {i : Nat} {batch : List α} {cl : Client α ρ}
    {acts : List (Act α ρ)} (walk : Walk h s acts u) (ha : Attainable h s)
    (requests : ∀ act ∈ acts, act.isRequestOf i = false) (hi : s.clients[i]? = some cl)
    (hc : cl.Tries batch [] s) :
    ∃ cl', u.clients[i]? = some cl' ∧ cl'.Tries batch (s.deeds h i acts) u :=
  walk.gather_keeps (P := fun w d => ∃ cl, w.clients[i]? = some cl ∧ cl.Tries batch d w) (l := [])
    ha (fun _ _ act _ ha step hm hp => by
      obtain ⟨cl, hi, hc⟩ := hp
      exact tries_step ha step (requests act hm) hi hc)
    ⟨cl, hi, hc⟩

theorem pushes_of_deed (h : Host α) (s : State α ρ) (c : Cursor α) :
    ((c.deed h s).push?.toList).flatMap Prod.fst = c.pushes := by
  cases c with
  | spawning load =>
      cases hr : (h.refusal s.attempts).isNone <;>
        simp [Cursor.deed, Deed.push?, Cursor.pushes, hr]
  | pushing batch => simp [Cursor.deed, Deed.push?, Cursor.pushes]
  | _ => rfl

theorem pushedBy_step {h : Host α} {s u : State α ρ} {act : Act α ρ} (step : Step h s act u)
    (i : Nat) : u.pushedBy (.client i) = s.pushedBy (.client i) ++
      ((s.deed? h i act).toList.filterMap Deed.push?).flatMap Prod.fst := by
  have quiet (other : act.agent? ≠ some (.client i)) :
      (s.deed? h i act).toList.filterMap Deed.push? = [] := by
    rw [State.deed?, if_neg other]
    split <;> rfl
  cases step with
  | client j c s' p client step =>
      have pushes := pushedBy_advances step (.client i)
      by_cases same : j = i
      · subst same
        rw [if_pos rfl, ← pushes_of_deed h s c] at pushes
        rw [State.deed?_of_client client, Option.toList_some]
        refine Eq.trans pushes ?_
        cases hp : (c.deed h s).push? <;> simp [hp]
      · rw [if_neg fun he => same (Agent.client.inj he)] at pushes
        rw [quiet fun he => same (Agent.client.inj (Option.some.inj he))]
        exact pushes
  | thread t th u thread step =>
      rw [quiet (by simp [Act.agent?]), pushedBy_works step]
      simp
  | place j f client =>
      have none : s.deed? h i (.client j) = none := by
        simp [State.deed?, State.isStop, Act.agent?, State.cursor?_of_client client, Client.cursor?]
        intro same
        subst same
        simp [State.cursor?_of_client client, Client.cursor?]
      rw [none]
      exact (List.append_nil _).symm
  | _ =>
      rw [quiet (by simp [Act.agent?])]
      exact (List.append_nil _).symm

end QueueWorker.Worker
