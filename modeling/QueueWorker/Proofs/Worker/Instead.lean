import QueueWorker.Proofs.Worker.Recast

namespace QueueWorker.Worker

variable {α ρ : Type}

/-- The system without its answer to one attempt to start a thread. -/
def Host.without (h : Host α) (n : Nat) : Host α :=
  { h with refusal := fun k => h.refusal (if k < n then k else k + 1) }

theorem Host.without_of_lt (h : Host α) {k n : Nat} (hk : k < n) :
    (h.without n).refusal k = h.refusal k :=
  congrArg h.refusal (if_pos hk)

theorem Host.without_of_le (h : Host α) {k n : Nat} (hk : n ≤ k) :
    (h.without n).refusal k = h.refusal (k + 1) :=
  congrArg h.refusal (if_neg (Nat.not_lt.mpr hk))

theorem Host.without_agrees {h : Host α} {s u : State α ρ} {act : Act α ρ} {n : Nat}
    (step : Step h s act u) (before : u.attempts ≤ n) :
    u.attempts = s.attempts ∨ (h.without n).refusal s.attempts = h.refusal s.attempts :=
  (attempts_step step).imp id fun ⟨_, _, _, _, more⟩ => h.without_of_lt (by omega)

theorem Attainable.without {h : Host α} {s : State α ρ} {n : Nat} (ha : Attainable h s)
    (before : s.attempts ≤ n) : Attainable (h.without n) s := by
  induction ha with
  | create settings callback clients => exact .create settings callback clients
  | next hs step apart ih =>
      have step := step_of_next step
      have still := step_under step (Host.without_agrees step before)
      exact (ih (Nat.le_trans (attempts_le_step step) before)).next (next_of_step still) apart

/-- A client that does no more than to start the worker and to join its thread. -/
def Act.IsTame (i : Nat) (act : Act α ρ) : Prop :=
  act = .client i ∨ act = .call i .start ∨ act = .call i .join

/-- Everybody else does the same in both rows of acts. In the second the client is tame. -/
structure Instead (i : Nat) (acts acts' : List (Act α ρ)) : Prop where
  others : acts'.filter (fun act => !act.isOf i) = acts.filter (fun act => !act.isOf i)
  own : ∀ act ∈ acts', act.isOf i = true → act.IsTame i

theorem Act.isOf_eq_false {i : Nat} {act : Act α ρ} (request : act.isRequestOf i = false)
    (other : act ≠ .client i) : act.isOf i = false := by
  cases act with
  | client j => exact decide_eq_false (fun same => other (congrArg Act.client same))
  | _ => exact request

theorem Act.IsTame.isOf {i : Nat} {act : Act α ρ} (tame : act.IsTame i) : act.isOf i = true := by
  rcases tame with rfl | rfl | rfl <;> exact decide_eq_true rfl

namespace Instead

variable {i : Nat} {act : Act α ρ} {acts acts' more more' burst : List (Act α ρ)}

theorem of_tame (tame : ∀ act ∈ burst, act.IsTame i) : Instead i [] burst := by
  refine ⟨?_, fun act ha _ => tame act ha⟩
  exact List.filter_eq_nil_iff.mpr fun act ha => by simp [(tame act ha).isOf]

theorem append (first : Instead i acts acts') (second : Instead i more more') :
    Instead i (acts ++ more) (acts' ++ more') := by
  refine ⟨by simp only [List.filter_append, first.others, second.others], fun act ha => ?_⟩
  rcases List.mem_append.mp ha with ha | ha
  · exact first.own act ha
  · exact second.own act ha

theorem other (he : act.isOf i = false) : Instead i [act] [act] := by
  refine ⟨rfl, fun b hb mine => ?_⟩
  rw [List.mem_singleton.mp hb, he] at mine
  cases mine

theorem skip (mine : act.isOf i = true) (rest : Instead i acts acts') :
    Instead i (act :: acts) acts' :=
  ⟨by simp [rest.others, mine], rest.own⟩

end Instead

def Cursor.seeks : Cursor α → Bool
  | .entering _ | .ensuring _ | .reclaiming .. | .spawning _ | .counting .. | .announcing ..
  | .adopting .. | .checking _ => true
  | _ => false

theorem seeks_advances {h : Host α} {s s' : State α ρ} {me : Agent} {c k : Cursor α}
    (step : Advances h s me c s' (.at k)) (past : c.seeks = false) : k.seeks = false := by
  generalize hp : Progress.at k = p at step
  cases step with
  | stopMissed q | marked q => cases q <;> cases hp <;> rfl
  | _ => cases hp <;> first | rfl | cases past

theorem Walk.not_seeks {h : Host α} {s u : State α ρ} {i : Nat} {acts : List (Act α ρ)}
    {p : Progress α} (walk : Walk h s acts u) (ha : Attainable h s)
    (requests : ∀ act ∈ acts, act.isRequestOf i = false) (hi : s.clients[i]? = some p.client)
    (past : ∀ c, p = .at c → c.seeks = false) {k : Cursor α}
    (now : u.clients[i]? = some (.calling k)) : k.seeks = false := by
  obtain ⟨cl, hcl, q, rfl, kept⟩ := walk.client
    (P := fun _ cl => ∃ q : Progress α, cl = q.client ∧ ∀ c, q = .at c → c.seeks = false)
    (fun v w act rest cl _ step request _ hi kept => by
      obtain ⟨q, rfl, kept⟩ := kept
      apply client_step step request hi (fun _ => ⟨q, rfl, kept⟩)
      · intro f hf
        cases q <;> cases hf
      · intro c s' p' hc advances _
        refine ⟨p', rfl, ?_⟩
        rintro c' rfl
        cases q <;> cases hc
        exact seeks_advances advances (kept c rfl))
    ha requests hi ⟨p, rfl, past⟩
  cases q <;> cases hcl.symm.trans now
  exact kept k rfl

/-- Where a client stands that is to be refused a thread later on, beside the tame one in its place,
by the phase and by what the system says to the next attempt. The tame client starts the worker
whenever it is to be given a thread, and when it is not it waits for the thread before. Otherwise it
is idle. -/
inductive Beside (phase : Phase) (answer : Option SystemError) : Cursor α → Client α ρ → Prop
  | entering (load last) : Beside phase answer (.entering load) (.idle last)
  | ensuring (load last) : Beside phase answer (.ensuring load) (.idle last)
  | checking (batch last) : Beside phase answer (.checking batch) (.idle last)
  | vacant (load last) (idle : phase = .idle) (refused : answer ≠ none) :
      Beside phase answer (.spawning load) (.idle last)
  | awaiting (load t) (refused : answer ≠ none) :
      Beside phase answer (.reclaiming load t) (.calling (.awaiting t))
  | settling (load r) (refused : answer ≠ none) :
      Beside phase answer (.spawning load) (.calling (.settling r))
  | reclaiming (load t) (granted : answer = none) :
      Beside phase answer (.reclaiming load t) (.calling (.reclaiming none t))
  | spawning (load) (granted : answer = none) :
      Beside phase answer (.spawning load) (.calling (.spawning none))
  | counting (load t) : Beside phase answer (.counting load t) (.calling (.counting none t))
  | announcing (load t) : Beside phase answer (.announcing load t) (.calling (.announcing none t))
  | adopting (load t) : Beside phase answer (.adopting load t) (.calling (.adopting none t))

def Cursor.givesUp : Cursor α → Bool
  | .abandoning .. => true
  | _ => false

def State.refusal? (h : Host α) (s : State α ρ) (act : Act α ρ) : Option SystemError :=
  match act.agent?.bind s.cursor? with
  | some (.spawning _) => h.refusal s.attempts
  | _ => none

/-- A run in which the client has every thread that it asks for. -/
inductive Served (h : Host α) (i : Nat) : State α ρ → List (Act α ρ) → State α ρ → Prop
  | refl (s : State α ρ) : Served h i s [] s
  | cons {s v u : State α ρ} {act : Act α ρ} {acts : List (Act α ρ)}
      (step : s.next? h act = some v) (apart : Apart v)
      (granted : act = .client i → s.refusal? h act = none) (rest : Served h i v acts u) :
      Served h i s (act :: acts) u

namespace Served

variable {h : Host α} {i : Nat} {s s' v u : State α ρ} {acts more : List (Act α ρ)}

theorem walk (hs : Served h i s acts u) : Walk h s acts u := by
  induction hs with
  | refl s => exact .refl s
  | cons step apart granted rest ih => exact .cons step apart ih

theorem trans (first : Served h i s acts v) (second : Served h i v more u) :
    Served h i s (acts ++ more) u := by
  induction first with
  | refl s => exact second
  | cons step apart granted rest ih => exact .cons step apart granted (ih second)

theorem of_eq (same : s = u) : Served h i s [] u := same ▸ .refl s

theorem own {c : Cursor α} {p : Progress α} (hi : s.clients[i]? = some (.calling c))
    (step : Advances h s (.client i) c s' p) (apart : Apart s')
    (granted : p.cursor?.any Cursor.givesUp = false)
    (rest : Served h i (s'.setClient i p.client) acts u) : Served h i s (.client i :: acts) u := by
  refine .cons (next_of_step (.client i c s' p hi step)) apart (fun _ => ?_) rest
  simp only [State.refusal?, Act.agent?, Option.bind_some, State.cursor?_of_client hi]
  cases step with
  | spawned load refusal => exact refusal
  | refused load e => cases granted
  | _ => rfl

end Served

namespace State

variable {h : Host α} {s : State α ρ} {i n : Nat} {cl : Client α ρ} {l : List (Entry α ρ)}

theorem clients_recast_self {old : Client α ρ} (hi : s.clients[i]? = some old) :
    (s.recast i cl n l).clients[i]? = some cl :=
  List.getElem?_set_self (List.getElem?_eq_some_iff.mp hi).1

theorem recast_setClient (cl' : Client α ρ) :
    (s.setClient i cl').recast i cl n l = s.recast i cl n l := by
  simp [recast, veiled, setClient]

theorem setClient_recast {cl' : Client α ρ} (alike : cl'.isIdle = cl.isIdle) :
    (s.recast i cl n l).setClient i cl' = s.recast i cl' n l := by
  simp [recast, veiled, setClient, Client.lock, alike]

end State

/-- The tame client and everybody else get along with each other during the acts. Before them and
behind them the system has seen so many attempts of the tame one's worker. For a step of the client
in whose place it is there is no act. -/
def Covers (g : Host α) (i : Nat) (acts : List (Act α ρ)) (n n' : Nat) (s s' : State α ρ)
    (cl cl' : Client α ρ) : Prop :=
  ∀ l, ∃ acts' l', Instead i acts acts' ∧
    Served g i (s.recast i cl n l) acts' (s'.recast i cl' n' l')

namespace Covers

variable {g : Host α} {i n m n' : Nat} {acts more : List (Act α ρ)} {act : Act α ρ}
  {s v s' : State α ρ} {c k : Cursor α} {old cl cl' cl'' : Client α ρ}

theorem rest (same : ∀ l, s.recast i cl n l = s'.recast i cl n' l) :
    Covers g i [] n n' s s' cl cl :=
  fun l => ⟨[], l, .of_tame (by simp), .of_eq (same l)⟩

theorem trans (first : Covers g i acts n m s v cl cl')
    (second : Covers g i more m n' v s' cl' cl'') :
    Covers g i (acts ++ more) n n' s s' cl cl'' := by
  intro l
  obtain ⟨acts', l', instead, walk⟩ := first l
  obtain ⟨more', l'', instead', walk'⟩ := second l'
  exact ⟨acts' ++ more', l'', instead.append instead', walk.trans walk'⟩

theorem skip (mine : act.isOf i = true) (rest : Covers g i acts n n' s s' cl cl') :
    Covers g i (act :: acts) n n' s s' cl cl' := by
  intro l
  obtain ⟨acts', l', instead, walk⟩ := rest l
  exact ⟨acts', l', instead.skip mine, walk⟩

theorem of_setClient {x : Client α ρ} (rest : Covers g i acts n n' (s.setClient i x) s' cl cl') :
    Covers g i acts n n' s s' cl cl' := by
  intro l
  rw [← State.recast_setClient x]
  exact rest l

theorem step (hi : s.clients[i]? = some old) (apart : Apart s')
    (granted : k.givesUp = false)
    (step : ∀ l, ∃ l', Advances g (s.recast i (.calling c) n l) (.client i) c
      (s'.recast i (.calling c) n' l') (.at k)) :
    Covers g i [] n n' s s' (.calling c) (.calling k) := by
  intro l
  obtain ⟨l', step⟩ := step l
  refine ⟨[.client i], l', .of_tame (by simp [Act.IsTame]), ?_⟩
  exact .own (State.clients_recast_self hi) step apart granted (.of_eq (State.setClient_recast rfl))

theorem enters {last : Option Reply} (b : Call α) (hi : s.clients[i]? = some old) (apart : Apart s)
    (shared : s.owner = .shared) (mine : s.lifecycle = some (.client i))
    (tame : (.call i b : Act α ρ).IsTame i) (first : ∀ x : State α ρ, b.begin x = .at c)
    (granted : k.givesUp = false) (enter : ∀ x : State α ρ, x.lifecycle = none →
      Advances g x (.client i) c { x with lifecycle := some (.client i) } (.at k)) :
    Covers g i [] n n s s (.idle last) (.calling k) := by
  intro l
  have free : (s.recast i (.idle last) n l).lifecycle = none := by
    simp [State.recast, State.veiled, Client.lock, Client.isIdle, mine]
  have client : (s.recast i (.idle last) n l).clients[i]? = some (.idle last) :=
    State.clients_recast_self hi
  refine ⟨[.call i b, .client i], l, .of_tame ?_, ?_⟩
  · simpa [Act.IsTame] using tame
  · have calls : (s.recast i (.idle last) n l).next? g (.call i b) =
        some ((s.recast i (.idle last) n l).setClient i (.calling c)) := by
      refine next_of_step (.call i b c ?_ ?_ (first _))
      · simp only [State.isFree, client]
        simp [State.recast, State.veiled, shared, Client.isIdle]
      · rintro rfl
        simp [Act.IsTame] at tame
    refine .cons calls apart (fun _ => rfl)
      (.own (State.clients_setClient client _) (enter _ free) apart granted (.of_eq ?_))
    simp [State.recast, State.veiled, State.setClient, Client.lock, Client.isIdle, Progress.client,
      mine]

theorem leaves {r : Reply} (hi : s.clients[i]? = some old) (apart : Apart s)
    (mine : s.lifecycle = some (.client i)) :
    Covers g i [] n n s s (.calling (.leaving none r)) (.idle (some r)) := by
  intro l
  refine ⟨[.client i], l, .of_tame (by simp [Act.IsTame]), ?_⟩
  refine .own (State.clients_recast_self hi) (.left none r) apart rfl (.of_eq ?_)
  simp [State.recast, State.veiled, State.setClient, State.discard, Client.lock, Client.isIdle,
    Progress.client, mine]

/-- Somebody else's act is an act next to the tame client as well. -/
theorem other {h : Host α} {r : Nat → Option SystemError} (step : Step h s act s')
    (apart : Apart s') (other : act.isOf i = false) (quiet : s.isQuiet = true → cl.isIdle = true)
    (agree : s'.attempts = s.attempts ∨ r n = h.refusal s.attempts)
    (count : n' + s.attempts = n + s'.attempts) :
    Covers { h with refusal := r } i [act] n n' s s' cl cl := by
  intro l
  obtain ⟨m, l', step', count'⟩ := step_recast step other quiet agree l
  obtain rfl : m = n' := Nat.add_right_cancel (count'.trans count.symm)
  refine ⟨[act], l', .other other, .cons (next_of_step step') apart ?_ (.refl _)⟩
  rintro rfl
  cases decide_eq_false_iff_not.mp other rfl

end Covers

/-- Whatever the client does on its way to the thread, the tame one has something to do for it. -/
theorem Beside.own {g h : Host α} {i : Nat} {s s' : State α ρ} {c k : Cursor α} {cl : Client α ρ}
    (beside : Beside s.phase (h.refusal s.attempts) c cl) (ha : Attainable h s)
    (hi : s.clients[i]? = some (.calling c)) (step : Advances h s (.client i) c s' (.at k))
    (seeks : k.seeks = true) (apart : Apart s')
    (agree : s'.attempts = s.attempts ∨ g.refusal s.attempts = h.refusal s.attempts) :
    ∃ cl', Beside s'.phase (h.refusal s'.attempts) k cl' ∧
      Covers g i [] s.attempts s'.attempts s s' cl cl' := by
  have hc := State.cursor?_of_client hi
  have holds (holds : c.holdsLifecycle = true) : s.lifecycle = some (.client i) :=
    (ha.locked.lifecycle (.client i)).mpr (by rw [hc]; exact holds)
  cases beside with
  | entering load last =>
      cases step with
      | enter load free =>
          refine ⟨_, .ensuring load last, .rest fun l => ?_⟩
          simp [State.recast, State.veiled, Client.lock, Client.isIdle, free]
  | ensuring load last =>
      have mine := holds rfl
      have shared := ha.locked.owner _ _ hc
      have starts : Covers g i [] s.attempts s.attempts s s (.idle last)
          (.calling (.ensuring none)) :=
        .enters .start hi ha.apart shared mine (.inr (.inl rfl)) (fun _ => rfl) rfl
          fun _ => .enter none
      have joins : Covers g i [] s.attempts s.attempts s s (.idle last)
          (.calling (.stopping .join)) :=
        .enters .join hi ha.apart shared mine (.inr (.inr rfl)) (fun _ => rfl) rfl
          fun _ => .enterJoin
      cases step with
      | ready t open' phase => cases seeks
      | loaded t batch open' phase => exact ⟨_, .checking batch last, .rest fun l => rfl⟩
      | reclaim load t open' phase =>
          cases answer : h.refusal s.attempts with
          | none =>
              exact ⟨_, .reclaiming load t rfl,
                starts.trans (.step hi apart rfl fun l => ⟨_, .reclaim none t open' phase⟩)⟩
          | some e =>
              have moved (t' : Nat) : s.phase ≠ .running t' := by
                rw [phase]
                exact Phase.noConfusion
              have stops : Covers g i [] s.attempts s.attempts s s (.calling (.stopping .join))
                  (.calling .taking) :=
                .step hi ha.apart rfl fun l => ⟨_, .stopMissed .join open' moved⟩
              exact ⟨_, .awaiting load t (Option.some_ne_none e), (joins.trans stops).trans
                (.step hi apart rfl fun l => ⟨_, .taken t open' phase⟩)⟩
      | vacate load open' phase =>
          cases answer : h.refusal s.attempts with
          | none =>
              exact ⟨_, .spawning load rfl,
                starts.trans (.step hi apart rfl fun l => ⟨_, .vacate none open' phase⟩)⟩
          | some e =>
              have idle := phase.resolve_right (State.fits_not_joining (ha.fits hc rfl))
              refine ⟨_, .vacant load last rfl (Option.some_ne_none e), .rest fun l => ?_⟩
              simp only [State.recast, State.veiled, idle]
  | checking batch last =>
      cases step with
      | found batch t open' phase => cases seeks
      | missed batch open' phase => exact ⟨_, .ensuring _ last, .rest fun l => rfl⟩
  | vacant load last idle refused =>
      cases step with
      | refused load e refusal => cases seeks
      | spawned load granted => exact absurd granted refused
  | awaiting load t refused =>
      cases step with
      | reclaimed load t other ended =>
          exact ⟨_, .settling load .done refused,
            .step hi apart rfl fun l => ⟨_, .awaited t other ended⟩⟩
      | reclaimedDead load t p other ended =>
          exact ⟨_, .settling load (.failed (s.joinFault p)) refused,
            .step hi apart rfl fun l => ⟨l, .awaitedDead t p other ended⟩⟩
  | settling load r refused =>
      cases step with
      | refused load e refusal => cases seeks
      | spawned load granted => exact absurd granted refused
  | reclaiming load t granted =>
      cases step with
      | reclaimed load t other ended =>
          exact ⟨_, .spawning load granted,
            .step hi apart rfl fun l => ⟨_, .reclaimed none t other ended⟩⟩
      | reclaimedDead load t p other ended =>
          exact ⟨_, .spawning load granted,
            .step hi apart rfl fun l => ⟨_, .reclaimedDead none t p other ended⟩⟩
  | spawning load granted =>
      cases step with
      | refused load e refusal => cases seeks
      | spawned load granted' =>
          have same := agree.resolve_left (Nat.succ_ne_self _)
          exact ⟨_, .counting load _,
            .step hi apart rfl fun l => ⟨_, .spawned none (same.trans granted)⟩⟩
  | counting load t =>
      cases step with
      | counted load t =>
          exact ⟨_, .announcing load t, .step hi apart rfl fun l => ⟨_, .counted none t⟩⟩
  | announcing load t =>
      cases step with
      | announced load t th thread =>
          exact ⟨_, .adopting load t, .step hi apart rfl fun l => ⟨_, .announced none t th thread⟩⟩
  | adopting load t =>
      cases step with
      | adopted t open' => cases seeks
      | adoptedLoaded t batch open' =>
          have adopts : Covers g i [] s.attempts s.attempts s { s with phase := .running t }
              (.calling (.adopting none t)) (.calling (.leaving none .done)) :=
            .step hi apart rfl fun l => ⟨_, .adopted t open'⟩
          exact ⟨_, .checking batch (some .done), adopts.trans (.leaves hi apart (holds rfl))⟩

theorem Beside.of_other {h : Host α} {s u : State α ρ} {act : Act α ρ} {i : Nat} {c : Cursor α}
    {cl : Client α ρ} (beside : Beside s.phase (h.refusal s.attempts) c cl) (ha : Attainable h s)
    (step : Step h s act u) (hi : s.clients[i]? = some (.calling c)) (other : act ≠ .client i) :
    Beside u.phase (h.refusal u.attempts) c cl := by
  have attempts {q : Pose} (hq : c.pose? = some q) : u.attempts = s.attempts :=
    attempts_of_other ha step (by rw [State.pose?, State.cursor?_of_client hi]; exact hq) other
  cases beside with
  | vacant load last idle refused =>
      obtain ⟨j, x, rfl | ⟨f, -, rfl⟩⟩ := step_of_vacant ha step hi rfl other <;>
        exact .vacant load last idle refused
  | awaiting load t refused => rw [attempts rfl]; exact .awaiting load t refused
  | settling load r refused => rw [attempts rfl]; exact .settling load r refused
  | reclaiming load t granted => rw [attempts rfl]; exact .reclaiming load t granted
  | spawning load granted => rw [attempts rfl]; exact .spawning load granted
  | _ => constructor

/-- Where a client stands that has been refused a thread, beside the tame one. -/
inductive Undone (phase : Phase) : Client α ρ → Client α ρ → Prop
  | vacant (load f last) (idle : phase = .idle) :
      Undone phase (.calling (.abandoning load f)) (.idle last)
  | settling (load f r) : Undone phase (.calling (.abandoning load f)) (.calling (.settling r))
  | leaving (load r last) : Undone phase (.calling (.leaving load r)) (.idle last)
  | idle (r last) : Undone phase (.idle (some r)) (.idle last)

theorem Beside.undone {phase : Phase} {answer : Option SystemError} {load : Option (List α)}
    {cl : Client α ρ} (beside : Beside phase answer (.spawning load) cl) (refused : answer ≠ none)
    (f : Fault) : Undone phase (.calling (.abandoning load f)) cl := by
  cases beside with
  | vacant load last idle => exact .vacant load f last idle
  | settling load r => exact .settling load f r
  | spawning load granted => exact absurd granted refused

namespace Undone

variable {g h : Host α} {i n : Nat} {s u : State α ρ} {cl cl' : Client α ρ}

theorem own {c : Cursor α} {p : Progress α} (undone : Undone s.phase (.calling c) cl)
    (ha : Attainable h s) (hi : s.clients[i]? = some (.calling c))
    (step : Advances h s (.client i) c u p) :
    ∃ cl', Undone u.phase p.client cl' ∧ Covers g i [] n n s u cl cl' := by
  have apart := ha.apart
  have mine (holds : c.holdsLifecycle = true) : s.lifecycle = some (.client i) :=
    (ha.locked.lifecycle (.client i)).mpr (by rw [State.cursor?_of_client hi]; exact holds)
  cases undone with
  | vacant load f last idle =>
      cases step with
      | abandoned load f open' =>
          refine ⟨_, .leaving load _ last, .rest fun l => ?_⟩
          simp only [State.recast, State.veiled, idle]
  | settling load f r =>
      cases step with
      | abandoned load f open' =>
          have settles : Covers g i [] n n s { s with phase := .idle } (.calling (.settling r))
              (.calling (.leaving none r)) :=
            .step hi apart rfl fun l => ⟨_, .settled r open'⟩
          exact ⟨_, .leaving load _ (some r), settles.trans (.leaves hi apart (mine rfl))⟩
  | leaving load r last =>
      cases step with
      | left load r =>
          refine ⟨_, .idle r last, .rest fun l => ?_⟩
          simp [State.recast, State.veiled, State.discard, Client.lock, Client.isIdle, mine rfl]

theorem of_other {act : Act α ρ} (undone : Undone s.phase cl cl') (ha : Attainable h s)
    (step : Step h s act u) (hi : s.clients[i]? = some cl) (other : act ≠ .client i) :
    Undone u.phase cl cl' := by
  cases undone with
  | vacant load f last idle =>
      obtain ⟨j, x, rfl | ⟨f, -, rfl⟩⟩ := step_of_vacant ha step hi rfl other <;>
        exact .vacant load _ last idle
  | _ => constructor

end Undone

theorem Attainable.recast_self {h : Host α} {s : State α ρ} {i : Nat} {last : Option Reply}
    (ha : Attainable h s) (hi : s.clients[i]? = some (.idle last)) (n : Nat)
    (l : List (Entry α ρ)) :
    s.recast i (.idle last) n l = { s with attempts := n, trace := l } := by
  obtain ⟨hlt, here⟩ := List.getElem?_eq_some_iff.mp hi
  have notMine : s.lifecycle ≠ some (.client i) := fun mine => by
    have := (ha.locked.lifecycle (.client i)).mp mine
    rw [State.cursor?, hi] at this
    cases this
  simp only [State.recast, State.veiled, Client.lock, notMine, and_false, if_false]
  rw [← here, List.set_getElem_self]

namespace Walk

variable {h : Host α} {i : Nat} {s v u : State α ρ} {acts : List (Act α ρ)}

theorem beside {c : Cursor α} {cl : Client α ρ} {load : Option (List α)} (walk : Walk h s acts v)
    (ha : Attainable h s) (requests : ∀ act ∈ acts, act.isRequestOf i = false)
    (hi : s.clients[i]? = some (.calling c))
    (place : Beside s.phase (h.refusal s.attempts) c cl)
    (attempt : v.clients[i]? = some (.calling (.spawning load))) :
    ∃ cl', Covers (h.without v.attempts) i acts s.attempts v.attempts s v cl cl' ∧
      Beside v.phase (h.refusal v.attempts) (.spawning load) cl' := by
  induction walk generalizing c cl with
  | refl s =>
      cases hi.symm.trans attempt
      exact ⟨cl, .rest fun l => rfl, place⟩
  | @cons s w v act acts step apart rest ih =>
      have hw := ha.next step apart
      have requests' (b) (hb : b ∈ acts) : b.isRequestOf i = false :=
        requests b (List.mem_cons_of_mem act hb)
      have agrees := Host.without_agrees (step_of_next step) rest.attempts_le
      by_cases mine : act = .client i
      · subst mine
        obtain ⟨s', p, advances, rfl, now⟩ := own_step hi step
        obtain ⟨k, rfl, seeks⟩ : ∃ k, p = .at k ∧ k.seeks = true := by
          by_contra past
          have lost (k) (hk : p = .at k) : k.seeks = false :=
            Bool.eq_false_iff.mpr fun seeks => past ⟨k, hk, seeks⟩
          cases rest.not_seeks hw requests' now lost attempt
        obtain ⟨cl', place', covers⟩ := place.own ha hi advances seeks apart agrees
        obtain ⟨cl'', covers', there⟩ := ih hw requests' now place' attempt
        exact ⟨cl'', (covers.trans covers'.of_setClient).skip (decide_eq_true rfl), there⟩
      · have request := requests act List.mem_cons_self
        have same := clients_step_ne (step_of_next step) request (fun j hj he => mine (he ▸ hj))
        have busy : s.isQuiet = true → cl.isIdle = true := fun quiet => by
          cases (State.cursor?_of_isQuiet quiet _).symm.trans (State.cursor?_of_client hi)
        obtain ⟨cl', covers, there⟩ := ih hw requests' (same.trans hi)
          (place.of_other ha (step_of_next step) hi mine) attempt
        have goes := Covers.other (step_of_next step) apart (Act.isOf_eq_false request mine) busy
          agrees (Nat.add_comm _ _)
        exact ⟨cl', goes.trans covers, there⟩

theorem undone {n m : Nat} {cl cl' : Client α ρ} {r : Reply} (walk : Walk h s acts u)
    (ha : Attainable h s) (requests : ∀ act ∈ acts, act.isRequestOf i = false)
    (hi : s.clients[i]? = some cl) (place : Undone s.phase cl cl') (behind : n ≤ m)
    (attempts : s.attempts = m + 1) (idle : u.clients[i]? = some (.idle r)) :
    ∃ m' last, Covers (h.without n) i acts m m' s u cl' (.idle last) ∧ u.attempts = m' + 1 := by
  induction walk generalizing cl cl' m with
  | refl s =>
      cases place with
      | idle r last => exact ⟨m, last, .rest fun l => rfl, attempts⟩
      | _ => cases hi.symm.trans idle
  | @cons s w v act acts step apart rest ih =>
      have hw := ha.next step apart
      have requests' (b) (hb : b ∈ acts) : b.isRequestOf i = false :=
        requests b (List.mem_cons_of_mem act hb)
      by_cases mine : act = .client i
      · subst mine
        cases cl with
        | idle last =>
            cases step_of_next step with
            | client j c s' p client | place j f client => cases hi.symm.trans client
        | registering f => cases place
        | calling c =>
            obtain ⟨s', p, advances, rfl, now⟩ := own_step hi step
            obtain ⟨cl'', place', covers⟩ := place.own ha hi advances
            have same : s'.attempts = s.attempts := by
              cases place <;> cases advances <;> rfl
            obtain ⟨m', last, covers', count⟩ :=
              ih hw requests' now place' behind (same.trans attempts) idle
            exact ⟨m', last, (covers.trans covers'.of_setClient).skip (decide_eq_true rfl), count⟩
      · have request := requests act List.mem_cons_self
        have same := clients_step_ne (step_of_next step) request (fun j hj he => mine (he ▸ hj))
        have busy : s.isQuiet = true → cl'.isIdle = true := fun quiet => by
          have nobody := State.cursor?_of_isQuiet quiet (.client i)
          rw [State.cursor?_of_client hi] at nobody
          cases place with
          | idle => rfl
          | _ => cases nobody
        have agrees : (h.without n).refusal m = h.refusal s.attempts := by
          rw [h.without_of_le behind, attempts]
        -- The tame client's worker has seen one attempt less than the other one, all the way.
        have grows := attempts_le_step (step_of_next step)
        obtain ⟨m', attempts'⟩ : ∃ m', w.attempts = m' + 1 :=
          Nat.exists_eq_add_one_of_ne_zero (by omega)
        have behind' : n ≤ m' := by omega
        obtain ⟨m'', last, covers, count⟩ := ih hw requests' (same.trans hi)
          (place.of_other ha (step_of_next step) hi mine) behind' attempts' idle
        have goes : Covers (h.without n) i [act] m m' s w cl' cl' :=
          .other (step_of_next step) apart (Act.isOf_eq_false request mine) busy (.inr agrees)
            (by omega)
        exact ⟨m'', last, goes.trans covers, count⟩

theorem opens {b : Call α} {load : Option (List α)} (walk : Walk h s (.call i b :: acts) v)
    (ha : Attainable h s) (requests : ∀ act ∈ acts, act.isRequestOf i = false)
    (attempt : v.clients[i]? = some (.calling (.spawning load))) :
    ∃ last load', s.clients[i]? = some (.idle last) ∧
      Attainable h (s.setClient i (.calling (.entering load'))) ∧
      Walk h (s.setClient i (.calling (.entering load'))) acts v := by
  cases walk with
  | @cons s x v act acts step apart rest =>
      have hx := ha.next step apart
      have late (p : Progress α) (now : x.clients[i]? = some p.client)
          (lost : ∀ k, p = .at k → k.seeks = false) : False := by
        cases rest.not_seeks hx requests now lost attempt
      cases step_of_next step with
      | call i b k free other begins =>
          obtain ⟨last, client⟩ := State.idle_of_isFree free
          have now := State.clients_setClient client (.calling k)
          cases b with
          | start | send | sendAll => cases begins; exact ⟨last, _, client, hx, rest⟩
          | _ => cases begins <;> exact (late (.at _) now (by rintro k ⟨⟩; rfl)).elim
      | answer i b r free other begins =>
          obtain ⟨last, client⟩ := State.idle_of_isFree free
          exact (late (.answer r) (State.clients_setClient client _) nofun).elim
      | drop i free quiet =>
          obtain ⟨last, client⟩ := State.idle_of_isFree free
          have now := State.clients_setClient client (.calling (.stopping .drop))
          exact (late (.at _) now (by rintro k ⟨⟩; rfl)).elim

theorem refuses {load : Option (List α)} (walk : Walk h s (.client i :: acts) u)
    (ha : Attainable h s) (attempt : s.clients[i]? = some (.calling (.spawning load)))
    (refused : h.refusal s.attempts ≠ none) :
    ∃ v f, v = { s with attempts := s.attempts + 1 }.setClient i (.calling (.abandoning load f)) ∧
      Attainable h v ∧ Walk h v acts u := by
  cases walk with
  | @cons s v u act acts step apart rest =>
      obtain ⟨s', p, advances, rfl, -⟩ := own_step attempt step
      cases advances with
      | refused load e refusal => exact ⟨_, _, rfl, ha.next step apart, rest⟩
      | spawned load granted => exact absurd granted refused

end Walk

/-- The worker as it would be without an attempt of the client's that failed: it is reached with
the same acts of everybody else, and is the same but for the client's last answer and the past. -/
structure Spared (h : Host α) (n i : Nat) (r : Reply) (s : State α ρ) (acts : List (Act α ρ))
    (u : State α ρ) (acts' : List (Act α ρ)) (u' : State α ρ) : Prop where
  attainable : Attainable (h.without n) s
  path : Served (h.without n) i s acts' u'
  instead : Instead i acts acts'
  attempts : u.attempts = u'.attempts + 1
  behind : n ≤ u'.attempts
  idle : ∃ last, u'.clients[i]? = some (.idle last)
  same : u'.setClient i (.idle (some r)) = { u with attempts := u'.attempts, trace := u'.trace }

/-- A call that is refused a thread could as well have been left out, but for what it has done
before: the threads that it was given, and the wait for the last one. -/
theorem Walk.spared {h : Host α} {i : Nat} {s v u : State α ρ} {b : Call α} {r : Reply}
    {load : Option (List α)} {acts more : List (Act α ρ)}
    (first : Walk h s (.call i b :: acts) v) (second : Walk h v (.client i :: more) u)
    (ha : Attainable h s) (requests : ∀ act ∈ acts ++ more, act.isRequestOf i = false)
    (attempt : v.clients[i]? = some (.calling (.spawning load)))
    (refused : h.refusal v.attempts ≠ none) (idle : u.clients[i]? = some (.idle (some r))) :
    ∃ acts' u', Spared h v.attempts i r s (.call i b :: (acts ++ .client i :: more)) u
      acts' u' := by
  have hv := first.attainable ha
  have hu := second.attainable hv
  have requests₁ (act) (hm : act ∈ acts) := requests act (List.mem_append_left _ hm)
  have requests₂ (act) (hm : act ∈ more) := requests act (List.mem_append_right _ hm)
  have before := first.attempts_le
  obtain ⟨last, load', client, hs, rest⟩ := first.opens ha requests₁ attempt
  obtain ⟨cl, first', place⟩ := rest.beside hs requests₁ (State.clients_setClient client _)
    (.entering load' last) attempt
  -- The attempt itself shows nowhere but in the number of attempts.
  obtain ⟨y, f, rfl, hy, rest'⟩ := second.refuses hv attempt refused
  obtain ⟨n, last', second', count⟩ := rest'.undone hy requests₂
    (State.clients_setClient attempt _) (place.undone refused f) (Nat.le_refl _) rfl idle
  have calls : (Act.call i b : Act α ρ).isOf i = true := decide_eq_true rfl
  have tries : (Act.client i : Act α ρ).isOf i = true := decide_eq_true rfl
  obtain ⟨acts', l', instead, path⟩ :=
    ((first'.of_setClient.trans (second'.of_setClient.skip tries)).skip calls) s.trace
  have start : s.recast i (.idle last) s.attempts s.trace = s := ha.recast_self client _ _
  refine ⟨acts', u.recast i (.idle last') n l', ha.without before, start ▸ path, instead, count,
    ?_, ?_, ?_⟩
  · exact Nat.le_of_succ_le_succ (Nat.le_trans rest'.attempts_le (Nat.le_of_eq count))
  · exact ⟨last', State.clients_recast_self idle⟩
  · refine Eq.trans ?_ (hu.recast_self idle n l')
    exact State.setClient_recast rfl

/-- The same can happen next to both workers, each in its own system, and in the same way. They
differ in nothing but what has been before. -/
def SameFuture (h : Host α) (u : State α ρ) (g : Host α) (v : State α ρ) : Prop :=
  ∀ later, ∃ z : Option (State α ρ), u.run? h later = z.map (State.aged u.attempts u.trace) ∧
    v.run? g later = z.map (State.aged v.attempts v.trace)

theorem SameFuture.of_forgotten {h g : Host α} {u v : State α ρ} (same : v.forgotten = u.forgotten)
    (system : g.since v.attempts = h.since u.attempts) : SameFuture h u g v := by
  intro later
  refine ⟨u.forgotten.run? (h.since u.attempts) later, u.run?_forgotten h later, ?_⟩
  rw [v.run?_forgotten, same, system]

theorem Spared.sameFuture {h : Host α} {n i : Nat} {r : Reply} {s u u' : State α ρ}
    {acts acts' : List (Act α ρ)} (hs : Spared h n i r s acts u acts' u') :
    SameFuture h u (h.without n) (u'.setClient i (.idle (some r))) := by
  apply SameFuture.of_forgotten
  · rw [hs.same]
    rfl
  · have answers (k : Nat) :
        (h.without n).refusal (u'.attempts + k) = h.refusal (u.attempts + k) := by
      rw [h.without_of_le (Nat.le_add_right_of_le hs.behind), hs.attempts, Nat.add_right_comm]
    simp only [Host.since, State.setClient, answers]
    rfl

end QueueWorker.Worker
