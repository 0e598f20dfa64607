import QueueWorker.Proofs.Worker.Delivery

namespace QueueWorker.Worker

variable {α ρ : Type}

def Stage.isDead : Stage α ρ → Bool
  | .dead _ => true
  | _ => false

namespace State

/-- How many threads have been unwound. -/
def deaths (s : State α ρ) : Nat := s.threads.countP (fun th => th.stage.isDead)

variable {s : State α ρ} {t : Nat}

theorem deaths_eq (s : State α ρ) : s.deaths = s.grades.count .dead := by
  rw [deaths, grades, List.count, List.countP_map]
  congr 1
  funext th
  cases hst : th.stage <;> simp [hst, Stage.isDead, Stage.grade]

theorem isUnhurt_iff : s.IsUnhurt ↔ s.deaths = 0 := by
  constructor
  · intro h
    rw [deaths_eq]
    exact dead_of_isUnhurt h
  · intro h t p ht
    obtain ⟨th, hth, he⟩ := Option.bind_eq_some_iff.mp ht
    have hd := List.countP_eq_zero.mp h th (List.mem_of_getElem? hth)
    cases hst : th.stage <;> simp_all [Stage.end?, Stage.isDead]

end State

theorem end?_step {h : Host α} {s u : State α ρ} {act : Act α ρ} {t : Nat}
    {e : Option Payload} (step : Step h s act u) (he : s.end? t = some e) : u.end? t = some e := by
  obtain ⟨th, ht, hst⟩ := Option.bind_eq_some_iff.mp he
  obtain ⟨th', ht', hst'⟩ := stage_step (P := fun st => st.end? = some e) step ht hst
    (by simp [Stage.end?]) (by simp [Stage.end?]) (by simp [Stage.end?]) (fun hw => by
      have alive := running_of_works hw
      rw [Stage.hasEnded_grade, hst] at alive
      cases alive)
  simp [State.end?, ht', hst']

theorem hasMetStop_step {h : Host α} {s u : State α ρ} {act : Act α ρ} {t : Nat}
    (step : Step h s act u) (hm : s.HasMetStop t) : u.HasMetStop t := by
  obtain ⟨th, ht, hst⟩ := hm
  refine stage_step (P := fun st => st.hasMetStop = true) step ht hst
    (by simp [Stage.hasMetStop]) (by simp [Stage.hasMetStop]) (by simp [Stage.hasMetStop]) ?_
  intro hw
  cases hw with
  | exit stage =>
      exact ⟨{ th with stage := .exited }, by simp [State.setStage, State.log, State.note, ht], rfl⟩
  | _ => simp_all [Stage.hasMetStop]

/-- All that has been pushed beyond some items is still queued, behind a marker or behind a thread
that takes nothing more. -/
def Stuck (old : List α) (t : Nat) (s : State α ρ) : Prop :=
  ∃ front rest, s.queue = front ++ rest ∧ s.pushed = old ++ rest.filterMap Message.item? ∧
    (.stop ∈ front ∨ s.HasMetStop t)

theorem queue_advances {h : Host α} {s s' : State α ρ} {me : Agent} {c : Cursor α}
    {p : Progress α} (step : Advances h s me c s' p) (here : s'.owner ≠ .gone) :
    ∃ ms, s'.queue = s.queue ++ ms ∧ s'.pushed = s.pushed ++ ms.filterMap Message.item? := by
  cases step with
  | pushed batch =>
      refine ⟨batch.map .item, by simp [State.push_eq, State.note], ?_⟩
      simp [State.push_eq, State.pushed, State.note, List.filterMap_map, Function.comp_def,
        Message.item?]
  | marked p t =>
      refine ⟨[.stop], by simp [State.push_eq], ?_⟩
      simp [State.push_eq, State.pushed, Message.item?]
  | swept | sweptEarly | outliveSelf => exact absurd rfl here
  | _ =>
      refine ⟨[], (List.append_nil _).symm, ?_⟩
      simp [State.pushed, State.log, State.note, State.discard, State.joinSelf]

namespace Stuck

variable {h : Host α} {s u : State α ρ} {old : List α} {t : Nat}

theorem grow (hs : Stuck old t s) (ms : List (Message α)) (queue : u.queue = s.queue ++ ms)
    (pushed : u.pushed = s.pushed ++ ms.filterMap Message.item?)
    (met : s.HasMetStop t → u.HasMetStop t) : Stuck old t u := by
  obtain ⟨front, rest, hq, hp, hm⟩ := hs
  refine ⟨front, rest ++ ms, by rw [queue, hq, List.append_assoc], ?_, hm.imp_right met⟩
  rw [pushed, hp, List.filterMap_append, List.append_assoc]

theorem same (hs : Stuck old t s) (queue : u.queue = s.queue) (pushed : u.pushed = s.pushed)
    (met : s.HasMetStop t → u.HasMetStop t) : Stuck old t u :=
  hs.grow [] (by simpa using queue) (by simpa using pushed) met

theorem take (hs : Stuck old t s) {m : Message α} {ms : List (Message α)} (unmet : ¬ s.HasMetStop t)
    (hq : s.queue = m :: ms) (queue : u.queue = ms) (pushed : u.pushed = s.pushed)
    (met : m = .stop → u.HasMetStop t) : Stuck old t u := by
  obtain ⟨front, rest, hq', hp, hm⟩ := hs
  have stop : .stop ∈ front := hm.resolve_right unmet
  cases front with
  | nil => cases stop
  | cons m' front =>
      rw [hq] at hq'
      obtain ⟨rfl, rfl⟩ := List.cons.inj hq'
      refine ⟨front, rest, queue, pushed.trans hp, ?_⟩
      rcases List.mem_cons.mp stop with rfl | stop
      · exact .inr (met rfl)
      · exact .inl stop

theorem works (hs : Stuck old t s) {th : Thread α ρ} (ht : s.threads[t]? = some th)
    (here : u.owner ≠ .gone) (met : s.HasMetStop t → u.HasMetStop t) (hw : Works h s t th u) :
    Stuck old t u := by
  have unmet (hst : th.stage.hasMetStop = false) : ¬ s.HasMetStop t := by
    rintro ⟨th', ht', hm⟩
    rw [Option.some.inj (ht'.symm.trans ht), hst] at hm; cases hm
  cases hw with
  | fetch a ms stage queue =>
      exact hs.take (unmet (by rw [stage]; rfl)) queue rfl rfl (fun he => by cases he)
  | halt ms stage queue =>
      refine hs.take (unmet (by rw [stage]; rfl)) queue rfl rfl (fun _ => ?_)
      exact ⟨{ th with stage := .exiting }, by simp [State.setStage, ht], rfl⟩
  | call a replies c rest s' p stage step =>
      have here' : s'.owner ≠ .gone := by cases p <;> exact here
      obtain ⟨ms, queue, pushed⟩ := queue_advances step here'
      cases p <;> exact hs.grow ms queue pushed met
  | _ =>
      refine hs.same rfl ?_ met
      simp [State.pushed, State.setStage, State.conclude, State.letGo, State.count, State.log,
        State.note, State.discard, State.clock]

theorem step {act : Act α ρ} (hs : Stuck old t s) (only : ∀ v, s.IsAlive v → v = t)
    (here : u.owner ≠ .gone) (step : Step h s act u) : Stuck old t u := by
  have met : s.HasMetStop t → u.HasMetStop t := hasMetStop_step step
  cases step with
  | call | answer | drop | register | prefer | place => exact hs.same rfl rfl met
  | client i c s' p client step =>
      have here' : s'.owner ≠ .gone := here
      obtain ⟨ms, queue, pushed⟩ := queue_advances step here'
      exact hs.grow ms queue pushed met
  | thread v th u thread step =>
      have alive : s.IsAlive v :=
        State.isAlive_iff.mpr ⟨_, State.grades_of_thread thread, running_of_works step⟩
      have := only v alive
      subst v
      exact hs.works thread here met step
  | release | stir => exact hs.same rfl rfl met

end Stuck

theorem length_step {h : Host α} {s u : State α ρ} {act : Act α ρ} (step : Step h s act u) :
    s.threads.length ≤ u.threads.length := by
  have push (s : State α ρ) (ms : List (Message α)) : (s.roused ms).length = s.threads.length := by
    simpa using congrArg List.length (s.map_roused ms (fun _ => ()) (fun _ _ => rfl))
  have advances {me : Agent} {c : Cursor α} {s' : State α ρ} {p : Progress α}
      (step : Advances h s me c s' p) : s.threads.length ≤ s'.threads.length := by
    cases step with
    | pushed batch | marked p t => simp [State.push_eq, State.note, push]
    | spawned load => simp
    | _ => exact Nat.le_refl _
  cases step with
  | client i c s' p client step =>
      have := advances step
      exact this
  | thread t th u thread step =>
      cases step with
      | call a replies c rest s' p stage step =>
          have := advances step
          cases p <;> simpa [State.resume, State.conclude, State.setStage] using this
      | start stage => simp
      | _ =>
          simp [State.setStage, State.conclude, State.letGo, State.count, State.log, State.note,
            State.discard, State.clock]
  | release | stir => simp [State.setStage]
  | _ => exact Nat.le_refl _

theorem length_run {h : Host α} {s u : State α ρ} {acts : List (Act α ρ)}
    (hs : s.run? h acts = some u) : s.threads.length ≤ u.threads.length :=
  State.run?_keeps (P := fun v => s.threads.length ≤ v.threads.length)
    (fun _ _ _ _ hw le => Nat.le_trans le (length_step (step_of_next hw))) hs (Nat.le_refl _)

theorem isAlive_iff_end? {s : State α ρ} {t : Nat} :
    s.IsAlive t ↔ t < s.threads.length ∧ s.end? t = none := by
  constructor
  · rintro ⟨th, ht, he⟩
    exact ⟨(List.getElem?_eq_some_iff.mp ht).1, by simp [State.end?, ht, he]⟩
  · rintro ⟨hlt, he⟩
    have ht := List.getElem?_eq_getElem hlt
    exact ⟨_, ht, by simpa [State.end?, ht] using he⟩

/-- The worker comes to the second state by modest acts, without another thread. -/
inductive Leads (h : Host α) (s : State α ρ) : State α ρ → Prop
  | refl : Leads h s s
  | next {v u : State α ρ} {act : Act α ρ} (before : Leads h s v) (modest : act.Modest)
      (step : v.next? h act = some u) (threads : u.threads.length = s.threads.length) :
      Leads h s u

namespace Leads

variable {h : Host α} {s u : State α ρ} {t : Nat}

theorem reachable (hl : Leads h s u) (hr : Reachable h s) : Reachable h u := by
  induction hl with
  | refl => exact hr
  | next before modest step threads ih => exact ih.next modest step

theorem length (hl : Leads h s u) : u.threads.length = s.threads.length := by
  cases hl with
  | refl => rfl
  | next before modest step threads => exact threads

theorem end? (hl : Leads h s u) {e : Option Payload} (he : s.end? t = some e) :
    u.end? t = some e := by
  induction hl with
  | refl => exact he
  | next before modest step threads ih => exact end?_step (step_of_next step) ih

theorem isAlive (hl : Leads h s u) (ht : u.IsAlive t) : s.IsAlive t := by
  obtain ⟨hlt, hu⟩ := isAlive_iff_end?.mp ht
  refine isAlive_iff_end?.mpr ⟨hl.length ▸ hlt, ?_⟩
  cases hs : s.end? t with
  | none => rfl
  | some e => rw [hl.end? hs] at hu; cases hu

theorem stuck (hl : Leads h s u) (hr : Reachable h s) {old : List α} (hs : Stuck old t s)
    (only : ∀ v, s.IsAlive v → v = t) (here : u.owner ≠ .gone) : Stuck old t u := by
  induction hl with
  | refl => exact hs
  | next before modest step threads ih =>
      have step := step_of_next step
      have here' := here_of_turn (before.reachable hr).locked (step_turn step) here
      exact (ih here').step (fun v hv => only v (before.isAlive hv)) here step

theorem run {v : State α ρ} {acts : List (Act α ρ)} (hl : Leads h s v)
    (hs : v.run? h acts = some u) (modest : ∀ act ∈ acts, act.Modest)
    (threads : u.threads.length = s.threads.length) : Leads h s u := by
  induction acts generalizing v with
  | nil => cases hs; exact hl
  | cons act acts ih =>
      obtain ⟨w, hw, hu⟩ := Option.bind_eq_some_iff.mp hs
      have later := length_run hu
      have now := length_step (step_of_next hw)
      have before := hl.length
      exact ih (hl.next (modest act List.mem_cons_self) hw (by omega)) hu
        (fun b hb => modest b (List.mem_cons_of_mem act hb))

theorem served (hl : Leads h s u) (hr : Reachable h s) (unhurt : s.IsUnhurt)
    (only : ∀ v, s.IsAlive v → v = t) {a : Agent} (awaiting : u.cursor? a = some (.awaiting t))
    (ended : u.end? t = some none) : u.queued = [] ∧ u.pushed = u.finished := by
  have hu := hl.reachable hr
  have here : u.owner ≠ .gone := by
    rw [hu.locked.owner a _ awaiting]; exact Owner.noConfusion
  have unhurt' : u.IsUnhurt := by
    intro v p hv
    have hlt : v < s.threads.length := by
      obtain ⟨th, ht, -⟩ := Option.bind_eq_some_iff.mp hv
      exact hl.length ▸ (List.getElem?_eq_some_iff.mp ht).1
    cases hs : s.end? v with
    | none =>
        rw [only v (isAlive_iff_end?.mpr ⟨hlt, hs⟩), ended] at hv; cases hv
    | some e =>
        rw [hl.end? hs] at hv
        cases hv
        exact unhurt v p hs
  have fits : u.Fits (.retaking t) :=
    (hu.posed here).charged a _ (by rw [State.pose?, awaiting]; rfl)
  obtain ⟨queue, pushed, -⟩ :=
    finished_of_staffed (hu.delivered here) unhurt' (State.staffed_dismiss fits.2 ended)
  exact ⟨by rw [State.queued, queue]; rfl, pushed⟩

end Leads

theorem only_of_running {s : State α ρ} {t : Nat} (staff : s.Staffed (some t) false) (v : Nat)
    (hv : s.IsAlive v) : v = t :=
  (Option.some.inj (State.Staffed.isAlive staff hv)).symm

/-- A marker is left over for every dead thread, and the thread that runs is the next to take one
of them. -/
theorem markers_of_running {s : State α ρ} {t : Nat} (staff : s.Staffed (some t) false)
    (alive : ∀ p, s.end? t ≠ some (some p)) :
    (s.HasMetStop t ∧ markers s.queue + 1 = s.deaths) ∨
      (¬ s.HasMetStop t ∧ markers s.queue = s.deaths) := by
  have hb := staff.balance
  have hle := staff.working_le
  simp only [Bool.false_eq_true, if_false, ← State.deaths_eq] at hb
  by_cases hw : 0 < s.grades.count .working
  · obtain ⟨-, unmet⟩ := State.isAlive_of_working (staff.working_of_one hw)
    exact .inr ⟨unmet, by omega⟩
  · obtain ⟨th, ht⟩ : ∃ th, s.threads[t]? = some th :=
      ⟨_, List.getElem?_eq_getElem (by simpa [State.grades] using staff.present t rfl)⟩
    refine .inl ⟨⟨th, ht, ?_⟩, by omega⟩
    have hg := State.grades_of_thread ht
    cases hst : th.stage with
    | exiting | exited => rfl
    | dead p => exact absurd (by simp [State.end?, ht, hst, Stage.end?]) (alive p)
    | _ =>
        rw [hst] at hg
        exact absurd (List.count_pos_iff.mpr (List.mem_of_getElem? hg)) hw

/-- A running worker serves as documented if no thread has ever died: a join that finds its thread
ended in peace then answers with the queue empty and every item handled. After a death nothing
that is sent to its thread is handled by it. -/
theorem recovery_exact {h : Host α} {s : State α ρ} {t : Nat} (hr : Reachable h s)
    (isOpen : s.IsOpen) (running : s.phase = .running t) (alive : ∀ p, s.end? t ≠ some (some p)) :
    ((.stop ∉ s.queue ∧ ¬ s.HasMetStop t) ↔ s.deaths = 0) ∧
      (s.deaths = 0 → ∀ u a, Leads h s u → u.cursor? a = some (.awaiting t) →
        u.end? t = some none → u.queued = [] ∧ u.pushed = u.finished) ∧
      (0 < s.deaths → ∀ u, Leads h s u → u.owner ≠ .gone → Stuck s.pushed t u) := by
  have here : s.owner ≠ .gone := by rw [isOpen.1]; exact Owner.noConfusion
  have fits := (hr.posed here).free
    (hr.locked.nobody isOpen.2.1 (by rw [isOpen.1]; exact Owner.noConfusion))
  have staff := State.fits_running fits running
  have count := markers_of_running staff alive
  refine ⟨?_, ?_, ?_⟩
  · constructor
    · rintro ⟨noStop, unmet⟩
      rcases count with ⟨met, -⟩ | ⟨-, count⟩
      · exact absurd met unmet
      · rw [← count]
        exact List.countP_eq_zero.mpr fun m hm => by
          cases m with
          | item a => simp [Message.isStop]
          | stop => exact absurd hm noStop
    · intro none
      rcases count with ⟨-, count⟩ | ⟨unmet, count⟩
      · omega
      · exact ⟨not_mem_of_markers (count.trans none), unmet⟩
  · intro none u a hl awaiting ended
    exact hl.served hr (State.isUnhurt_iff.mpr none) (only_of_running staff) awaiting ended
  · intro some u hl here'
    have stuck : Stuck s.pushed t s := by
      refine ⟨s.queue, [], (List.append_nil _).symm, (List.append_nil _).symm, ?_⟩
      rcases count with ⟨met, -⟩ | ⟨-, count⟩
      · exact .inr met
      · obtain ⟨m, hm, hs⟩ := List.countP_pos_iff.mp (show 0 < markers s.queue by omega)
        cases m with
        | item a => cases hs
        | stop => exact .inl hm
    exact hl.stuck hr stuck (only_of_running staff) here'

def Host.brittle : Host Nat where
  refusal _ := none
  disposal a := if a = 1 then some (.text "lost") else none
  elapsed _ := 0

def deathBeforeItem : List (Act Nat Unit) :=
  .call 0 (.send 1) :: (List.replicate 9 (.client 0) ++ List.replicate 5 (.thread 0) ++
    .call 0 .join :: (List.replicate 7 (.client 0) ++
      .call 0 (.send 2) :: List.replicate 9 (.client 0)))

def joinBehindItem : List (Act Nat Unit) :=
  List.replicate 3 (.thread 1) ++ .call 0 .join :: List.replicate 7 (.client 0)

/-- The second item is sent to a thread that ends in peace without it. -/
theorem item_behind_old_marker :
    ∃ s u, (State.create {} none 1).run? Host.brittle deathBeforeItem = some s ∧
      Reachable Host.brittle s ∧ s.IsOpen ∧ s.phase = .running 1 ∧ s.end? 1 = none ∧
      s.queue = [.stop, .item 2] ∧ s.clients[0]? = some (.idle (some .done)) ∧
      s.run? Host.brittle joinBehindItem = some u ∧ u.end? 1 = some none ∧
      u.clients[0]? = some (.idle (some .done)) ∧ u.handled = [1] ∧ u.queued = [2] := by
  have hp : ((State.create {} none 1).run? Host.brittle deathBeforeItem).any (fun s =>
      s.owner = .shared && s.lifecycle = none && s.guard = none && s.phase = .running 1 &&
        s.end? 1 = none && s.queue = [.stop, .item 2] &&
        s.clients[0]?.any (Client.hasReply .done) &&
        (s.run? Host.brittle joinBehindItem).any (fun u => u.end? 1 = some none &&
          u.clients[0]?.any (Client.hasReply .done) && u.handled = [1] &&
          u.queued = [2])) = true := by
    decide
  obtain ⟨s, hs, hr, hp⟩ := Reachable.of_run hp (by simp) (by simp [deathBeforeItem, Act.Modest])
  simp only [Bool.and_eq_true, decide_eq_true_eq] at hp
  obtain ⟨⟨⟨⟨⟨⟨⟨owner, lifecycle⟩, guard⟩, phase⟩, alive⟩, queue⟩, sent⟩, hp⟩ := hp
  obtain ⟨u, hu, hp⟩ := (Option.any_eq_true _ _).mp hp
  simp only [Bool.and_eq_true, decide_eq_true_eq] at hp
  obtain ⟨⟨⟨ended, joined⟩, handled⟩, queued⟩ := hp
  exact ⟨s, u, hs, hr, ⟨owner, lifecycle, guard⟩, phase, alive, queue,
    Client.eq_of_hasReply sent, hu, ended, Client.eq_of_hasReply joined, handled, queued⟩

theorem recovery_deathBeforeItem :
    ∃ s u, (State.create {} none 1).run? Host.brittle deathBeforeItem = some s ∧
      s.run? Host.brittle joinBehindItem = some u ∧ s.deaths = 1 ∧
      ¬ (.stop ∉ s.queue ∧ ¬ s.HasMetStop 1) ∧ Stuck [1, 2] 1 u := by
  have hp : ((State.create {} none 1).run? Host.brittle deathBeforeItem).any (fun s =>
      s.owner = .shared && s.lifecycle = none && s.guard = none && s.phase = .running 1 &&
        s.end? 1 = none && s.deaths = 1 && s.pushed = [1, 2] &&
        (s.run? Host.brittle joinBehindItem).any (fun u => u.owner = .shared &&
          u.threads.length = s.threads.length)) = true := by
    decide
  obtain ⟨s, hs, hr, hp⟩ := Reachable.of_run hp (by simp) (by simp [deathBeforeItem, Act.Modest])
  simp only [Bool.and_eq_true, decide_eq_true_eq] at hp
  obtain ⟨⟨⟨⟨⟨⟨⟨owner, lifecycle⟩, guard⟩, phase⟩, alive⟩, deaths⟩, pushed⟩, hp⟩ := hp
  obtain ⟨u, hu, hp⟩ := (Option.any_eq_true _ _).mp hp
  simp only [Bool.and_eq_true, decide_eq_true_eq] at hp
  obtain ⟨clean, -, stuck⟩ :=
    recovery_exact hr ⟨owner, lifecycle, guard⟩ phase (by rw [alive]; exact fun p he => by cases he)
  have leads : Leads Host.brittle s u :=
    Leads.refl.run hu (by simp [joinBehindItem, Act.Modest]) hp.2
  refine ⟨s, u, hs, hu, deaths, fun h => ?_, ?_⟩
  · rw [clean.mp h] at deaths; cases deaths
  · rw [← pushed]
    exact stuck (by omega) u leads (by rw [hp.1]; exact Owner.noConfusion)

end QueueWorker.Worker
