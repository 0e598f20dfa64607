import Mathlib.Logic.Function.Basic
import QueueWorker.Proofs.Worker.Staff
import QueueWorker.Proofs.Worker.Step

namespace QueueWorker.Worker

variable {α ρ : Type}

def Client.cursor? : Client α ρ → Option (Cursor α)
  | .calling c => some c
  | _ => none

def Stage.cursor? : Stage α ρ → Option (Cursor α)
  | .calling _ _ c _ => some c
  | _ => none

def Progress.cursor? : Progress α → Option (Cursor α)
  | .at c => some c
  | _ => none

def Act.agent? : Act α ρ → Option Agent
  | .client i => some (.client i)
  | .thread t => some (.thread t)
  | _ => none

theorem Act.eq_of_agent? {act : Act α ρ} {i : Nat} (mine : act.agent? = some (.client i)) :
    act = .client i := by
  cases act <;> cases mine
  rfl

theorem Works.call_of_cursor {h : Host α} {s u : State α ρ} {t : Nat} {th : Thread α ρ}
    {c : Cursor α} (hw : Works h s t th u) (hc : th.stage.cursor? = some c) :
    ∃ a replies rest s' p, th.stage = .calling a replies c rest ∧
      Advances h s (.thread t) c s' p ∧ u = s'.resume t a replies rest p := by
  cases hw with
  | call a replies k rest s' p stage step =>
      rw [stage] at hc
      cases hc
      exact ⟨a, replies, rest, s', p, stage, step, rfl⟩
  | _ => simp_all [Stage.cursor?]

theorem map_set_of_eq {β γ : Type} {l : List β} {t : Nat} {x y : β} (ht : l[t]? = some x)
    (f : β → γ) (hf : f y = f x) : (l.set t y).map f = l.map f := by
  obtain ⟨hlt, rfl⟩ := List.getElem?_eq_some_iff.mp ht
  have hlt' : t < (l.map f).length := by simpa using hlt
  have hx : f l[t] = (l.map f)[t] := by simp
  rw [List.map_set, hf, hx, List.set_getElem_self]

theorem modify_of_getElem? {β : Type} {l : List β} {t : Nat} {x : β} (ht : l[t]? = some x)
    (g : β → β) : l.modify t g = l.set t (g x) := by
  obtain ⟨hlt, rfl⟩ := List.getElem?_eq_some_iff.mp ht
  apply List.ext_getElem?
  intro u
  by_cases htu : t = u
  · subst u; simp [hlt]
  · simp [htu]

namespace State

def grades (s : State α ρ) : List Grade := s.threads.map (fun th => th.stage.grade)

def cursor? (s : State α ρ) : Agent → Option (Cursor α)
  | .client i => s.clients[i]?.bind Client.cursor?
  | .thread t => s.threads[t]?.bind (fun th => th.stage.cursor?)

def roused (s : State α ρ) (ms : List (Message α)) : List (Thread α ρ) :=
  match s.threads.findIdx? (fun th => th.stage.isSleeping) with
  | some t =>
      if ms.isEmpty then s.threads
      else s.threads.modify t (fun th => { th with stage := .polling })
  | none => s.threads

theorem push_eq (s : State α ρ) (ms : List (Message α)) :
    s.push ms = { s with queue := s.queue ++ ms, threads := s.roused ms } := by
  cases hs : s.threads.findIdx? (fun th => th.stage.isSleeping) with
  | none => simp only [push, roused, hs]
  | some t => cases ms <;> simp [push, roused, hs, setStage]

theorem map_roused {β : Type} (s : State α ρ) (ms : List (Message α)) (f : Thread α ρ → β)
    (hf : ∀ th, th.stage = .sleeping → f { th with stage := .polling } = f th) :
    (s.roused ms).map f = s.threads.map f := by
  simp only [roused]
  split
  next t ht =>
    split
    next => rfl
    next =>
      obtain ⟨hlt, hsl, _⟩ := List.findIdx?_eq_some_iff_getElem.mp ht
      have hst : s.threads[t].stage = .sleeping := by
        cases hst : s.threads[t].stage <;> simp [hst, Stage.isSleeping] at hsl ⊢
      apply List.ext_getElem?
      intro u
      simp only [List.getElem?_map, List.getElem?_modify]
      by_cases htu : t = u
      · subst u
        simp [List.getElem?_eq_getElem hlt, hf _ hst]
      · simp [htu]
  next => rfl

theorem length_roused (s : State α ρ) (ms : List (Message α)) :
    (s.roused ms).length = s.threads.length := by
  simpa using congrArg List.length (s.map_roused ms (fun _ => ()) (fun _ _ => rfl))

theorem forall_roused {s : State α ρ} {P : Stage α ρ → Prop} (polling : P .polling)
    (hs : ∀ (t : Nat) (th : Thread α ρ), s.threads[t]? = some th → P th.stage)
    (ms : List (Message α)) (t : Nat) (th : Thread α ρ) (ht : (s.roused ms)[t]? = some th) :
    P th.stage := by
  simp only [roused] at ht
  split at ht
  next v hv =>
    split at ht
    next => exact hs t th ht
    next =>
      rw [List.getElem?_modify] at ht
      obtain ⟨th', ht', rfl⟩ := Option.map_eq_some_iff.mp ht
      by_cases htv : v = t
      · simpa [htv] using polling
      · simpa [htv] using hs t th' ht'
  next => exact hs t th ht

theorem forall_setStage {s : State α ρ} {P : Stage α ρ → Prop} {v : Nat} {stage : Stage α ρ}
    (new : P stage) (hs : ∀ (t : Nat) (th : Thread α ρ), s.threads[t]? = some th → P th.stage)
    (t : Nat) (th : Thread α ρ) (ht : (s.setStage v stage).threads[t]? = some th) :
    P th.stage := by
  simp only [setStage, List.getElem?_modify] at ht
  obtain ⟨th', ht', rfl⟩ := Option.map_eq_some_iff.mp ht
  by_cases htv : v = t
  · simpa [htv] using new
  · simpa [htv] using hs t th' ht'

theorem forall_set {l : List (Thread α ρ)} {P : Stage α ρ → Prop} {v : Nat} {x : Thread α ρ}
    (new : P x.stage) (hs : ∀ (t : Nat) (th : Thread α ρ), l[t]? = some th → P th.stage)
    (t : Nat) (th : Thread α ρ) (ht : (l.set v x)[t]? = some th) : P th.stage := by
  rw [List.getElem?_set] at ht
  split at ht
  next =>
    split at ht
    next => cases ht; exact new
    next => cases ht
  next => exact hs t th ht

theorem forall_append {l : List (Thread α ρ)} {P : Stage α ρ → Prop} {x : Thread α ρ}
    (new : P x.stage) (hs : ∀ (t : Nat) (th : Thread α ρ), l[t]? = some th → P th.stage)
    (t : Nat) (th : Thread α ρ) (ht : (l ++ [x])[t]? = some th) : P th.stage := by
  rw [List.getElem?_append] at ht
  split at ht
  next => exact hs t th ht
  next =>
    rw [List.getElem?_singleton] at ht
    split at ht
    next => cases ht; exact new
    next => cases ht

@[simp] theorem grades_push (s : State α ρ) (ms : List (Message α)) :
    (s.push ms).grades = s.grades := by
  rw [push_eq]
  exact map_roused s ms _ (fun th hst => by simp [hst, Stage.grade])

@[simp] theorem cursor?_push (s : State α ρ) (ms : List (Message α)) :
    (s.push ms).cursor? = s.cursor? := by
  funext a
  cases a with
  | client i => rw [push_eq]; rfl
  | thread t =>
      have h := congrArg (fun l => l[t]?)
        (map_roused s ms (fun th => th.stage.cursor?) (fun th hst => by simp [hst, Stage.cursor?]))
      simp only [List.getElem?_map] at h
      simp only [cursor?, push_eq]
      cases h₁ : (s.roused ms)[t]? <;> cases h₂ : s.threads[t]? <;> simp_all

theorem grades_setStage (s : State α ρ) (t : Nat) (stage : Stage α ρ) :
    (s.setStage t stage).grades = s.grades.set t stage.grade := by
  apply List.ext_getElem?
  intro u
  simp only [grades, setStage, List.getElem?_map, List.getElem?_modify, List.getElem?_set,
    List.length_map]
  by_cases htu : t = u
  · subst u
    cases ht : s.threads[t]? with
    | none => simp [List.getElem?_eq_none_iff.mp ht]
    | some th => simp [(List.getElem?_eq_some_iff.mp ht).1]
  · simp [htu]

theorem cursor?_setStage {s : State α ρ} {t : Nat} {th : Thread α ρ} (ht : s.threads[t]? = some th)
    (stage : Stage α ρ) :
    (s.setStage t stage).cursor? = Function.update s.cursor? (.thread t) stage.cursor? := by
  funext a
  cases a with
  | client i => rfl
  | thread u =>
      by_cases htu : t = u
      · subst u; simp [cursor?, setStage, ht]
      · have hne : Agent.thread u ≠ .thread t := fun h => htu (Agent.thread.inj h).symm
        simp [cursor?, setStage, htu, Function.update_of_ne hne]

theorem cursor?_setClient {s : State α ρ} {i : Nat} {c : Client α ρ} (hi : s.clients[i]? = some c)
    (c' : Client α ρ) :
    (s.setClient i c').cursor? = Function.update s.cursor? (.client i) c'.cursor? := by
  funext a
  cases a with
  | thread t => rfl
  | client j =>
      have hlt := (List.getElem?_eq_some_iff.mp hi).1
      by_cases hij : i = j
      · subst j; simp [cursor?, setClient, List.getElem?_set_self hlt]
      · have hne : Agent.client j ≠ .client i := fun h => hij (Agent.client.inj h).symm
        simp [cursor?, setClient, List.getElem?_set_ne hij, Function.update_of_ne hne]

theorem roused_of_awake {s : State α ρ} {t : Nat} {th : Thread α ρ} (ms : List (Message α))
    (ht : s.threads[t]? = some th) (hs : th.stage ≠ .sleeping) (hp : th.stage ≠ .polling) :
    (s.roused ms)[t]? = some th := by
  let awake (th : Thread α ρ) : Option (Thread α ρ) :=
    match th.stage with
    | .sleeping | .polling => none
    | _ => some th
  have hth : awake th = some th := by cases hst : th.stage <;> simp_all [awake]
  have h := congrArg (fun l => l[t]?)
    (map_roused s ms awake (fun th hst => by simp [awake, hst]))
  simp only [List.getElem?_map, ht, Option.map_some, hth] at h
  obtain ⟨th', ht', he⟩ := Option.map_eq_some_iff.mp h
  have : awake th' = some th' := by cases hst : th'.stage <;> simp_all [awake]
  rw [ht', Option.some.inj (this.symm.trans he)]

theorem grades_of_thread {s : State α ρ} {t : Nat} {th : Thread α ρ}
    (ht : s.threads[t]? = some th) : s.grades[t]? = some th.stage.grade := by
  simp [grades, ht]

/-- What a worker's own threads and callers find of each other is the same in both states, and
nothing has happened in between that the worker keeps a record of. -/
structure Alike (s u : State α ρ) : Prop where
  phase : u.phase = s.phase
  lifecycle : u.lifecycle = s.lifecycle
  guard : u.guard = s.guard
  owner : u.owner = s.owner
  grades : u.grades = s.grades
  queue : u.queue = s.queue
  trace : u.trace = s.trace
  stats : u.stats = s.stats

theorem map_setStage {β : Type} {s : State α ρ} {t : Nat} {th : Thread α ρ} {stage : Stage α ρ}
    (ht : s.threads[t]? = some th) (f : Thread α ρ → β) (hf : f { th with stage } = f th) :
    (s.setStage t stage).threads.map f = s.threads.map f := by
  rw [setStage, modify_of_getElem? ht]
  exact map_set_of_eq ht f hf

theorem alike_setStage {s : State α ρ} {t : Nat} {th : Thread α ρ} (ht : s.threads[t]? = some th)
    {stage : Stage α ρ} (hg : stage.grade = th.stage.grade) : s.Alike (s.setStage t stage) :=
  ⟨rfl, rfl, rfl, rfl, map_setStage ht (fun th => th.stage.grade) hg, rfl, rfl, rfl⟩

def Staffed (s : State α ρ) (ward : Option Nat) (marked : Bool) : Prop :=
  Worker.Staffed s.grades s.queue ward marked

theorem Alike.staffed {s u : State α ρ} (h : s.Alike u) {ward : Option Nat} {marked : Bool} :
    u.Staffed ward marked ↔ s.Staffed ward marked := by
  rw [Staffed, Staffed, h.grades, h.queue]

theorem Alike.length {s u : State α ρ} (h : s.Alike u) : u.threads.length = s.threads.length := by
  simpa [State.grades] using congrArg List.length h.grades

theorem staffed_setStage {s : State α ρ} {t : Nat} {th : Thread α ρ}
    (ht : s.threads[t]? = some th) {stage : Stage α ρ}
    (he : th.stage.grade.hasEnded = false ∨ stage.grade.hasEnded = true)
    (hm : stage.grade.metStop = th.stage.grade.metStop) {ward : Option Nat} {marked : Bool}
    (h : s.Staffed ward marked) : (s.setStage t stage).Staffed ward marked := by
  rw [Staffed, grades_setStage]
  exact h.regrade (grades_of_thread ht) he hm

end State

theorem cursor?_advances {h : Host α} {s s' : State α ρ} {me : Agent} {c : Cursor α}
    {p : Progress α} (hs : Advances h s me c s' p) : s'.cursor? = s.cursor? := by
  cases hs with
  | pushed batch => exact s.cursor?_push _
  | marked p t => exact s.cursor?_push _
  | spawned load =>
      funext a
      cases a with
      | client i => rfl
      | thread t =>
          simp only [State.cursor?]
          rcases Nat.lt_trichotomy t s.threads.length with hlt | rfl | hgt
          · rw [List.getElem?_append_left hlt]
          · simp [Stage.cursor?]
          · rw [List.getElem?_eq_none (by simp; omega), List.getElem?_eq_none (by omega)]
  | _ => rfl

theorem State.clients_setClient {s : State α ρ} {i : Nat} {old : Client α ρ}
    (hi : s.clients[i]? = some old) (cl : Client α ρ) :
    (s.setClient i cl).clients[i]? = some cl :=
  List.getElem?_set_self (List.getElem?_eq_some_iff.mp hi).1

theorem clients_advances {h : Host α} {s s' : State α ρ} {me : Agent} {c : Cursor α}
    {p : Progress α} (hs : Advances h s me c s' p) : s'.clients = s.clients := by
  cases hs with
  | pushed batch => rw [State.push_eq]; rfl
  | marked p t => rw [State.push_eq]
  | _ => rfl

theorem threads_advances {h : Host α} {s s' : State α ρ} {me : Agent} {c : Cursor α}
    {p : Progress α} (hs : Advances h s me c s' p) {t : Nat} {th : Thread α ρ}
    (ht : s.threads[t]? = some th) (hsl : th.stage ≠ .sleeping) (hpo : th.stage ≠ .polling) :
    s'.threads[t]? = some th := by
  cases hs with
  | pushed batch => rw [State.push_eq]; exact State.roused_of_awake _ ht hsl hpo
  | marked p t => rw [State.push_eq]; exact State.roused_of_awake _ ht hsl hpo
  | spawned load =>
      exact (List.getElem?_append_left (List.getElem?_eq_some_iff.mp ht).1).trans ht
  | _ => exact ht

inductive Aside (h : Host α) (s u : State α ρ) : Prop
  | still (trace : u.trace = s.trace) (stats : u.stats = s.stats)
      (length : u.threads.length = s.threads.length)
  | work (t th) (thread : s.threads[t]? = some th) (silent : th.stage.cursor? = none)
      (step : Works h s t th u)

/-- A step, as the other agents see it: a call goes on, a call begins, the worker is dropped, or
some thread or client goes about its own business. -/
inductive Turn (h : Host α) (s u : State α ρ) : Prop
  | advance (me c s' p) (cursor : s.cursor? me = some c) (step : Advances h s me c s' p)
      (alike : s'.Alike u) (moved : u.cursor? = Function.update s.cursor? me p.cursor?)
  | begin (me) (c : Call α) (k) (idle : s.cursor? me = none) (shared : s.owner = .shared)
      (other : c ≠ .drop) (first : c.begin s = .at k) (alike : s.Alike u)
      (moved : u.cursor? = Function.update s.cursor? me (some k))
  | drop (me) (quiet : ∀ a, s.cursor? a = none) (shared : s.owner = .shared)
      (alike : State.Alike { s with owner := .dropping } u)
      (moved : u.cursor? = Function.update s.cursor? me (some (.stopping .drop)))
  | silent (phase : u.phase = s.phase) (lifecycle : u.lifecycle = s.lifecycle)
      (guard : u.guard = s.guard) (owner : u.owner = s.owner)
      (staffed : ∀ ward marked, s.Staffed ward marked → u.Staffed ward marked)
      (moved : u.cursor? = s.cursor?) (aside : Aside h s u)

namespace State

theorem shared_of_isFree {s : State α ρ} {i : Nat} (hi : s.isFree i) : s.owner = .shared := by
  simp only [isFree, Bool.and_eq_true, decide_eq_true_eq] at hi
  exact hi.1

theorem idle_of_isFree {s : State α ρ} {i : Nat} (hi : s.isFree i) :
    ∃ r, s.clients[i]? = some (.idle r) := by
  simp only [isFree, Bool.and_eq_true, Option.any_eq_true] at hi
  obtain ⟨_, c, hc, hidle⟩ := hi
  cases c with
  | idle r => exact ⟨r, hc⟩
  | calling | registering => cases hidle

theorem cursor?_of_isQuiet {s : State α ρ} (hq : s.isQuiet) (a : Agent) : s.cursor? a = none := by
  simp only [isQuiet, Bool.and_eq_true, List.all_eq_true] at hq
  cases a with
  | client i =>
      cases hi : s.clients[i]? with
      | none => simp [cursor?, hi]
      | some c =>
          have := hq.1 c (List.mem_of_getElem? hi)
          cases c <;> simp_all [cursor?, Client.isIdle, Client.cursor?]
  | thread t =>
      cases ht : s.threads[t]? with
      | none => simp [cursor?, ht]
      | some th =>
          have := hq.2 th (List.mem_of_getElem? ht)
          cases hst : th.stage <;> simp_all [cursor?, Stage.isCalling, Stage.cursor?]

theorem cursor?_of_thread {s : State α ρ} {t : Nat} {th : Thread α ρ}
    (ht : s.threads[t]? = some th) : s.cursor? (.thread t) = th.stage.cursor? := by
  simp [cursor?, ht]

theorem cursor?_of_client {s : State α ρ} {i : Nat} {c : Client α ρ}
    (hi : s.clients[i]? = some c) : s.cursor? (.client i) = c.cursor? := by
  simp [cursor?, hi]

end State

theorem turn_setStage {h : Host α} {s v : State α ρ} {t : Nat} {th : Thread α ρ}
    {stage : Stage α ρ} (ht : s.threads[t]? = some th) (threads : v.threads = s.threads)
    (clients : v.clients = s.clients) (phase : v.phase = s.phase)
    (lifecycle : v.lifecycle = s.lifecycle) (guard : v.guard = s.guard) (owner : v.owner = s.owner)
    (before : th.stage.cursor? = none) (behind : stage.cursor? = none)
    (aside : Aside h s (v.setStage t stage))
    (staffed : ∀ ward marked, s.Staffed ward marked → (v.setStage t stage).Staffed ward marked) :
    Turn h s (v.setStage t stage) := by
  have hcur : v.cursor? = s.cursor? := by
    funext a
    cases a <;> simp only [State.cursor?, threads, clients]
  refine .silent phase lifecycle guard owner staffed ?_ aside
  rw [State.cursor?_setStage (threads ▸ ht), hcur, behind]
  exact Function.update_eq_self_iff.mpr ((State.cursor?_of_thread ht).trans before).symm

theorem turn_restage {h : Host α} {s v : State α ρ} {t : Nat} {th : Thread α ρ}
    {stage : Stage α ρ} (ht : s.threads[t]? = some th) (threads : v.threads = s.threads)
    (clients : v.clients = s.clients) (phase : v.phase = s.phase)
    (lifecycle : v.lifecycle = s.lifecycle) (guard : v.guard = s.guard) (owner : v.owner = s.owner)
    (queue : v.queue = s.queue) (before : th.stage.cursor? = none) (behind : stage.cursor? = none)
    (ended : th.stage.grade.hasEnded = false) (met : stage.grade.metStop = th.stage.grade.metStop)
    (aside : Aside h s (v.setStage t stage)) : Turn h s (v.setStage t stage) := by
  apply turn_setStage ht threads clients phase lifecycle guard owner before behind aside
  intro ward marked hs
  have hv : v.Staffed ward marked := by
    simpa only [State.Staffed, State.grades, threads, queue] using hs
  exact State.staffed_setStage (threads ▸ ht) (.inl ended) met hv

theorem turn_start {h : Host α} {s : State α ρ} {t : Nat} {th th' : Thread α ρ}
    (ht : s.threads[t]? = some th) (grade : th'.stage.grade = th.stage.grade)
    (cursor : th'.stage.cursor? = th.stage.cursor?) :
    Turn h s { s with threads := s.threads.set t th' } := by
  refine .silent rfl rfl rfl rfl ?_ ?_ (.still rfl rfl (List.length_set ..))
  · intro ward marked hs
    have hg : State.grades { s with threads := s.threads.set t th' } = s.grades :=
      map_set_of_eq ht (fun th => th.stage.grade) grade
    rwa [State.Staffed, hg]
  · funext a
    cases a with
    | client i => rfl
    | thread u =>
        by_cases htu : t = u
        · subst u
          obtain ⟨hlt, rfl⟩ := List.getElem?_eq_some_iff.mp ht
          simp [State.cursor?, hlt, cursor]
        · simp [State.cursor?, htu]

theorem turn_letGo {h : Host α} {s v : State α ρ} {t : Nat} {th : Thread α ρ}
    (relic : Option Payload) (ht : s.threads[t]? = some th) (threads : v.threads = s.threads)
    (clients : v.clients = s.clients) (phase : v.phase = s.phase)
    (lifecycle : v.lifecycle = s.lifecycle) (guard : v.guard = s.guard) (owner : v.owner = s.owner)
    (queue : v.queue = s.queue) (before : th.stage.cursor? = none)
    (working : th.stage.grade = .working) (aside : Aside h s (v.letGo t relic)) :
    Turn h s (v.letGo t relic) := by
  have ended : th.stage.grade.hasEnded = false := by rw [working]; rfl
  cases relic with
  | none =>
      exact turn_restage (v := { v with slot := { v.slot with holder := none } }) ht threads clients
        phase lifecycle guard owner queue before rfl ended (by rw [working]; rfl) aside
  | some p =>
      exact turn_restage (v := { v with slot := { v.slot with holder := none } }) ht threads clients
        phase lifecycle guard owner queue before rfl ended (by rw [working]; rfl) aside

theorem turn_call {h : Host α} {s s' : State α ρ} {t : Nat} {th : Thread α ρ} {a : α}
    {replies : List Reply} {c : Cursor α} {rest : Reply → Script α ρ} {p : Progress α}
    (ht : s.threads[t]? = some th) (stage : th.stage = .calling a replies c rest)
    (step : Advances h s (.thread t) c s' p) : Turn h s (s'.resume t a replies rest p) := by
  have ht' : s'.threads[t]? = some th :=
    threads_advances step ht (by simp [stage]) (by simp [stage])
  have hc : s.cursor? (.thread t) = some c := by
    rw [State.cursor?_of_thread ht, stage]; rfl
  have hg : th.stage.grade = .working := by rw [stage]; rfl
  refine .advance (.thread t) c s' p hc step ?_ ?_
  · cases p with
    | «at» | answer => exact State.alike_setStage ht' hg.symm
    | unwind q =>
        have hs : s'.Alike (s'.setStage t (.concluded a (some q))) :=
          State.alike_setStage ht' hg.symm
        exact ⟨rfl, rfl, rfl, rfl, hs.grades, rfl, rfl, rfl⟩
  · rw [← cursor?_advances step]
    cases p with
    | «at» | answer => exact State.cursor?_setStage ht' _
    | unwind q =>
        exact State.cursor?_setStage (s := { s' with slot := s'.slot.visited ⟨a, replies⟩ }) ht' _

theorem works_turn {h : Host α} {s u : State α ρ} {t : Nat} {th : Thread α ρ}
    (ht : s.threads[t]? = some th) (hw : Works h s t th u) : Turn h s u := by
  have aside (silent : th.stage.cursor? = none) : Aside h s u := .work t th ht silent hw
  cases hw with
  | start stage => exact turn_start ht (by rw [stage]; rfl) (by rw [stage]; rfl)
  | fetch a ms stage queue =>
      refine turn_setStage ht rfl rfl rfl rfl rfl rfl (by rw [stage]; rfl) rfl
        (aside (by rw [stage]; rfl)) ?_
      intro ward marked hs
      rw [State.Staffed, queue] at hs
      exact State.staffed_setStage (s := { s with queue := ms }) ht (by rw [stage]; exact .inl rfl)
        (by rw [stage]; rfl) hs.fetch
  | halt ms stage queue =>
      refine turn_setStage ht rfl rfl rfl rfl rfl rfl (by rw [stage]; rfl) rfl
        (aside (by rw [stage]; rfl)) ?_
      intro ward marked hs
      rw [State.Staffed, queue] at hs
      rw [State.Staffed, State.grades_setStage]
      exact hs.halt ((State.grades_of_thread ht).trans (by rw [stage]; rfl))
  | skip a stage =>
      exact turn_letGo _ ht rfl rfl rfl rfl rfl rfl rfl (by rw [stage]; rfl) (by rw [stage]; rfl)
        (aside (by rw [stage]; rfl))
  | letGo p stage =>
      exact turn_letGo _ ht rfl rfl rfl rfl rfl rfl rfl (by rw [stage]; rfl) (by rw [stage]; rfl)
        (aside (by rw [stage]; rfl))
  | askDrop a replies rest stage shared quiet =>
      refine .drop (.thread t) (State.cursor?_of_isQuiet quiet) shared ?_ ?_
      · exact State.alike_setStage (s := { s with owner := .dropping }) ht (by rw [stage]; rfl)
      · exact State.cursor?_setStage (s := { s with owner := .dropping }) ht _
  | ask a replies c rest k stage shared other first =>
      refine .begin (.thread t) c k ?_ shared other first ?_ (State.cursor?_setStage ht _)
      · rw [State.cursor?_of_thread ht, stage]; rfl
      · exact State.alike_setStage ht (by rw [stage]; rfl)
  | call a replies c rest s' p stage step => exact turn_call ht stage step
  | sleep stage | lack _ stage | begin _ _ stage | warn _ stage | finish _ _ stage
  | unwind _ _ _ stage | report _ _ _ _ stage | self _ _ _ stage | askGone _ _ _ _ stage
  | askNow _ _ _ _ _ stage | returned _ stage | caught _ _ stage | panicked _ _ stage
  | exit stage =>
      exact turn_restage ht rfl rfl rfl rfl rfl rfl rfl (by rw [stage]; rfl) rfl
        (by rw [stage]; rfl) (by rw [stage]; rfl) (aside (by rw [stage]; rfl))

theorem turn_setClient {h : Host α} {s v : State α ρ} {i : Nat} {c c' : Client α ρ}
    (hi : s.clients[i]? = some c) (threads : v.threads = s.threads)
    (clients : v.clients = s.clients) (phase : v.phase = s.phase)
    (lifecycle : v.lifecycle = s.lifecycle) (guard : v.guard = s.guard) (owner : v.owner = s.owner)
    (queue : v.queue = s.queue) (trace : v.trace = s.trace) (stats : v.stats = s.stats)
    (before : c.cursor? = none) (behind : c'.cursor? = none) : Turn h s (v.setClient i c') := by
  have hcur : v.cursor? = s.cursor? := by
    funext a
    cases a <;> simp only [State.cursor?, threads, clients]
  refine .silent phase lifecycle guard owner ?_ ?_ (.still trace stats (congrArg _ threads))
  · intro ward marked hs
    simpa only [State.Staffed, State.grades, State.setClient, threads, queue] using hs
  · rw [State.cursor?_setClient (clients ▸ hi), hcur, behind]
    exact Function.update_eq_self_iff.mpr ((State.cursor?_of_client hi).trans before).symm

theorem Progress.client_cursor? (p : Progress α) :
    (p.client : Client α ρ).cursor? = p.cursor? := by
  cases p <;> rfl

theorem step_turn {h : Host α} {s u : State α ρ} {act : Act α ρ} (hs : Step h s act u) :
    Turn h s u := by
  cases hs with
  | call i c k free other first =>
      obtain ⟨r, hi⟩ := State.idle_of_isFree free
      exact .begin (.client i) c k (State.cursor?_of_client hi) (State.shared_of_isFree free) other
        first ⟨rfl, rfl, rfl, rfl, rfl, rfl, rfl, rfl⟩ (State.cursor?_setClient hi _)
  | answer i c r free other first =>
      obtain ⟨r, hi⟩ := State.idle_of_isFree free
      exact turn_setClient hi rfl rfl rfl rfl rfl rfl rfl rfl rfl rfl rfl
  | drop i free quiet =>
      obtain ⟨r, hi⟩ := State.idle_of_isFree free
      exact .drop (.client i) (State.cursor?_of_isQuiet quiet) (State.shared_of_isFree free)
        ⟨rfl, rfl, rfl, rfl, rfl, rfl, rfl, rfl⟩
        (State.cursor?_setClient (s := { s with owner := .dropping }) hi _)
  | register i f free =>
      obtain ⟨r, hi⟩ := State.idle_of_isFree free
      exact turn_setClient hi rfl rfl rfl rfl rfl rfl rfl rfl rfl rfl rfl
  | prefer i p free quiet =>
      exact .silent rfl rfl rfl rfl (fun _ _ hs => hs) rfl (.still rfl rfl rfl)
  | client i c s' p client step =>
      refine .advance (.client i) c s' p (State.cursor?_of_client client) step
        ⟨rfl, rfl, rfl, rfl, rfl, rfl, rfl, rfl⟩ ?_
      rw [State.cursor?_setClient ((clients_advances step) ▸ client), Progress.client_cursor?,
        cursor?_advances step]
  | place i f client free => exact turn_setClient client rfl rfl rfl rfl rfl rfl rfl rfl rfl rfl rfl
  | thread t th u thread step => exact works_turn thread step
  | release t th a replies rest thread stage | stir t th thread stage =>
      exact turn_restage thread rfl rfl rfl rfl rfl rfl rfl (by rw [stage]; rfl) rfl
        (by rw [stage]; rfl) (by rw [stage]; rfl) (.still rfl rfl (List.length_modify ..))

theorem running_of_works {h : Host α} {s u : State α ρ} {t : Nat} {th : Thread α ρ}
    (hw : Works h s t th u) : th.stage.grade.hasEnded = false := by
  cases hw <;> simp_all [Stage.grade, Grade.hasEnded]

theorem threads_works_ne {h : Host α} {s u : State α ρ} {t v : Nat} {th tv : Thread α ρ}
    (hw : Works h s t th u) (hne : t ≠ v) (hv : s.threads[v]? = some tv)
    (hsl : tv.stage ≠ .sleeping) (hpo : tv.stage ≠ .polling) : u.threads[v]? = some tv := by
  cases hw with
  | start stage => simpa [hne] using hv
  | call a replies c rest s' p stage step =>
      have hv' := threads_advances step hv hsl hpo
      cases p <;> simpa [State.resume, State.conclude, State.setStage, hne] using hv'
  | _ =>
      simpa [State.setStage, State.conclude, State.letGo, State.count, State.log, State.note,
        State.discard, State.clock, hne] using hv

/-- What holds of a thread's stage is kept, when it is kept by the thread's own steps and does not
hold of a thread that waits for an item or runs the callback. -/
theorem stage_step {h : Host α} {s u : State α ρ} {act : Act α ρ} {t : Nat} {th : Thread α ρ}
    {P : Stage α ρ → Prop} (step : Step h s act u) (ht : s.threads[t]? = some th)
    (hP : P th.stage) (sleeping : ¬ P .sleeping) (polling : ¬ P .polling)
    (running : ∀ a replies script, ¬ P (.running a replies script))
    (own : Works h s t th u → ∃ th', u.threads[t]? = some th' ∧ P th'.stage) :
    ∃ th', u.threads[t]? = some th' ∧ P th'.stage := by
  have hsl : th.stage ≠ .sleeping := fun he => sleeping (he ▸ hP)
  have hpo : th.stage ≠ .polling := fun he => polling (he ▸ hP)
  have same {v : Nat} {tv : Thread α ρ} (hv : s.threads[v]? = some tv) (he : v = t) : tv = th := by
    subst v
    exact Option.some.inj (hv.symm.trans ht)
  cases step with
  | call | answer | drop | register | prefer | place => exact ⟨th, ht, hP⟩
  | client i c s' p client step => exact ⟨th, threads_advances step ht hsl hpo, hP⟩
  | thread v tv u thread step =>
      by_cases he : v = t
      · have := same thread he
        subst this he
        exact own step
      · exact ⟨th, threads_works_ne step he ht hsl hpo, hP⟩
  | release v tv a replies rest thread stage =>
      by_cases he : v = t
      · rw [same thread he] at stage
        exact absurd (stage ▸ hP) (running _ _ _)
      · exact ⟨th, by simpa [State.setStage, he] using ht, hP⟩
  | stir v tv thread stage =>
      by_cases he : v = t
      · rw [same thread he] at stage
        exact absurd stage hsl
      · exact ⟨th, by simpa [State.setStage, he] using ht, hP⟩

end QueueWorker.Worker
