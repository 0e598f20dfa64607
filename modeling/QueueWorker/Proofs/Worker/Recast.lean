import QueueWorker.Proofs.Worker.Course
import QueueWorker.Proofs.Worker.Past

namespace QueueWorker.Worker

variable {α ρ : Type}

/-- Whose doing it is: a client's own steps, calls and registrations. -/
def Act.isOf (i : Nat) : Act α ρ → Bool
  | .call j _ | .register j _ | .client j => j = i
  | _ => false

/-- Who has a lock when this client is in the place of `i`. One that is idle has none. -/
def Client.lock (i : Nat) (cl : Client α ρ) (lock : Option Agent) : Option Agent :=
  if cl.isIdle ∧ lock = some (.client i) then none else lock

namespace State

/-- The worker with another client in the place of `i`. -/
def veiled (i : Nat) (cl : Client α ρ) (s : State α ρ) : State α ρ :=
  { s with lifecycle := cl.lock i s.lifecycle, clients := s.clients.set i cl }

def recast (i : Nat) (cl : Client α ρ) (n : Nat) (l : List (Entry α ρ)) (s : State α ρ) :
    State α ρ :=
  { s.veiled i cl with attempts := n, trace := l }

variable {s : State α ρ} {i j n : Nat} {cl : Client α ρ} {l : List (Entry α ρ)}

theorem lifecycle_veiled_of_free (free : s.lifecycle = none) :
    (s.veiled i cl).lifecycle = none := by
  simp [veiled, free, Client.lock]

theorem clients_veiled_ne (other : j ≠ i) : (s.veiled i cl).clients[j]? = s.clients[j]? :=
  List.getElem?_set_ne other.symm

theorem isFree_veiled_ne (other : j ≠ i) : (s.veiled i cl).isFree j = s.isFree j := by
  simp only [isFree, clients_veiled_ne other]
  rfl

theorem isFree_veiled (idle : cl.isIdle = true) (free : s.isFree j = true) :
    (s.veiled i cl).isFree j = true := by
  by_cases hj : j = i
  · subst hj
    obtain ⟨last, hi⟩ := State.idle_of_isFree free
    simp only [isFree, Bool.and_eq_true] at free ⊢
    refine ⟨free.1, ?_⟩
    simp [veiled, List.getElem?_set_self (List.getElem?_eq_some_iff.mp hi).1, idle]
  · rw [isFree_veiled_ne hj]; exact free

theorem setClient_veiled (other : j ≠ i) (x : Client α ρ) :
    (s.veiled i cl).setClient j x = (s.setClient j x).veiled i cl :=
  congrArg (fun clients => { s.veiled i cl with clients }) (List.set_comm _ _ other.symm)

theorem isQuiet_veiled (quiet : s.isQuiet = true) (idle : cl.isIdle = true) :
    (s.veiled i cl).isQuiet = true := by
  simp only [isQuiet, Bool.and_eq_true, List.all_eq_true] at quiet ⊢
  refine ⟨fun x hx => ?_, quiet.2⟩
  rcases List.mem_or_eq_of_mem_set hx with hx | rfl
  · exact quiet.1 x hx
  · exact idle

end State

theorem push_veiled (s : State α ρ) (i : Nat) (cl : Client α ρ) (ms : List (Message α)) :
    (s.veiled i cl).push ms = (s.push ms).veiled i cl := by
  rw [State.push_eq, State.push_eq]
  rfl

theorem advances_veiled {h : Host α} {s s' : State α ρ} {me : Agent} {c : Cursor α}
    {p : Progress α} {i : Nat} (cl : Client α ρ) (step : Advances h s me c s' p)
    (other : me ≠ .client i) : Advances h (s.veiled i cl) me c (s'.veiled i cl) p := by
  have given (s : State α ρ) : ({ s with lifecycle := none } : State α ρ).veiled i cl =
      { s.veiled i cl with lifecycle := none } := by
    simp [State.veiled, Client.lock]
  have taken (s : State α ρ) : ({ s with lifecycle := some me } : State α ρ).veiled i cl =
      { s.veiled i cl with lifecycle := some me } := by
    simp [State.veiled, Client.lock, other]
  cases step with
  | enter load free => rw [taken]; exact .enter load (State.lifecycle_veiled_of_free free)
  | enterJoin free => rw [taken]; exact .enterJoin (State.lifecycle_veiled_of_free free)
  | left load r =>
      have step : Advances h (s.veiled i cl) me (.leaving load r)
          ({ s.veiled i cl with lifecycle := none }.discard (load.getD [])) _ := .left load r
      rwa [← given] at step
  | reclaimSelf load t self =>
      have step : Advances h (s.veiled i cl) me (.reclaiming load t) _ _ := .reclaimSelf load t self
      simp only [State.joinSelf] at step ⊢
      rwa [given]
  | awaitSelf t self =>
      have step : Advances h (s.veiled i cl) me (.awaiting t) _ _ := .awaitSelf t self
      simp only [State.joinSelf] at step ⊢
      rwa [given]
  | pushed batch =>
      have step : Advances h (s.veiled i cl) me (.pushing batch) _ _ := .pushed batch
      rwa [push_veiled] at step
  | marked q t =>
      have step : Advances h (s.veiled i cl) me (.marking q t) _ _ := .marked q t
      rwa [push_veiled] at step
  | _ => constructor <;> assumption

theorem works_veiled {h : Host α} {s u : State α ρ} {t : Nat} {th : Thread α ρ} {i : Nat}
    {cl : Client α ρ} (hw : Works h s t th u) (quiet : s.isQuiet = true → cl.isIdle = true) :
    Works h (s.veiled i cl) t th (u.veiled i cl) := by
  cases hw with
  | call a replies c rest s' p stage step =>
      have other : Agent.thread t ≠ .client i := Agent.noConfusion
      have step := Works.call a replies c rest _ p stage (advances_veiled cl step other)
      cases p <;> exact step
  | askDrop a replies rest stage shared quiet' =>
      exact .askDrop a replies rest stage shared (State.isQuiet_veiled quiet' (quiet quiet'))
  | _ => constructor <;> assumption

theorem step_veiled {h : Host α} {s u : State α ρ} {act : Act α ρ} {i : Nat} {cl : Client α ρ}
    (step : Step h s act u) (other : act.isOf i = false)
    (quiet : s.isQuiet = true → cl.isIdle = true) :
    Step h (s.veiled i cl) act (u.veiled i cl) := by
  have ne {j : Nat} (hj : decide (j = i) = false) : j ≠ i := of_decide_eq_false hj
  cases step with
  | call j c k free other' first =>
      rw [← State.setClient_veiled (ne other)]
      refine .call j c k ((State.isFree_veiled_ne (ne other)).trans free) other' ?_
      cases c <;> exact first
  | answer j c r free other' first =>
      rw [← State.setClient_veiled (ne other)]
      refine .answer j c r ((State.isFree_veiled_ne (ne other)).trans free) other' ?_
      cases c <;> exact first
  | drop j free quiet' =>
      rw [← State.setClient_veiled (ne other)]
      exact .drop j ((State.isFree_veiled_ne (ne other)).trans free)
        (State.isQuiet_veiled quiet' (quiet quiet'))
  | register j f free =>
      rw [← State.setClient_veiled (ne other)]
      exact .register j f ((State.isFree_veiled_ne (ne other)).trans free)
  | prefer j p free quiet' =>
      have idle := quiet quiet'
      exact .prefer j p (State.isFree_veiled idle free) (State.isQuiet_veiled quiet' idle)
  | client j c s' p client step =>
      rw [← State.setClient_veiled (ne other)]
      refine .client j c _ p ((State.clients_veiled_ne (ne other)).trans client) ?_
      exact advances_veiled cl step (fun he => ne other (Agent.client.inj he))
  | place j f client free =>
      rw [← State.setClient_veiled (ne other)]
      exact .place j f ((State.clients_veiled_ne (ne other)).trans client) free
  | thread t th u thread step => exact .thread t th _ thread (works_veiled step quiet)
  | release t th a replies rest thread stage => exact .release t th a replies rest thread stage
  | stir t th thread stage => exact .stir t th thread stage

section

variable {h : Host α} {s u : State α ρ} {r : Nat → Option SystemError}

theorem advances_under {s' : State α ρ} {me : Agent} {c : Cursor α} {p : Progress α}
    (step : Advances h s me c s' p)
    (agree : s'.attempts = s.attempts ∨ r s.attempts = h.refusal s.attempts) :
    Advances { h with refusal := r } s me c s' p := by
  cases step with
  | refused load e refusal =>
      exact .refused load e ((agree.resolve_left (Nat.succ_ne_self _)).trans refusal)
  | spawned load refusal =>
      exact .spawned load ((agree.resolve_left (Nat.succ_ne_self _)).trans refusal)
  | _ => constructor <;> assumption

theorem works_under {t : Nat} {th : Thread α ρ} (hw : Works h s t th u)
    (agree : u.attempts = s.attempts ∨ r s.attempts = h.refusal s.attempts) :
    Works { h with refusal := r } s t th u := by
  cases hw with
  | call a replies c rest s' p stage step =>
      refine .call a replies c rest s' p stage (advances_under step ?_)
      cases p <;> exact agree
  | _ => constructor <;> assumption

theorem step_under {act : Act α ρ} (step : Step h s act u)
    (agree : u.attempts = s.attempts ∨ r s.attempts = h.refusal s.attempts) :
    Step { h with refusal := r } s act u := by
  cases step with
  | client i c s' p client step => exact .client i c s' p client (advances_under step agree)
  | thread t th u thread step => exact .thread t th u thread (works_under step agree)
  | _ => constructor <;> assumption

/-- What anybody else does goes on alike, whoever the client is and whatever has happened, if an
attempt to start a thread finds the system alike. -/
theorem step_recast {act : Act α ρ} {i n : Nat} {cl : Client α ρ} (step : Step h s act u)
    (other : act.isOf i = false) (quiet : s.isQuiet = true → cl.isIdle = true)
    (agree : u.attempts = s.attempts ∨ r n = h.refusal s.attempts) (l : List (Entry α ρ)) :
    ∃ n' l', Step { h with refusal := r } (s.recast i cl n l) act (u.recast i cl n' l') ∧
      n' + s.attempts = n + u.attempts := by
  have next := next_of_step step
  rw [← s.aged_forgotten, State.next?_aged] at next
  obtain ⟨v, hv, rfl⟩ := Option.map_eq_some_iff.mp next
  have veiled := step_veiled (step_of_next hv) other quiet
  have same : Step ({ h with refusal := r }.since n) (s.forgotten.veiled i cl) act
      (v.veiled i cl) := by
    apply step_under (h := h.since s.attempts) veiled
    exact agree.imp (fun same => Nat.add_left_cancel same) id
  have recast : (s.forgotten.veiled i cl).aged n l = s.recast i cl n l := by
    simp [State.aged, State.recast, State.forgotten, State.veiled]
  refine ⟨n + v.attempts, l ++ v.trace, step_of_next ?_, ?_⟩
  · rw [← recast, State.next?_aged, next_of_step same]
    rfl
  · simp only [State.aged]
    omega

end

end QueueWorker.Worker
