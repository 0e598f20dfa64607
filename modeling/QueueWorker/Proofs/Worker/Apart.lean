import QueueWorker.Proofs.Worker.Reachable

namespace QueueWorker.Worker

variable {α ρ : Type}

def Cursor.awaited? : Cursor α → Option Nat
  | .reclaiming _ t | .awaiting t | .outliving t => some t
  | _ => none

/-- No thread waits for its own end. -/
def Apart (s : State α ρ) : Prop :=
  ∀ t c, s.cursor? (.thread t) = some c → c.awaited? ≠ some t

theorem awaits_of_unwind {h : Host α} {s s' : State α ρ} {me : Agent} {c : Cursor α}
    {p : Payload} (step : Advances h s me c s' (.unwind p)) :
    ∃ t, me = .thread t ∧ c.awaited? = some t := by
  generalize hp : Progress.unwind p = q at step
  cases step with
  | reclaimSelf load t self | awaitSelf t self | outliveSelf t self => exact ⟨t, self, rfl⟩
  | stopMissed q | marked q => cases q <;> cases hp
  | _ => cases hp

theorem Civil.apart {s : State α ρ} (civil : Civil s) : Apart s := by
  intro t c hc awaits
  have modest := civil.cursor hc
  cases c with
  | reclaiming load t | awaiting t | outliving t => cases modest
  | _ => cases awaits

/-- The states of a worker that is used in any way by any clients, with callbacks of any kind, as
long as no thread comes to wait for its own end. -/
inductive Attainable (h : Host α) : State α ρ → Prop
  | create (settings : Settings) (callback : Option (Callback α ρ)) (clients : Nat) :
      Attainable h (State.create settings callback clients)
  | next {s u : State α ρ} {act : Act α ρ} (before : Attainable h s)
      (step : s.next? h act = some u) (apart : Apart u) : Attainable h u

theorem Attainable.apart {h : Host α} {s : State α ρ} (ha : Attainable h s) : Apart s := by
  cases ha with
  | create settings callback clients => intro t c hc; cases hc
  | next before step apart => exact apart

theorem Reachable.attainable {h : Host α} {s : State α ρ} (hr : Reachable h s) :
    Attainable h s := by
  induction hr with
  | create settings callback clients modest => exact .create settings callback clients
  | next before modest step ih => exact ih.next step (before.next modest step).civil.apart

/-- A run in which no thread comes to wait for its own end. -/
inductive Walk (h : Host α) : State α ρ → List (Act α ρ) → State α ρ → Prop
  | refl (s : State α ρ) : Walk h s [] s
  | cons {s v u : State α ρ} {act : Act α ρ} {acts : List (Act α ρ)}
      (step : s.next? h act = some v) (apart : Apart v) (rest : Walk h v acts u) :
      Walk h s (act :: acts) u

namespace Walk

variable {h : Host α} {s v u : State α ρ} {acts more : List (Act α ρ)}

theorem attainable (hw : Walk h s acts u) (ha : Attainable h s) : Attainable h u := by
  induction hw with
  | refl s => exact ha
  | cons step apart rest ih => exact ih (ha.next step apart)

theorem run (hw : Walk h s acts u) : s.run? h acts = some u := by
  induction hw with
  | refl s => rfl
  | cons step apart rest ih => exact Option.bind_eq_some_iff.mpr ⟨_, step, ih⟩

theorem trans (first : Walk h s acts v) (second : Walk h v more u) : Walk h s (acts ++ more) u := by
  induction first with
  | refl s => exact second
  | cons step apart rest ih => exact .cons step apart (ih second)

theorem gather_keeps {β : Type} {f : State α ρ → Act α ρ → Option β}
    {P : State α ρ → List β → Prop} {l : List β} (hw : Walk h s acts u) (ha : Attainable h s)
    (step : ∀ v w act l, Attainable h v → Step h v act w → act ∈ acts → P v l →
      P w (l ++ (f v act).toList)) (hp : P s l) : P u (l ++ s.gather h f acts) := by
  induction hw generalizing l with
  | refl s => simpa [State.gather] using hp
  | cons hv apart rest ih =>
      simp only [State.gather, hv, ← List.append_assoc]
      refine ih (ha.next hv apart) (fun w x b l hw hx hb => step w x b l hw hx ?_) ?_
      · exact List.mem_cons_of_mem _ hb
      · exact step _ _ _ _ ha (step_of_next hv) List.mem_cons_self hp

theorem of_run (hr : Reachable h s) (modest : ∀ act ∈ acts, act.Modest)
    (hs : s.run? h acts = some u) : Walk h s acts u := by
  induction acts generalizing s with
  | nil => cases hs; exact .refl _
  | cons act acts ih =>
      obtain ⟨v, hv, hu⟩ := Option.bind_eq_some_iff.mp hs
      have hr' := hr.next (modest act List.mem_cons_self) hv
      exact .cons hv hr'.civil.apart
        (ih hr' (fun b hb => modest b (List.mem_cons_of_mem act hb)) hu)

end Walk

end QueueWorker.Worker
