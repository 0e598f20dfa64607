import QueueWorker.Proofs.Worker.Reachable

namespace QueueWorker.Worker

variable {α ρ : Type}

/-- A callback goes by its items and by its own past, and leaves its worker alone. -/
def Script.Aloof : Script α ρ → Prop
  | .finish | .unwind _ => True
  | .report _ rest => rest.Aloof
  | .self rest => ∀ me, (rest me).Aloof
  | .hold _ | .ask .. => False

def Callback.Aloof (f : Callback α ρ) : Prop := ∀ visits a, Script.Aloof (f visits a)

def Stage.Aloof : Stage α ρ → Prop
  | .running _ _ script => script.Aloof
  | .calling .. => False
  | _ => True

theorem Stage.Aloof.silent {stage : Stage α ρ} (aloof : stage.Aloof) : stage.cursor? = none := by
  cases stage <;> first | rfl | exact aloof.elim

/-- The threads see nothing of the worker but its queue. -/
structure Secluded (s : State α ρ) : Prop where
  slot : ∀ f, s.slot.callback = some f → Callback.Aloof f
  threads : ∀ (t : Nat) (th : Thread α ρ), s.threads[t]? = some th → th.stage.Aloof

theorem Secluded.isQuiet_eq {s : State α ρ} (hs : Secluded s) :
    s.isQuiet = s.clients.all Client.isIdle := by
  have none : s.threads.all (fun th => !th.stage.isCalling) = true := by
    rw [List.all_eq_true]
    intro th hm
    obtain ⟨t, ht⟩ := List.mem_iff_getElem?.mp hm
    have aloof := hs.threads t th ht
    cases hst : th.stage <;> simp_all [Stage.Aloof, Stage.isCalling]
  rw [State.isQuiet, none, Bool.and_true]

theorem Script.modest_of_aloof {script : Script α ρ} (aloof : script.Aloof) : script.Modest := by
  induction script with
  | finish | unwind => trivial
  | report e rest ih => exact ih aloof
  | self rest ih => exact fun me => ih me (aloof me)
  | hold | ask => exact aloof.elim

theorem Callback.modest_of_aloof {f : Callback α ρ} (aloof : f.Aloof) : f.Modest :=
  fun visits a => Script.modest_of_aloof (aloof visits a)

theorem secluded_create (settings : Settings) (callback : Option (Callback α ρ)) (clients : Nat)
    (aloof : ∀ f, callback = some f → Callback.Aloof f) :
    Secluded (State.create settings callback clients) :=
  ⟨aloof, by simp [State.create]⟩

namespace Secluded

variable {h : Host α} {s v : State α ρ}

theorem congr (hs : Secluded s) (slot : v.slot = s.slot) (threads : v.threads = s.threads) :
    Secluded v :=
  ⟨by rw [slot]; exact hs.slot, by rw [threads]; exact hs.threads⟩

theorem setStage {t : Nat} {stage : Stage α ρ} (hs : Secluded s)
    (slot : v.slot.callback = s.slot.callback) (threads : v.threads = s.threads)
    (aloof : stage.Aloof) : Secluded (v.setStage t stage) := by
  refine ⟨fun f hf => hs.slot f (slot ▸ hf), ?_⟩
  exact State.forall_setStage aloof (by rw [threads]; exact hs.threads)

theorem advances {me : Agent} {c : Cursor α} {p : Progress α} (hs : Secluded s)
    (step : Advances h s me c v p) : Secluded v := by
  cases step with
  | spawned load =>
      have new : Stage.Aloof (.starting : Stage α ρ) := trivial
      exact ⟨hs.slot, State.forall_append new hs.threads⟩
  | pushed batch | marked p t =>
      rw [State.push_eq]
      exact ⟨hs.slot, State.forall_roused trivial hs.threads _⟩
  | _ => exact hs.congr rfl rfl

theorem works {t : Nat} {th : Thread α ρ} (hs : Secluded s) (ht : s.threads[t]? = some th)
    (hw : Works h s t th v) : Secluded v := by
  have old := hs.threads t th ht
  cases hw with
  | start stage =>
      have new : Stage.Aloof (.polling : Stage α ρ) := trivial
      exact ⟨hs.slot, State.forall_set new hs.threads⟩
  | begin a f stage free callback => exact hs.setStage rfl rfl (hs.slot f callback _ a)
  | report a replies e rest stage => rw [stage] at old; exact hs.setStage rfl rfl old
  | self a replies rest stage => rw [stage] at old; exact hs.setStage rfl rfl (old _)
  | askGone _ _ _ _ stage | askDrop _ _ _ stage | ask _ _ _ _ _ stage | askNow _ _ _ _ _ stage
  | call _ _ _ _ _ _ stage => rw [stage] at old; exact old.elim
  | skip a stage => exact hs.setStage rfl rfl (by cases h.disposal a <;> trivial)
  | letGo p stage => exact hs.setStage rfl rfl (by cases p.bind Payload.relic? <;> trivial)
  | _ => exact hs.setStage rfl rfl trivial

end Secluded

end QueueWorker.Worker
