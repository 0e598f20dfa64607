import Mathlib.Tactic.Common
import QueueWorker.Worker.Step

namespace QueueWorker.Worker

variable {α ρ : Type}

/-- One step of a call, case by case, with all that it finds and all that it changes. -/
inductive Advances (h : Host α) (s : State α ρ) (me : Agent) :
    Cursor α → State α ρ → Progress α → Prop
  | enter (load) (free : s.lifecycle = none) :
      Advances h s me (.entering load) { s with lifecycle := some me } (.at (.ensuring load))
  | ready (t) (open' : s.guard = none) (phase : s.phase = .running t) :
      Advances h s me (.ensuring none) s (.at (.leaving none .done))
  | loaded (t) (batch) (open' : s.guard = none) (phase : s.phase = .running t) :
      Advances h s me (.ensuring (some batch)) s (.at (.checking batch))
  | reclaim (load t) (open' : s.guard = none) (phase : s.phase = .stopping t) :
      Advances h s me (.ensuring load) { s with phase := .joining } (.at (.reclaiming load t))
  | vacate (load) (open' : s.guard = none) (phase : s.phase = .idle ∨ s.phase = .joining) :
      Advances h s me (.ensuring load) { s with phase := .idle } (.at (.spawning load))
  | reclaimSelf (load t) (self : me = .thread t) :
      Advances h s me (.reclaiming load t) (s.discard (load.getD [])).joinSelf.1
        (.unwind .selfJoin)
  | reclaimed (load t) (other : me ≠ .thread t) (ended : s.end? t = some none) :
      Advances h s me (.reclaiming load t) (s.log me .joined) (.at (.spawning load))
  | reclaimedDead (load t p) (other : me ≠ .thread t) (ended : s.end? t = some (some p)) :
      Advances h s me (.reclaiming load t) (s.log me (.reclaimed (s.joinFault p)))
        (.at (.spawning load))
  | refused (load e) (refusal : h.refusal s.attempts = some e) :
      Advances h s me (.spawning load) { s with attempts := s.attempts + 1 }
        (.at (.abandoning load (.spawn s.settings.name "Cannot create thread" (some e))))
  | spawned (load) (refusal : h.refusal s.attempts = none) :
      Advances h s me (.spawning load)
        { s with
          attempts := s.attempts + 1
          threads := s.threads ++ [{ priority := s.settings.priority }] }
        (.at (.counting load s.threads.length))
  | counted (load t) :
      Advances h s me (.counting load t) { s with stats := s.stats.add .spawned 1 }
        (.at (.announcing load t))
  | announced (load t th) (thread : s.threads[t]? = some th) :
      Advances h s me (.announcing load t) (s.log me (.spawned th.priority))
        (.at (.adopting load t))
  | adopted (t) (open' : s.guard = none) :
      Advances h s me (.adopting none t) { s with phase := .running t }
        (.at (.leaving none .done))
  | adoptedLoaded (t batch) (open' : s.guard = none) :
      Advances h s me (.adopting (some batch) t) { s with phase := .running t }
        (.at (.checking batch))
  | abandoned (load f) (open' : s.guard = none) :
      Advances h s me (.abandoning load f) { s with phase := .idle }
        (.at (.leaving load (.failed f)))
  | found (batch t) (open' : s.guard = none) (phase : s.phase = .running t) :
      Advances h s me (.checking batch) { s with guard := some me } (.at (.pushing batch))
  | missed (batch) (open' : s.guard = none) (phase : ∀ t, s.phase ≠ .running t) :
      Advances h s me (.checking batch) s (.at (.ensuring (some batch)))
  | pushed (batch) :
      Advances h s me (.pushing batch)
        ({ s.push (batch.map .item) with guard := none }.note (.queued me batch))
        (.at (.leaving none .done))
  | left (load r) :
      Advances h s me (.leaving load r) ({ s with lifecycle := none }.discard (load.getD []))
        (.answer r)
  | stopFound (p t) (open' : s.guard = none) (phase : s.phase = .running t) :
      Advances h s me (.stopping p) { s with guard := some me } (.at (.marking p t))
  | stopMissed (p) (open' : s.guard = none) (phase : ∀ t, s.phase ≠ .running t) :
      Advances h s me (.stopping p) s p.next
  | marked (p t) :
      Advances h s me (.marking p t) { s.push [.stop] with phase := .stopping t, guard := none }
        p.next
  | enterJoin (free : s.lifecycle = none) :
      Advances h s me .enteringJoin { s with lifecycle := some me } (.at (.stopping .join))
  | taken (t) (open' : s.guard = none) (phase : s.phase = .stopping t) :
      Advances h s me .taking { s with phase := .joining } (.at (.awaiting t))
  | takenNone (open' : s.guard = none) (phase : ∀ t, s.phase ≠ .stopping t) :
      Advances h s me .taking s (.at (.leaving none .done))
  | awaitSelf (t) (self : me = .thread t) :
      Advances h s me (.awaiting t) s.joinSelf.1 (.unwind .selfJoin)
  | awaited (t) (other : me ≠ .thread t) (ended : s.end? t = some none) :
      Advances h s me (.awaiting t) (s.log me .joined) (.at (.settling .done))
  | awaitedDead (t p) (other : me ≠ .thread t) (ended : s.end? t = some (some p)) :
      Advances h s me (.awaiting t) s (.at (.settling (.failed (s.joinFault p))))
  | settled (r) (open' : s.guard = none) :
      Advances h s me (.settling r) { s with phase := .idle } (.at (.leaving none r))
  | retired (t) (phase : s.phase = .stopping t) :
      Advances h s me .retiring { s with phase := .idle } (.at (.outliving t))
  | retiredNone (phase : ∀ t, s.phase ≠ .stopping t) :
      Advances h s me .retiring s (.at .sweeping)
  | outliveSelf (t) (self : me = .thread t) :
      Advances h s me (.outliving t) { s with owner := .gone } (.unwind .selfJoin)
  | outlived (t) (other : me ≠ .thread t) (ended : s.end? t = some none) :
      Advances h s me (.outliving t) (s.log me .joined) (.at .sweeping)
  | outlivedDead (t p) (other : me ≠ .thread t) (ended : s.end? t = some (some p)) :
      Advances h s me (.outliving t) (s.log me (.outlived (s.joinFault p))) (.at .sweeping)
  | swept (all : s.threads.all (fun th => th.stage.end?.isSome)) :
      Advances h s me .sweeping
        ({ s with owner := .gone, queue := [] }.discard (s.queue.filterMap Message.item?))
        (.answer .done)
  | sweptEarly (some' : s.threads.all (fun th => th.stage.end?.isSome) = false) :
      Advances h s me .sweeping { s with owner := .gone } (.answer .done)
  | status (open' : s.guard = none) :
      Advances h s me .readingStatus s (.answer (.status s.phase.status))
  | length : Advances h s me .readingLength s (.answer (.length s.queue.length))

theorem advances_of_advance {h : Host α} {s s' : State α ρ} {me : Agent} {c : Cursor α}
    {p : Progress α} (hs : s.advance h me c = some (s', p)) : Advances h s me c s' p := by
  cases c with
  | entering load =>
      simp only [State.advance] at hs
      split at hs
      next hl => cases hs; exact .enter load hl
      next => cases hs
  | ensuring load =>
      simp only [State.advance, ne_eq, ite_not] at hs
      split at hs
      next hg =>
        cases hp : s.phase with
        | running t =>
            cases load with
            | none => simp only [hp] at hs; cases hs; exact .ready t hg hp
            | some batch => simp only [hp] at hs; cases hs; exact .loaded t batch hg hp
        | stopping t => simp only [hp] at hs; cases hs; exact .reclaim load t hg hp
        | idle => simp only [hp] at hs; cases hs; exact .vacate load hg (.inl hp)
        | joining => simp only [hp] at hs; cases hs; exact .vacate load hg (.inr hp)
      next => cases hs
  | reclaiming load t =>
      simp only [State.advance] at hs
      split at hs
      next hm => cases hs; exact .reclaimSelf load t hm
      next hm =>
        rcases he : s.end? t with _ | _ | p <;> simp only [he] at hs <;> cases hs
        · exact .reclaimed load t hm he
        · exact .reclaimedDead load t p hm he
  | spawning load =>
      cases hr : h.refusal s.attempts with
      | none => simp only [State.advance, hr] at hs; cases hs; exact .spawned load hr
      | some e => simp only [State.advance, hr] at hs; cases hs; exact .refused load e hr
  | counting load t => cases hs; exact .counted load t
  | announcing load t =>
      simp only [State.advance] at hs
      cases ht : s.threads[t]? with
      | none => simp only [ht] at hs; cases hs
      | some th => simp only [ht] at hs; cases hs; exact .announced load t th ht
  | adopting load t =>
      simp only [State.advance, ne_eq, ite_not] at hs
      split at hs
      next hg =>
        cases load with
        | none => cases hs; exact .adopted t hg
        | some batch => cases hs; exact .adoptedLoaded t batch hg
      next => cases hs
  | abandoning load f =>
      simp only [State.advance, ne_eq, ite_not] at hs
      split at hs
      next hg => cases hs; exact .abandoned load f hg
      next => cases hs
  | checking batch =>
      simp only [State.advance, ne_eq, ite_not] at hs
      split at hs
      next hg =>
        split at hs
        next t hp => cases hs; exact .found batch t hg hp
        next hp => cases hs; exact .missed batch hg hp
      next => cases hs
  | pushing batch => cases hs; exact .pushed batch
  | leaving load r => cases hs; exact .left load r
  | stopping p =>
      simp only [State.advance, ne_eq, ite_not] at hs
      split at hs
      next hg =>
        split at hs
        next t hp => cases hs; exact .stopFound p t hg hp
        next hp => cases hs; exact .stopMissed p hg hp
      next => cases hs
  | marking p t => cases hs; exact .marked p t
  | enteringJoin =>
      simp only [State.advance] at hs
      split at hs
      next hl => cases hs; exact .enterJoin hl
      next => cases hs
  | taking =>
      simp only [State.advance, ne_eq, ite_not] at hs
      split at hs
      next hg =>
        split at hs
        next t hp => cases hs; exact .taken t hg hp
        next hp => cases hs; exact .takenNone hg hp
      next => cases hs
  | awaiting t =>
      simp only [State.advance] at hs
      split at hs
      next hm => cases hs; exact .awaitSelf t hm
      next hm =>
        rcases he : s.end? t with _ | _ | p <;> simp only [he] at hs <;> cases hs
        · exact .awaited t hm he
        · exact .awaitedDead t p hm he
  | settling r =>
      simp only [State.advance, ne_eq, ite_not] at hs
      split at hs
      next hg => cases hs; exact .settled r hg
      next => cases hs
  | retiring =>
      simp only [State.advance] at hs
      split at hs
      next t hp => cases hs; exact .retired t hp
      next hp => cases hs; exact .retiredNone hp
  | outliving t =>
      simp only [State.advance] at hs
      split at hs
      next hm => cases hs; exact .outliveSelf t hm
      next hm =>
        rcases he : s.end? t with _ | _ | p <;> simp only [he] at hs <;> cases hs
        · exact .outlived t hm he
        · exact .outlivedDead t p hm he
  | sweeping =>
      simp only [State.advance] at hs
      split at hs
      next ha => cases hs; exact .swept ha
      next ha => cases hs; exact .sweptEarly (by simpa using ha)
  | readingStatus =>
      simp only [State.advance] at hs
      split at hs
      next hg => cases hs; exact .status hg
      next => cases hs
  | readingLength => cases hs; exact .length

def State.resume (s : State α ρ) (t : Nat) (a : α) (replies : List Reply)
    (rest : Reply → Script α ρ) : Progress α → State α ρ
  | .at c => s.setStage t (.calling a replies c rest)
  | .answer r => s.setStage t (.running a (replies ++ [r]) (rest r))
  | .unwind p => s.conclude t a replies (some p)

/-- One step of a thread, case by case. -/
inductive Works (h : Host α) (s : State α ρ) (t : Nat) (th : Thread α ρ) : State α ρ → Prop
  | start (stage : th.stage = .starting) :
      Works h s t th { s with
        threads := s.threads.set t
          { th with standing := th.priority.apply th.standing, stage := .polling } }
  | sleep (stage : th.stage = .polling) (queue : s.queue = []) :
      Works h s t th (s.setStage t .sleeping)
  | fetch (a ms) (stage : th.stage = .polling) (queue : s.queue = .item a :: ms) :
      Works h s t th ({ s with queue := ms }.setStage t (.fetched a))
  | halt (ms) (stage : th.stage = .polling) (queue : s.queue = .stop :: ms) :
      Works h s t th ({ s with queue := ms }.setStage t .exiting)
  | lack (a) (stage : th.stage = .fetched a) (free : s.slot.holder = none)
      (callback : s.slot.callback = none) :
      Works h s t th
        ({ s with slot := { s.slot with holder := some t } }.setStage t (.lacking a))
  | begin (a f) (stage : th.stage = .fetched a) (free : s.slot.holder = none)
      (callback : s.slot.callback = some f) :
      Works h s t th
        (({ s with slot := { s.slot with holder := some t } }.note
          (.began t s.slot.version a)).setStage t (.running a [] (f s.slot.visits a)))
  | warn (a) (stage : th.stage = .lacking a) :
      Works h s t th ((s.log (.thread t) .lacking).setStage t (.skipping a))
  | skip (a) (stage : th.stage = .skipping a) :
      Works h s t th (((s.count t a .skipped).discard [a]).letGo t (h.disposal a))
  | finish (a replies) (stage : th.stage = .running a replies .finish) :
      Works h s t th (s.conclude t a replies (h.disposal a))
  | unwind (a replies p) (stage : th.stage = .running a replies (.unwind p)) :
      Works h s t th (s.conclude t a replies (some p))
  | report (a replies e rest) (stage : th.stage = .running a replies (.report e rest)) :
      Works h s t th ((s.note (.reported t e)).setStage t (.running a replies rest))
  | self (a replies rest) (stage : th.stage = .running a replies (.self rest)) :
      Works h s t th
        (s.setStage t (.running a replies (rest ⟨s.settings.name, th.standing⟩)))
  | askGone (a replies c rest) (stage : th.stage = .running a replies (.ask c rest))
      (gone : s.owner ≠ .shared) :
      Works h s t th (s.setStage t (.running a (replies ++ [.gone]) (rest .gone)))
  | askDrop (a replies rest) (stage : th.stage = .running a replies (.ask .drop rest))
      (shared : s.owner = .shared) (quiet : s.isQuiet) :
      Works h s t th
        ({ s with owner := .dropping }.setStage t (.calling a replies (.stopping .drop) rest))
  | ask (a replies c rest k) (stage : th.stage = .running a replies (.ask c rest))
      (shared : s.owner = .shared) (other : c ≠ .drop) (first : c.begin s = .at k) :
      Works h s t th (s.setStage t (.calling a replies k rest))
  | askNow (a replies c rest r) (stage : th.stage = .running a replies (.ask c rest))
      (shared : s.owner = .shared) (other : c ≠ .drop) (first : c.begin s = .answer r) :
      Works h s t th (s.setStage t (.running a (replies ++ [r]) (rest r)))
  | call (a replies c rest s' p) (stage : th.stage = .calling a replies c rest)
      (step : Advances h s (.thread t) c s' p) : Works h s t th (s'.resume t a replies rest p)
  | returned (a) (stage : th.stage = .concluded a none) :
      Works h s t th (((s.clock h).count t a .returned).setStage t (.leaving none))
  | caught (a p) (stage : th.stage = .concluded a (some p)) :
      Works h s t th
        (((s.clock h).log (.thread t) (.panicked p.message)).setStage t (.noted a p))
  | panicked (a p) (stage : th.stage = .noted a p) :
      Works h s t th ((s.count t a (.panicked p)).setStage t (.leaving (some p)))
  | letGo (p) (stage : th.stage = .leaving p) :
      Works h s t th (s.letGo t (p.bind Payload.relic?))
  | exit (stage : th.stage = .exiting) :
      Works h s t th
        ((s.log (.thread t) (.exiting s.stats.processed.toNat)).setStage t .exited)

theorem begin_ne_unwind (s : State α ρ) (c : Call α) (p : Payload) : c.begin s ≠ .unwind p := by
  cases c <;> simp [Call.begin]

theorem works_of_ask {h : Host α} {s u : State α ρ} {t : Nat} {th : Thread α ρ} {a : α}
    {replies : List Reply} {c : Call α} {rest : Reply → Script α ρ}
    (stage : th.stage = .running a replies (.ask c rest))
    (hs : s.ask? t a replies c rest = some u) : Works h s t th u := by
  simp only [State.ask?] at hs
  split at hs
  next ho => cases hs; exact .askGone a replies c rest stage ho
  next ho =>
    have ho : s.owner = .shared := not_not.mp ho
    split at hs
    next =>
      simp only [if_true] at hs
      split at hs
      next hq => cases hs; exact .askDrop a replies rest stage ho hq
      next => cases hs
    next hc =>
      simp only [Bool.false_eq_true, if_false] at hs
      split at hs
      next k hb => cases hs; exact .ask a replies c rest k stage ho hc hb
      next r hb => cases hs; exact .askNow a replies c rest r stage ho hc hb
      next p hb => exact absurd hb (begin_ne_unwind s c p)

theorem works_of_work {h : Host α} {s u : State α ρ} {t : Nat} {th : Thread α ρ}
    (hs : s.work? h t th = some u) : Works h s t th u := by
  cases hst : th.stage with
  | starting => simp only [State.work?, hst] at hs; cases hs; exact .start hst
  | polling =>
      simp only [State.work?, hst, State.poll] at hs
      cases hs
      split
      next hq => exact .sleep hst hq
      next a ms hq => exact .fetch a ms hst hq
      next ms hq => exact .halt ms hst hq
  | sleeping | exited | dead => simp only [State.work?, hst] at hs; cases hs
  | fetched a =>
      simp only [State.work?, hst, State.invoke?, ne_eq, ite_not] at hs
      split at hs
      next hf =>
        split at hs
        next hc => cases hs; exact .lack a hst hf hc
        next f hc => cases hs; exact .begin a f hst hf hc
      next => cases hs
  | lacking a => simp only [State.work?, hst] at hs; cases hs; exact .warn a hst
  | skipping a => simp only [State.work?, hst] at hs; cases hs; exact .skip a hst
  | running a replies script =>
      simp only [State.work?, hst] at hs
      cases script with
      | finish => cases hs; exact .finish a replies hst
      | unwind p => cases hs; exact .unwind a replies p hst
      | hold rest => cases hs
      | report e rest => cases hs; exact .report a replies e rest hst
      | self rest => cases hs; exact .self a replies rest hst
      | ask c rest => exact works_of_ask hst hs
  | calling a replies c rest =>
      simp only [State.work?, hst] at hs
      split at hs
      next => cases hs
      next s' k ha => cases hs; exact .call a replies c rest s' _ hst (advances_of_advance ha)
      next s' r ha => cases hs; exact .call a replies c rest s' _ hst (advances_of_advance ha)
      next s' p ha => cases hs; exact .call a replies c rest s' _ hst (advances_of_advance ha)
  | concluded a o =>
      simp only [State.work?, hst] at hs
      cases o with
      | none => cases hs; exact .returned a hst
      | some p => cases hs; exact .caught a p hst
  | noted a p => simp only [State.work?, hst] at hs; cases hs; exact .panicked a p hst
  | leaving p => simp only [State.work?, hst] at hs; cases hs; exact .letGo p hst
  | exiting => simp only [State.work?, hst] at hs; cases hs; exact .exit hst

def Progress.client : Progress α → Client α ρ
  | .at c => .calling c
  | .answer r => .idle (some r)
  | .unwind _ => .idle none

/-- One step of a worker with all its clients and threads. -/
inductive Step (h : Host α) (s : State α ρ) : Act α ρ → State α ρ → Prop
  | call (i c k) (free : s.isFree i) (other : c ≠ .drop) (first : c.begin s = .at k) :
      Step h s (.call i c) (s.setClient i (.calling k))
  | answer (i c r) (free : s.isFree i) (other : c ≠ .drop) (first : c.begin s = .answer r) :
      Step h s (.call i c) (s.setClient i (.idle (some r)))
  | drop (i) (free : s.isFree i) (quiet : s.isQuiet) :
      Step h s (.call i .drop)
        ({ s with owner := .dropping }.setClient i (.calling (.stopping .drop)))
  | register (i f) (free : s.isFree i) :
      Step h s (.register i f) (s.setClient i (.registering f))
  | prefer (i p) (free : s.isFree i) (quiet : s.isQuiet) :
      Step h s (.prefer i p) { s with settings := s.settings.withPriority p }
  | client (i c s' p) (client : s.clients[i]? = some (.calling c))
      (step : Advances h s (.client i) c s' p) :
      Step h s (.client i) (s'.setClient i p.client)
  | place (i f) (client : s.clients[i]? = some (.registering f)) (free : s.slot.holder = none) :
      Step h s (.client i)
        ({ s with slot := { callback := some f, version := s.slot.version + 1 } }.setClient i
          (.idle (some .done)))
  | thread (t th u) (thread : s.threads[t]? = some th) (step : Works h s t th u) :
      Step h s (.thread t) u
  | release (t th a replies rest) (thread : s.threads[t]? = some th)
      (stage : th.stage = .running a replies (.hold rest)) :
      Step h s (.release t) (s.setStage t (.running a replies rest))
  | stir (t th) (thread : s.threads[t]? = some th) (stage : th.stage = .sleeping) :
      Step h s (.stir t) (s.setStage t .polling)

theorem step_of_serve {h : Host α} {s u : State α ρ} {i : Nat} {c : Client α ρ}
    (hc : s.clients[i]? = some c) (hs : s.serve? h i c = some u) : Step h s (.client i) u := by
  cases c with
  | idle r => cases hs
  | calling k =>
      simp only [State.serve?] at hs
      split at hs
      next => cases hs
      next s' k' ha => cases hs; exact .client i k s' _ hc (advances_of_advance ha)
      next s' r ha => cases hs; exact .client i k s' _ hc (advances_of_advance ha)
      next s' p ha => cases hs; exact .client i k s' _ hc (advances_of_advance ha)
  | registering f =>
      simp only [State.serve?, ne_eq, ite_not] at hs
      split at hs
      next hf => cases hs; exact .place i f hc hf
      next => cases hs

theorem step_of_call {h : Host α} {s u : State α ρ} {i : Nat} {c : Call α} (hi : s.isFree i)
    (hs : s.call? i c = some u) : Step h s (.call i c) u := by
  simp only [State.call?] at hs
  split at hs
  next =>
    simp only [if_true] at hs
    split at hs
    next hq => cases hs; exact .drop i hi hq
    next => cases hs
  next hc =>
    simp only [Bool.false_eq_true, if_false] at hs
    split at hs
    next k hb => cases hs; exact .call i c k hi hc hb
    next r hb => cases hs; exact .answer i c r hi hc hb
    next p hb => exact absurd hb (begin_ne_unwind s c p)

theorem step_of_next {h : Host α} {s u : State α ρ} {act : Act α ρ}
    (hs : s.next? h act = some u) : Step h s act u := by
  cases act with
  | call i c =>
      simp only [State.next?] at hs
      split at hs
      next hi => exact step_of_call hi hs
      next => cases hs
  | register i f =>
      simp only [State.next?] at hs
      split at hs
      next hi => cases hs; exact .register i f hi
      next => cases hs
  | prefer i p =>
      simp only [State.next?, Bool.and_eq_true] at hs
      split at hs
      next hi => cases hs; exact .prefer i p hi.1 hi.2
      next => cases hs
  | client i =>
      obtain ⟨c, hc, hs⟩ := Option.bind_eq_some_iff.mp hs
      exact step_of_serve hc hs
  | thread t =>
      obtain ⟨th, ht, hs⟩ := Option.bind_eq_some_iff.mp hs
      exact .thread t th u ht (works_of_work hs)
  | release t =>
      simp only [State.next?] at hs
      split at hs
      next a replies rest hst =>
        cases hs
        obtain ⟨th, ht, hst⟩ := Option.map_eq_some_iff.mp hst
        exact .release t th a replies rest ht hst
      next => cases hs
  | stir t =>
      simp only [State.next?] at hs
      split at hs
      next hst =>
        cases hs
        obtain ⟨th, ht, hst⟩ := Option.map_eq_some_iff.mp hst
        exact .stir t th ht hst
      next => cases hs

theorem advance_of_advances {h : Host α} {s s' : State α ρ} {me : Agent} {c : Cursor α}
    {p : Progress α} (step : Advances h s me c s' p) : s.advance h me c = some (s', p) := by
  cases step with
  | vacate load open' phase =>
      rcases phase with phase | phase <;> simp [State.advance, open', phase]
  | missed batch open' phase | stopMissed q open' phase | takenNone open' phase
  | retiredNone phase => cases hp : s.phase <;> simp_all [State.advance]
  | reclaimSelf load t self | awaitSelf t self => simp only [State.advance, self]; rfl
  | sweptEarly some' => simp [State.advance, some']
  | _ => simp_all [State.advance]

theorem work_of_works {h : Host α} {s u : State α ρ} {t : Nat} {th : Thread α ρ}
    (step : Works h s t th u) : s.work? h t th = some u := by
  cases step with
  | call a replies c rest s' p stage step =>
      cases p <;> simp [State.work?, stage, advance_of_advances step, State.resume]
  | ask a replies c rest k stage shared other first =>
      cases c <;> simp_all [State.work?, State.follow?, State.ask?]
  | askNow a replies c rest r stage shared other first =>
      cases c <;> simp_all [State.work?, State.follow?, State.ask?]
  | _ => simp_all [State.work?, State.follow?, State.ask?, State.poll, State.invoke?]

theorem next_of_step {h : Host α} {s u : State α ρ} {act : Act α ρ} (step : Step h s act u) :
    s.next? h act = some u := by
  cases step with
  | call i c k free other first => cases c <;> simp_all [State.next?, State.call?]
  | answer i c r free other first => cases c <;> simp_all [State.next?, State.call?]
  | client i c s' p client step =>
      have turn := advance_of_advances step
      cases p <;> simp [State.next?, client, State.serve?, turn, Progress.client]
  | thread t th u thread step => simp [State.next?, thread, work_of_works step]
  | _ => simp_all [State.next?, State.call?, State.serve?]

end QueueWorker.Worker
