import QueueWorker.Proofs.Worker.Drain
import QueueWorker.Proofs.Worker.Waiting

namespace QueueWorker.Worker

variable {α ρ : Type}

@[simp] def Entry.serving : Entry α ρ → List (Nat × α)
  | .began t _ a => [(t, a)]
  | .counted t a .skipped => [(t, a)]
  | _ => []

def Call.sends? : Call α → Option (List α)
  | .send a => some [a]
  | .sendAll as => some as
  | _ => none

namespace State

/-- The items handled so far, each with its thread. -/
def servings (s : State α ρ) : List (Nat × α) := s.trace.flatMap Entry.serving

/-- At some time there had been so many items pushed. -/
def IsSeam (s : State α ρ) (n : Nat) : Prop :=
  ∃ before, before <+: s.trace ∧ (before.flatMap Entry.pushed).length = n

/-- The batch stands at place `n` of all that has been pushed, and whatever has been handled of it
has been handled there, by a single thread. -/
structure Placed (s : State α ρ) (n : Nat) (as : List α) : Prop where
  pushed : (s.pushed.drop n).take as.length = as
  served : ∃ t, (s.servings.drop n).take as.length =
    (as.take (s.servings.length - n)).map (Prod.mk t)

theorem map_servings (s : State α ρ) : s.servings.map Prod.snd = s.handled := by
  simp only [servings, handled, List.map_flatMap]
  congr 1
  funext e
  cases e with
  | counted t a o => cases o <;> rfl
  | _ => rfl

@[simp] theorem servings_discard (s : State α ρ) (as : List α) :
    (s.discard as).servings = s.servings := by
  simp [servings, discard]

theorem IsSeam.mono {s u : State α ρ} {n : Nat} (seam : s.IsSeam n) (grown : s.trace <+: u.trace) :
    u.IsSeam n := by
  obtain ⟨before, prior, length⟩ := seam
  exact ⟨before, prior.trans grown, length⟩

end State

theorem servings_advances {h : Host α} {s s' : State α ρ} {me : Agent} {c : Cursor α}
    {p : Progress α} (step : Advances h s me c s' p) : s'.servings = s.servings := by
  cases step with
  | pushed batch | marked q t =>
      rw [State.push_eq]
      simp [State.servings, State.note]
  | left | reclaimSelf | swept => exact State.servings_discard ..
  | _ => simp [State.servings, State.log, State.note, State.joinSelf]

theorem servings_works {h : Host α} {s u : State α ρ} {t : Nat} {th : Thread α ρ}
    (hw : Works h s t th u) :
    u.servings = s.servings ∨ ∃ a, u.servings = s.servings ++ [(t, a)] := by
  cases hw with
  | begin a f | skip a =>
      right
      exact ⟨a, by
        simp [State.servings, State.setStage, State.letGo, State.count, State.discard, State.note]⟩
  | call a replies c rest s' p stage step =>
      have same := servings_advances step
      left
      cases p <;> exact same
  | _ =>
      left
      simp [State.servings, State.setStage, State.conclude, State.letGo, State.count, State.log,
        State.note, State.clock]

theorem servings_step {h : Host α} {s u : State α ρ} {act : Act α ρ} (step : Step h s act u) :
    u.servings = s.servings ∨ ∃ t a, s.IsAlive t ∧ u.servings = s.servings ++ [(t, a)] := by
  cases step with
  | client i c s' p client step =>
      have same := servings_advances step
      exact .inl same
  | thread t th u thread step =>
      obtain same | ⟨a, more⟩ := servings_works step
      · exact .inl same
      · exact .inr ⟨t, a, State.isAlive_iff.mpr
          ⟨_, State.grades_of_thread thread, running_of_works step⟩, more⟩
  | _ => exact .inl rfl

theorem isAlive_step {h : Host α} {s u : State α ρ} {act : Act α ρ} {t : Nat}
    (hr : Reachable h s) (step : Step h s act u) (alive : u.IsAlive t) :
    s.IsAlive t ∨ ∃ i load, s.cursor? (.client i) = some (.spawning load) := by
  obtain same | ⟨i, load, -, spawning⟩ := spawning_step hr.attainable step
  · left
    obtain ⟨bound, going⟩ := isAlive_iff_end?.mp alive
    refine isAlive_iff_end?.mpr ⟨same ▸ bound, ?_⟩
    cases ended : s.end? t with
    | none => rfl
    | some e => rw [end?_step step ended] at going; cases going
  · exact .inr ⟨i, load, spawning⟩

theorem Delivered.handled_of_nobody {s : State α ρ} (hs : Delivered s) (queue : s.queue = [])
    (ended : ∀ t, ¬ s.IsAlive t) : s.handled = s.pushed := by
  have handled := hs.handled
  rw [waiting_of_nobody ended, State.queued, queue, List.filterMap_nil, List.append_nil,
    List.append_nil] at handled
  exact handled.symm

theorem Reachable.isSeam_of_spawning {h : Host α} {s : State α ρ} {a : Agent}
    {load : Option (List α)} (hr : Reachable h s) (unhurt : s.IsUnhurt)
    (spawning : s.cursor? a = some (.spawning load)) : s.IsSeam s.servings.length := by
  have drained := hr.isDrained_of_vacant unhurt spawning rfl
  have handled := (hr.delivered (hr.here spawning)).handled_of_nobody drained.queue drained.ended
  refine ⟨s.trace, List.prefix_rfl, ?_⟩
  calc s.pushed.length
    _ = (s.servings.map Prod.snd).length := by rw [← handled, s.map_servings]
    _ = s.servings.length := List.length_map ..

/-- Threads take turns at seams. Two items in a row that are handled by different threads have one
between them, and so will the next item if the thread alive has handled none yet. -/
structure Handover (s : State α ρ) : Prop where
  seams : ∀ n x y, s.servings[n]? = some x → s.servings[n + 1]? = some y → x.1 ≠ y.1 →
    s.IsSeam (n + 1)
  fresh : ∀ t, s.IsAlive t → (∀ x, s.servings.getLast? = some x → x.1 ≠ t) →
    s.IsSeam s.servings.length

namespace Handover

variable {h : Host α} {s u : State α ρ} {act : Act α ρ}

theorem keep (hs : Handover s) (hr : Reachable h s) (unhurt : s.IsUnhurt) (step : Step h s act u)
    (same : u.servings = s.servings) : Handover u := by
  have grown := trace_step step
  constructor
  · intro n x y hx hy ne
    rw [same] at hx hy
    exact (hs.seams n x y hx hy ne).mono grown
  · intro t alive last
    rw [same] at last ⊢
    obtain before | ⟨i, load, spawning⟩ := isAlive_step hr step alive
    · exact (hs.fresh t before last).mono grown
    · exact (hr.isSeam_of_spawning unhurt spawning).mono grown

theorem serve (hs : Handover s) (hr : Reachable h s) (unhurt : s.IsUnhurt) (step : Step h s act u)
    {t : Nat} {a : α} (alive : s.IsAlive t) (more : u.servings = s.servings ++ [(t, a)]) :
    Handover u := by
  have grown := trace_step step
  constructor
  · intro n x y hx hy ne
    rw [more] at hx hy
    have bound := (List.getElem?_eq_some_iff.mp hy).1
    rw [List.length_append, List.length_singleton] at bound
    rw [List.getElem?_append_left (by omega)] at hx
    by_cases inside : n + 1 < s.servings.length
    · rw [List.getElem?_append_left inside] at hy
      exact (hs.seams n x y hx hy ne).mono grown
    · -- The new item is the second one of the two, and the thread alive had handled none before.
      have last : n + 1 = s.servings.length := by omega
      rw [last, List.getElem?_concat_length] at hy
      cases hy
      rw [last]
      refine (hs.fresh t alive fun z hz => ?_).mono grown
      rw [List.getLast?_eq_getElem?, ← last, Nat.add_sub_cancel, hx] at hz
      cases hz
      exact ne
  · intro v alive' last
    rw [more, List.getLast?_concat] at last
    obtain before | ⟨i, load, spawning⟩ := isAlive_step hr step alive'
    · exact absurd (hr.alone alive before) (last _ rfl)
    · exact absurd alive ((hr.isDrained_of_vacant unhurt spawning rfl).ended t)

end Handover

theorem Reachable.handover {h : Host α} {s : State α ρ} (hr : Reachable h s)
    (unhurt : s.IsUnhurt) : Handover s := by
  induction hr with
  | create settings callback clients modest =>
      constructor
      · intro n x y hx
        cases hx
      · rintro t ⟨th, ht, -⟩
        cases ht
  | next before modest step ih =>
      have step := step_of_next step
      have unhurt' := unhurt.of_step step
      obtain same | ⟨t, a, alive, more⟩ := servings_step step
      · exact (ih unhurt').keep before unhurt' step same
      · exact (ih unhurt').serve before unhurt' step alive more

theorem Reachable.handled_of_gone {h : Host α} {s : State α ρ} (hr : Reachable h s)
    (gone : s.owner = .gone) (unhurt : s.IsUnhurt) : s.handled = s.pushed := by
  obtain ⟨v, as, delivered, drained, swept⟩ := hr.drained_of_gone gone unhurt
  have pushed : s.pushed = v.pushed := by simp [State.pushed, swept]
  have handled : s.handled = v.handled := by simp [State.handled, swept]
  rw [pushed, handled, delivered.handled_of_nobody drained.queue drained.ended]

theorem Reachable.handled_of_nobody {h : Host α} {s : State α ρ} (hr : Reachable h s)
    (unhurt : s.IsUnhurt) (queue : s.queue = []) (ended : ∀ t, ¬ s.IsAlive t) :
    s.handled = s.pushed := by
  by_cases gone : s.owner = .gone
  · exact hr.handled_of_gone gone unhurt
  · exact (hr.delivered gone).handled_of_nobody queue ended

/-- What has been handled is a first part of what has been pushed, also when the worker is gone. -/
theorem Reachable.handled_prefix {h : Host α} {s : State α ρ} (hr : Reachable h s)
    (unhurt : s.IsUnhurt) : s.handled <+: s.pushed := by
  by_cases gone : s.owner = .gone
  · exact hr.handled_of_gone gone unhurt ▸ List.prefix_rfl
  · rw [(hr.delivered gone).handled, List.append_assoc]
    exact List.prefix_append _ _

theorem eq_map_of_same {β : Type} {l : List (Nat × β)}
    (same : ∀ n x y, l[n]? = some x → l[n + 1]? = some y → x.1 = y.1) :
    ∃ t, l = (l.map Prod.snd).map (Prod.mk t) := by
  induction l with
  | nil => exact ⟨0, rfl⟩
  | cons x l ih =>
      obtain ⟨t, ht⟩ := ih fun n y z hy hz => same (n + 1) y z hy hz
      cases l with
      | nil => exact ⟨x.1, rfl⟩
      | cons y l =>
          have first := same 0 x y rfl rfl
          have second : y.1 = t := congrArg Prod.fst (List.cons.inj ht).1
          refine ⟨t, ?_⟩
          rw [List.map_cons, List.map_cons, ← ht, ← second, ← first]

theorem State.IsSeam.outside {s : State α ρ} {n : Nat} (seam : s.IsSeam n)
    {front behind : List (Entry α ρ)} {me : Agent} {as : List α}
    (trace : s.trace = front ++ .queued me as :: behind) :
    n ≤ (front.flatMap Entry.pushed).length ∨
      (front.flatMap Entry.pushed).length + as.length ≤ n := by
  obtain ⟨before, prior, rfl⟩ := seam
  have upTo : front ++ [.queued me as] <+: s.trace :=
    ⟨behind, by rw [trace, List.append_assoc]; rfl⟩
  rcases List.prefix_or_prefix_of_prefix prior upTo with inside | beyond
  · rcases List.prefix_concat_iff.mp inside with rfl | ⟨rest, rfl⟩
    · right; simp
    · left; simp
  · obtain ⟨rest, rfl⟩ := beyond
    right
    simp

/-- A batch that has been queued in one piece stays in one piece. -/
theorem Reachable.placed {h : Host α} {s : State α ρ} (hr : Reachable h s) (unhurt : s.IsUnhurt)
    {front behind : List (Entry α ρ)} {me : Agent} {as : List α}
    (trace : s.trace = front ++ .queued me as :: behind) :
    s.Placed (front.flatMap Entry.pushed).length as := by
  have pushed : (s.pushed.drop (front.flatMap Entry.pushed).length).take as.length = as := by
    simp [State.pushed, trace]
  refine ⟨pushed, ?_⟩
  -- A change of threads inside the batch would be a seam inside it.
  generalize hn : (front.flatMap Entry.pushed).length = n at pushed
  have same (k : Nat) (x y : Nat × α) (hx : ((s.servings.drop n).take as.length)[k]? = some x)
      (hy : ((s.servings.drop n).take as.length)[k + 1]? = some y) : x.1 = y.1 := by
    by_contra ne
    rw [List.getElem?_take] at hx hy
    split at hy
    next inside =>
      rw [if_pos (by omega), List.getElem?_drop] at hx
      rw [List.getElem?_drop] at hy
      have seam := (hr.handover unhurt).seams (n + k) x y hx hy ne
      have := seam.outside trace
      omega
    next => cases hy
  obtain ⟨t, ht⟩ := eq_map_of_same same
  refine ⟨t, ht.trans (congrArg (List.map (Prod.mk t)) ?_)⟩
  have handled : s.servings.map Prod.snd = s.pushed.take s.servings.length := by
    have := List.prefix_iff_eq_take.mp (hr.handled_prefix unhurt)
    rwa [← s.map_servings, List.length_map] at this
  calc ((s.servings.drop n).take as.length).map Prod.snd
    _ = ((s.pushed.take s.servings.length).drop n).take as.length := by
        rw [List.map_take, List.map_drop, handled]
    _ = ((s.pushed.drop n).take as.length).take (s.servings.length - n) := by
        rw [List.drop_take, List.take_take, List.take_take, Nat.min_comm]
    _ = as.take (s.servings.length - n) := by rw [pushed]

def Cursor.carries? : Cursor α → Option (List α)
  | .entering load | .ensuring load | .reclaiming load _ | .spawning load | .counting load _
  | .announcing load _ | .adopting load _ => load
  | .checking batch | .pushing batch => some batch
  | _ => none

def Cursor.Sends (as : List α) (queued : Prop) : Cursor α → Prop
  | .leaving _ r => r = .done → queued
  | .abandoning .. => True
  | c => c.carries? = some as

def Client.Sends (as : List α) (queued : Prop) : Client α ρ → Prop
  | .calling c => c.Sends as queued
  | .idle (some r) => r = .done → queued
  | _ => False

/-- The batch has been queued as one entry behind the old ones. -/
def State.HasQueued (s : State α ρ) (old : List (Entry α ρ)) (me : Agent) (as : List α) : Prop :=
  ∃ between behind, s.trace = old ++ between ++ .queued me as :: behind

theorem State.HasQueued.mono {s u : State α ρ} {old : List (Entry α ρ)} {me : Agent} {as : List α}
    (queued : s.HasQueued old me as) (grown : s.trace <+: u.trace) : u.HasQueued old me as := by
  obtain ⟨between, behind, trace⟩ := queued
  obtain ⟨more, trace'⟩ := grown
  exact ⟨between, behind ++ more, by rw [← trace', trace, List.append_assoc, List.cons_append]⟩

theorem Client.Sends.mono {cl : Client α ρ} {as : List α} {q q' : Prop} (hc : cl.Sends as q)
    (imp : q → q') : cl.Sends as q' := by
  cases cl with
  | idle r => cases r with
    | none => exact hc
    | some r => exact fun done => imp (hc done)
  | registering f => exact hc
  | calling c => cases c with
    | leaving load r => exact fun done => imp (hc done)
    | _ => exact hc

theorem sends_advances {h : Host α} {s s' : State α ρ} {i : Nat} {c : Cursor α} {p : Progress α}
    {old : List (Entry α ρ)} {as : List α} (step : Advances h s (.client i) c s' p)
    (grown : old <+: s.trace) (hc : c.Sends as (s.HasQueued old (.client i) as)) :
    (p.client : Client α ρ).Sends as (s'.HasQueued old (.client i) as) := by
  have kept := trace_advances step
  cases step with
  | enter | loaded | reclaim | vacate | reclaimed | reclaimedDead | spawned | counted | announced
  | adoptedLoaded | found | missed => exact hc
  | refused => trivial
  | abandoned => exact nofun
  | pushed batch =>
      cases hc
      obtain ⟨between, trace⟩ := grown
      refine fun _ => ⟨between, [], ?_⟩
      rw [State.push_eq, trace]
      rfl
  | left load r => exact fun done => (hc done).mono kept
  | reclaimSelf load t self => cases self
  | _ => cases hc

theorem sends_step {h : Host α} {s u : State α ρ} {act : Act α ρ} {i : Nat} {cl : Client α ρ}
    {old : List (Entry α ρ)} {as : List α} (step : Step h s act u)
    (request : act.isRequestOf i = false) (hi : s.clients[i]? = some cl) (grown : old <+: s.trace)
    (hc : cl.Sends as (s.HasQueued old (.client i) as)) :
    ∃ cl', u.clients[i]? = some cl' ∧ cl'.Sends as (u.HasQueued old (.client i) as) := by
  apply client_step step request hi
  · exact fun _ => hc.mono fun queued => queued.mono (trace_step step)
  · rintro f rfl
    exact hc
  · rintro c s' p rfl advances rfl
    exact (sends_advances advances grown hc).mono fun queued => queued

/-- Some acts lead from one state to another, with no callback that does more than to stop its own
worker and to look at it. -/
structure Passage (h : Host α) (s : State α ρ) (acts : List (Act α ρ)) (u : State α ρ) : Prop where
  run : s.run? h acts = some u
  modest : ∀ act ∈ acts, act.Modest

/-- Client `i` makes a call that sends a batch, and is told that it is done. -/
structure Sent (h : Host α) (i : Nat) (s : State α ρ) (c : Call α) (as : List α)
    (acts : List (Act α ρ)) (u : State α ρ) : Prop extends Passage h s (.call i c :: acts) u where
  sends : c.sends? = some as
  requests : ∀ act ∈ acts, act.isRequestOf i = false
  reply : u.clients[i]? = some (.idle (some .done))

theorem State.run?_append {h : Host α} {s u : State α ρ} {acts : List (Act α ρ)}
    (hs : s.run? h acts = some u) (later : List (Act α ρ)) :
    s.run? h (acts ++ later) = u.run? h later := by
  induction acts generalizing s with
  | nil => cases hs; rfl
  | cons act acts ih =>
      obtain ⟨v, hv, hu⟩ := Option.bind_eq_some_iff.mp hs
      rw [List.cons_append, State.run?, hv]
      exact ih hu

theorem Passage.trans {h : Host α} {s u v : State α ρ} {acts later : List (Act α ρ)}
    (first : Passage h s acts u) (second : Passage h u later v) : Passage h s (acts ++ later) v :=
  ⟨(State.run?_append first.run later).trans second.run, fun act hm =>
    (List.mem_append.mp hm).elim (first.modest act) (second.modest act)⟩

theorem Passage.trace {h : Host α} {s u : State α ρ} {acts : List (Act α ρ)}
    (passage : Passage h s acts u) : s.trace <+: u.trace :=
  State.run?_keeps (P := fun v => s.trace <+: v.trace)
    (fun _ _ _ _ hw grown => grown.trans (trace_step (step_of_next hw))) passage.run List.prefix_rfl

theorem Sent.queued {h : Host α} {i : Nat} {s u : State α ρ} {c : Call α} {as : List α}
    {acts : List (Act α ρ)} (sent : Sent h i s c as acts u) (hr : Reachable h s) :
    u.HasQueued s.trace (.client i) as := by
  obtain ⟨v, hv, hu⟩ := Option.bind_eq_some_iff.mp sent.run
  have sends : ∃ cl, v.clients[i]? = some cl ∧
      cl.Sends as (v.HasQueued s.trace (.client i) as) := by
    cases step_of_next hv with
    | call i c k free other first =>
        obtain ⟨r, hi⟩ := State.idle_of_isFree free
        refine ⟨_, State.clients_setClient hi _, ?_⟩
        have sends := sent.sends
        cases c <;> cases sends <;> cases first <;> rfl
    | answer i c r free other first =>
        have sends := sent.sends
        cases c <;> cases sends <;> cases first
    | drop i free quiet => exact absurd sent.sends (by simp [Call.sends?])
  obtain ⟨cl, hi, sends⟩ := sends
  have hr' := hr.next (sent.modest _ List.mem_cons_self) hv
  have walk := Walk.of_run hr' (fun act hm => sent.modest act (List.mem_cons_of_mem _ hm)) hu
  obtain ⟨cl', hi', -, sends'⟩ := walk.client
    (P := fun w cl => s.trace <+: w.trace ∧ cl.Sends as (w.HasQueued s.trace (.client i) as))
    (fun w x act rest cl _ step request _ hi hw => by
      obtain ⟨cl', hi', sends'⟩ := sends_step step request hi hw.1 hw.2
      exact ⟨cl', hi', hw.1.trans (trace_step step), sends'⟩)
    hr'.attainable sent.requests hi ⟨trace_step (step_of_next hv), sends⟩
  cases sent.reply.symm.trans hi'
  exact sends' rfl

theorem Sent.place {h : Host α} {i : Nat} {s u : State α ρ} {c : Call α} {as : List α}
    {acts : List (Act α ρ)} (sent : Sent h i s c as acts u) (hr : Reachable h s) :
    ∃ n, s.pushed.length ≤ n ∧ n + as.length ≤ u.pushed.length ∧
      ∀ later w, Passage h u later w → w.IsUnhurt → w.Placed n as := by
  obtain ⟨between, behind, trace⟩ := sent.queued hr
  refine ⟨((s.trace ++ between).flatMap Entry.pushed).length, ?_, ?_,
    fun later w passage unhurt => ?_⟩
  · simp [State.pushed]
  · simp only [State.pushed, trace, List.flatMap_append, List.flatMap_cons, Entry.pushed,
      List.length_append]
    omega
  · have hw : Reachable h w := (hr.run sent.modest sent.run).run passage.modest passage.run
    obtain ⟨more, grown⟩ := passage.trace
    exact hw.placed unhurt (by rw [← grown, trace, List.append_assoc, List.cons_append])

/-- Batches stay whole across stops and restarts. What has been handled is a first part of what has
been pushed, and all of it once nothing is queued and no thread is alive. A batch that a call has
sent stands in it in one piece, in its own order, handled by one thread. What a client sends with a
later call stands behind it. -/
theorem batches_stay_whole {h : Host α} {s : State α ρ} (hr : Reachable h s) :
    s.servings.map Prod.snd = s.handled ∧ (s.IsUnhurt → s.handled <+: s.pushed) ∧
      (s.IsUnhurt → s.queue = [] → (∀ t, ¬ s.IsAlive t) → s.handled = s.pushed) ∧
      (∀ i c as acts u, Sent h i s c as acts u →
        ∃ n, s.pushed.length ≤ n ∧ n + as.length ≤ u.pushed.length ∧
          ∀ later w, Passage h u later w → w.IsUnhurt → w.Placed n as) ∧
      ∀ i c as acts u between v c' as' acts' w later x, Sent h i s c as acts u →
        Passage h u between v → Sent h i v c' as' acts' w → Passage h w later x → x.IsUnhurt →
        ∃ n n', n + as.length ≤ n' ∧ x.Placed n as ∧ x.Placed n' as' := by
  refine ⟨s.map_servings, hr.handled_prefix, hr.handled_of_nobody,
    fun i c as acts u sent => sent.place hr, ?_⟩
  intro i c as acts u between v c' as' acts' w later x first passage second rest unhurt
  have hv : Reachable h v := (hr.run first.modest first.run).run passage.modest passage.run
  obtain ⟨n, -, behind, placed⟩ := first.place hr
  obtain ⟨n', before, -, placed'⟩ := second.place hv
  have grown := (State.pushed_prefix passage.trace).length_le
  exact ⟨n, n', by omega, placed _ x ((passage.trans second.toPassage).trans rest) unhurt,
    placed' later x rest unhurt⟩

def stopOnTwo : Callback Nat Unit := fun _ a =>
  if a = 2 then .ask .stop (fun _ => .finish) else .finish

theorem stopOnTwo_modest :
    ∀ f : Callback Nat Unit, some stopOnTwo = some f → Callback.Modest f := by
  rintro f ⟨⟩ visits a
  simp only [stopOnTwo]
  split
  next => exact ⟨rfl, fun _ => trivial⟩
  next => trivial

/-- The first batch is at its second item when the worker is stopped. The second one has a thread
of its own. -/
theorem batches_stay_whole_stopOnTwo :
    ∃ u v w x : State Nat Unit,
      Sent Host.calm 0 (State.create {} (some stopOnTwo) 1) (.sendAll [1, 2, 3]) [1, 2, 3]
        (List.replicate 9 (.client 0)) u ∧
      Passage Host.calm u (List.replicate 21 (.thread 0)) v ∧
      Sent Host.calm 0 v (.sendAll [4, 5]) [4, 5] (List.replicate 10 (.client 0)) w ∧
      Passage Host.calm w (List.replicate 3 (.thread 1)) x ∧
      x.servings = [(0, 1), (0, 2), (0, 3), (1, 4)] ∧
      ∃ n n', n + 3 ≤ n' ∧ x.Placed n [1, 2, 3] ∧ x.Placed n' [4, 5] := by
  have hp : ((State.create {} (some stopOnTwo) 1).run? Host.calm
      (.call 0 (.sendAll [1, 2, 3]) :: List.replicate 9 (.client 0))).any (fun u =>
        u.clients[0]?.any (Client.hasReply .done) &&
          (u.run? Host.calm (List.replicate 21 (.thread 0))).any (fun v =>
            (v.run? Host.calm (.call 0 (.sendAll [4, 5]) :: List.replicate 10 (.client 0))).any
              (fun w => w.clients[0]?.any (Client.hasReply .done) &&
                (w.run? Host.calm (List.replicate 3 (.thread 1))).any (fun x =>
                  x.deaths = 0 && x.servings = [(0, 1), (0, 2), (0, 3), (1, 4)])))) = true := by
    decide
  obtain ⟨u, hu, hp⟩ := (Option.any_eq_true _ _).mp hp
  obtain ⟨done, hp⟩ := (Bool.and_eq_true _ _).mp hp
  obtain ⟨v, hv, hp⟩ := (Option.any_eq_true _ _).mp hp
  obtain ⟨w, hw, hp⟩ := (Option.any_eq_true _ _).mp hp
  obtain ⟨done', hp⟩ := (Bool.and_eq_true _ _).mp hp
  obtain ⟨x, hx, hp⟩ := (Option.any_eq_true _ _).mp hp
  simp only [Bool.and_eq_true, decide_eq_true_eq] at hp
  obtain ⟨unhurt, servings⟩ := hp
  have first : Sent Host.calm 0 (State.create {} (some stopOnTwo) 1) (.sendAll [1, 2, 3]) [1, 2, 3]
      (List.replicate 9 (.client 0)) u :=
    ⟨⟨hu, by simp [Act.Modest]⟩, rfl, by simp [Act.isRequestOf], Client.eq_of_hasReply done⟩
  have working : Passage Host.calm u (List.replicate 21 (.thread 0)) v :=
    ⟨hv, by simp [Act.Modest]⟩
  have second : Sent Host.calm 0 v (.sendAll [4, 5]) [4, 5] (List.replicate 10 (.client 0)) w :=
    ⟨⟨hw, by simp [Act.Modest]⟩, rfl, by simp [Act.isRequestOf], Client.eq_of_hasReply done'⟩
  have rest : Passage Host.calm w (List.replicate 3 (.thread 1)) x := ⟨hx, by simp [Act.Modest]⟩
  obtain ⟨-, -, -, -, inOrder⟩ := batches_stay_whole
    (Reachable.create (h := Host.calm) {} (some stopOnTwo) 1 stopOnTwo_modest)
  exact ⟨u, v, w, x, first, working, second, rest, servings,
    inOrder 0 _ _ _ u _ v _ _ _ w _ x first working second rest (State.isUnhurt_iff.mpr unhurt)⟩

end QueueWorker.Worker
