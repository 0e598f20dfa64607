import QueueWorker.Queue.Scenario
import QueueWorker.Proofs.Queue.Step

namespace QueueWorker.Queue

variable {α : Type}

def Act.isCallOf (i : Nat) : Act α → Bool
  | call j _ => j = i
  | _ => false

/-- The act is the thread's own, or wakes it. -/
def Act.isOf (i : Nat) : Act α → Bool
  | call j _ | step j _ | stir j | expire j => j = i
  | pass _ => false

def Entry.thread : Entry α → Nat
  | appended i _ | removed i _ | gaveUp i _ => i

/-- The entries that one thread has made. -/
def State.deeds (s : State α) (i : Nat) : List (Entry α) := s.trace.filter (fun e => e.thread = i)

/-- At one of the acts thread `i` has the lock. It takes the contents from `xs` to `ys` there and
makes the entries. -/
def State.Turns (s : State α) (acts : List (Act α)) (i now : Nat) (xs ys : List α)
    (es : List (Entry α)) : Prop :=
  ∃ front chosen behind v w, acts = front ++ .step i chosen :: behind ∧ s.run? front = some v ∧
    v.next? (.step i chosen) = some w ∧ v.now = now ∧ v.items = xs ∧ w.items = ys ∧
    w.trace = v.trace ++ es

/-- What a section of a thread is answered in the course of the acts, and the entries it makes. It
has a single turn. A removal that waits beyond its deadline has it with a last look. -/
inductive Section.Does (s : State α) (acts : List (Act α)) (i : Nat) :
    Section α → Reply α → List (Entry α) → Prop
  | turn {sec p now xs ys es} (meets : sec.Meets i now p xs ys es)
      (turns : s.Turns acts i now xs ys es) : Does s acts i sec p es
  | late {deadline p now xs ys es} (late : deadline ≤ now)
      (meets : takeLast.Meets i now p xs ys es) (turns : s.Turns acts i now xs ys es) :
      Does s acts i (.take (some deadline)) p es

/-- What a request made at time `now` is answered, and the entries it makes. -/
inductive Request.Does (s : State α) (acts : List (Act α)) (i now : Nat) :
    Request α → Reply α → List (Entry α) → Prop
  | pass {r p} (passes : r.Passes now s.horizon p) : Does s acts i now r p []
  | enter {r sec p es} (enters : r.Enters now sec) (does : sec.Does s acts i p es) :
      Does s acts i now r p es

/-- The batch that a source gives in the course of the acts, `none` if it unwinds, and the entries
of what it asks the queue meanwhile. -/
inductive Source.Gives (s : State α) (acts : List (Act α)) (i : Nat) :
    Source α → Option (List α) → List (Entry α) → Prop
  | finish : Gives s acts i .finish (some []) []
  | unwind : Gives s acts i .unwind none []
  | yield {a rest batch es} (gives : rest.Gives s acts i batch es) :
      Gives s acts i (.yield a rest) (batch.map (a :: ·)) es
  | ask {r rest now p batch es es'} (since : s.now ≤ now) (does : r.Does s acts i now p es)
      (gives : (rest p).Gives s acts i batch es') : Gives s acts i (.ask r rest) batch (es ++ es')

/-- What a call is answered, and the entries it makes. A batch is pushed once its source is at its
end. One whose source unwinds is not. -/
inductive Call.Does (s : State α) (acts : List (Act α)) (i : Nat) :
    Call α → Reply α → List (Entry α) → Prop
  | plain {r p es} (does : r.Does s acts i s.now p es) : Does s acts i (.plain r) p es
  | batch {source batch now p es es'} (gives : source.Gives s acts i (some batch) es)
      (since : s.now ≤ now) (does : (Request.pushAll batch).Does s acts i now p es') :
      Does s acts i (.batch source) p (es ++ es')
  | broken {source es} (gives : source.Gives s acts i none es) :
      Does s acts i (.batch source) .broken es

/-- What is left of a call, by where its thread stands. -/
inductive Stage.Does (s : State α) (acts : List (Act α)) (i : Nat) :
    Stage α → Reply α → List (Entry α) → Prop
  | idle {p} : Does s acts i (.idle (some p)) p []
  | batch {got source batch now p es es'} (gives : source.Gives s acts i (some batch) es)
      (since : s.now ≤ now) (does : (Request.pushAll (got ++ batch)).Does s acts i now p es') :
      Does s acts i (.collecting got source) p (es ++ es')
  | broken {got source es} (gives : source.Gives s acts i none es) :
      Does s acts i (.collecting got source) .broken es
  | entering {sec into p q es es'} (does : sec.Does s acts i q es)
      (rest : Does s acts i (.answered q into) p es') :
      Does s acts i (.entering sec into) p (es ++ es')
  | sleeping {deadline into p q es es'} (does : (Section.take deadline).Does s acts i q es)
      (rest : Does s acts i (.answered q into) p es') :
      Does s acts i (.sleeping deadline into) p (es ++ es')

/-- Thread `i` makes a call and has its answer at the end of the acts. -/
structure Answered (s : State α) (i : Nat) (c : Call α) (acts : List (Act α)) (u : State α)
    (p : Reply α) : Prop where
  run : s.run? (.call i c :: acts) = some u
  calls : ∀ act ∈ acts, act.isCallOf i = false
  reply : u.lastReply? i = some p

namespace State

variable {s u : State α}

theorem wake_eq (s : State α) (chosen : Nat) :
    s.wake chosen = { s with threads := (s.wake chosen).threads } := by
  obtain ⟨-, hw⟩ | ⟨j, deadline, into, -, hw⟩ := s.wake_cases chosen
  · rw [hw]
  · rw [hw]; rfl

@[simp] theorem items_wake (s : State α) (chosen : Nat) : (s.wake chosen).items = s.items := by
  rw [wake_eq]

@[simp] theorem trace_wake (s : State α) (chosen : Nat) : (s.wake chosen).trace = s.trace := by
  rw [wake_eq]

@[simp] theorem now_wake (s : State α) (chosen : Nat) : (s.wake chosen).now = s.now := by
  rw [wake_eq]

@[simp] theorem horizon_wake (s : State α) (chosen : Nat) :
    (s.wake chosen).horizon = s.horizon := by
  rw [wake_eq]

theorem stage_of_lastReply? {i : Nat} {p : Reply α} (reply : s.lastReply? i = some p) :
    s.threads[i]? = some (.idle (some p)) := by
  simp only [lastReply?] at reply
  split at reply
  next r hi => rw [hi, reply]
  next => cases reply

theorem threads_put_self {i : Nat} {t : Stage α} (hi : s.threads[i]? = some t) (t' : Stage α) :
    (s.put i t').threads[i]? = some t' :=
  List.getElem?_set_self (List.getElem?_eq_some_iff.mp hi).1

theorem threads_put_ne {i j : Nat} (ne : j ≠ i) (t : Stage α) :
    (s.put j t).threads[i]? = s.threads[i]? :=
  List.getElem?_set_ne ne

theorem stage_wake {i : Nat} {t : Stage α} (hi : s.threads[i]? = some t) (chosen : Nat) :
    (s.wake chosen).threads[i]? = some t ∨
      ∃ deadline into, t = .sleeping deadline into ∧
        (s.wake chosen).threads[i]? = some (.entering (.take deadline) into) := by
  obtain ⟨-, hw⟩ | ⟨j, deadline, into, hj, hw⟩ := s.wake_cases chosen
  · exact .inl (by rw [hw]; exact hi)
  · by_cases same : j = i
    · subst same
      cases Option.some.inj (hi.symm.trans hj)
      exact .inr ⟨deadline, into, rfl, by rw [hw]; exact threads_put_self hi _⟩
    · exact .inl (by rw [hw]; exact (threads_put_ne same _).trans hi)

theorem deeds_self {es : List (Entry α)} {i : Nat} (trace : u.trace = s.trace ++ es)
    (own : ∀ e ∈ es, e.thread = i) : u.deeds i = s.deeds i ++ es := by
  rw [deeds, trace, List.filter_append,
    List.filter_eq_self.mpr fun e he => decide_eq_true (own e he), deeds]

theorem deeds_ne {es : List (Entry α)} {i j : Nat} (ne : j ≠ i) (trace : u.trace = s.trace ++ es)
    (other : ∀ e ∈ es, e.thread = j) : u.deeds i = s.deeds i := by
  have none : es.filter (fun e => e.thread = i) = [] :=
    List.filter_eq_nil_iff.mpr fun e he hi => ne ((other e he).symm.trans (of_decide_eq_true hi))
  rw [deeds, trace, List.filter_append, none, List.append_nil, deeds]

end State

theorem Section.Meets.thread {sec : Section α} {i now : Nat} {p : Reply α} {xs ys : List α}
    {es : List (Entry α)} (meets : sec.Meets i now p xs ys es) : ∀ e ∈ es, e.thread = i := by
  intro e he
  cases meets with
  | miss | length => cases he
  | _ => cases List.mem_singleton.mp he; rfl

theorem now_step {s u : State α} {act : Act α} (step : Step s act u) : s.now ≤ u.now := by
  cases step with
  | append i chosen as =>
      exact Nat.le_of_eq ((s.leave (s.items ++ as) [.appended i as]).now_wake chosen).symm
  | elapse time => exact Nat.le_add_right s.now time
  | _ => exact Nat.le_refl _

theorem horizon_step {s u : State α} {act : Act α} (step : Step s act u) :
    u.horizon = s.horizon := by
  cases step with
  | append => exact State.horizon_wake ..
  | _ => rfl

theorem now_run {s u : State α} {acts : List (Act α)} (hs : s.run? acts = some u) :
    s.now ≤ u.now := by
  induction acts generalizing s with
  | nil => cases hs; exact Nat.le_refl _
  | cons act acts ih =>
      obtain ⟨v, hv, hu⟩ := Option.bind_eq_some_iff.mp hs
      exact Nat.le_trans (now_step (step_of_next hv)) (ih hu)

theorem State.Turns.since {s : State α} {acts : List (Act α)} {i now : Nat} {xs ys : List α}
    {es : List (Entry α)} (turns : s.Turns acts i now xs ys es) : s.now ≤ now := by
  obtain ⟨_, _, _, v, _, -, front, -, rfl, -⟩ := turns
  exact now_run front

section Later

variable {s u : State α} {act : Act α} {acts : List (Act α)} {i now : Nat}

/-! What happens behind the next act happens behind this state. -/

theorem State.Turns.later {xs ys : List α} {es : List (Entry α)}
    (turns : u.Turns acts i now xs ys es) (hs : s.next? act = some u) :
    s.Turns (act :: acts) i now xs ys es := by
  obtain ⟨front, chosen, behind, v, w, rfl, hv, turn⟩ := turns
  exact ⟨act :: front, chosen, behind, v, w, rfl, by rw [State.run?, hs]; exact hv, turn⟩

theorem Section.Does.later {sec : Section α} {p : Reply α} {es : List (Entry α)}
    (does : sec.Does u acts i p es) (hs : s.next? act = some u) :
    sec.Does s (act :: acts) i p es := by
  cases does with
  | turn meets turns => exact .turn meets (turns.later hs)
  | late late meets turns => exact .late late meets (turns.later hs)

theorem Request.Does.later {r : Request α} {p : Reply α} {es : List (Entry α)}
    (does : r.Does u acts i now p es) (hs : s.next? act = some u) :
    r.Does s (act :: acts) i now p es := by
  cases does with
  | pass passes => exact .pass (horizon_step (step_of_next hs) ▸ passes)
  | enter enters does => exact .enter enters (does.later hs)

theorem Source.Gives.later {source : Source α} {batch : Option (List α)} {es : List (Entry α)}
    (gives : source.Gives u acts i batch es) (hs : s.next? act = some u) :
    source.Gives s (act :: acts) i batch es := by
  have passed := now_step (step_of_next hs)
  induction gives with
  | finish => exact .finish
  | unwind => exact .unwind
  | yield _ ih => exact .yield ih
  | ask since does _ ih => exact .ask (Nat.le_trans passed since) (does.later hs) ih

theorem Stage.Does.later {t : Stage α} {p : Reply α} {es : List (Entry α)}
    (does : t.Does u acts i p es) (hs : s.next? act = some u) :
    t.Does s (act :: acts) i p es := by
  have passed := now_step (step_of_next hs)
  induction does with
  | idle => exact .idle
  | batch gives since does =>
      exact .batch (gives.later hs) (Nat.le_trans passed since) (does.later hs)
  | broken gives => exact .broken (gives.later hs)
  | entering does _ ih => exact .entering (does.later hs) ih
  | sleeping does _ ih => exact .sleeping (does.later hs) ih

end Later

theorem stage_step_ne {s u : State α} {act : Act α} {i : Nat} {t : Stage α}
    (step : Step s act u) (other : act.isOf i = false) (hi : s.threads[i]? = some t) :
    u.deeds i = s.deeds i ∧ (u.threads[i]? = some t ∨
      ∃ deadline into, t = .sleeping deadline into ∧
        u.threads[i]? = some (.entering (.take deadline) into)) := by
  have ne {j : Nat} (hj : decide (j = i) = false) : j ≠ i := of_decide_eq_false hj
  cases step with
  | append j chosen as into stage =>
      have trace := (s.leave (s.items ++ as) [.appended j as]).trace_wake chosen
      have meets : (Section.append as).Meets j s.now .done s.items _ _ := .append as s.items
      refine ⟨State.deeds_ne (ne other) trace meets.thread, ?_⟩
      rw [State.threads_put_ne (ne other)]
      exact State.stage_wake (s := s.leave (s.items ++ as) [.appended j as]) hi chosen
  | meet j chosen sec into p ys es stage quiet meets =>
      exact ⟨State.deeds_ne (ne other) rfl meets.thread,
        .inl ((State.threads_put_ne (ne other) _).trans hi)⟩
  | elapse => exact ⟨rfl, .inl hi⟩
  | _ => exact ⟨rfl, .inl ((State.threads_put_ne (ne other) _).trans hi)⟩

theorem State.Turns.here {s u : State α} {i chosen : Nat} {es : List (Entry α)}
    (hs : s.next? (.step i chosen) = some u) (trace : u.trace = s.trace ++ es)
    (acts : List (Act α)) : s.Turns (.step i chosen :: acts) i s.now s.items u.items es :=
  ⟨[], chosen, acts, s, u, rfl, rfl, hs, rfl, rfl, rfl, trace⟩

namespace Stage.Does

variable {s : State α} {acts : List (Act α)} {i : Nat} {p q : Reply α} {got : List α}
  {es es' : List (Entry α)}

theorem answer (does : (Stage.idle (some q)).Does s acts i p es) : p = q ∧ es = [] := by
  cases does with
  | idle => exact ⟨rfl, rfl⟩

theorem yield {a : α} {rest : Source α}
    (does : (collecting (got ++ [a]) rest).Does s acts i p es) :
    (collecting got (.yield a rest)).Does s acts i p es := by
  cases does with
  | broken gives => exact .broken (.yield gives)
  | batch gives since does =>
      rw [List.append_assoc] at does
      exact .batch (.yield gives) since does

theorem ask {r : Request α} {rest : Reply α → Source α} (does : r.Does s acts i s.now q es)
    (does' : (collecting got (rest q)).Does s acts i p es') :
    (collecting got (.ask r rest)).Does s acts i p (es ++ es') := by
  cases does' with
  | broken gives => exact .broken (.ask (Nat.le_refl _) does gives)
  | batch gives since does' =>
      rw [← List.append_assoc]
      exact .batch (.ask (Nat.le_refl _) does gives) since does'

theorem commit (does : (Request.pushAll got).Does s acts i s.now p es) :
    (collecting got .finish).Does s acts i p es := by
  rw [← List.append_nil got] at does
  exact .batch .finish (Nat.le_refl _) does

theorem turn {u : State α} {chosen : Nat} {sec : Section α} {into : Option (Frame α)}
    (hs : s.next? (.step i chosen) = some u) (trace : u.trace = s.trace ++ es)
    (meets : sec.Meets i s.now q s.items u.items es)
    (rest : (answered q into).Does u acts i p es') :
    (Stage.entering sec into).Does s (.step i chosen :: acts) i p (es ++ es') :=
  .entering (.turn meets (.here hs trace acts)) (rest.later hs)

end Stage.Does

theorem does_step_self {s u : State α} {act : Act α} {i : Nat} {t : Stage α}
    (hs : s.next? act = some u) (own : act.isOf i = true) (call : act.isCallOf i = false)
    (hi : s.threads[i]? = some t) :
    ∃ t' es, u.threads[i]? = some t' ∧ u.deeds i = s.deeds i ++ es ∧
      ∀ acts p es', t'.Does u acts i p es' → t.Does s (act :: acts) i p (es ++ es') := by
  have is {j : Nat} {t' : Stage α} (own : decide (j = i) = true)
      (stage : s.threads[j]? = some t') : j = i ∧ t = t' := by
    cases of_decide_eq_true own
    exact ⟨rfl, Option.some.inj (hi.symm.trans stage)⟩
  -- A step off the lock: the thread moves on and makes no entry.
  have off {t' : Stage α} (hu : u = s.put i t')
      (does : ∀ acts p es', t'.Does s acts i p es' → t.Does s acts i p es') :
      ∃ t' es, u.threads[i]? = some t' ∧ u.deeds i = s.deeds i ++ es ∧
        ∀ acts p es', t'.Does u acts i p es' → t.Does s (act :: acts) i p (es ++ es') :=
    ⟨t', [], hu ▸ State.threads_put_self hi t', by rw [hu, List.append_nil]; rfl,
      fun acts p es' does' => does _ p es' (does'.later hs)⟩
  have step := step_of_next hs
  cases step with
  | enter | pass | batch => exact absurd own (ne_true_of_eq_false call)
  | commit j chosen got stage some =>
      obtain ⟨rfl, rfl⟩ := is own stage
      refine off rfl fun acts p es' does => ?_
      cases does with
      | entering does rest =>
          obtain ⟨rfl, rfl⟩ := rest.answer
          rw [List.append_nil]
          exact .commit (.enter (.pushAll got some) does)
  | commitNone j chosen stage =>
      obtain ⟨rfl, rfl⟩ := is own stage
      refine off rfl fun acts p es' does => ?_
      obtain ⟨rfl, rfl⟩ := does.answer
      exact .commit (.pass .pushNone)
  | unwind j chosen got stage =>
      obtain ⟨rfl, rfl⟩ := is own stage
      refine off rfl fun acts p es' does => ?_
      obtain ⟨rfl, rfl⟩ := does.answer
      exact .broken .unwind
  | yield j chosen got a rest stage =>
      obtain ⟨rfl, rfl⟩ := is own stage
      exact off rfl fun acts p es' does => does.yield
  | enterBack j chosen got r rest sec stage enters =>
      obtain ⟨rfl, rfl⟩ := is own stage
      refine off rfl fun acts p es' does => ?_
      cases does with
      | entering does rest => exact .ask (.enter enters does) rest
  | passBack j chosen got r rest q stage passes =>
      obtain ⟨rfl, rfl⟩ := is own stage
      exact off rfl fun acts p es' does => .ask (.pass passes) does
  | append j chosen as into stage =>
      obtain ⟨rfl, rfl⟩ := is own stage
      have items := (s.leave (s.items ++ as) [.appended j as]).items_wake chosen
      have trace := (s.leave (s.items ++ as) [.appended j as]).trace_wake chosen
      have stage' := State.stage_wake (s := s.leave (s.items ++ as) [.appended j as]) hi chosen
      generalize (s.leave (s.items ++ as) [.appended j as]).wake chosen = w at hs items trace stage'
      obtain ⟨t, ht⟩ : ∃ t, w.threads[j]? = some t := by
        obtain awake | ⟨_, _, -, awake⟩ := stage' <;> exact ⟨_, awake⟩
      have meets : (Section.append as).Meets j s.now .done s.items w.items [.appended j as] := by
        rw [items]
        exact .append as s.items
      exact ⟨_, _, State.threads_put_self ht _, State.deeds_self trace meets.thread,
        fun acts p es' rest => .turn hs trace meets rest⟩
  | meet j chosen sec into q ys es stage quiet meets =>
      obtain ⟨rfl, rfl⟩ := is own stage
      exact ⟨_, es, State.threads_put_self (s := s.leave ys es) hi _,
        State.deeds_self rfl meets.thread, fun acts p es' rest => .turn hs rfl meets rest⟩
  | sleep j chosen deadline into stage items =>
      obtain ⟨rfl, rfl⟩ := is own stage
      refine off rfl fun acts p es' does => ?_
      cases does with
      | sleeping does rest => exact .entering does rest
  | stir j deadline into stage =>
      obtain ⟨rfl, rfl⟩ := is own stage
      refine off rfl fun acts p es' does => ?_
      cases does with
      | entering does rest => exact .sleeping does rest
  | expire j deadline into stage late =>
      obtain ⟨rfl, rfl⟩ := is own stage
      refine off rfl fun acts p es' does => ?_
      cases does with
      | entering does rest =>
          cases does with
          | turn meets turns =>
              -- The last look comes after the deadline, however long it takes to get the lock.
              exact .sleeping (.late (Nat.le_trans late turns.since) meets turns) rest
  | elapse => cases own

/-- From where a thread stands to its answer: the entries that it makes on the way are those of
what is left of its call. The induction goes backwards, as the source of a batch is known only by
what it comes to do. -/
theorem does_run {s u : State α} {acts : List (Act α)} {i : Nat} {t : Stage α} {p : Reply α}
    (hs : s.run? acts = some u) (calls : ∀ act ∈ acts, act.isCallOf i = false)
    (hi : s.threads[i]? = some t) (stage : u.threads[i]? = some (.idle (some p))) :
    ∃ es, u.deeds i = s.deeds i ++ es ∧ t.Does s acts i p es := by
  induction acts generalizing s t with
  | nil =>
      cases hs
      cases Option.some.inj (hi.symm.trans stage)
      exact ⟨[], (List.append_nil _).symm, .idle⟩
  | cons act acts ih =>
      obtain ⟨v, hv, hu⟩ := Option.bind_eq_some_iff.mp hs
      have calls' : ∀ b ∈ acts, b.isCallOf i = false :=
        fun b hb => calls b (List.mem_cons_of_mem act hb)
      cases own : act.isOf i with
      | true =>
          obtain ⟨t', es, hi', deeds, does⟩ :=
            does_step_self hv own (calls act List.mem_cons_self) hi
          obtain ⟨es', deeds', does'⟩ := ih hu calls' hi'
          exact ⟨es ++ es', by rw [deeds', deeds, List.append_assoc], does acts p es' does'⟩
      | false =>
          obtain ⟨deeds, kept | ⟨deadline, into, rfl, awake⟩⟩ :=
            stage_step_ne (step_of_next hv) own hi
          · obtain ⟨es, deeds', does⟩ := ih hu calls' kept
            exact ⟨es, by rw [deeds', deeds], does.later hv⟩
          · obtain ⟨es, deeds', does⟩ := ih hu calls' awake
            refine ⟨es, by rw [deeds', deeds], ?_⟩
            cases does with
            | entering does rest => exact .sleeping (does.later hv) (rest.later hv)

theorem Answered.does {s u : State α} {i : Nat} {c : Call α} {acts : List (Act α)} {p : Reply α}
    (h : Answered s i c acts u p) :
    ∃ es, u.deeds i = s.deeds i ++ es ∧ c.Does s (.call i c :: acts) i p es := by
  obtain ⟨v, hv, hu⟩ := Option.bind_eq_some_iff.mp h.run
  have stage' := State.stage_of_lastReply? h.reply
  have step := step_of_next hv
  cases step with
  | enter i r last sec stage enters =>
      obtain ⟨es, deeds, does⟩ := does_run hu h.calls (State.threads_put_self stage _) stage'
      refine ⟨es, deeds, ?_⟩
      cases does with
      | entering does rest =>
          obtain ⟨rfl, rfl⟩ := rest.answer
          rw [List.append_nil]
          exact .plain (.enter enters (does.later hv))
  | pass i r last q stage passes =>
      obtain ⟨es, deeds, does⟩ := does_run hu h.calls (State.threads_put_self stage _) stage'
      refine ⟨es, deeds, ?_⟩
      obtain ⟨rfl, rfl⟩ := does.answer
      exact .plain (.pass passes)
  | batch i source last stage =>
      obtain ⟨es, deeds, does⟩ := does_run hu h.calls (State.threads_put_self stage _) stage'
      refine ⟨es, deeds, ?_⟩
      have later := does.later hv
      cases later with
      | batch gives since pushes => exact .batch gives since pushes
      | broken gives => exact .broken gives

end QueueWorker.Queue
