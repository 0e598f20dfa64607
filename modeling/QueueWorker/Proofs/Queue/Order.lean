import QueueWorker.Proofs.Queue.Course

namespace QueueWorker.Queue

variable {α : Type}

namespace Entry

def appends : Entry α → List α
  | appended _ as => as
  | _ => []

def removes : Entry α → List α
  | removed _ as => as
  | _ => []

/-- What an entry says of the contents: its items went to the back as one block, or they were the
whole front, or there was nothing. -/
inductive Moves : Entry α → List α → List α → Prop
  | appended (i as xs) : Moves (.appended i as) xs (xs ++ as)
  | removed (i as xs) : Moves (.removed i as) (as ++ xs) xs
  | gaveUp (i time) : Moves (.gaveUp i time) [] []

def ofBatch (i : Nat) : List α → List (Entry α)
  | [] => []
  | a :: as => [.appended i (a :: as)]

theorem Moves.conserves {e : Entry α} {xs ys : List α} (moves : e.Moves xs ys) :
    xs ++ e.appends = e.removes ++ ys := by
  cases moves with
  | appended i as xs => rfl
  | removed i as xs => exact List.append_nil _
  | gaveUp i time => rfl

end Entry

namespace State

/-- All items that were appended, in the order in which their sections had the lock. -/
def appended (s : State α) : List α := s.trace.flatMap Entry.appends

/-- All items that were removed, in the order in which their sections had the lock. -/
def removed (s : State α) : List α := s.trace.flatMap Entry.removes

end State

theorem Section.Meets.moves {sec : Section α} {i now : Nat} {p : Reply α} {xs ys : List α}
    {es : List (Entry α)} (meets : sec.Meets i now p xs ys es) :
    (es = [] ∧ ys = xs) ∨ ∃ e, es = [e] ∧ e.thread = i ∧ e.Moves xs ys := by
  cases meets with
  | append as xs => exact .inr ⟨_, rfl, rfl, .appended i as xs⟩
  | take deadline a xs => exact .inr ⟨_, rfl, rfl, .removed i [a] ys⟩
  | takeLast a xs => exact .inr ⟨_, rfl, rfl, .removed i [a] ys⟩
  | tryTake a xs => exact .inr ⟨_, rfl, rfl, .removed i [a] ys⟩
  | giveUp => exact .inr ⟨_, rfl, rfl, .gaveUp i now⟩
  | drain xs =>
      refine .inr ⟨_, rfl, rfl, ?_⟩
      simpa using Entry.Moves.removed i xs []
  | miss | length => exact .inl ⟨rfl, rfl⟩

theorem moves_step {s u : State α} {act : Act α} (step : Step s act u) :
    (u.trace = s.trace ∧ u.items = s.items) ∨
      ∃ e chosen, act = .step e.thread chosen ∧ u.trace = s.trace ++ [e] ∧
        e.Moves s.items u.items := by
  cases step with
  | append i chosen as into stage =>
      refine .inr ⟨.appended i as, chosen, rfl,
        (s.leave (s.items ++ as) [.appended i as]).trace_wake chosen, ?_⟩
      have items := (s.leave (s.items ++ as) [.appended i as]).items_wake chosen
      exact items ▸ Entry.Moves.appended i as s.items
  | meet i chosen sec into p ys es stage quiet meets =>
      obtain ⟨rfl, rfl⟩ | ⟨e, rfl, rfl, moves⟩ := meets.moves
      · exact .inl ⟨List.append_nil _, rfl⟩
      · exact .inr ⟨e, chosen, rfl, rfl, moves⟩
  | _ => exact .inl ⟨rfl, rfl⟩

theorem trace_run {s u : State α} {acts : List (Act α)} (hs : s.run? acts = some u) :
    s.trace <+: u.trace := by
  induction acts generalizing s with
  | nil => cases hs; exact List.prefix_rfl
  | cons act acts ih =>
      obtain ⟨v, hv, hu⟩ := Option.bind_eq_some_iff.mp hs
      refine List.IsPrefix.trans ?_ (ih hu)
      obtain ⟨same, -⟩ | ⟨e, -, -, more, -⟩ := moves_step (step_of_next hv)
      · exact same ▸ List.prefix_rfl
      · exact more ▸ List.prefix_append _ _

/-- What was in the queue at first and what was appended is what was removed and what is left. -/
theorem Reachable.conserved {items : List α} {threads horizon : Nat} {s : State α}
    (hr : Reachable items threads horizon s) : items ++ s.appended = s.removed ++ s.items := by
  induction hr with
  | create => exact List.append_nil items
  | @next s u act before step ih =>
      obtain ⟨same, kept⟩ | ⟨e, -, -, more, moves⟩ := moves_step (step_of_next step)
      · rw [State.appended, State.removed, same, kept]
        exact ih
      · calc items ++ u.appended
          _ = (items ++ s.appended) ++ e.appends := by
              simp [State.appended, more]
          _ = s.removed ++ (s.items ++ e.appends) := by rw [ih, List.append_assoc]
          _ = s.removed ++ (e.removes ++ u.items) := by rw [moves.conserves]
          _ = u.removed ++ u.items := by simp [State.removed, more]

theorem Request.Does.pushAll {s : State α} {acts : List (Act α)} {i now : Nat} {batch : List α}
    {p : Reply α} {es : List (Entry α)} (does : (Request.pushAll batch).Does s acts i now p es) :
    p = .done ∧ es = Entry.ofBatch i batch := by
  cases does with
  | pass passes => cases passes; exact ⟨rfl, rfl⟩
  | enter enters does =>
      cases enters with
      | pushAll batch some =>
          cases does with
          | turn meets turns =>
              cases meets
              cases batch with
              | nil => exact absurd rfl some
              | cons a as => exact ⟨rfl, rfl⟩

theorem Entry.length_ofBatch (i : Nat) (batch : List α) : (ofBatch i batch).length ≤ 1 := by
  cases batch with
  | nil => exact Nat.zero_le 1
  | cons => exact Nat.le_refl 1

theorem State.trace_of_deeds {s u : State α} {i : Nat} {es last : List (Entry α)}
    (grown : s.trace <+: u.trace) (deeds : u.deeds i = s.deeds i ++ (es ++ last))
    (single : last.length ≤ 1) :
    ∃ front behind, u.trace = s.trace ++ (front ++ last ++ behind) ∧
      front.filter (fun e => e.thread = i) = es ∧ behind.filter (fun e => e.thread = i) = [] := by
  obtain ⟨more, trace⟩ := grown
  rw [State.deeds, State.deeds, ← trace, List.filter_append, List.append_cancel_left_eq] at deeds
  obtain ⟨front, rest, rfl, hfront, hrest⟩ := List.filter_eq_append_iff.mp deeds
  cases last with
  | nil => exact ⟨front, rest, by rw [← trace, List.append_nil], hfront, hrest⟩
  | cons e last =>
      obtain rfl : last = [] :=
        List.length_eq_zero_iff.mp (Nat.le_zero.mp (Nat.le_of_succ_le_succ single))
      obtain ⟨between, behind, rfl, others, -, hbehind⟩ := List.filter_eq_cons_iff.mp hrest
      refine ⟨front ++ between, behind, by simp [← trace], ?_, hbehind⟩
      rw [List.filter_append, hfront, List.filter_eq_nil_iff.mpr others, List.append_nil]

/-- The queue is linearizable. What was in it at first and what has been appended, each in the order
in which the sections had the lock, is what has been removed and what is left. No step does more
than one of those, so that nothing happens inside a batch. A call that is answered has had one turn
under the lock on the way, if it came there at all, and its answer is the one of the sequential
queue. A batch stands as one block behind whatever its source asked for itself, in the order in
which the source gave it, and one whose source unwinds leaves nothing of its own. -/
theorem fifo_linearizable {items : List α} {threads horizon : Nat} {s : State α}
    (reachable : Reachable items threads horizon s) :
    items ++ s.appended = s.removed ++ s.items ∧
      (∀ act u, s.next? act = some u →
        (u.trace = s.trace ∧ u.items = s.items) ∨
          ∃ e chosen, act = .step e.thread chosen ∧ u.trace = s.trace ++ [e] ∧
            e.Moves s.items u.items) ∧
      (∀ i r acts u p, Answered s i (.plain r) acts u p →
        ∃ es, u.deeds i = s.deeds i ++ es ∧
          r.Does s (.call i (.plain r) :: acts) i s.now p es) ∧
      ∀ i source acts u p, Answered s i (.batch source) acts u p →
        (p = .done ∧ ∃ batch es front behind,
          source.Gives s (.call i (.batch source) :: acts) i (some batch) es ∧
          u.trace = s.trace ++ (front ++ Entry.ofBatch i batch ++ behind) ∧
          front.filter (fun e => e.thread = i) = es ∧
          behind.filter (fun e => e.thread = i) = []) ∨
        (p = .broken ∧ ∃ es, source.Gives s (.call i (.batch source) :: acts) i none es ∧
          u.deeds i = s.deeds i ++ es) := by
  refine ⟨reachable.conserved, fun act u hs => moves_step (step_of_next hs),
    fun i r acts u p answered => ?_, fun i source acts u p answered => ?_⟩
  · obtain ⟨es, deeds, does⟩ := answered.does
    cases does with
    | plain does => exact ⟨es, deeds, does⟩
  · obtain ⟨es, deeds, does⟩ := answered.does
    cases does with
    | broken gives => exact .inr ⟨rfl, es, gives, deeds⟩
    | @batch _ batch _ _ es es' gives since does =>
        obtain ⟨rfl, rfl⟩ := does.pushAll
        obtain ⟨front, behind, trace, hfront, hbehind⟩ :=
          State.trace_of_deeds (trace_run answered.run) deeds (Entry.length_ofBatch i batch)
        exact .inl ⟨rfl, batch, es, front, behind, gives, trace, hfront, hbehind⟩

theorem Source.Gives.of_yield {s : State α} {acts : List (Act α)} {i : Nat} {a : α}
    {rest : Source α} {batch : Option (List α)} {es : List (Entry α)}
    (gives : (Source.yield a rest).Gives s acts i batch es) :
    ∃ later, batch = later.map (a :: ·) ∧ rest.Gives s acts i later es := by
  generalize given : Source.yield a rest = source at gives
  cases gives with
  | yield gives => cases given; exact ⟨_, rfl, gives⟩
  | finish | unwind | ask => cases given

def selfServing : Source Nat :=
  .yield 10 (.ask .pop (fun _ => .yield 11 (.ask (.push 5) (fun _ => .finish))))

def pushInBetween : List (Act Nat) :=
  [.step 0 0, .step 0 0, .step 0 0, .call 1 (.plain (.push 7)), .step 0 0, .step 1 0, .step 0 0,
    .step 0 0, .step 0 0, .step 0 0]

theorem fifo_linearizable_selfServing :
    ∃ u v : State Nat,
      Answered { State.fresh 2 0 with items := [1] } 0 (.batch selfServing) pushInBetween u .done ∧
      (∃ front behind, u.trace = front ++ Entry.ofBatch 0 [10, 11] ++ behind) ∧
      Answered u 1 (.batch (.broken [20])) [.step 1 0, .step 1 0] v .broken ∧
      v.deeds 1 = u.deeds 1 ∧ [1] ++ v.appended = v.removed ++ v.items ∧
      v.items = [7, 5, 10, 11] := by
  have hp : (({ State.fresh 2 0 with items := [1] } : State Nat).run?
      (.call 0 (.batch selfServing) :: pushInBetween)).any (fun u =>
        u.lastReply? 0 = some .done &&
          (u.run? [.call 1 (.batch (.broken [20])), .step 1 0, .step 1 0]).any (fun v =>
            v.lastReply? 1 = some .broken && v.items = [7, 5, 10, 11])) = true := by
    decide
  obtain ⟨u, hu, hp⟩ := (Option.any_eq_true _ _).mp hp
  simp only [Bool.and_eq_true, decide_eq_true_eq] at hp
  obtain ⟨done, hp⟩ := hp
  obtain ⟨v, hv, hp⟩ := (Option.any_eq_true _ _).mp hp
  simp only [Bool.and_eq_true, decide_eq_true_eq] at hp
  obtain ⟨broken, left⟩ := hp
  have served : Answered { State.fresh 2 0 with items := [1] } 0 (.batch selfServing) pushInBetween
      u .done := ⟨hu, by decide, done⟩
  have failed : Answered u 1 (.batch (.broken [20])) [.step 1 0, .step 1 0] v .broken :=
    ⟨hv, by decide, broken⟩
  have reachable : Reachable [1] 2 0 u := Reachable.create.run hu
  obtain ⟨conserved, -⟩ := fifo_linearizable (reachable.run hv)
  obtain ⟨-, -, -, batches⟩ := fifo_linearizable (.create : Reachable [1] 2 0 _)
  obtain ⟨-, -, -, batches'⟩ := fifo_linearizable reachable
  refine ⟨u, v, served, ?_, failed, ?_, conserved, left⟩
  · obtain ⟨-, batch, es, front, behind, gives, trace, -⟩ | ⟨other, -⟩ := batches _ _ _ _ _ served
    · obtain ⟨_, first, popping⟩ := gives.of_yield
      cases popping with
      | ask _ _ popped =>
          obtain ⟨_, rfl, pushing⟩ := popped.of_yield
          cases pushing with
          | ask _ _ pushed =>
              cases pushed
              cases first
              exact ⟨front, behind, trace⟩
    · cases other
  · obtain ⟨other, -⟩ | ⟨-, es, gives, deeds⟩ := batches' _ _ _ _ _ failed
    · cases other
    · obtain ⟨_, -, gives⟩ := gives.of_yield
      cases gives
      rw [deeds, List.append_nil]

end QueueWorker.Queue
