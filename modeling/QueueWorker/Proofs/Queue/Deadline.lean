import QueueWorker.Proofs.Queue.Waiting

namespace QueueWorker.Queue

variable {α : Type} {s u : State α} {i time : Nat}

theorem stage_run_ne {acts : List (Act α)} {t : Stage α} (hs : s.run? acts = some u)
    (others : ∀ act ∈ acts, act.isOf i = false) (awake : t.isSleeping = false)
    (hi : s.threads[i]? = some t) : u.threads[i]? = some t := by
  induction acts generalizing s with
  | nil => cases hs; exact hi
  | cons act acts ih =>
      obtain ⟨v, hv, hu⟩ := Option.bind_eq_some_iff.mp hs
      obtain ⟨-, kept | ⟨deadline, into, rfl, -⟩⟩ :=
        stage_step_ne (step_of_next hv) (others act List.mem_cons_self) hi
      · exact ih hu (fun b hb => others b (List.mem_cons_of_mem act hb)) kept
      · cases awake

theorem call_popWithin (hs : s.next? (.call i (.plain (.popWithin time))) = some u) :
    (s.now + time ≤ s.horizon ∧
        u.threads[i]? = some (.entering (.take (some (s.now + time))) none)) ∨
      s.horizon < s.now + time ∧ u.threads[i]? = some (.idle (some .beyond)) ∧
        u.items = s.items ∧ u.trace = s.trace := by
  simp only [State.next?] at hs
  split at hs
  next last r stage same =>
      cases same
      cases hs
      rw [State.ask]
      split
      next within => exact .inl ⟨within, State.threads_put_self stage _⟩
      next beyond =>
        exact .inr ⟨Nat.not_le.mp beyond, State.threads_put_self stage _, rfl, rfl⟩
  next same => cases same
  next => cases hs

theorem exists_call {last : Option (Reply α)} (hi : s.threads[i]? = some (.idle last))
    (r : Request α) : ∃ u, s.next? (.call i (.plain r)) = some u := by
  simp only [State.next?, hi]
  exact ⟨_, rfl⟩

theorem exists_step {sec : Section α} {into : Option (Frame α)}
    (hi : s.threads[i]? = some (.entering sec into)) (chosen : Nat) :
    ∃ u, s.next? (.step i chosen) = some u := by
  simp only [State.next?, hi]
  exact ⟨_, rfl⟩

theorem lastLook_of_expired {deadline : Nat} {into : Option (Frame α)}
    (hi : s.threads[i]? = some (.sleeping (some deadline) into)) (late : deadline ≤ s.now)
    (chosen : Nat) : ∃ u, s.run? [.expire i, .step i chosen] = some u ∧
      ((∃ a, s.items = a :: u.items ∧ u.threads[i]? = some (.answered (.item a) into)) ∨
        s.items = [] ∧ u.items = [] ∧ u.threads[i]? = some (.answered .nothing into)) := by
  have expired : s.next? (.expire i) = some (s.put i (.entering .takeLast into)) := by
    simp only [State.next?, hi, if_pos late]
  have looking : (s.put i (.entering .takeLast into)).threads[i]? =
      some (.entering .takeLast into) := State.threads_put_self hi _
  obtain ⟨u, hu⟩ := exists_step looking chosen
  refine ⟨u, ?_, lastLook_step (s := s.put i (.entering .takeLast into)) looking hu⟩
  simp only [State.run?, expired, Option.bind_some, hu]

theorem Answered.beyond {acts : List (Act α)} {p : Reply α}
    (h : Answered s i (.plain (.popWithin time)) acts u p) (beyond : s.horizon < s.now + time) :
    p = .beyond ∧ u.deeds i = s.deeds i := by
  obtain ⟨v, hv, hu⟩ := Option.bind_eq_some_iff.mp h.run
  obtain ⟨within, -⟩ | ⟨-, hi, -, trace⟩ := call_popWithin hv
  · exact absurd beyond (Nat.not_lt.mpr within)
  · obtain ⟨es, deeds, does⟩ := does_run hu h.calls hi (State.stage_of_lastReply? h.reply)
    obtain ⟨rfl, rfl⟩ := does.answer
    exact ⟨rfl, by rw [deeds, List.append_nil, State.deeds, trace, State.deeds]⟩

/-- `popWithin` is `pop` with a deadline for each time whose end the clock can show, and for no
other: then it is answered `beyond` and leaves the items alone, whatever there is to take. With a
deadline on the clock it takes what it finds in front on its first look, or falls asleep over an
empty queue. A sleeper that is late needs its last look only. Whatever happens meanwhile, it takes
one item from the front, or nothing with the queue empty on a look that comes after the deadline. -/
theorem pop_until_deadline :
    (∀ last, s.threads[i]? = some (.idle last) → s.horizon < s.now + time →
        ∃ u, s.next? (.call i (.plain (.popWithin time))) = some u ∧
          u.lastReply? i = some .beyond ∧ u.items = s.items ∧ u.trace = s.trace) ∧
      (∀ acts v chosen, s.run? (.call i (.plain (.popWithin time)) :: acts) = some v →
        (∀ act ∈ acts, act.isOf i = false) → s.now + time ≤ s.horizon →
        ∃ u, v.next? (.step i chosen) = some u ∧
          ((∃ a, v.items = a :: u.items ∧ u.lastReply? i = some (.item a)) ∨
            v.items = [] ∧ i ∈ u.sleepers)) ∧
      (∀ deadline into chosen, s.threads[i]? = some (.sleeping (some deadline) into) →
        deadline ≤ s.now → ∃ u, s.run? [.expire i, .step i chosen] = some u ∧
          ((∃ a, s.items = a :: u.items ∧ u.threads[i]? = some (.answered (.item a) into)) ∨
            s.items = [] ∧ u.items = [] ∧ u.threads[i]? = some (.answered .nothing into))) ∧
      ∀ acts u p, Answered s i (.plain (.popWithin time)) acts u p →
        (s.horizon < s.now + time ∧ p = .beyond ∧ u.deeds i = s.deeds i) ∨
        (s.now + time ≤ s.horizon ∧
          ((∃ a xs now, p = .item a ∧ u.deeds i = s.deeds i ++ [.removed i [a]] ∧
              s.Turns (.call i (.plain (.popWithin time)) :: acts) i now (a :: xs) xs
                [.removed i [a]]) ∨
            ∃ now, p = .nothing ∧ s.now + time ≤ now ∧ u.deeds i = s.deeds i ++ [.gaveUp i now] ∧
              s.Turns (.call i (.plain (.popWithin time)) :: acts) i now [] []
                [.gaveUp i now])) := by
  refine ⟨fun last hi beyond => ?_, fun acts v chosen hv others within => ?_,
    fun deadline into chosen hi late => lastLook_of_expired hi late chosen,
    fun acts u p answered => ?_⟩
  · obtain ⟨u, hu⟩ := exists_call hi (.popWithin time)
    obtain ⟨within, -⟩ | ⟨-, hi', items, trace⟩ := call_popWithin hu
    · exact absurd beyond (Nat.not_lt.mpr within)
    · exact ⟨u, hu, by rw [State.lastReply?, hi'], items, trace⟩
  · obtain ⟨u, hu, hv⟩ := Option.bind_eq_some_iff.mp hv
    obtain ⟨-, hi⟩ | ⟨beyond, -⟩ := call_popWithin hu
    · have hi' := stage_run_ne hv others rfl hi
      obtain ⟨w, hw⟩ := exists_step hi' chosen
      refine ⟨w, hw, ?_⟩
      obtain ⟨a, items, taken⟩ | ⟨items, asleep⟩ := removal_step hi' hw
      · exact .inl ⟨a, items, by rw [State.lastReply?, taken]; rfl⟩
      · exact .inr ⟨items, State.mem_sleepers.mpr ⟨_, _, asleep⟩⟩
    · exact absurd beyond (Nat.not_lt.mpr within)
  · -- What the call does under the lock does not tell whether the clock shows its deadline.
    obtain beyond | within := Nat.lt_or_ge s.horizon (s.now + time)
    · exact .inl ⟨beyond, answered.beyond beyond⟩
    · refine .inr ⟨within, ?_⟩
      obtain ⟨es, deeds, does⟩ := answered.does
      cases does with
      | plain does =>
          obtain ⟨-, beyond⟩ | ⟨a, xs, now, rfl, rfl, turns⟩ | ⟨now, rfl, late, rfl, turns⟩ :=
            does.popWithin
          · exact absurd beyond (Nat.not_lt.mpr within)
          · exact .inl ⟨a, xs, now, rfl, deeds, turns⟩
          · exact .inr ⟨now, rfl, late, deeds, turns⟩

def pushBeforeLook : List (Act Nat) := [.call 0 (.plain (.push 7)), .step 0 0]

def sleptAway : State Nat :=
  { threads := [.idle none, .sleeping (some 5) none, .idle none], now := 5, horizon := 10 }

theorem pop_until_deadline_sleptAway :
    (∃ u : State Nat, State.next? { State.fresh 3 10 with items := [7] }
        (.call 1 (.plain (.popWithin 11))) = some u ∧ u.lastReply? 1 = some .beyond ∧
        u.items = [7]) ∧
      (∃ v u : State Nat, (State.fresh 3 10).run?
        (.call 1 (.plain (.popWithin 5)) :: pushBeforeLook) = some v ∧
        v.next? (.step 1 0) = some u ∧ u.lastReply? 1 = some (.item 7)) ∧
      ∃ u : State Nat, sleptAway.run? [.expire 1, .step 1 0] = some u ∧
        u.lastReply? 1 = some .nothing ∧ ∃ now, 5 ≤ now ∧ u.deeds 1 = [.gaveUp 1 now] := by
  obtain ⟨beyond, -⟩ := @pop_until_deadline Nat { State.fresh 3 10 with items := [7] } 1 11
  obtain ⟨-, look, -, answered⟩ := @pop_until_deadline Nat (State.fresh 3 10) 1 5
  obtain ⟨-, -, lastLook, -⟩ := @pop_until_deadline Nat sleptAway 1 5
  have pushed : ((State.fresh 3 10).run?
      (.call 1 (.plain (.popWithin 5)) :: pushBeforeLook)).any (fun v => v.items = [7]) = true := by
    decide
  obtain ⟨refused, hr, beyond, kept, -⟩ := beyond none rfl (by decide)
  obtain ⟨v, hv, front⟩ := (Option.any_eq_true _ _).mp pushed
  have front : v.items = [7] := of_decide_eq_true front
  obtain ⟨w, hw, took⟩ := look pushBeforeLook v 0 hv (by decide) (by decide)
  obtain ⟨u, hu, gaveUp⟩ := lastLook 5 none 0 rfl (by decide)
  refine ⟨⟨refused, hr, beyond, kept⟩, ⟨v, w, hv, hw, ?_⟩, u, hu, ?_⟩
  · obtain ⟨a, items, reply⟩ | ⟨empty, -⟩ := took
    · obtain ⟨rfl, -⟩ := List.cons.inj (items.symm.trans front)
      exact reply
    · cases front.symm.trans empty
  · obtain ⟨a, items, -⟩ | ⟨-, -, hi⟩ := gaveUp
    · cases items
    have reply : u.lastReply? 1 = some .nothing := by rw [State.lastReply?, hi]; rfl
    have slept : Answered (State.fresh 3 10) 1 (.plain (.popWithin 5))
        [.step 1 0, .pass 5, .expire 1, .step 1 0] u .nothing := ⟨hu, by decide, reply⟩
    obtain ⟨-, other, -⟩ | ⟨-, ⟨_, _, _, other, -⟩ | ⟨now, -, late, deeds, -⟩⟩ :=
      answered _ _ _ slept
    · cases other
    · cases other
    · exact ⟨reply, now, late, deeds⟩

def longestWait : Nat := 0xFFFFFFFFFFFFFFFF * second + 999999999

/-- With the longest time `popWithin` fails where `pop` has an item to take. -/
theorem beyond_longestWait :
    (∃ u : State Nat, Answered { State.fresh 1 horizon with items := [7] } 0
        (.plain (.popWithin longestWait)) [] u .beyond ∧ u.items = [7]) ∧
      ∃ u : State Nat, Answered { State.fresh 1 horizon with items := [7] } 0
        (.plain .pop) [.step 0 0] u (.item 7) := by
  have refused : (State.run? { State.fresh 1 horizon with items := [7] }
      [.call 0 (.plain (.popWithin longestWait))]).any
        (fun u => u.lastReply? 0 = some .beyond ∧ u.items = [7]) = true := by decide
  have taken : (State.run? { State.fresh 1 horizon with items := [7] }
      [.call 0 (.plain .pop), .step 0 0]).any
      (fun u => u.lastReply? 0 = some (.item 7)) = true := by decide
  obtain ⟨u, hu, beyond⟩ := (Option.any_eq_true _ _).mp refused
  obtain ⟨reply, items⟩ := of_decide_eq_true beyond
  obtain ⟨v, hv, reply'⟩ := (Option.any_eq_true _ _).mp taken
  exact ⟨⟨u, ⟨hu, nofun, reply⟩, items⟩, v, hv, by decide, of_decide_eq_true reply'⟩

end QueueWorker.Queue
