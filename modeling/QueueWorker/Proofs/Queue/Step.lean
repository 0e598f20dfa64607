import Mathlib.Tactic.Common
import QueueWorker.Queue.Basic

namespace QueueWorker.Queue

variable {α : Type}

def Stage.answered (r : Reply α) : Option (Frame α) → Stage α
  | none => .idle (some r)
  | some f => .collecting f.got (f.rest r)

inductive Request.Enters (now : Nat) : Request α → Section α → Prop
  | push (a) : Enters now (.push a) (.append [a])
  | pushAll (as) (some : as ≠ []) : Enters now (.pushAll as) (.append as)
  | pop : Enters now .pop (.take none)
  | popWithin (time) : Enters now (.popWithin time) (.take (some (now + time)))
  | tryPop : Enters now .tryPop .tryTake
  | drain : Enters now .drain .drain
  | length : Enters now .length .length

inductive Request.Passes (now horizon : Nat) : Request α → Reply α → Prop
  | pushNone : Passes now horizon (.pushAll []) .done
  | popWithin (time) (beyond : horizon < now + time) : Passes now horizon (.popWithin time) .beyond

/-- The sequential queue: what thread `i` is answered under the lock at time `now`, with the
contents before and behind it and the entries that it leaves. -/
inductive Section.Meets (i now : Nat) :
    Section α → Reply α → List α → List α → List (Entry α) → Prop
  | append (as xs) : Meets i now (.append as) .done xs (xs ++ as) [.appended i as]
  | take (deadline a xs) :
      Meets i now (.take deadline) (.item a) (a :: xs) xs [.removed i [a]]
  | takeLast (a xs) : Meets i now .takeLast (.item a) (a :: xs) xs [.removed i [a]]
  | giveUp : Meets i now .takeLast .nothing [] [] [.gaveUp i now]
  | tryTake (a xs) : Meets i now .tryTake (.item a) (a :: xs) xs [.removed i [a]]
  | miss : Meets i now .tryTake .nothing [] [] []
  | drain (xs) : Meets i now .drain (.items xs) xs [] [.removed i xs]
  | length (xs) : Meets i now .length (.length xs.length) xs xs []

namespace State

variable {s u v : State α}

theorem mem_sleepers {i : Nat} :
    i ∈ s.sleepers ↔ ∃ deadline into, s.threads[i]? = some (.sleeping deadline into) := by
  rw [sleepers, List.mem_filter, List.mem_range]
  constructor
  · rintro ⟨-, asleep⟩
    obtain ⟨t, ht, hi⟩ := Option.any_eq_true .. |>.mp asleep
    cases t with
    | sleeping deadline into => exact ⟨deadline, into, ht⟩
    | idle | collecting | entering => cases hi
  · rintro ⟨deadline, into, ht⟩
    exact ⟨(List.getElem?_eq_some_iff.mp ht).1, by rw [ht]; rfl⟩

theorem wake_cases (s : State α) (chosen : Nat) :
    (s.sleepers = [] ∧ s.wake chosen = s) ∨
      ∃ j deadline into, s.threads[j]? = some (.sleeping deadline into) ∧
        s.wake chosen = s.put j (.entering (.take deadline) into) := by
  cases hj : s.sleepers[chosen % s.sleepers.length]? with
  | none =>
      refine .inl ⟨?_, by simp only [wake, hj]⟩
      by_contra some
      have bound := Nat.mod_lt chosen (List.length_pos_iff.mpr some)
      exact absurd (List.getElem?_eq_none_iff.mp hj) (Nat.not_le.mpr bound)
  | some j =>
      obtain ⟨deadline, into, ht⟩ := mem_sleepers.mp (List.mem_of_getElem? hj)
      exact .inr ⟨j, deadline, into, ht, by simp only [wake, hj, ht]⟩

def leave (s : State α) (ys : List α) (es : List (Entry α)) : State α :=
  { s with items := ys, trace := s.trace ++ es }

theorem leave_eq {ys : List α} (items : s.items = ys) : s.leave ys [] = s := by
  rw [leave, List.append_nil, ← items]

theorem answer_eq (s : State α) (i : Nat) (r : Reply α) (into : Option (Frame α)) :
    s.answer i r into = s.put i (.answered r into) := by
  cases into <;> rfl

theorem ask_cases (s : State α) (i : Nat) (into : Option (Frame α)) (r : Request α) :
    (∃ sec, r.Enters s.now sec ∧ s.ask i into r = s.put i (.entering sec into)) ∨
      ∃ p, r.Passes s.now s.horizon p ∧ s.ask i into r = s.put i (.answered p into) := by
  cases r with
  | push a => exact .inl ⟨_, .push a, rfl⟩
  | pushAll as =>
      cases as with
      | nil => exact .inr ⟨_, .pushNone, s.answer_eq i .done into⟩
      | cons a as => exact .inl ⟨_, .pushAll (a :: as) (List.cons_ne_nil a as), rfl⟩
  | pop => exact .inl ⟨_, .pop, rfl⟩
  | popWithin time =>
      rw [ask]
      split
      next => exact .inl ⟨_, .popWithin time, rfl⟩
      next beyond =>
        exact .inr ⟨_, .popWithin time (Nat.not_le.mp beyond), s.answer_eq i .beyond into⟩
  | tryPop => exact .inl ⟨_, .tryPop, rfl⟩
  | drain => exact .inl ⟨_, .drain, rfl⟩
  | length => exact .inl ⟨_, .length, rfl⟩

end State

/-- One step of a queue with the threads that use it, case by case. -/
inductive Step (s : State α) : Act α → State α → Prop
  | enter (i r last sec) (stage : s.threads[i]? = some (.idle last)) (enters : r.Enters s.now sec) :
      Step s (.call i (.plain r)) (s.put i (.entering sec none))
  | pass (i r last p) (stage : s.threads[i]? = some (.idle last))
      (passes : r.Passes s.now s.horizon p) :
      Step s (.call i (.plain r)) (s.put i (.idle (some p)))
  | batch (i source last) (stage : s.threads[i]? = some (.idle last)) :
      Step s (.call i (.batch source)) (s.put i (.collecting [] source))
  | commit (i chosen got) (stage : s.threads[i]? = some (.collecting got .finish))
      (some : got ≠ []) : Step s (.step i chosen) (s.put i (.entering (.append got) none))
  | commitNone (i chosen) (stage : s.threads[i]? = some (.collecting [] .finish)) :
      Step s (.step i chosen) (s.put i (.idle (some .done)))
  | unwind (i chosen got) (stage : s.threads[i]? = some (.collecting got .unwind)) :
      Step s (.step i chosen) (s.put i (.idle (some .broken)))
  | yield (i chosen got a rest) (stage : s.threads[i]? = some (.collecting got (.yield a rest))) :
      Step s (.step i chosen) (s.put i (.collecting (got ++ [a]) rest))
  | enterBack (i chosen got r rest sec)
      (stage : s.threads[i]? = some (.collecting got (.ask r rest))) (enters : r.Enters s.now sec) :
      Step s (.step i chosen) (s.put i (.entering sec (some ⟨got, rest⟩)))
  | passBack (i chosen got r rest p)
      (stage : s.threads[i]? = some (.collecting got (.ask r rest)))
      (passes : r.Passes s.now s.horizon p) :
      Step s (.step i chosen) (s.put i (.collecting got (rest p)))
  | append (i chosen as into) (stage : s.threads[i]? = some (.entering (.append as) into)) :
      Step s (.step i chosen)
        (((s.leave (s.items ++ as) [.appended i as]).wake chosen).put i (.answered .done into))
  | meet (i chosen sec into p ys es) (stage : s.threads[i]? = some (.entering sec into))
      (quiet : ∀ as, sec ≠ .append as) (meets : sec.Meets i s.now p s.items ys es) :
      Step s (.step i chosen) ((s.leave ys es).put i (.answered p into))
  | sleep (i chosen deadline into) (stage : s.threads[i]? = some (.entering (.take deadline) into))
      (items : s.items = []) : Step s (.step i chosen) (s.put i (.sleeping deadline into))
  | stir (i deadline into) (stage : s.threads[i]? = some (.sleeping deadline into)) :
      Step s (.stir i) (s.put i (.entering (.take deadline) into))
  | expire (i deadline into) (stage : s.threads[i]? = some (.sleeping (some deadline) into))
      (late : deadline ≤ s.now) : Step s (.expire i) (s.put i (.entering .takeLast into))
  | elapse (time) : Step s (.pass time) { s with now := s.now + time }

theorem step_of_ask {s : State α} {i : Nat} {r : Request α} {last : Option (Reply α)}
    (stage : s.threads[i]? = some (.idle last)) :
    Step s (.call i (.plain r)) (s.ask i none r) := by
  obtain ⟨sec, enters, hu⟩ | ⟨p, passes, hu⟩ := s.ask_cases i none r
  · rw [hu]
    exact .enter i r last sec stage enters
  · rw [hu]
    exact .pass i r last p stage passes

theorem step_of_collect {s : State α} {i chosen : Nat} {got : List α} {source : Source α}
    (stage : s.threads[i]? = some (.collecting got source)) :
    Step s (.step i chosen) (s.collect i got source) := by
  cases source with
  | finish =>
      cases got with
      | nil => exact .commitNone i chosen stage
      | cons a as => exact .commit i chosen (a :: as) stage (List.cons_ne_nil a as)
  | unwind => exact .unwind i chosen got stage
  | yield a rest => exact .yield i chosen got a rest stage
  | ask r rest =>
      rw [State.collect]
      obtain ⟨sec, enters, hu⟩ | ⟨p, passes, hu⟩ := s.ask_cases i (some ⟨got, rest⟩) r
      · rw [hu]
        exact .enterBack i chosen got r rest sec stage enters
      · rw [hu]
        exact .passBack i chosen got r rest p stage passes

theorem step_of_enter {s : State α} {i chosen : Nat} {sec : Section α} {into : Option (Frame α)}
    (stage : s.threads[i]? = some (.entering sec into)) :
    Step s (.step i chosen) (s.enter i chosen into sec) := by
  have meet {p xs ys es} (quiet : ∀ as, sec ≠ .append as) (items : s.items = xs)
      (meets : sec.Meets i s.now p xs ys es) :
      Step s (.step i chosen) ((s.leave ys es).put i (.answered p into)) :=
    .meet i chosen sec into p ys es stage quiet (items ▸ meets)
  cases sec with
  | append as =>
      rw [State.enter, State.answer_eq]
      exact .append i chosen as into stage
  | take deadline =>
      cases items : s.items with
      | nil =>
          simp only [State.enter, items]
          exact .sleep i chosen deadline into stage items
      | cons a xs =>
          simp only [State.enter, items, State.answer_eq]
          exact meet nofun items (.take deadline a xs)
  | takeLast =>
      cases items : s.items with
      | nil =>
          have kept : s.note (.gaveUp i s.now) = s.leave [] [.gaveUp i s.now] := by
            rw [State.note, State.leave, ← items]
          simp only [State.enter, items, State.answer_eq, kept]
          exact meet nofun items .giveUp
      | cons a xs =>
          simp only [State.enter, items, State.answer_eq]
          exact meet nofun items (.takeLast a xs)
  | tryTake =>
      cases items : s.items with
      | nil =>
          simp only [State.enter, items, State.answer_eq]
          simpa only [State.leave_eq items] using meet nofun items .miss
      | cons a xs =>
          simp only [State.enter, items, State.answer_eq]
          exact meet nofun items (.tryTake a xs)
  | drain =>
      rw [State.enter, State.answer_eq]
      exact meet nofun rfl (.drain s.items)
  | length =>
      rw [State.enter, State.answer_eq]
      simpa only [State.leave_eq rfl] using meet nofun rfl (.length s.items)

theorem step_of_next {s u : State α} {act : Act α} (hs : s.next? act = some u) :
    Step s act u := by
  cases act with
  | call i c =>
      simp only [State.next?] at hs
      split at hs
      next last r stage => cases hs; exact step_of_ask stage
      next last source stage => cases hs; exact .batch i source last stage
      next => cases hs
  | step i chosen =>
      simp only [State.next?] at hs
      split at hs
      next got source stage => cases hs; exact step_of_collect stage
      next sec into stage => cases hs; exact step_of_enter stage
      next => cases hs
  | stir i =>
      simp only [State.next?] at hs
      split at hs
      next deadline into stage => cases hs; exact .stir i deadline into stage
      next => cases hs
  | expire i =>
      simp only [State.next?] at hs
      split at hs
      next deadline into stage =>
          split at hs
          next late => cases hs; exact .expire i deadline into stage late
          next => cases hs
      next => cases hs
  | pass time => cases hs; exact .elapse time

def State.run? (s : State α) : List (Act α) → Option (State α)
  | [] => some s
  | act :: acts => (s.next? act).bind (fun u => u.run? acts)

/-- The states of a queue that holds the items at first, with the threads that use it. -/
inductive Reachable (items : List α) (threads horizon : Nat) : State α → Prop
  | create : Reachable items threads horizon { State.fresh threads horizon with items }
  | next {s u : State α} {act : Act α} (before : Reachable items threads horizon s)
      (step : s.next? act = some u) : Reachable items threads horizon u

theorem Reachable.run {items : List α} {threads horizon : Nat} {s u : State α}
    {acts : List (Act α)} (hr : Reachable items threads horizon s) (hs : s.run? acts = some u) :
    Reachable items threads horizon u := by
  induction acts generalizing s with
  | nil => cases hs; exact hr
  | cons act acts ih =>
      obtain ⟨v, hv, hu⟩ := Option.bind_eq_some_iff.mp hs
      exact ih (hr.next hv) hu

end QueueWorker.Queue
