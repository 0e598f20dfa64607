import QueueWorker.Proofs.Queue.Order
import QueueWorker.Proofs.Queue.Waiting

namespace QueueWorker.Queue

variable {α : Type}

/-- The call pushes the items, in one go. -/
inductive Call.Puts : Call α → List α → Prop
  | push (a) : Puts (.plain (.push a)) [a]
  | batch (as) : Puts (.batch (.ofList as)) as

def Act.call? : Act α → Option (Nat × Call α)
  | call i c => some (i, c)
  | _ => none

def Act.isStir : Act α → Bool
  | stir _ => true
  | _ => false

/-- What shows of a queue that has come to rest: the items handed out, those left, and how many
threads are still asleep. -/
structure Upshot (α : Type) where
  handed : List α
  left : List α
  parked : Nat

namespace State

/-- One thread makes the calls, one behind the other, and nobody else makes any, until the queue is
at rest. Sleepers wake up without cause only if they may. -/
def Allows (s : State α) (p : Nat) (calls : List (Call α)) (stirs : Bool) (x : Upshot α) : Prop :=
  ∃ acts u, s.run? acts = some u ∧ acts.filterMap Act.call? = calls.map (p, ·) ∧
    (stirs = false → ∀ act ∈ acts, act.isStir = false) ∧ u.IsAtRest ∧
    u.removed = s.removed ++ x.handed ∧ u.items = x.left ∧ u.sleepers.length = x.parked

def Still (s : State α) (p : Nat) : Prop :=
  ∀ (j : Nat) t, j ≠ p → s.threads[j]? = some t → t.isIdle = true ∨ t = .sleeping none none

/-- Thread `p` is outside, too. -/
structure Poised (s : State α) (p : Nat) : Prop where
  producer : ∃ last, s.threads[p]? = some (.idle last)
  others : s.Still p

@[simp] theorem items_put (s : State α) (i : Nat) (t : Stage α) : (s.put i t).items = s.items := rfl

@[simp] theorem items_leave (s : State α) (ys : List α) (es : List (Entry α)) :
    (s.leave ys es).items = ys := rfl

@[simp] theorem removed_put (s : State α) (i : Nat) (t : Stage α) :
    (s.put i t).removed = s.removed := rfl

@[simp] theorem removed_wake (s : State α) (chosen : Nat) :
    (s.wake chosen).removed = s.removed := by
  rw [removed, trace_wake, removed]

@[simp] theorem removed_leave (s : State α) (ys : List α) (es : List (Entry α)) :
    (s.leave ys es).removed = s.removed ++ es.flatMap Entry.removes :=
  List.flatMap_append

theorem length_sleepers (s : State α) : s.sleepers.length = s.threads.countP Stage.isSleeping := by
  have indices : (List.range s.threads.length).map (s.threads[·]?) = s.threads.map some := by
    apply List.ext_getElem
    · simp
    · intro i hi hi'
      simp at hi hi' ⊢
  calc s.sleepers.length
    _ = ((List.range s.threads.length).map (s.threads[·]?)).countP
          (fun t => t.any Stage.isSleeping) := by
        rw [sleepers, ← List.countP_eq_length_filter, List.countP_map]; rfl
    _ = s.threads.countP Stage.isSleeping := by
        rw [indices, List.countP_map]; rfl

theorem countP_put {s : State α} {j : Nat} {t : Stage α} (hj : s.threads[j]? = some t)
    (P : Stage α → Bool) (t' : Stage α) :
    (s.put j t').threads.countP P + (P t).toNat = s.threads.countP P + (P t').toNat := by
  obtain ⟨bound, rfl⟩ := List.getElem?_eq_some_iff.mp hj
  rw [put, List.countP_set bound]
  cases hp : P s.threads[j] with
  | false => cases P t' <;> simp
  | true =>
      have there : 0 < s.threads.countP P :=
        List.countP_pos_iff.mpr ⟨_, List.getElem_mem bound, hp⟩
      cases P t' <;> simp <;> omega

end State

namespace Stage

def isWaiting : Stage α → Bool
  | sleeping none none | entering (.take none) none => true
  | _ => false

inductive Brings : Stage α → List α → Prop
  | idle (last) : Brings (.idle last) []
  | collecting (got as) : Brings (.collecting got (.ofList as)) (got ++ as)
  | entering (as) (some : as ≠ []) : Brings (.entering (.append as) none) as

theorem Brings.isSleeping {t : Stage α} {as : List α} (ht : t.Brings as) :
    t.isSleeping = false := by
  cases ht <;> rfl

theorem Brings.isWaiting {t : Stage α} {as : List α} (ht : t.Brings as) :
    t.isWaiting = false := by
  cases ht <;> rfl

end Stage

theorem Stage.Brings.of_collecting {got as : List α} {source : Source α}
    (ht : (Stage.collecting got source).Brings as) :
    ∃ rest, source = .ofList rest ∧ as = got ++ rest := by
  cases ht
  exact ⟨_, rfl, rfl⟩

/-- How many times pushing the batches wakes somebody up. -/
def wakeUps (bs : List (List α)) : Nat := bs.countP (fun b => !b.isEmpty)

structure Lineup (v : State α) (p : Nat) (as : List α) : Prop where
  producer : ∃ t, v.threads[p]? = some t ∧ t.Brings as
  others : ∀ (j : Nat) t, j ≠ p → v.threads[j]? = some t → t.isIdle = true ∨ t.isWaiting = true

namespace Lineup

variable {v : State α} {p j : Nat} {as : List α} {t t' : Stage α}

theorem produce {as' : List α} (hv : Lineup v p as) (ht : t'.Brings as') :
    Lineup (v.put p t') p as' := by
  obtain ⟨t, hp, -⟩ := hv.producer
  refine ⟨⟨t', State.threads_put_self hp t', ht⟩, fun j u hj hu => ?_⟩
  rw [State.threads_put_ne hj.symm] at hu
  exact hv.others j u hj hu

theorem countP_produce {as' : List α} (hv : Lineup v p as) (ht : t'.Brings as') :
    (v.put p t').threads.countP Stage.isWaiting = v.threads.countP Stage.isWaiting ∧
      (v.put p t').threads.countP Stage.isSleeping = v.threads.countP Stage.isSleeping := by
  obtain ⟨t, hp, brings⟩ := hv.producer
  have waiting := State.countP_put hp Stage.isWaiting t'
  have sleeping := State.countP_put hp Stage.isSleeping t'
  rw [brings.isWaiting, ht.isWaiting] at waiting
  rw [brings.isSleeping, ht.isSleeping] at sleeping
  exact ⟨waiting, sleeping⟩

theorem consume (hv : Lineup v p as) (hj : j ≠ p) (t : Stage α)
    (ht : t.isIdle = true ∨ t.isWaiting = true) : Lineup (v.put j t) p as := by
  obtain ⟨t', hp, brings⟩ := hv.producer
  refine ⟨⟨t', (State.threads_put_ne hj t).trans hp, brings⟩, fun i u hi hu => ?_⟩
  obtain rfl | ⟨-, hu⟩ := State.stage_of_put hu
  · exact ht
  · exact hv.others i u hi hu

theorem leave (hv : Lineup v p as) (ys : List α) (es : List (Entry α)) :
    Lineup (v.leave ys es) p as := ⟨hv.producer, hv.others⟩

theorem of_busy (hv : Lineup v p as) (hj : v.threads[j]? = some t) (busy : t.isIdle = false)
    (elsewhere : t.isWaiting = false) : j = p ∧ t.Brings as := by
  obtain rfl | ne := eq_or_ne j p
  · obtain ⟨t', hp, brings⟩ := hv.producer
    cases hj.symm.trans hp
    exact ⟨rfl, brings⟩
  · rcases hv.others j t ne hj with idle | waiting
    · rw [busy] at idle; cases idle
    · rw [elsewhere] at waiting; cases waiting

theorem of_waiting (hv : Lineup v p as) (hj : v.threads[j]? = some t)
    (waiting : t.isWaiting = true) : j ≠ p := by
  rintro rfl
  obtain ⟨t', hp, brings⟩ := hv.producer
  cases hj.symm.trans hp
  rw [brings.isWaiting] at waiting
  cases waiting

theorem of_sleeping {deadline : Option Nat} {into : Option (Frame α)} (hv : Lineup v p as)
    (hj : v.threads[j]? = some (.sleeping deadline into)) : deadline = none ∧ into = none := by
  by_cases waiting : (Stage.sleeping deadline into).isWaiting = true
  · cases deadline <;> cases into <;> first | exact ⟨rfl, rfl⟩ | cases waiting
  · obtain ⟨-, brings⟩ := hv.of_busy hj rfl (Bool.eq_false_iff.mpr waiting)
    cases brings

theorem of_taking {deadline : Option Nat} {into : Option (Frame α)} (hv : Lineup v p as)
    (hj : v.threads[j]? = some (.entering (.take deadline) into)) :
    deadline = none ∧ into = none := by
  by_cases waiting : (Stage.entering (.take deadline) into).isWaiting = true
  · cases deadline <;> cases into <;> first | exact ⟨rfl, rfl⟩ | cases waiting
  · obtain ⟨-, brings⟩ := hv.of_busy hj rfl (Bool.eq_false_iff.mpr waiting)
    cases brings

theorem sleeping_le_waiting (hv : Lineup v p as) :
    v.threads.countP Stage.isSleeping ≤ v.threads.countP Stage.isWaiting := by
  refine List.countP_mono_left fun t ht asleep => ?_
  obtain ⟨j, hj⟩ := List.mem_iff_getElem?.mp ht
  cases t with
  | sleeping deadline into =>
      obtain ⟨rfl, rfl⟩ := hv.of_sleeping hj
      rfl
  | idle | collecting | entering => cases asleep

end Lineup

namespace State.Poised

variable {s : State α} {p : Nat}

theorem lineup (hs : s.Poised p) : Lineup s p [] := by
  obtain ⟨last, hp⟩ := hs.producer
  exact ⟨⟨_, hp, .idle last⟩, fun j t hj ht =>
    (hs.others j t hj ht).imp id fun parked => by rw [parked]; rfl⟩

theorem countP_isWaiting (hs : s.Poised p) :
    s.threads.countP Stage.isWaiting = s.sleepers.length := by
  rw [length_sleepers]
  refine List.countP_congr fun t ht => ?_
  obtain ⟨j, hj⟩ := List.mem_iff_getElem?.mp ht
  have idle (hi : t.isIdle = true) : t.isWaiting = t.isSleeping := by
    cases t <;> cases hi; rfl
  by_cases mine : j = p
  · obtain ⟨last, hp⟩ := hs.producer
    subst mine
    cases hj.symm.trans hp
    rfl
  · rcases hs.others j t mine hj with hi | rfl
    · rw [idle hi]
    · rfl

theorem isAtRest (hs : s.Poised p) : s.IsAtRest := by
  intro j chosen
  cases hj : s.threads[j]? with
  | none => simp only [next?, hj]
  | some t =>
      have still : t.isIdle = true ∨ t = .sleeping none none := by
        by_cases mine : j = p
        · obtain ⟨last, hp⟩ := hs.producer
          subst mine
          cases hj.symm.trans hp
          exact .inl rfl
        · exact hs.others j t mine hj
      rcases still with idle | rfl
      · cases t <;> cases idle
        simp only [next?, hj]
      · simp only [next?, hj]

end State.Poised

/-- Where a queue stands that was poised at first. The producer has called to push the batches `bs`
and sleepers have woken up without cause `stirs` times. What is in `front` has been pushed, with so
many wake-ups made. -/
structure Serving (s v : State α) (p : Nat) (bs : List (List α)) (stirs : Nat)
    (as front handed : List α) (made : Nat) : Prop extends Lineup v p as where
  removed : v.removed = s.removed ++ handed
  items : handed ++ v.items = s.items ++ front
  pushed : front ++ as = bs.flatten
  wakes : made + wakeUps [as] = wakeUps bs
  bound : made ≤ front.length
  waiters : handed.length + v.threads.countP Stage.isWaiting = s.sleepers.length
  lower : v.threads.countP Stage.isSleeping + min s.sleepers.length made ≤ s.sleepers.length
  upper : s.sleepers.length ≤ made + stirs + v.threads.countP Stage.isSleeping

namespace Serving

variable {s v w : State α} {p stirs made : Nat} {bs : List (List α)} {as front handed : List α}

theorem of_poised (hs : s.Poised p) : Serving s s p [] 0 [] [] [] 0 := by
  have line := hs.lineup
  have waiters := hs.countP_isWaiting
  refine ⟨line, (List.append_nil _).symm, (List.append_nil _).symm, rfl, rfl, Nat.le_refl 0, ?_, ?_,
    ?_⟩
  · simpa using waiters
  · simp [s.length_sleepers]
  · simp [s.length_sleepers]

theorem produce (hs : Serving s v p bs stirs as front handed made) {t : Stage α}
    (ht : t.Brings as) : Serving s (v.put p t) p bs stirs as front handed made := by
  obtain ⟨waiting, sleeping⟩ := hs.toLineup.countP_produce ht
  exact ⟨hs.toLineup.produce ht, hs.removed, hs.items, hs.pushed, hs.wakes, hs.bound,
    waiting ▸ hs.waiters, sleeping ▸ hs.lower, sleeping ▸ hs.upper⟩

theorem call (hs : Serving s v p bs stirs as front handed made) {c : Call α} {b : List α}
    (puts : c.Puts b) (step : Step v (.call p c) w) :
    Serving s w p (bs ++ [b]) stirs b front handed made := by
  obtain ⟨t, hp, brings⟩ := hs.producer
  have start {t' : Stage α} {last : Option (Reply α)} (idle : v.threads[p]? = some (.idle last))
      (ht : t'.Brings b) : Serving s (v.put p t') p (bs ++ [b]) stirs b front handed made := by
    cases hp.symm.trans idle
    cases brings
    obtain ⟨waiting, sleeping⟩ := hs.toLineup.countP_produce ht
    refine ⟨hs.toLineup.produce ht, hs.removed, hs.items, ?_, ?_, hs.bound, waiting ▸ hs.waiters,
      sleeping ▸ hs.lower, sleeping ▸ hs.upper⟩
    · rw [List.flatten_append, ← hs.pushed]
      simp
    · rw [wakeUps, wakeUps, List.countP_append, ← wakeUps, ← wakeUps, ← hs.wakes]
      rfl
  cases puts with
  | push a =>
      cases step with
      | enter i r last sec stage enters =>
          cases enters
          exact start stage (.entering [a] (List.cons_ne_nil a []))
      | pass i r last q stage passes => cases passes
  | batch as =>
      cases step with
      | batch i source last stage => exact start stage (.collecting [] b)

theorem append (hs : Serving s v p bs stirs as front handed made)
    (stage : v.threads[p]? = some (.entering (.append as) none)) (chosen : Nat) :
    Serving s (((v.leave (v.items ++ as) [.appended p as]).wake chosen).put p (.idle (some .done)))
      p bs stirs [] (front ++ as) handed (made + 1) := by
  have some : as ≠ [] := by
    obtain ⟨-, brings⟩ := hs.toLineup.of_busy stage rfl rfl
    cases brings
    assumption
  obtain ⟨a, rest, rfl⟩ := List.exists_cons_of_ne_nil some
  obtain ⟨x, hx⟩ : ∃ x, x = v.leave (v.items ++ a :: rest) [.appended p (a :: rest)] := ⟨_, rfl⟩
  have hxl : Lineup x p (a :: rest) := hx ▸ hs.toLineup.leave _ _
  have threads : x.threads = v.threads := hx ▸ rfl
  rw [← hx]
  -- Whoever is woken still waits, so that only the number of sleepers changes.
  suffices woken : Lineup (x.wake chosen) p (a :: rest) ∧
      (x.wake chosen).threads.countP Stage.isWaiting = v.threads.countP Stage.isWaiting ∧
      (x.wake chosen).threads.countP Stage.isSleeping =
        v.threads.countP Stage.isSleeping - 1 by
    obtain ⟨line, waiting, sleeping⟩ := woken
    obtain ⟨waiting', sleeping'⟩ := line.countP_produce (.idle (Option.some Reply.done))
    have lower := hs.lower
    have upper := hs.upper
    refine ⟨line.produce (.idle _), ?_, ?_, ?_, ?_, ?_, ?_, ?_, ?_⟩
    · rw [State.removed_put, State.removed_wake, hx, State.removed_leave, hs.removed]
      exact List.append_nil _
    · rw [State.items_put, State.items_wake, hx, State.items_leave, ← List.append_assoc, hs.items,
        List.append_assoc]
    · rw [List.append_nil]; exact hs.pushed
    · rw [← hs.wakes]; rfl
    · have := hs.bound
      simp; omega
    · rw [waiting', waiting]; exact hs.waiters
    · rw [sleeping', sleeping]; omega
    · rw [sleeping', sleeping]; omega
  obtain ⟨none, hw⟩ | ⟨j, deadline, into, hj, hw⟩ := x.wake_cases chosen
  · have nobody := x.length_sleepers
    rw [none, threads] at nobody
    rw [hw, threads]
    exact ⟨hxl, rfl, by simp at nobody; omega⟩
  · obtain ⟨rfl, rfl⟩ := hxl.of_sleeping hj
    have waiting := State.countP_put hj Stage.isWaiting (.entering (.take none) none)
    have sleeping := State.countP_put hj Stage.isSleeping (.entering (.take none) none)
    simp [Stage.isWaiting, Stage.isSleeping, threads] at waiting sleeping
    rw [hw]
    exact ⟨hxl.consume (hxl.of_waiting hj rfl) _ (.inr rfl), waiting, by omega⟩

theorem sleep (hs : Serving s v p bs stirs as front handed made) {j : Nat}
    (hj : v.threads[j]? = some (.entering (.take none) none)) (items : v.items = []) :
    Serving s (v.put j (.sleeping none none)) p bs stirs as front handed made := by
  have line := hs.toLineup.consume (hs.toLineup.of_waiting hj rfl) (.sleeping none none) (.inr rfl)
  have waiting := State.countP_put hj Stage.isWaiting (.sleeping none none)
  have sleeping := State.countP_put hj Stage.isSleeping (.sleeping none none)
  simp [Stage.isWaiting, Stage.isSleeping] at waiting sleeping
  have inside := line.sleeping_le_waiting
  -- All that has been pushed is handed out, so that as many are gone as were woken.
  have handedOut : made ≤ handed.length := by
    have contents := congrArg List.length hs.items
    have bound := hs.bound
    simp only [items, List.append_nil, List.length_append] at contents
    omega
  have waiters := hs.waiters
  have upper := hs.upper
  exact ⟨line, hs.removed, hs.items, hs.pushed, hs.wakes, hs.bound, waiting ▸ waiters, by omega,
    by omega⟩

theorem stir (hs : Serving s v p bs stirs as front handed made) {j : Nat}
    (hj : v.threads[j]? = some (.sleeping none none)) :
    Serving s (v.put j (.entering (.take none) none)) p bs (stirs + 1) as front handed made := by
  have line := hs.toLineup.consume (hs.toLineup.of_waiting hj rfl) (.entering (.take none) none)
    (.inr rfl)
  have waiting := State.countP_put hj Stage.isWaiting (.entering (.take none) none)
  have sleeping := State.countP_put hj Stage.isSleeping (.entering (.take none) none)
  simp [Stage.isWaiting, Stage.isSleeping] at waiting sleeping
  have lower := hs.lower
  have upper := hs.upper
  exact ⟨line, hs.removed, hs.items, hs.pushed, hs.wakes, hs.bound, waiting ▸ hs.waiters, by omega,
    by omega⟩

theorem take (hs : Serving s v p bs stirs as front handed made) {j : Nat} {a : α} {xs : List α}
    (hj : v.threads[j]? = some (.entering (.take none) none)) (items : v.items = a :: xs) :
    Serving s ((v.leave xs [.removed j [a]]).put j (.idle (some (.item a)))) p bs stirs as front
      (handed ++ [a]) made := by
  have hj' : (v.leave xs [.removed j [a]]).threads[j]? = some (.entering (.take none) none) := hj
  have line := (hs.toLineup.leave xs [.removed j [a]]).consume (hs.toLineup.of_waiting hj rfl)
    (.idle (some (.item a))) (.inl rfl)
  have waiting := State.countP_put hj' Stage.isWaiting (.idle (some (.item a)))
  have sleeping := State.countP_put hj' Stage.isSleeping (.idle (some (.item a)))
  simp [Stage.isWaiting, Stage.isSleeping, State.leave] at waiting sleeping
  have waiters := hs.waiters
  refine ⟨line, ?_, ?_, hs.pushed, hs.wakes, hs.bound, ?_, sleeping ▸ hs.lower,
    sleeping ▸ hs.upper⟩
  · rw [State.removed_put, State.removed_leave, hs.removed, List.append_assoc]
    rfl
  · rw [State.items_put, State.items_leave, List.append_assoc, List.singleton_append, ← items]
    exact hs.items
  · simp only [List.length_append, List.length_singleton, State.leave]
    omega

theorem step (hs : Serving s v p bs stirs as front handed made) {act : Act α}
    (step : Step v act w) (silent : act.call? = none) :
    ∃ as front handed made,
      Serving s w p bs (stirs + act.isStir.toNat) as front handed made := by
  cases step with
  | enter | pass | batch => cases silent
  | commit i chosen got stage some =>
      obtain ⟨rfl, brings⟩ := hs.toLineup.of_busy stage rfl rfl
      obtain ⟨rest, source, rfl⟩ := brings.of_collecting
      cases rest <;> cases source
      rw [List.append_nil] at hs
      exact ⟨got, front, handed, made, hs.produce (.entering got some)⟩
  | commitNone i chosen stage =>
      obtain ⟨rfl, brings⟩ := hs.toLineup.of_busy stage rfl rfl
      obtain ⟨rest, source, same⟩ := brings.of_collecting
      cases rest <;> cases source
      obtain rfl : as = [] := same
      exact ⟨[], front, handed, made, hs.produce (.idle _)⟩
  | yield i chosen got a more stage =>
      obtain ⟨rfl, brings⟩ := hs.toLineup.of_busy stage rfl rfl
      obtain ⟨rest, source, rfl⟩ := brings.of_collecting
      cases rest with
      | nil => cases source
      | cons b rest =>
          cases source
          rw [← List.singleton_append, ← List.append_assoc] at hs
          exact ⟨_, front, handed, made, hs.produce (.collecting _ _)⟩
  | unwind i chosen got stage | enterBack i chosen got r more sec stage
  | passBack i chosen got r more q stage =>
      obtain ⟨-, brings⟩ := hs.toLineup.of_busy stage rfl rfl
      obtain ⟨rest, source, -⟩ := brings.of_collecting
      cases rest <;> cases source
  | append i chosen new into stage =>
      obtain ⟨rfl, brings⟩ := hs.toLineup.of_busy stage rfl rfl
      cases brings
      exact ⟨_, _, _, _, hs.append stage chosen⟩
  | meet i chosen sec into q ys es stage quiet meets =>
      cases sec with
      | take deadline =>
          obtain ⟨rfl, rfl⟩ := hs.toLineup.of_taking stage
          generalize items : v.items = xs at meets
          cases meets with
          | take deadline a xs => exact ⟨_, _, _, _, hs.take stage items⟩
      | append new => exact absurd rfl (quiet new)
      | takeLast | tryTake | drain | length =>
          obtain ⟨-, brings⟩ := hs.toLineup.of_busy stage rfl rfl
          cases brings
  | sleep i chosen deadline into stage items =>
      obtain ⟨rfl, rfl⟩ := hs.toLineup.of_taking stage
      exact ⟨_, _, _, _, hs.sleep stage items⟩
  | stir i deadline into stage =>
      obtain ⟨rfl, rfl⟩ := hs.toLineup.of_sleeping stage
      exact ⟨_, _, _, _, hs.stir stage⟩
  | expire i deadline into stage =>
      cases (hs.toLineup.of_sleeping stage).1
  | elapse time =>
      exact ⟨as, front, handed, made, ⟨hs.producer, hs.others⟩, hs.removed, hs.items, hs.pushed,
        hs.wakes, hs.bound, hs.waiters, hs.lower, hs.upper⟩

theorem run (hs : Serving s v p bs stirs as front handed made) {acts : List (Act α)}
    (run : v.run? acts = some w) {cs : List (Call α)} {more : List (List α)}
    (calls : acts.filterMap Act.call? = cs.map (p, ·)) (puts : List.Forall₂ Call.Puts cs more) :
    ∃ as front handed made,
      Serving s w p (bs ++ more) (stirs + acts.countP Act.isStir) as front handed made := by
  induction acts generalizing v cs bs more stirs as front handed made with
  | nil =>
      cases run
      cases puts with
      | nil => exact ⟨as, front, handed, made, by simpa using hs⟩
      | cons => cases calls
  | cons act acts ih =>
      obtain ⟨u, hu, rest⟩ := Option.bind_eq_some_iff.mp run
      have step := step_of_next hu
      rw [List.countP_cons, Nat.add_comm (acts.countP _), ← Nat.add_assoc]
      cases silent : act.call? with
      | none =>
          obtain ⟨as, front, handed, made, hs⟩ := hs.step step silent
          rw [List.filterMap_cons_none silent] at calls
          have stirred : act.isStir.toNat = if act.isStir = true then 1 else 0 := by
            cases act.isStir <;> rfl
          exact ih (stirred ▸ hs) rest calls puts
      | some call =>
          obtain ⟨i, c⟩ := call
          have act_eq : act = .call i c := by cases act <;> cases silent; rfl
          subst act_eq
          rw [List.filterMap_cons_some silent] at calls
          cases puts with
          | nil => cases calls
          | @cons c' b cs more puts puts' =>
              simp only [List.map_cons, List.cons.injEq, Prod.mk.injEq] at calls
              obtain ⟨⟨rfl, rfl⟩, calls⟩ := calls
              obtain ⟨as, front, handed, made, hs⟩ := ih (hs.call puts step) rest calls puts'
              exact ⟨as, front, handed, made, by simpa [Act.isStir] using hs⟩

theorem poised (hs : Serving s v p bs stirs as front handed made) (rest : v.IsAtRest) :
    as = [] ∧ v.Poised p := by
  obtain ⟨t, hp, brings⟩ := hs.producer
  have idle : as = [] ∧ ∃ last, t = .idle last := by
    rcases rest.stage hp with idle | ⟨deadline, into, rfl⟩
    · cases brings <;> first | exact ⟨rfl, _, rfl⟩ | cases idle
    · cases brings
  obtain ⟨rfl, last, rfl⟩ := idle
  refine ⟨rfl, ⟨last, hp⟩, fun j t hj ht => ?_⟩
  rcases rest.stage ht with idle | ⟨deadline, into, rfl⟩
  · exact .inl idle
  · obtain ⟨rfl, rfl⟩ := hs.toLineup.of_sleeping ht
    exact .inr rfl

theorem upshot (hs : Serving s v p bs stirs as front handed made) (rest : v.IsAtRest) :
    handed ++ v.items = s.items ++ bs.flatten ∧
      handed.length + v.sleepers.length = s.sleepers.length ∧
      min s.sleepers.length (wakeUps bs) ≤ handed.length ∧
      handed.length ≤ wakeUps bs + stirs := by
  obtain ⟨rfl, poised⟩ := hs.poised rest
  have waiters := hs.waiters
  have lower := hs.lower
  have upper := hs.upper
  have pushed := hs.pushed
  obtain rfl : made = wakeUps bs := hs.wakes
  rw [List.append_nil] at pushed
  rw [poised.countP_isWaiting] at waiters
  rw [← State.length_sleepers] at lower upper
  exact ⟨pushed ▸ hs.items, waiters, by omega, by omega⟩

end Serving

theorem State.run?_append (s : State α) (acts more : List (Act α)) :
    s.run? (acts ++ more) = (s.run? acts).bind (fun v => v.run? more) := by
  induction acts generalizing s with
  | nil => rfl
  | cons act acts ih =>
      simp only [List.cons_append, run?, Option.bind_assoc]
      exact congrArg _ (funext fun v => ih v)

/-- The acts lead from one state to another. There are no calls among them but these, and nobody
wakes up without cause. -/
structure Leads (s : State α) (acts : List (Act α)) (calls : List (Nat × Call α)) (u : State α) :
    Prop where
  run : s.run? acts = some u
  calls : acts.filterMap Act.call? = calls
  quiet : ∀ act ∈ acts, act.isStir = false

namespace Leads

variable {s v u : State α} {acts more : List (Act α)} {cs ds : List (Nat × Call α)}

theorem refl (s : State α) : Leads s [] [] s := ⟨rfl, rfl, nofun⟩

theorem step {i chosen : Nat} (hv : s.next? (.step i chosen) = some v) (hu : Leads v acts cs u) :
    Leads s (.step i chosen :: acts) cs u := by
  refine ⟨by rw [State.run?, hv]; exact hu.run, by rw [← hu.calls]; rfl, fun act ha => ?_⟩
  rcases List.mem_cons.mp ha with rfl | ha
  · rfl
  · exact hu.quiet act ha

theorem call {i : Nat} {c : Call α} (hv : s.next? (.call i c) = some v) (hu : Leads v acts cs u) :
    Leads s (.call i c :: acts) ((i, c) :: cs) u := by
  refine ⟨by rw [State.run?, hv]; exact hu.run, by rw [← hu.calls]; rfl, fun act ha => ?_⟩
  rcases List.mem_cons.mp ha with rfl | ha
  · rfl
  · exact hu.quiet act ha

theorem trans (hv : Leads s acts cs v) (hu : Leads v more ds u) :
    Leads s (acts ++ more) (cs ++ ds) u := by
  refine ⟨?_, by rw [List.filterMap_append, hv.calls, hu.calls], fun act ha => ?_⟩
  · rw [State.run?_append, hv.run]; exact hu.run
  · exact (List.mem_append.mp ha).elim (hv.quiet act) (hu.quiet act)

end Leads

namespace State

variable {s v : State α} {p : Nat}

theorem Still.put (still : v.Still p) {j : Nat} {t : Stage α}
    (ht : j ≠ p → t.isIdle = true ∨ t = .sleeping none none) : (v.put j t).Still p := by
  intro i t' hi ht'
  by_cases same : j = i
  · subst same
    obtain rfl | ⟨other, -⟩ := stage_of_put ht'
    · exact ht hi
    · exact absurd rfl other
  · rw [threads_put_ne same] at ht'
    exact still i t' hi ht'

theorem settles_entering {as : List α} (still : v.Still p)
    (hp : v.threads[p]? = some (.entering (.append as) none)) (some : as ≠ []) :
    ∃ acts u, Leads v acts [] u ∧ u.Poised p := by
  obtain ⟨x, hx⟩ : ∃ x, x = v.leave (v.items ++ as) [.appended p as] := ⟨_, rfl⟩
  have threads : x.threads = v.threads := hx ▸ rfl
  have next : v.next? (.step p 0) = Option.some ((x.wake 0).put p (.idle (Option.some .done))) := by
    simp only [next?, hp, enter, hx]
    rfl
  have still' : x.Still p := fun j t hj ht => still j t hj (threads ▸ ht)
  have hp' : x.threads[p]? = Option.some (.entering (.append as) none) := threads ▸ hp
  obtain ⟨-, hw⟩ | ⟨j, deadline, into, hj, hw⟩ := x.wake_cases 0
  · rw [hw] at next
    exact ⟨_, _, .step next (.refl _),
      ⟨⟨_, threads_put_self hp' _⟩, still'.put fun ne => absurd rfl ne⟩⟩
  · have other : j ≠ p := by
      rintro rfl
      cases hj.symm.trans hp'
    obtain ⟨rfl, rfl⟩ : deadline = none ∧ into = none := by
      rcases still' j _ other hj with idle | parked
      · cases idle
      · cases parked; exact ⟨rfl, rfl⟩
    rw [hw] at next
    obtain ⟨w, hw⟩ : ∃ w, w = (x.put j (.entering (.take none) none)).put p
        (.idle (Option.some .done)) := ⟨_, rfl⟩
    rw [← hw] at next
    have woken : w.threads[j]? = Option.some (.entering (.take none) none) := by
      rw [hw, threads_put_ne other.symm, threads_put_self hj]
    have filled : w.items = v.items ++ as := by rw [hw, items_put, items_put, hx, items_leave]
    obtain ⟨a, xs, items⟩ : ∃ a xs, w.items = a :: xs :=
      List.exists_cons_of_ne_nil (by simp [filled, some])
    have taken : w.next? (.step j 0) =
        Option.some ((w.leave xs [.removed j [a]]).put j (.idle (Option.some (.item a)))) := by
      simp only [next?, woken, enter, items]
      rfl
    refine ⟨_, _, .step next (.step taken (.refl _)), ⟨⟨.some .done, ?_⟩, ?_⟩⟩
    · rw [threads_put_ne other, leave, hw]
      exact threads_put_self ((threads_put_ne other _).trans hp') _
    · intro i t hi ht
      by_cases same : j = i
      · subst same
        rw [threads_put_self (s := w.leave xs [.removed j [a]]) woken] at ht
        cases ht
        exact .inl rfl
      · rw [threads_put_ne same, leave, hw, threads_put_ne hi.symm, threads_put_ne same] at ht
        exact still' i t hi ht

theorem settles_collecting {got as : List α} (still : v.Still p)
    (hp : v.threads[p]? = some (.collecting got (.ofList as))) :
    ∃ acts u, Leads v acts [] u ∧ u.Poised p := by
  induction as generalizing v got with
  | nil =>
      cases got with
      | nil =>
          have next : v.next? (.step p 0) = some (v.put p (.idle (some .done))) := by
            simp only [next?, hp]
            rfl
          exact ⟨_, _, .step next (.refl _),
            ⟨⟨_, threads_put_self hp _⟩, still.put fun ne => absurd rfl ne⟩⟩
      | cons a got =>
          have next : v.next? (.step p 0) =
              some (v.put p (.entering (.append (a :: got)) none)) := by
            simp only [next?, hp]
            rfl
          obtain ⟨acts, u, leads, poised⟩ := settles_entering
            (still.put fun ne => absurd rfl ne) (threads_put_self hp _) (List.cons_ne_nil a got)
          exact ⟨_, u, .step next leads, poised⟩
  | cons a as ih =>
      have next : v.next? (.step p 0) = some (v.put p (.collecting (got ++ [a]) (.ofList as))) := by
        simp only [next?, hp]
        rfl
      obtain ⟨acts, u, leads, poised⟩ :=
        ih (still.put fun ne => absurd rfl ne) (threads_put_self hp _)
      exact ⟨_, u, .step next leads, poised⟩

theorem Poised.settles_call (hs : s.Poised p) {c : Call α} {b : List α} (puts : c.Puts b) :
    ∃ acts u, Leads s acts [(p, c)] u ∧ u.Poised p := by
  obtain ⟨last, hp⟩ := hs.producer
  cases puts with
  | push a =>
      have next : s.next? (.call p (.plain (.push a))) =
          some (s.put p (.entering (.append [a]) none)) := by
        simp only [next?, hp, ask]
      obtain ⟨acts, u, leads, poised⟩ := settles_entering
        (hs.others.put fun ne => absurd rfl ne) (threads_put_self hp _) (List.cons_ne_nil a [])
      exact ⟨_, u, .call next leads, poised⟩
  | batch b =>
      have next : s.next? (.call p (.batch (.ofList b))) =
          some (s.put p (.collecting [] (.ofList b))) := by
        simp only [next?, hp]
      obtain ⟨acts, u, leads, poised⟩ := settles_collecting
        (hs.others.put fun ne => absurd rfl ne) (threads_put_self hp _)
      exact ⟨_, u, .call next leads, poised⟩

theorem Poised.settles (hs : s.Poised p) {cs : List (Call α)} {bs : List (List α)}
    (puts : List.Forall₂ Call.Puts cs bs) :
    ∃ acts u, Leads s acts (cs.map (p, ·)) u ∧ u.Poised p := by
  induction puts generalizing s with
  | nil => exact ⟨[], s, .refl s, hs⟩
  | cons puts _ ih =>
      obtain ⟨acts, v, leads, poised⟩ := hs.settles_call puts
      obtain ⟨more, u, leads', poised'⟩ := ih poised
      exact ⟨_, u, leads.trans leads', poised'⟩

theorem Poised.stirs (hs : s.Poised p) (asleep : 0 < s.sleepers.length) {a : α} {xs : List α}
    (items : s.items = a :: xs) :
    ∃ acts u, s.run? acts = some u ∧ acts.filterMap Act.call? = [] ∧ u.Poised p ∧
      u.removed = s.removed ++ [a] ∧ u.items = xs ∧ u.sleepers.length + 1 = s.sleepers.length := by
  obtain ⟨j, hj⟩ := List.exists_mem_of_length_pos asleep
  obtain ⟨deadline, into, hj⟩ := mem_sleepers.mp hj
  obtain ⟨rfl, rfl⟩ := hs.lineup.of_sleeping hj
  obtain ⟨last, hp⟩ := hs.producer
  have other : j ≠ p := hs.lineup.of_waiting hj rfl
  have stirred := (Serving.of_poised hs).stir hj
  have there := threads_put_self hj (.entering (.take none) none)
  have taken := stirred.take there items
  have poised : (((s.put j (.entering (.take none) none)).leave xs [.removed j [a]]).put j
      (.idle (some (.item a)))).Poised p := by
    have same : ((s.put j (.entering (.take none) none)).leave xs [.removed j [a]]).put j
        (.idle (some (.item a))) =
          (s.leave xs [.removed j [a]]).put j (.idle (some (.item a))) := by
      simp [put, leave]
    rw [same]
    have still : (s.leave xs [.removed j [a]]).Still p := hs.others
    exact ⟨⟨last, (threads_put_ne other _).trans hp⟩, still.put fun _ => .inl rfl⟩
  obtain ⟨-, waiters, -, -⟩ := taken.upshot poised.isAtRest
  refine ⟨[.stir j, .step j 0], _, ?_, rfl, poised, taken.removed, rfl, ?_⟩
  · simp only [run?, next?, hj, Option.bind_some, there, enter, items_put, items]
    rfl
  · rw [← waiters, List.nil_append, List.length_singleton, Nat.add_comm]

end State

theorem Upshot.eq_of_length {x y : Upshot α} (contents : x.handed ++ x.left = y.handed ++ y.left)
    (length : x.handed.length = y.handed.length) (parked : x.parked = y.parked) : x = y := by
  obtain ⟨handed, left⟩ := List.append_inj contents length
  cases x
  cases y
  cases handed
  cases left
  cases parked
  rfl

section allows

variable {s : State α} {p : Nat} {cs : List (Call α)} {bs : List (List α)} {stirs : Bool}
  {x : Upshot α}

theorem State.Allows.sound (hs : s.Poised p) (puts : List.Forall₂ Call.Puts cs bs)
    (allowed : s.Allows p cs stirs x) : x.handed ++ x.left = s.items ++ bs.flatten ∧
      x.handed.length + x.parked = s.sleepers.length ∧
      min s.sleepers.length (wakeUps bs) ≤ x.handed.length ∧
      (stirs = false → x.handed.length ≤ wakeUps bs) := by
  obtain ⟨acts, u, run, calls, quiet, rest, removed, items, parked⟩ := allowed
  obtain ⟨as, front, handed, made, serving⟩ := (Serving.of_poised hs).run run calls puts
  obtain ⟨contents, waiters, lower, upper⟩ := serving.upshot rest
  obtain rfl : x.handed = handed :=
    List.append_cancel_left (removed.symm.trans serving.removed)
  rw [items] at contents
  rw [parked] at waiters
  refine ⟨contents, waiters, lower, fun none => ?_⟩
  rw [List.countP_eq_zero.mpr fun act ha => by simp [quiet none act ha]] at upper
  exact upper

theorem State.Allows.more (hs : s.Poised p) (puts : List.Forall₂ Call.Puts cs bs)
    (allowed : s.Allows p cs true x) (asleep : 0 < x.parked) {a : α} {xs : List α}
    (left : x.left = a :: xs) : s.Allows p cs true ⟨x.handed ++ [a], xs, x.parked - 1⟩ := by
  obtain ⟨acts, u, run, calls, -, rest, removed, items, parked⟩ := allowed
  obtain ⟨as, front, handed, made, serving⟩ := (Serving.of_poised hs).run run calls puts
  obtain ⟨more, w, run', calls', poised, removed', items', parked'⟩ :=
    (serving.poised rest).2.stirs (parked ▸ asleep) (items.trans left)
  refine ⟨acts ++ more, w, ?_, ?_, nofun, poised.isAtRest, ?_, items', ?_⟩
  · rw [run?_append, run]
    exact run'
  · rw [List.filterMap_append, calls, calls', List.append_nil]
  · rw [removed', removed, List.append_assoc]
  · exact Nat.eq_sub_of_add_eq (parked'.trans parked)

/-- What pushing the batches can come to: everything is handed out or left, in order, whoever is
handed nothing is still asleep, and each batch has woken a sleeper. -/
theorem allows_iff (hs : s.Poised p) (puts : List.Forall₂ Call.Puts cs bs) (stirs : Bool)
    (x : Upshot α) :
    s.Allows p cs stirs x ↔ x.handed ++ x.left = s.items ++ bs.flatten ∧
      x.handed.length + x.parked = s.sleepers.length ∧
      min s.sleepers.length (wakeUps bs) ≤ x.handed.length ∧
      (stirs = false → x.handed.length ≤ wakeUps bs) := by
  refine ⟨State.Allows.sound hs puts, fun ⟨contents, waiters, lower, upper⟩ => ?_⟩
  suffices reached : ∃ y, s.Allows p cs stirs y ∧ y.handed.length = x.handed.length by
    obtain ⟨y, allowed, length⟩ := reached
    obtain ⟨contents', waiters', -⟩ := allowed.sound hs puts
    rwa [Upshot.eq_of_length (contents.trans contents'.symm) length.symm (by omega)]
  obtain ⟨acts, u, leads, poised⟩ := hs.settles puts
  obtain ⟨as, front, handed, made, serving⟩ := (Serving.of_poised hs).run leads.run leads.calls puts
  have first (stirs : Bool) : s.Allows p cs stirs ⟨handed, u.items, u.sleepers.length⟩ :=
    ⟨acts, u, leads.run, leads.calls, fun _ => leads.quiet, poised.isAtRest, serving.removed, rfl,
      rfl⟩
  obtain ⟨-, waiters', lower', upper'⟩ := (first false).sound hs puts
  have most := upper' rfl
  simp only at waiters' lower' most
  cases stirs with
  | false =>
      have most' := upper rfl
      exact ⟨_, first false, by simp only; omega⟩
  | true =>
      obtain ⟨n, hn⟩ : ∃ n, handed.length + n = x.handed.length :=
        ⟨x.handed.length - handed.length, by omega⟩
      have later (k : Nat) (hk : k ≤ n) :
          ∃ y, s.Allows p cs true y ∧ y.handed.length = handed.length + k := by
        induction k with
        | zero => exact ⟨_, first true, rfl⟩
        | succ k ih =>
            obtain ⟨y, allowed, length⟩ := ih (Nat.le_of_succ_le hk)
            obtain ⟨contents', waiters', -⟩ := allowed.sound hs puts
            have total := congrArg List.length (contents.trans contents'.symm)
            simp only [List.length_append] at total
            obtain ⟨a, xs, left⟩ := List.exists_cons_of_length_pos (l := y.left) (by omega)
            exact ⟨_, allowed.more hs puts (by omega) left, by simp [length, Nat.add_assoc]⟩
      obtain ⟨y, allowed, length⟩ := later n (Nat.le_refl n)
      exact ⟨y, allowed, length.trans hn⟩

end allows

/-- The items pushed one by one. -/
def pushEach (xs : List α) : List (Call α) := xs.map (fun a => .plain (.push a))

theorem puts_pushEach (xs : List α) :
    List.Forall₂ Call.Puts (pushEach xs) (xs.map ([·])) := by
  induction xs with
  | nil => exact .nil
  | cons a xs ih => exact .cons (.push a) ih

theorem wakeUps_singletons (xs : List α) : wakeUps (xs.map ([·])) = xs.length := by
  induction xs with
  | nil => rfl
  | cons a xs ih => rw [List.map_cons, wakeUps, List.countP_cons, ← wakeUps, ih]; rfl

theorem wakeUps_batch (xs : List α) : wakeUps [xs] = min 1 xs.length := by
  cases xs with
  | nil => rfl
  | cons a xs => simp [wakeUps]

/-- A batch is pushed while any number of threads are parked in `pop`. The contents come out as if
its items had been pushed one by one. It wakes one thread only, where the single pushes wake one for
each item, so that both come to the same as long as there is a single item or a single thread. -/
theorem batch_against_pushes {s : State α} {p : Nat} (hs : s.Poised p) (xs : List α)
    (stirs : Bool) :
    (∃ x, s.Allows p [.batch (.ofList xs)] stirs x) ∧
      (∀ x, s.Allows p [.batch (.ofList xs)] stirs x ↔
        x.handed ++ x.left = s.items ++ xs ∧ x.handed.length + x.parked = s.sleepers.length ∧
          min s.sleepers.length (min 1 xs.length) ≤ x.handed.length ∧
          (stirs = false → x.handed.length ≤ min 1 xs.length)) ∧
      (∀ x, s.Allows p (pushEach xs) stirs x ↔
        x.handed ++ x.left = s.items ++ xs ∧ x.handed.length + x.parked = s.sleepers.length ∧
          min s.sleepers.length xs.length ≤ x.handed.length ∧
          (stirs = false → x.handed.length ≤ xs.length)) ∧
      (s.sleepers.length ≤ 1 ∨ xs.length ≤ 1 → ∀ x,
        s.Allows p [.batch (.ofList xs)] stirs x ↔ s.Allows p (pushEach xs) stirs x) ∧
      (1 < s.sleepers.length → 1 < xs.length → ∃ x,
        s.Allows p [.batch (.ofList xs)] stirs x ∧ ¬s.Allows p (pushEach xs) stirs x) ∧
      (s.sleepers.length ≤ 1 → s.items = [] ∨ xs ≠ [] → ∀ x,
        s.Allows p [.batch (.ofList xs)] stirs x → x.left ≠ [] → x.parked = 0) := by
  have batch (x : Upshot α) := allows_iff hs
    (.cons (.batch xs) .nil : List.Forall₂ Call.Puts [.batch (.ofList xs)] [xs]) stirs x
  have each (x : Upshot α) := allows_iff hs (puts_pushEach xs) stirs x
  have flatten : (xs.map ([·])).flatten = xs := by rw [← List.flatMap_def, List.flatMap_singleton']
  simp only [wakeUps_batch, wakeUps_singletons, List.flatten_singleton, flatten] at batch each
  -- The batch wakes one thread, if there is one to wake and something to push.
  obtain ⟨first, allowed, one⟩ : ∃ x, s.Allows p [.batch (.ofList xs)] stirs x ∧
      x.handed.length = min s.sleepers.length (min 1 xs.length) := by
    obtain ⟨n, hn⟩ : ∃ n, n = min s.sleepers.length (min 1 xs.length) := ⟨_, rfl⟩
    have length : ((s.items ++ xs).take n).length = n :=
      List.length_take_of_le (by rw [List.length_append]; omega)
    refine ⟨⟨(s.items ++ xs).take n, (s.items ++ xs).drop n, s.sleepers.length - n⟩,
      (batch _).mpr ⟨List.take_append_drop .., ?_, ?_, fun _ => ?_⟩, length.trans hn⟩ <;>
      simp only [length] <;> omega
  refine ⟨⟨first, allowed⟩, batch, each, fun few x => ?_, fun many more => ?_, ?_⟩
  · rw [batch, each]
    refine and_congr_right fun contents => and_congr_right fun waiters => ?_
    have least : min s.sleepers.length (min 1 xs.length) = min s.sleepers.length xs.length := by
      omega
    rw [least]
    refine and_congr_right fun lower => imp_congr_right fun _ => ?_
    omega
  · refine ⟨first, allowed, fun both => ?_⟩
    have least := ((each first).mp both).2.2.1
    omega
  · rintro few filled x allowed left
    obtain ⟨contents, waiters, least, -⟩ := (batch x).mp allowed
    by_cases none : xs = []
    · subst none
      rw [filled.resolve_right (not_not.mpr rfl)] at contents
      exact absurd (List.append_eq_nil_iff.mp contents).2 left
    · have := List.length_pos_iff.mpr none
      omega

def parked (n : Nat) : State Nat :=
  { threads := .idle none :: List.replicate n (.sleeping none none), horizon := 10 }

theorem poised_parked (n : Nat) : (parked n).Poised 0 := by
  refine ⟨⟨none, rfl⟩, fun j t hj ht => ?_⟩
  cases j with
  | zero => exact absurd rfl hj
  | succ j => exact .inr (List.eq_of_mem_replicate (List.mem_of_getElem? ht))

/-- A single thread has the first item of a batch, one by one or not. -/
theorem batch_parkedOne : (parked 1).Poised 0 ∧
    (parked 1).Allows 0 [.batch (.ofList [1, 2])] false ⟨[1], [2], 0⟩ ∧
    (parked 1).Allows 0 (pushEach [1, 2]) false ⟨[1], [2], 0⟩ := by
  obtain ⟨-, batch, -, same, -⟩ := batch_against_pushes (poised_parked 1) [1, 2] false
  have allowed := (batch ⟨[1], [2], 0⟩).mpr (by decide)
  exact ⟨poised_parked 1, allowed, (same (.inl (by decide)) _).mp allowed⟩

/-- Of two threads one stays asleep behind a batch of two items, with an item left. -/
theorem batch_parkedTwo :
    (State.fresh 3 10).run? [.call 1 (.plain .pop), .step 1 0, .call 2 (.plain .pop), .step 2 0] =
        some (parked 2) ∧ (parked 2).Poised 0 ∧
      (parked 2).Allows 0 [.batch (.ofList [1, 2])] false ⟨[1], [2], 1⟩ ∧
      ∀ stirs, ¬(parked 2).Allows 0 (pushEach [1, 2]) stirs ⟨[1], [2], 1⟩ := by
  have hs := poised_parked 2
  refine ⟨rfl, hs, ?_, fun stirs allowed => ?_⟩
  · exact (allows_iff hs (.cons (.batch [1, 2]) .nil) _ _).mpr (by decide)
  · obtain ⟨-, -, least, -⟩ := allowed.sound hs (puts_pushEach [1, 2])
    exact absurd least (by decide)

end QueueWorker.Queue
