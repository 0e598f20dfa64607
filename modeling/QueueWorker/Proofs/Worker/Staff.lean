import Mathlib.Data.List.Count
import QueueWorker.Worker.Step

namespace QueueWorker.Worker

variable {α ρ : Type}

/-- How far a thread has come: it takes items, it has met a stop marker, or it has ended, either
behind a marker or unwound. -/
inductive Grade
  | working
  | halted
  | exited
  | dead
  deriving DecidableEq, Repr

namespace Grade

def hasEnded : Grade → Bool
  | exited | dead => true
  | working | halted => false

def metStop : Grade → Bool
  | halted | exited => true
  | working | dead => false

end Grade

def Stage.grade : Stage α ρ → Grade
  | .exiting => .halted
  | .exited => .exited
  | .dead _ => .dead
  | _ => .working

theorem Stage.hasEnded_grade (st : Stage α ρ) : st.grade.hasEnded = st.end?.isSome := by
  cases st <;> rfl

def markers (queue : List (Message α)) : Nat := queue.countP Message.isStop

def halts (grades : List Grade) : Nat := grades.countP Grade.metStop

@[simp] theorem markers_nil : markers ([] : List (Message α)) = 0 := rfl

@[simp] theorem markers_item (a : α) (ms : List (Message α)) :
    markers (.item a :: ms) = markers ms := by
  simp [markers, Message.isStop]

@[simp] theorem markers_stop (ms : List (Message α)) : markers (.stop :: ms) = markers ms + 1 := by
  simp [markers, List.countP_cons, Message.isStop]

@[simp] theorem markers_append (ms ns : List (Message α)) :
    markers (ms ++ ns) = markers ms + markers ns := by
  simp [markers]

@[simp] theorem markers_items (as : List α) : markers (as.map Message.item) = 0 := by
  induction as with
  | nil => rfl
  | cons a as ih => simpa using ih

/-- The threads and the queue of a worker. Only the ward may be alive. Each thread leaves one
marker behind, unless it is the ward and nobody has asked it to stop yet, and takes one before it
exits. An item has fewer markers before it, those taken included, than there are threads. -/
structure Staffed (grades : List Grade) (queue : List (Message α)) (ward : Option Nat)
    (marked : Bool) : Prop where
  alive : ∀ t g, grades[t]? = some g → g.hasEnded = false → ward = some t
  present : ∀ t, ward = some t → t < grades.length
  count : markers queue + halts grades + (if marked then 0 else 1) = grades.length
  rank : ∀ before a behind, queue = before ++ .item a :: behind →
    markers before + halts grades < grades.length

theorem halts_set {grades : List Grade} {t : Nat} {g : Grade} (ht : grades[t]? = some g)
    (g' : Grade) :
    halts (grades.set t g') + (if g.metStop then 1 else 0) =
      halts grades + (if g'.metStop then 1 else 0) := by
  obtain ⟨hlt, hg⟩ := List.getElem?_eq_some_iff.mp ht
  have hpos : g.metStop = true → 0 < grades.countP Grade.metStop := fun hm =>
    List.countP_pos_iff.mpr ⟨g, hg ▸ List.getElem_mem hlt, hm⟩
  simp only [halts, List.countP_set hlt, hg]
  cases hm : g.metStop with
  | false => simp
  | true => have := hpos hm; simp; omega

theorem alive_set {grades : List Grade} {ward : Option Nat} {t : Nat} {g g' : Grade}
    (ht : grades[t]? = some g) (he : g.hasEnded = false ∨ g'.hasEnded = true)
    (h : ∀ u g, grades[u]? = some g → g.hasEnded = false → ward = some u) :
    ∀ u k, (grades.set t g')[u]? = some k → k.hasEnded = false → ward = some u := by
  intro u k hu hk
  by_cases htu : t = u
  · subst u
    have hlt := (List.getElem?_eq_some_iff.mp ht).1
    rw [List.getElem?_set_self hlt] at hu
    cases hu
    rcases he with he | he
    · exact h t g ht he
    · rw [he] at hk; cases hk
  · rw [List.getElem?_set_ne htu] at hu
    exact h u k hu hk

theorem length_eq_halts (grades : List Grade) :
    grades.length = halts grades + grades.count .working + grades.count .dead := by
  induction grades with
  | nil => rfl
  | cons g grades ih =>
      cases g <;> simp [halts, List.countP_cons, Grade.metStop] at ih ⊢ <;> omega

theorem count_le_one {l : List Grade} {g : Grade}
    (h : ∀ t u : Nat, l[t]? = some g → l[u]? = some g → t = u) : l.count g ≤ 1 := by
  induction l with
  | nil => simp
  | cons k l ih =>
      by_cases hk : k = g
      · subst k
        have hl : l.count g = 0 := by
          apply List.count_eq_zero.mpr
          intro hm
          obtain ⟨u, hu⟩ := List.mem_iff_getElem?.mp hm
          have := h 0 (u + 1) rfl (by simpa using hu)
          omega
        simp [hl]
      · have hl := ih fun t u ht hu => by
          have := h (t + 1) (u + 1) (by simpa using ht) (by simpa using hu)
          omega
        rwa [List.count_cons_of_ne hk]

namespace Staffed

variable {grades : List Grade} {queue : List (Message α)} {ward : Option Nat} {marked : Bool}

theorem initial : Staffed [] ([] : List (Message α)) none true :=
  ⟨by simp, by simp, rfl, by simp⟩

theorem regrade (h : Staffed grades queue ward marked) {t : Nat} {g g' : Grade}
    (ht : grades[t]? = some g) (he : g.hasEnded = false ∨ g'.hasEnded = true)
    (hm : g'.metStop = g.metStop) : Staffed (grades.set t g') queue ward marked := by
  have hh : halts (grades.set t g') = halts grades := by
    have := halts_set ht g'
    rw [hm] at this
    omega
  refine ⟨alive_set ht he h.alive, ?_, ?_, ?_⟩
  · simpa using h.present
  · simpa [hh] using h.count
  · simpa [hh] using h.rank

theorem fetch {a : α} (h : Staffed grades (.item a :: queue) ward marked) :
    Staffed grades queue ward marked := by
  refine ⟨h.alive, h.present, by simpa using h.count, ?_⟩
  intro before b behind hq
  simpa using h.rank (.item a :: before) b behind (by simp [hq])

theorem halt (h : Staffed grades (.stop :: queue) ward marked) {t : Nat}
    (ht : grades[t]? = some .working) : Staffed (grades.set t .halted) queue ward marked := by
  have hh : halts (grades.set t .halted) = halts grades + 1 := halts_set ht .halted
  refine ⟨alive_set ht (.inl rfl) h.alive, by simpa using h.present, ?_, ?_⟩
  · have := h.count
    simp only [markers_stop] at this
    simp only [hh, List.length_set]
    omega
  · intro before b behind hq
    have := h.rank (.stop :: before) b behind (by simp [hq])
    simp only [markers_stop] at this
    simp only [hh, List.length_set]
    omega

theorem supply (h : Staffed grades queue ward false) (as : List α) :
    Staffed grades (queue ++ as.map .item) ward false := by
  refine ⟨h.alive, h.present, by simpa using h.count, ?_⟩
  intro before a behind hq
  have hc := h.count
  have hle : markers before ≤ markers queue := by
    have := congrArg markers hq
    simp only [markers_append, markers_items, markers_item] at this
    omega
  simp only [Bool.false_eq_true, if_false] at hc
  omega

theorem mark (h : Staffed grades queue ward false) :
    Staffed grades (queue ++ [.stop]) ward true := by
  have hc := h.count
  simp only [Bool.false_eq_true, if_false] at hc
  refine ⟨h.alive, h.present, by simp; omega, ?_⟩
  intro before a behind hq
  rcases List.eq_nil_or_concat behind with rfl | ⟨rest, m, rfl⟩
  · have hl := congrArg List.getLast? hq
    simp at hl
  · have hq : queue ++ [.stop] = (before ++ .item a :: rest) ++ [m] := by simpa using hq
    exact h.rank before a rest (List.append_inj_left' hq rfl)

theorem spawn (h : Staffed grades queue none true) :
    Staffed (grades ++ [.working]) queue (some grades.length) false := by
  have hh : halts (grades ++ [Grade.working]) = halts grades := by simp [halts, Grade.metStop]
  have hc := h.count
  simp only [if_true] at hc
  refine ⟨?_, by simp, ?_, ?_⟩
  · intro t g ht he
    rcases Nat.lt_trichotomy t grades.length with hlt | rfl | hgt
    · rw [List.getElem?_append_left hlt] at ht
      exact absurd (h.alive t g ht he) (by simp)
    · rfl
    · rw [List.getElem?_eq_none (by simp; omega)] at ht
      cases ht
  · simp [hh]; omega
  · intro before a behind hq
    have := h.rank before a behind hq
    simp only [hh, List.length_append, List.length_singleton]
    omega

theorem dismiss {t : Nat} (h : Staffed grades queue (some t) marked) {g : Grade}
    (ht : grades[t]? = some g) (he : g.hasEnded = true) : Staffed grades queue none marked := by
  refine ⟨?_, by simp, h.count, h.rank⟩
  intro u k hu hk
  have htu : t = u := Option.some.inj (h.alive u k hu hk)
  subst u
  rw [ht] at hu
  cases hu
  rw [he] at hk
  cases hk

theorem working_eq (h : Staffed grades queue ward marked) {t : Nat}
    (ht : grades[t]? = some .working) : ward = some t := h.alive t .working ht rfl

theorem working_le (h : Staffed grades queue ward marked) : grades.count .working ≤ 1 := by
  apply count_le_one
  intro t u ht hu
  exact Option.some.inj ((h.working_eq ht).symm.trans (h.working_eq hu))

theorem balance (h : Staffed grades queue ward marked) :
    markers queue + (if marked then 0 else 1) = grades.count .working + grades.count .dead := by
  have hc := h.count
  have hl := length_eq_halts grades
  omega

theorem before_lt (h : Staffed grades queue ward marked) {before behind : List (Message α)} {a : α}
    (hq : queue = before ++ .item a :: behind) :
    markers before < grades.count .working + grades.count .dead := by
  have hr := h.rank before a behind hq
  have hl := length_eq_halts grades
  omega

end Staffed

end QueueWorker.Worker
