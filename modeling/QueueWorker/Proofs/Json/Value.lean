import QueueWorker.Proofs.Json.Numeral

namespace QueueWorker.Json

theorem readWord_append (w rest : List Char) : readWord w (w ++ rest) = .ok rest := by
  induction w with
  | nil => rfl
  | cons c w ih => rw [List.cons_append, readWord, if_pos rfl, ih]

theorem readColon_eq_ok_iff {cs rest : List Char} :
    readColon cs = .ok rest ↔ ∃ c, Token [':'] c ∧ cs = c ++ rest := by
  constructor
  · intro h
    unfold readColon at h
    split at h
    · contradiction
    next hb =>
    split at h
    · next hc =>
      cases h
      exact Token.of_skipBlank (hc ▸ hb)
    · contradiction
  · rintro ⟨c, hc, rfl⟩
    rw [readColon, hc.skipBlank rfl]
    rfl

theorem key_of_skipKey {b : Bracket} {cs rest : List Char} (h : skipKey b cs = .ok rest) :
    ∃ k, Key b k ∧ cs = k ++ rest := by
  cases b with
  | list =>
      cases h
      exact ⟨[], .list, rfl⟩
  | object =>
      simp only [skipKey] at h
      split at h
      · contradiction
      next hb =>
      split at h
      · next hq =>
        obtain ⟨o, ho, rfl⟩ := Token.of_skipBlank (hq ▸ hb)
        split at h
        · contradiction
        next ht =>
        obtain ⟨b, hl, rfl⟩ := skipText_eq_ok_iff.mp ht
        obtain ⟨c, hc, rfl⟩ := readColon_eq_ok_iff.mp h
        exact ⟨_, .object ho hl hc, by simp⟩
      · contradiction

theorem skipKey_skipBlank (cs : List Char) :
    skipKey .object (skipBlank cs) = skipKey .object cs := by
  rw [skipKey, skipBlank_skipBlank, skipKey]

theorem key_of_skipKey_skipBlank {b : Bracket} {cs rest : List Char}
    (h : skipKey b (skipBlank cs) = .ok rest) :
    ∃ k w, Key b k ∧ Blank w ∧ cs = k ++ w ++ rest := by
  cases b with
  | list =>
      cases h
      obtain ⟨w, hw, he⟩ := exists_blank cs
      exact ⟨[], w, .list, hw, he⟩
  | object =>
      have hs : skipKey .object cs = .ok rest := by
        rw [← h, skipKey_skipBlank]
      obtain ⟨k, hk, rfl⟩ := key_of_skipKey hs
      exact ⟨k, [], hk, blank_nil, by rw [List.append_nil]⟩

theorem skipKey_of_key {b : Bracket} {k : List Char} (h : Key b k) (rest : List Char) :
    skipKey b (k ++ rest) = .ok rest := by
  cases h with
  | list => rfl
  | object ho hb hc =>
      simp only [skipKey, List.append_assoc, ho.skipBlank rfl, List.nil_append, List.cons_append,
        if_true, skipText_of_loose hb]
      exact readColon_eq_ok_iff.mpr ⟨_, hc, rfl⟩

/-- What has to follow a value that stands inside brackets. -/
inductive Closes : List Bracket → List Char → Prop
  | nil : Closes [] []
  | cons {b : Bracket} {open' : List Bracket} {m t : List Char} (hm : Written (.more b) m)
      (ht : Closes open' t) : Closes (b :: open') (m ++ t)

inductive Ahead : List Bracket → List Char → Prop
  | done : Ahead [] []
  | value {b : Bracket} {open' : List Bracket} {v t : List Char} (hv : Written .value v)
      (ht : Closes (b :: open') t) : Ahead (b :: open') (v ++ t)

theorem Ahead.split {b : Bracket} {open' : List Bracket} {y : List Char}
    (h : Ahead (b :: open') y) : ∃ v m t, Written .value v ∧ Written (.more b) m ∧
      Closes open' t ∧ y = v ++ (m ++ t) := by
  cases h with
  | value hv ht =>
      cases ht with
      | cons hm ht => exact ⟨_, _, _, hv, hm, ht, rfl⟩

theorem closes_of_skipClosed {left left' : List Bracket} {cs rest : List Char}
    (h : skipClosed left cs = .ok (left', rest)) :
    ∃ x, cs = x ++ rest ∧ ∀ y, Ahead left' y → Closes left (x ++ y) := by
  -- Each bracket that closes here closes the innermost one, so the induction is on those left open.
  induction left generalizing cs with
  | nil =>
      cases h
      refine ⟨[], rfl, ?_⟩
      rintro _ ⟨⟩
      exact .nil
  | cons b left ih =>
      simp only [skipClosed] at h
      split at h
      · contradiction
      next hb =>
      split at h
      · next hc =>
        obtain ⟨c, hc, rfl⟩ := Token.of_skipBlank (hc ▸ hb)
        obtain ⟨_, hs, he⟩ := map_eq_ok h
        cases he
        obtain ⟨k, hk, rfl⟩ := key_of_skipKey hs
        refine ⟨c ++ k, by simp, ?_⟩
        intro y hy
        obtain ⟨v, m, t, hv, hm, ht, rfl⟩ := hy.split
        simpa using Closes.cons (.next hc hk hv hm) ht
      · split at h
        · next hc =>
          obtain ⟨c, hc, rfl⟩ := Token.of_skipBlank (hc ▸ hb)
          obtain ⟨x, rfl, hx⟩ := ih h
          refine ⟨c ++ x, by simp, fun y hy => ?_⟩
          simpa using Closes.cons (.close hc) (hx y hy)
        · contradiction

def Begins : Option Bracket → List Char → Prop
  | none, t => Written .value t
  | some b, t => Token [b.mark] t

theorem begins_of_skipStart {o : Option Bracket} {cs rest : List Char}
    (h : skipStart cs = .ok (o, rest)) : ∃ t, Begins o t ∧ cs = t ++ rest := by
  unfold skipStart at h
  split at h
  · contradiction
  next c mid hb =>
  obtain ⟨t, ht, rfl⟩ := Token.of_skipBlank hb
  have word {w : List Char} (h : (readWord w mid).map (none, ·) = .ok (o, rest)) :
      o = none ∧ Token (c :: w) (t ++ w) ∧ t ++ mid = t ++ w ++ rest := by
    obtain ⟨_, hw, he⟩ := map_eq_ok h
    cases he
    exact ⟨rfl, ht.append w, by rw [readWord_eq_ok hw, List.append_assoc]⟩
  repeat' split at h
  · next hc =>
    obtain ⟨rfl, ht, he⟩ := word h
    exact ⟨_, Written.null (hc ▸ ht), he⟩
  · next hc =>
    obtain ⟨rfl, ht, he⟩ := word h
    exact ⟨_, Written.yes (hc ▸ ht), he⟩
  · next hc =>
    obtain ⟨rfl, ht, he⟩ := word h
    exact ⟨_, Written.no (hc ▸ ht), he⟩
  · next hc =>
    obtain ⟨_, hs, he⟩ := map_eq_ok h
    cases he
    obtain ⟨b, hl, rfl⟩ := skipText_eq_ok_iff.mp hs
    exact ⟨_, Written.string (hc ▸ ht) hl, by simp⟩
  · next hc =>
    obtain ⟨_, hs, he⟩ := map_eq_ok h
    cases he
    obtain ⟨u, hu, rfl⟩ := unsigned_of_scanNumeral hs
    exact ⟨_, Written.number (.minus hu) (hc ▸ ht.append u), by rw [List.append_assoc]⟩
  · obtain ⟨_, hs, he⟩ := map_eq_ok h
    cases he
    obtain ⟨u, hu, hm⟩ := unsigned_of_scanNumeral hs
    obtain ⟨b, blank, rfl⟩ := ht
    refine ⟨b ++ u, Written.number (.plain hu) ⟨b, blank, rfl⟩, ?_⟩
    rw [List.append_assoc, List.append_assoc, ← hm, List.singleton_append]
  · next hc =>
    cases h
    exact ⟨_, (hc ▸ ht : Token ['['] t), rfl⟩
  · next hc =>
    cases h
    exact ⟨_, (hc ▸ ht : Token ['\x7b'] t), rfl⟩
  · contradiction

theorem written_of_skipOpened {b : Bracket} {left left' : List Bracket} {cs rest o : List Char}
    (ho : Token [b.mark] o) (h : skipOpened b left cs = .ok (left', rest)) :
    ∃ x, cs = x ++ rest ∧ ∀ y, Ahead left' y →
      ∃ v t, Written .value v ∧ Closes left t ∧ o ++ x ++ y = v ++ t := by
  unfold skipOpened at h
  split at h
  · contradiction
  next hb =>
  split at h
  · next hc =>
    obtain ⟨c, hc, rfl⟩ := Token.of_skipBlank (hc ▸ hb)
    obtain ⟨x, rfl, hx⟩ := closes_of_skipClosed h
    exact ⟨c ++ x, by simp, fun y hy => ⟨_, _, .empty ho hc, hx y hy, by simp⟩⟩
  · obtain ⟨_, hs, he⟩ := map_eq_ok h
    cases he
    rw [← hb] at hs
    obtain ⟨k, w, hk, hw, rfl⟩ := key_of_skipKey_skipBlank hs
    refine ⟨k ++ w, rfl, ?_⟩
    intro y hy
    obtain ⟨v, m, t, hv, hm, ht, rfl⟩ := hy.split
    exact ⟨_, _, .filled ho hk (hv.blank hw) hm, ht, by simp⟩

theorem written_of_skipPart {left left' : List Bracket} {cs rest : List Char}
    (h : skipPart left cs = .ok (left', rest)) :
    ∃ x, cs = x ++ rest ∧ ∀ y, Ahead left' y →
      ∃ v t, Written .value v ∧ Closes left t ∧ x ++ y = v ++ t := by
  unfold skipPart at h
  split at h
  · contradiction
  · next hs =>
    obtain ⟨v, hv, rfl⟩ := begins_of_skipStart hs
    obtain ⟨x, rfl, hx⟩ := closes_of_skipClosed h
    exact ⟨v ++ x, by simp, fun y hy => ⟨v, _, hv, hx y hy, by simp⟩⟩
  · next hs =>
    obtain ⟨o, ho, rfl⟩ := begins_of_skipStart hs
    obtain ⟨x, rfl, hx⟩ := written_of_skipOpened ho h
    exact ⟨o ++ x, by simp, hx⟩

theorem written_of_skipInside {left : List Bracket} {cs rest : List Char}
    (h : skipInside left cs = .ok rest) :
    ∃ v t, Written .value v ∧ Closes left t ∧ cs = v ++ t ++ rest := by
  fun_induction skipInside left cs with
  | case1 => contradiction
  | case2 left cs mid hp =>
      cases h
      obtain ⟨x, rfl, hx⟩ := written_of_skipPart hp
      obtain ⟨v, t, hv, ht, he⟩ := hx [] .done
      rw [List.append_nil] at he
      exact ⟨v, t, hv, ht, by rw [he]⟩
  | case3 left cs b left' mid hp ih =>
      obtain ⟨x, rfl, hx⟩ := written_of_skipPart hp
      obtain ⟨v', t', hv', ht', rfl⟩ := ih h
      obtain ⟨v, t, hv, ht, he⟩ := hx _ (.value hv' ht')
      exact ⟨v, t, hv, ht, by rw [← he]; simp⟩

theorem written_of_skipValue {cs rest : List Char} (h : skipValue cs = .ok rest) :
    ∃ v, Written .value v ∧ cs = v ++ rest := by
  obtain ⟨v, _, hv, ⟨⟩, rfl⟩ := written_of_skipInside h
  exact ⟨v, hv, by rw [List.append_nil]⟩

def resume : Reading (List Bracket) → Except Refusal (List Char)
  | .error e => .error e
  | .ok ([], rest) => .ok rest
  | .ok (b :: open', rest) => skipInside (b :: open') rest

theorem skipInside_eq (left : List Bracket) (cs : List Char) :
    skipInside left cs = resume (skipPart left cs) := by
  rw [skipInside]
  split <;> next h => rw [h]; rfl

theorem skipInside_of_start {left : List Bracket} {cs rest : List Char}
    (h : skipStart cs = .ok (none, rest)) :
    skipInside left cs = resume (skipClosed left rest) := by
  rw [skipInside_eq, skipPart, h]

theorem skipInside_congr {left : List Bracket} {cs cs' : List Char}
    (h : skipBlank cs = skipBlank cs') : skipInside left cs = skipInside left cs' := by
  have hs : skipStart cs = skipStart cs' := by rw [skipStart, h, skipStart]
  rw [skipInside_eq, skipInside_eq, skipPart, skipPart, hs]

theorem Token.clear {c : Char} {t : List Char} (ht : Token [c] t) (hc : Clear [c])
    (rest : List Char) : Clear (t ++ rest) := by
  obtain ⟨b, hb, rfl⟩ := ht
  cases b with
  | nil => exact hc
  | cons d b =>
      rintro _ ⟨⟩
      rcases hb d (List.mem_cons_self ..) with rfl | rfl | rfl | rfl <;> decide

theorem clear_close (b : Bracket) : Clear [b.close] := by
  cases b <;> rintro _ ⟨⟩ <;> decide

theorem Written.clear {b : Bracket} {m : List Char} (h : Written (.more b) m) (rest : List Char) :
    Clear (m ++ rest) := by
  cases h with
  | close hc => exact hc.clear (clear_close b) rest
  | next hc hk hv hm =>
      simp only [List.append_assoc]
      exact hc.clear (by rintro _ ⟨⟩; decide) _

theorem Unsigned.head {n : List Char} (h : Unsigned n) : ∃ d ds, n = d :: ds ∧ d.isDigit := by
  cases h with
  | mk hw =>
      cases hw with
      | zero => exact ⟨_, _, rfl, rfl⟩
      | digits hd => exact ⟨_, _, rfl, hd⟩

theorem Bracket.isBlank_mark (b : Bracket) : isBlank b.mark = false := by cases b <;> rfl

theorem Bracket.isBlank_close (b : Bracket) : isBlank b.close = false := by cases b <;> rfl

theorem Bracket.mark_ne_close (b b' : Bracket) : b.mark ≠ b'.close := by
  cases b <;> cases b' <;> decide

theorem Bracket.close_ne {c : Char} (b : Bracket) (hl : c ≠ ']') (ho : c ≠ '\x7d') :
    c ≠ b.close := by
  cases b with
  | list => exact hl
  | object => exact ho

theorem Written.head {v : List Char} (h : Written .value v) :
    ∃ c u, Token (c :: u) v ∧ isBlank c = false ∧ ∀ b : Bracket, c ≠ b.close := by
  cases h with
  | null ht | yes ht | no ht =>
      exact ⟨_, _, ht, rfl, fun b => b.close_ne (by decide) (by decide)⟩
  | string ho =>
      rw [List.append_assoc]
      exact ⟨_, _, ho.append _, rfl, fun b => b.close_ne (by decide) (by decide)⟩
  | number hn ht =>
      cases hn with
      | plain hu =>
          obtain ⟨d, ds, rfl, hd⟩ := hu.head
          exact ⟨d, ds, ht, isBlank_of_isDigit hd,
            fun b => b.close_ne (ne_of_isDigit hd rfl) (ne_of_isDigit hd rfl)⟩
      | minus => exact ⟨_, _, ht, rfl, fun b => b.close_ne (by decide) (by decide)⟩
  | @empty b _ _ ho => exact ⟨_, _, ho.append _, b.isBlank_mark, b.mark_ne_close⟩
  | @filled b _ _ _ _ ho =>
      rw [List.append_assoc, List.append_assoc]
      exact ⟨_, _, ho.append _, b.isBlank_mark, b.mark_ne_close⟩

theorem skipOpened_of_key {b : Bracket} (left : List Bracket) {k v : List Char} (hk : Key b k)
    (hv : Written .value v) (rest : List Char) :
    ∃ y, skipOpened b left (k ++ v ++ rest) = .ok (b :: left, y) ∧
      skipBlank y = skipBlank (v ++ rest) := by
  cases hk with
  | list =>
      obtain ⟨c, u, ht, hb, hc⟩ := hv.head
      refine ⟨skipBlank (v ++ rest), ?_, skipBlank_skipBlank _⟩
      rw [List.nil_append, skipOpened, ht.skipBlank hb]
      exact if_neg (hc .list)
  | object ho hb hc =>
      refine ⟨v ++ rest, ?_, rfl⟩
      have hs := skipKey_of_key (.object ho hb hc) (v ++ rest)
      rw [← skipKey_skipBlank] at hs
      simp only [List.append_assoc, ho.skipBlank rfl] at hs ⊢
      rw [skipOpened, ho.skipBlank rfl]
      exact congrArg (Except.map (.object :: left, ·)) hs

/-- What passing over a part of a value comes to, with any brackets open around it. -/
def Passes : Part → List Char → Prop
  | .value, t => ∀ left rest, Clear rest →
      skipInside left (t ++ rest) = resume (skipClosed left rest)
  | .more b, t => ∀ left rest,
      resume (skipClosed (b :: left) (t ++ rest)) = resume (skipClosed left rest)

theorem skipStart_of_mark {b : Bracket} {o : List Char} (ho : Token [b.mark] o)
    (rest : List Char) : skipStart (o ++ rest) = .ok (some b, rest) := by
  rw [skipStart, ho.skipBlank b.isBlank_mark]
  cases b <;> rfl

theorem skipStart_of_signed {n t rest : List Char} (hn : Signed n) (ht : Token n t)
    (hr : Clear rest) : skipStart (t ++ rest) = .ok (none, rest) := by
  cases hn with
  | plain hu =>
      obtain ⟨m, hm⟩ := scanNumeral_of_unsigned (r := .badNumber) hu hr
      obtain ⟨d, ds, rfl, hd⟩ := hu.head
      have ne {c : Char} (hc : c.isDigit = false) : d ≠ c := ne_of_isDigit hd hc
      rw [skipStart, ht.skipBlank (isBlank_of_isDigit hd)]
      simp only [if_neg (ne (c := 'n') rfl), if_neg (ne (c := 't') rfl), if_neg (ne (c := 'f') rfl),
        if_neg (ne (c := '"') rfl), if_neg (ne (c := '-') rfl), if_pos hd]
      rw [← List.cons_append, hm]
      rfl
  | @minus u hu =>
      obtain ⟨m, hm⟩ := scanNumeral_of_unsigned (r := .badNumber) hu hr
      rw [skipStart, ht.skipBlank rfl]
      simp [hm, Except.map]

theorem skipStart_of_text {o b : List Char} (ho : Token ['"'] o) (hb : Loose b)
    (rest : List Char) : skipStart (o ++ b ++ ['"'] ++ rest) = .ok (none, rest) := by
  simp [skipStart, ho.skipBlank rfl, skipText_of_loose hb, Except.map]

theorem skipStart_of_null {t : List Char} (ht : Token ['n', 'u', 'l', 'l'] t) (rest : List Char) :
    skipStart (t ++ rest) = .ok (none, rest) := by
  simp [skipStart, ht.skipBlank rfl, readWord, Except.map]

theorem skipStart_of_readNumber {c : Char} {cs mid rest : List Char} {n : Number}
    (hb : skipBlank cs = c :: mid) (hc : c = '-' ∨ c.isDigit)
    (h : readNumber (c :: mid) = .ok (n, rest)) : skipStart cs = .ok (none, rest) := by
  rw [skipStart, hb]
  obtain rfl | hd := hc
  · obtain ⟨m, hm⟩ := scanNumeral_of_readUnsigned (r := .badNumber) h
    simp [hm, Except.map]
  · have ne {d : Char} (hd' : d.isDigit = false) : c ≠ d := ne_of_isDigit hd hd'
    rw [readNumber] at h
    · obtain ⟨m, hm⟩ := scanNumeral_of_readUnsigned (r := .badNumber) h
      simp only [if_neg (ne (d := 'n') rfl), if_neg (ne (d := 't') rfl),
        if_neg (ne (d := 'f') rfl), if_neg (ne (d := '"') rfl), if_neg (ne (d := '-') rfl),
        if_pos hd, hm]
      rfl
    · exact fun _ he => ne (d := '-') rfl (List.cons.inj he).1

theorem skipInside_of_filled {b : Bracket} {o k v m : List Char} (ho : Token [b.mark] o)
    (hk : Key b k) (hv : Written .value v) (hm : Written (.more b) m) (value : Passes .value v)
    (more : Passes (.more b) m) (left : List Bracket) (rest : List Char) :
    skipInside left (o ++ k ++ v ++ m ++ rest) = resume (skipClosed left rest) := by
  obtain ⟨y, hy, he⟩ := skipOpened_of_key left hk hv (m ++ rest)
  simp only [List.append_assoc] at hy ⊢
  rw [skipInside_eq, skipPart, skipStart_of_mark ho]
  simp only [hy]
  -- Blanks behind the opening bracket may be gone already, which the value does not mind.
  rw [resume, skipInside_congr he, value _ _ (hm.clear rest), more]

theorem Written.passes {p : Part} {t : List Char} (h : Written p t) : Passes p t := by
  -- The brackets around a value stay open while it is passed over, hence any of them in `Passes`.
  induction h with
  | null ht =>
      intro left rest _
      exact skipInside_of_start (skipStart_of_null ht rest)
  | yes ht | no ht =>
      intro left rest _
      apply skipInside_of_start
      simp [skipStart, ht.skipBlank rfl, readWord, Except.map]
  | string ho hb =>
      intro left rest _
      exact skipInside_of_start (skipStart_of_text ho hb rest)
  | number hn ht =>
      intro left rest hr
      exact skipInside_of_start (skipStart_of_signed hn ht hr)
  | @empty b o c ho hc =>
      intro left rest _
      rw [List.append_assoc, skipInside_eq, skipPart, skipStart_of_mark ho]
      simp only [skipOpened, hc.skipBlank b.isBlank_close, List.nil_append, if_true]
  | filled ho hk hv hm ihv ihm =>
      intro left rest _
      exact skipInside_of_filled ho hk hv hm ihv ihm left rest
  | @close b c hc =>
      intro left rest
      have hne : b.close ≠ ',' := by cases b <;> decide
      rw [skipClosed, hc.skipBlank b.isBlank_close]
      simp only [if_neg hne, if_true, List.nil_append]
  | @next b c k v m hc hk hv hm ihv ihm =>
      intro left rest
      have he : skipClosed (b :: left) (c ++ k ++ v ++ m ++ rest) =
          .ok (b :: left, v ++ (m ++ rest)) := by
        simp only [List.append_assoc, skipClosed, hc.skipBlank rfl, List.nil_append, if_true,
          skipKey_of_key hk]
        rfl
      rw [he, resume, ihv _ _ (hm.clear rest), ihm]

theorem skipValue_of_readNatural {wanted : String} {limit n : Nat} {cs rest : List Char}
    (h : readNatural wanted limit cs = .ok (n, rest)) : skipValue cs = .ok rest := by
  unfold readNatural at h
  split at h
  · contradiction
  next c mid hb =>
  split at h
  · next hc =>
    split at h
    · contradiction
    · contradiction
    next hn =>
    split at h
    · cases h
      exact skipInside_of_start (skipStart_of_readNumber hb hc hn)
    · contradiction
  · contradiction

theorem skipValue_of_written {v rest : List Char} (h : Written .value v) (hr : Clear rest) :
    skipValue (v ++ rest) = .ok rest :=
  h.passes [] rest hr

end QueueWorker.Json
