import QueueWorker.Proofs.Json.Grammar

namespace QueueWorker.Json

theorem bind_eq_ok_iff {ε α β : Type} {x : Except ε α} {f : α → Except ε β} {b : β} :
    x >>= f = .ok b ↔ ∃ a, x = .ok a ∧ f a = .ok b := by
  cases x <;> simp [bind, Except.bind]

theorem toNat_lt_of_hexDigit? {c : Char} {n : Nat} (h : hexDigit? c = some n) :
    c.toNat < 128 := by
  have below {d : Char} (hd : d.toNat < 128) (h : c ≤ d) : c.toNat < 128 := Nat.lt_of_le_of_lt h hd
  unfold hexDigit? at h
  split at h
  · next hc =>
    rw [Char.isDigit, Bool.and_eq_true, decide_eq_true_eq, decide_eq_true_eq] at hc
    exact below (d := '9') (by decide) hc.2
  · split at h
    · next hc => exact below (d := 'f') (by decide) hc.2
    · split at h
      · next hc => exact below (d := 'F') (by decide) hc.2
      · contradiction

theorem hexDigit?_eq_some_iff {c : Char} {n : Nat} : hexDigit? c = some n ↔ Hex c n := by
  constructor
  · intro h
    -- No digit lies beyond ASCII, so that a table decides what the digits are.
    have table : ∀ k < 128, ∀ n ∈ hexDigit? (Char.ofNat k), Hex (Char.ofNat k) n := by decide
    have at' := table c.toNat (toNat_lt_of_hexDigit? h) n
    rw [Char.ofNat_toNat] at at'
    exact at' h
  · rintro ⟨hn, h⟩
    have table : ∀ n < 16, hexDigit? (Nat.digitChar n) = some n ∧
        hexDigit? (Nat.digitChar n).toUpper = some n := by decide
    obtain rfl | rfl := h
    · exact (table n hn).1
    · exact (table n hn).2

theorem quad?_eq_some_iff {cs rest : List Char} {n : Nat} :
    quad? cs = some (n, rest) ↔ ∃ q, Quad q n ∧ cs = q ++ rest := by
  constructor
  · intro h
    unfold quad? at h
    split at h
    · next a b c d rest' =>
      simp only [bind, Option.bind_eq_some_iff, pure, Option.some.injEq, Prod.mk.injEq,
        hexDigit?_eq_some_iff] at h
      obtain ⟨i, ha, j, hb, k, hc, l, hd, rfl, rfl⟩ := h
      exact ⟨[a, b, c, d], .digits ha hb hc hd, rfl⟩
    · contradiction
  · rintro ⟨q, ⟨ha, hb, hc, hd⟩, rfl⟩
    simp [quad?, hexDigit?_eq_some_iff.mpr ha, hexDigit?_eq_some_iff.mpr hb,
      hexDigit?_eq_some_iff.mpr hc, hexDigit?_eq_some_iff.mpr hd]

theorem readQuad_eq_ok_iff {cs rest : List Char} {n : Nat} :
    readQuad cs = .ok (n, rest) ↔ ∃ q, Quad q n ∧ cs = q ++ rest := by
  rw [← quad?_eq_some_iff]
  unfold readQuad
  split
  · next r hr => simp [hr]
  · next hr => split <;> simp [hr]

theorem unescape?_eq_some_iff {l c : Char} : unescape? l = some c ↔ (l, c) ∈ letters := by
  unfold unescape? letters
  split <;> simp_all [eq_comm]

theorem ne_of_mem_letters {l c : Char} (h : (l, c) ∈ letters) : l ≠ 'u' := by
  rintro rfl
  simp [letters] at h

theorem Quad.lt {q : List Char} {n : Nat} (h : Quad q n) : n < 0x10000 := by
  obtain ⟨⟨_, _⟩, ⟨_, _⟩, ⟨_, _⟩, ⟨_, _⟩⟩ := h
  omega

theorem plain_iff {c : Char} (hq : c ≠ '"') : Plain c ↔ c ≠ '\\' ∧ ¬c < ' ' := by
  unfold Plain
  rw [Char.not_lt]
  tauto

theorem isLeading_iff {n : Nat} : isLeading n ↔ 0xD800 ≤ n ∧ n ≤ 0xDBFF := by
  simp [isLeading]

theorem isTrailing_iff {n : Nat} : isTrailing n ↔ 0xDC00 ≤ n ∧ n ≤ 0xDFFF := by
  simp [isTrailing]

theorem not_isTrailing_of_isLeading {n : Nat} (h : isLeading n) : ¬isTrailing n := by
  rw [isLeading_iff] at h
  rw [isTrailing_iff]
  omega

theorem isValidChar_of_not_surrogate {n : Nat} (h : n < 0x10000) (hl : ¬isLeading n)
    (ht : ¬isTrailing n) : n.isValidChar := by
  rw [isLeading_iff] at hl
  rw [isTrailing_iff] at ht
  unfold Nat.isValidChar
  omega

theorem toNat_ofNat {n : Nat} (h : n.isValidChar) : (Char.ofNat n).toNat = n := by
  rw [Char.ofNat, dif_pos h]
  rfl

theorem paired_eq_iff {m n : Nat} {c : Char} (hm : isLeading m) (hn : isTrailing n) :
    paired m n = c ↔ 0x10000 ≤ c.toNat ∧ m = 0xD800 + (c.toNat - 0x10000) / 0x400 ∧
      n = 0xDC00 + (c.toNat - 0x10000) % 0x400 := by
  rw [isLeading_iff] at hm
  rw [isTrailing_iff] at hn
  constructor
  · rintro rfl
    have hv : (0x10000 + (m - 0xD800) * 0x400 + (n - 0xDC00)).isValidChar := by
      unfold Nat.isValidChar
      omega
    rw [paired, toNat_ofNat hv]
    omega
  · intro h
    rw [← Char.ofNat_toNat c]
    exact congrArg Char.ofNat (by omega)

theorem not_surrogate (c : Char) : ¬isLeading c.toNat ∧ ¬isTrailing c.toNat := by
  have h : c.toNat.isValidChar := c.valid
  unfold Nat.isValidChar at h
  rw [isLeading_iff, isTrailing_iff]
  omega

theorem surrogates (c : Char) :
    isLeading (0xD800 + (c.toNat - 0x10000) / 0x400) ∧
      isTrailing (0xDC00 + (c.toNat - 0x10000) % 0x400) := by
  have h : c.toNat.isValidChar := c.valid
  unfold Nat.isValidChar at h
  rw [isLeading_iff, isTrailing_iff]
  omega

theorem readInside_eq_ok_iff {c : Char} {cs rest : List Char} :
    readInside c cs = .ok rest ↔ cs = c :: rest := by
  cases cs with
  | nil => simp [readInside]
  | cons d cs => by_cases h : d = c <;> simp [readInside, h]

theorem readPair_eq_ok_iff {m : Nat} {cs rest : List Char} {c : Char} :
    readPair m cs = .ok (c, rest) ↔ ∃ n q, isTrailing n ∧ paired m n = c ∧ Quad q n ∧
      cs = '\\' :: 'u' :: (q ++ rest) := by
  simp only [readPair, bind_eq_ok_iff, readInside_eq_ok_iff, Prod.exists, readQuad_eq_ok_iff]
  constructor
  · rintro ⟨_, rfl, _, rfl, n, rest', ⟨q, hq, rfl⟩, h⟩
    split at h
    · next hn =>
      obtain ⟨hc, rfl⟩ := Prod.mk.inj (Except.ok.inj h)
      exact ⟨n, q, hn, hc, hq, rfl⟩
    · contradiction
  · rintro ⟨n, q, hn, rfl, hq, rfl⟩
    exact ⟨_, rfl, _, rfl, n, rest, ⟨q, hq, rfl⟩, if_pos hn⟩

theorem readNumbered_eq_ok_iff {cs rest : List Char} {c : Char} :
    readNumbered cs = .ok (c, rest) ↔ ∃ a, Spelling ('\\' :: 'u' :: a) c ∧ cs = a ++ rest := by
  simp only [readNumbered, bind_eq_ok_iff, Prod.exists, readQuad_eq_ok_iff]
  constructor
  · rintro ⟨m, rest', ⟨p, hp, rfl⟩, h⟩
    split at h
    · contradiction
    next ht =>
    split at h
    · next hl =>
      obtain ⟨n, q, hn, hc, hq, rfl⟩ := readPair_eq_ok_iff.mp h
      obtain ⟨hc, hm', hn'⟩ := (paired_eq_iff hl hn).mp hc
      rw [hm'] at hp
      rw [hn'] at hq
      exact ⟨_, .paired hc hp hq, by simp⟩
    · next hl =>
      obtain ⟨rfl, rfl⟩ := Prod.mk.inj (Except.ok.inj h)
      refine ⟨p, .numbered ?_, rfl⟩
      rwa [toNat_ofNat (isValidChar_of_not_surrogate hp.lt hl ht)]
  · rintro ⟨a, ha, rfl⟩
    generalize he : '\\' :: 'u' :: a = e at ha
    cases ha with
    | plain => cases he
    | letter hl =>
        cases he
        contradiction
    | numbered hq =>
        cases he
        refine ⟨_, _, ⟨a, hq, rfl⟩, ?_⟩
        rw [if_neg (not_surrogate c).2, if_neg (not_surrogate c).1, Char.ofNat_toNat]
    | paired hc hp hq =>
        cases he
        obtain ⟨hl, ht⟩ := surrogates c
        refine ⟨_, _, ⟨_, hp, List.append_assoc _ _ _⟩, ?_⟩
        rw [if_neg (not_isTrailing_of_isLeading hl), if_pos hl]
        exact readPair_eq_ok_iff.mpr ⟨_, _, ht, (paired_eq_iff hl ht).mpr ⟨hc, rfl, rfl⟩, hq, rfl⟩

theorem readEscape_eq_ok_iff {cs rest : List Char} {c : Char} :
    readEscape cs = .ok (c, rest) ↔ ∃ a, Spelling ('\\' :: a) c ∧ cs = a ++ rest := by
  constructor
  · intro h
    cases cs with
    | nil => contradiction
    | cons l cs =>
        simp only [readEscape] at h
        split at h
        · next hu =>
          obtain ⟨a, ha, rfl⟩ := readNumbered_eq_ok_iff.mp h
          exact ⟨_, hu ▸ ha, rfl⟩
        · split at h
          · next hl =>
            cases h
            exact ⟨[l], .letter (unescape?_eq_some_iff.mp hl), rfl⟩
          · contradiction
  · rintro ⟨a, ha, rfl⟩
    generalize he : '\\' :: a = e at ha
    cases ha with
    | plain hc =>
        cases he
        exact absurd rfl hc.2.2
    | letter hl =>
        cases he
        have hu := unescape?_eq_some_iff.mpr hl
        simp only [List.cons_append, List.nil_append, readEscape]
        rw [if_neg (ne_of_mem_letters hl), hu]
    | numbered hq =>
        cases he
        exact readNumbered_eq_ok_iff.mpr ⟨_, .numbered hq, rfl⟩
    | paired hc hp hq =>
        cases he
        exact readNumbered_eq_ok_iff.mpr ⟨_, .paired hc hp hq, rfl⟩

theorem readChar_eq_ok_iff {c d : Char} {cs rest : List Char} (hq : c ≠ '"') :
    readChar c cs = .ok (d, rest) ↔ ∃ a, Spelling (c :: a) d ∧ cs = a ++ rest := by
  unfold readChar
  split
  · next hb => rw [hb, readEscape_eq_ok_iff]
  next hb =>
  constructor
  · intro h
    split at h
    · contradiction
    · next hc =>
      cases h
      exact ⟨[], .plain ((plain_iff hq).mpr ⟨hb, hc⟩), rfl⟩
  · rintro ⟨a, ha, rfl⟩
    cases ha with
    | plain hc => exact if_neg ((plain_iff hq).mp hc).2
    | letter => contradiction
    | numbered => contradiction
    | paired => contradiction

theorem Spelling.ne_nil {a : List Char} {c : Char} (h : Spelling a c) :
    ∃ d b, d ≠ '"' ∧ a = d :: b := by
  cases h with
  | plain hc => exact ⟨c, [], hc.2.1, rfl⟩
  | letter => exact ⟨_, _, by decide, rfl⟩
  | numbered => exact ⟨_, _, by decide, rfl⟩
  | paired => exact ⟨_, _, by decide, rfl⟩

theorem readText_cons {c d : Char} {cs mid t rest : List Char} (hq : c ≠ '"')
    (hc : readChar c cs = .ok (d, mid)) (ht : readText mid = .ok (t, rest)) :
    readText (c :: cs) = .ok (d :: t, rest) := by
  rw [readText, if_neg hq]
  split
  · next he => cases he.symm.trans hc
  · next he =>
    cases he.symm.trans hc
    rw [ht]

theorem readText_of_spells {b t : List Char} (h : Spells b t) (rest : List Char) :
    readText (b ++ '"' :: rest) = .ok (t, rest) := by
  induction h with
  | nil => rw [List.nil_append, readText, if_pos rfl]
  | cons ha _ ih =>
      obtain ⟨d, b, hd, rfl⟩ := ha.ne_nil
      rw [List.append_assoc]
      exact readText_cons hd ((readChar_eq_ok_iff hd).mpr ⟨b, ha, rfl⟩) ih

theorem readText_eq_ok_iff {cs t rest : List Char} :
    readText cs = .ok (t, rest) ↔ ∃ b, Spells b t ∧ cs = b ++ '"' :: rest := by
  constructor
  · intro h
    fun_induction readText cs generalizing t with
    | case1 => contradiction
    | case2 cs =>
        cases h
        exact ⟨[], .nil, rfl⟩
    | case3 => contradiction
    | case4 => contradiction
    | case5 c cs hq d mid hc t' rest' ht ih =>
        cases h
        obtain ⟨a, ha, rfl⟩ := (readChar_eq_ok_iff hq).mp hc
        obtain ⟨b, hb, rfl⟩ := ih ht
        exact ⟨_, .cons ha hb, by simp⟩
  · rintro ⟨b, hb, rfl⟩
    exact readText_of_spells hb rest

theorem loose_of_skipEscape {cs mid b : List Char} (h : skipEscape cs = .ok mid) (hb : Loose b) :
    ∃ a, Loose ('\\' :: a ++ b) ∧ cs = a ++ mid := by
  cases cs with
  | nil => contradiction
  | cons l cs =>
      simp only [skipEscape] at h
      split at h
      · next hu =>
        obtain ⟨⟨n, _⟩, hn, rfl⟩ := map_eq_ok h
        obtain ⟨q, hq, rfl⟩ := readQuad_eq_ok_iff.mp hn
        exact ⟨l :: q, hu ▸ .numbered hq hb, rfl⟩
      · split at h
        · next hl =>
          cases h
          obtain ⟨c, hc⟩ := Option.isSome_iff_exists.mp hl
          exact ⟨[l], .letter (unescape?_eq_some_iff.mp hc) hb, rfl⟩
        · contradiction

theorem skipText_escape {cs mid rest : List Char} (h : skipEscape cs = .ok mid)
    (ht : skipText mid = .ok rest) : skipText ('\\' :: cs) = .ok rest := by
  rw [skipText, if_neg (by decide), if_pos rfl]
  split
  · next he => cases he.symm.trans h
  · next he =>
    cases he.symm.trans h
    exact ht

theorem skipText_of_loose {b : List Char} (h : Loose b) (rest : List Char) :
    skipText (b ++ '"' :: rest) = .ok rest := by
  induction h with
  | nil => rw [List.nil_append, skipText, if_pos rfl]
  | @plain c b hc _ ih =>
      rw [List.cons_append, skipText, if_neg hc.2.1, if_neg hc.2.2, if_neg (Char.not_lt.mpr hc.1)]
      exact ih
  | letter hl _ ih =>
      rw [List.cons_append, List.cons_append]
      refine skipText_escape ?_ ih
      rw [skipEscape, if_neg (ne_of_mem_letters hl), unescape?_eq_some_iff.mpr hl]
      rfl
  | numbered hq _ ih =>
      rw [List.cons_append, List.cons_append, List.cons_append, List.cons_append,
        List.append_assoc]
      refine skipText_escape ?_ ih
      rw [skipEscape, if_pos rfl, readQuad_eq_ok_iff.mpr ⟨_, hq, rfl⟩]
      rfl

theorem skipText_eq_ok_iff {cs rest : List Char} :
    skipText cs = .ok rest ↔ ∃ b, Loose b ∧ cs = b ++ '"' :: rest := by
  constructor
  · intro h
    fun_induction skipText cs with
    | case1 => contradiction
    | case2 cs =>
        cases h
        exact ⟨[], .nil, rfl⟩
    | case3 => contradiction
    | case4 cs mid he hq ih =>
        obtain ⟨b, hb, rfl⟩ := ih h
        obtain ⟨a, ha, rfl⟩ := loose_of_skipEscape he hb
        exact ⟨_, ha, by simp⟩
    | case5 => contradiction
    | case6 c cs hq hb hc ih =>
        obtain ⟨b, hl, rfl⟩ := ih h
        exact ⟨c :: b, .plain ((plain_iff hq).mpr ⟨hb, hc⟩) hl, rfl⟩
  · rintro ⟨b, hb, rfl⟩
    exact skipText_of_loose hb rest

theorem Spells.loose {b t : List Char} (h : Spells b t) : Loose b := by
  induction h with
  | nil => exact .nil
  | cons ha _ ih =>
      cases ha with
      | plain hc => exact .plain hc ih
      | letter hl => exact .letter hl ih
      | numbered hq => exact .numbered hq ih
      | paired _ hp hq =>
          simpa using Loose.numbered hp (.numbered hq ih)

theorem mem_letters_of_escape? {c l : Char} (h : escape? c = some l) : (l, c) ∈ letters := by
  unfold escape? at h
  split at h <;> cases h <;> decide

theorem quad_low {c : Char} (hc : c < ' ') :
    Quad ['0', '0', Nat.digitChar (c.toNat / 16), Nat.digitChar (c.toNat % 16)] c.toNat := by
  have hlt : c.toNat < 32 := hc
  have digit {n : Nat} (hn : n < 16) : Hex (Nat.digitChar n) n := ⟨hn, .inl rfl⟩
  have hq := Quad.digits (digit (n := 0) (by omega)) (digit (n := 0) (by omega))
    (digit (n := c.toNat / 16) (by omega)) (digit (n := c.toNat % 16) (by omega))
  have he : ((0 * 16 + 0) * 16 + c.toNat / 16) * 16 + c.toNat % 16 = c.toNat := by omega
  rw [he] at hq
  exact hq

theorem spelling_writeChar (c : Char) : Spelling (writeChar c) c := by
  unfold writeChar
  split
  · next hl => exact .letter (mem_letters_of_escape? hl)
  next hl =>
  split
  · next hc => exact .numbered (quad_low hc)
  · next hc =>
    refine .plain ⟨Char.not_lt.mp hc, ?_, ?_⟩
    · rintro rfl
      contradiction
    · rintro rfl
      contradiction

theorem spells_flatMap (s : List Char) : Spells (s.flatMap writeChar) s := by
  induction s with
  | nil => exact .nil
  | cons c s ih => exact .cons (spelling_writeChar c) ih

end QueueWorker.Json
