import QueueWorker.Json.Found
import QueueWorker.Proofs.Json.Text

namespace QueueWorker.Json

def NoDigit (rest : List Char) : Prop := ∀ c ∈ rest.head?, c.isDigit = false

def Clear (rest : List Char) : Prop :=
  ∀ c ∈ rest.head?, c.isDigit = false ∧ c ≠ '.' ∧ c ≠ 'e' ∧ c ≠ 'E'

theorem Clear.noDigit {rest : List Char} (h : Clear rest) : NoDigit rest := fun c hc => (h c hc).1

theorem ne_of_isDigit {d c : Char} (hd : d.isDigit) (hc : c.isDigit = false) : d ≠ c := by
  rintro rfl
  cases hd.symm.trans hc

theorem isBlank_of_isDigit {d : Char} (hd : d.isDigit) : isBlank d = false := by
  rw [Bool.eq_false_iff]
  intro hb
  rcases isBlank_iff.mp hb with rfl | rfl | rfl | rfl <;> contradiction

theorem digits_nil : Digits [] := List.forall_mem_nil _

theorem digits_digits (cs : List Char) : Digits (digits cs) :=
  fun _ hd => List.mem_takeWhile_imp hd

theorem digits_append_pastDigits (cs : List Char) : cs = digits cs ++ pastDigits cs :=
  (List.takeWhile_append_dropWhile).symm

section

variable {ds rest : List Char}

theorem digits_append (hds : Digits ds) (hr : NoDigit rest) : digits (ds ++ rest) = ds := by
  rw [digits, List.takeWhile_append_of_pos hds]
  cases rest with
  | nil => simp
  | cons c cs => simp [hr c rfl]

theorem pastDigits_append (hds : Digits ds) (hr : NoDigit rest) :
    pastDigits (ds ++ rest) = rest := by
  rw [pastDigits, List.dropWhile_append_of_pos hds]
  cases rest with
  | nil => rfl
  | cons c cs => simp [hr c rfl]

end

section

variable {r : Reason} {cs rest : List Char}

theorem whole_of_scanWhole {w : List Char} (h : scanWhole r cs = .ok (w, rest)) :
    Whole w ∧ cs = w ++ rest := by
  cases cs with
  | nil => contradiction
  | cons c cs =>
      simp only [scanWhole] at h
      split at h
      · next h0 =>
        split at h
        · cases h
          exact ⟨h0 ▸ .zero, rfl⟩
        · contradiction
      next h0 =>
      split at h
      · next hc =>
        cases h
        refine ⟨.digits hc h0 (digits_digits cs), ?_⟩
        rw [List.cons_append, ← digits_append_pastDigits]
      · contradiction

theorem scanWhole_of_whole {w : List Char} (hw : Whole w) (hr : NoDigit rest) :
    scanWhole r (w ++ rest) = .ok (w, rest) := by
  cases hw with
  | zero =>
      have he : digits rest = [] := digits_append digits_nil hr
      simp [scanWhole, he]
  | digits hd h0 hds =>
      rw [List.cons_append, scanWhole, if_neg h0, if_pos hd, digits_append hds hr,
        pastDigits_append hds hr]

theorem fraction_of_scanFraction {f : List Char} (h : scanFraction r cs = .ok (f, rest)) :
    ∃ t, Fraction t ∧ cs = t ++ rest ∧ f = t.tail := by
  cases cs with
  | nil =>
      cases h
      exact ⟨[], .none, rfl, rfl⟩
  | cons c cs =>
      simp only [scanFraction] at h
      split at h
      · next hc =>
        have hall := digits_digits cs
        have he := digits_append_pastDigits cs
        split at h
        · contradiction
        · contradiction
        · next d ds hd =>
          cases h
          rw [hd] at hall he
          refine ⟨c :: d :: ds, hc ▸ .digits (hall d (List.mem_cons_self ..)) ?_, ?_, rfl⟩
          · exact fun e he => hall e (List.mem_cons_of_mem _ he)
          · rw [List.cons_append, ← he]
      · cases h
        exact ⟨[], .none, rfl, rfl⟩

theorem scanFraction_of_fraction {f : List Char} (hf : Fraction f) (hr : NoDigit rest)
    (hp : '.' ∉ rest.head?) : scanFraction r (f ++ rest) = .ok (f.tail, rest) := by
  cases hf with
  | none =>
      cases rest with
      | nil => rfl
      | cons c cs => exact if_neg (fun h : c = '.' => hp (h ▸ rfl))
  | @digits d ds hd hds =>
      have hall : Digits (d :: ds) := List.forall_mem_cons.mpr ⟨hd, hds⟩
      simp only [List.cons_append, scanFraction, if_true]
      rw [← List.cons_append, digits_append hall hr, pastDigits_append hall hr]
      rfl

theorem power_of_scanPower {b : Bool} {p : Bool × List Char}
    (h : scanPower r b cs = .ok (p, rest)) :
    ∃ d ds, d.isDigit ∧ Digits ds ∧ cs = d :: ds ++ rest := by
  cases cs with
  | nil => contradiction
  | cons c cs =>
      simp only [scanPower] at h
      split at h
      · next hc =>
        cases h
        refine ⟨c, digits cs, hc, digits_digits cs, ?_⟩
        rw [List.cons_append, ← digits_append_pastDigits]
      · contradiction

theorem scanPower_of_digits {d : Char} {ds : List Char} (b : Bool) (hd : d.isDigit)
    (hds : Digits ds) (hr : NoDigit rest) :
    scanPower r b (d :: ds ++ rest) = .ok ((b, d :: ds), rest) := by
  rw [List.cons_append, scanPower, if_pos hd, digits_append hds hr, pastDigits_append hds hr]

theorem power_of_scanSignedPower {p : Bool × List Char}
    (h : scanSignedPower r cs = .ok (p, rest)) :
    ∃ s d ds, s ∈ [[], ['+'], ['-']] ∧ d.isDigit ∧ Digits ds ∧ cs = s ++ d :: ds ++ rest := by
  unfold scanSignedPower at h
  split at h
  · obtain ⟨d, ds, hd, hds, rfl⟩ := power_of_scanPower h
    exact ⟨['+'], d, ds, by simp, hd, hds, rfl⟩
  · obtain ⟨d, ds, hd, hds, rfl⟩ := power_of_scanPower h
    exact ⟨['-'], d, ds, by simp, hd, hds, rfl⟩
  · obtain ⟨d, ds, hd, hds, rfl⟩ := power_of_scanPower h
    exact ⟨[], d, ds, by simp, hd, hds, rfl⟩

theorem scanSignedPower_of_digits {s ds : List Char} {d : Char} (hs : s ∈ [[], ['+'], ['-']])
    (hd : d.isDigit) (hds : Digits ds) (hr : NoDigit rest) :
    ∃ b, scanSignedPower r (s ++ d :: ds ++ rest) = .ok ((b, d :: ds), rest) := by
  simp only [List.mem_cons, List.not_mem_nil, or_false] at hs
  obtain rfl | rfl | rfl := hs
  · refine ⟨false, ?_⟩
    have hp : d ≠ '+' := ne_of_isDigit hd rfl
    have hm : d ≠ '-' := ne_of_isDigit hd rfl
    rw [← scanPower_of_digits (r := r) false hd hds hr, List.nil_append, List.cons_append,
      scanSignedPower]
    · exact fun _ h => hp (List.cons.inj h).1
    · exact fun _ h => hm (List.cons.inj h).1
  · exact ⟨false, scanPower_of_digits (r := r) false hd hds hr⟩
  · exact ⟨true, scanPower_of_digits (r := r) true hd hds hr⟩

theorem power_of_scanPower? {p : Option (Bool × List Char)}
    (h : scanPower? r cs = .ok (p, rest)) :
    ∃ t, Power t ∧ cs = t ++ rest ∧ (p = none → t = []) := by
  cases cs with
  | nil =>
      cases h
      exact ⟨[], .none, rfl, fun _ => rfl⟩
  | cons c cs =>
      simp only [scanPower?] at h
      split at h
      · next hc =>
        obtain ⟨⟨q, _⟩, hq, he⟩ := map_eq_ok h
        cases he
        obtain ⟨s, d, ds, hs, hd, hds, rfl⟩ := power_of_scanSignedPower hq
        exact ⟨_, .digits hc hs hd hds, rfl, fun h => absurd h (Option.some_ne_none _)⟩
      · cases h
        exact ⟨[], .none, rfl, fun _ => rfl⟩

theorem scanPower?_of_clear (hr : Clear rest) : scanPower? r rest = .ok (none, rest) := by
  cases rest with
  | nil => rfl
  | cons c cs =>
      obtain ⟨-, -, he, hE⟩ := hr c rfl
      exact if_neg (by simp [he, hE])

theorem scanPower?_of_power {t : List Char} (ht : Power t) (hr : Clear rest) :
    ∃ p, scanPower? r (t ++ rest) = .ok (p, rest) := by
  cases ht with
  | none => exact ⟨none, scanPower?_of_clear hr⟩
  | @digits e d s ds he hs hd hds =>
      obtain ⟨b, hb⟩ := scanSignedPower_of_digits (r := r) hs hd hds hr.noDigit
      refine ⟨some (b, d :: ds), ?_⟩
      rw [List.cons_append, List.cons_append, scanPower?, if_pos he, hb]
      rfl

theorem Fraction.noDigit {f : List Char} (hf : Fraction f) (hr : NoDigit rest) :
    NoDigit (f ++ rest) := by
  cases hf with
  | none => exact hr
  | digits => simp [NoDigit]

theorem Power.noDigit {p : List Char} (hp : Power p) (hr : Clear rest) :
    NoDigit (p ++ rest) ∧ '.' ∉ (p ++ rest).head? := by
  cases hp with
  | none => exact ⟨hr.noDigit, fun h => (hr _ h).2.1 rfl⟩
  | digits he => rcases he with rfl | rfl <;> simp [NoDigit]

theorem parts_of_scanNumeral {n : Numeral} (h : scanNumeral r cs = .ok (n, rest)) :
    ∃ f p, Whole n.whole ∧ Fraction f ∧ Power p ∧ cs = n.whole ++ f ++ p ++ rest ∧
      n.fraction = f.tail ∧ (n.power = none → p = []) := by
  simp only [scanNumeral, bind_eq_ok_iff, Prod.exists] at h
  obtain ⟨w, _, hw, f, _, hf, p, _, hp, h⟩ := h
  cases h
  obtain ⟨whole, rfl⟩ := whole_of_scanWhole hw
  obtain ⟨f, fraction, rfl, rfl⟩ := fraction_of_scanFraction hf
  obtain ⟨p, power, rfl, hn⟩ := power_of_scanPower? hp
  exact ⟨f, p, whole, fraction, power, by simp, rfl, hn⟩

theorem unsigned_of_scanNumeral {n : Numeral} (h : scanNumeral r cs = .ok (n, rest)) :
    ∃ t, Unsigned t ∧ cs = t ++ rest := by
  obtain ⟨f, p, hw, hf, hp, rfl, -⟩ := parts_of_scanNumeral h
  exact ⟨_, .mk hw hf hp, rfl⟩

theorem scanNumeral_parts {w f p : List Char} {q : Option (Bool × List Char)} (hw : Whole w)
    (hf : Fraction f) (hp : Power p) (hr : Clear rest)
    (hq : scanPower? r (p ++ rest) = .ok (q, rest)) :
    scanNumeral r (w ++ f ++ p ++ rest) = .ok (⟨w, f.tail, q⟩, rest) := by
  obtain ⟨hd, hpoint⟩ := hp.noDigit hr
  simp only [scanNumeral, bind_eq_ok_iff, Prod.exists, List.append_assoc]
  exact ⟨w, _, scanWhole_of_whole hw (hf.noDigit hd), f.tail, _,
    scanFraction_of_fraction hf hd hpoint, q, rest, hq, rfl⟩

theorem scanNumeral_of_unsigned {t : List Char} (ht : Unsigned t) (hr : Clear rest) :
    ∃ n, scanNumeral r (t ++ rest) = .ok (n, rest) := by
  obtain ⟨hw, hf, hp⟩ := ht
  obtain ⟨q, hq⟩ := scanPower?_of_power (r := r) hp hr
  exact ⟨_, scanNumeral_parts hw hf hp hr hq⟩

theorem scanNumeral_reason {a : Numeral × List Char} (r' : Reason) (h : scanNumeral r cs = .ok a) :
    scanNumeral r' cs = .ok a := by
  have whole {cs} {w : List Char × List Char} (h : scanWhole r cs = .ok w) :
      scanWhole r' cs = .ok w := by
    cases cs with
    | nil => contradiction
    | cons => exact h
  have fraction {cs} {f : List Char × List Char} (h : scanFraction r cs = .ok f) :
      scanFraction r' cs = .ok f := by
    cases cs with
    | nil => exact h
    | cons c cs =>
        simp only [scanFraction] at h ⊢
        split at h
        · next hc =>
          rw [if_pos hc]
          split at h
          · contradiction
          · contradiction
          · exact h
        · next hc => rw [if_neg hc, h]
  have power {b cs} {p : (Bool × List Char) × List Char} (h : scanPower r b cs = .ok p) :
      scanPower r' b cs = .ok p := by
    cases cs with
    | nil => contradiction
    | cons => exact h
  have signedPower {cs} {p : (Bool × List Char) × List Char} (h : scanSignedPower r cs = .ok p) :
      scanSignedPower r' cs = .ok p := by
    unfold scanSignedPower at h ⊢
    split at h <;> exact power h
  have power? {cs} {p : Option (Bool × List Char) × List Char} (h : scanPower? r cs = .ok p) :
      scanPower? r' cs = .ok p := by
    cases cs with
    | nil => exact h
    | cons c cs =>
        simp only [scanPower?] at h ⊢
        split at h
        · next hc =>
          obtain ⟨q, hq, he⟩ := map_eq_ok h
          rw [if_pos hc, signedPower hq, ← he]
          rfl
        · next hc => rw [if_neg hc, h]
  simp only [scanNumeral, bind_eq_ok_iff, Prod.exists] at h ⊢
  obtain ⟨w, cs₁, hw, f, cs₂, hf, p, rest, hp, he⟩ := h
  exact ⟨w, cs₁, whole hw, f, cs₂, fraction hf, p, rest, power? hp, he⟩

theorem scanNumeral_of_readUnsigned {b : Bool} {n : Number}
    (h : readUnsigned b cs = .ok (n, rest)) : ∃ m, scanNumeral r cs = .ok (m, rest) := by
  simp only [readUnsigned, bind_eq_ok_iff, Prod.exists] at h
  obtain ⟨m, _, hm, _, _, he⟩ := h
  cases he
  exact ⟨m, scanNumeral_reason r hm⟩

theorem scanNumeral_of_whole {w : List Char} (hw : Whole w) (hr : Clear rest) :
    scanNumeral r (w ++ rest) = .ok (⟨w, [], none⟩, rest) := by
  have h := scanNumeral_parts (r := r) hw .none .none hr (scanPower?_of_clear hr)
  rwa [List.append_nil, List.append_nil] at h

end

section

variable {n : Nat} {ds : List Char}

theorem ofDigitChars_cons (d : Char) :
    Nat.ofDigitChars 10 (d :: ds) n = Nat.ofDigitChars 10 ds (n * 10 + digitValue d) := by
  rw [Nat.ofDigitChars_cons, Nat.mul_comm]
  rfl

theorem digitChar_digitValue {d : Char} (hd : d.isDigit) :
    digitValue d < 10 ∧ Nat.digitChar (digitValue d) = d := by
  obtain ⟨hl, hu⟩ := Char.isDigit_iff_toNat.mp hd
  have hl : 48 ≤ d.toNat := hl
  have hu : d.toNat ≤ 57 := hu
  have hlt : digitValue d < 10 := by
    unfold digitValue
    omega
  refine ⟨hlt, Char.toNat_inj.mp ?_⟩
  rw [Nat.toNat_digitChar_of_lt_ten hlt]
  exact Nat.add_sub_cancel' hl

theorem toDigits_ofDigitChars (hds : Digits ds) (hn : 0 < n) :
    Nat.toDigits 10 (Nat.ofDigitChars 10 ds n) = Nat.toDigits 10 n ++ ds := by
  induction ds generalizing n with
  | nil => exact (List.append_nil _).symm
  | cons d ds ih =>
      obtain ⟨hd, hds⟩ := List.forall_mem_cons.mp hds
      obtain ⟨hlt, hc⟩ := digitChar_digitValue hd
      rw [ofDigitChars_cons, ih hds (by omega), Nat.mul_comm,
        ← Nat.toDigits_append_toDigits (by omega) hn hlt, Nat.toDigits_of_lt_base hlt, hc,
        List.append_assoc, List.singleton_append]

theorem Whole.toDigits {w : List Char} (h : Whole w) :
    Nat.toDigits 10 (Nat.ofDigitChars 10 w 0) = w := by
  cases h with
  | zero => rfl
  | @digits d ds hd h0 hds =>
      obtain ⟨hlt, hc⟩ := digitChar_digitValue hd
      have hpos : 0 < digitValue d := by
        refine Nat.pos_of_ne_zero (fun h => h0 ?_)
        rw [← hc, h]
        rfl
      rw [ofDigitChars_cons, Nat.zero_mul, Nat.zero_add, toDigits_ofDigitChars hds hpos,
        Nat.toDigits_of_lt_base hlt, hc, List.singleton_append]

theorem whole_toDigits (n : Nat) : Whole (Nat.toDigits 10 n) := by
  induction n using Nat.strongRecOn with
  | ind n ih =>
      have last : (Nat.digitChar (n % 10)).isDigit := by
        rw [Nat.isDigit_digitChar]
        exact decide_eq_true (Nat.mod_lt n (by omega))
      by_cases hn : n < 10
      · rw [Nat.toDigits_of_lt_base hn]
        rw [Nat.mod_eq_of_lt hn] at last
        by_cases h0 : n = 0
        · exact h0 ▸ .zero
        · exact .digits last (fun h => h0 (Nat.digitChar_eq_zero.mp h)) digits_nil
      · -- The first digit is that of `n / 10`, and it could only be zero if `n / 10` were.
        rw [Nat.toDigits_of_base_le (by omega) (by omega)]
        generalize hw : Nat.toDigits 10 (n / 10) = w
        have h := ih (n / 10) (by omega)
        rw [hw] at h
        cases h with
        | zero =>
            have := Nat.ofDigitChars_ten_toDigits (n := n / 10)
            rw [hw] at this
            have : 0 = n / 10 := this
            omega
        | digits hd h0 hds =>
            refine .digits hd h0 ?_
            intro c hc
            obtain hc | hc := List.mem_append.mp hc
            · exact hds c hc
            · exact List.mem_singleton.mp hc ▸ last

theorem le_ofDigitChars : n ≤ Nat.ofDigitChars 10 ds n := by
  induction ds generalizing n with
  | nil => exact Nat.le_refl n
  | cons d ds ih =>
      rw [ofDigitChars_cons]
      exact Nat.le_trans (by omega) ih

theorem absorb_of_lt (h : Nat.ofDigitChars 10 ds n < wordLimit) :
    absorb n ds = (Nat.ofDigitChars 10 ds n, ds.length) := by
  induction ds generalizing n with
  | nil => rfl
  | cons d ds ih =>
      rw [ofDigitChars_cons] at h
      rw [absorb, if_pos (Nat.lt_of_le_of_lt le_ofDigitChars h), ih h, ofDigitChars_cons]
      rfl

theorem absorb_of_le (hn : n < wordLimit) (h : ds.length ≤ (absorb n ds).2) :
    (absorb n ds).1 = Nat.ofDigitChars 10 ds n ∧ Nat.ofDigitChars 10 ds n < wordLimit := by
  induction ds generalizing n with
  | nil => exact ⟨rfl, hn⟩
  | cons d ds ih =>
      rw [absorb] at h ⊢
      rw [ofDigitChars_cons]
      split at h
      · next hlt =>
        rw [if_pos hlt]
        exact ih hlt (Nat.le_of_succ_le_succ h)
      · exact absurd h (Nat.not_succ_le_zero _)

theorem Numeral.value_whole {m : Numeral} {b : Bool} {rest : List Char} {z : Int}
    (h : m.value b rest = .ok (.whole z)) (hz : 0 ≤ z) :
    m.fraction = [] ∧ m.power = none ∧ b = false ∧ m.whole.length ≤ (absorb 0 m.whole).2 ∧
      z = (absorb 0 m.whole).1 := by
  rcases m with ⟨w, f, _ | ⟨down, ds⟩⟩
  · simp only [Numeral.value] at h
    split at h
    · next hf =>
      split at h
      · next hb =>
        obtain ⟨hf, hd⟩ := hf
        cases h
        refine ⟨List.isEmpty_iff.mp hf, rfl, ?_, Nat.sub_eq_zero_iff_le.mp hd, rfl⟩
        simpa using hb
      · split at h
        · next hw =>
          cases h
          omega
        · cases h
    · split at h <;> cases h
  · simp only [Numeral.value] at h
    split at h
    · split at h <;> cases h
    · split at h <;> cases h

theorem Numeral.value_of_lt (rest : List Char) (hn : n < wordLimit) :
    Numeral.value ⟨Nat.toDigits 10 n, [], none⟩ false rest = .ok (.whole n) := by
  have he : Nat.ofDigitChars 10 (Nat.toDigits 10 n) 0 = n := Nat.ofDigitChars_ten_toDigits
  unfold Numeral.value
  rw [absorb_of_lt (by rwa [he])]
  simp [he]

theorem readUnsigned_whole {b : Bool} {cs rest : List Char} {z : Int} (hz : 0 ≤ z)
    (h : readUnsigned b cs = .ok (.whole z, rest)) :
    b = false ∧ z.toNat < wordLimit ∧ cs = Nat.toDigits 10 z.toNat ++ rest := by
  simp only [readUnsigned, bind_eq_ok_iff, Prod.exists] at h
  obtain ⟨m, _, hm, v, hv, h⟩ := h
  cases h
  obtain ⟨hf, hp, hb, hle, hz⟩ := Numeral.value_whole hv hz
  obtain ⟨f, p, whole, fraction, -, rfl, hft, hpn⟩ := parts_of_scanNumeral hm
  obtain ⟨he, hlt⟩ := absorb_of_le (by decide) hle
  have hn : z.toNat = Nat.ofDigitChars 10 m.whole 0 := by rw [hz, he, Int.toNat_natCast]
  have hnil : f = [] := by
    cases fraction with
    | none => rfl
    | digits => cases hft.symm.trans hf
  refine ⟨hb, hn ▸ hlt, ?_⟩
  rw [hn, whole.toDigits, hnil, hpn hp, List.append_nil, List.append_nil]

theorem readNumber_whole {cs rest : List Char} {z : Int} (hz : 0 ≤ z)
    (h : readNumber cs = .ok (.whole z, rest)) :
    z.toNat < wordLimit ∧ cs = Nat.toDigits 10 z.toNat ++ rest := by
  unfold readNumber at h
  split at h
  · cases (readUnsigned_whole hz h).1
  · exact (readUnsigned_whole hz h).2

theorem isDigit_of_toDigits {d : Char} (h : Nat.toDigits 10 n = d :: ds) : d.isDigit :=
  Nat.isDigit_of_mem_toDigits (b := 10) (n := n) (by omega) (by omega) (h ▸ List.mem_cons_self ..)

theorem readNumber_of_lt {rest : List Char} (hn : n < wordLimit) (hr : Clear rest) :
    readNumber (Nat.toDigits 10 n ++ rest) = .ok (.whole n, rest) := by
  have hu : readUnsigned false (Nat.toDigits 10 n ++ rest) = .ok (.whole n, rest) := by
    simp only [readUnsigned, bind_eq_ok_iff, Prod.exists]
    exact ⟨_, _, scanNumeral_of_whole (whole_toDigits n) hr, _, Numeral.value_of_lt rest hn, rfl⟩
  rw [← hu, readNumber]
  intro cs he
  cases hd : Nat.toDigits 10 n with
  | nil => exact Nat.toDigits_ne_nil hd
  | cons d ds =>
      have := isDigit_of_toDigits hd
      rw [hd] at he
      cases he
      contradiction

theorem token_of_readNatural {wanted : String} {limit : Nat} {cs rest : List Char}
    (h : readNatural wanted limit cs = .ok (n, rest)) :
    ∃ t, Token (Nat.toDigits 10 n) t ∧ cs = t ++ rest ∧ n < limit ∧ n < wordLimit := by
  unfold readNatural at h
  split at h
  · contradiction
  next c mid hb =>
  obtain ⟨t, ⟨b, hblank, rfl⟩, rfl⟩ := Token.of_skipBlank hb
  split at h
  · split at h
    · contradiction
    · contradiction
    next z _ hz =>
    split at h
    · next hlt =>
      cases h
      obtain ⟨hw, he⟩ := readNumber_whole hlt.1 hz
      refine ⟨_, ⟨b, hblank, rfl⟩, ?_, by omega, hw⟩
      rw [List.append_assoc, List.append_assoc, ← he, List.singleton_append]
    · contradiction
  · contradiction

theorem readNatural_of_token {wanted : String} {limit : Nat} {t rest : List Char}
    (ht : Token (Nat.toDigits 10 n) t) (hl : n < limit) (hn : n < wordLimit) (hr : Clear rest) :
    readNatural wanted limit (t ++ rest) = .ok (n, rest) := by
  have hread := readNumber_of_lt hn hr
  cases hd : Nat.toDigits 10 n with
  | nil => exact absurd hd Nat.toDigits_ne_nil
  | cons d ds =>
      have hdigit := isDigit_of_toDigits hd
      rw [hd] at ht hread
      unfold readNatural
      rw [ht.skipBlank (isBlank_of_isDigit hdigit)]
      simp only [hdigit, or_true, if_true]
      rw [← List.cons_append, hread]
      simp only [Int.natCast_nonneg, true_and, Int.toNat_natCast]
      rw [if_pos (by omega)]

end

end QueueWorker.Json
