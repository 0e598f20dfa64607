import QueueWorker.Proofs.Settings.Grammar

namespace QueueWorker

open Json Settings

theorem quoted_of_readText {o cs t rest : List Char} (ho : Token ['"'] o)
    (h : readText cs = .ok (t, rest)) :
    ∃ q, Quoted (o ++ q) (String.ofList t) ∧ cs = q ++ rest := by
  obtain ⟨b, hb, rfl⟩ := readText_eq_ok_iff.mp h
  rw [← String.toList_ofList (l := t)] at hb
  refine ⟨b ++ ['"'], ?_, by simp⟩
  rw [← List.append_assoc]
  exact .mk ho hb

theorem Settings.Quoted.split {t : List Char} {s : String} (h : Quoted t s) :
    ∃ o q, Token ['"'] o ∧ t = o ++ q ∧ ∀ rest, readText (q ++ rest) = .ok (s.toList, rest) := by
  cases h with
  | @mk o b _ ho hb =>
      refine ⟨o, b ++ ['"'], ho, by simp, fun rest => ?_⟩
      rw [List.append_assoc]
      exact readText_of_spells hb rest

theorem null_of_readWord {t mid rest : List Char} (ht : Token ['n'] t)
    (h : readWord ['u', 'l', 'l'] mid = .ok rest) :
    ∃ n, Token ['n', 'u', 'l', 'l'] n ∧ t ++ mid = n ++ rest :=
  ⟨_, ht.append ['u', 'l', 'l'], by rw [readWord_eq_ok h, List.append_assoc]⟩

namespace Priority

theorem ofKey?_eq_some_iff {s : String} {p : Priority} : ofKey? s = some p ↔ s = p.key := by
  constructor
  · intro h
    unfold ofKey? at h
    split at h
    · next hs =>
      cases h
      exact hs
    · split at h
      · next hs =>
        cases h
        exact hs
      · contradiction
  · rintro rfl
    exact ofKey?_key p

theorem quoted_of_readKey {o cs rest : List Char} {p : Priority} (ho : Token ['"'] o)
    (h : readKey cs = .ok (p, rest)) : ∃ q, Quoted (o ++ q) p.key ∧ cs = q ++ rest := by
  unfold readKey at h
  split at h
  · contradiction
  next ht =>
  split at h
  · next hp =>
    cases h
    obtain ⟨q, hq, rfl⟩ := quoted_of_readText ho ht
    exact ⟨q, ofKey?_eq_some_iff.mp hp ▸ hq, rfl⟩
  · contradiction

theorem readKey_of_readText {cs rest : List Char} {p : Priority}
    (h : readText cs = .ok (p.key.toList, rest)) : readKey cs = .ok (p, rest) := by
  rw [readKey, h]
  simp only [String.ofList_toList, ofKey?_key]

theorem readUnit_eq_ok_iff {cs rest : List Char} :
    readUnit cs = .ok rest ↔ ∃ n, Token ['n', 'u', 'l', 'l'] n ∧ cs = n ++ rest := by
  constructor
  · intro h
    unfold readUnit at h
    split at h
    · contradiction
    next hb =>
    split at h
    · next hc =>
      obtain ⟨t, ht, rfl⟩ := Token.of_skipBlank (hc ▸ hb)
      exact null_of_readWord ht h
    · contradiction
  · rintro ⟨n, hn, rfl⟩
    rw [readUnit, hn.skipBlank rfl]
    exact readWord_append _ _

theorem readClose_eq_ok_iff {cs rest : List Char} :
    readClose cs = .ok rest ↔ ∃ e, Token ['\x7d'] e ∧ cs = e ++ rest := by
  constructor
  · intro h
    unfold readClose at h
    split at h
    · contradiction
    next hb =>
    split at h
    · next hc =>
      cases h
      exact Token.of_skipBlank (hc ▸ hb)
    · contradiction
  · rintro ⟨e, he, rfl⟩
    rw [readClose, he.skipBlank rfl]
    rfl

theorem gives_of_readObject {o cs rest : List Char} {p : Priority} (ho : Token ['\x7b'] o)
    (h : readObject cs = .ok (p, rest)) :
    ∃ t, Gives (o ++ t) (.priority p) ∧ cs = t ++ rest := by
  unfold readObject at h
  split at h
  · contradiction
  next hb =>
  split at h
  · next hc =>
    obtain ⟨q, hq, rfl⟩ := Token.of_skipBlank (hc ▸ hb)
    simp only [bind_eq_ok_iff, Prod.exists] at h
    obtain ⟨p', _, key, _, colon, _, unit, _, close, h⟩ := h
    cases h
    obtain ⟨k, hk, rfl⟩ := quoted_of_readKey hq key
    obtain ⟨c, hc, rfl⟩ := readColon_eq_ok_iff.mp colon
    obtain ⟨n, hn, rfl⟩ := readUnit_eq_ok_iff.mp unit
    obtain ⟨e, he, rfl⟩ := readClose_eq_ok_iff.mp close
    exact ⟨q ++ k ++ c ++ n ++ e, by simpa using Gives.variant ho hk hc hn he, by simp⟩
  · split at h <;> contradiction

theorem gives_of_read {cs rest : List Char} {p : Priority} (h : read cs = .ok (p, rest)) :
    ∃ t, Gives t (.priority p) ∧ cs = t ++ rest := by
  unfold read at h
  split at h
  · contradiction
  next hb =>
  split at h
  · next hc =>
    obtain ⟨o, ho, rfl⟩ := Token.of_skipBlank (hc ▸ hb)
    obtain ⟨q, hq, rfl⟩ := quoted_of_readKey ho h
    exact ⟨o ++ q, .priority hq, by simp⟩
  · split at h
    · next hc =>
      obtain ⟨o, ho, rfl⟩ := Token.of_skipBlank (hc ▸ hb)
      obtain ⟨t, ht, rfl⟩ := gives_of_readObject ho h
      exact ⟨o ++ t, ht, by simp⟩
    · contradiction

theorem read_of_gives {t : List Char} {p : Priority} (h : Gives t (.priority p))
    (rest : List Char) : read (t ++ rest) = .ok (p, rest) := by
  cases h with
  | priority ht =>
      obtain ⟨o, q, ho, rfl, hq⟩ := ht.split
      rw [List.append_assoc, read, ho.skipBlank rfl]
      exact readKey_of_readText (hq rest)
  | variant ho hk hc hn he =>
      obtain ⟨o', q, ho', rfl, hq⟩ := hk.split
      simp only [List.append_assoc]
      rw [read, ho.skipBlank rfl]
      change readObject _ = _
      rw [List.nil_append, readObject, ho'.skipBlank rfl]
      simp only [List.nil_append, if_true, bind_eq_ok_iff, Prod.exists]
      exact ⟨p, _, readKey_of_readText (hq _), _, readColon_eq_ok_iff.mpr ⟨_, hc, rfl⟩, _,
        readUnit_eq_ok_iff.mpr ⟨_, hn, rfl⟩, _, readClose_eq_ok_iff.mpr ⟨_, he, rfl⟩, rfl⟩

end Priority

namespace Settings

theorem quoted_of_readString {s : String} {cs rest : List Char}
    (h : readString cs = .ok (s, rest)) : ∃ t, Quoted t s ∧ cs = t ++ rest := by
  unfold readString at h
  split at h
  · contradiction
  next hb =>
  split at h
  · next hc =>
    obtain ⟨o, ho, rfl⟩ := Token.of_skipBlank (hc ▸ hb)
    obtain ⟨_, ht, he⟩ := map_eq_ok h
    cases he
    obtain ⟨q, hq, rfl⟩ := quoted_of_readText ho ht
    exact ⟨o ++ q, hq, by simp⟩
  · contradiction

theorem readString_of_quoted {t : List Char} {s : String} (h : Quoted t s) (rest : List Char) :
    readString (t ++ rest) = .ok (s, rest) := by
  obtain ⟨o, q, ho, rfl, hq⟩ := h.split
  simp only [readString, List.append_assoc, ho.skipBlank rfl, List.nil_append, if_true, hq]
  simp [Except.map]

theorem gives_of_readStackSize {n : Option UInt64} {cs rest : List Char}
    (h : readStackSize cs = .ok (n, rest)) : ∃ t, Gives t (.stackSize n) ∧ cs = t ++ rest := by
  unfold readStackSize at h
  split at h
  · contradiction
  next hb =>
  split at h
  · next hc =>
    obtain ⟨t, ht, rfl⟩ := Token.of_skipBlank (hc ▸ hb)
    obtain ⟨_, hw, he⟩ := map_eq_ok h
    cases he
    obtain ⟨n, hn, he⟩ := null_of_readWord ht hw
    exact ⟨n, .unset hn, he⟩
  · obtain ⟨⟨n, _⟩, hn, he⟩ := map_eq_ok h
    cases he
    obtain ⟨w, hw, blanks⟩ := exists_blank cs
    obtain ⟨t, ht, digits, -, hlt⟩ := token_of_readNatural hn
    have hnat : (UInt64.ofNat n).toNat = n := UInt64.toNat_ofNat_of_lt' hlt
    refine ⟨w ++ t, .stackSize ?_, ?_⟩
    · rw [hnat]
      exact ht.blank hw
    · rw [blanks, hb, digits, List.append_assoc]
      rfl

theorem readStackSize_of_gives {t rest : List Char} {n : Option UInt64}
    (h : Gives t (.stackSize n)) (hr : Clear rest) :
    readStackSize (t ++ rest) = .ok (n, rest) := by
  cases h with
  | unset ht =>
      simp only [readStackSize, ht.skipBlank rfl, if_true, readWord_append]
      rfl
  | @stackSize _ n ht =>
      have hlt : n.toNat < wordLimit := n.toNat_lt
      have hread : readNatural "usize" wordLimit (Nat.toDigits 10 n.toNat ++ rest) =
          .ok (n.toNat, rest) := readNatural_of_token (.self _) hlt hlt hr
      cases hd : Nat.toDigits 10 n.toNat with
      | nil => exact absurd hd Nat.toDigits_ne_nil
      | cons d ds =>
          have hdigit := isDigit_of_toDigits hd
          rw [hd] at ht hread
          rw [readStackSize, ht.skipBlank (isBlank_of_isDigit hdigit)]
          simp only [if_neg (ne_of_isDigit (c := 'n') hdigit rfl)]
          rw [← List.cons_append, hread]
          simp [Except.map]

theorem gives_of_readField {d d' : Draft} {f : Field} {cs rest : List Char}
    (h : readField d cs f = .ok (d', rest)) :
    ∃ v s, Gives v s ∧ s.field = f ∧ d' = d.put s ∧ cs = v ++ rest := by
  cases f with
  | name =>
      obtain ⟨⟨s, _⟩, hs, he⟩ := map_eq_ok h
      cases he
      obtain ⟨t, ht, rfl⟩ := quoted_of_readString hs
      exact ⟨t, _, .name ht, rfl, rfl, rfl⟩
  | priority =>
      obtain ⟨⟨p, _⟩, hp, he⟩ := map_eq_ok h
      cases he
      obtain ⟨t, ht, rfl⟩ := Priority.gives_of_read hp
      exact ⟨t, _, ht, rfl, rfl, rfl⟩
  | stackSize =>
      obtain ⟨⟨n, _⟩, hn, he⟩ := map_eq_ok h
      cases he
      obtain ⟨t, ht, rfl⟩ := gives_of_readStackSize hn
      exact ⟨t, _, ht, rfl, rfl, rfl⟩

theorem readField_of_gives {d : Draft} {s : Setting} {v rest : List Char} (h : Gives v s)
    (hr : Clear rest) : readField d (v ++ rest) s.field = .ok (d.put s, rest) := by
  cases s with
  | name s =>
      cases h with
      | name ht =>
          simp only [Setting.field, readField, readString_of_quoted ht]
          rfl
  | priority p =>
      simp only [Setting.field, readField, Priority.read_of_gives h]
      rfl
  | stackSize n =>
      simp only [Setting.field, readField, readStackSize_of_gives h hr]
      rfl

end Settings

end QueueWorker
