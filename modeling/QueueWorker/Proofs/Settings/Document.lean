import QueueWorker.Proofs.Settings.Fields

namespace QueueWorker.Settings

open Json

theorem Field.ofKey?_key (f : Field) : Field.ofKey? f.key = some f := by cases f <;> decide

theorem Field.key_of_ofKey? {s : String} {f : Field} (h : Field.ofKey? s = some f) : f.key = s := by
  simpa using List.find?_some h

theorem Field.ofKey?_eq_none_iff {s : String} :
    Field.ofKey? s = none ↔ ∀ f : Field, f.key ≠ s := by
  constructor
  · intro h f
    rintro rfl
    cases (Field.ofKey?_key f).symm.trans h
  · intro h
    cases hf : Field.ofKey? s with
    | none => rfl
    | some f => exact absurd (Field.key_of_ofKey? hf) (h f)

/-- A member adds its setting to what has been read, or nothing. No setting is given twice. -/
inductive Draft.Adds (d : Draft) : Option Setting → Draft → Prop
  | known {s : Setting} (hs : d.has s.field = false) : d.Adds (some s) (d.put s)
  | unknown : d.Adds none d

inductive Draft.Takes : Draft → List (Option Setting) → Draft → Prop
  | nil {d : Draft} : d.Takes [] d
  | cons {d d₁ d₂ : Draft} {a : Option Setting} {l : List (Option Setting)} (ha : d.Adds a d₁)
      (ht : d₁.Takes l d₂) : d.Takes (a :: l) d₂

theorem Draft.has_put (d : Draft) (s : Setting) (f : Field) :
    (d.put s).has f = (s.field == f || d.has f) := by
  cases s <;> cases f <;> rfl

theorem Draft.settings_put (d : Draft) (s : Setting) :
    (d.put s).settings = s.put d.settings := by
  cases s <;> rfl

theorem Draft.settings_foldl (d : Draft) (l : List Setting) :
    (l.foldl Draft.put d).settings = l.foldl Setting.put d.settings := by
  induction l generalizing d with
  | nil => rfl
  | cons s l ih => rw [List.foldl_cons, List.foldl_cons, ih, d.settings_put]

theorem Draft.settings_gather (l : List Setting) :
    (l.foldl Draft.put {}).settings = Setting.gather l := Draft.settings_foldl {} l

theorem Draft.takes_iff {d d' : Draft} {l : List (Option Setting)} :
    d.Takes l d' ↔ ((l.filterMap id).map Setting.field).Nodup ∧
      (∀ s ∈ l.filterMap id, d.has s.field = false) ∧ d' = (l.filterMap id).foldl Draft.put d := by
  induction l generalizing d with
  | nil =>
      constructor
      · rintro ⟨⟩
        exact ⟨.nil, List.forall_mem_nil _, rfl⟩
      · rintro ⟨-, -, rfl⟩
        exact .nil
  | cons a l ih =>
      cases a with
      | none =>
          rw [List.filterMap_cons_none rfl, ← ih]
          constructor
          · intro h
            cases h with
            | cons ha ht =>
                cases ha
                exact ht
          · exact fun ht => .cons .unknown ht
      | some s =>
          -- With `s` read, the others must be new in themselves and of another field than `s`.
          have later : (∀ x ∈ l.filterMap id, (d.put s).has x.field = false) ↔
              s.field ∉ (l.filterMap id).map Setting.field ∧
                ∀ x ∈ l.filterMap id, d.has x.field = false := by
            simp only [d.has_put, Bool.or_eq_false_iff, beq_eq_false_iff_ne, List.mem_map,
              not_exists, not_and, ← forall_and]
            exact forall₂_congr fun x _ => and_congr_left' ne_comm
          have hcons : (some s :: l).filterMap id = s :: l.filterMap id := rfl
          rw [hcons, List.map_cons, List.nodup_cons, List.foldl_cons,
            List.forall_mem_cons]
          constructor
          · intro h
            cases h with
            | cons ha ht =>
                cases ha with
                | known hs =>
                    obtain ⟨hn, hl, he⟩ := ih.mp ht
                    obtain ⟨hm, hl⟩ := later.mp hl
                    exact ⟨⟨hm, hn⟩, ⟨hs, hl⟩, he⟩
          · rintro ⟨⟨hm, hn⟩, ⟨hs, hl⟩, he⟩
            exact .cons (.known hs) (ih.mpr ⟨hn, later.mpr ⟨hm, hl⟩, he⟩)

theorem quote_of_readQuote {first : Bool} {c : Char} {cs mid rest : List Char}
    (hb : skipBlank cs = c :: mid) (h : readQuote first c mid = .ok rest) :
    ∃ s o, Separator first s ∧ Token ['"'] o ∧ cs = s ++ o ++ rest := by
  obtain ⟨t, ht, rfl⟩ := Token.of_skipBlank hb
  cases first with
  | true =>
      simp only [readQuote, if_true] at h
      split at h
      · next hc =>
        cases h
        exact ⟨[], t, .first, hc ▸ ht, rfl⟩
      · contradiction
  | false =>
      simp only [readQuote, Bool.false_eq_true, if_false] at h
      split at h
      · next hc =>
        split at h
        · contradiction
        next hq =>
        split at h
        · next hc' =>
          cases h
          obtain ⟨o, ho, rfl⟩ := Token.of_skipBlank (hc' ▸ hq)
          exact ⟨t, o, .comma (hc ▸ ht), ho, by rw [List.append_assoc]⟩
        · split at h <;> contradiction
      · contradiction

theorem readQuote_of_separator {first : Bool} {s o : List Char} (hs : Separator first s)
    (ho : Token ['"'] o) (rest : List Char) :
    ∃ c mid, skipBlank (s ++ o ++ rest) = c :: mid ∧ c ≠ '\x7d' ∧
      readQuote first c mid = .ok rest := by
  cases hs with
  | first => exact ⟨_, _, ho.skipBlank rfl rest, by decide, rfl⟩
  | comma hc =>
      rw [List.append_assoc]
      refine ⟨_, _, hc.skipBlank rfl _, by decide, ?_⟩
      simp only [readQuote, Bool.false_eq_true, if_false, if_true, List.nil_append,
        ho.skipBlank rfl]

theorem member_of_readMember {d d' : Draft} {o cs rest : List Char} (ho : Token ['"'] o)
    (h : readMember d cs = .ok (d', rest)) :
    ∃ m a, Member (o ++ m) a ∧ d.Adds a d' ∧ cs = m ++ rest := by
  unfold readMember at h
  split at h
  · contradiction
  next ht =>
  obtain ⟨q, hq, rfl⟩ := quoted_of_readText ho ht
  split at h
  · next f hf =>
    split at h
    · contradiction
    next hd =>
    split at h
    · contradiction
    next colon =>
    obtain ⟨c, hc, rfl⟩ := readColon_eq_ok_iff.mp colon
    obtain ⟨v, s, hv, rfl, rfl, rfl⟩ := gives_of_readField h
    rw [← Field.key_of_ofKey? hf] at hq
    refine ⟨q ++ c ++ v, some s, ?_, .known (by simpa using hd), by simp⟩
    simpa using Member.known hq hc hv
  · next hf =>
    split at h
    · contradiction
    next colon =>
    obtain ⟨c, hc, rfl⟩ := readColon_eq_ok_iff.mp colon
    obtain ⟨_, hs, he⟩ := map_eq_ok h
    cases he
    obtain ⟨v, hv, rfl⟩ := written_of_skipValue hs
    refine ⟨q ++ c ++ v, none, ?_, .unknown, by simp⟩
    simpa using Member.unknown (Field.ofKey?_eq_none_iff.mp hf) hq hc hv

theorem readMember_of_member {d d' : Draft} {a : Option Setting} {m rest : List Char}
    (h : Member m a) (hd : d.Adds a d') (hr : Clear rest) :
    ∃ o q, Token ['"'] o ∧ m = o ++ q ∧ readMember d (q ++ rest) = .ok (d', rest) := by
  cases h with
  | @known k c v s hk hc hv =>
      obtain ⟨o, q, ho, rfl, hq⟩ := hk.split
      cases hd with
      | known hs =>
          refine ⟨o, q ++ c ++ v, ho, by simp, ?_⟩
          simp only [List.append_assoc]
          simp only [readMember, hq, String.ofList_toList, Field.ofKey?_key, hs,
            Bool.false_eq_true, if_false, readColon_eq_ok_iff.mpr ⟨c, hc, rfl⟩]
          exact readField_of_gives hv hr
  | @unknown k c v key hf hk hc hv =>
      obtain ⟨o, q, ho, rfl, hq⟩ := hk.split
      cases hd with
      | unknown =>
          refine ⟨o, q ++ c ++ v, ho, by simp, ?_⟩
          simp only [List.append_assoc]
          simp only [readMember, hq, String.ofList_toList, Field.ofKey?_eq_none_iff.mpr hf,
            readColon_eq_ok_iff.mpr ⟨c, hc, rfl⟩, skipValue_of_written hv hr]
          rfl

theorem items_of_readMembers {first : Bool} {d d' : Draft} {cs rest : List Char}
    (h : readMembers first d cs = .ok (d', rest)) :
    ∃ t l, Items Member '\x7d' first t l ∧ d.Takes l d' ∧ cs = t ++ rest := by
  fun_induction readMembers first d cs with
  | case1 => contradiction
  | case2 first d cs mid hb =>
      cases h
      obtain ⟨t, ht, rfl⟩ := Token.of_skipBlank hb
      exact ⟨t, [], .close ht, .nil, rfl⟩
  | case3 => contradiction
  | case4 => contradiction
  | case5 first d cs c mid hb hc mid' hq d₁ mid₁ hread ih =>
      obtain ⟨s, o, hs, ho, rfl⟩ := quote_of_readQuote hb hq
      obtain ⟨m, a, hm, ha, rfl⟩ := member_of_readMember ho hread
      obtain ⟨t, l, ht, hl, rfl⟩ := ih h
      exact ⟨s ++ (o ++ m) ++ t, a :: l, .item hs hm ht, .cons ha hl, by simp⟩

theorem readMembers_cons {first : Bool} {d d₁ : Draft} {c : Char} {cs mid rest rest₁ : List Char}
    (hb : skipBlank cs = c :: mid) (hc : c ≠ '\x7d') (hq : readQuote first c mid = .ok rest)
    (hm : readMember d rest = .ok (d₁, rest₁)) :
    readMembers first d cs = readMembers false d₁ rest₁ := by
  rw [readMembers]
  split
  · next h => cases h.symm.trans hb
  next h =>
  cases h.symm.trans hb
  rw [if_neg hc]
  split
  · next h => cases h.symm.trans hq
  next h =>
  cases h.symm.trans hq
  split
  · next h => cases h.symm.trans hm
  next h =>
  cases h.symm.trans hm
  rfl

theorem readMembers_of_items {first : Bool} {d d' : Draft} {t : List Char}
    {l : List (Option Setting)} (h : Items Member '\x7d' first t l) (hd : d.Takes l d')
    (rest : List Char) : readMembers first d (t ++ rest) = .ok (d', rest) := by
  induction h generalizing d with
  | close hc =>
      cases hd
      rw [readMembers]
      split
      · next h => cases h.symm.trans (hc.skipBlank rfl rest)
      next h =>
      cases h.symm.trans (hc.skipBlank rfl rest)
      rfl
  | item hs hm ht ih =>
      cases hd with
      | cons ha hl =>
          obtain ⟨o, q, ho, rfl, hq⟩ :=
            readMember_of_member hm ha (Items.clear (b := .object) ht rest)
          obtain ⟨c, mid, hb, hc, hread⟩ := readQuote_of_separator hs ho (q ++ (_ ++ rest))
          simp only [List.append_assoc] at hb ⊢
          rw [readMembers_cons hb hc hread hq]
          exact ih hl

theorem items_of_readListEnd {first : Bool} {d d' : Draft} {cs rest : List Char}
    (h : readListEnd d cs = .ok (d', rest)) :
    d' = d ∧ ∃ t, Items Gives ']' first t [] ∧ cs = t ++ rest := by
  unfold readListEnd at h
  split at h
  · contradiction
  next hb =>
  split at h
  · next hc =>
    cases h
    obtain ⟨t, ht, rfl⟩ := Token.of_skipBlank (hc ▸ hb)
    exact ⟨rfl, t, .close ht, rfl⟩
  · split at h
    · split at h <;> contradiction
    · contradiction

theorem separator_of_readComma {first : Bool} {c : Char} {cs mid rest : List Char}
    (hb : skipBlank cs = c :: mid) (h : readComma first c mid = .ok rest) :
    ∃ s w, Separator first s ∧ Blank w ∧ cs = s ++ w ++ rest := by
  cases first with
  | true =>
      cases h
      obtain ⟨w, hw, he⟩ := exists_blank cs
      rw [hb] at he
      exact ⟨[], w, .first, hw, he⟩
  | false =>
      simp only [readComma, Bool.false_eq_true, if_false] at h
      split at h
      · next hc =>
        obtain ⟨t, ht, rfl⟩ := Token.of_skipBlank (hc ▸ hb)
        split at h
        · contradiction
        next hm =>
        split at h
        · contradiction
        · cases h
          obtain ⟨w, hw, he⟩ := exists_blank mid
          rw [hm] at he
          exact ⟨t, w, .comma ht, hw, by rw [List.append_assoc, ← he]⟩
      · contradiction

theorem items_of_readElements {first : Bool} {d d' : Draft} {fs : List Field} {cs rest : List Char}
    (h : readElements first d fs cs = .ok (d', rest)) :
    ∃ t l, Items Gives ']' first t l ∧ l.map Setting.field <+: fs ∧ d' = l.foldl Draft.put d ∧
      cs = t ++ rest := by
  induction fs generalizing first d cs with
  | nil =>
      obtain ⟨rfl, t, ht, rfl⟩ := items_of_readListEnd h
      exact ⟨t, [], ht, List.nil_prefix, rfl, rfl⟩
  | cons f fs ih =>
      simp only [readElements] at h
      split at h
      · contradiction
      next hb =>
      split at h
      · next hc =>
        cases h
        obtain ⟨t, ht, rfl⟩ := Token.of_skipBlank (hc ▸ hb)
        exact ⟨t, [], .close ht, List.nil_prefix, rfl, rfl⟩
      · split at h
        · contradiction
        next hcomma =>
        split at h
        · contradiction
        next hread =>
        obtain ⟨s, w, hs, hw, rfl⟩ := separator_of_readComma hb hcomma
        obtain ⟨v, a, hv, rfl, rfl, rfl⟩ := gives_of_readField hread
        obtain ⟨t, l, ht, hl, rfl, rfl⟩ := ih h
        refine ⟨s ++ (w ++ v) ++ t, a :: l, .item hs (hv.blank hw) ht, ?_, rfl, by simp⟩
        exact (List.prefix_cons_inj _).mpr hl

theorem readField_skipBlank (d : Draft) (cs : List Char) (f : Field) :
    readField d (skipBlank cs) f = readField d cs f := by
  cases f with
  | name => rw [readField, readString, skipBlank_skipBlank, readField, readString]
  | priority => rw [readField, Priority.read, skipBlank_skipBlank, readField, Priority.read]
  | stackSize => rw [readField, readStackSize, skipBlank_skipBlank, readField, readStackSize]

theorem readComma_of_separator {first : Bool} {s v : List Char} {a : Setting}
    (hs : Separator first s) (hv : Gives v a) (rest : List Char) :
    ∃ c mid, skipBlank (s ++ v ++ rest) = c :: mid ∧ c ≠ ']' ∧
      readComma first c mid = .ok (skipBlank (v ++ rest)) := by
  obtain ⟨c, u, ht, hb, hne⟩ := hv.written.head
  have hv := ht.skipBlank hb rest
  cases hs with
  | first =>
      refine ⟨c, u ++ rest, hv, hne .list, ?_⟩
      rw [hv]
      rfl
  | comma hc =>
      rw [List.append_assoc]
      refine ⟨_, _, hc.skipBlank rfl _, by decide, ?_⟩
      simp only [readComma, Bool.false_eq_true, if_false, if_true, List.nil_append, hv]
      exact if_neg (hne .list)

theorem readElements_of_items {first : Bool} {d : Draft} {fs : List Field} {t : List Char}
    {l : List Setting} (h : Items Gives ']' first t l) (hl : l.map Setting.field <+: fs)
    (rest : List Char) :
    readElements first d fs (t ++ rest) = .ok (l.foldl Draft.put d, rest) := by
  induction h generalizing d fs with
  | close hc =>
      cases fs with
      | nil => simp [readElements, readListEnd, hc.skipBlank rfl]
      | cons f fs => simp [readElements, hc.skipBlank rfl]
  | @item first s m t a l hs hm ht ih =>
      cases fs with
      | nil => cases List.prefix_nil.mp hl
      | cons f fs =>
          obtain ⟨rfl, later⟩ := List.cons_prefix_cons.mp hl
          obtain ⟨c, mid, hb, hne, hc⟩ := readComma_of_separator hs hm (t ++ rest)
          have hread := readField_of_gives (d := d) hm (Items.clear (b := .list) ht rest)
          simp only [readElements, List.append_assoc] at hb ⊢
          rw [hb]
          simp only [if_neg hne, hc, readField_skipBlank, hread]
          exact ih later

theorem Draft.takes_empty_iff {d : Draft} {l : List (Option Setting)} :
    ({} : Draft).Takes l d ↔ ((l.filterMap id).map Setting.field).Nodup ∧
      d = (l.filterMap id).foldl Draft.put {} := by
  have none (s : Setting) : ({} : Draft).has s.field = false := by cases s <;> rfl
  rw [Draft.takes_iff]
  constructor
  · rintro ⟨hn, -, he⟩
    exact ⟨hn, he⟩
  · rintro ⟨hn, he⟩
    exact ⟨hn, fun s _ => none s, he⟩

theorem nodup_of_prefix {l : List Setting} (h : l.map Setting.field <+: Field.all) :
    (l.map Setting.field).Nodup :=
  h.sublist.nodup (by decide)

theorem document_of_read {cs rest : List Char} {c : Settings} (h : read cs = .ok (c, rest)) :
    ∃ t l, (∀ w, Blank w → Document (t ++ w) l) ∧ (l.map Setting.field).Nodup ∧
      c = Setting.gather l ∧ cs = t ++ rest := by
  unfold read at h
  split at h
  · contradiction
  next hb =>
  split at h
  · next hc =>
    obtain ⟨o, ho, rfl⟩ := Token.of_skipBlank (hc ▸ hb)
    obtain ⟨⟨d, _⟩, hm, he⟩ := map_eq_ok h
    cases he
    obtain ⟨t, l, ht, hd, rfl⟩ := items_of_readMembers hm
    obtain ⟨hn, rfl⟩ := Draft.takes_empty_iff.mp hd
    exact ⟨o ++ t, _, fun w hw => .object ho ht hw, hn, Draft.settings_gather _, by simp⟩
  · split at h
    · next hc =>
      obtain ⟨o, ho, rfl⟩ := Token.of_skipBlank (hc ▸ hb)
      obtain ⟨⟨d, _⟩, hm, he⟩ := map_eq_ok h
      cases he
      obtain ⟨t, l, ht, hl, rfl, rfl⟩ := items_of_readElements hm
      exact ⟨o ++ t, l, fun w hw => .list ho ht hl hw, nodup_of_prefix hl,
        Draft.settings_gather l, by simp⟩
    · contradiction

theorem read_of_document {t : List Char} {l : List Setting} (h : Document t l)
    (hn : (l.map Setting.field).Nodup) : ∃ w, Blank w ∧ read t = .ok (Setting.gather l, w) := by
  cases h with
  | @object o m w l ho hm hw =>
      refine ⟨w, hw, ?_⟩
      have hread := readMembers_of_items hm (Draft.takes_empty_iff.mpr ⟨hn, rfl⟩) w
      rw [List.append_assoc, read, ho.skipBlank rfl]
      simp only [if_true, List.nil_append, hread]
      rw [← Draft.settings_gather]
      rfl
  | @list o m w l ho hm hl hw =>
      refine ⟨w, hw, ?_⟩
      have hread := readElements_of_items (d := {}) hm hl w
      have hne : '[' ≠ '\x7b' := by decide
      rw [List.append_assoc, read, ho.skipBlank rfl]
      simp only [if_neg hne, if_true, List.nil_append, hread]
      rw [← Draft.settings_gather]
      rfl

theorem document_eq_ok_iff {text : String} {c : Settings} :
    document read text = .ok c ↔ ∃ l, Document text.toList l ∧ (l.map Setting.field).Nodup ∧
      c = Setting.gather l := by
  unfold document
  constructor
  · intro h
    split at h
    · contradiction
    next hr =>
    split at h
    · next hb =>
      cases h
      obtain ⟨t, l, hd, hn, rfl, ht⟩ := document_of_read hr
      exact ⟨l, ht ▸ hd _ (skipBlank_eq_nil_iff.mp hb), hn, rfl⟩
    · contradiction
  · rintro ⟨l, hd, hn, rfl⟩
    obtain ⟨w, hw, hr⟩ := read_of_document hd hn
    rw [hr]
    simp only [skipBlank_eq_nil_iff.mpr hw]

theorem ofJson_eq (text : String) :
    ofJson text = document read text >>= fun c => c.check.map (fun _ => c) := by
  rw [ofJson]
  congr 1

theorem check_of_ofJson {text : String} {c : Settings} (h : ofJson text = .ok c) :
    document read text = .ok c ∧ c.check = .ok () := by
  rw [ofJson_eq, bind_eq_ok_iff] at h
  obtain ⟨c', hd, h⟩ := h
  obtain ⟨_, hc, rfl⟩ := map_eq_ok h
  exact ⟨hd, hc⟩

theorem parameter_of_check {c : Settings} {f : Fault} (h : c.check = .error f) :
    ∃ m, f = .setting "name" m ∨ f = .setting "stack_size" m := by
  unfold check at h
  split at h
  · cases h
    exact ⟨_, .inl rfl⟩
  · split at h
    · cases h
      exact ⟨_, .inl rfl⟩
    · split at h
      · cases h
        exact ⟨_, .inr rfl⟩
      · contradiction

end QueueWorker.Settings
