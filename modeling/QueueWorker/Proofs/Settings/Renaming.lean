import Mathlib.Data.List.Nodup
import QueueWorker.Proofs.Settings.Document

namespace QueueWorker.Settings

open Json

/-- The settings with one of them as by default. -/
def reset (c : Settings) : Field → Settings
  | .name => { c with name := ({} : Settings).name }
  | .priority => { c with priority := ({} : Settings).priority }
  | .stackSize => { c with stackSize := ({} : Settings).stackSize }

inductive Before {α : Type} (P : List Char → α → Prop) : Bool → List Char → List α → Prop
  | here {first : Bool} {s : List Char} (hs : Separator first s) : Before P first s []
  | item {first : Bool} {s m t : List Char} {a : α} {l : List α} (hs : Separator first s)
      (hm : P m a) (ht : Before P false t l) : Before P first (s ++ m ++ t) (a :: l)

/-- The text of an object, with what its members give. -/
inductive Object : List Char → List (Option Setting) → Prop
  | mk {o m w : List Char} {l : List (Option Setting)} (ho : Token ['\x7b'] o)
      (hm : Items Member '\x7d' true m l) (hw : Blank w) : Object (o ++ m ++ w) l

/-- An object with one of its members that give a setting picked out: what stands before the key,
the key, and what stands behind it. -/
inductive Holds : List Char → List Char → List Char → Setting → Prop
  | mk {o u k c v t w : List Char} {l l' : List (Option Setting)} {s : Setting}
      (ho : Token ['\x7b'] o) (hu : Before Member true u l) (hk : Quoted k s.field.key)
      (hc : Token [':'] c) (hv : Gives v s) (ht : Items Member '\x7d' false t l') (hw : Blank w) :
      Holds (o ++ u) k (c ++ v ++ t ++ w) s

theorem Quoted.skipValue {t : List Char} {s : String} (h : Quoted t s) (rest : List Char) :
    skipValue (t ++ rest) = .ok rest := by
  cases h with
  | mk ho hb => exact skipInside_of_start (skipStart_of_text ho hb.loose rest)

/-- What is read for a field ends where it would end if nobody wanted it. -/
theorem skipValue_of_readField {d d' : Draft} {f : Field} {cs rest : List Char}
    (h : readField d cs f = .ok (d', rest)) : skipValue cs = .ok rest := by
  cases f with
  | name =>
      obtain ⟨_, hs, he⟩ := map_eq_ok h
      cases he
      obtain ⟨t, ht, rfl⟩ := quoted_of_readString hs
      exact ht.skipValue _
  | priority =>
      obtain ⟨_, hp, he⟩ := map_eq_ok h
      cases he
      obtain ⟨t, ht, rfl⟩ := Priority.gives_of_read hp
      cases ht with
      | priority ht => exact ht.skipValue _
      | @variant o k c n e _ ho hk hc hn he =>
          -- To whoever passes it over, this is an object with one member.
          have null : Written .value n := .null hn
          have close : Written (.more .object) e := .close he
          rw [List.append_assoc o k c]
          exact skipInside_of_filled (b := .object) ho (hk.key hc) null close null.passes
            close.passes [] _
  | stackSize =>
      obtain ⟨_, hn, he⟩ := map_eq_ok h
      cases he
      unfold readStackSize at hn
      split at hn
      · contradiction
      next hb =>
      split at hn
      · next hc =>
        obtain ⟨t, ht, rfl⟩ := Token.of_skipBlank (hc ▸ hb)
        obtain ⟨_, hw, he⟩ := map_eq_ok hn
        cases he
        obtain ⟨n, hn, he⟩ := null_of_readWord ht hw
        rw [he]
        exact skipInside_of_start (skipStart_of_null hn _)
      · obtain ⟨_, hnat, he⟩ := map_eq_ok hn
        cases he
        -- The blanks in front have been passed by the reader already, and are passed once more.
        have passed := skipValue_of_readNatural hnat
        rwa [← hb, skipValue, skipInside_congr (skipBlank_skipBlank cs)] at passed

section Items

variable {α : Type} {P : List Char → α → Prop} {close : Char} {first : Bool} {t : List Char}
  {a : α} {l : List α}

theorem Items.split (h : Items P close first t l) (ha : a ∈ l) :
    ∃ u m v l₁ l₂, t = u ++ m ++ v ∧ Before P first u l₁ ∧ P m a ∧ Items P close false v l₂ := by
  induction h with
  | close => cases ha
  | @item first s m t b l hs hm ht ih =>
      obtain rfl | ha := List.mem_cons.mp ha
      · exact ⟨s, m, t, [], l, rfl, .here hs, hm, ht⟩
      · obtain ⟨u, m', v, l₁, l₂, rfl, hu, hm', hv⟩ := ih ha
        exact ⟨s ++ m ++ u, m', v, b :: l₁, l₂, by simp, .item hs hm hu, hm', hv⟩

theorem Before.items {u m : List Char} {l' : List α} (hu : Before P first u l) (hm : P m a)
    (ht : Items P close false t l') : Items P close first (u ++ m ++ t) (l ++ a :: l') := by
  induction hu with
  | here hs => exact .item hs hm ht
  | item hs hm' _ ih => simpa using Items.item hs hm' ih

end Items

theorem readMembers_cons_eq_ok {first : Bool} {d : Draft} {c : Char} {cs mid rest : List Char}
    {a : Draft × List Char} (hb : skipBlank cs = c :: mid) (hc : c ≠ '\x7d')
    (hq : readQuote first c mid = .ok rest) (h : readMembers first d cs = .ok a) :
    ∃ d₁ rest₁, readMember d rest = .ok (d₁, rest₁) ∧ readMembers false d₁ rest₁ = .ok a := by
  cases hm : readMember d rest with
  | ok b => exact ⟨b.1, b.2, rfl, by rw [← h, readMembers_cons hb hc hq hm]⟩
  | error e =>
      rw [readMembers] at h
      split at h
      · next h' => cases h'.symm.trans hb
      next h' =>
      cases h'.symm.trans hb
      rw [if_neg hc] at h
      split at h
      · next h' => cases h'.symm.trans hq
      next h' =>
      cases h'.symm.trans hq
      split at h
      · contradiction
      next h' => cases h'.symm.trans hm

theorem Member.adds {a : Option Setting} {m rest : List Char} (h : Member m a) (hr : Clear rest) :
    ∃ o q, Token ['"'] o ∧ m = o ++ q ∧ ∀ d d' rest', readMember d (q ++ rest) = .ok (d', rest') →
      d.Adds a d' ∧ rest' = rest := by
  cases h with
  | @known k c v s hk hc hv =>
      obtain ⟨o, q, ho, rfl, hq⟩ := hk.split
      refine ⟨o, q ++ c ++ v, ho, by simp, fun d d' rest' hread => ?_⟩
      simp only [List.append_assoc, readMember, hq, String.ofList_toList, Field.ofKey?_key] at hread
      split at hread
      · contradiction
      next hs =>
      simp only [readColon_eq_ok_iff.mpr ⟨c, hc, rfl⟩, readField_of_gives hv hr] at hread
      cases hread
      exact ⟨.known (by simpa using hs), rfl⟩
  | @unknown k c v key hf hk hc hv =>
      obtain ⟨o, q, ho, rfl, hq⟩ := hk.split
      refine ⟨o, q ++ c ++ v, ho, by simp, fun d d' rest' hread => ?_⟩
      simp only [List.append_assoc, readMember, hq, String.ofList_toList,
        Field.ofKey?_eq_none_iff.mpr hf, readColon_eq_ok_iff.mpr ⟨c, hc, rfl⟩,
        skipValue_of_written hv hr] at hread
      cases hread
      exact ⟨.unknown, rfl⟩

theorem takes_of_readMembers {first : Bool} {d d' : Draft} {t rest rest' : List Char}
    {l : List (Option Setting)} (h : Items Member '\x7d' first t l)
    (hread : readMembers first d (t ++ rest) = .ok (d', rest')) : d.Takes l d' := by
  induction h generalizing d with
  | close hc =>
      rw [readMembers] at hread
      split at hread
      · contradiction
      next h =>
      cases h.symm.trans (hc.skipBlank rfl rest)
      cases hread
      exact .nil
  | item hs hm ht ih =>
      obtain ⟨o, q, ho, rfl, adds⟩ := hm.adds (Items.clear (b := .object) ht rest)
      obtain ⟨c, mid, hb, hc, hq⟩ := readQuote_of_separator hs ho (q ++ (_ ++ rest))
      simp only [List.append_assoc] at hb hread
      obtain ⟨d₁, rest₁, hmember, hread⟩ := readMembers_cons_eq_ok hb hc hq hread
      obtain ⟨ha, rfl⟩ := adds d d₁ rest₁ hmember
      exact .cons ha (ih hread)

theorem gather_of_object {text : String} {c : Settings} {l : List (Option Setting)}
    (hl : Object text.toList l) (h : document read text = .ok c) :
    ((l.filterMap id).map Setting.field).Nodup ∧ c = Setting.gather (l.filterMap id) := by
  generalize ht : text.toList = t at hl
  cases hl with
  | @mk o m w l ho hm hw =>
      unfold document at h
      rw [ht] at h
      split at h
      · contradiction
      next hr =>
      split at h
      · cases h
        rw [List.append_assoc, read, ho.skipBlank rfl] at hr
        simp only [if_true, List.nil_append] at hr
        obtain ⟨⟨d, rest⟩, hread, he⟩ := map_eq_ok hr
        cases he
        obtain ⟨nodup, rfl⟩ := Draft.takes_empty_iff.mp (takes_of_readMembers hm hread)
        exact ⟨nodup, Draft.settings_gather _⟩
      · contradiction

theorem object_of_read {text : String} {c : Settings} {rest : List Char}
    (hb : skipBlank text.toList = '\x7b' :: rest) (h : document read text = .ok c) :
    ∃ l, Object text.toList l := by
  obtain ⟨l, hd, -⟩ := document_eq_ok_iff.mp h
  generalize text.toList = t at hb hd
  cases hd with
  | object ho hm hw => exact ⟨_, .mk ho hm hw⟩
  | list ho =>
      rw [List.append_assoc, ho.skipBlank rfl] at hb
      cases hb

theorem Object.document {t : List Char} {l : List (Option Setting)} (h : Object t l) :
    Document t (l.filterMap id) := by
  cases h with
  | mk ho hm hw => exact .object ho hm hw

theorem Object.holds {t : List Char} {l : List (Option Setting)} {s : Setting} (h : Object t l)
    (hs : some s ∈ l) : ∃ front k back, t = front ++ k ++ back ∧ Holds front k back s := by
  cases h with
  | mk ho hm hw =>
      obtain ⟨u, m, v, l₁, l₂, rfl, hu, hs, hv⟩ := hm.split hs
      cases hs with
      | known hk hc hgives => exact ⟨_, _, _, by simp, .mk ho hu hk hc hgives hv hw⟩

theorem Holds.object {front k back : List Char} {s : Setting} (h : Holds front k back s) :
    ∃ l l', Object (front ++ k ++ back) (l ++ some s :: l') ∧
      ∀ key k', (∀ f : Field, f.key ≠ key) → Quoted k' key →
        Object (front ++ k' ++ back) (l ++ none :: l') := by
  cases h with
  | @mk o u _ c v t w l l' _ ho hu hk hc hv ht hw =>
      refine ⟨l, l', ?_, fun key k' hf hk' => ?_⟩
      · simpa using Object.mk ho (hu.items (.known hk hc hv) ht) hw
      · simpa using Object.mk ho (hu.items (.unknown hf hk' hc hv.written) ht) hw

section Reset

theorem reset_put (c : Settings) (s : Setting) : (s.put c).reset s.field = c.reset s.field := by
  cases s <;> rfl

theorem reset_put_ne {s : Setting} {f : Field} (h : s.field ≠ f) (c : Settings) :
    (s.put c).reset f = s.put (c.reset f) := by
  cases s <;> cases f <;> first | rfl | exact absurd rfl h

theorem reset_default (f : Field) : ({} : Settings).reset f = {} := by cases f <;> rfl

theorem reset_foldl {l : List Setting} {f : Field} (h : ∀ s ∈ l, s.field ≠ f) (c : Settings) :
    (l.foldl Setting.put c).reset f = l.foldl Setting.put (c.reset f) := by
  induction l generalizing c with
  | nil => rfl
  | cons s l ih =>
      rw [List.foldl_cons, List.foldl_cons, ih (fun s hs => h s (List.mem_cons_of_mem _ hs)),
        reset_put_ne (h s List.mem_cons_self)]

theorem gather_without {l l' : List Setting} {s : Setting}
    (hn : ((l ++ s :: l').map Setting.field).Nodup) :
    ((l ++ l').map Setting.field).Nodup ∧
      Setting.gather (l ++ l') = (Setting.gather (l ++ s :: l')).reset s.field := by
  rw [List.map_append, List.map_cons, List.nodup_middle, List.nodup_cons, ← List.map_append] at hn
  have ne : ∀ x ∈ l ++ l', x.field ≠ s.field :=
    fun x hx he => hn.1 (he ▸ List.mem_map_of_mem hx)
  have front : (Setting.gather l).reset s.field = Setting.gather l := by
    rw [Setting.gather, reset_foldl (fun x hx => ne x (List.mem_append_left _ hx)), reset_default]
  have parts (m : List Setting) :
      Setting.gather (l ++ m) = m.foldl Setting.put (Setting.gather l) := List.foldl_append
  refine ⟨hn.2, ?_⟩
  rw [parts, parts, List.foldl_cons, reset_foldl (fun x hx => ne x (List.mem_append_right _ hx)),
    reset_put, front]

theorem check_eq_ok_iff {c : Settings} : c.check = .ok () ↔
    ¬c.name.isEmpty ∧ ¬c.name.toList.contains '\x00' ∧ c.stackSize ≠ some 0 := by
  unfold check
  split
  · next empty => exact ⟨nofun, fun h => absurd empty h.1⟩
  next named =>
  split
  · next cut => exact ⟨nofun, fun h => absurd cut h.2.1⟩
  next whole =>
  split
  · next zero => exact ⟨nofun, fun h => absurd zero h.2.2⟩
  next size => exact ⟨fun _ => ⟨named, whole, size⟩, fun _ => rfl⟩

theorem check_reset {c : Settings} (h : c.check = .ok ()) (f : Field) :
    (c.reset f).check = .ok () := by
  obtain ⟨named, whole, size⟩ := check_eq_ok_iff.mp h
  obtain ⟨named', whole', size'⟩ := check_eq_ok_iff.mp (by decide : ({} : Settings).check = .ok ())
  rw [check_eq_ok_iff]
  cases f with
  | name => exact ⟨named', whole', size⟩
  | priority => exact ⟨named, whole, size⟩
  | stackSize => exact ⟨named, whole, size'⟩

end Reset

/-- A value that is wanted ends where it would if it were passed over. So a member of an object
whose key is replaced by one that no field has makes no difference to the other members, and its
field is as by default. The members of an object that is read are all found in it: whatever they
give has a place in the text. -/
theorem renamed_member_skipped :
    (∀ (text : String) (c : Settings) (rest : List Char), document read text = .ok c →
      skipBlank text.toList = '\x7b' :: rest →
      ∃ l, Object text.toList l ∧ c = Setting.gather (l.filterMap id) ∧
        ∀ s, some s ∈ l → ∃ front k back, text.toList = front ++ k ++ back ∧ Holds front k back s) ∧
    (∀ (text text' : String) (c : Settings) (front k k' back : List Char) (s : Setting)
      (key : String), document read text = .ok c → text.toList = front ++ k ++ back →
      Holds front k back s → (∀ f : Field, f.key ≠ key) → Quoted k' key →
      text'.toList = front ++ k' ++ back →
      document read text' = .ok (c.reset s.field) ∧
        (ofJson text = .ok c → ofJson text' = .ok (c.reset s.field))) ∧
    ∀ (f : Field) (d d' : Draft) (cs rest : List Char), readField d cs f = .ok (d', rest) →
      skipValue cs = .ok rest := by
  refine ⟨fun text c rest h hb => ?_, ?_, fun f d d' cs rest h => skipValue_of_readField h⟩
  · obtain ⟨l, hl⟩ := object_of_read hb h
    exact ⟨l, hl, (gather_of_object hl h).2, fun s hs => hl.holds hs⟩
  · intro text text' c front k k' back s key h ht hh hf hk ht'
    obtain ⟨l, l', known, unknown⟩ := hh.object
    have unknown := unknown key k' hf hk
    rw [← ht] at known
    rw [← ht'] at unknown
    have given : (l ++ some s :: l').filterMap id = l.filterMap id ++ s :: l'.filterMap id := by
      simp
    have left : (l ++ none :: l').filterMap id = l.filterMap id ++ l'.filterMap id := by simp
    obtain ⟨nodup, rfl⟩ := gather_of_object known h
    rw [given] at nodup ⊢
    obtain ⟨nodup, gathered⟩ := gather_without nodup
    have read : document read text' = .ok _ :=
      document_eq_ok_iff.mpr ⟨_, unknown.document, left ▸ nodup, rfl⟩
    rw [left, gathered] at read
    refine ⟨read, fun hj => ?_⟩
    rw [ofJson_eq, bind_eq_ok_iff]
    exact ⟨_, read, by rw [check_reset (check_of_ofJson hj).2]; rfl⟩

def variantFirst : String := "\x7b\"priority\":\x7b\"background\":null\x7d,\"name\":\"w\"\x7d"

def capitalFirst : String :=
  "\x7b\"\\u0050riority\":\x7b\"background\":null\x7d,\"name\":\"w\"\x7d"

theorem renamed_member_skipped_variantFirst :
    document read variantFirst = .ok (named "w").lowPriority ∧
      (∃ l, Object variantFirst.toList l ∧
        (named "w").lowPriority = Setting.gather (l.filterMap id)) ∧
      ofJson variantFirst = .ok (named "w").lowPriority ∧ ofJson capitalFirst = .ok (named "w") ∧
      skipValue (variantFirst.toList.drop 12) = .ok (variantFirst.toList.drop 31) := by
  have background : Gives _ (.priority .background) :=
    .variant (.self _) (quoted_writeText _) (.self _) (.self _) (.self _)
  have name : Items Member '\x7d' false _ [some (.name "w")] :=
    .item (.comma (.self _)) (.known (quoted_writeText _) (.self _) (.name (quoted_writeText "w")))
      (.close (.self _))
  have object : Object variantFirst.toList [some (.priority .background), some (.name "w")] :=
    .mk (.self _) (.item .first (.known (quoted_writeText _) (.self _) background) name) blank_nil
  have holds : Holds ['\x7b'] (writeText "priority") _ (.priority .background) :=
    .mk (.self _) (.here .first) (quoted_writeText _) (.self _) background name blank_nil
  have letter : Quad ['0', '0', '5', '0'] ('P').toNat :=
    .digits (i := 0) (j := 0) (k := 5) (l := 0) (by decide) (by decide) (by decide) (by decide)
  have capital : Spells _ ("Priority").toList :=
    .cons (.numbered letter) (spells_flatMap ("riority").toList)
  have read : document read variantFirst = .ok (named "w").lowPriority :=
    document_eq_ok_iff.mpr ⟨_, object.document, by decide, rfl⟩
  have clear : Clear (variantFirst.toList.drop 31) := by
    rintro _ ⟨⟩
    decide
  have readField : readField {} (variantFirst.toList.drop 12) .priority =
      .ok (({} : Draft).put (.priority .background), variantFirst.toList.drop 31) :=
    readField_of_gives background clear
  have json : ofJson variantFirst = .ok (named "w").lowPriority := by
    rw [ofJson_eq, read]
    rfl
  obtain ⟨members, renames, skips⟩ := renamed_member_skipped
  obtain ⟨l, hl, gathered, -⟩ := members _ _ _ read rfl
  obtain ⟨-, accepted⟩ := renames _ capitalFirst _ _ _ _ _ _ _ read rfl holds
    (fun f => by cases f <;> decide) (.mk (.self _) capital) rfl
  exact ⟨read, ⟨l, hl, gathered⟩, json, accepted json, skips _ _ _ _ _ readField⟩

end QueueWorker.Settings
