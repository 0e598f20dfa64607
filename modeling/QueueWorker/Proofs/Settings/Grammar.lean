import QueueWorker.Proofs.Json.Value
import QueueWorker.Settings.Reader

namespace QueueWorker.Settings

open Json

inductive Setting
  | name (s : String)
  | priority (p : Priority)
  | stackSize (n : Option UInt64)

namespace Setting

def field : Setting → Field
  | name _ => .name
  | priority _ => .priority
  | stackSize _ => .stackSize

def put (c : Settings) : Setting → Settings
  | name s => { c with name := s }
  | priority p => { c with priority := p }
  | stackSize n => { c with stackSize := n }

def gather (l : List Setting) : Settings := l.foldl put {}

end Setting

def Draft.put (d : Draft) : Setting → Draft
  | .name s => { d with name := some s }
  | .priority p => { d with priority := some p }
  | .stackSize n => { d with stackSize := some n }

inductive Quoted : List Char → String → Prop
  | mk {o b : List Char} {s : String} (ho : Token ['"'] o) (hb : Spells b s.toList) :
      Quoted (o ++ b ++ ['"']) s

/-- The values that a setting can be given by. -/
inductive Gives : List Char → Setting → Prop
  | name {t : List Char} {s : String} (ht : Quoted t s) : Gives t (.name s)
  | priority {t : List Char} {p : Priority} (ht : Quoted t p.key) : Gives t (.priority p)
  | variant {o k c n e : List Char} {p : Priority} (ho : Token ['\x7b'] o) (hk : Quoted k p.key)
      (hc : Token [':'] c) (hn : Token ['n', 'u', 'l', 'l'] n) (he : Token ['\x7d'] e) :
      Gives (o ++ k ++ c ++ n ++ e) (.priority p)
  | unset {t : List Char} (ht : Token ['n', 'u', 'l', 'l'] t) : Gives t (.stackSize none)
  | stackSize {t : List Char} {n : UInt64} (ht : Token (Nat.toDigits 10 n.toNat) t) :
      Gives t (.stackSize (some n))

/-- A member of an object. Of one with another key than those of the fields nothing is kept. -/
inductive Member : List Char → Option Setting → Prop
  | known {k c v : List Char} {s : Setting} (hk : Quoted k s.field.key) (hc : Token [':'] c)
      (hv : Gives v s) : Member (k ++ c ++ v) (some s)
  | unknown {k c v : List Char} {key : String} (hf : ∀ f : Field, f.key ≠ key)
      (hk : Quoted k key) (hc : Token [':'] c) (hv : Written .value v) : Member (k ++ c ++ v) none

inductive Separator : Bool → List Char → Prop
  | first : Separator true []
  | comma {c : List Char} (hc : Token [','] c) : Separator false c

inductive Items {α : Type} (P : List Char → α → Prop) (close : Char) :
    Bool → List Char → List α → Prop
  | close {first : Bool} {c : List Char} (hc : Token [close] c) : Items P close first c []
  | item {first : Bool} {s m t : List Char} {a : α} {l : List α} (hs : Separator first s)
      (hm : P m a) (ht : Items P close false t l) : Items P close first (s ++ m ++ t) (a :: l)

/-- A text of the schema, and the settings that it gives in their order. -/
inductive Document : List Char → List Setting → Prop
  | object {o m w : List Char} {l : List (Option Setting)} (ho : Token ['\x7b'] o)
      (hm : Items Member '\x7d' true m l) (hw : Blank w) : Document (o ++ m ++ w) (l.filterMap id)
  | list {o m w : List Char} {l : List Setting} (ho : Token ['['] o)
      (hm : Items Gives ']' true m l) (hl : l.map Setting.field <+: Field.all) (hw : Blank w) :
      Document (o ++ m ++ w) l

theorem quoted_writeText (s : String) : Quoted (writeText s) s := by
  have h := Quoted.mk (.self ['"']) (spells_flatMap s.toList)
  exact h

theorem Quoted.written {t : List Char} {s : String} (h : Quoted t s) : Written .value t := by
  cases h with
  | mk ho hb => exact .string ho hb.loose

theorem Quoted.key {k c : List Char} {s : String} (hk : Quoted k s) (hc : Token [':'] c) :
    Key .object (k ++ c) := by
  cases hk with
  | mk ho hb => simpa using Key.object ho hb.loose hc

theorem Quoted.blank {t b : List Char} {s : String} (h : Quoted t s) (hb : Blank b) :
    Quoted (b ++ t) s := by
  cases h with
  | mk ho hs => simpa using Quoted.mk (ho.blank hb) hs

theorem unsigned_of_whole {w : List Char} (hw : Whole w) : Unsigned w := by
  simpa using Unsigned.mk hw .none .none

theorem Gives.written {t : List Char} {s : Setting} (h : Gives t s) : Written .value t := by
  cases h with
  | name ht => exact ht.written
  | priority ht => exact ht.written
  | variant ho hk hc hn he =>
      simpa using Written.filled (b := .object) ho (hk.key hc) (.null hn) (.close he)
  | unset ht => exact .null ht
  | stackSize ht => exact .number (.plain (unsigned_of_whole (whole_toDigits _))) ht

theorem Gives.blank {t b : List Char} {s : Setting} (h : Gives t s) (hb : Blank b) :
    Gives (b ++ t) s := by
  cases h with
  | name ht => exact .name (ht.blank hb)
  | priority ht => exact .priority (ht.blank hb)
  | variant ho hk hc hn he => simpa using Gives.variant (ho.blank hb) hk hc hn he
  | unset ht => exact .unset (ht.blank hb)
  | stackSize ht => exact .stackSize (ht.blank hb)

theorem Items.clear {α : Type} {P : List Char → α → Prop} {b : Bracket} {t : List Char}
    {l : List α} (h : Items P b.close false t l) (rest : List Char) : Clear (t ++ rest) := by
  cases h with
  | close hc => exact hc.clear (clear_close b) rest
  | item hs hm ht =>
      cases hs with
      | comma hc =>
          simp only [List.append_assoc]
          exact hc.clear (by rintro _ ⟨⟩; decide) _

end QueueWorker.Settings
