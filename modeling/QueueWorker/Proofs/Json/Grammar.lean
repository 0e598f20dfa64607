import Mathlib.Data.List.DropRight
import QueueWorker.Json.Skip

namespace QueueWorker.Json

def Blank (w : List Char) : Prop := ∀ c ∈ w, c = ' ' ∨ c = '\t' ∨ c = '\n' ∨ c = '\r'

instance (w : List Char) : Decidable (Blank w) := List.decidableBAll _ w

def Token (w t : List Char) : Prop := ∃ b, Blank b ∧ t = b ++ w

def Hex (c : Char) (n : Nat) : Prop :=
  n < 16 ∧ (c = Nat.digitChar n ∨ c = (Nat.digitChar n).toUpper)

instance (c : Char) (n : Nat) : Decidable (Hex c n) := inferInstanceAs (Decidable (_ ∧ _))

inductive Quad : List Char → Nat → Prop
  | digits {a b c d : Char} {i j k l : Nat} (ha : Hex a i) (hb : Hex b j) (hc : Hex c k)
      (hd : Hex d l) : Quad [a, b, c, d] (((i * 16 + j) * 16 + k) * 16 + l)

def letters : List (Char × Char) :=
  [('"', '"'), ('\\', '\\'), ('/', '/'), ('b', '\x08'), ('f', '\x0c'), ('n', '\n'), ('r', '\r'),
    ('t', '\t')]

def Plain (c : Char) : Prop := ' ' ≤ c ∧ c ≠ '"' ∧ c ≠ '\\'

instance (c : Char) : Decidable (Plain c) := inferInstanceAs (Decidable (_ ∧ _))

/-- The texts that stand for a character within a string. Beyond the first 65536 characters an
escape takes the two numbers that UTF-16 has for the character. -/
inductive Spelling : List Char → Char → Prop
  | plain {c : Char} (hc : Plain c) : Spelling [c] c
  | letter {l c : Char} (hl : (l, c) ∈ letters) : Spelling ['\\', l] c
  | numbered {q : List Char} {c : Char} (hq : Quad q c.toNat) : Spelling ('\\' :: 'u' :: q) c
  | paired {p q : List Char} {c : Char} (hc : 0x10000 ≤ c.toNat)
      (hp : Quad p (0xD800 + (c.toNat - 0x10000) / 0x400))
      (hq : Quad q (0xDC00 + (c.toNat - 0x10000) % 0x400)) :
      Spelling ('\\' :: 'u' :: p ++ '\\' :: 'u' :: q) c

inductive Spells : List Char → List Char → Prop
  | nil : Spells [] []
  | cons {a b s : List Char} {c : Char} (ha : Spelling a c) (hb : Spells b s) :
      Spells (a ++ b) (c :: s)

/-- What stands between the quotes of a string that nobody reads: the numbers of its escapes need
not make characters. -/
inductive Loose : List Char → Prop
  | nil : Loose []
  | plain {c : Char} {b : List Char} (hc : Plain c) (hb : Loose b) : Loose (c :: b)
  | letter {l c : Char} {b : List Char} (hl : (l, c) ∈ letters) (hb : Loose b) :
      Loose ('\\' :: l :: b)
  | numbered {q b : List Char} {n : Nat} (hq : Quad q n) (hb : Loose b) :
      Loose ('\\' :: 'u' :: q ++ b)

def Digits (ds : List Char) : Prop := ∀ d ∈ ds, d.isDigit

inductive Whole : List Char → Prop
  | zero : Whole ['0']
  | digits {d : Char} {ds : List Char} (hd : d.isDigit) (h0 : d ≠ '0') (hds : Digits ds) :
      Whole (d :: ds)

inductive Fraction : List Char → Prop
  | none : Fraction []
  | digits {d : Char} {ds : List Char} (hd : d.isDigit) (hds : Digits ds) :
      Fraction ('.' :: d :: ds)

inductive Power : List Char → Prop
  | none : Power []
  | digits {e d : Char} {s ds : List Char} (he : e = 'e' ∨ e = 'E') (hs : s ∈ [[], ['+'], ['-']])
      (hd : d.isDigit) (hds : Digits ds) : Power (e :: s ++ d :: ds)

inductive Unsigned : List Char → Prop
  | mk {w f p : List Char} (hw : Whole w) (hf : Fraction f) (hp : Power p) :
      Unsigned (w ++ f ++ p)

inductive Signed : List Char → Prop
  | plain {t : List Char} (ht : Unsigned t) : Signed t
  | minus {t : List Char} (ht : Unsigned t) : Signed ('-' :: t)

def Bracket.mark : Bracket → Char
  | list => '['
  | object => '\x7b'

inductive Key : Bracket → List Char → Prop
  | list : Key .list []
  | object {o b c : List Char} (ho : Token ['"'] o) (hb : Loose b) (hc : Token [':'] c) :
      Key .object (o ++ b ++ '"' :: c)

inductive Part
  | value
  | more (b : Bracket)

/-- The values of JSON, with blanks before each of their tokens, and what may follow a value inside
a bracket up to the end of that bracket. -/
inductive Written : Part → List Char → Prop
  | null {t : List Char} (ht : Token ['n', 'u', 'l', 'l'] t) : Written .value t
  | yes {t : List Char} (ht : Token ['t', 'r', 'u', 'e'] t) : Written .value t
  | no {t : List Char} (ht : Token ['f', 'a', 'l', 's', 'e'] t) : Written .value t
  | string {o b : List Char} (ho : Token ['"'] o) (hb : Loose b) : Written .value (o ++ b ++ ['"'])
  | number {n t : List Char} (hn : Signed n) (ht : Token n t) : Written .value t
  | empty {b : Bracket} {o c : List Char} (ho : Token [b.mark] o) (hc : Token [b.close] c) :
      Written .value (o ++ c)
  | filled {b : Bracket} {o k v m : List Char} (ho : Token [b.mark] o) (hk : Key b k)
      (hv : Written .value v) (hm : Written (.more b) m) : Written .value (o ++ k ++ v ++ m)
  | close {b : Bracket} {c : List Char} (hc : Token [b.close] c) : Written (.more b) c
  | next {b : Bracket} {c k v m : List Char} (hc : Token [','] c) (hk : Key b k)
      (hv : Written .value v) (hm : Written (.more b) m) : Written (.more b) (c ++ k ++ v ++ m)

theorem isBlank_iff {c : Char} : isBlank c ↔ c = ' ' ∨ c = '\t' ∨ c = '\n' ∨ c = '\r' := by
  simp [isBlank, or_assoc]

theorem blank_nil : Blank [] := List.forall_mem_nil _

theorem skipBlank_append {b : List Char} (hb : Blank b) (cs : List Char) :
    skipBlank (b ++ cs) = skipBlank cs :=
  List.dropWhile_append_of_pos (fun c hc => isBlank_iff.mpr (hb c hc))

theorem skipBlank_eq_nil_iff {cs : List Char} : skipBlank cs = [] ↔ Blank cs := by
  simp only [skipBlank, List.dropWhile_eq_nil_iff, isBlank_iff, Blank]

theorem exists_blank (cs : List Char) : ∃ b, Blank b ∧ cs = b ++ skipBlank cs :=
  ⟨cs.takeWhile isBlank, fun _ hc => isBlank_iff.mp (List.mem_takeWhile_imp hc),
    (List.takeWhile_append_dropWhile).symm⟩

theorem skipBlank_skipBlank (cs : List Char) : skipBlank (skipBlank cs) = skipBlank cs :=
  List.dropWhile_idempotent isBlank cs

namespace Token

variable {w t : List Char} {c : Char}

theorem self (w : List Char) : Token w w := ⟨[], blank_nil, rfl⟩

theorem append (ht : Token w t) (v : List Char) : Token (w ++ v) (t ++ v) := by
  obtain ⟨b, hb, rfl⟩ := ht
  exact ⟨b, hb, List.append_assoc b w v⟩

theorem blank {b : List Char} (hb : Blank b) (ht : Token w t) : Token w (b ++ t) := by
  obtain ⟨b', hb', rfl⟩ := ht
  refine ⟨b ++ b', ?_, (List.append_assoc b b' w).symm⟩
  intro c hc
  exact (List.mem_append.mp hc).elim (hb c) (hb' c)

theorem skipBlank (ht : Token (c :: w) t) (hc : isBlank c = false) (rest : List Char) :
    skipBlank (t ++ rest) = c :: (w ++ rest) := by
  obtain ⟨b, hb, rfl⟩ := ht
  rw [List.append_assoc, skipBlank_append hb]
  exact List.dropWhile_cons_of_neg (by simp [hc])

theorem of_skipBlank {cs rest : List Char} (h : Json.skipBlank cs = c :: rest) :
    ∃ t, Token [c] t ∧ cs = t ++ rest := by
  obtain ⟨b, hb, he⟩ := exists_blank cs
  refine ⟨b ++ [c], ⟨b, hb, rfl⟩, ?_⟩
  rw [List.append_assoc, List.singleton_append, ← h, ← he]

end Token

theorem Written.blank {t b : List Char} (h : Written .value t) (hb : Blank b) :
    Written .value (b ++ t) := by
  generalize hp : Part.value = p at h
  cases h with
  | null ht => exact .null (ht.blank hb)
  | yes ht => exact .yes (ht.blank hb)
  | no ht => exact .no (ht.blank hb)
  | string ho hl => simpa using Written.string (ho.blank hb) hl
  | number hn ht => exact .number hn (ht.blank hb)
  | empty ho hc => simpa using Written.empty (ho.blank hb) hc
  | filled ho hk hv hm => simpa using Written.filled (ho.blank hb) hk hv hm
  | close => contradiction
  | next => contradiction

end QueueWorker.Json
