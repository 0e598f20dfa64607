import Mathlib.Data.List.Nodup
import QueueWorker.Proofs.Settings.Document

namespace QueueWorker.Settings

open Json

theorem Setting.put_comm {a b : Setting} (h : a.field ≠ b.field) (c : Settings) :
    b.put (a.put c) = a.put (b.put c) := by
  cases a <;> cases b <;> first | rfl | exact absurd rfl h

theorem gather_perm {l l' : List Setting} (h : l.Perm l') (hn : (l.map Setting.field).Nodup) :
    Setting.gather l = Setting.gather l' := by
  refine h.foldl_eq' (fun a ha b hb c => ?_) _
  by_cases he : a = b
  · rw [he]
  · exact Setting.put_comm (fun hf => he (List.inj_on_of_nodup_map hn ha hb hf)) c

/-- What a text of the schema is read as depends on its settings alone. -/
theorem ofJson_of_document {text : String} {l : List Setting} (hd : Document text.toList l)
    (hn : (l.map Setting.field).Nodup) :
    ofJson text = (Setting.gather l).check.map (fun _ => Setting.gather l) := by
  rw [ofJson_eq, document_eq_ok_iff.mpr ⟨l, hd, hn, rfl⟩]
  rfl

theorem error_of_document {text : String} {f : Fault} (h : document read text = .error f) :
    ∃ r : Refusal, f = .setting "json" (r.message text.toList) := by
  unfold document at h
  split at h
  · next r _ =>
    cases h
    exact ⟨r, rfl⟩
  · split at h
    · contradiction
    · cases h
      exact ⟨_, rfl⟩

/-- A text is accepted if and only if it is of the schema, gives no setting twice and gives settings
that pass the check. What it is read as depends neither on the order of its settings nor on how they
are written. Any other text is refused, for a setting if it is of the schema, and as a text if it is
not. -/
theorem ofJson_iff_document :
    (∀ (text : String) (c : Settings), ofJson text = .ok c ↔
      ∃ l, Document text.toList l ∧ (l.map Setting.field).Nodup ∧ c = Setting.gather l ∧
        c.check = .ok ()) ∧
    (∀ (text text' : String) (l l' : List Setting), Document text.toList l →
      Document text'.toList l' → (l.map Setting.field).Nodup → l.Perm l' →
      ofJson text = ofJson text') ∧
    ∀ (text : String) (f : Fault), ofJson text = .error f →
      (∃ l m, Document text.toList l ∧ (l.map Setting.field).Nodup ∧
        (Setting.gather l).check = .error f ∧
        (f = .setting "name" m ∨ f = .setting "stack_size" m)) ∨
      ((¬∃ l, Document text.toList l ∧ (l.map Setting.field).Nodup) ∧
        ∃ r : Refusal, f = .setting "json" (r.message text.toList)) := by
  refine ⟨fun text c => ⟨?_, ?_⟩, ?_, ?_⟩
  · intro h
    obtain ⟨hd, hc⟩ := check_of_ofJson h
    obtain ⟨l, hd, hn, he⟩ := document_eq_ok_iff.mp hd
    exact ⟨l, hd, hn, he, hc⟩
  · rintro ⟨l, hd, hn, rfl, hc⟩
    rw [ofJson_of_document hd hn, hc]
    rfl
  · intro text text' l l' hd hd' hn hl
    have hn' : (l'.map Setting.field).Nodup := (hl.map Setting.field).nodup_iff.mp hn
    rw [ofJson_of_document hd hn, ofJson_of_document hd' hn', gather_perm hl hn]
  · intro text f h
    by_cases hl : ∃ l, Document text.toList l ∧ (l.map Setting.field).Nodup
    · obtain ⟨l, hd, hn⟩ := hl
      rw [ofJson_of_document hd hn] at h
      have hc : (Setting.gather l).check = .error f := by
        cases hc : (Setting.gather l).check with
        | ok => rw [hc] at h; contradiction
        | error g =>
            rw [hc] at h
            cases h
            rfl
      obtain ⟨m, hm⟩ := parameter_of_check hc
      exact .inl ⟨l, m, hd, hn, hc, hm⟩
    · refine .inr ⟨hl, ?_⟩
      rw [ofJson_eq] at h
      cases hd : document read text with
      | error g =>
          rw [hd] at h
          cases h
          exact error_of_document hd
      | ok c =>
          obtain ⟨l, hd, hn, -⟩ := document_eq_ok_iff.mp hd
          exact absurd ⟨l, hd, hn⟩ hl

def listed : String := " [\"w\",\"background\"] "

def membered : String :=
  "\x7b\"priority\":\x7b\"background\": null\x7d, \"x\":[0], \"n\\u0061me\":\"w\"\x7d"

theorem document_listed : Document listed.toList [.name "w", .priority .background] :=
  .list (o := [' ', '[']) (w := [' ']) ⟨[' '], by decide, rfl⟩
    (.item .first (.name (quoted_writeText "w")) (.item (.comma (.self _))
      (.priority (quoted_writeText (Priority.key .background))) (.close (.self _))))
    (by decide) (by decide)

theorem document_membered : Document membered.toList [.priority .background, .name "w"] := by
  have plain (c : Char) (hc : Plain c) : Spelling [c] c := .plain hc
  have letter : Quad ['0', '0', '6', '1'] ('a').toNat :=
    .digits (i := 0) (j := 0) (k := 6) (l := 1) (by decide) (by decide) (by decide) (by decide)
  have name : Spells ['n', '\\', 'u', '0', '0', '6', '1', 'm', 'e'] ['n', 'a', 'm', 'e'] :=
    .cons (plain 'n' (by decide)) (.cons (.numbered letter)
      (.cons (plain 'm' (by decide)) (.cons (plain 'e' (by decide)) .nil)))
  have background : Gives _ (.priority .background) :=
    .variant (.self _) (quoted_writeText _) (.self _) ⟨[' '], by decide, rfl⟩ (.self _)
  have zero : Written .value _ :=
    .filled (b := .list) (.self _) .list (.number (.plain (unsigned_of_whole .zero)) (.self _))
      (.close (.self _))
  have unknown : Member _ none :=
    .unknown (fun f => by cases f <;> decide)
      ((quoted_writeText "x").blank (b := [' ']) (by decide)) (.self _) zero
  have named : Member _ (some (.name "w")) :=
    .known (s := .name "w") (.mk ⟨[' '], by decide, rfl⟩ name) (.self _)
      (.name (quoted_writeText "w"))
  have h := Document.object (.self _)
    (.item .first (.known (quoted_writeText _) (.self _) background)
      (.item (.comma (.self _)) unknown (.item (.comma (.self _)) named (.close (.self _)))))
    blank_nil
  exact h

theorem ofJson_iff_document_listed :
    ofJson listed = .ok (named "w").lowPriority ∧ ofJson membered = ofJson listed ∧
      ofJson "" = .error ((Refusal.ahead (.ended .value) []).fault []) ∧
      ¬∃ l, Document [] l ∧ (l.map Setting.field).Nodup := by
  obtain ⟨accepts, same, refuses⟩ := ofJson_iff_document
  have empty : ofJson "" = .error ((Refusal.ahead (.ended .value) []).fault []) := rfl
  refine ⟨(accepts _ _).mpr ⟨_, document_listed, by decide, rfl, by decide⟩,
    same _ _ _ _ document_membered document_listed (by decide) (.swap _ _ _), empty, ?_⟩
  obtain ⟨_, _, _, _, _, h | h⟩ | ⟨none, -⟩ := refuses _ _ empty
  · exact absurd (Fault.setting.inj h).1 (by decide)
  · exact absurd (Fault.setting.inj h).1 (by decide)
  · exact none

end QueueWorker.Settings
