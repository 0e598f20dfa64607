import QueueWorker.Proofs.Settings.Document

namespace QueueWorker.Settings

open Json

theorem member_keyed {v : List Char} {s : Setting} (hv : Gives v s) :
    Member (keyed s.field v) (some s) := by
  have h := Member.known (quoted_writeText s.field.key) (.self [':']) hv
  rwa [List.append_assoc] at h

theorem gives_writeStackSize (n : Option UInt64) : Gives (writeStackSize n) (.stackSize n) := by
  cases n with
  | none => exact .unset (.self _)
  | some n => exact .stackSize (.self _)

def parts (c : Settings) : List Setting :=
  [.name c.name, .priority c.priority, .stackSize c.stackSize]

theorem document_write (c : Settings) : Document c.write c.parts := by
  have comma : Separator false [','] := .comma (.self _)
  have members := Items.item .first (member_keyed (.name (quoted_writeText c.name)))
    (.item comma (member_keyed (.priority (quoted_writeText c.priority.key)))
      (.item comma (member_keyed (gives_writeStackSize c.stackSize)) (.close (.self ['\x7d']))))
  have h := Document.object (.self ['\x7b']) members blank_nil
  simpa [write, parts, Setting.field] using h

theorem document_toJson (c : Settings) : document read c.toJson = .ok c := by
  refine document_eq_ok_iff.mpr ⟨c.parts, ?_, nodup_of_prefix (List.prefix_refl Field.all), rfl⟩
  rw [toJson, String.toList_ofList]
  exact c.document_write

theorem ofJson_toJson (c : Settings) : ofJson c.toJson = c.check.map (fun _ => c) := by
  rw [ofJson_eq, document_toJson]
  rfl

/-- Reading back what has been written gives the settings themselves, or what is wrong with them.
What has once been read is always read back. -/
theorem reload_written :
    (∀ c : Settings, c.check = .ok () → ofJson c.toJson = .ok c) ∧
      (∀ (c : Settings) (f : Fault), c.check = .error f →
        ofJson c.toJson = .error f ∧ ∀ m, f ≠ .setting "json" m) ∧
      ∀ (text : String) (c : Settings), ofJson text = .ok c → ofJson c.toJson = .ok c := by
  have reload (c : Settings) (h : c.check = .ok ()) : ofJson c.toJson = .ok c := by
    rw [ofJson_toJson, h]
    rfl
  refine ⟨reload, fun c f h => ⟨?_, ?_⟩, fun text c h => reload c (check_of_ofJson h).2⟩
  · rw [ofJson_toJson, h]
    rfl
  · rintro m rfl
    obtain ⟨_, h | h⟩ := parameter_of_check h
    · exact absurd (Fault.setting.inj h).1 (by decide)
    · exact absurd (Fault.setting.inj h).1 (by decide)

def escaped : Settings := (named "a\"\n\x01é").lowPriority.withStackSize 18446744073709551615

theorem reload_written_escaped :
    (escaped.check = .ok () ∧ ofJson escaped.toJson = .ok escaped) ∧
      ofJson ((named "a\x00b").toJson) = .error (.setting "name" "must not contain NUL bytes") ∧
      ofJson "[]" = .ok {} ∧ ofJson ({} : Settings).toJson = .ok {} := by
  have hc : escaped.check = .ok () := by decide
  have hn : (named "a\x00b").check = .error (.setting "name" "must not contain NUL bytes") := by
    decide
  have hd : Document ("[]").toList [] := .list (o := ['[']) (w := []) (.self _) (.close (.self _))
    List.nil_prefix blank_nil
  have hr : ofJson "[]" = .ok {} := by
    rw [ofJson_eq, document_eq_ok_iff.mpr ⟨[], hd, .nil, rfl⟩]
    rfl
  exact ⟨⟨hc, reload_written.1 escaped hc⟩, (reload_written.2.1 _ _ hn).1, hr,
    reload_written.2.2 _ _ hr⟩

end QueueWorker.Settings
