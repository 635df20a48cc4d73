/-
# Values in files

What a program reads as a value of JSON is the text of a file.  There are two ways for a file to
fail it for good (`Spoiled`): its bytes are no text, or its text goes beyond a bound of the machine.
Any other file has a text that denotes a value or does not (`spoiled_or_text`).

A text is read with every line break as a line feed, which changes neither its value nor the bounds
it meets (`Json.read_alike`).
-/
import Mathlib.Tactic.Lemma
import PhpCatalog.Abort
import PhpCatalog.Proofs.Json.Breaks
import PhpCatalog.Proofs.Volume.Writing

namespace PhpCatalog.Volume

/-- A file that cannot be read as a value or as none, and what reading it crashes with. -/
inductive Spoiled (m : Json.Machine) (v : Volume) (p : Path) : Crash → Prop where
  /-- The bytes are no text in UTF-8. -/
  | encoding {bytes : ByteArray} (place : v.locate p = .ok (.file bytes))
      (invalid : ¬ bytes.IsValidUTF8) : Spoiled m v p .encoding
  /-- The text goes beyond a bound. -/
  | limit {bytes : ByteArray} {text : String} {l : Json.Limit}
      (place : v.locate p = .ok (.file bytes)) (text_eq : String.fromUTF8? bytes = some text)
      (stops : m.read text.toList = .error (.limit l)) : Spoiled m v p (.limit l)

variable {m : Json.Machine} {v : Volume} {p : Path} {bytes : ByteArray}

lemma fromUTF8?_toUTF8 (s : String) : String.fromUTF8? s.toUTF8 = some s := by
  rw [String.toUTF8_eq_toByteArray, String.fromUTF8?, dif_pos s.isValidUTF8]
  rfl

lemma readText_of_file (h : v.locate p = .ok (.file bytes)) {text : String}
    (htext : String.fromUTF8? bytes = some text) :
    v.readText p = .ok (String.ofList (Text.unifyBreaks text.toList)) := by
  simp [readText, read_eq_ok_iff.mpr h, htext]

lemma Spoiled.locate {c : Crash} (h : Spoiled m v p c) :
    ∃ bytes, v.locate p = .ok (.file bytes) := by
  cases h with
  | encoding place => exact ⟨_, place⟩
  | limit place => exact ⟨_, place⟩

/-- How a spoiled file shows: it has no text, or one that meets a bound. -/
lemma Spoiled.readText_cases {c : Crash} (h : Spoiled m v p c) :
    (v.readText p = .error .encoding ∧ c = .encoding) ∨
    ∃ text l, v.readText p = .ok text ∧ m.read text.toList = .error (.limit l) ∧ c = .limit l := by
  cases h with
  | encoding place invalid =>
    refine Or.inl ⟨?_, rfl⟩
    have htext : String.fromUTF8? _ = none := dif_neg invalid
    simp [readText, read_eq_ok_iff.mpr place, htext]
  | limit place text_eq stops =>
    refine Or.inr ⟨_, _, readText_of_file place text_eq, ?_, rfl⟩
    rw [String.toList_ofList]
    exact (Json.read_unifyBreaks_limit_iff _ _).mpr stops

lemma spoiled_or_text (m : Json.Machine) (h : v.locate p = .ok (.file bytes)) :
    (∃ c, Spoiled m v p c) ∨
    ∃ text, String.fromUTF8? bytes = some text ∧ ∀ l, m.read text.toList ≠ .error (.limit l) := by
  by_cases hvalid : bytes.IsValidUTF8
  · have htext : String.fromUTF8? bytes = some (String.fromUTF8 bytes hvalid) := dif_pos hvalid
    by_cases hlimit : ∃ l, m.read (String.fromUTF8 bytes hvalid).toList = .error (.limit l)
    · obtain ⟨l, hlimit⟩ := hlimit
      exact Or.inl ⟨_, .limit h htext hlimit⟩
    · exact Or.inr ⟨_, htext, not_exists.mp hlimit⟩
  · exact Or.inl ⟨_, .encoding h hvalid⟩

end PhpCatalog.Volume
