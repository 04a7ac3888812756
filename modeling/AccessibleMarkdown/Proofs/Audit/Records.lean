import AccessibleMarkdown.Audit.Diagnostic
import AccessibleMarkdown.Proofs.Json.Compact

/-!
# Records of diagnostics

The JSON text of a list of diagnostics loses nothing: lists with the same text have the same
diagnostics in the same order. The text of a path is part of it, and tells the path.
-/

namespace AccessibleMarkdown

/-! ## 1. Paths -/

namespace Path

/-- Every index after a slash. -/
def steps (indices : List Nat) : List Char := indices.flatMap fun i => '/' :: Nat.toDigits 10 i

theorem toList_toText (p : Path) :
    p.toText.toList = if p.indices.isEmpty then ['/'] else steps p.indices := by
  unfold toText
  split
  · rfl
  · simp [String.toList_join, List.flatMap_map, steps, Nat.toString_eq_repr, Nat.toList_repr]

theorem steps_injective : Function.Injective steps := by
  -- Digits end at a slash or with the text.
  have hslash : ∀ indices, ∀ c ∈ (steps indices).head?, ¬ (Text.digitValue? c).isSome := by
    intro indices c hc
    cases indices with
    | nil => cases hc
    | cons i rest =>
      obtain rfl : '/' = c := Option.some.inj hc
      decide
  have hdigits : ∀ i, ∀ c ∈ Nat.toDigits 10 i, (Text.digitValue? c).isSome :=
    Text.isSome_digitValue?_of_mem_toDigits (by decide) (by decide)
  intro l m h
  induction l generalizing m with
  | nil =>
    cases m with
    | nil => rfl
    | cons j m => cases h
  | cons i l ih =>
    cases m with
    | nil => cases h
    | cons j m =>
      obtain ⟨hij, hrest⟩ :=
        Text.run_inj (hdigits i) (hdigits j) (hslash l) (hslash m) (List.cons.inj h).2
      have hnumber := congrArg (Text.ofDigits 10) hij
      rw [Text.ofDigits_toDigits (by decide) (by decide),
        Text.ofDigits_toDigits (by decide) (by decide)] at hnumber
      rw [hnumber, ih hrest]

/-- The text of a path tells the path; the lone slash is the text of none but the top. -/
theorem toText_injective : Function.Injective toText := by
  have hlone : ∀ i rest, steps (i :: rest) ≠ ['/'] := by
    intro i rest h
    have hnil := (List.cons.inj h).2
    exact Nat.toDigits_ne_nil (List.append_eq_nil_iff.mp hnil).1
  rintro ⟨l⟩ ⟨m⟩ h
  have hchars := congrArg String.toList h
  rw [toList_toText, toList_toText] at hchars
  cases l with
  | nil =>
    cases m with
    | nil => rfl
    | cons j m => exact absurd hchars.symm (hlone j m)
  | cons i l =>
    cases m with
    | nil => exact absurd hchars (hlone i l)
    | cons j m => exact congrArg Path.mk (steps_injective hchars)

end Path

/-! ## 2. Diagnostics -/

namespace Audit

theorem Criterion.toText_injective : Function.Injective Criterion.toText := by
  intro c c' h
  revert h
  cases c <;> cases c' <;> decide

theorem Severity.name_injective : Function.Injective Severity.name := by
  intro s s' h
  revert h
  cases s <;> cases s' <;> decide

theorem Diagnostic.toJson_injective : Function.Injective Diagnostic.toJson := by
  rintro ⟨rule, criterion, severity, message, path⟩
    ⟨rule', criterion', severity', message', path'⟩ h
  simp only [Diagnostic.toJson, Json.obj.injEq, List.cons.injEq, Prod.mk.injEq, Json.str.injEq,
    true_and, and_true] at h
  obtain ⟨rfl, hcriterion, hseverity, rfl, hpath⟩ := h
  obtain rfl := Severity.name_injective hseverity
  obtain rfl := Path.toText_injective hpath
  have hsame : criterion = criterion' := by
    cases criterion with
    | none =>
      cases criterion' with
      | none => rfl
      | some c' => cases hcriterion
    | some c =>
      cases criterion' with
      | none => cases hcriterion
      | some c' => rw [Criterion.toText_injective (Json.str.inj hcriterion)]
  rw [hsame]

/-- **Records.** Diagnostics have the same JSON text if and only if they are the same, in the same
order. Strings are written character by character, and no character changes but the quote, the
backslash and the controls below U+0020; no two paths are written alike. -/
theorem compact_toJson_inj :
    (∀ ds ds' : Diagnostics,
      (Diagnostics.toJson ds).compact = (Diagnostics.toJson ds').compact ↔ ds = ds') ∧
      (∀ text, (Json.str text).compact.toList = '"' :: (text.toList.flatMap Json.escape ++ ['"'])) ∧
      (∀ c, Json.escape c = [c] ↔ c ≠ '"' ∧ c ≠ '\\' ∧ 0x20 ≤ c.toNat) ∧
      Function.Injective Path.toText := by
  refine ⟨fun ds ds' => ⟨fun h => ?_, fun h => h ▸ rfl⟩, Json.toList_quote, Json.escape_eq_self_iff,
    Path.toText_injective⟩
  have hitems := Json.arr.inj (Json.compact_injective h)
  exact Array.toList_inj.mp
    ((List.map_inj_right fun _ _ hd => Diagnostic.toJson_injective hd).mp hitems)

end Audit

end AccessibleMarkdown
