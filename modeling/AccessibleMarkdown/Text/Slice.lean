/-! Parts of a text by byte position. -/

namespace AccessibleMarkdown.Text

/-- The part of `text` from one byte position to another. There is none where a position is inside a
character or behind the end, or where the two are in the wrong order. -/
def slice? (text : String) (start stop : Nat) : Option String := do
  let first ← text.pos? ⟨start⟩
  let last ← text.pos? ⟨stop⟩
  if start ≤ stop then return text.extract first last else none

theorem pos?_eq_some_iff {text : String} {i : Nat} {p : text.Pos} :
    text.pos? ⟨i⟩ = some p ↔ p.offset = ⟨i⟩ := by
  unfold String.pos? String.Slice.pos?
  constructor
  · intro h
    split at h
    · cases h
      rfl
    · cases h
  · intro h
    have hvalid : String.Pos.Raw.isValidForSlice text.toSlice ⟨i⟩ = true :=
      String.Pos.Raw.isValidForSlice_eq_true_iff.mpr (h ▸ p.isValid.toSlice)
    rw [dif_pos hvalid, Option.map_some, Option.some_inj]
    exact String.Pos.ext h.symm

theorem extract_eq_of_splits {text a b c : String} {p q : text.Pos} (hp : p.Splits a (b ++ c))
    (hq : q.Splits (a ++ b) c) : text.extract p q = b := by
  have hbytes : text.toByteArray = (a ++ b).toByteArray ++ c.toByteArray := by
    rw [hq.eq_append, String.toByteArray_append]
  apply String.toByteArray_inj.mp
  rw [String.toByteArray_extract, hp.offset_eq_rawEndPos, hq.offset_eq_rawEndPos, hbytes]
  show ((a ++ b).toByteArray ++ c.toByteArray).extract a.toByteArray.size
      (a ++ b).toByteArray.size = _
  rw [ByteArray.extract_append_size_left, String.toByteArray_append]
  exact ByteArray.extract_append_eq_right rfl ByteArray.size_append

/-- A part is what stands between two texts, and its positions are where these end and start. -/
theorem slice?_eq_some_iff {text part : String} {start stop : Nat} :
    slice? text start stop = some part ↔
      ∃ a c, text = a ++ part ++ c ∧ start = a.utf8ByteSize ∧ stop = (a ++ part).utf8ByteSize := by
  simp only [slice?, bind, Option.bind_eq_some_iff, pos?_eq_some_iff]
  constructor
  · rintro ⟨p, hp, q, hq, h⟩
    split at h
    · rename_i hle
      cases h
      have hpq : p ≤ q := by
        rw [String.Pos.le_iff, hp, hq]
        exact hle
      obtain ⟨b, hb, hc⟩ := (p.splits.le_iff_exists_eq_append q.splits).mp hpq
      have hpart := extract_eq_of_splits (hc ▸ p.splits) (hb ▸ q.splits)
      refine ⟨_, _, hpart ▸ hb ▸ q.splits.eq_append, ?_, ?_⟩
      · rw [← String.byteIdx_rawEndPos, ← p.splits.offset_eq_rawEndPos, hp]
      · rw [hpart, ← hb, ← String.byteIdx_rawEndPos, ← q.splits.offset_eq_rawEndPos, hq]
    · cases h
  · rintro ⟨a, c, rfl, rfl, rfl⟩
    have hp : String.Pos.Raw.IsValid (a ++ part ++ c) a.rawEndPos :=
      String.Pos.Raw.isValid_iff_exists_append.mpr ⟨a, part ++ c, String.append_assoc, rfl⟩
    have hq : String.Pos.Raw.IsValid (a ++ part ++ c) (a ++ part).rawEndPos :=
      String.Pos.Raw.isValid_iff_exists_append.mpr ⟨a ++ part, c, rfl, rfl⟩
    refine ⟨⟨_, hp⟩, rfl, ⟨_, hq⟩, rfl, ?_⟩
    rw [if_pos (by simp), extract_eq_of_splits ⟨String.append_assoc, rfl⟩ ⟨rfl, rfl⟩]
    rfl
end AccessibleMarkdown.Text
