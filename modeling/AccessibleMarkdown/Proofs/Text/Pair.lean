import AccessibleMarkdown.Text.Pair

/-!
# The first doubled character

Cutting a text at the first doubled character takes it apart into what stands before the pair, the
pair, and what stands after it; no other pair lies further to the left.
-/

namespace AccessibleMarkdown.Text

variable {c : Char} {text before after : List Char}

/-- A string is what stands before the pair, the pair, and what stands after it. -/
theorem eq_append_of_cutPair? {text : String} (h : cutPair? c text.toList = some (before, after)) :
    text = String.ofList before ++ String.ofList [c, c] ++ String.ofList after := by
  rw [← String.toList_inj, cutPair?_eq_some h, ← String.ofList_append, ← String.ofList_append,
    String.toList_ofList, List.append_assoc]
  rfl

/-- The cut is made at the leftmost pair: what stands after any pair stands after the cut. -/
theorem exists_cutPair? (c : Char) (a b : List Char) :
    ∃ x y, cutPair? c (a ++ c :: c :: b) = some (x, y) ∧ b <:+ y := by
  induction a with
  | nil => exact ⟨[], b, by rw [List.nil_append, cutPair?, if_pos ⟨rfl, rfl⟩], List.suffix_refl b⟩
  | cons d a ih =>
    obtain ⟨x, y, hxy, hsuffix⟩ := ih
    obtain ⟨e, rest, hrest, hb⟩ : ∃ e rest, a ++ c :: c :: b = e :: rest ∧ b <:+ rest := by
      cases a with
      | nil => exact ⟨c, c :: b, rfl, List.suffix_cons c b⟩
      | cons e a => exact ⟨e, a ++ c :: c :: b, rfl, ⟨a ++ [c, c], by simp⟩⟩
    rw [List.cons_append, hrest, cutPair?]
    -- The character put in front makes a pair further to the left, or none.
    by_cases hpair : d = c ∧ e = c
    · rw [if_pos hpair]
      exact ⟨[], rest, rfl, hb⟩
    · rw [if_neg hpair, ← hrest, hxy]
      exact ⟨d :: x, y, rfl, hsuffix⟩

theorem cutPair?_eq_none_iff : cutPair? c text = none ↔ ¬ [c, c] <:+: text := by
  constructor
  · rintro h ⟨a, b, rfl⟩
    obtain ⟨x, y, hxy, -⟩ := exists_cutPair? c a b
    rw [show a ++ [c, c] ++ b = a ++ c :: c :: b by simp, hxy] at h
    cases h
  · intro h
    rw [Option.eq_none_iff_forall_ne_some]
    rintro ⟨x, y⟩ hxy
    exact h ⟨x, y, by rw [cutPair?_eq_some hxy, List.append_assoc]; rfl⟩

/-- The text before the cut holds no pair, and its last character makes none with the pair that
follows. -/
theorem cutPair?_eq_some_iff : cutPair? c text = some (before, after) ↔
    text = before ++ c :: c :: after ∧ ¬ [c, c] <:+: before ∧ before.getLast? ≠ some c := by
  constructor
  · intro h
    have htext := cutPair?_eq_some h
    -- Behind every pair of the text there is no more than behind the cut.
    have hleft (a b : List Char) (hab : text = a ++ c :: c :: b) : b.length ≤ after.length := by
      obtain ⟨x, y, hxy, hsuffix⟩ := exists_cutPair? c a b
      rw [hab, hxy] at h
      cases h
      exact hsuffix.length_le
    refine ⟨htext, ?_, ?_⟩
    · rintro ⟨a, b, rfl⟩
      have hle := hleft a (b ++ c :: c :: after) (by simp [htext])
      rw [List.length_append, List.length_cons, List.length_cons] at hle
      omega
    · intro hlast
      obtain ⟨a, rfl⟩ := List.getLast?_eq_some_iff.mp hlast
      exact Nat.not_succ_le_self _ (hleft a (c :: after) (by simp [htext]))
  · rintro ⟨rfl, hpair, hlast⟩
    obtain ⟨x, y, hxy, hsuffix⟩ := exists_cutPair? c before after
    rw [hxy]
    obtain ⟨u, rfl, hu⟩ | ⟨u, rfl, hu⟩ := List.append_eq_append_iff.mp (cutPair?_eq_some hxy)
    · have hlength := congrArg List.length hu
      have := hsuffix.length_le
      simp only [List.length_append, List.length_cons] at hlength
      obtain rfl : u = [] := List.eq_nil_of_length_eq_zero (by omega)
      cases hu
      simp
    · match u with
      | [] =>
        cases hu
        simp
      | [d] =>
        cases hu
        exact absurd (by simp) hlast
      | d :: e :: u =>
        cases hu
        exact absurd ⟨x, u, by simp⟩ hpair

/-- What stands before the first pair makes no pair with anything that is put after it. -/
theorem cutPair?_before_append (h : cutPair? c text = some (before, after)) (w : List Char) :
    cutPair? c (before ++ w) = (cutPair? c w).map fun (x, y) => (before ++ x, y) := by
  fun_induction cutPair? c text generalizing before with
  | case1 a b rest hab =>
    cases h
    exact (Option.map_id' (x := cutPair? c w)).symm
  | case2 a b rest hab ih =>
    obtain ⟨⟨x, y⟩, hxy, heq⟩ := Option.map_eq_some_iff.mp h
    cases heq
    have htext := cutPair?_eq_some hxy
    -- The character after `a`, wherever it comes from, does not make a pair with it.
    have hcons :
        cutPair? c (a :: (x ++ w)) = (cutPair? c (x ++ w)).map fun (u, v) => (a :: u, v) := by
      cases x with
      | nil =>
        cases w with
        | nil => rfl
        | cons d w =>
          have ha : a ≠ c := fun ha => hab ⟨ha, (List.cons.inj htext).1⟩
          rw [List.nil_append, cutPair?, if_neg fun hp => ha hp.1]
      | cons d x =>
        obtain ⟨rfl, -⟩ := List.cons.inj htext
        rw [List.cons_append, cutPair?, if_neg hab]
    rw [List.cons_append, hcons, ih hxy, Option.map_map]
    rfl
  | case3 => cases h

/-- The first two adjacent `c` of a text, between what stands before them and what stands after
them: no pair starts further to the left. -/
def FirstPair (c : Char) (text before after : List Char) : Prop :=
  text = before ++ c :: c :: after ∧ ∀ a b, text = a ++ c :: c :: b → before.length ≤ a.length

theorem firstPair_iff : FirstPair c text before after ↔ cutPair? c text = some (before, after) := by
  constructor
  · rintro ⟨rfl, hleft⟩
    -- The cut is not further to the left, and what stands after the pair stands after the cut.
    obtain ⟨x, y, hxy, hsuffix⟩ := exists_cutPair? c before after
    have htext := cutPair?_eq_some hxy
    have hle := hleft x y htext
    have hlength := hsuffix.length_le
    have hsum := congrArg List.length htext
    simp only [List.length_append, List.length_cons] at hsum
    obtain ⟨rfl, hafter⟩ := List.append_inj htext (by omega)
    cases hafter
    exact hxy
  · intro h
    refine ⟨cutPair?_eq_some h, fun a b hab => ?_⟩
    obtain ⟨x, y, hxy, hsuffix⟩ := exists_cutPair? c a b
    rw [← hab, h] at hxy
    cases hxy
    have hlength := hsuffix.length_le
    have hsum := congrArg List.length ((cutPair?_eq_some h).symm.trans hab)
    simp only [List.length_append, List.length_cons] at hsum
    omega

end AccessibleMarkdown.Text
