import AccessibleMarkdown.Text.CharSet

/-!
# Forms that end by themselves

A value is written in front of other text. If no form is the beginning of another one, then the
value and the text behind it are both known from the whole. Lists of such forms, closed by a
character that no form begins with, end by themselves again.
-/

namespace AccessibleMarkdown.Text

variable {α : Type} {write : α → List Char} {a b : α} {close sep : Char}

/-! ## 1. Runs -/

/-- A run of things of one kind ends where one comes that is not of that kind. -/
theorem run_inj {β : Type} {p : β → Prop} {l m s t : List β} (hl : ∀ c ∈ l, p c) (hm : ∀ c ∈ m, p c)
    (hs : ∀ c ∈ s.head?, ¬ p c) (ht : ∀ c ∈ t.head?, ¬ p c) (h : l ++ s = m ++ t) :
    l = m ∧ s = t := by
  induction l generalizing m with
  | nil =>
    cases m with
    | nil => exact ⟨rfl, h⟩
    | cons d m =>
      rw [List.nil_append] at h
      exact absurd (hm d List.mem_cons_self) (hs d (by rw [h]; rfl))
  | cons c l ih =>
    cases m with
    | nil =>
      rw [List.nil_append] at h
      exact absurd (hl c List.mem_cons_self) (ht c (by rw [← h]; rfl))
    | cons d m =>
      obtain ⟨rfl, hrest⟩ := List.cons.inj h
      obtain ⟨rfl, hst⟩ := ih (fun c hc => hl c (List.mem_cons_of_mem _ hc))
        (fun c hc => hm c (List.mem_cons_of_mem _ hc)) hrest
      exact ⟨rfl, hst⟩

/-! ## 2. Forms -/

/-- In front of any texts, the forms of `a` and `b` can be told from each other and from what is
behind. -/
def Delimits (write : α → List Char) (a b : α) : Prop :=
  ∀ s t, write a ++ s = write b ++ t → a = b ∧ s = t

/-- What is read back from the front of every text delimits itself. -/
theorem delimits_of_read (read : List Char → Option (α × List Char))
    (h : ∀ a s, read (write a ++ s) = some (a, s)) (a b : α) : Delimits write a b := by
  intro s t heq
  have hread := h a s
  rw [heq, h b t, Option.some.injEq, Prod.mk.injEq] at hread
  exact ⟨hread.1.symm, hread.2.symm⟩

theorem Delimits.eq (h : Delimits write a b) (heq : write a = write b) : a = b :=
  (h [] [] (congrArg (· ++ []) heq)).1

theorem Delimits.append_left (h : Delimits write a b) (opening : List Char) :
    Delimits (fun a => opening ++ write a) a b := by
  intro s t heq
  rw [List.append_assoc, List.append_assoc, List.append_cancel_left_eq] at heq
  exact h s t heq

/-! ## 3. Lists -/

/-- One form after the other, up to a character that none begins with. -/
theorem delimits_flatMap (hopen : ∀ a s t, write a ++ s ≠ close :: t) {l m : List α}
    (h : ∀ a ∈ l, ∀ b ∈ m, Delimits write a b) :
    Delimits (fun l => l.flatMap write ++ [close]) l m := by
  intro s t heq
  simp only [List.append_assoc, List.singleton_append] at heq
  -- On both lists at once: the first forms end at the same place, and so the rests begin there.
  induction l generalizing m with
  | nil =>
    cases m with
    | nil => exact ⟨rfl, (List.cons.inj heq).2⟩
    | cons b m =>
      rw [List.flatMap_nil, List.flatMap_cons, List.append_assoc] at heq
      exact absurd heq.symm (hopen b _ _)
  | cons a l ih =>
    cases m with
    | nil =>
      rw [List.flatMap_nil, List.flatMap_cons, List.append_assoc] at heq
      exact absurd heq (hopen a _ _)
    | cons b m =>
      rw [List.flatMap_cons, List.flatMap_cons, List.append_assoc, List.append_assoc] at heq
      obtain ⟨rfl, hrest⟩ := h a List.mem_cons_self b List.mem_cons_self _ _ heq
      have htail : ∀ a' ∈ l, ∀ b' ∈ m, Delimits write a' b' := fun a' ha b' hb =>
        h a' (List.mem_cons_of_mem _ ha) b' (List.mem_cons_of_mem _ hb)
      obtain ⟨rfl, hst⟩ := ih htail hrest
      exact ⟨rfl, hst⟩

theorem intercalate_map_cons (sep : Char) (write : α → List Char) (a : α) (l : List α) :
    [sep].intercalate ((a :: l).map write) = write a ++ l.flatMap fun b => sep :: write b := by
  induction l generalizing a with
  | nil => simp
  | cons b l ih =>
    rw [List.map_cons, List.map_cons, List.intercalate_cons_cons, ← List.map_cons, ih,
      List.flatMap_cons]
    simp

/-- The same with a separator between the forms. -/
theorem delimits_intercalate (hsep : sep ≠ close) (hopen : ∀ a s t, write a ++ s ≠ close :: t)
    {l m : List α} (h : ∀ a ∈ l, ∀ b ∈ m, Delimits write a b) :
    Delimits (fun l => [sep].intercalate (l.map write) ++ [close]) l m := by
  have hseparated : ∀ (b : α) s t, (sep :: write b) ++ s ≠ close :: t := by
    intro b s t heq
    exact hsep (List.cons.inj heq).1
  intro s t heq
  cases l with
  | nil =>
    cases m with
    | nil => exact ⟨rfl, (List.cons.inj heq).2⟩
    | cons b m =>
      simp only [intercalate_map_cons, List.append_assoc] at heq
      exact absurd heq.symm (hopen b _ _)
  | cons a l =>
    cases m with
    | nil =>
      simp only [intercalate_map_cons, List.append_assoc] at heq
      exact absurd heq (hopen a _ _)
    | cons b m =>
      simp only [intercalate_map_cons, List.append_assoc] at heq
      obtain ⟨rfl, hrest⟩ := h a List.mem_cons_self b List.mem_cons_self _ _ heq
      -- What is left is a list in which each form begins with the separator.
      have hlist : Delimits (fun l => (l.flatMap fun b => [sep] ++ write b) ++ [close]) l m :=
        delimits_flatMap hseparated fun a' ha b' hb =>
          (h a' (List.mem_cons_of_mem _ ha) b' (List.mem_cons_of_mem _ hb)).append_left [sep]
      simp only [← List.append_assoc] at hrest
      obtain ⟨rfl, hst⟩ := hlist s t hrest
      exact ⟨rfl, hst⟩

/-! ## 4. Numbers -/

theorem digitValue?_digitChar {n : Nat} (h : n < 16) : digitValue? n.digitChar = some n := by
  have hall : ∀ n < 16, digitValue? (Nat.digitChar n) = some n := by decide
  exact hall n h

theorem isSome_digitValue?_of_mem_toDigits {base : Nat} (h₁ : 1 < base) (h₂ : base ≤ 16) (n : Nat) :
    ∀ c ∈ Nat.toDigits base n, (digitValue? c).isSome := by
  induction n using Nat.strongRecOn with
  | ind n ih =>
    rw [Nat.toDigits_eq_if h₁]
    split
    · rename_i hlt
      simp [digitValue?_digitChar (Nat.lt_of_lt_of_le hlt h₂)]
    · rename_i hge
      have hsmall : n / base < n := Nat.div_lt_self (by omega) h₁
      have hlast : n % base < 16 := Nat.lt_of_lt_of_le (Nat.mod_lt n (by omega)) h₂
      intro c hc
      obtain hc | hc := List.mem_append.mp hc
      · exact ih _ hsmall c hc
      · rw [List.mem_singleton.mp hc, digitValue?_digitChar hlast]
        rfl

/-- The digits of a number spell it. -/
theorem ofDigits_toDigits {base : Nat} (h₁ : 1 < base) (h₂ : base ≤ 16) (n : Nat) :
    ofDigits base (Nat.toDigits base n) = n := by
  induction n using Nat.strongRecOn with
  | ind n ih =>
    rw [Nat.toDigits_eq_if h₁]
    split
    · rename_i hlt
      simp [ofDigits, digitValue?_digitChar (Nat.lt_of_lt_of_le hlt h₂)]
    · rename_i hge
      have hsmall : n / base < n := Nat.div_lt_self (by omega) h₁
      have hlast : n % base < 16 := Nat.lt_of_lt_of_le (Nat.mod_lt n (by omega)) h₂
      have hfront := ih _ hsmall
      rw [ofDigits] at hfront ⊢
      rw [List.foldl_append, hfront, List.foldl_cons, List.foldl_nil, digitValue?_digitChar hlast,
        Option.getD_some, Nat.div_add_mod']

end AccessibleMarkdown.Text
