import AccessibleMarkdown.Proofs.Element.Attributes
import Mathlib.Data.List.Nodup
import Mathlib.Data.List.Perm.Subperm

/-!
# Agreement of attributes

Two collections are compared by their sizes, and by whether the second has what is in the first.
Since no name comes twice, that is enough for them to hold the same: which of them comes first does
not matter, nor in which order or by which steps they were filled.
-/

namespace AccessibleMarkdown

namespace Attributes

variable {a b : Attributes} {name other value : String}

/-! ## 1. What a collection holds -/

theorem mem_toList_iff (a : Attributes) (name value : String) :
    (name, value) ∈ a.toList ↔ a.get? name = some value := by
  obtain ⟨before, old, after, hfinds⟩ | hmisses := a.indexed.finds_or_misses name
  · have hbefore : ∀ v, (name, v) ∉ before.map Attribute.pair := fun v hmem =>
      AttributeTable.forall_pair_ne hfinds.before_ne _ hmem rfl
    have hafter : ∀ v, (name, v) ∉ after.map Attribute.pair := fun v hmem =>
      AttributeTable.forall_pair_ne hfinds.after_ne _ hmem rfl
    rw [get?, hfinds.get?_eq, toList, AttributeTable.toList_of_split hfinds.entries,
      List.mem_append, List.mem_cons]
    simp [hbefore, hafter, eq_comm]
  · have hnone : (name, value) ∉ a.toList := fun hmem => hmisses.pair_ne _ hmem rfl
    rw [get?, hmisses.get?_eq]
    simp [hnone]

theorem nodup_toList (a : Attributes) : a.toList.Nodup :=
  List.Nodup.of_map Prod.fst a.indexed.nodup_names

theorem length_toList (a : Attributes) : a.toList.length = a.size := a.indexed.reads.size.symm

/-! ## 2. The comparison -/

theorem agrees_iff_subset : a.agrees b = true ↔ a.size = b.size ∧ a.toList ⊆ b.toList := by
  have hall : (∀ e ∈ a.entries, b.get? e.name = some e.value) ↔ a.toList ⊆ b.toList := by
    show _ ↔ a.entries.toList.map Attribute.pair ⊆ b.toList
    simp only [List.subset_def, List.forall_mem_map, Array.mem_toList_iff, Attribute.pair,
      mem_toList_iff]
  simp only [agrees, Bool.and_eq_true, beq_iff_eq, Array.all_eq_true_iff_forall_mem, hall]

/-- A list without repetitions that is inside another one of the same length holds all of it. -/
theorem agrees_iff_perm : a.agrees b = true ↔ a.toList.Perm b.toList := by
  rw [agrees_iff_subset, ← length_toList, ← length_toList]
  constructor
  · rintro ⟨hlen, hsub⟩
    exact (a.nodup_toList.subperm hsub).perm_of_length_le (Nat.le_of_eq hlen.symm)
  · intro hperm
    exact ⟨hperm.length_eq, hperm.subset⟩

theorem agrees_iff_mem : a.agrees b = true ↔ ∀ pair, pair ∈ a.toList ↔ pair ∈ b.toList := by
  rw [agrees_iff_perm, List.perm_ext_iff_of_nodup a.nodup_toList b.nodup_toList]

theorem agrees_iff_get? : a.agrees b = true ↔ ∀ name, a.get? name = b.get? name := by
  rw [agrees_iff_mem]
  constructor
  · intro h name
    apply Option.ext
    intro value
    rw [← mem_toList_iff, ← mem_toList_iff, h]
  · rintro h ⟨name, value⟩
    rw [mem_toList_iff, mem_toList_iff, h]

/-! ## 3. Steps -/

/-- What is taken out is gone, and nothing else. -/
theorem mem_toList_erase {pair : String × String} :
    pair ∈ (a.erase name).toList ↔ pair ∈ a.toList ∧ pair.1 ≠ name := by
  rw [toList_erase]
  obtain ⟨before, old, after, hfinds⟩ | hmisses := a.indexed.finds_or_misses name
  · have hbefore := AttributeTable.forall_pair_ne hfinds.before_ne
    have hafter := AttributeTable.forall_pair_ne hfinds.after_ne
    rw [toList, AttributeTable.toList_of_split hfinds.entries, Pairs.remove_found hbefore]
    grind
  · have hkept : Pairs.remove name a.toList = a.toList := Pairs.remove_missed hmisses.pair_ne
    rw [hkept]
    exact ⟨fun hmem => ⟨hmem, hmisses.pair_ne pair hmem⟩, And.left⟩

theorem get?_erase (a : Attributes) (name other : String) :
    (a.erase name).get? other = if other = name then none else a.get? other := by
  apply Option.ext
  intro value
  rw [← mem_toList_iff, mem_toList_erase, mem_toList_iff]
  split
  · rename_i heq
    simp [heq]
  · rename_i hne
    simp [hne]

theorem get?_set (a : Attributes) (name value other : String) :
    (a.set name value).get? other = if other = name then some value else a.get? other := by
  split
  · rename_i heq
    rw [heq, get?_set_self]
  · rename_i hne
    exact get?_set_of_ne hne a value

/-- Both steps answer with the value that the name had before. -/
theorem answer_step (a : Attributes) (s : AttributeStep) : (a.step s).2 = a.get? s.name := by
  have hanswer : (a.step s).2 = (Pairs.step a.toList s).2 := congrArg Prod.snd (a.pairs_step s).symm
  rw [hanswer, get?, a.indexed.get?_eq]
  cases s <;> rfl

/-- What a step leads to and answers depends on what the collection holds, and not on how. -/
theorem agrees_step (h : a.agrees b = true) (s : AttributeStep) :
    (a.step s).1.agrees (b.step s).1 = true ∧ (a.step s).2 = (b.step s).2 := by
  have hget := agrees_iff_get?.mp h
  constructor
  · rw [agrees_iff_get?]
    intro name
    cases s with
    | set key value =>
      show (a.set key value).get? name = (b.set key value).get? name
      rw [get?_set, get?_set, hget]
    | remove key =>
      show (a.erase key).get? name = (b.erase key).get? name
      rw [get?_erase, get?_erase, hget]
  · rw [answer_step, answer_step, hget]

theorem agrees_run (h : a.agrees b = true) (steps : List AttributeStep) :
    (a.run steps).1.agrees (b.run steps).1 = true ∧ (a.run steps).2 = (b.run steps).2 := by
  induction steps generalizing a b with
  | nil => exact ⟨h, rfl⟩
  | cons s steps ih =>
    obtain ⟨hnext, hanswer⟩ := agrees_step h s
    obtain ⟨hlast, hanswers⟩ := ih hnext
    rw [run_cons, run_cons, hanswer, hanswers]
    exact ⟨hlast, rfl⟩

theorem equivalence_agrees : Equivalence fun a b : Attributes => a.agrees b = true where
  refl _ := agrees_iff_get?.mpr fun _ => rfl
  symm h := agrees_iff_get?.mpr fun name => (agrees_iff_get?.mp h name).symm
  trans h h' :=
    agrees_iff_get?.mpr fun name => (agrees_iff_get?.mp h name).trans (agrees_iff_get?.mp h' name)

/-! ## 4. Histories -/

theorem toList_run_ofList (pairs : Pairs) (steps : List AttributeStep) :
    ((ofList pairs).run steps).1.toList = (Pairs.run (.ofPairs pairs) steps).1 := by
  rw [← (ofPairs?_eq pairs).2, pairs_run]

/-- **Agreement.** Collections agree if and only if they hold the same names with the same values,
which is an equivalence. Those that agree read alike, answer alike in the same steps, and still
agree after them. So collections with histories of their own agree just if the association lists
with these histories are the same, up to order. -/
theorem agrees_same :
    (∀ a b : Attributes, a.agrees b = true ↔
      ∀ name value, (name, value) ∈ a.toList ↔ (name, value) ∈ b.toList) ∧
      Equivalence (fun a b : Attributes => a.agrees b = true) ∧
      (∀ a b : Attributes, a.agrees b = true → (∀ name, a.get? name = b.get? name) ∧
        ∀ steps : List AttributeStep,
          (a.run steps).1.agrees (b.run steps).1 = true ∧ (a.run steps).2 = (b.run steps).2) ∧
      ∀ (pairs pairs' : Pairs) (steps steps' : List AttributeStep),
        ((ofList pairs).run steps).1.agrees ((ofList pairs').run steps').1 = true ↔
          (Pairs.run (.ofPairs pairs) steps).1.Perm (Pairs.run (.ofPairs pairs') steps').1 := by
  refine ⟨fun a b => ?_, equivalence_agrees, fun a b h => ?_, fun pairs pairs' steps steps' => ?_⟩
  · rw [agrees_iff_mem, Prod.forall]
  · exact ⟨agrees_iff_get?.mp h, agrees_run h⟩
  · rw [agrees_iff_perm, toList_run_ofList, toList_run_ofList]

/-- Set in another order, and with a name that was there for a while. -/
example :
    ((ofList [("src", "y"), ("id", "z"), ("alt", "x")]).erase "id").agrees
      (ofList [("alt", "x"), ("src", "y")]) = true := by decide +kernel

end Attributes

end AccessibleMarkdown
