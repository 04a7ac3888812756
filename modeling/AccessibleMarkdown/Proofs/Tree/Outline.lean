import AccessibleMarkdown.Proofs.Tree.Order
import AccessibleMarkdown.Tree.Outline

/-!
# The lines of an outline

An outline is made of the lines of the nodes at and below its start, in document order. How far a
line is indented is known from how many nodes there are above its node.
-/

namespace AccessibleMarkdown

theorem mapM_eq_some_map {α β : Type} {f : α → Option β} {g : α → β} {l : List α}
    (h : ∀ a ∈ l, f a = some (g a)) : l.mapM f = some (l.map g) := by
  induction l with
  | nil => rfl
  | cons a l ih =>
    rw [List.mapM_cons, h a List.mem_cons_self, ih fun b hb => h b (List.mem_cons_of_mem _ hb)]
    rfl

theorem join_flatMap {α : Type} (f : α → List String) (l : List α) :
    String.join (l.flatMap f) = String.join (l.map fun a => String.join (f a)) := by
  induction l with
  | nil => rfl
  | cons a l ih => rw [List.flatMap_cons, String.join_append, List.map_cons, String.join_cons, ih]

namespace Tree

variable {t : Tree} {kids : NodeId → List NodeId} {id : NodeId}

/-- The line of a node, `depth` levels deep. -/
def line (t : Tree) (id : NodeId) (depth : Nat) : String :=
  match t.element? id with
  | none => ""
  | some e => String.ofList (List.replicate (2 * depth) ' ') ++ e.outline ++ "\n"

theorem outlineFrom?_succ (hid : id < t.size) {fuel depth : Nat} {below : List String}
    (hbelow : (t.children id).mapM (fun c => t.outlineFrom? fuel c (depth + 1)) = some below) :
    t.outlineFrom? (fuel + 1) id depth = some (t.line id depth ++ String.join below) := by
  obtain ⟨e, he⟩ := exists_element? hid
  rw [outlineFrom?, line, he]
  simp only
  rw [hbelow]
  rfl

namespace Linked

theorem length_ancestors_mono (h : t.Linked kids) {a : NodeId} (ha : t.Above a id) :
    (t.ancestors a).length ≤ (t.ancestors id).length := by
  induction id using h.climbs.induction with
  | h id ih =>
    obtain rfl | ⟨p, hp, hap⟩ := ha.cases
    · exact Nat.le_refl _
    · rw [h.ancestors_parent hp, List.length_cons]
      exact Nat.le_succ_of_le (ih p hp hap)

/-- The lines at and below a node; the node itself is `depth` levels deep. -/
theorem outlineFrom?_eq (h : t.Linked kids) (hid : id < t.size) (depth : Nat) {fuel : Nat}
    (hfuel : t.size < fuel + (t.ancestors id).length) :
    t.outlineFrom? fuel id depth = some (String.join ((t.preorder id).map fun k =>
      t.line k (depth + ((t.ancestors k).length - (t.ancestors id).length)))) := by
  -- From the leaves up: the outlines of the children come one after the other, a level deeper.
  induction id using h.bottom_up generalizing depth fuel with
  | step id ih =>
    have hlen := h.length_ancestors_le id
    obtain ⟨fuel, rfl⟩ : ∃ k, fuel = k + 1 := ⟨fuel - 1, by omega⟩
    have hbelow : (t.children id).mapM (fun c => t.outlineFrom? fuel c (depth + 1)) =
        some ((t.children id).map fun c => String.join ((t.preorder c).map fun k =>
          t.line k (depth + ((t.ancestors k).length - (t.ancestors id).length)))) := by
      apply mapM_eq_some_map
      intro c hc
      have hp := h.mem_children.mp hc
      have hdeep : (t.ancestors c).length = (t.ancestors id).length + 1 := by
        rw [h.ancestors_parent hp, List.length_cons]
      have hlines : ((t.preorder c).map fun k =>
            t.line k (depth + 1 + ((t.ancestors k).length - (t.ancestors c).length))) =
          (t.preorder c).map fun k =>
            t.line k (depth + ((t.ancestors k).length - (t.ancestors id).length)) := by
        apply List.map_congr_left
        intro k hk
        have hup := h.length_ancestors_mono (h.above_of_mem_visited hk).1
        rw [show depth + 1 + ((t.ancestors k).length - (t.ancestors c).length) =
          depth + ((t.ancestors k).length - (t.ancestors id).length) by omega]
      rw [ih c hp (lt_size_of_parent? hp) (depth + 1) (by omega), hlines]
    rw [outlineFrom?_succ hid hbelow, h.preorder_eq hid, List.map_cons, String.join_cons,
      List.map_flatMap, join_flatMap, Nat.sub_self, Nat.add_zero]

/-- As many levels as there are nodes are enough for an outline. -/
theorem outlineFrom?_enough (h : t.Linked kids) (id : NodeId) (depth : Nat) {fuel : Nat}
    (hfuel : t.size ≤ fuel) :
    t.outlineFrom? fuel id depth = some (String.join ((t.preorder id).map fun k =>
      t.line k (depth + ((t.ancestors k).length - (t.ancestors id).length)))) := by
  by_cases hid : id < t.size
  · have hpos := h.length_ancestors_pos hid
    exact h.outlineFrom?_eq hid depth (by omega)
  -- Where there is no node there is nothing to show, but to see that takes one unit of fuel.
  · have hpos := Nat.lt_of_lt_of_le (Nat.zero_lt_of_lt h.root_lt) hfuel
    have hmissing := Nat.le_of_not_lt hid
    obtain ⟨fuel, rfl⟩ : ∃ k, fuel = k + 1 := ⟨fuel - 1, by omega⟩
    rw [outlineFrom?, element?_eq_none_iff.mpr hmissing, preorder, visited_missing hmissing]
    rfl

end Linked

end Tree

end AccessibleMarkdown
