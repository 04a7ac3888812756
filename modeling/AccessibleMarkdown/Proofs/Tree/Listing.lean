import AccessibleMarkdown.Proofs.Tree.Coordinates

/-!
# Searches in the order of the outline

A search finds the nodes of its tag in document order: in the order of their paths, which is the
order in which the outline of the same start shows them.
-/

namespace AccessibleMarkdown.Tree

variable {t : Tree} {kids : NodeId → List NodeId} {start id : NodeId}

/-- A node is as deep as there are nodes above it. -/
theorem Linked.length_ancestors (h : t.Linked kids) (hid : id < t.size) :
    (t.ancestors id).length = (t.path id).depth + 1 := by
  induction id using h.climbs.induction with
  | h id ih =>
    cases hp : t.parent? id with
    | none => rw [Linked.ancestors_top hid hp, h.path_top hp]; rfl
    | some p =>
      rw [h.ancestors_parent hp, List.length_cons, ih p hp (h.parent_lt hp),
        h.path_child hp, Path.depth, Path.depth, Path.child, List.length_append,
        List.length_singleton]

/-- How many levels `id` is below `start`. -/
def levels (t : Tree) (start id : NodeId) : Nat := (t.path id).depth - (t.path start).depth

theorem Linked.outlineFrom?_levels (h : t.Linked kids) (start : NodeId) (depth : Nat) {fuel : Nat}
    (hfuel : t.size ≤ fuel) :
    t.outlineFrom? fuel start depth = some (String.join
      ((t.preorder start).map fun id => t.line id (depth + t.levels start id))) := by
  have hlines : ((t.preorder start).map fun id =>
        t.line id (depth + ((t.ancestors id).length - (t.ancestors start).length))) =
      (t.preorder start).map fun id => t.line id (depth + t.levels start id) := by
    apply List.map_congr_left
    intro id hid
    obtain ⟨hlt, habove⟩ := h.mem_preorder_iff.mp hid
    rw [h.length_ancestors hlt, h.length_ancestors (h.above_lt habove hlt), levels,
      Nat.add_sub_add_right]
  rw [h.outlineFrom?_enough start depth hfuel, hlines]

/-- What a search of `start` for `tag` finds, and how the outline of `start` shows it. -/
structure Lists (t : Tree) (start : NodeId) (tag : Tag) : Prop where
  /-- It ends, whether the start is there or not. -/
  ends : ∀ fuel, t.size < fuel → t.search? tag fuel [start] = some (t.findAll start tag)
  missing : t.size ≤ start → t.findAll start tag = []
  found : ∀ id, id ∈ t.findAll start tag ↔
    t.Within start id ∧ ∃ e, t.element? id = some e ∧ e.tag = tag
  nodup : (t.findAll start tag).Nodup
  ordered : (t.findAll start tag).Pairwise fun a b => (t.path a).Before (t.path b)
  /-- The outline consists of the lines of some nodes, in the order of their paths; they are the
  nodes at and below the start, and the search finds those of them that have the tag, in the same
  order. -/
  shown : ∃ ids : List NodeId, (∀ id, id ∈ ids ↔ t.Within start id ∧ id < t.size) ∧
    (ids.Pairwise fun a b => (t.path a).Before (t.path b)) ∧
    (∀ depth fuel, t.size ≤ fuel → t.outlineFrom? fuel start depth =
      some (String.join (ids.map fun id => t.line id (depth + t.levels start id)))) ∧
    t.findAll start tag = ids.filter fun id => (t.element? id).any (·.tag = tag)

/-- **Document order.** In every tree of a session, a search and an outline of the same start go
through the same nodes in the same order. -/
theorem findAll_lists (ht : t.Reachable) (start : NodeId) (tag : Tag) : t.Lists start tag := by
  obtain ⟨kids, h⟩ := ht.linked
  have hfound := h.findAll_eq start tag
  have hordered := h.pairwise_before (fun _ => .children) t.size start
  constructor
  case ends => exact h.queriesEnd.findAll start tag
  case missing =>
    intro hstart
    rw [hfound, preorder, visited_missing hstart]
    rfl
  case found =>
    intro id
    rw [hfound, List.mem_filter, h.mem_preorder_iff, h.within_iff]
    constructor
    · rintro ⟨⟨-, habove⟩, htag⟩
      obtain ⟨e, he, htag⟩ := (Option.any_eq_true _ _).mp htag
      exact ⟨habove, e, he, of_decide_eq_true htag⟩
    · rintro ⟨habove, e, he, htag⟩
      exact ⟨⟨lt_size_of_element? he, habove⟩, by rw [he]; exact decide_eq_true htag⟩
  case nodup =>
    rw [hfound]
    exact (h.nodup_visited _ _ _).filter _
  case ordered =>
    rw [hfound]
    exact hordered.filter _
  case shown =>
    refine ⟨t.preorder start, fun id => ?_, hordered,
      fun depth _ hfuel => h.outlineFrom?_levels start depth hfuel, hfound⟩
    rw [h.mem_preorder_iff, h.within_iff, And.comm]

/-- Nodes in another order than the one in which they were made: a late image in an early
paragraph. -/
theorem findAll_lists_images :
    let t :=
      session { tag := .div }
        [.append 0 { tag := .p }, .append 0 { tag := .p }, .append 2 { tag := .img },
      .append 1 { tag := .img }, .create { tag := .img }]
    t.Reachable ∧ t.Lists 0 .img ∧ t.findAll 0 .img = [4, 3] ∧ t.path 4 = ⟨[0, 0]⟩ ∧
      t.path 3 = ⟨[1, 0]⟩ := by
  intro t
  have ht : t.Reachable := ⟨_, _, rfl⟩
  exact ⟨ht, findAll_lists ht 0 .img, by decide, by decide, by decide⟩

end AccessibleMarkdown.Tree
