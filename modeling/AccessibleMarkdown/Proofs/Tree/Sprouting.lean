import AccessibleMarkdown.Proofs.Tree.Coordinates
import AccessibleMarkdown.Proofs.Tree.Handlers

/-!
# Trees that have sprouted

A tree sprouts when leaves of kinds that have no handler of their own are added to it. Every leaf
comes after the children that its parent had, so the nodes that were there stay where they were.
-/

namespace AccessibleMarkdown

namespace Tree

variable {t u v : Tree} {kids : NodeId → List NodeId} {id p c : NodeId}

/-- The tree `u` is `t` with new leaves. -/
structure Sprouted (t u : Tree) : Prop extends t.Extends u where
  linked : ∃ kids, u.Linked kids
  /-- New children come after the old ones. -/
  children : ∀ id < t.size, ∃ leaves, u.children id = t.children id ++ leaves ∧
    ∀ c ∈ leaves, t.size ≤ c
  /-- New nodes have no children, ... -/
  leaf : ∀ id, t.size ≤ id → u.children id = []
  /-- ... and no handler but the generic one is for them. -/
  plain : ∀ id tag, t.size ≤ id → u.tag? id = some tag → HandlerSlot.ofTag? tag = none

theorem Linked.children_missing (h : t.Linked kids) (hid : t.size ≤ id) : t.children id = [] := by
  apply List.eq_nil_iff_forall_not_mem.mpr
  intro c hc
  exact absurd (h.parent_lt (h.mem_children.mp hc)) (Nat.not_lt.mpr hid)

theorem Linked.sprouted (h : t.Linked kids) : t.Sprouted t where
  toExtends := .refl t
  linked := ⟨kids, h⟩
  children _ _ := ⟨[], (List.append_nil _).symm, nofun⟩
  leaf _ hid := h.children_missing hid
  plain _ _ hid htag := absurd (lt_size_of_tag? htag) (Nat.not_lt.mpr hid)

namespace Sprouted

theorem sameShape (h : t.Sprouted u) (hs : u.SameShape v) : t.Sprouted v where
  toExtends := h.toExtends.trans (.of_sameShape hs)
  linked := by
    obtain ⟨kids, hl⟩ := h.linked
    exact ⟨kids, hl.sameLinks hs.links⟩
  children := by rw [hs.links.children]; exact h.children
  leaf := by rw [hs.links.children]; exact h.leaf
  plain := by rw [hs.tag]; exact h.plain

/-- A leaf may be added below every node that was there in the beginning. -/
theorem grow (h : t.Sprouted u) (hp : p < t.size) {e : Element}
    (he : HandlerSlot.ofTag? e.tag = none) : t.Sprouted (u.grow p e) := by
  obtain ⟨kids, hl⟩ := h.linked
  have hpu : p < u.size := Nat.lt_of_lt_of_le hp h.size_le
  have hchildren := children_grow hl e hpu
  constructor
  case toExtends => exact h.toExtends.trans (.grow u p e)
  case linked => exact ⟨_, hl.grow e hpu⟩
  case children =>
    intro id hid
    obtain ⟨leaves, hleaves, hnew⟩ := h.children id hid
    rw [hchildren]
    by_cases heq : id = p
    · refine ⟨leaves ++ [u.size], by rw [if_pos heq, ← heq, hleaves, List.append_assoc], ?_⟩
      intro c hc
      obtain hc | hc := List.mem_append.mp hc
      · exact hnew c hc
      · rw [List.mem_singleton.mp hc]
        exact h.size_le
    · exact ⟨leaves, by rw [if_neg heq, hleaves], hnew⟩
  case leaf =>
    intro id hid
    -- A node that came later has no children, since leaves go below old nodes only.
    have hne : id ≠ p := fun heq => absurd hp (heq ▸ Nat.not_lt.mpr hid)
    rw [hchildren, if_neg hne, h.leaf id hid]
  case plain =>
    intro id tag hid htag
    rw [tag?_grow] at htag
    split at htag
    · rw [← Option.some.inj htag]
      exact he
    · exact h.plain id tag hid htag

theorem append (h : t.Sprouted u) (hp : p < t.size) {e : Element}
    (he : HandlerSlot.ofTag? e.tag = none) : t.Sprouted (u.append p e).1 := by
  obtain ⟨kids, hl⟩ := h.linked
  rw [append_eq hl e (Nat.lt_of_lt_of_le hp h.size_le)]
  exact h.grow hp he

theorem lt_size_of_slot (h : t.Sprouted u) {slot : HandlerSlot}
    (htag : u.tag? id = some slot.tag) : id < t.size := by
  apply Nat.lt_of_not_le
  intro hid
  have hnone := h.plain id slot.tag hid htag
  rw [HandlerSlot.ofTag?_tag] at hnone
  cases hnone

/-- A node with children is old. -/
theorem parent_lt (h : t.Sprouted u) (hp : u.parent? c = some p) : p < t.size := by
  obtain ⟨kids, hu⟩ := h.linked
  apply Nat.lt_of_not_le
  intro hnew
  have hmem := hu.mem_children.mpr hp
  rw [h.leaf p hnew] at hmem
  cases hmem

/-- An old node has the place among the children of its parent that it had. -/
theorem getElem?_children (h : t.Sprouted u) (ht : t.Linked kids) (hc : c < t.size) {k : Nat} :
    (u.children p)[k]? = some c ↔ (t.children p)[k]? = some c := by
  obtain ⟨kids', hu⟩ := h.linked
  by_cases hp : t.parent? c = some p
  · obtain ⟨leaves, hleaves, hnew⟩ := h.children p (ht.parent_lt hp)
    rw [hleaves]
    by_cases hk : k < (t.children p).length
    · rw [List.getElem?_append_left hk]
    · have hk := Nat.le_of_not_lt hk
      rw [List.getElem?_append_right hk, List.getElem?_eq_none hk]
      constructor
      · intro hleaf
        exact absurd hc (Nat.not_lt.mpr (hnew c (List.mem_of_getElem? hleaf)))
      · exact nofun
  · have hp' : u.parent? c ≠ some p := by rwa [h.parent c hc]
    constructor
    · exact fun hk => absurd (hu.mem_children.mp (List.mem_of_getElem? hk)) hp'
    · exact fun hk => absurd (ht.mem_children.mp (List.mem_of_getElem? hk)) hp

/-- **Places.** Where leaves are added, no node that was there gets another path. -/
theorem path (h : t.Sprouted u) (ht : t.Linked kids) (hid : id < t.size) :
    u.path id = t.path id := by
  obtain ⟨kids', hu⟩ := h.linked
  -- From the top down: a node has the parent that it had, and its place among the children of that.
  induction id using ht.climbs.induction with
  | h id ih =>
    have hparent := h.parent id hid
    cases hp : t.parent? id with
    | none => rw [ht.path_top hp, hu.path_top (hparent.trans hp)]
    | some p =>
      obtain ⟨leaves, hleaves, -⟩ := h.children p (ht.parent_lt hp)
      rw [ht.path_child hp, hu.path_child (hparent.trans hp), ih p hp (ht.parent_lt hp), hleaves,
        List.idxOf_append_of_mem (ht.mem_children.mpr hp)]

end Sprouted

end Tree

end AccessibleMarkdown
