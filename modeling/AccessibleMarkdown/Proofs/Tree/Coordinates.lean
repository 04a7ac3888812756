import AccessibleMarkdown.Proofs.Tree.Reach
import Mathlib.Data.List.Induction
import Mathlib.Data.List.Lex

/-!
# Following paths

The path of a node tells where it is among its siblings, and where those above it are among theirs.
Followed down from the top of its tree it leads back to the node, so different nodes of one tree
have different paths. In document order, paths come in the order of the first position in which they
differ.
-/

namespace AccessibleMarkdown

/-- A node comes before what is below it, and what is below a child before what is below a later
one. -/
def Path.Before (p q : Path) : Prop := List.Lex (· < ·) p.indices q.indices

namespace Tree

variable {t u : Tree} {kids : NodeId → List NodeId} {top id a b : NodeId}

/-- The node that the positions of a path lead to, each among the children of the node before. -/
def follow? (t : Tree) (start : NodeId) (path : Path) : Option NodeId :=
  path.indices.foldlM (fun id index => (t.children id)[index]?) start

theorem follow?_root (t : Tree) (start : NodeId) : t.follow? start .root = some start := rfl

theorem follow?_child (t : Tree) (start : NodeId) (path : Path) (index : Nat) :
    t.follow? start (path.child index) = (t.follow? start path).bind fun id =>
      (t.children id)[index]? := by
  simp only [follow?, Path.child, List.foldlM_append, List.foldlM_cons, List.foldlM_nil, bind_pure]
  rfl

/-- The last position leads to a child of the node that the others lead to. -/
theorem follow?_concat_eq_some {start : NodeId} {front : List Nat} {index : Nat} :
    t.follow? start ⟨front ++ [index]⟩ = some id ↔
      ∃ p, t.follow? start ⟨front⟩ = some p ∧ (t.children p)[index]? = some id := by
  have hlast := t.follow?_child start ⟨front⟩ index
  rw [Path.child] at hlast
  rw [hlast, Option.bind_eq_some_iff]

theorem SameLinks.follow? (h : t.SameLinks u) : u.follow? = t.follow? := by
  funext start path
  rw [Tree.follow?, Tree.follow?, h.children]

namespace Linked

theorem path_top (h : t.Linked kids) (htop : t.parent? top = none) : t.path top = .root := by
  have hway : (t.ancestors top).filter (fun n => (t.parent? n).isSome) = [] := by
    rw [List.filter_eq_nil_iff]
    intro a ha
    by_cases hlt : top < t.size
    · rw [((h.mem_ancestors hlt).mp ha).eq_of_top htop, htop]
      exact Bool.false_ne_true
    · rw [ancestors_missing (Nat.le_of_not_lt hlt)] at ha
      cases ha
  rw [h.path_eq, hway]
  rfl

/-- **Paths lead back.** -/
theorem follow?_path (h : t.Linked kids) (htop : t.parent? top = none) (hid : t.Above top id) :
    t.follow? top (t.path id) = some id := by
  -- From the top down: the path of a child is that of its parent, and its position there.
  induction id using h.climbs.induction with
  | h id ih =>
    rcases hid.cases with rfl | ⟨p, hp, habove⟩
    · rw [h.path_top htop, follow?_root]
    · rw [h.path_child hp, follow?_child, ih p hp habove, Option.bind_some]
      exact List.getElem?_idxOf (h.mem_children.mpr hp)

/-- The path of a child is known from its place. -/
theorem path_of_getElem? (h : t.Linked kids) {index : Nat}
    (hindex : (t.children id)[index]? = some a) : t.path a = (t.path id).child index := by
  obtain ⟨hlt, ha⟩ := List.getElem?_eq_some_iff.mp hindex
  rw [h.path_child (h.mem_children.mp (List.mem_of_getElem? hindex)), ← ha,
    (h.nodup_children id).idxOf_getElem index hlt]

/-- Wherever positions lead, they are the last part of the path of the node there. -/
theorem indices_of_follow? (h : t.Linked kids) {start : NodeId} {path : Path}
    (hid : t.follow? start path = some id) :
    (t.path id).indices = (t.path start).indices ++ path.indices := by
  obtain ⟨indices⟩ := path
  -- From the last position back: it is that of the node among the children of the node before it.
  induction indices using List.reverseRecOn generalizing id with
  | nil =>
    obtain rfl : start = id := Option.some.inj hid
    exact (List.append_nil _).symm
  | append_singleton front index ih =>
    obtain ⟨p, hp, hindex⟩ := follow?_concat_eq_some.mp hid
    rw [h.path_of_getElem? hindex, Path.child, ih hp, List.append_assoc]

/-- From the top of its tree, a node has one path. -/
theorem follow?_eq_some_iff (h : t.Linked kids) (htop : t.parent? top = none) (hid : t.Above top id)
    {path : Path} : t.follow? top path = some id ↔ path = t.path id := by
  constructor
  · intro hpath
    have hindices := h.indices_of_follow? hpath
    rw [h.path_top htop] at hindices
    exact congrArg Path.mk hindices.symm
  · rintro rfl
    exact h.follow?_path htop hid

theorem path_inj (h : t.Linked kids) (htop : t.parent? top = none) (ha : t.Above top a)
    (hb : t.Above top b) (heq : t.path a = t.path b) : a = b := by
  have hback := h.follow?_path htop ha
  rw [heq, h.follow?_path htop hb] at hback
  exact (Option.some.inj hback).symm

theorem nodup_paths (h : t.Linked kids) (htop : t.parent? top = none) {ids : List NodeId}
    (hnodup : ids.Nodup) (habove : ∀ id ∈ ids, t.Above top id) : (ids.map t.path).Nodup :=
  hnodup.map_on fun a ha b hb heq => h.path_inj htop (habove a ha) (habove b hb) heq

/-- Of different nodes all children are different. -/
theorem nodup_flatMap_children (h : t.Linked kids) {ids : List NodeId} (hnodup : ids.Nodup) :
    (ids.flatMap t.children).Nodup := by
  rw [List.nodup_flatMap]
  refine ⟨fun id _ => h.nodup_children id, hnodup.imp fun {a b} hne c ha hb => hne ?_⟩
  exact Option.some.inj ((h.mem_children.mp ha).symm.trans (h.mem_children.mp hb))

/-! ## Document order -/

/-- The path of a node goes on from the path of each node above it. -/
theorem exists_path_append (h : t.Linked kids) (ha : t.Above a id) :
    ∃ rest, (t.path id).indices = (t.path a).indices ++ rest := by
  induction id using h.climbs.induction with
  | h id ih =>
    obtain rfl | ⟨p, hp, hap⟩ := ha.cases
    · exact ⟨[], (List.append_nil _).symm⟩
    · obtain ⟨rest, hrest⟩ := ih p hp hap
      refine ⟨rest ++ [(t.children p).idxOf id], ?_⟩
      rw [h.path_child hp, Path.child, hrest, List.append_assoc]

/-- Below a child, it goes on with the position of the child. -/
theorem exists_path_child (h : t.Linked kids) {c : NodeId} (hc : t.parent? c = some id)
    (hx : t.Above c a) :
    ∃ rest, (t.path a).indices = (t.path id).indices ++ (t.children id).idxOf c :: rest := by
  obtain ⟨rest, hrest⟩ := h.exists_path_append hx
  refine ⟨rest, ?_⟩
  rw [hrest, h.path_child hc, Path.child, List.append_assoc]
  rfl

theorem pairwise_idxOf_children (h : t.Linked kids) (id : NodeId) :
    (t.children id).Pairwise fun a b => (t.children id).idxOf a < (t.children id).idxOf b := by
  rw [List.pairwise_iff_getElem]
  intro i j hi hj hij
  rwa [(h.nodup_children id).idxOf_getElem, (h.nodup_children id).idxOf_getElem]

/-- **Document order.** What a walk meets, it meets in the order of the paths. -/
theorem pairwise_before (h : t.Linked kids) (below : Tag → Descent) (fuel : Nat) (id : NodeId) :
    (t.visited below fuel id).Pairwise fun a b => (t.path a).Before (t.path b) := by
  induction fuel generalizing id with
  | zero => exact List.Pairwise.nil
  | succ fuel ih =>
    cases he : t.element? id with
    | none => rw [visited, he]; exact List.Pairwise.nil
    | some e =>
      have hparent : ∀ {c}, c ∈ (below e.tag).nexts (t.children id) → t.parent? c = some id :=
        fun hc => h.mem_children.mp (mem_children_of_mem_nexts hc)
      rw [visited_succ he, List.pairwise_cons, List.pairwise_flatMap]
      refine ⟨fun x hx => ?_, fun c _ => ih c, ?_⟩
      · obtain ⟨c, hc, hx⟩ := List.mem_flatMap.mp hx
        obtain ⟨rest, hrest⟩ := h.exists_path_child (hparent hc) (h.above_of_mem_visited hx).1
        have hlong : List.Lex (· < ·) ((t.path id).indices ++ []) (t.path x).indices := by
          rw [hrest]
          exact .append_left _ .nil _
        rwa [List.append_nil] at hlong
      -- The paths below two children differ first in the positions of the two.
      · have horder :=
          (h.pairwise_idxOf_children id).sublist ((below e.tag).nexts_sublist (t.children id))
        refine horder.imp_of_mem fun {a b} ha hb hab x hx y hy => ?_
        obtain ⟨rest, hrest⟩ := h.exists_path_child (hparent ha) (h.above_of_mem_visited hx).1
        obtain ⟨rest', hrest'⟩ := h.exists_path_child (hparent hb) (h.above_of_mem_visited hy).1
        rw [Path.Before, hrest, hrest']
        exact List.Lex.append_left _ (.rel hab) _

end Linked

end Tree

end AccessibleMarkdown
