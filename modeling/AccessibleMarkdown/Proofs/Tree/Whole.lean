import AccessibleMarkdown.Proofs.Tree.Route
import AccessibleMarkdown.Proofs.Tree.Session

/-!
# Trees without loose nodes

A tree is whole if its links are sound, every node but the root has a parent, and parents are of
kinds that may have children. Such a tree stays whole when a node is added below one of those, and
when elements change but not their tags.
-/

namespace AccessibleMarkdown.Tree

variable {t u v : Tree} {kids : NodeId → List NodeId} {id p c a : NodeId} {e : Element}

/-! ## 1. Trees that have grown -/

theorem tag?_eq_some {tag : Tag} :
    t.tag? id = some tag ↔ ∃ e, t.element? id = some e ∧ e.tag = tag :=
  Option.map_eq_some_iff

theorem lt_size_of_tag? {tag : Tag} (h : t.tag? id = some tag) : id < t.size := by
  obtain ⟨e, he, -⟩ := tag?_eq_some.mp h
  exact lt_size_of_element? he

theorem tag?_grow (e : Element) (id : NodeId) :
    (t.grow p e).tag? id = if id = t.size then some e.tag else t.tag? id := by
  simp only [tag?, element?_grow]
  split <;> rfl

@[simp] theorem tag?_grow_size (t : Tree) (p : NodeId) (e : Element) :
    (t.grow p e).tag? t.size = some e.tag := by
  rw [tag?_grow, if_pos rfl]

@[simp] theorem parent?_grow_size (t : Tree) (p : NodeId) (e : Element) :
    (t.grow p e).parent? t.size = some p := by
  rw [parent?_grow, if_pos rfl]

theorem tag?_grow_of_lt (e : Element) (hid : id < t.size) : (t.grow p e).tag? id = t.tag? id := by
  rw [tag?_grow, if_neg (Nat.ne_of_lt hid)]

theorem parent?_grow_of_lt (e : Element) (hid : id < t.size) :
    (t.grow p e).parent? id = t.parent? id := by
  rw [parent?_grow, if_neg (Nat.ne_of_lt hid)]

/-- The nodes of `t` are in `u`, with their tags and in their places. -/
structure Extends (t u : Tree) : Prop where
  size_le : t.size ≤ u.size
  parent : ∀ id < t.size, u.parent? id = t.parent? id
  tag : ∀ id < t.size, u.tag? id = t.tag? id

namespace Extends

theorem refl (t : Tree) : t.Extends t := ⟨Nat.le_refl _, fun _ _ => rfl, fun _ _ => rfl⟩

theorem trans (h : t.Extends u) (h' : u.Extends v) : t.Extends v where
  size_le := Nat.le_trans h.size_le h'.size_le
  parent id hid := (h'.parent id (Nat.lt_of_lt_of_le hid h.size_le)).trans (h.parent id hid)
  tag id hid := (h'.tag id (Nat.lt_of_lt_of_le hid h.size_le)).trans (h.tag id hid)

theorem of_sameShape (h : t.SameShape u) : t.Extends u where
  size_le := Nat.le_of_eq h.links.size.symm
  parent id _ := congrFun h.links.parent id
  tag id _ := congrFun h.tag id

theorem grow (t : Tree) (p : NodeId) (e : Element) : t.Extends (t.grow p e) where
  size_le := Nat.le_of_lt (t.size_lt_grow p e)
  parent _ hid := parent?_grow_of_lt e hid
  tag _ hid := tag?_grow_of_lt e hid

theorem tag?_eq_some (h : t.Extends u) {tag : Tag} (ht : t.tag? id = some tag) :
    u.tag? id = some tag :=
  (h.tag id (lt_size_of_tag? ht)).trans ht

/-- What was above a node is above it still, and nothing else. -/
theorem above_iff (h : t.Extends u) (ht : t.Linked kids) (hid : id < t.size) :
    u.Above a id ↔ t.Above a id := by
  -- From the root down: the parent of an old node is an old node, the same in both trees.
  induction id using ht.climbs.induction with
  | h id ih =>
    have hparent := h.parent id hid
    constructor
    all_goals
      intro ha
      obtain rfl | ⟨p, hp, hap⟩ := ha.cases
      · exact .refl _
    · rw [hparent] at hp
      exact ((ih p hp (ht.parent_lt hp)).mp hap).trans (.of_parent hp)
    · have hp' : u.parent? id = some p := hparent.trans hp
      exact ((ih p hp (ht.parent_lt hp)).mpr hap).trans (.of_parent hp')

end Extends

/-! ## 2. Whole trees -/

/-- The tags of elements that never have children. -/
def voidTags : List Tag := [.img, .other "br", .other "hr", .other "sup", .other "input"]

/-- The node is there, and may have children. -/
def Hosts (t : Tree) (id : NodeId) : Prop := ∃ tag, t.tag? id = some tag ∧ tag ∉ voidTags

theorem Hosts.lt_size (h : t.Hosts id) : id < t.size := by
  obtain ⟨tag, htag, -⟩ := h
  exact lt_size_of_tag? htag

theorem Hosts.extends (h : t.Hosts id) (hu : t.Extends u) : u.Hosts id := by
  obtain ⟨tag, htag, hvoid⟩ := h
  exact ⟨tag, hu.tag?_eq_some htag, hvoid⟩

theorem hosts_grow (t : Tree) (p : NodeId) (he : e.tag ∉ voidTags) : (t.grow p e).Hosts t.size :=
  ⟨e.tag, t.tag?_grow_size p e, he⟩

structure Whole (t : Tree) : Prop where
  linked : ∃ kids, t.Linked kids
  root : t.Hosts rootId
  attached : ∀ id < t.size, id ≠ rootId → ∃ p, t.parent? id = some p
  hosts : ∀ {c p}, t.parent? c = some p → t.Hosts p

namespace Whole

theorem withRoot (he : e.tag ∉ voidTags) : (Tree.withRoot e).Whole where
  linked := ⟨_, linked_withRoot e⟩
  root := ⟨e.tag, rfl, he⟩
  attached id hid hne := absurd (Nat.lt_one_iff.mp hid) hne
  hosts {c p} hp := by
    have hnone := (linked_withRoot e).mem_kids.mpr hp
    exact absurd hnone List.not_mem_nil

theorem sameShape (h : t.Whole) (hs : t.SameShape u) : u.Whole where
  linked := by
    obtain ⟨kids, hl⟩ := h.linked
    exact ⟨kids, hl.sameLinks hs.links⟩
  root := h.root.extends (.of_sameShape hs)
  attached id hid hne := by
    rw [hs.links.size] at hid
    rw [hs.links.parent]
    exact h.attached id hid hne
  hosts {c p} hp := by
    rw [hs.links.parent] at hp
    exact (h.hosts hp).extends (.of_sameShape hs)

theorem grow (h : t.Whole) (hp : t.Hosts p) (e : Element) : (t.grow p e).Whole where
  linked := by
    obtain ⟨kids, hl⟩ := h.linked
    exact ⟨_, hl.grow e hp.lt_size⟩
  root := h.root.extends (.grow t p e)
  attached id hid hne := by
    rw [size_grow] at hid
    by_cases hnew : id = t.size
    · exact ⟨p, hnew ▸ t.parent?_grow_size p e⟩
    · rw [parent?_grow, if_neg hnew]
      exact h.attached id (by omega) hne
  hosts {c q} hq := by
    rw [parent?_grow] at hq
    split at hq
    · obtain rfl : p = q := Option.some.inj hq
      exact hp.extends (.grow t p e)
    · exact (h.hosts hq).extends (.grow t p e)

/-- Every node is below the root. -/
theorem above_root (h : t.Whole) (hid : id < t.size) : t.Above rootId id := by
  obtain ⟨kids, hl⟩ := h.linked
  -- From the root down: every other node has a parent, and that is below the root.
  induction id using hl.climbs.induction with
  | h id ih =>
    by_cases hroot : id = rootId
    · rw [hroot]
      exact .refl _
    · obtain ⟨p, hp⟩ := h.attached id hid hroot
      exact (ih p hp (hl.parent_lt hp)).trans (.of_parent hp)

theorem children_eq_nil (h : t.Whole) {tag : Tag} (htag : t.tag? id = some tag)
    (hvoid : tag ∈ voidTags) : t.children id = [] := by
  obtain ⟨kids, hl⟩ := h.linked
  apply List.eq_nil_iff_forall_not_mem.mpr
  intro c hc
  obtain ⟨tag', htag', hnot⟩ := h.hosts (hl.mem_children.mp hc)
  obtain rfl : tag = tag' := Option.some.inj (htag.symm.trans htag')
  exact hnot hvoid

end Whole

/-! ## 3. Complete trees -/

/-- Links fit together, no node is out of reach, and what cannot hold anything holds nothing. -/
structure Complete (t : Tree) : Prop where
  wellLinked : t.WellLinked
  reached : ∀ id < t.size, Relation.ReflTransGen (fun p c => c ∈ t.children p) rootId id
  childless : ∀ id e, t.element? id = some e → e.tag ∈ voidTags → t.children id = []

theorem Whole.complete (h : t.Whole) : t.Complete := by
  obtain ⟨kids, hl⟩ := h.linked
  refine ⟨hl.wellLinked, fun id hid => ?_, fun id e he hvoid => ?_⟩
  · -- The way down to a node is its way up, backwards.
    have hup := Relation.reflTransGen_swap.mp (h.above_root hid)
    exact Relation.ReflTransGen.mono (fun p c hc => hl.mem_children.mpr hc) _ _ hup
  · exact h.children_eq_nil (tag?_of_element? he) hvoid

end AccessibleMarkdown.Tree
