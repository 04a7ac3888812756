import AccessibleMarkdown.Proofs.Tree.Coordinates
import AccessibleMarkdown.Proofs.Tree.Grove
import Mathlib.Data.Set.Function

/-!
# Trees that differ in their identities only

Two trees are isomorphic if the nodes of one at and below its root can be renamed to those of the
other, with the same elements and with the children in the same order. That is so just if both roots
hold the same grove: then the nodes on the same path correspond.
-/

namespace AccessibleMarkdown.Tree

variable {t u : Tree} {kids kids' : NodeId → List NodeId} {id a b : NodeId}
  {ids ids' : List NodeId} {g : Grove}

/-- `rename` leads from the part of `t` at and below its root to that of `u`, and takes the one for
the other. -/
structure Isomorphism (t u : Tree) (rename : NodeId → NodeId) : Prop where
  root : rename rootId = rootId
  bijOn : Set.BijOn rename {id | t.Within rootId id} {id | u.Within rootId id}
  element : ∀ {id}, t.Within rootId id → u.element? (rename id) = t.element? id
  children : ∀ {id}, t.Within rootId id → u.children (rename id) = (t.children id).map rename

/-! ## 1. Groves of a tree -/

theorem exists_holds_of_forall
    (hids : ∀ id ∈ ids, id < t.size ∧ ∃ inner, t.Holds (t.children id) inner) :
    ∃ g, t.Holds ids g := by
  induction ids with
  | nil => exact ⟨.nil, trivial⟩
  | cons id ids ih =>
    obtain ⟨hid, inner, hinner⟩ := hids id List.mem_cons_self
    obtain ⟨e, he⟩ := exists_element? hid
    obtain ⟨rest, hrest⟩ := ih fun k hk => hids k (List.mem_cons_of_mem _ hk)
    exact ⟨.node e inner rest, he, hinner, hrest⟩

/-- Below each node there is a grove. -/
theorem Linked.exists_holds_children (h : t.Linked kids) (id : NodeId) :
    ∃ inner, t.Holds (t.children id) inner := by
  induction id using h.bottom_up with
  | step id ih =>
    apply exists_holds_of_forall
    intro c hc
    have hp := h.mem_children.mp hc
    exact ⟨lt_size_of_parent? hp, ih c hp⟩

theorem Linked.exists_holds_root (h : t.Linked kids) : ∃ g, t.Holds [rootId] g := by
  apply exists_holds_of_forall
  intro id hid
  rw [List.mem_singleton.mp hid]
  exact ⟨h.root_lt, h.exists_holds_children rootId⟩

theorem Isomorphism.holds {rename : NodeId → NodeId} (h : t.Isomorphism u rename)
    (hids : ∀ id ∈ ids, t.Within rootId id) (hg : t.Holds ids g) : u.Holds (ids.map rename) g := by
  induction g generalizing ids with
  | nil =>
    cases ids with
    | nil => trivial
    | cons id ids => exact hg
  | node e inner rest ihinner ihrest =>
    cases ids with
    | nil => exact hg
    | cons id ids =>
      obtain ⟨he, hinner, hrest⟩ := hg
      have hid := hids id List.mem_cons_self
      refine ⟨(h.element hid).trans he, ?_,
        ihrest (fun k hk => hids k (List.mem_cons_of_mem _ hk)) hrest⟩
      rw [h.children hid]
      exact ihinner (fun c hc => hid.tail hc) hinner

/-! ## 2. Twins -/

/-- The nodes look the same, all the way down. -/
def Twin (t u : Tree) (a b : NodeId) : Prop := ∃ g, t.Holds [a] g ∧ u.Holds [b] g

theorem Twin.symm (h : t.Twin u a b) : u.Twin t b a := by
  obtain ⟨g, ha, hb⟩ := h
  exact ⟨g, hb, ha⟩

theorem forall₂_twin_of_holds (ht : t.Holds ids g) (hu : u.Holds ids' g) :
    List.Forall₂ (t.Twin u) ids ids' := by
  induction g generalizing ids ids' with
  | nil =>
    cases ids with
    | nil =>
      cases ids' with
      | nil => exact .nil
      | cons b ids' => exact hu.elim
    | cons a ids => exact ht.elim
  | node e inner rest _ ihrest =>
    cases ids with
    | nil => exact ht.elim
    | cons a ids =>
      cases ids' with
      | nil => exact hu.elim
      | cons b ids' =>
        obtain ⟨ha, hainner, harest⟩ := ht
        obtain ⟨hb, hbinner, hbrest⟩ := hu
        exact .cons ⟨.node e inner .nil, ⟨ha, hainner, trivial⟩, hb, hbinner, trivial⟩
          (ihrest harest hbrest)

theorem Twin.split (h : t.Twin u a b) :
    u.element? b = t.element? a ∧ List.Forall₂ (t.Twin u) (t.children a) (u.children b) := by
  obtain ⟨g, ha, hb⟩ := h
  cases g with
  | nil => exact ha.elim
  | node e inner rest =>
    obtain ⟨hae, hainner, -⟩ := ha
    obtain ⟨hbe, hbinner, -⟩ := hb
    exact ⟨hbe.trans hae.symm, forall₂_twin_of_holds hainner hbinner⟩

/-- The same positions lead from twins to twins. -/
theorem Twin.follow? (h : t.Twin u a b) {path : Path} (hpath : t.follow? a path = some id) :
    ∃ id', u.follow? b path = some id' ∧ t.Twin u id id' := by
  obtain ⟨indices⟩ := path
  induction indices using List.reverseRecOn generalizing id with
  | nil =>
    obtain rfl : a = id := Option.some.inj hpath
    exact ⟨b, rfl, h⟩
  | append_singleton front index ih =>
    obtain ⟨p, hp, hindex⟩ := follow?_concat_eq_some.mp hpath
    obtain ⟨p', hp', htwin⟩ := ih hp
    obtain ⟨hlt, rfl⟩ := List.getElem?_eq_some_iff.mp hindex
    have hsame := htwin.split.2
    have hlt' : index < (u.children p').length := hsame.length_eq ▸ hlt
    exact ⟨(u.children p')[index],
      follow?_concat_eq_some.mpr ⟨p', hp', List.getElem?_eq_getElem hlt'⟩, hsame.get hlt hlt'⟩

theorem within_of_follow? {path : Path} (h : t.follow? a path = some id) : t.Within a id := by
  obtain ⟨indices⟩ := path
  induction indices using List.reverseRecOn generalizing id with
  | nil =>
    obtain rfl : a = id := Option.some.inj h
    exact Relation.ReflTransGen.refl
  | append_singleton front index ih =>
    obtain ⟨p, hp, hindex⟩ := follow?_concat_eq_some.mp h
    exact (ih hp).tail (List.mem_of_getElem? hindex)

/-! ## 3. Nodes on the same path -/

/-- The node of `u` on the path of a node of `t`. -/
def counterpart (t u : Tree) (id : NodeId) : NodeId := (u.follow? rootId (t.path id)).getD rootId

theorem counterpart_eq (h : u.follow? rootId (t.path id) = some b) : t.counterpart u id = b := by
  rw [counterpart, h, Option.getD_some]

section
variable (ht : t.Linked kids) (hu : u.Linked kids') (h : t.Twin u rootId rootId)
include ht h

theorem Twin.follow?_counterpart (hid : t.Within rootId id) :
    u.follow? rootId (t.path id) = some (t.counterpart u id) ∧
    t.Twin u id (t.counterpart u id) := by
  obtain ⟨id', hid', htwin⟩ := h.follow? (ht.follow?_path ht.root_top (ht.within_iff.mp hid))
  rw [counterpart_eq hid']
  exact ⟨hid', htwin⟩

theorem Twin.children_counterpart (hid : t.Within rootId id) :
    u.children (t.counterpart u id) = (t.children id).map (t.counterpart u) := by
  obtain ⟨hfollow, htwin⟩ := h.follow?_counterpart ht hid
  apply List.ext_getElem
  · rw [List.length_map, htwin.split.2.length_eq]
  · intro index hlt' hlt
    rw [List.length_map] at hlt
    have hc := List.getElem?_eq_getElem hlt
    have hgo := (h.follow?_counterpart ht (hid.tail (List.getElem_mem hlt))).1
    rw [ht.path_of_getElem? hc, follow?_child, hfollow, Option.bind_some,
      List.getElem?_eq_getElem hlt'] at hgo
    rw [List.getElem_map]
    exact Option.some.inj hgo

include hu

theorem Twin.path_counterpart (hid : t.Within rootId id) :
    u.path (t.counterpart u id) = t.path id := by
  have hfollow := (h.follow?_counterpart ht hid).1
  have habove := hu.within_iff.mp (within_of_follow? hfollow)
  exact ((hu.follow?_eq_some_iff hu.root_top habove).mp hfollow).symm

theorem Twin.bijOn_counterpart :
    Set.BijOn (t.counterpart u) {id | t.Within rootId id} {id | u.Within rootId id} := by
  refine ⟨fun id hid => within_of_follow? (h.follow?_counterpart ht hid).1, fun a ha b hb hab => ?_,
    fun b hb => ?_⟩
  · apply ht.path_inj ht.root_top (ht.within_iff.mp ha) (ht.within_iff.mp hb)
    rw [← h.path_counterpart ht hu ha, ← h.path_counterpart ht hu hb, hab]
  -- Where a node comes from is its own counterpart.
  · refine ⟨u.counterpart t b, within_of_follow? (h.symm.follow?_counterpart hu hb).1,
      counterpart_eq ?_⟩
    rw [h.symm.path_counterpart hu ht hb]
    exact hu.follow?_path hu.root_top (hu.within_iff.mp hb)

theorem Twin.isomorphism : t.Isomorphism u (t.counterpart u) where
  root := by
    apply counterpart_eq
    rw [ht.path_top ht.root_top, follow?_root]
  bijOn := h.bijOn_counterpart ht hu
  element hid := (h.follow?_counterpart ht hid).2.split.1
  children hid := h.children_counterpart ht hid

end

/-- **Isomorphic trees are those that hold the same grove.** -/
theorem exists_isomorphism_iff (ht : t.Linked kids) (hu : u.Linked kids') :
    (∃ rename, t.Isomorphism u rename) ↔ t.Twin u rootId rootId := by
  constructor
  · rintro ⟨rename, h⟩
    obtain ⟨g, hg⟩ := ht.exists_holds_root
    have hrenamed :=
      h.holds (fun id hid => List.mem_singleton.mp hid ▸ Relation.ReflTransGen.refl) hg
    rw [List.map_singleton, h.root] at hrenamed
    exact ⟨g, hg, hrenamed⟩
  · intro h
    exact ⟨_, h.isomorphism ht hu⟩

end AccessibleMarkdown.Tree
