import AccessibleMarkdown.Proofs.Tree.Attaching
import AccessibleMarkdown.Proofs.Tree.Coordinates

/-!
# Paths as coordinates

The path of a node is the one list of positions that leads to it from the top of its tree. Making a
node the child of another moves what is at and below that node, and nothing else: the way to its new
place comes before the path that each of them had.
-/

namespace AccessibleMarkdown.Tree

variable {t u : Tree} {kids kids' : NodeId → List NodeId} {parent child id p : NodeId}

/-! ## 1. The top of a tree -/

namespace Linked

theorem exists_top (h : t.Linked kids) (hid : id < t.size) :
    ∃ top ∈ t.ancestors id, t.parent? top = none := by
  -- From the root down: the top of a child is the top of its parent.
  induction id using h.climbs.induction with
  | h id ih =>
    cases hp : t.parent? id with
    | none => exact ⟨id, (h.mem_ancestors hid).mpr (.refl id), hp⟩
    | some p =>
      obtain ⟨top, htop, hnone⟩ := ih p hp (h.parent_lt hp)
      exact ⟨top, by rw [h.ancestors_parent hp]; exact List.mem_cons_of_mem _ htop, hnone⟩

end Linked

/-! ## 2. Moving a subtree -/

section
variable (h : t.Linked kids) (h' : u.Linked kids') (hu : t.Attached parent child u)
include h h' hu

/-- Old children keep their positions, so their paths change just as the path of their parent
does. -/
theorem Attached.path_child (hp : t.parent? id = some p) (hid : id ≠ child) :
    u.path id = (u.path p).child ((t.children p).idxOf id) := by
  rw [h'.path_child ((hu.parent_of_ne id hid).trans hp)]
  by_cases hparent : p = parent
  · have hmem : id ∈ t.children parent := h.mem_children.mpr (hparent ▸ hp)
    rw [hparent, hu.children, List.idxOf_append_of_mem hmem]
  · rw [hu.children_of_ne p hparent]

theorem Attached.path_outside (hout : ¬ t.Above child id) : u.path id = t.path id := by
  induction id using h.climbs.induction with
  | h id ih =>
    have hid : id ≠ child := fun heq => hout (heq ▸ .refl _)
    cases hp : t.parent? id with
    | none => rw [h.path_top hp, h'.path_top ((hu.parent_of_ne id hid).trans hp)]
    | some p =>
      have houtp : ¬ t.Above child p := fun hup => hout (hup.trans (.of_parent hp))
      rw [hu.path_child h h' hp hid, ih p hp houtp, h.path_child hp]

theorem Attached.path_inside (hfit : t.Fits parent child) (hin : t.Above child id) :
    (u.path id).indices = (t.path parent).indices ++ (t.children parent).length ::
      (t.path id).indices := by
  induction id using h.climbs.induction with
  | h id ih =>
    obtain rfl | ⟨p, hp, hinp⟩ := hin.cases
    -- The node itself becomes the last child of its new parent, which has not moved.
    · have hnew : child ∉ t.children parent := by
        rw [h.mem_children, hfit.detached]
        exact nofun
      rw [h'.path_child hu.parent, hu.path_outside h h' hfit.acyclic, hu.children,
        List.idxOf_append_of_notMem hnew, List.idxOf_cons_self, h.path_top hfit.detached]
      rfl
    · have hid : id ≠ child := by
        rintro rfl
        exact h.not_above_parent hp hinp
      rw [hu.path_child h h' hp hid, h.path_child hp, Path.child, Path.child, ih p hp hinp,
        List.append_assoc]
      rfl

end

/-! ## 3. Coordinates -/

/-- What the paths of a tree tell. -/
structure PathsLead (t : Tree) : Prop where
  /-- From the parentless node at the end of its way up, a node is reached by its path, and by no
  other. -/
  leads : ∀ id < t.size, ∃ top ∈ t.ancestors id, t.parent? top = none ∧
    ∀ path, t.follow? top path = some id ↔ path = t.path id
  distinct : ∀ a b, t.Within rootId a → t.Within rootId b → a ≠ b → t.path a ≠ t.path b
  child : ∀ id index c, (t.children id)[index]? = some c → t.path c = (t.path id).child index
  /-- A node that becomes a child takes its subtree along ... -/
  moved : ∀ parent child u, t.appendChild parent child = .ok u → ∀ id, t.Within child id →
    (u.path id).indices = (t.path parent).indices ++ (t.children parent).length ::
      (t.path id).indices
  /-- ... and all other nodes stay where they are. -/
  stays : ∀ parent child u, t.appendChild parent child = .ok u → ∀ id, ¬ t.Within child id →
    u.path id = t.path id

/-- **Coordinates.** In every tree of a session, paths are coordinates of the nodes, detached ones
included, and stay so when subtrees are attached. -/
theorem pathsLead (ht : t.Reachable) : t.PathsLead := by
  obtain ⟨kids, h⟩ := ht.linked
  -- An attachment succeeds only where the child fits, and then all that it does is known.
  have hattached : ∀ {parent child u}, t.appendChild parent child = .ok u →
      t.Fits parent child ∧ t.Attached parent child u ∧ ∃ kids, u.Linked kids := by
    intro parent child u hok
    obtain ⟨hfit, rfl⟩ := fits_of_appendChild h hok
    exact ⟨hfit, h.attached_link hfit, _, h.link hfit⟩
  constructor
  case leads =>
    intro id hid
    obtain ⟨top, hmem, htop⟩ := h.exists_top hid
    exact ⟨top, hmem, htop, fun path => h.follow?_eq_some_iff htop ((h.mem_ancestors hid).mp hmem)⟩
  case distinct =>
    intro a b ha hb hne heq
    exact hne (h.path_inj h.root_top (h.within_iff.mp ha) (h.within_iff.mp hb) heq)
  case child => exact fun id index c hc => h.path_of_getElem? hc
  case moved =>
    intro parent child u hok id hin
    obtain ⟨hfit, hu, _, h'⟩ := hattached hok
    exact hu.path_inside h h' hfit (h.within_iff.mp hin)
  case stays =>
    intro parent child u hok id hout
    obtain ⟨-, hu, _, h'⟩ := hattached hok
    exact hu.path_outside h h' fun hup => hout (h.within_iff.mpr hup)

/-- A detached node with a child of its own, then attached to a paragraph that has one child. -/
theorem pathsLead_detached :
    let t := session { tag := .div } [.append 0 { tag := .p }, .append 1 { tag := .img },
      .create { tag := .div }, .append 3 { tag := .other "span" }]
    t.Reachable ∧ t.PathsLead ∧ t.path 4 = ⟨[0]⟩ ∧
      ∃ u, t.appendChild 1 3 = .ok u ∧ u.path 4 = ⟨[0, 1, 0]⟩ ∧ u.path 2 = ⟨[0, 0]⟩ := by
  intro t
  have ht : t.Reachable := ⟨_, _, rfl⟩
  exact ⟨ht, pathsLead ht, by decide, t.link 1 3, by decide, by decide, by decide⟩

end AccessibleMarkdown.Tree
