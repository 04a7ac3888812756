import AccessibleMarkdown.Proofs.Tree.Growth
import AccessibleMarkdown.Proofs.Tree.Outline

/-!
# Sessions

A session starts with a root and changes the tree step by step: it adds nodes, attaches them, with
or without success, and edits elements. Whatever the steps, the links of the tree fit together, and
every query about it comes to an end.
-/

namespace AccessibleMarkdown

inductive TreeStep
  | create (e : Element)
  | createElement (tag : Tag)
  | appendChild (parent child : NodeId)
  | append (parent : NodeId) (e : Element)
  | edit (id : NodeId) (f : Element → Element)

/-- Where the links of a node lead. -/
def Node.links (n : Node) : List NodeId :=
  [n.parent, n.children.first, n.children.last, n.prev, n.next].filterMap id

namespace Tree

/-- The tree after a step; a step that fails leaves behind what it has done before it failed. -/
def step (t : Tree) : TreeStep → Tree
  | .create e => (t.create e).1
  | .createElement tag => (t.create { tag }).1
  | .appendChild parent child => (t.attach parent child).1
  | .append parent e => (t.append parent e).1
  | .edit id f => t.modify id f

def session (root : Element) (steps : List TreeStep) : Tree := steps.foldl step (withRoot root)

/-- The tree of some session. -/
def Reachable (t : Tree) : Prop := ∃ root steps, t = session root steps

/-! ## 1. What a session keeps -/

variable {t : Tree} {kids : NodeId → List NodeId}

theorem Linked.exists_step (h : t.Linked kids) (s : TreeStep) : ∃ kids, (t.step s).Linked kids := by
  cases s with
  | create e => exact ⟨kids, h.create e⟩
  | createElement tag => exact ⟨kids, h.create _⟩
  | appendChild parent child => exact h.exists_attach parent child
  | append parent e =>
    -- The new node is linked, or stays behind detached.
    exact (h.create e).exists_attach parent t.size
  | edit id f => exact ⟨kids, h.modify id f⟩

theorem exists_linked_session (root : Element) (steps : List TreeStep) :
    ∃ kids, (session root steps).Linked kids := by
  -- Each step keeps the links sound, but with children of its own.
  suffices hs : ∀ t : Tree, (∃ kids, t.Linked kids) → ∃ kids, (steps.foldl step t).Linked kids from
    hs _ ⟨_, linked_withRoot root⟩
  induction steps with
  | nil => exact fun t h => h
  | cons s steps ih => exact fun t ⟨kids, h⟩ => ih _ (h.exists_step s)

theorem Reachable.linked (h : t.Reachable) : ∃ kids, t.Linked kids := by
  obtain ⟨root, steps, rfl⟩ := h
  exact exists_linked_session root steps

/-! ## 2. Links that fit together -/

structure WellLinked (t : Tree) : Prop where
  /-- No link leads out of the arena. -/
  links_lt : ∀ {id node}, t.get? id = some node → ∀ k ∈ node.links, k < t.size
  /-- The root has neither parent nor siblings. -/
  root : ∃ node, t.get? rootId = some node ∧ node.parent = none ∧ node.prev = none ∧
    node.next = none
  /-- The way up from a node ends and repeats no node. -/
  up : ∀ id, (∀ fuel, t.size ≤ fuel → t.parentTrail? fuel id = some (t.ancestors id)) ∧
    (t.ancestors id).Nodup
  /-- The children of a node, from the first on, ... -/
  forth : ∀ id fuel, t.size ≤ fuel →
    trail? (fun c => some (t.nextSibling? c)) fuel (t.firstChild? id) = some (t.children id)
  /-- ... and from the last back, are the same. -/
  back : ∀ id fuel, t.size ≤ fuel →
    trail? (fun c => (t.get? c).map (·.prev)) fuel (t.lastChild? id) = some (t.children id).reverse
  nodup : ∀ id, (t.children id).Nodup
  /-- They are the nodes that have the node as their parent. -/
  mem_children : ∀ {id c}, c ∈ t.children id ↔ t.parent? c = some id
  /-- A node without a parent has no siblings. -/
  alone : ∀ {id}, t.parent? id = none → t.prevSibling? id = none ∧ t.nextSibling? id = none

/-- As many steps as there are nodes, and for a search one more, take every query to its end, and
none of them follows a link out of the arena. -/
structure QueriesEnd (t : Tree) : Prop where
  ancestors : ∀ id fuel, t.size ≤ fuel → t.parentTrail? fuel id = some (t.ancestors id)
  children : ∀ id fuel, t.size ≤ fuel → t.childTrail? fuel id = some (t.children id)
  siblingIndex : ∀ id fuel, t.size ≤ fuel → t.siblingIndex? fuel id = some (t.siblingIndex id)
  path : ∀ id fuel, t.size ≤ fuel → t.path? fuel id = some (t.path id)
  findAll : ∀ id tag fuel, t.size < fuel → t.search? tag fuel [id] = some (t.findAll id tag)
  outline : ∀ id depth, ∃ text, ∀ fuel, t.size ≤ fuel → t.outlineFrom? fuel id depth = some text

namespace Linked

variable {id : NodeId}

theorem sibling_lt (h : t.Linked kids) {k : NodeId}
    (hk : t.prevSibling? id = some k ∨ t.nextSibling? id = some k) : k < t.size := by
  cases hp : t.parent? id with
  | none =>
    rw [(h.alone hp).1, (h.alone hp).2] at hk
    rcases hk with hk | hk <;> cases hk
  | some p =>
    obtain ⟨elder, younger, hkids⟩ := List.append_of_mem (h.mem_kids.mpr hp)
    obtain ⟨hprev, hnext⟩ := h.siblings_eq hkids
    rw [hprev, hnext] at hk
    apply h.kids_lt (p := p)
    rw [hkids, List.mem_append, List.mem_cons]
    rcases hk with hk | hk
    · exact .inl (List.mem_of_getLast? hk)
    · exact .inr (.inr (List.mem_of_head? hk))

theorem links_lt (h : t.Linked kids) {node : Node} (hnode : t.get? id = some node) :
    ∀ k ∈ node.links, k < t.size := by
  have hread : ∀ {link : Node → Option NodeId} {k}, some k = link node →
      (t.get? id).bind link = some k := by
    intro link k hk
    rw [hnode, hk]; rfl
  intro k hk
  simp only [Node.links, List.mem_filterMap, List.mem_cons, List.not_mem_nil, or_false,
    exists_eq_right, id_eq] at hk
  -- One case for each of the five links.
  obtain hk | hk | hk | hk | hk := hk
  · exact h.parent_lt (hread hk)
  · have hfirst : t.firstChild? id = some k := hread hk
    rw [h.first] at hfirst
    exact h.kids_lt (List.mem_of_head? hfirst)
  · exact h.last_lt id k (hread hk)
  · exact h.sibling_lt (.inl (hread hk))
  · exact h.sibling_lt (.inr (hread hk))

theorem wellLinked (h : t.Linked kids) : t.WellLinked where
  links_lt := h.links_lt
  root := by
    obtain ⟨node, hnode⟩ := exists_get? h.root_lt
    have htop := h.root_top
    obtain ⟨hprev, hnext⟩ := h.alone htop
    rw [parent?, hnode] at htop
    rw [prevSibling?, hnode] at hprev
    rw [nextSibling?, hnode] at hnext
    exact ⟨node, hnode, htop, hprev, hnext⟩
  up id := ⟨fun _ => h.parentTrail?_eq, h.nodup_ancestors id⟩
  forth id _ hfuel := by
    rw [h.children_eq]
    exact h.childTrail?_eq hfuel
  back id _ hfuel := by
    rw [h.children_eq]
    exact h.trail_last hfuel id
  nodup := h.nodup_children
  mem_children := h.mem_children
  alone := h.alone

/-! ## 3. Queries -/

theorem siblingIndex?_enough (h : t.Linked kids) {fuel : Nat} (hfuel : t.size ≤ fuel)
    (id : NodeId) : t.siblingIndex? fuel id = some (t.siblingIndex id) := by
  rw [siblingIndex, h.siblingIndex?_eq hfuel, h.siblingIndex?_eq (Nat.le_refl _)]
  rfl

theorem path?_enough (h : t.Linked kids) {fuel : Nat} (hfuel : t.size ≤ fuel) (id : NodeId) :
    t.path? fuel id = some
      ⟨(((t.ancestors id).filter fun n => (t.parent? n).isSome).map t.siblingIndex).reverse⟩ := by
  have hindex : t.siblingIndex? fuel = fun n => pure (t.siblingIndex n) :=
    funext (h.siblingIndex?_enough hfuel)
  rw [path?, h.parentTrail?_eq hfuel, hindex]
  show (do
    let indices ← ((t.ancestors id).filter fun n => (t.parent? n).isSome).mapM
      fun n => (pure (t.siblingIndex n) : Option Nat)
    return (⟨indices.reverse⟩ : Path)) = _
  rw [List.mapM_pure]
  rfl

theorem path_eq (h : t.Linked kids) (id : NodeId) :
    t.path id =
      ⟨(((t.ancestors id).filter fun n => (t.parent? n).isSome).map t.siblingIndex).reverse⟩ := by
  rw [path, h.path?_enough (Nat.le_refl _)]
  rfl

theorem queriesEnd (h : t.Linked kids) : t.QueriesEnd where
  ancestors _ _ := h.parentTrail?_eq
  children id _ hfuel := by
    rw [h.children_eq]
    exact h.childTrail?_eq hfuel
  siblingIndex id _ hfuel := h.siblingIndex?_enough hfuel id
  path id _ hfuel := by rw [h.path_eq, h.path?_enough hfuel]
  findAll id tag _ hfuel := by rw [h.search?_start tag hfuel, h.findAll_eq]
  outline id depth := ⟨_, fun _ hfuel => h.outlineFrom?_enough id depth hfuel⟩

end Linked

/-- **Sessions.** After any steps from any root the links of the tree fit together, and all queries
about any node, existing or not, come to an end inside the arena. -/
theorem session_wellLinked (root : Element) (steps : List TreeStep) :
    (session root steps).WellLinked ∧ (session root steps).QueriesEnd := by
  obtain ⟨kids, h⟩ := exists_linked_session root steps
  exact ⟨h.wellLinked, h.queriesEnd⟩

end Tree

end AccessibleMarkdown
