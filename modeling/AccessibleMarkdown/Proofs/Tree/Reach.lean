import AccessibleMarkdown.Proofs.Tree.Whole

/-!
# How far a walk reaches

A walk that goes on to all children or to none meets the node that it starts at, and the children of
every node that it meets and does not stop at. The context of a visit is known from the place of the
node.
-/

namespace AccessibleMarkdown.Tree

variable {t : Tree} {kids : NodeId → List NodeId} {below : Tag → Descent}
  {scope id p a : NodeId} {tag : Tag}

/-! ## 1. Reached nodes -/

/-- The nodes that a walk over the part of the tree at and below `scope` meets. -/
def reached (t : Tree) (below : Tag → Descent) (scope : NodeId) : List NodeId :=
  t.visited below t.walkDepth scope

theorem map_fst_stops (t : Tree) (below : Tag → Descent) (scope : NodeId) :
    (t.stops below scope).map Prod.fst = t.reached below scope :=
  t.map_fst_route below _ scope _

theorem nexts_of_descent {d : Descent} (hstop : d ≠ .stop) (hfirst : d ≠ .first)
    (ids : List NodeId) : d.nexts ids = ids := by
  cases d with
  | stop => exact absurd rfl hstop
  | first => exact absurd rfl hfirst
  | children => rfl
  | rows => rfl

theorem mem_visited_self (hid : id < t.size) (fuel : Nat) : id ∈ t.visited below (fuel + 1) id := by
  obtain ⟨e, he⟩ := exists_element? hid
  rw [visited_succ he]
  exact List.mem_cons_self

namespace Linked

theorem mem_reached_self (hid : id < t.size) : id ∈ t.reached below id := mem_visited_self hid _

/-- One level more meets the children of all nodes that have been met. -/
theorem mem_visited_child (h : t.Linked kids) (hbelow : below tag ≠ .stop)
    (hfirst : below tag ≠ .first) (hparent : t.parent? id = some p)
    (htag : t.tag? p = some tag) {fuel : Nat} (hp : p ∈ t.visited below fuel scope) :
    id ∈ t.visited below (fuel + 1) scope := by
  -- On the depth, for every start: the parent is the start itself, or below a child of it.
  induction fuel generalizing scope with
  | zero => cases hp
  | succ fuel ih =>
    cases he : t.element? scope with
    | none => rw [visited, he] at hp; cases hp
    | some e =>
      rw [visited_succ he, List.mem_cons, List.mem_flatMap] at hp
      rw [visited_succ he, List.mem_cons, List.mem_flatMap]
      obtain rfl | ⟨c, hc, hpc⟩ := hp
      · rw [tag?_of_element? he, Option.some.injEq] at htag
        refine .inr ⟨id, ?_, mem_visited_self (lt_size_of_parent? hparent) fuel⟩
        rw [htag, nexts_of_descent hbelow hfirst]
        exact h.mem_children.mpr hparent
      · exact .inr ⟨c, hc, ih hpc⟩

theorem mem_reached_child (h : t.Linked kids) (hparent : t.parent? id = some p)
    (hp : p ∈ t.reached below scope) (htag : t.tag? p = some tag) (hbelow : below tag ≠ .stop)
    (hfirst : below tag ≠ .first) : id ∈ t.reached below scope := by
  have hmore := h.mem_visited_child hbelow hfirst hparent htag hp
  -- The walk is as deep as the tree, so one level more makes no difference.
  have henough : t.visited below (t.walkDepth + 1) scope = t.visited below t.walkDepth scope :=
    h.visited_enough scope (by rw [walkDepth]; omega) (by rw [walkDepth]; omega)
  rw [reached, ← henough]
  exact hmore

/-- A node other than the start is met from its parent. -/
theorem parent_of_mem_visited (h : t.Linked kids) {fuel : Nat}
    (hid : id ∈ t.visited below fuel scope) :
    id = scope ∨ ∃ p tag, t.parent? id = some p ∧ p ∈ t.visited below fuel scope ∧
      t.tag? p = some tag ∧
      below tag ≠ .stop := by
  -- On the depth of the walk: what is met below a child is met below the start.
  induction fuel generalizing scope with
  | zero => cases hid
  | succ fuel ih =>
    cases he : t.element? scope with
    | none => rw [visited, he] at hid; cases hid
    | some e =>
      rw [visited_succ he, List.mem_cons, List.mem_flatMap] at hid
      obtain rfl | ⟨c, hc, hidc⟩ := hid
      · exact .inl rfl
      · have hsub : ∀ x ∈ t.visited below fuel c, x ∈ t.visited below (fuel + 1) scope := by
          intro x hx
          rw [visited_succ he, List.mem_cons, List.mem_flatMap]
          exact .inr ⟨c, hc, hx⟩
        obtain rfl | ⟨p, tag, hp, hpc, htag, hbelow⟩ := ih hidc
        · refine .inr ⟨scope, e.tag, h.mem_children.mp (mem_children_of_mem_nexts hc),
            mem_visited_self (lt_size_of_element? he) fuel, tag?_of_element? he, ?_⟩
          intro hstop
          rw [hstop] at hc
          cases hc
        · exact .inr ⟨p, tag, hp, hsub p hpc, htag, hbelow⟩

/-- It goes on below every node of the subtree of the start that is above a node that it meets. -/
theorem goes_on_above (h : t.Linked kids) (hid : id ∈ t.reached below scope)
    (hscope : t.Above scope a) (ha : t.Above a id) (hne : a ≠ id) (htag : t.tag? a = some tag) :
    below tag ≠ .stop := by
  -- From the top down: the walk has come by the parent, and has not stopped there.
  induction id using h.climbs.induction with
  | h id ih =>
    obtain rfl | ⟨p, tag', hp, hreached, htag', hgo⟩ := h.parent_of_mem_visited hid
    · exact absurd (h.above_antisymm ha hscope) hne
    · obtain ⟨q, hq, haq⟩ := ha.cases.resolve_left hne
      obtain rfl : p = q := Option.some.inj (hp.symm.trans hq)
      by_cases heq : a = p
      · rw [heq, htag', Option.some.injEq] at htag
        rwa [← htag]
      · exact ih p hp hreached haq heq

theorem mem_reached (h : t.Linked kids) (hfirst : ∀ tag, below tag ≠ .first) (hid : id < t.size)
    (hscope : t.Above scope id)
    (hgo : ∀ a tag, t.Above scope a → t.Above a id → a ≠ id → t.tag? a = some tag →
      below tag ≠ .stop) :
    id ∈ t.reached below scope := by
  -- From the start down: what holds above a node holds above its parent.
  induction id using h.climbs.induction with
  | h id ih =>
    obtain rfl | ⟨p, hp, hsp⟩ := hscope.cases
    · exact mem_reached_self hid
    · have hpid := Above.of_parent hp
      obtain ⟨e, he⟩ := exists_element? (h.parent_lt hp)
      have hne : p ≠ id := fun heq => h.not_above_parent hp (heq ▸ .refl _)
      have hreached : p ∈ t.reached below scope := by
        refine ih p hp (h.parent_lt hp) hsp fun a tag hsa hap _ =>
          hgo a tag hsa (hap.trans hpid) fun heq => ?_
        exact h.not_above_parent hp (heq ▸ hap)
      have htag := tag?_of_element? he
      exact h.mem_reached_child hp hreached htag (hgo p e.tag hsp hpid hne htag) (hfirst e.tag)

/-- **Reach.** A walk that goes on to all children or to none meets the nodes of the subtree of its
start that have no node above them, in that subtree, where it stops. -/
theorem mem_reached_iff (h : t.Linked kids) (hfirst : ∀ tag, below tag ≠ .first) :
    id ∈ t.reached below scope ↔ id < t.size ∧ t.Above scope id ∧
      ∀ a tag, t.Above scope a → t.Above a id → a ≠ id → t.tag? a = some tag →
        below tag ≠ .stop := by
  constructor
  · intro hid
    obtain ⟨habove, hlt⟩ := h.above_of_mem_visited hid
    exact ⟨hlt, habove, fun a tag hscope ha hne htag => h.goes_on_above hid hscope ha hne htag⟩
  · rintro ⟨hlt, habove, hgo⟩
    exact h.mem_reached hfirst hlt habove hgo

end Linked

/-! ## 2. Clear ways -/

/-- Neither the node nor a node above it has one of the tags. -/
def Clear (t : Tree) (tags : List Tag) (id : NodeId) : Prop :=
  ∀ a tag, t.Above a id → t.tag? a = some tag → tag ∉ tags

theorem Clear.self {tags : List Tag} (h : t.Clear tags id)
    (htag : t.tag? id = some tag) : tag ∉ tags :=
  h id tag (.refl id) htag

theorem Clear.child {tags : List Tag} (h : t.Clear tags p) (hp : t.parent? id = some p)
    (htag : t.tag? id = some tag) (hnot : tag ∉ tags) : t.Clear tags id := by
  intro a tag' ha htag'
  obtain rfl | ⟨q, hq, haq⟩ := ha.cases
  · rw [htag, Option.some.injEq] at htag'
    rwa [← htag']
  · rw [hp, Option.some.injEq] at hq
    exact h a tag' (hq ▸ haq) htag'

theorem Clear.extends {u : Tree} {tags : List Tag} (h : t.Clear tags id) (hu : t.Extends u)
    (ht : t.Linked kids) (hid : id < t.size) : u.Clear tags id := by
  intro a tag ha htag
  rw [hu.above_iff ht hid] at ha
  exact h a tag ha ((hu.tag a (ht.above_lt ha hid)).symm.trans htag)

theorem clear_grow {tags : List Tag} (h : t.Clear tags p) (ht : t.Whole)
    (hp : p < t.size) {e : Element} (he : e.tag ∉ tags) : (t.grow p e).Clear tags t.size := by
  obtain ⟨kids, hl⟩ := ht.linked
  exact (h.extends (.grow t p e) hl hp).child (t.parent?_grow_size p e) (t.tag?_grow_size p e) he

/-- Above a node with an inner tag there is none with an outer tag. -/
def Apart (t : Tree) (outer inner : List Tag) : Prop :=
  ∀ id p tag, t.parent? id = some p → t.tag? id = some tag → tag ∈ inner → t.Clear outer p

theorem Apart.sameShape {u : Tree} {outer inner : List Tag} (h : t.Apart outer inner)
    (ht : t.Linked kids) (hs : t.SameShape u) : u.Apart outer inner := by
  intro id p tag hp htag hmem
  rw [hs.links.parent] at hp
  rw [hs.tag] at htag
  exact (h id p tag hp htag hmem).extends (.of_sameShape hs) ht (ht.parent_lt hp)

theorem Apart.grow {outer inner : List Tag} (h : t.Apart outer inner) (ht : t.Linked kids)
    (hp : p < t.size) {e : Element} (he : e.tag ∈ inner → t.Clear outer p) :
    (t.grow p e).Apart outer inner := by
  intro id q tag hq htag hmem
  rw [parent?_grow] at hq
  rw [tag?_grow] at htag
  split at hq
  · rename_i hid
    rw [if_pos hid, Option.some.injEq] at htag
    obtain rfl : p = q := Option.some.inj hq
    exact (he (htag ▸ hmem)).extends (.grow t p e) ht hp
  · rename_i hid
    rw [if_neg hid] at htag
    exact (h id q tag hq htag hmem).extends (.grow t p e) ht (ht.parent_lt hq)

/-- The walk from the root meets a node if it stops at no node above it. -/
theorem Whole.mem_reached (h : t.Whole) (hfirst : ∀ tag, below tag ≠ .first) {tags : List Tag}
    (hbelow : ∀ tag, tag ∉ tags → below tag ≠ .stop) (hid : id < t.size)
    (hclear : ∀ p, t.parent? id = some p → t.Clear tags p) : id ∈ t.reached below rootId := by
  obtain ⟨kids, hl⟩ := h.linked
  refine hl.mem_reached hfirst hid (h.above_root hid) fun a tag _ ha hne htag => ?_
  obtain ⟨p, hp, hap⟩ := ha.cases.resolve_left hne
  exact hbelow tag (hclear p hp a tag hap htag)

theorem Linked.preorder_eq_reached (h : t.Linked kids) (hscope : scope < t.size) :
    t.preorder scope = t.reached (fun _ => .children) scope := by
  have hpos := h.length_ancestors_pos hscope
  exact h.visited_enough scope (by omega) (by rw [walkDepth]; omega)

/-- A walk that goes on everywhere meets every node of the subtree. -/
theorem Linked.mem_preorder_iff (h : t.Linked kids) :
    id ∈ t.preorder scope ↔ id < t.size ∧ t.Above scope id := by
  constructor
  · intro hid
    exact (h.above_of_mem_visited hid).symm
  · rintro ⟨hid, habove⟩
    rw [h.preorder_eq_reached (h.above_lt habove hid)]
    exact h.mem_reached (fun _ => nofun) hid habove fun _ _ _ _ _ _ => nofun

theorem Whole.mem_preorder (h : t.Whole) (hid : id < t.size) : id ∈ t.preorder rootId := by
  obtain ⟨kids, hl⟩ := h.linked
  exact hl.mem_preorder_iff.mpr ⟨hid, h.above_root hid⟩

/-- The walk from the root stops at no node above a node that it meets. -/
theorem Linked.clear_of_mem_reached (h : t.Linked kids) {tags : List Tag}
    (hbelow : ∀ tag ∈ tags, below tag = .stop) (hid : id ∈ t.reached below rootId)
    (hp : t.parent? id = some p) : t.Clear tags p := by
  intro a tag ha htag hmem
  have haid := ha.trans (.of_parent hp)
  have hne : a ≠ id := fun heq => h.not_above_parent hp (heq ▸ ha)
  -- What is above a node below the root is below the root itself, or is the root.
  have hroot : t.Above rootId a := by
    obtain hroot | hroot := (h.above_of_mem_visited hid).1.total haid
    · rw [hroot.eq_of_top h.root_top]
      exact .refl _
    · exact hroot
  exact h.goes_on_above hid hroot haid hne htag (hbelow tag hmem)

/-! ## 3. Contexts -/

/-- The context of a visit to a node, in a walk from the root. -/
def placed (t : Tree) (below : Tag → Descent) (id : NodeId) : Context where
  path := t.path id
  rowIndex := (t.parent? id).bind fun p =>
    if (t.tag? p).map below = some .rows then some ((t.children p).idxOf id + 1) else none

/-- The same in a walk from `scope`: the parent of the start has not been visited, so the start has
no row number. -/
def placedFrom (t : Tree) (below : Tag → Descent) (scope id : NodeId) : Context :=
  if id = scope then .ofPath (t.path id) else t.placed below id

/-- Visits are numbered anew below each node, so only the place of the node matters. -/
theorem visits_congr {cx cx' : Context} (h : cx.path = cx'.path) {d : Descent} (ids : List NodeId) :
    d.visits cx ids = d.visits cx' ids := by
  have hchild : cx.child = cx'.child := by
    funext index
    rw [Context.child, Context.child, h]
  unfold Descent.visits
  rw [hchild]

namespace Linked

theorem path_child (h : t.Linked kids) (hp : t.parent? id = some p) :
    t.path id = (t.path p).child ((t.children p).idxOf id) := by
  have hindex : t.siblingIndex id = (t.children p).idxOf id := by
    rw [siblingIndex, h.siblingIndex?_eq (Nat.le_refl _), hp, h.children_eq]
    rfl
  have hway : t.ancestors id = id :: t.ancestors p := h.ancestors_parent hp
  rw [h.path_eq, h.path_eq, hway, List.filter_cons_of_pos (by rw [hp]; rfl), List.map_cons,
    List.reverse_cons, hindex]
  rfl

/-- The number of a child is its place, since no child comes twice. -/
theorem map_zipIdx_children (h : t.Linked kids) {α : Type} {f : NodeId × Nat → α}
    {g : NodeId → α} (id : NodeId)
    (hf : ∀ c i, t.parent? c = some id → (t.children id).idxOf c = i → f (c, i) = g c) :
    (t.children id).zipIdx.map f = (t.children id).map g := by
  have hids := congrArg (List.map g) (List.zipIdx_map_fst 0 (t.children id))
  rw [← hids, List.map_map]
  apply List.map_congr_left
  rintro ⟨c, i⟩ hmem
  obtain ⟨hlt, hc⟩ := List.mem_zipIdx' hmem
  have hmem : c ∈ t.children id := by
    rw [hc]
    exact List.getElem_mem hlt
  have hindex : (t.children id).idxOf c = i := by
    rw [hc]
    exact (h.nodup_children id).idxOf_getElem i hlt
  exact hf c i (h.mem_children.mp hmem) hindex

theorem placed_child (h : t.Linked kids) (hp : t.parent? id = some p) (htag : t.tag? p = some tag) :
    t.placed below id = ⟨(t.path p).child ((t.children p).idxOf id),
      if below tag = .rows then some ((t.children p).idxOf id + 1) else none⟩ := by
  rw [placed, h.path_child hp, hp, Option.bind_some, htag, Option.map_some]
  simp only [Option.some.injEq]

/-- The visits to children are at their places. -/
theorem visits_placed (h : t.Linked kids) (htag : t.tag? id = some tag) :
    (below tag).visits (t.placed below id) (t.children id) =
      ((below tag).nexts (t.children id)).map fun c => (c, t.placed below c) := by
  cases hbelow : below tag with
  | stop => rfl
  | first =>
    cases hids : t.children id with
    | nil => rfl
    | cons c rest =>
      have hc : t.parent? c = some id := h.mem_children.mp (by rw [hids]; exact List.mem_cons_self)
      show [(c, (t.placed below id).child 0)] = [(c, t.placed below c)]
      rw [h.placed_child hc htag, hids, List.idxOf_cons_self, hbelow]
      rfl
  | children =>
    refine h.map_zipIdx_children id fun c i hc hi => ?_
    rw [h.placed_child hc htag, hi, hbelow]
    rfl
  | rows =>
    refine h.map_zipIdx_children id fun c i hc hi => ?_
    rw [h.placed_child hc htag, hi, hbelow]
    rfl

theorem route_placed (h : t.Linked kids) (fuel : Nat) (id : NodeId) :
    t.route below fuel id (t.placed below id) =
      (t.visited below fuel id).map fun id => (id, t.placed below id) := by
  induction fuel generalizing id with
  | zero => rfl
  | succ fuel ih =>
    cases he : t.element? id with
    | none => rw [route, tag?, visited, he]; rfl
    | some e =>
      have htag := tag?_of_element? he
      rw [route, htag, visited_succ he, List.map_cons, List.map_flatMap]
      simp only
      rw [h.visits_placed htag, List.flatMap_map]
      simp only [ih]

/-- **Stops.** A walk meets each node at its place. -/
theorem stops_eq (h : t.Linked kids) (scope : NodeId) :
    t.stops below scope = (t.reached below scope).map fun id =>
      (id, t.placedFrom below scope id) := by
  cases he : t.element? scope with
  | none =>
    rw [stops, reached, walkDepth, route, tag?, visited, he]
    rfl
  | some e =>
    have htag := tag?_of_element? he
    have hpath : (Context.ofPath (t.path scope)).path = (t.placed below scope).path := rfl
    rw [stops, reached, walkDepth, route, htag, visited_succ he, List.map_cons, List.map_flatMap]
    simp only
    rw [visits_congr hpath, h.visits_placed htag, List.flatMap_map, placedFrom, if_pos rfl]
    congr 1
    apply List.flatMap_congr
    intro c hc
    show t.route below t.size c (t.placed below c) = _
    rw [h.route_placed]
    apply List.map_congr_left
    intro id hid
    -- The start is not met again below itself.
    have hne : id ≠ scope := by
      rintro rfl
      have hp := h.mem_children.mp (mem_children_of_mem_nexts hc)
      exact h.not_above_parent hp (h.above_of_mem_visited hid).1
    rw [placedFrom, if_neg hne]

theorem placedFrom_root (h : t.Linked kids) : t.placedFrom below rootId = t.placed below := by
  funext id
  unfold placedFrom
  split
  · rename_i hid
    rw [hid, placed, h.root_top]
    rfl
  · rfl

theorem stops_root (h : t.Linked kids) :
    t.stops below rootId = (t.reached below rootId).map fun id => (id, t.placed below id) := by
  rw [h.stops_eq, h.placedFrom_root]

end Linked

end AccessibleMarkdown.Tree
