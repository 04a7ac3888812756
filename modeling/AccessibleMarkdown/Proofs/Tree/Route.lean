import AccessibleMarkdown.Proofs.Tree.Growth
import AccessibleMarkdown.Proofs.Tree.Order

/-!
# Walks that keep the shape of a tree

A visitor may change elements and still leave all links and tags alone. If it also goes on below a
node as the tag of the node says, then its walk makes the visits of a route that is known
beforehand, whatever the visitor does on the way.
-/

namespace AccessibleMarkdown

namespace Tree

variable {t u v : Tree} {below : Tag → Descent}

/-! ## 1. Shape -/

def tag? (t : Tree) (id : NodeId) : Option Tag := (t.element? id).map (·.tag)

/-- The same nodes with the same tags, and the same links between them. -/
structure SameShape (t u : Tree) : Prop where
  links : t.SameLinks u
  tag : u.tag? = t.tag?

theorem SameShape.refl (t : Tree) : t.SameShape t := ⟨.refl t, rfl⟩

theorem SameShape.symm (h : t.SameShape u) : u.SameShape t := ⟨h.links.symm, h.tag.symm⟩

theorem SameShape.trans (h : t.SameShape u) (h' : u.SameShape v) : t.SameShape v :=
  ⟨h.links.trans h'.links, h'.tag.trans h.tag⟩

theorem tag?_of_element? {id : NodeId} {e : Element} (h : t.element? id = some e) :
    t.tag? id = some e.tag := by
  rw [tag?, h]
  rfl

theorem sameShape_modify (t : Tree) (id : NodeId) {f : Element → Element}
    (hf : ∀ e, (f e).tag = e.tag) : t.SameShape (t.modify id f) where
  links := sameLinks_modify id f
  tag := by
    funext k
    rw [tag?, tag?, element?_modify]
    by_cases hk : k = id
    · rw [if_pos hk, Option.map_map]
      exact Option.map_congr fun e _ => hf e
    · rw [if_neg hk]

theorem map_prev (t : Tree) (id : NodeId) :
    (t.get? id).map (·.prev) = if id < t.size then some (t.prevSibling? id) else none := by
  by_cases hid : id < t.size
  · obtain ⟨node, hnode⟩ := exists_get? hid
    rw [if_pos hid, prevSibling?, hnode]
    rfl
  · rw [if_neg hid, get?_eq_none_iff.mpr (Nat.le_of_not_lt hid)]
    rfl

theorem SameLinks.path (h : t.SameLinks u) : u.path = t.path := by
  have hprev : (fun c => (u.get? c).map (·.prev)) = fun c => (t.get? c).map (·.prev) := by
    funext c
    rw [map_prev, map_prev, h.size, h.prev]
  -- A path starts at the node only if there is one, and goes by links alone.
  have hself : ∀ id, ((u.get? id).map fun _ => id) = (t.get? id).map fun _ => id := by
    intro id
    have hread :
        ∀ s : Tree, ((s.get? id).map fun _ => id) = if id < s.size then some id else none := by
      intro s
      by_cases hid : id < s.size
      · obtain ⟨node, hnode⟩ := exists_get? hid
        rw [if_pos hid, hnode]
        rfl
      · rw [if_neg hid, get?_eq_none_iff.mpr (Nat.le_of_not_lt hid)]
        rfl
    rw [hread, hread, h.size]
  have hindex : u.siblingIndex? = t.siblingIndex? := by
    funext fuel id
    rw [siblingIndex?, siblingIndex?, elderTrail?, elderTrail?, hprev, h.prev]
  funext id
  rw [Tree.path, Tree.path, path?, path?, parentTrail?, parentTrail?, h.size, h.parent,
    hindex, hself]

/-! ## 2. Routes -/

/-- The visits of a walk from `id` on, at most `fuel` levels deep, where `below` says how the walk
goes on. -/
def route (t : Tree) (below : Tag → Descent) : Nat → NodeId → Context → List (NodeId × Context)
  | 0, _, _ => []
  | fuel + 1, id, cx =>
    match t.tag? id with
    | none => []
    | some tag => (id, cx) :: ((below tag).visits cx (t.children id)).flatMap fun (id, cx) =>
        route t below fuel id cx

/-- The visits of a walk over the part of a tree at and below `scope`. -/
def stops (t : Tree) (below : Tag → Descent) (scope : NodeId) : List (NodeId × Context) :=
  t.route below t.walkDepth scope (.ofPath (t.path scope))

theorem SameShape.route (h : t.SameShape u) (below : Tag → Descent) :
    u.route below = t.route below := by
  funext fuel
  induction fuel with
  | zero => rfl
  | succ fuel ih =>
    funext id cx
    rw [Tree.route, Tree.route, h.tag, h.links.children, ih]

theorem SameShape.stops (h : t.SameShape u) (below : Tag → Descent) (scope : NodeId) :
    u.stops below scope = t.stops below scope := by
  rw [Tree.stops, Tree.stops, h.route, h.links.path, walkDepth, walkDepth, h.links.size]

theorem map_fst_visits (d : Descent) (cx : Context) (ids : List NodeId) :
    (d.visits cx ids).map Prod.fst = d.nexts ids := by
  cases d with
  | stop => rfl
  | children => rw [Descent.visits, List.map_map]; exact List.zipIdx_map_fst 0 ids
  | rows => rw [Descent.visits, List.map_map]; exact List.zipIdx_map_fst 0 ids
  | first =>
    rw [Descent.visits, List.map_map]
    exact List.map_id _

/-- A route meets the nodes that are known from the order of the tree. -/
theorem map_fst_route (t : Tree) (below : Tag → Descent) (fuel : Nat) (id : NodeId) (cx : Context) :
    (t.route below fuel id cx).map Prod.fst = t.visited below fuel id := by
  induction fuel generalizing id cx with
  | zero => rfl
  | succ fuel ih =>
    cases he : t.element? id with
    | none => rw [route, tag?, visited, he]; rfl
    | some e =>
      rw [route, tag?_of_element? he, visited_succ he, List.map_cons, List.map_flatMap,
        ← map_fst_visits _ cx, List.flatMap_map]
      simp only [ih]

theorem Linked.nodup_stops {kids : NodeId → List NodeId} (h : t.Linked kids) (below : Tag → Descent)
    (scope : NodeId) : ((t.stops below scope).map Prod.fst).Nodup := by
  rw [stops, map_fst_route]
  exact h.nodup_visited below _ scope

end Tree

/-! ## 3. Walks along routes -/

namespace Visitor

variable {σ : Type} {v : Visitor σ} {below : Tag → Descent}

/-- The visitor keeps the shape of the tree, and the tag of a node says how it goes on. -/
structure Steered (v : Visitor σ) (below : Tag → Descent) : Prop where
  shape : ∀ {id e} {s : Tree × σ}, s.1.element? id = some e → ∀ cx, s.1.SameShape (v id e cx s).1.1
  descent : ∀ {id e} {s : Tree × σ}, s.1.element? id = some e → ∀ cx, (v id e cx s).2 = below e.tag

def act (v : Visitor σ) (s : Tree × σ) (stop : NodeId × Context) : Tree × σ :=
  match s.1.element? stop.1 with
  | none => s
  | some e => (v stop.1 e stop.2 s).1

theorem Steered.act (hv : v.Steered below) (s : Tree × σ) (stop : NodeId × Context) :
    s.1.SameShape (v.act s stop).1 := by
  rw [Visitor.act]
  cases he : s.1.element? stop.1 with
  | none => exact .refl _
  | some e => exact hv.shape he _

theorem Steered.foldl_act (hv : v.Steered below) (stops : List (NodeId × Context)) (s : Tree × σ) :
    s.1.SameShape (stops.foldl v.act s).1 := by
  induction stops generalizing s with
  | nil => exact .refl _
  | cons stop rest ih => exact (hv.act s stop).trans (ih _)

/-- **Walks are folds.** A walk that keeps the shape acts at the stops of its route, one after the
other. -/
theorem Steered.visit_eq (hv : v.Steered below) (fuel : Nat) (id : NodeId) (cx : Context)
    (s : Tree × σ) : Tree.visit v fuel id cx s = (s.1.route below fuel id cx).foldl v.act s := by
  induction fuel generalizing id cx s with
  | zero => rfl
  | succ fuel ih =>
    -- The walks below come one after the other, each over the shape that the tree had before.
    have hbelow : ∀ (visits : List (NodeId × Context)) (t : Tree) (s : Tree × σ), t.SameShape s.1 →
        visits.foldl (fun s (id, cx) => Tree.visit v fuel id cx s) s =
          (visits.flatMap fun (id, cx) => t.route below fuel id cx).foldl v.act s := by
      intro visits t
      induction visits with
      | nil => exact fun _ _ => rfl
      | cons stop rest ihrest =>
        obtain ⟨id, cx⟩ := stop
        intro s hs
        have hstop : Tree.visit v fuel id cx s = (t.route below fuel id cx).foldl v.act s := by
          rw [ih, hs.route]
        rw [List.foldl_cons, List.flatMap_cons, List.foldl_append]
        show rest.foldl _ (Tree.visit v fuel id cx s) = _
        rw [hstop]
        exact ihrest _ (hs.trans (hv.foldl_act _ s))
    -- A visitor acts on the node first; the descent and the children are read from what it leaves.
    cases he : s.1.element? id with
    | none => rw [Tree.visit, Tree.route, Tree.tag?, he]; rfl
    | some e =>
      have hact : v.act s (id, cx) = (v id e cx s).1 := by rw [Visitor.act, he]
      rw [Tree.visit, he, Tree.route, Tree.tag?_of_element? he, List.foldl_cons, hact]
      show ((v id e cx s).2.visits cx ((v id e cx s).1.1.children id)).foldl _ (v id e cx s).1 = _
      rw [hv.descent he, (hv.shape he cx).links.children]
      exact hbelow _ _ _ (hv.shape he cx)

theorem Steered.walkFrom_eq (hv : v.Steered below) (t : Tree) (scope : NodeId) (s : σ) :
    t.walkFrom v scope s = (t.stops below scope).foldl v.act (t, s) :=
  hv.visit_eq _ _ _ _

end Visitor

end AccessibleMarkdown
