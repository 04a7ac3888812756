import AccessibleMarkdown.Proofs.Tree.Route

/-!
# Painting a tree

Repainting changes the element of every node and nothing else. A walk whose visitor changes at most
the node that it is at, and says something about it, repaints the nodes of its route; what it says
is what is to be said of the tree as it was before.
-/

namespace AccessibleMarkdown

namespace Tree

variable {t u : Tree} {f g : NodeId → Element → Element} {id : NodeId}

/-! ## 1. Repainting -/

/-- The tree with `f id e` in the place of the element `e` of the node `id`. -/
def repaint (t : Tree) (f : NodeId → Element → Element) : Tree :=
  ⟨t.nodes.mapIdx fun id node => { node with element := f id node.element }⟩

theorem get?_repaint (t : Tree) (f : NodeId → Element → Element) (id : NodeId) :
    (t.repaint f).get? id = (t.get? id).map fun node =>
      { node with element := f id node.element } := by
  rw [get?, get?, repaint, Array.getElem?_mapIdx]

theorem element?_repaint (t : Tree) (f : NodeId → Element → Element) (id : NodeId) :
    (t.repaint f).element? id = (t.element? id).map (f id) := by
  rw [element?, element?, get?_repaint, Option.map_map, Option.map_map]
  rfl

theorem sameShape_repaint (t : Tree) (hf : ∀ id e, (f id e).tag = e.tag) :
    t.SameShape (t.repaint f) where
  links := by
    have hread :
        ∀ (link : Node → Option NodeId), (∀ node e, link { node with element := e } = link node) →
          ∀ id, ((t.repaint f).get? id).bind link = (t.get? id).bind link := by
      intro link hlink id
      rw [get?_repaint, Option.bind_map]
      exact congrArg _ (funext fun node => hlink node _)
    exact {
      size := Array.size_mapIdx
      parent := funext (hread (·.parent) fun _ _ => rfl)
      first := funext (hread (·.children.first) fun _ _ => rfl)
      last := funext (hread (·.children.last) fun _ _ => rfl)
      prev := funext (hread (·.prev) fun _ _ => rfl)
      next := funext (hread (·.next) fun _ _ => rfl) }
  tag := by
    funext id
    rw [tag?, tag?, element?_repaint, Option.map_map]
    exact Option.map_congr fun e _ => hf id e

theorem repaint_repaint (t : Tree) (f g : NodeId → Element → Element) :
    (t.repaint f).repaint g = t.repaint fun id e => g id (f id e) := by
  apply ext_get?
  intro id
  rw [get?_repaint, get?_repaint, get?_repaint, Option.map_map]
  rfl

theorem repaint_congr (h : ∀ id e, t.element? id = some e → f id e = g id e) :
    t.repaint f = t.repaint g := by
  apply ext_get?
  intro id
  rw [get?_repaint, get?_repaint]
  apply Option.map_congr
  intro node hnode
  rw [h id node.element (by rw [element?, hnode]; rfl)]

theorem repaint_self (h : ∀ id e, t.element? id = some e → f id e = e) : t.repaint f = t := by
  apply ext_get?
  intro id
  rw [get?_repaint]
  cases hnode : t.get? id with
  | none => rfl
  | some node =>
    rw [Option.map_some, h id node.element (by rw [element?, hnode]; rfl)]

theorem modify_eq_repaint (t : Tree) (id : NodeId) (f : Element → Element) :
    t.modify id f = t.repaint fun k e => if k = id then f e else e := by
  apply ext_get?
  intro k
  rw [modify, get?_modifyNode, get?_repaint]
  by_cases hk : k = id
  · rw [if_pos hk]
    apply Option.map_congr
    intro node _
    rw [if_pos hk]
  · rw [if_neg hk]
    simp only [if_neg hk]
    exact Option.map_id'.symm

/-- Only what is done to the element that is there matters. -/
theorem modify_congr {f g : Element → Element} {e : Element} (he : t.element? id = some e)
    (h : f e = g e) : t.modify id f = t.modify id g := by
  rw [modify_eq_repaint, modify_eq_repaint]
  apply repaint_congr
  intro k e' he'
  by_cases hk : k = id
  · obtain rfl : e = e' := Option.some.inj (he.symm.trans (hk ▸ he'))
    rw [if_pos hk, if_pos hk, h]
  · rw [if_neg hk, if_neg hk]

theorem modify_self {f : Element → Element} {e : Element} (he : t.element? id = some e)
    (h : f e = e) : t.modify id f = t := by
  rw [modify_eq_repaint]
  apply repaint_self
  intro k e' he'
  by_cases hk : k = id
  · obtain rfl : e = e' := Option.some.inj (he.symm.trans (hk ▸ he'))
    rw [if_pos hk, h]
  · rw [if_neg hk]

theorem size_repaint (t : Tree) (f : NodeId → Element → Element) : (t.repaint f).size = t.size :=
  Array.size_mapIdx

/-- Links are set in the same way whatever the elements are. -/
theorem modifyNode_repaint {g : Node → Node}
    (hg : ∀ n e, g { n with element := e } = { g n with element := e }) (t : Tree)
    (f : NodeId → Element → Element) (id : NodeId) :
    (t.modifyNode id g).repaint f = (t.repaint f).modifyNode id g := by
  apply ext_get?
  intro k
  rw [get?_repaint, get?_modifyNode, get?_modifyNode, get?_repaint]
  by_cases hk : k = id
  · rw [if_pos hk, if_pos hk, Option.map_map, Option.map_map]
    apply Option.map_congr
    intro n _
    have helement : (g n).element = n.element := congrArg (·.element) (hg n n.element)
    show ({ g n with element := f k (g n).element } : Node) = g { n with element := f k n.element }
    rw [helement]
    exact (hg n (f k n.element)).symm
  · rw [if_neg hk, if_neg hk]

theorem create_repaint (t : Tree) (f : NodeId → Element → Element) (e : Element) :
    (t.create e).1.repaint f = ((t.repaint f).create (f t.size e)).1 := by
  apply ext_get?
  intro k
  rw [get?_repaint, get?_create, get?_create, get?_repaint, size_repaint]
  by_cases hk : k = t.size
  · rw [if_pos hk, if_pos hk, hk]
    rfl
  · rw [if_neg hk, if_neg hk]

theorem link_repaint (hf : ∀ id e, (f id e).tag = e.tag) (t : Tree) (p c : NodeId) :
    (t.link p c).repaint f = (t.repaint f).link p c := by
  have hlast : (t.repaint f).lastChild? p = t.lastChild? p :=
    congrFun (t.sameShape_repaint hf).links.last p
  simp only [link, hlast]
  cases t.lastChild? p
  all_goals
    rw [modifyNode_repaint, modifyNode_repaint, modifyNode_repaint]
    all_goals exact fun _ _ => rfl

/-- A new node is painted with the others. -/
theorem grow_repaint (hf : ∀ id e, (f id e).tag = e.tag) (t : Tree) (p : NodeId) (e : Element) :
    (t.grow p e).repaint f = (t.repaint f).grow p (f t.size e) := by
  rw [Tree.grow, Tree.grow, link_repaint hf, create_repaint, size_repaint]

theorem modify_repaint {g : Element → Element} (hg : ∀ e, f id (g e) = g (f id e)) (t : Tree) :
    (t.modify id g).repaint f = (t.repaint f).modify id g := by
  rw [modify_eq_repaint, modify_eq_repaint, repaint_repaint, repaint_repaint]
  apply repaint_congr
  intro k e _
  by_cases hk : k = id
  · rw [if_pos hk, if_pos hk, hk, hg]
  · rw [if_neg hk, if_neg hk]

/-! ## 2. What is done at stops -/

variable {δ : Type} {stops : List (NodeId × Context)}

/-- The painting of the nodes among `stops`; a brush sees the children of a node, and the context of
the visit to it. -/
def brushed (stops : List (NodeId × Context)) (brush : List NodeId → Context → Element → Element)
    (t : Tree) (id : NodeId) (e : Element) : Element :=
  match stops.lookup id with
  | some cx => brush (t.children id) cx e
  | none => e

theorem repaint_brushed_self (stops : List (NodeId × Context)) (t : Tree) :
    t.repaint (brushed stops (fun _ _ e => e) t) = t := by
  apply repaint_self
  intro id e _
  rw [brushed]
  split <;> rfl

/-- What is to be said about the nodes among `stops`. -/
def survey (t : Tree) (notes : NodeId → Context → Element → List δ)
    (stops : List (NodeId × Context)) : List δ :=
  stops.flatMap fun stop => ((t.element? stop.1).map (notes stop.1 stop.2)).getD []

variable {notes : NodeId → Context → Element → List δ}

theorem survey_cons (t : Tree) (notes : NodeId → Context → Element → List δ)
    (stop : NodeId × Context) (stops : List (NodeId × Context)) : t.survey notes (stop :: stops) =
      ((t.element? stop.1).map (notes stop.1 stop.2)).getD [] ++ t.survey notes stops :=
  List.flatMap_cons

theorem mem_survey {d : δ} :
    d ∈ t.survey notes stops ↔
      ∃ stop ∈ stops, ∃ e, t.element? stop.1 = some e ∧ d ∈ notes stop.1 stop.2 e := by
  rw [survey, List.mem_flatMap]
  refine exists_congr fun stop => and_congr_right fun _ => ?_
  cases t.element? stop.1 with
  | none => simp
  | some e => simp

theorem survey_repaint (t : Tree) (f : NodeId → Element → Element) :
    (t.repaint f).survey notes stops = t.survey (fun id cx e => notes id cx (f id e)) stops := by
  apply List.flatMap_congr
  intro stop _
  rw [element?_repaint, Option.map_map]
  rfl

theorem survey_eq_nil
    (h : ∀ stop ∈ stops, ∀ e, t.element? stop.1 = some e → notes stop.1 stop.2 e = []) :
    t.survey notes stops = [] := by
  apply List.flatMap_eq_nil_iff.mpr
  intro stop hstop
  cases he : t.element? stop.1 with
  | none => rfl
  | some e => exact h stop hstop e he

theorem filter_survey (t : Tree) (notes : NodeId → Context → Element → List δ) (p : δ → Bool)
    (stops : List (NodeId × Context)) :
    (t.survey notes stops).filter p = t.survey (fun id cx e => (notes id cx e).filter p) stops := by
  rw [survey, List.filter_flatMap]
  apply List.flatMap_congr
  intro stop _
  cases t.element? stop.1 <;> rfl

end Tree

namespace Visitor

variable {δ : Type} {v : Visitor (Array δ)} {below : Tag → Descent}

open AccessibleMarkdown.Tree (survey brushed)

/-- The visitor changes nothing, and adds `notes` about the node. -/
def Reports (v : Visitor (Array δ)) (below : Tag → Descent)
    (notes : Tree → NodeId → Context → Element → List δ) : Prop :=
  ∀ id e cx t ds, v id e cx (t, ds) = ((t, ds ++ (notes t id cx e).toArray), below e.tag)

theorem Reports.steered {notes : Tree → NodeId → Context → Element → List δ}
    (hv : v.Reports below notes) : v.Steered below where
  shape {id e s} _ cx := by
    obtain ⟨t, ds⟩ := s
    rw [hv id e cx t ds]
    exact .refl t
  descent {id e s} _ cx := by
    obtain ⟨t, ds⟩ := s
    rw [hv id e cx t ds]

theorem Reports.foldl_act {notes : Tree → NodeId → Context → Element → List δ}
    (hv : v.Reports below notes) (t : Tree) (stops : List (NodeId × Context)) (ds : Array δ) :
    stops.foldl v.act (t, ds) = (t, ds ++ (t.survey (notes t) stops).toArray) := by
  induction stops generalizing ds with
  | nil => rw [survey, List.flatMap_nil, Array.append_empty]; rfl
  | cons stop rest ih =>
    obtain ⟨id, cx⟩ := stop
    rw [List.foldl_cons]
    cases he : t.element? id with
    | none =>
      have hact : v.act (t, ds) (id, cx) = (t, ds) := by rw [act, he]
      rw [hact, ih, Tree.survey_cons, he]
      rfl
    | some e =>
      have hact : v.act (t, ds) (id, cx) = (t, ds ++ (notes t id cx e).toArray) := by
        rw [act, he]
        exact congrArg Prod.fst (hv id e cx t ds)
      rw [hact, ih, Tree.survey_cons, he, Array.append_assoc, List.append_toArray (notes t id cx e)]
      rfl

/-- The visitor changes at most the node that it is at, as `brush` says, and adds `notes` about
it. -/
structure Paints (v : Visitor (Array δ)) (below : Tag → Descent)
    (brush : List NodeId → Context → Element → Element)
    (notes : NodeId → Context → Element → List δ) : Prop where
  tag : ∀ ids cx e, (brush ids cx e).tag = e.tag
  step : ∀ {id e} {t : Tree}, t.element? id = some e → ∀ cx ds,
    v id e cx (t, ds) =
      ((t.modify id (brush (t.children id) cx), ds ++ (notes id cx e).toArray), below e.tag)

variable {brush : List NodeId → Context → Element → Element}
  {notes : NodeId → Context → Element → List δ}

theorem Paints.steered (hv : v.Paints below brush notes) : v.Steered below where
  shape {id e s} he cx := by
    obtain ⟨t, ds⟩ := s
    rw [hv.step he]
    exact Tree.sameShape_modify t id (hv.tag _ _)
  descent {id e s} he cx := by
    obtain ⟨t, ds⟩ := s
    rw [hv.step he]

/-- **Painting.** At stops that are all different, each node is painted and surveyed as it was in
the beginning. -/
theorem Paints.foldl_act (hv : v.Paints below brush notes) (t : Tree)
    {stops : List (NodeId × Context)} (hnodup : (stops.map Prod.fst).Nodup) (ds : Array δ) :
    stops.foldl v.act (t, ds) =
      (t.repaint (brushed stops brush t), ds ++ (t.survey notes stops).toArray) := by
  induction stops generalizing t ds with
  | nil =>
    have hpaint : t.repaint (brushed [] brush t) = t := Tree.repaint_self fun _ _ _ => rfl
    rw [survey, List.flatMap_nil, Array.append_empty, hpaint]
    rfl
  | cons stop rest ih =>
    obtain ⟨id, cx⟩ := stop
    rw [List.map_cons, List.nodup_cons] at hnodup
    obtain ⟨hid, hrest⟩ := hnodup
    -- No later stop is at `id`, so what is done here is neither seen nor undone later.
    have hne : ∀ stop ∈ rest, stop.1 ≠ id := by
      intro stop hstop heq
      exact hid (List.mem_map.mpr ⟨stop, hstop, heq⟩)
    rw [List.foldl_cons, Tree.survey_cons]
    cases he : t.element? id with
    | none =>
      have hact : v.act (t, ds) (id, cx) = (t, ds) := by rw [act, he]
      have hpaint :
          t.repaint (brushed ((id, cx) :: rest) brush t) = t.repaint (brushed rest brush t) := by
        apply Tree.repaint_congr
        intro k e hk
        have hne : k ≠ id := by
          rintro rfl
          rw [he] at hk
          cases hk
        rw [brushed, brushed, List.lookup_cons, beq_false_of_ne hne]
      rw [hact, ih t hrest, hpaint]
      rfl
    | some e =>
      have hact : v.act (t, ds) (id, cx) =
          (t.modify id (brush (t.children id) cx), ds ++ (notes id cx e).toArray) := by
        rw [act, he]
        exact congrArg Prod.fst (hv.step he cx ds)
      have hlookup : rest.lookup id = none := by
        rw [List.lookup_eq_none_iff]
        exact fun stop hstop => bne_iff_ne.mpr (hne stop hstop).symm
      have hchildren := (Tree.sameLinks_modify (t := t) id (brush (t.children id) cx)).children
      have hpaint : (t.modify id (brush (t.children id) cx)).repaint
            (brushed rest brush (t.modify id (brush (t.children id) cx))) =
          t.repaint (brushed ((id, cx) :: rest) brush t) := by
        rw [Tree.modify_eq_repaint, Tree.repaint_repaint]
        apply Tree.repaint_congr
        intro k e hk
        by_cases hkid : k = id
        · subst hkid
          rw [if_pos rfl, brushed, brushed, hlookup, List.lookup_cons_self]
        · rw [if_neg hkid, brushed, brushed, List.lookup_cons, beq_false_of_ne hkid,
            ← Tree.modify_eq_repaint, hchildren]
      have hsurvey :
          (t.modify id (brush (t.children id) cx)).survey notes rest = t.survey notes rest := by
        apply List.flatMap_congr
        intro stop hstop
        rw [Tree.element?_modify, if_neg (hne stop hstop)]
      rw [hact, ih _ hrest, hpaint, hsurvey, Array.append_assoc,
        List.append_toArray (notes id cx e)]
      rfl

theorem Paints.walkFrom_eq (hv : v.Paints below brush notes) {t : Tree}
    {kids : NodeId → List NodeId} (h : t.Linked kids) (scope : NodeId) (ds : Array δ) :
    t.walkFrom v scope ds = (t.repaint (brushed (t.stops below scope) brush t),
      ds ++ (t.survey notes (t.stops below scope)).toArray) := by
  rw [hv.steered.walkFrom_eq, hv.foldl_act t (h.nodup_stops below scope)]

theorem Reports.walkFrom_eq {notes : Tree → NodeId → Context → Element → List δ}
    (hv : v.Reports below notes) (t : Tree) (scope : NodeId) (ds : Array δ) :
    t.walkFrom v scope ds = (t, ds ++ (t.survey (notes t) (t.stops below scope)).toArray) := by
  rw [hv.steered.walkFrom_eq, hv.foldl_act]

end Visitor

end AccessibleMarkdown
