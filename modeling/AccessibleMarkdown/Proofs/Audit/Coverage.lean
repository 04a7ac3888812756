import AccessibleMarkdown.Proofs.Audit.Extent
import AccessibleMarkdown.Proofs.Tree.Coordinates
import AccessibleMarkdown.Proofs.Tree.Overriding

/-!
# What a walk covers

A walk that stops at the nodes of some kinds covers those that are below no other one in the subtree
where it starts. What it says about them is listed in document order, each with the place of its
node.
-/

namespace AccessibleMarkdown

variable {t u : Tree} {kids : NodeId → List NodeId} {below : Tag → Descent}
  {tags : List Tag} {tag : Tag} {scope id : NodeId} {α δ : Type}

namespace Tree

/-! ## 1. Nodes that are not below others -/

/-- The node is in the subtree of `scope`, and no node above it there has one of the tags. -/
def Exposed (t : Tree) (tags : List Tag) (scope id : NodeId) : Prop :=
  t.Within scope id ∧
    ∀ a tag, t.Within scope a → t.Within a id → a ≠ id → t.tag? a = some tag → tag ∉ tags

/-- The node has the tag, and is below no other node with the tag in the subtree of `scope`. -/
def Outermost (t : Tree) (tag : Tag) (scope id : NodeId) : Prop :=
  t.tag? id = some tag ∧ t.Exposed [tag] scope id

theorem Outermost.tag_of_element? (hid : t.Outermost tag scope id) {e : Element}
    (he : t.element? id = some e) : e.tag = tag :=
  Option.some.inj ((tag?_of_element? he).symm.trans hid.1)

theorem SameShape.exposed (h : t.SameShape u) : u.Exposed = t.Exposed := by
  have hwithin : u.Within = t.Within := by
    funext top id
    rw [Within, Within, h.links.children]
  funext tags scope id
  rw [Exposed, Exposed, hwithin, h.tag]

theorem SameShape.outermost (h : t.SameShape u) : u.Outermost = t.Outermost := by
  funext tag scope id
  rw [Outermost, Outermost, h.exposed, h.tag]

/-- A walk that stops at the tags meets what is exposed to it. -/
theorem Linked.mem_reached_iff_exposed (h : t.Linked kids)
    (hstop : ∀ tag, below tag = .stop ↔ tag ∈ tags) (hfirst : ∀ tag, below tag ≠ .first)
    (hid : id < t.size) : id ∈ t.reached below scope ↔ t.Exposed tags scope id := by
  rw [h.mem_reached_iff hfirst, Exposed]
  simp only [h.within_iff, ne_eq, hstop]
  exact and_iff_right hid

theorem get?_repaint_self {f : NodeId → Element → Element}
    (h : ∀ e, t.element? id = some e → f id e = e) : (t.repaint f).get? id = t.get? id := by
  rw [get?_repaint]
  cases hnode : t.get? id with
  | none => rfl
  | some node => rw [Option.map_some, h node.element (by rw [element?, hnode]; rfl)]

/-! ## 2. Lists in document order -/

/-- The list says `note id x` for each `x` that is found at a node `id`, in document order, and
nothing else. -/
def Listed (t : Tree) (found : NodeId → α → Prop) (note : NodeId → α → δ) (said : List δ) : Prop :=
  ∃ log : List (NodeId × α), (∀ id x, (id, x) ∈ log ↔ found id x) ∧
    (log.Pairwise fun a b => (t.path a.1).Before (t.path b.1)) ∧
    said = log.map fun entry => note entry.1 entry.2

theorem pairwise_filterMap {ids : List NodeId}
    (hids : ids.Pairwise fun a b => (t.path a).Before (t.path b)) (find : NodeId → Option α) :
    (ids.filterMap fun id => (find id).map (id, ·)).Pairwise fun a b =>
      (t.path a.1).Before (t.path b.1) := by
  rw [List.pairwise_filterMap]
  refine hids.imp fun {a b} hab x hx y hy => ?_
  obtain ⟨_, -, rfl⟩ := Option.map_eq_some_iff.mp hx
  obtain ⟨_, -, rfl⟩ := Option.map_eq_some_iff.mp hy
  exact hab

/-- Of nodes in document order, those at which something is found. -/
theorem listed_filterMap {ids : List NodeId}
    (hids : ids.Pairwise fun a b => (t.path a).Before (t.path b)) (find : NodeId → Option α)
    (note : NodeId → α → δ) :
    t.Listed (fun id x => id ∈ ids ∧ find id = some x) note
      (ids.filterMap fun id => (find id).map (note id)) := by
  refine ⟨ids.filterMap fun id => (find id).map (id, ·), fun id x => ?_,
    pairwise_filterMap hids find, ?_⟩
  · rw [List.mem_filterMap]
    constructor
    · rintro ⟨k, hk, hfind⟩
      obtain ⟨y, hy, heq⟩ := Option.map_eq_some_iff.mp hfind
      cases heq
      exact ⟨hk, hy⟩
    · rintro ⟨hid, hfind⟩
      exact ⟨id, hid, by rw [hfind]; rfl⟩
  · rw [List.map_filterMap]
    simp only [Option.map_map]
    rfl

theorem Listed.congr {found found' : NodeId → α → Prop} {note : NodeId → α → δ} {said : List δ}
    (h : t.Listed found note said) (hfound : ∀ id x, found id x ↔ found' id x) :
    t.Listed found' note said := by
  obtain ⟨log, hlog, hrest⟩ := h
  exact ⟨log, fun id x => (hlog id x).trans (hfound id x), hrest⟩

end Tree

namespace Audit

theorem stopAt_eq_stop {k : Tag} : stopAt tag k = .stop ↔ k ∈ [tag] := by
  unfold stopAt
  split <;> simp_all

theorem stopAt_ne_rows (tag k : Tag) : stopAt tag k ≠ .rows := by
  unfold stopAt
  split <;> exact nofun

/-! ## 3. What is said about outermost nodes -/

theorem flatMap_filter {p : α → Bool} {f : α → List δ} (hf : ∀ x, p x = false → f x = [])
    (xs : List α) : (xs.filter p).flatMap f = xs.flatMap f := by
  induction xs with
  | nil => rfl
  | cons x xs ih =>
    cases hx : p x with
    | true => rw [List.filter_cons_of_pos hx, List.flatMap_cons, List.flatMap_cons, ih]
    | false =>
      rw [List.filter_cons_of_neg (by simp [hx]), List.flatMap_cons, hf x hx, ih, List.nil_append]

/-- The nodes with the tag that a walk meets if it stops at them. -/
def covered (t : Tree) (tag : Tag) (scope : NodeId) : List NodeId :=
  (t.reached (stopAt tag) scope).filter fun id => t.tag? id = some tag

section
variable (h : t.Linked kids)
include h

theorem mem_reached_of_outermost (hid : t.Outermost tag scope id) :
    id ∈ t.reached (stopAt tag) scope :=
  (h.mem_reached_iff_exposed (fun _ => stopAt_eq_stop) (stopAt_ne_first tag)
    (Tree.lt_size_of_tag? hid.1)).mpr hid.2

theorem mem_covered_iff : id ∈ covered t tag scope ↔ t.Outermost tag scope id := by
  rw [covered, List.mem_filter, decide_eq_true_iff]
  constructor
  · rintro ⟨hmem, htag⟩
    exact ⟨htag, (h.mem_reached_iff_exposed (fun _ => stopAt_eq_stop) (stopAt_ne_first tag)
      (Tree.lt_size_of_tag? htag)).mp hmem⟩
  · intro hid
    exact ⟨mem_reached_of_outermost h hid, hid.1⟩

theorem pairwise_covered (tag : Tag) (scope : NodeId) :
    (covered t tag scope).Pairwise fun a b => (t.path a).Before (t.path b) :=
  (h.pairwise_before (stopAt tag) t.walkDepth scope).filter _

/-- Notes about nodes with the tag are notes about the outermost ones, each at its place. -/
theorem survey_covered {notes : NodeId → Context → Element → List δ}
    (hnotes : ∀ id cx e, e.tag ≠ tag → notes id cx e = []) (scope : NodeId) :
    t.survey notes (t.stops (stopAt tag) scope) = (covered t tag scope).flatMap fun id =>
      ((t.element? id).map (notes id (.ofPath (t.path id)))).getD [] := by
  have hplace : t.placedFrom (stopAt tag) scope = fun id => .ofPath (t.path id) :=
    funext fun id => Tree.placedFrom_eq (stopAt_ne_rows tag) scope id
  have hnone : ∀ id, t.tag? id ≠ some tag →
      ((t.element? id).map (notes id (.ofPath (t.path id)))).getD [] = [] := by
    intro id htag
    cases he : t.element? id with
    | none => rfl
    | some e =>
      exact hnotes id _ e fun heq => htag ((Tree.tag?_of_element? he).trans (congrArg some heq))
  rw [h.stops_eq, hplace, Tree.survey, List.flatMap_map, covered, flatMap_filter]
  intro id htag
  exact hnone id (of_decide_eq_false htag)

section
variable {find : Element → Option α} {note : Path → α → δ}
  {notes : NodeId → Context → Element → List δ}
  (hnotes : ∀ id cx e, notes id cx e = ((find e).map (note cx.path)).toList)
  (htag : ∀ e x, find e = some x → e.tag = tag)
include hnotes htag

/-- One thing at most is found at a node of the tag. -/
theorem survey_found (scope : NodeId) :
    t.survey notes (t.stops (stopAt tag) scope) = (covered t tag scope).filterMap fun id =>
      ((t.element? id).bind find).map (note (t.path id)) := by
  have hnone : ∀ id cx e, e.tag ≠ tag → notes id cx e = [] := by
    intro id cx e hne
    rw [hnotes]
    cases hfind : find e with
    | none => rfl
    | some x => exact absurd (htag e x hfind) hne
  rw [survey_covered h hnone, List.filterMap_eq_flatMap_toList]
  apply List.flatMap_congr
  intro id _
  cases he : t.element? id with
  | none => rfl
  | some e => exact hnotes id (.ofPath (t.path id)) e

theorem listed_survey (scope : NodeId) :
    t.Listed (fun id x => t.Outermost tag scope id ∧ (t.element? id).bind find = some x)
      (fun id => note (t.path id)) (t.survey notes (t.stops (stopAt tag) scope)) := by
  rw [survey_found h hnotes htag]
  have hlisted :=
    Tree.listed_filterMap (pairwise_covered h tag scope) (fun id => (t.element? id).bind find)
      fun id => note (t.path id)
  exact hlisted.congr fun id x => and_congr_left' (mem_covered_iff h)

end

end

/-- A pass that stops at the nodes of one tag, and paints no others, paints the outermost ones
alone. -/
theorem Pass.paint_of_not_outermost (h : t.Linked kids) {pass : Pass}
    (hbelow : pass.below = stopAt tag) (hother : ∀ ids cx e, e.tag ≠ tag → pass.brush ids cx e = e)
    (hid : ¬ t.Outermost tag scope id) {e : Element} (he : t.element? id = some e) :
    pass.paint scope t id e = e := by
  by_cases hmem : id ∈ t.reached pass.below scope
  · rw [Pass.paint_of_reached h hmem]
    apply hother
    intro htag
    have hid' := (Tree.tag?_of_element? he).trans (congrArg some htag)
    rw [hbelow] at hmem
    exact hid ((mem_covered_iff h).mp (List.mem_filter.mpr ⟨hmem, decide_eq_true hid'⟩))
  · exact Pass.paint_of_notMem hmem e

/-- Trees of one shape have the same outermost nodes, and in the same order. -/
theorem covered_congr (h : t.SameShape u) (tag : Tag) (scope : NodeId) :
    covered u tag scope = covered t tag scope := by
  rw [covered, covered, ← Tree.map_fst_stops, ← Tree.map_fst_stops, h.stops, h.tag]

end Audit

end AccessibleMarkdown
