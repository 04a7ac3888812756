import AccessibleMarkdown.Proofs.Tree.Dispatch

/-!
# Handlers for some kinds

A visitor that has handlers for some kinds of nodes, and goes on below all nodes of other kinds, is
asked once about each node that it can come to without going through a handled one, in document
order and in the context of its place. The handlers may do anything but change links and tags.
-/

namespace AccessibleMarkdown

/-- What is done at a node, by a visitor that does not go on below it. -/
abbrev Handler (σ : Type) := NodeId → Element → Context → Tree × σ → Tree × σ

/-- The handler changes neither links nor tags. -/
def Handler.KeepsShape {σ : Type} (handle : Handler σ) : Prop :=
  ∀ id e cx (s : Tree × σ), s.1.SameShape (handle id e cx s).1

/-- Has handlers of its own in some slots, and goes on below all nodes of other kinds. -/
def Visitor.overriding {σ : Type} (slots : List HandlerSlot) (handle : HandlerSlot → Handler σ) :
    Visitor σ :=
  .ofSlots fun slot =>
    if slot ∈ slots then some fun id e cx s => (handle slot id e cx s, .stop) else none

namespace Descent

/-- On to all children, except below nodes of some kinds. -/
def outside (kinds : List Tag) (tag : Tag) : Descent := if tag ∈ kinds then .stop else .children

variable {kinds : List Tag} {tag : Tag}

@[simp] theorem outside_eq_stop : outside kinds tag = .stop ↔ tag ∈ kinds := by
  unfold outside
  split <;> simp [*]

@[simp] theorem outside_ne_first : outside kinds tag ≠ .first := by
  unfold outside
  split <;> simp

@[simp] theorem outside_ne_rows : outside kinds tag ≠ .rows := by
  unfold outside
  split <;> simp

end Descent

/-! ## 1. Logs of routes -/

namespace Visitor

variable {σ : Type} {v : Visitor σ} {below : Tag → Descent} {t : Tree} {kids : NodeId → List NodeId}

theorem overriding_of_mem {slots : List HandlerSlot} (handle : HandlerSlot → Handler σ)
    {slot : HandlerSlot} (hslot : slot ∈ slots) {id : NodeId} {e : Element}
    (htag : e.tag = slot.tag) (cx : Context) (s : Tree × σ) :
    overriding slots handle id e cx s = (handle slot id e cx s, .stop) := by
  rw [overriding, ofSlots_of_tag slot htag (if_pos hslot)]

theorem overriding_of_notMem {slots : List HandlerSlot} (handle : HandlerSlot → Handler σ)
    {id : NodeId} {e : Element} (htag : e.tag ∉ slots.map HandlerSlot.tag) (cx : Context)
    (s : Tree × σ) : overriding slots handle id e cx s = (s, .children) := by
  apply ofSlots_of_none
  intro slot hslot
  apply if_neg
  intro hmem
  exact htag (hslot ▸ List.mem_map_of_mem hmem)

theorem steered_overriding {slots : List HandlerSlot} {handle : HandlerSlot → Handler σ}
    (hkeep : ∀ slot ∈ slots, (handle slot).KeepsShape) :
    (overriding slots handle).Steered (.outside (slots.map HandlerSlot.tag)) := by
  constructor
  case shape =>
    intro id e s _ cx
    by_cases hmem : e.tag ∈ slots.map HandlerSlot.tag
    · obtain ⟨slot, hslot, htag⟩ := List.mem_map.mp hmem
      rw [overriding_of_mem handle hslot htag.symm]
      exact hkeep slot hslot id e cx s
    · rw [overriding_of_notMem handle hmem]
      exact .refl _
  case descent =>
    intro id e s _ cx
    by_cases hmem : e.tag ∈ slots.map HandlerSlot.tag
    · obtain ⟨slot, hslot, htag⟩ := List.mem_map.mp hmem
      rw [overriding_of_mem handle hslot htag.symm, Descent.outside, if_pos hmem]
    · rw [overriding_of_notMem handle hmem, Descent.outside, if_neg hmem]

namespace Steered

theorem logged (hv : v.Steered below) : v.logged.Steered below where
  shape {_ _} r he cx := hv.shape (s := (r.1, r.2.1)) he cx
  descent {_ _} r he cx := hv.descent (s := (r.1, r.2.1)) he cx

/-- Each act at a node that exists adds its stop to the log. -/
theorem map_stop_foldl_act (hv : v.Steered below) (stops : List (NodeId × Context))
    {r : Tree × σ × List Dispatch} (hstops : ∀ stop ∈ stops, stop.1 < r.1.size) :
    (stops.foldl v.logged.act r).2.2.map Dispatch.stop = r.2.2.map Dispatch.stop ++ stops := by
  induction stops generalizing r with
  | nil => exact (List.append_nil _).symm
  | cons stop stops ih =>
    obtain ⟨e, he⟩ := Tree.exists_element? (hstops stop List.mem_cons_self)
    have hact : v.logged.act r stop = (v.logged stop.1 e stop.2 r).1 := by rw [Visitor.act, he]
    have hlog : (v.logged.act r stop).2.2 = r.2.2 ++ [⟨stop.1, e, stop.2, r.1⟩] := by rw [hact]; rfl
    have hsize := (hv.logged.act r stop).links.size
    rw [List.foldl_cons, ih fun x hx => ?_, hlog, List.map_append, List.append_assoc]
    · rfl
    · rw [hsize]
      exact hstops x (List.mem_cons_of_mem _ hx)

/-- A walk that keeps the shape dispatches the stops of its route. -/
theorem map_stop_dispatches (hv : v.Steered below) (ht : t.Linked kids) (start : NodeId) (s : σ) :
    (t.dispatches v start s).map Dispatch.stop = t.stops below start := by
  have hstops : ∀ stop ∈ t.stops below start, stop.1 < t.size := by
    intro stop hstop
    have hmem := List.mem_map_of_mem (f := Prod.fst) hstop
    rw [Tree.map_fst_stops] at hmem
    exact (ht.above_of_mem_visited hmem).2
  rw [Tree.dispatches, hv.logged.walkFrom_eq, hv.map_stop_foldl_act _ hstops]
  rfl

theorem map_node_dispatches (hv : v.Steered below) (ht : t.Linked kids) (start : NodeId) (s : σ) :
    (t.dispatches v start s).map Dispatch.node = t.reached below start := by
  rw [← Tree.map_fst_stops, ← hv.map_stop_dispatches ht start s, List.map_map]
  rfl

theorem sameShape_dispatches (hv : v.Steered below) (t : Tree) (start : NodeId) (s : σ) :
    ∀ d ∈ t.dispatches v start s, t.SameShape d.tree := by
  have hkeep := Tree.walkFrom_keeps (v := v.logged)
    (P := fun r => t.SameShape r.1 ∧ ∀ d ∈ r.2.2, t.SameShape d.tree) ?_ start (t := t)
    (s := (s, []))
    ⟨.refl t, nofun⟩
  · exact hkeep.2
  · rintro id e cx r he ⟨hr, hlog⟩
    refine ⟨hr.trans (hv.logged.shape he cx), fun d hd => ?_⟩
    obtain hd | hd := List.mem_append.mp hd
    · exact hlog d hd
    · rw [List.mem_singleton.mp hd]
      exact hr

end Steered

end Visitor

/-! ## 2. What is dispatched -/

namespace Tree

variable {σ : Type} {t : Tree} {kids : NodeId → List NodeId} {below : Tag → Descent}
  {start : NodeId}

/-- Where rows are not numbered, every visit is in the context of its place alone. -/
theorem placedFrom_eq (hrows : ∀ tag, below tag ≠ .rows) (start id : NodeId) :
    t.placedFrom below start id = .ofPath (t.path id) := by
  have hindex : ((t.parent? id).bind fun p =>
      if (t.tag? p).map below = some .rows then
        some ((t.children p).idxOf id + 1) else none) = none := by
    cases t.parent? id with
    | none => rfl
    | some p =>
      apply if_neg
      rw [Option.map_eq_some_iff]
      rintro ⟨tag, -, htag⟩
      exact hrows tag htag
  unfold placedFrom placed
  rw [hindex, Context.ofPath, ite_self]

/-- The log of a walk over the subtree of `start` with handlers for `kinds`. -/
structure Dispatched (t : Tree) (kinds : List Tag) (start : NodeId)
    (log : List Dispatch) : Prop where
  /-- It is about the nodes without a handled one above them in the subtree, ... -/
  covers : ∀ id, id ∈ log.map Dispatch.node ↔ id < t.size ∧ t.Within start id ∧
    ∀ a tag, t.Within start a → t.Within a id → a ≠ id → t.tag? a = some tag → tag ∉ kinds
  /-- ... once about each, ... -/
  once : (log.map Dispatch.node).Nodup
  /-- ... and in document order. -/
  ordered : log.Pairwise fun a b => (t.path a.node).Before (t.path b.node)
  /-- Neither links nor tags have changed on the way, ... -/
  kept : ∀ d ∈ log, t.SameShape d.tree
  /-- ... so the place of a node is what it was in the beginning. -/
  placed : ∀ d ∈ log, d.context = .ofPath (t.path d.node)
  missing : t.size ≤ start → log = []

/-- **Dispatch.** The walk ends, whatever the handlers in some slots do to the elements, and
dispatches just what can be reached without going through a handled node. -/
theorem dispatched_overriding (ht : t.Reachable) (slots : List HandlerSlot)
    {handle : HandlerSlot → Handler σ} (hkeep : ∀ slot ∈ slots, (handle slot).KeepsShape)
    (start : NodeId) (s : σ) :
    t.Dispatched (slots.map HandlerSlot.tag) start
        (t.dispatches (.overriding slots handle) start s) ∧
      ∀ after, (Visitor.overriding slots handle).logged.Walks [(start, .ofPath (t.path start))]
          (t, s, []) after ↔
        after = ((t.walkFrom (.overriding slots handle) start s).1,
          (t.walkFrom (.overriding slots handle) start s).2,
          t.dispatches (.overriding slots handle) start s) := by
  obtain ⟨kids, h⟩ := ht.linked
  have hv := Visitor.steered_overriding hkeep
  -- No handler changes links or tags, so the log has the nodes that a fixed descent reaches in the
  -- first tree.
  have hnodes := hv.map_node_dispatches h start s
  refine ⟨?_, hv.sprouts.walks_logged_iff h start s⟩
  constructor
  case covers =>
    intro id
    rw [hnodes, h.mem_reached_iff fun _ => Descent.outside_ne_first]
    simp only [h.within_iff, ne_eq, Descent.outside_eq_stop]
  case once =>
    rw [hnodes]
    exact h.nodup_visited _ _ start
  case ordered =>
    have horder := h.pairwise_before (.outside (slots.map HandlerSlot.tag)) t.walkDepth start
    change (t.reached (.outside (slots.map HandlerSlot.tag)) start).Pairwise _ at horder
    rwa [← hnodes, List.pairwise_map] at horder
  case kept => exact hv.sameShape_dispatches t start s
  case placed =>
    intro d hd
    have hstop := List.mem_map_of_mem (f := Dispatch.stop) hd
    rw [hv.map_stop_dispatches h, h.stops_eq] at hstop
    obtain ⟨id, -, heq⟩ := List.mem_map.mp hstop
    rw [placedFrom_eq fun _ => Descent.outside_ne_rows] at heq
    have hnode : id = d.node := congrArg Prod.fst heq
    have hcontext : .ofPath (t.path id) = d.context := congrArg Prod.snd heq
    rw [← hcontext, hnode]
  case missing =>
    intro hstart
    rw [reached, visited_missing hstart] at hnodes
    exact List.map_eq_nil_iff.mp hnodes

/-- Paragraphs and images are marked, each kind in its own way, and counted; the image in the
paragraph is not met. -/
theorem dispatched_overriding_images :
    let t := session { tag := .div } [.append 0 { tag := .p }, .append 1 { tag := .img },
      .append 0 { tag := .table }, .append 3 { tag := .img }]
    let mark : HandlerSlot → Handler Nat := fun slot id _ _ s =>
      (s.1.modify id fun e => { e with text := some slot.tag.name }, s.2 + 1)
    t.Reachable ∧ (∀ slot ∈ [HandlerSlot.p, .img], (mark slot).KeepsShape) ∧
      t.Dispatched [.p, .img] 0 (t.dispatches (.overriding [.p, .img] mark) 0 0) ∧
      (t.dispatches (.overriding [.p, .img] mark) 0 0).map Dispatch.node = [0, 1, 3, 4] ∧
      (t.walkFrom (.overriding [.p, .img] mark) 0 0).2 = 2 := by
  intro t mark
  have ht : t.Reachable := ⟨_, _, rfl⟩
  have hmark : ∀ slot ∈ [HandlerSlot.p, .img], (mark slot).KeepsShape := by
    intro slot _ id e cx s
    show s.1.SameShape (s.1.modify id fun e => { e with text := some slot.tag.name })
    exact sameShape_modify s.1 id fun _ => rfl
  exact ⟨ht, hmark, (dispatched_overriding ht [.p, .img] hmark 0 0).1, by decide, by decide⟩

end Tree

end AccessibleMarkdown
