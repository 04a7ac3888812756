import AccessibleMarkdown.Proofs.Tree.Dispatch
import AccessibleMarkdown.Tree.Trace

/-!
# Walks over a tree that grows

A tracer adds leaves to the node that it is asked about, or beside it, prunes, numbers rows or goes
on to the first child only, as the kind of the node asks. What it adds comes after all that has a
place already, and no list of children is read twice, so the walk still ends, and finds each node
once and at its place.
-/

namespace AccessibleMarkdown

/-- How a tracer goes on. -/
def TraceAction.descent : TraceAction → Descent
  | .descend | .grow | .sibling => .children
  | .prune => .stop
  | .row => .rows
  | .first => .first

/-- How it goes on below a node; where there is no slot, no action is looked up. -/
def Descent.traced (actions : Tag → TraceAction) (tag : Tag) : Descent :=
  match HandlerSlot.ofTag? tag with
  | some slot => (actions slot.tag).descent
  | none => .children

theorem Descent.traced_tag {actions : Tag → TraceAction} (slot : HandlerSlot) :
    traced actions slot.tag = (actions slot.tag).descent := by
  rw [traced, HandlerSlot.ofTag?_tag]

theorem Descent.traced_of_none {actions : Tag → TraceAction} {tag : Tag}
    (h : HandlerSlot.ofTag? tag = none) : traced actions tag = .children := by
  rw [traced, h]

theorem Descent.traced_eq_rows {actions : Tag → TraceAction} {tag : Tag} :
    traced actions tag = .rows ↔ ∃ slot, tag = HandlerSlot.tag slot ∧ actions tag = .row := by
  cases hslot : HandlerSlot.ofTag? tag with
  | none =>
    rw [traced_of_none hslot]
    refine ⟨nofun, ?_⟩
    rintro ⟨slot, rfl, -⟩
    rw [HandlerSlot.ofTag?_tag] at hslot
    cases hslot
  | some slot =>
    obtain rfl := HandlerSlot.ofTag?_eq_some.mp hslot
    have hdescent : (actions slot.tag).descent = .rows ↔ actions slot.tag = .row := by
      cases actions slot.tag <;> simp [TraceAction.descent]
    rw [traced_tag, hdescent]
    exact ⟨fun hrow => ⟨slot, rfl, hrow⟩, fun ⟨_, _, hrow⟩ => hrow⟩

/-- There is a handler for the node that is not the generic one. -/
def Dispatch.hasSlot (d : Dispatch) : Bool := (HandlerSlot.ofTag? d.element.tag).isSome

/-- What a tracer records of a dispatch. -/
def Dispatch.record (d : Dispatch) : TraceRecord := ⟨d.element.tag, d.node, d.context⟩

variable {actions : Tag → TraceAction}

theorem tracer_of_none {id : NodeId} {e : Element} {cx : Context} {s : Tree × Array TraceRecord}
    (hslot : HandlerSlot.ofTag? e.tag = none) : tracer actions id e cx s = (s, .children) :=
  Visitor.ofSlots_of_none fun slot htag => absurd htag (HandlerSlot.ofTag?_eq_none.mp hslot slot)

/-- A tracer acts on old nodes only, and all that it adds are leaves that it will not act on. -/
theorem sprouts_tracer (actions : Tag → TraceAction) :
    (tracer actions).Sprouts (.traced actions) := by
  constructor
  case tree =>
    rintro t id e ⟨u, seen⟩ he hu cx
    cases hslot : HandlerSlot.ofTag? e.tag with
    | none =>
      rw [tracer_of_none hslot]
      exact hu
    | some slot =>
      have htag := HandlerSlot.ofTag?_eq_some.mp hslot
      have hid := hu.lt_size_of_slot (htag ▸ Tree.tag?_of_element? he)
      rw [tracer, Visitor.ofSlots_of_tag slot htag rfl]
      -- Two actions add a leaf, below the node or below its parent, and both of these are old.
      cases actions slot.tag with
      | descend => exact hu
      | prune => exact hu
      | row => exact hu
      | first => exact hu
      | grow => exact hu.append hid rfl
      | sibling =>
        cases hp : u.parent? id with
        | none => simpa only [hp] using hu
        | some p => simpa only [hp] using hu.append (hu.parent_lt hp) rfl
  case descent =>
    rintro id e ⟨u, seen⟩ he cx
    cases hslot : HandlerSlot.ofTag? e.tag with
    | none => rw [tracer_of_none hslot, Descent.traced_of_none hslot]
    | some slot =>
      have htag := HandlerSlot.ofTag?_eq_some.mp hslot
      rw [tracer, Visitor.ofSlots_of_tag slot htag rfl, htag, Descent.traced_tag]
      cases actions slot.tag with
      | sibling => cases hp : u.parent? id <;> simp only [hp, TraceAction.descent]
      | _ => rfl

/-- The record of a tracer grows with each node that has a slot. -/
theorem toList_tracer (actions : Tag → TraceAction) (id : NodeId) (e : Element) (cx : Context)
    (s : Tree × Array TraceRecord) : (tracer actions id e cx s).1.2.toList =
      s.2.toList ++ if (HandlerSlot.ofTag? e.tag).isSome then [⟨e.tag, id, cx⟩] else [] := by
  obtain ⟨u, seen⟩ := s
  cases hslot : HandlerSlot.ofTag? e.tag with
  | none =>
    rw [tracer_of_none hslot]
    exact (List.append_nil _).symm
  | some slot =>
    rw [tracer, Visitor.ofSlots_of_tag slot (HandlerSlot.ofTag?_eq_some.mp hslot) rfl]
    cases actions slot.tag with
    | sibling => cases hp : u.parent? id <;> simp only [hp] <;> exact Array.toList_push
    | _ => exact Array.toList_push

namespace Tree

variable {t : Tree}

/-- What a walk with a tracer dispatches, and the tree `u` that it leaves. -/
structure Traced (u : Tree) (actions : Tag → TraceAction) (log : List Dispatch) : Prop where
  once : (log.map Dispatch.node).Nodup
  there : ∀ d ∈ log, d.tree.element? d.node = some d.element
  /-- A node is where its context says, both when it is met and in the end. -/
  path : ∀ d ∈ log, d.context.path = d.tree.path d.node ∧ d.context.path = u.path d.node
  /-- The children of nodes with rows are numbered, and no others. -/
  row : ∀ d ∈ log, ∀ row, d.context.rowIndex = some row ↔ ∃ source ∈ log,
    (∃ slot, source.element.tag = HandlerSlot.tag slot ∧ actions source.element.tag = .row) ∧
      ∃ k, row = k + 1 ∧ (d.tree.children source.node)[k]? = some d.node
  wellLinked : u.WellLinked

theorem records_tracer (actions : Tag → TraceAction) (t : Tree) (start : NodeId)
    (seen : Array TraceRecord) :
    (t.walkFrom (tracer actions) start seen).2.toList = seen.toList ++
      ((t.dispatches (tracer actions) start seen).filter Dispatch.hasSlot).map Dispatch.record := by
  have hkeep := walkFrom_keeps (v := (tracer actions).logged) (P := fun r => r.2.1.toList =
    seen.toList ++ (r.2.2.filter Dispatch.hasSlot).map Dispatch.record) ?_ start
    (t := t) (s := (seen, [])) (List.append_nil _).symm
  · rwa [walkFrom_logged] at hkeep
  · intro id e cx r he hr
    have hlog : ((tracer actions).logged id e cx r).1.2.2 = r.2.2 ++ [⟨id, e, cx, r.1⟩] := rfl
    have hseen := toList_tracer actions id e cx (r.1, r.2.1)
    change ((tracer actions).logged id e cx r).1.2.1.toList = _ at hseen
    rw [hseen, hr, hlog, List.filter_append, List.map_append, List.append_assoc]
    by_cases hslot : (HandlerSlot.ofTag? e.tag).isSome <;>
      simp [Dispatch.hasSlot, hslot, Dispatch.record]

/-- **Growth.** Whatever a tracer does where, its walk ends, dispatches no node twice, and finds
each at its place. -/
theorem traced_walkFrom (ht : t.Reachable) (actions : Tag → TraceAction) (start : NodeId)
    (seen : Array TraceRecord) :
    (t.walkFrom (tracer actions) start seen).1.Traced actions
        (t.dispatches (tracer actions) start seen) ∧
      (t.walkFrom (tracer actions) start seen).2.toList = seen.toList ++
        ((t.dispatches (tracer actions) start seen).filter Dispatch.hasSlot).map Dispatch.record ∧
      ∀ after, (tracer actions).logged.Walks [(start, .ofPath (t.path start))] (t, seen, []) after ↔
        after =
          ((t.walkFrom (tracer actions) start seen).1, (t.walkFrom (tracer actions) start seen).2,
            t.dispatches (tracer actions) start seen) := by
  obtain ⟨kids, h⟩ := ht.linked
  have hv := sprouts_tracer actions
  have hlog := hv.accounts_dispatches h start seen
  have htrees := hv.sprouted_dispatches h start seen
  obtain ⟨_, hend⟩ := (hv.walkFrom h start seen).linked
  refine ⟨?_, records_tracer actions t start seen, hv.walks_logged_iff h start seen⟩
  constructor
  case once => exact hlog.once
  case there => exact fun d hd => (htrees d hd).1
  case path =>
    intro d hd
    -- The tree at the dispatch is one on the way to the last, which keeps its paths and children.
    obtain ⟨he, hd', hlater⟩ := htrees d hd
    obtain ⟨_, hlinked⟩ := hd'.linked
    rw [← hlater.path hlinked (lt_size_of_element? he)]
    exact ⟨hlog.path d hd, hlog.path d hd⟩
  case row =>
    intro d hd row
    obtain ⟨he, hd', hlater⟩ := htrees d hd
    obtain ⟨_, hlinked⟩ := hd'.linked
    rw [hlog.rowIndex_iff hend hd]
    simp only [Descent.traced_eq_rows, hlater.getElem?_children hlinked (lt_size_of_element? he)]
  case wellLinked => exact hend.wellLinked

/-- A paragraph gets an `em`, which is met, and the cells of a numbered row get an `hr` each, which
are not. -/
theorem traced_walkFrom_table :
    let t := session { tag := .div } [.append 0 { tag := .p }, .append 1 { tag := .img },
      .append 0 { tag := .table }, .append 3 { tag := .tr }, .append 4 { tag := .td },
      .append 4 { tag := .td }]
    let actions : Tag → TraceAction := fun
      | .p => .grow
      | .img => .prune
      | .table => .row
      | .td => .sibling
      | _ => .descend
    t.Reachable ∧
      (t.walkFrom (tracer actions) 0 #[]).1.Traced actions (t.dispatches (tracer actions) 0 #[]) ∧
      (t.dispatches (tracer actions) 0 #[]).map Dispatch.stop =
        [(0, ⟨⟨[]⟩, none⟩), (1, ⟨⟨[0]⟩, none⟩), (2, ⟨⟨[0, 0]⟩, none⟩), (7, ⟨⟨[0, 1]⟩, none⟩),
          (3, ⟨⟨[1]⟩, none⟩), (4, ⟨⟨[1, 0]⟩, some 1⟩), (5, ⟨⟨[1, 0, 0]⟩, none⟩),
          (6, ⟨⟨[1, 0, 1]⟩, none⟩)] ∧
      (t.walkFrom (tracer actions) 0 #[]).1.children 4 = [5, 6, 8, 9] := by
  intro t actions
  have ht : t.Reachable := ⟨_, _, rfl⟩
  exact ⟨ht, (traced_walkFrom ht actions 0 #[]).1, by decide, by decide⟩

end Tree

end AccessibleMarkdown
