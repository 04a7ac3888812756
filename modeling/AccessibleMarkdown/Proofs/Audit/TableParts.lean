import AccessibleMarkdown.Proofs.Audit.Coverage

/-!
# Parts of tables, nested in any way

The pass that marks the parts of tables reaches all nodes that are below no cell. Among these the
parts of tables get their roles, and the children of bodies that are rows get their numbers. The
number of a row comes from its parent alone: at every other node on the way down it is gone.
-/

namespace AccessibleMarkdown.Audit

variable {t : Tree} {kids : NodeId → List NodeId} {scope id : NodeId} {e : Element}
  {cx : Context} {row : Nat}

/-! ## 1. What is reached -/

/-- The node is child number `index` of a body that the walk from `scope` has passed. -/
def BodyChild (t : Tree) (scope id : NodeId) (index : Nat) : Prop :=
  id ≠ scope ∧ ∃ p, t.tag? p = some .tbody ∧ (t.children p)[index]? = some id

/-- A row number is the place among the children of a body, counted from one. -/
theorem rowIndex_placedFrom_eq_some (h : t.Linked kids) :
    (t.placedFrom rowsAndCells scope id).rowIndex = some row ↔
      ∃ index, BodyChild t scope id index ∧ row = index + 1 := by
  unfold Tree.placedFrom BodyChild
  by_cases hid : id = scope
  · rw [if_pos hid]
    exact iff_of_false nofun fun ⟨_, hchild, _⟩ => hchild.1 hid
  · rw [if_neg hid, Tree.placed]
    simp only [Option.bind_eq_some_iff, Option.ite_none_right_eq_some, Option.map_eq_some_iff,
      rowsAndCells_eq_rows, exists_eq_right, Option.some.injEq]
    constructor
    · rintro ⟨p, hp, htag, rfl⟩
      exact ⟨_, ⟨hid, p, htag, List.getElem?_idxOf (h.mem_children.mpr hp)⟩, rfl⟩
    · rintro ⟨index, ⟨-, p, htag, hindex⟩, rfl⟩
      obtain ⟨hlt, rfl⟩ := List.getElem?_eq_some_iff.mp hindex
      refine ⟨p, h.mem_children.mp (List.mem_of_getElem? hindex), htag, ?_⟩
      rw [(h.nodup_children p).idxOf_getElem index hlt]

theorem rowsAndCells_eq_stop {tag : Tag} : rowsAndCells tag = .stop ↔ tag ∈ [Tag.td, .th] := by
  unfold rowsAndCells
  split <;> simp_all

theorem mem_reached_rowsAndCells (h : t.Linked kids) (he : t.element? id = some e) :
    id ∈ t.reached rowsAndCells scope ↔ t.Exposed [.td, .th] scope id :=
  h.mem_reached_iff_exposed (fun _ => rowsAndCells_eq_stop) Pass.ariaTableIndex.below_ne_first
    (Tree.lt_size_of_element? he)

/-- The pass paints what is below no cell, each node at its place. -/
theorem paint_of_exposed (h : t.Linked kids) (he : t.element? id = some e)
    (hid : t.Exposed [.td, .th] scope id) :
    Pass.ariaTableIndex.paint scope t id e = indexed (t.placedFrom rowsAndCells scope id) e :=
  Pass.paint_of_reached h ((mem_reached_rowsAndCells h he).mpr hid) e

theorem paint_of_not_exposed (h : t.Linked kids) (he : t.element? id = some e)
    (hid : ¬ t.Exposed [.td, .th] scope id) : Pass.ariaTableIndex.paint scope t id e = e :=
  Pass.paint_of_notMem (mt (mem_reached_rowsAndCells h he).mp hid) e

/-! ## 2. Marked parts -/

/-- The roles of the parts of tables. -/
def partRoles : List (Tag × String) :=
  [(.thead, "rowgroup"), (.tbody, "rowgroup"), (.tr, "row"), (.td, "cell"), (.th, "columnheader")]

theorem mem_partRoles {tag : Tag} {name : String} :
    (tag, name) ∈ partRoles ↔ ∃ role, partRole? tag = some role ∧ role.name = name := by
  unfold partRole?
  split <;> simp_all [partRoles, TableRole.name, eq_comm]

theorem keepsBut_indexed (cx : Context) (e : Element) :
    e.KeepsBut { attrs := [roleAttr, rowIndexAttr] } (indexed cx e) := by
  cases hpart : partRole? e.tag with
  | none =>
    rw [indexed, hpart]
    exact .refl _ e
  | some role =>
    have hrole : e.KeepsBut { attrs := [roleAttr, rowIndexAttr] } (setRole role e) :=
      (Element.KeepsBut.refl _ e).set List.mem_cons_self _
    rw [indexed_eq hpart, numbered]
    split
    · split
      · exact hrole.set (List.mem_cons_of_mem _ List.mem_cons_self) _
      · exact hrole
    · exact hrole

theorem get?_number_indexed (htag : e.tag = .tr) (hrow : cx.rowIndex = some row) :
    (indexed cx e).get? rowIndexAttr = some (toString row) := by
  have hpart : partRole? e.tag = some .row := by rw [htag]; rfl
  rw [indexed_eq hpart, if_pos htag, numbered, hrow]
  exact Element.get?_set_self _ _ _

theorem get?_number_indexed_of_none (h : e.tag = .tr → cx.rowIndex = none) :
    (indexed cx e).get? rowIndexAttr = e.get? rowIndexAttr := by
  cases hpart : partRole? e.tag with
  | none => rw [indexed, hpart]
  | some role =>
    have hrole : (setRole role e).get? rowIndexAttr = e.get? rowIndexAttr :=
      Element.get?_set_of_ne (by decide) _ _
    rw [indexed_eq hpart]
    split
    · rename_i htr
      rw [numbered, h htr]
      exact hrole
    · exact hrole

/-! ## 3. Marked subtrees -/

/-- What becomes of a tree when the parts of tables in the subtree of `scope` are marked. -/
structure PartsMarked (t : Tree) (scope : NodeId) (ds : Diagnostics)
    (after : Tree × Diagnostics) : Prop where
  shape : t.SameShape after.1
  roles : ∀ id tag role, (tag, role) ∈ partRoles → t.tag? id = some tag →
    t.Exposed [.td, .th] scope id →
    (after.1.element? id).bind (·.get? "role") = some role
  numbers : ∀ id index, t.tag? id = some .tr → t.Exposed [.td, .th] scope id →
    BodyChild t scope id index →
    (after.1.element? id).bind (·.get? "aria-rowindex") = some (toString (index + 1))
  unnumbered : ∀ id,
    (t.tag? id = some .tr → t.Exposed [.td, .th] scope id → ∀ index, ¬ BodyChild t scope id index) →
    (after.1.element? id).bind (·.get? "aria-rowindex") =
      (t.element? id).bind (·.get? "aria-rowindex")
  kept : ∀ id e e', t.element? id = some e → after.1.element? id = some e' →
    e.KeepsBut { attrs := ["role", "aria-rowindex"] } e'
  others : ∀ id,
    (t.Exposed [.td, .th] scope id → ∀ tag role, (tag, role) ∈ partRoles → t.tag? id ≠ some tag) →
    after.1.get? id = t.get? id
  silent : after.2 = ds

theorem partsMarked_run (h : t.Linked kids) (probe : Probe) (scope : NodeId) (ds : Diagnostics) :
    PartsMarked t scope ds (Pass.ariaTableIndex.run probe scope t ds) := by
  have hrun : Pass.ariaTableIndex.run probe scope t ds =
      (t.repaint (Pass.ariaTableIndex.paint scope t), ds) := by
    rw [Pass.run_eq _ probe h]
    exact congrArg _ (append_nil_toArray ds)
  -- The walk paints the exposed nodes and adds no finding; each part looks at one painted element.
  rw [hrun]
  constructor
  case shape => exact t.sameShape_repaint (Pass.ariaTableIndex.tag_paint scope t)
  case roles =>
    intro id tag name hpart hid hmem
    obtain ⟨e, he, rfl⟩ := Tree.tag?_eq_some.mp hid
    obtain ⟨role, hrole, rfl⟩ := mem_partRoles.mp hpart
    rw [Tree.element?_repaint, he, Option.map_some, Option.bind_some, paint_of_exposed h he hmem]
    exact get?_role_indexed hrole _
  case numbers =>
    intro id index hid hmem hchild
    obtain ⟨e, he, htag⟩ := Tree.tag?_eq_some.mp hid
    rw [Tree.element?_repaint, he, Option.map_some, Option.bind_some, paint_of_exposed h he hmem]
    exact get?_number_indexed htag ((rowIndex_placedFrom_eq_some h).mpr ⟨index, hchild, rfl⟩)
  case unnumbered =>
    intro id hnot
    cases he : t.element? id with
    | none => rw [Tree.element?_repaint, he]; rfl
    | some e =>
      rw [Tree.element?_repaint, he, Option.map_some, Option.bind_some, Option.bind_some]
      by_cases hmem : t.Exposed [.td, .th] scope id
      · rw [paint_of_exposed h he hmem]
        apply get?_number_indexed_of_none
        intro htag
        rw [Option.eq_none_iff_forall_ne_some]
        intro row hrow
        obtain ⟨index, hchild, -⟩ := (rowIndex_placedFrom_eq_some h).mp hrow
        exact hnot ((Tree.tag?_of_element? he).trans (congrArg some htag)) hmem index hchild
      · rw [paint_of_not_exposed h he hmem]
  case kept =>
    intro id e e' he he'
    rw [Tree.element?_repaint, he, Option.map_some, Option.some.injEq] at he'
    subst he'
    by_cases hmem : t.Exposed [.td, .th] scope id
    · rw [paint_of_exposed h he hmem]
      exact keepsBut_indexed _ e
    · rw [paint_of_not_exposed h he hmem]
      exact .refl _ e
  case others =>
    intro id hother
    apply Tree.get?_repaint_self
    intro e he
    by_cases hmem : t.Exposed [.td, .th] scope id
    · have hpart : partRole? e.tag = none := by
        rw [Option.eq_none_iff_forall_ne_some]
        intro role hrole
        exact hother hmem e.tag role.name (mem_partRoles.mpr ⟨role, hrole, rfl⟩)
          (Tree.tag?_of_element? he)
      rw [paint_of_exposed h he hmem, indexed, hpart]
    · exact paint_of_not_exposed h he hmem
  case silent => rfl

/-- **Parts of tables.** Wherever the parts of tables stand, those that are below no cell of the
subtree get their roles, and the rows among them that are children of a body are numbered in it. -/
theorem run_marksParts (ht : t.Reachable) (probe : Probe) (scope : NodeId) (ds : Diagnostics) :
    PartsMarked t scope ds (Pass.ariaTableIndex.run probe scope t ds) := by
  obtain ⟨kids, h⟩ := ht.linked
  exact partsMarked_run h probe scope ds

/-- In a body, a row behind another element is number two, and one inside that element has no
number; a body in a cell is left alone. -/
theorem run_marksParts_nested :
    let t := Tree.session { tag := .tbody } [.append 0 { tag := .div }, .append 1 { tag := .tr },
      .append 0 { tag := .tr }, .append 3 { tag := .td }, .append 4 { tag := .tbody },
      .append 5 { tag := .tr }]
    let probe : Probe := fun src => .error (.notFound src)
    let after := (Pass.ariaTableIndex.run probe 0 t #[]).1
    let numberOf := fun id => (after.element? id).bind (·.get? "aria-rowindex")
    t.Reachable ∧ PartsMarked t 0 #[] (Pass.ariaTableIndex.run probe 0 t #[]) ∧ BodyChild t 0 3 1 ∧
      numberOf 3 = some "2" ∧ numberOf 2 = none ∧ after.element? 6 = some { tag := .tr } := by
  intro t probe after numberOf
  have ht : t.Reachable := ⟨_, _, rfl⟩
  have hchild : BodyChild t 0 3 1 := ⟨by decide, 0, by decide, by decide⟩
  exact ⟨ht, run_marksParts ht probe 0 #[], hchild, by decide, by decide, by decide⟩

end AccessibleMarkdown.Audit
