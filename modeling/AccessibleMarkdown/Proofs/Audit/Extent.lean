import AccessibleMarkdown.Proofs.Audit.Ownership
import AccessibleMarkdown.Proofs.Tree.Reach
import AccessibleMarkdown.Proofs.Tree.Session

/-!
# How far a pass goes

A pass that runs at a node changes elements at and below that node and nothing else of the tree. Of
an element it writes only parts that are known from its tag, its alternative text, the marker in its
text and the tag of its parent.
-/

namespace AccessibleMarkdown

/-! ## 1. Parts of an element -/

/-- Parts of an element that may be written: its text, and the attributes of some names. -/
structure Element.Parts where
  text : Bool := false
  attrs : List String := []

/-- All but some parts of an element is kept: the tag, the tail, the text unless it is one of the
parts, and the attributes of all other names in their order. -/
structure Element.KeepsBut (parts : Element.Parts) (e e' : Element) : Prop where
  tag : e'.tag = e.tag
  tail : e'.tail = e.tail
  text : parts.text = false → e'.text = e.text
  attrs : e'.attrs.others parts.attrs = e.attrs.others parts.attrs

namespace Element.KeepsBut

variable {parts : Element.Parts} {e e' e'' : Element} {name : String}

theorem refl (parts : Element.Parts) (e : Element) : e.KeepsBut parts e :=
  ⟨rfl, rfl, fun _ => rfl, rfl⟩

theorem set (h : e.KeepsBut parts e') (hname : name ∈ parts.attrs) (value : String) :
    e.KeepsBut parts (e'.set name value) :=
  ⟨h.tag, h.tail, h.text, (Attributes.others_set hname e'.attrs value).trans h.attrs⟩

end Element.KeepsBut

namespace Audit

variable {t : Tree} {kids : NodeId → List NodeId} {pass : Pass} {scope id : NodeId} {e : Element}

/-! ## 2. Parts that a pass may write -/

/-- The parts of an element that a pass may write. -/
def Pass.parts (t : Tree) (id : NodeId) (e : Element) : Pass → Element.Parts
  | altCheck =>
    if e.tag = .img ∧ (e.get? "alt" = none ∨ e.get? "alt" = some "") then { attrs := ["alt"] }
    else {}
  | ariaRole =>
    if e.tag = .h1 ∧ (e.text.bind markedRole?).isSome then { text := true, attrs := [roleAttr] }
    else {}
  | ariaTableRole => if e.tag = .table then { attrs := [roleAttr, rowCountAttr] } else {}
  | ariaTableIndex =>
    if e.tag = .tr ∧ (t.parent? id).bind t.tag? = some .tbody then
      { attrs := [roleAttr, rowIndexAttr] }
    else if e.tag ∈ [.thead, .tbody, .tr, .td, .th] then { attrs := [roleAttr] } else {}
  | titleCheck | imageContrast => {}

theorem altFault?_isSome : (altFault? e).isSome ↔ e.get? "alt" = none ∨ e.get? "alt" = some "" := by
  unfold altFault?
  split <;> simp_all

theorem keeps_repaired (t : Tree) (id : NodeId) (e : Element) :
    e.KeepsBut (Pass.altCheck.parts t id e) (repaired e) := by
  rw [repaired, Pass.parts]
  simp only [altFault?_isSome]
  split
  · exact (Element.KeepsBut.refl _ e).set List.mem_cons_self _
  · exact .refl _ e

theorem keeps_titled (t : Tree) (id : NodeId) (e : Element) :
    e.KeepsBut (Pass.ariaRole.parts t id e) (titled e) := by
  unfold titled
  cases hasked : askedRole? e with
  | none => exact .refl _ e
  | some role =>
    have htag : e.tag = .h1 := by
      by_contra hne
      rw [askedRole?, if_neg hne] at hasked
      cases hasked
    have hmarked : e.text.bind markedRole? = some role := by rwa [askedRole?, if_pos htag] at hasked
    have hparts : Pass.ariaRole.parts t id e = { text := true, attrs := [roleAttr] } :=
      if_pos ⟨htag, by rw [hmarked]; rfl⟩
    rw [hparts]
    have htext :
        e.KeepsBut { text := true, attrs := [roleAttr] }
          { e with text := e.text.map stripMarkers } :=
      ⟨rfl, rfl, Bool.noConfusion, rfl⟩
    exact htext.set List.mem_cons_self _

theorem keeps_counted (t : Tree) (id : NodeId) (ids : List NodeId) (e : Element) :
    e.KeepsBut (Pass.ariaTableRole.parts t id e) (counted ids e) := by
  rw [counted, Pass.parts]
  split
  · have hself := Element.KeepsBut.refl { attrs := [roleAttr, rowCountAttr] } e
    have hrole := hself.set List.mem_cons_self TableRole.table.name
    exact hrole.set (List.mem_cons_of_mem _ List.mem_cons_self) _
  · exact .refl _ e

theorem partRole?_isSome {tag : Tag} :
    (partRole? tag).isSome ↔ tag ∈ [Tag.thead, .tbody, .tr, .td, .th] := by
  unfold partRole?
  split <;> simp_all

/-- The parent of a row that is numbered is a body. -/
theorem rowIndex_placedFrom {row : Nat}
    (h : (t.placedFrom rowsAndCells scope id).rowIndex = some row) :
    (t.parent? id).bind t.tag? = some .tbody := by
  unfold Tree.placedFrom at h
  split at h
  · cases h
  · obtain ⟨p, hp, hrow⟩ := Option.bind_eq_some_iff.mp h
    split at hrow
    · rename_i hrows
      obtain ⟨tag, htag, hbelow⟩ := Option.map_eq_some_iff.mp hrows
      rw [hp, Option.bind_some, htag, rowsAndCells_eq_rows.mp hbelow]
    · cases hrow

theorem keeps_indexed (t : Tree) (scope id : NodeId) (e : Element) :
    e.KeepsBut (Pass.ariaTableIndex.parts t id e)
      (indexed (t.placedFrom rowsAndCells scope id) e) := by
  cases hpart : partRole? e.tag with
  | none =>
    have hself : indexed (t.placedFrom rowsAndCells scope id) e = e := by rw [indexed, hpart]
    rw [hself]
    exact .refl _ e
  | some role =>
    have hmem : e.tag ∈ [Tag.thead, .tbody, .tr, .td, .th] :=
      partRole?_isSome.mp (by rw [hpart]; rfl)
    -- The role may be set on every part of a table, the number on a row in a body only.
    have hrole : roleAttr ∈ (Pass.ariaTableIndex.parts t id e).attrs := by
      rw [Pass.parts, if_pos hmem]
      split
      · exact List.mem_cons_self
      · exact List.mem_cons_self
    have hset : e.KeepsBut (Pass.ariaTableIndex.parts t id e) (setRole role e) :=
      (Element.KeepsBut.refl _ e).set hrole _
    rw [indexed_eq hpart]
    split
    · rename_i htr
      unfold numbered
      split
      · rename_i row hrow
        apply hset.set
        have hparts : Pass.ariaTableIndex.parts t id e = { attrs := [roleAttr, rowIndexAttr] } :=
          if_pos ⟨htr, rowIndex_placedFrom hrow⟩
        rw [hparts]
        exact List.mem_cons_of_mem _ List.mem_cons_self
      · exact hset
    · exact hset

/-! ## 3. Extent -/

namespace Pass

theorem keeps_brush (pass : Pass) (t : Tree) (scope id : NodeId) (ids : List NodeId) (e : Element) :
    e.KeepsBut (pass.parts t id e) (pass.brush ids (t.placedFrom pass.below scope id) e) := by
  cases pass with
  | altCheck => exact keeps_repaired t id e
  | ariaRole => exact keeps_titled t id e
  | ariaTableRole => exact keeps_counted t id ids e
  | ariaTableIndex => exact keeps_indexed t scope id e
  | titleCheck | imageContrast => exact .refl _ e

/-- A node that a walk meets is painted at its place. -/
theorem paint_of_reached (h : t.Linked kids) (hid : id ∈ t.reached pass.below scope) (e : Element) :
    pass.paint scope t id e = pass.brush (t.children id) (t.placedFrom pass.below scope id) e := by
  rw [paint, Tree.brushed, h.stops_eq, List.lookup_graph _ hid]

theorem paint_of_notMem (hid : id ∉ t.reached pass.below scope) (e : Element) :
    pass.paint scope t id e = e := by
  have hlookup : (t.stops pass.below scope).lookup id = none := by
    rw [List.lookup_eq_none_iff]
    intro stop hstop
    apply bne_iff_ne.mpr
    rintro rfl
    rw [← Tree.map_fst_stops] at hid
    exact hid (List.mem_map_of_mem hstop)
  rw [paint, Tree.brushed, hlookup]

theorem keeps_paint (h : t.Linked kids) (pass : Pass) (scope id : NodeId) (e : Element) :
    e.KeepsBut (pass.parts t id e) (pass.paint scope t id e) := by
  by_cases hid : id ∈ t.reached pass.below scope
  · rw [paint_of_reached h hid]
    exact pass.keeps_brush t scope id _ e
  · rw [paint_of_notMem hid]
    exact .refl _ e

/-- What a pass leaves of a tree that it runs over at and below `scope`. -/
structure Confined (pass : Pass) (scope : NodeId) (t u : Tree) : Prop where
  /-- The arena has its size, and nodes have their links and tags. -/
  shape : t.SameShape u
  tail : ∀ id, (u.element? id).bind (·.tail) = (t.element? id).bind (·.tail)
  outside : ∀ id, ¬ t.Above scope id → u.get? id = t.get? id
  inside : ∀ id e e', t.element? id = some e → u.element? id = some e' →
    e.KeepsBut (pass.parts t id e) e'
  silent : pass = .titleCheck ∨ pass = .imageContrast → u = t

/-- **Extent.** A pass is confined to the subtree of its scope and to the parts that it may write,
wherever it runs: at the root, at a detached node, or at none. -/
theorem run_confined (ht : t.Reachable) (pass : Pass) (probe : Probe) (scope : NodeId)
    (ds : Diagnostics) : pass.Confined scope t (pass.run probe scope t ds).1 := by
  obtain ⟨kids, h⟩ := ht.linked
  have hkeeps := keeps_paint h pass scope
  rw [pass.run_eq probe h]
  constructor
  · exact t.sameShape_repaint (pass.tag_paint scope t)
  · intro id
    rw [Tree.element?_repaint, Option.bind_map]
    exact congrArg _ (funext fun e => (hkeeps id e).tail)
  · intro id hid
    have hnot : id ∉ t.reached pass.below scope := fun hmem => hid (h.above_of_mem_visited hmem).1
    rw [Tree.get?_repaint]
    simp only [paint_of_notMem hnot]
    exact Option.map_id'
  · intro id e e' he he'
    rw [Tree.element?_repaint, he, Option.map_some, Option.some.injEq] at he'
    rw [← he']
    exact hkeeps id e
  · rintro (rfl | rfl)
    · exact Tree.repaint_brushed_self _ t
    · exact Tree.repaint_brushed_self _ t

/-- A table with one row in its body, below a heading and beside a detached row. -/
theorem run_confined_table :
    let t := Tree.session { tag := .div }
      [.append 0 { tag := .h1, text := some "Start ==main==" }, .append 0 { tag := .table },
        .append 2 { tag := .tbody }, .append 3 { tag := .tr }, .create { tag := .tr }]
    t.Reachable ∧ ∀ pass : Pass, ∀ scope probe ds,
      pass.Confined scope t (pass.run probe scope t ds).1 := by
  intro t
  have ht : t.Reachable := ⟨_, _, rfl⟩
  exact ⟨ht, fun pass scope probe ds => run_confined ht pass probe scope ds⟩

end Pass

end Audit

end AccessibleMarkdown
