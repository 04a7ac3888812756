import AccessibleMarkdown.Audit.Pass
import AccessibleMarkdown.Proofs.Audit.Markers
import AccessibleMarkdown.Proofs.Element.Attributes
import AccessibleMarkdown.Proofs.Tree.Handlers
import AccessibleMarkdown.Proofs.Tree.Painting

/-!
# What each pass does

A pass paints the nodes that it visits and adds notes about them. What it paints a node with depends
on the element of the node, on its children and on the context of the visit; which nodes it visits
depends on the shape of the tree only.
-/

namespace AccessibleMarkdown.Audit

variable {t u : Tree} {kids : NodeId → List NodeId} {scope id : NodeId} {e : Element}

/-! ## 1. Walks -/

def stopAt (tag : Tag) : Tag → Descent := fun k => if k = tag then .stop else .children

theorem stopAt_ne_first (tag k : Tag) : stopAt tag k ≠ .first := by
  unfold stopAt
  split <;> exact nofun

/-- A walk that numbers the rows of bodies and does not go below cells. -/
def rowsAndCells : Tag → Descent
  | .tbody => .rows
  | .td | .th => .stop
  | _ => .children

theorem rowsAndCells_eq_rows {tag : Tag} : rowsAndCells tag = .rows ↔ tag = .tbody := by
  unfold rowsAndCells
  split <;> simp_all

/-! ## 2. Brushes -/

def repaired (e : Element) : Element :=
  if e.tag = .img ∧ (altFault? e).isSome then e.set "alt" altPlaceholder else e

/-- The role that a heading asks for. -/
def askedRole? (e : Element) : Option LandmarkRole :=
  if e.tag = .h1 then e.text.bind markedRole? else none

def titled (e : Element) : Element :=
  match askedRole? e with
  | some role => { e with text := e.text.map stripMarkers }.set roleAttr role.name
  | none => e

def counted (ids : List NodeId) (e : Element) : Element :=
  if e.tag = .table then (setRole .table e).set rowCountAttr (toString ids.length) else e

/-- The role of a part of a table. -/
def partRole? : Tag → Option TableRole
  | .thead | .tbody => some .rowGroup
  | .tr => some .row
  | .td => some .cell
  | .th => some .columnHeader
  | _ => none

def numbered (cx : Context) (e : Element) : Element :=
  match cx.rowIndex with
  | some row => e.set rowIndexAttr (toString row)
  | none => e

def indexed (cx : Context) (e : Element) : Element :=
  match partRole? e.tag with
  | some role => if e.tag = .tr then numbered cx (setRole role e) else setRole role e
  | none => e

/-! ## 3. Notes -/

def altNotes (_ : NodeId) (cx : Context) (e : Element) : List Diagnostic :=
  if e.tag = .img then
    match altFault? e with
    | some (rule, message) =>
      [{ rule, criterion := some .nonTextContent, message, path := cx.path }]
    | none => []
  else []

def repeatNotes (t : Tree) (id : NodeId) (cx : Context) (e : Element) : List Diagnostic :=
  if e.tag = .p then altRepeats t cx [] 0 (t.children id) else []

def roleNotes (_ : NodeId) (cx : Context) (e : Element) : List Diagnostic :=
  match askedRole? e with
  | some role => [{ rule := "aria-role-set", severity := .debug,
                    message := "Setting role to " ++ role.name, path := cx.path }]
  | none => []

def contrastNotes (probe : Probe) (_ : NodeId) (cx : Context) (e : Element) : List Diagnostic :=
  if e.tag = .img then
    let verdict := contrastVerdict probe (e.get? "src")
    [{ rule := verdict.1, criterion := some .contrastMinimum, message := verdict.2,
       path := cx.path }]
  else []

/-- The rules of findings about contrast. -/
def contrastRules : List String :=
  ["contrast-no-src", "contrast-estimate", "contrast-image-missing", "contrast-image-unreadable"]

theorem rule_contrastVerdict (probe : Probe) (src : Option String) :
    (contrastVerdict probe src).1 ∈ contrastRules := by
  unfold contrastVerdict
  split
  · decide
  · decide
  · split
    · show "contrast-estimate" ∈ contrastRules
      decide
    · show "contrast-image-missing" ∈ contrastRules
      decide
    · show "contrast-image-unreadable" ∈ contrastRules
      decide

/-! ## 4. Visitors -/

theorem push_eq_append (ds : Diagnostics) (d : Diagnostic) : ds.push d = ds ++ [d].toArray :=
  Array.push_eq_append

theorem append_nil_toArray (ds : Diagnostics) : ds ++ ([] : List Diagnostic).toArray = ds :=
  Array.append_empty

theorem paints_altRepair : altRepair.Paints (stopAt .img) (fun _ _ => repaired) altNotes where
  tag _ _ e := by
    rw [repaired]
    split <;> rfl
  step {id e t} he cx ds := by
    by_cases htag : e.tag = .img
    · have hbelow : stopAt .img e.tag = .stop := if_pos htag
      rw [hbelow, altNotes, if_pos htag, altRepair, Visitor.only_of_tag .img htag, repairAlt]
      cases hfault : altFault? e with
      | none =>
        have hself : repaired e = e :=
          if_neg fun h => by rw [hfault] at h; exact Bool.false_ne_true h.2
        rw [Tree.modify_self he hself, append_nil_toArray]
      | some fault =>
        -- The handler sets the attribute of the element that is there.
        have hset : e.set "alt" altPlaceholder = repaired e :=
          (if_pos ⟨htag, by rw [hfault]; rfl⟩).symm
        rw [← push_eq_append, Tree.modify_congr he hset]
    · have hbelow : stopAt .img e.tag = .children := if_neg htag
      have hself : repaired e = e := if_neg fun h => htag h.1
      rw [hbelow, altNotes, if_neg htag, append_nil_toArray, Tree.modify_self he hself, altRepair,
        Visitor.only_of_ne .img htag]

theorem reports_altDuplicates : altDuplicates.Reports (stopAt .p) repeatNotes := by
  intro id e cx t ds
  by_cases htag : e.tag = .p
  · rw [repeatNotes, if_pos htag, stopAt, if_pos htag, altDuplicates, Visitor.only_of_tag .p htag,
      reportRepeats]
  · rw [repeatNotes, if_neg htag, stopAt, if_neg htag, append_nil_toArray, altDuplicates,
      Visitor.only_of_ne .p htag]

theorem reports_contrastReport (probe : Probe) :
    (contrastReport probe).Reports (stopAt .img) fun _ => contrastNotes probe := by
  intro id e cx t ds
  show _ = ((t, ds ++ (contrastNotes probe id cx e).toArray), stopAt .img e.tag)
  by_cases htag : e.tag = .img
  · rw [contrastNotes, if_pos htag, stopAt, if_pos htag, contrastReport,
      Visitor.only_of_tag .img htag, reportContrast, ← push_eq_append]
  · rw [contrastNotes, if_neg htag, stopAt, if_neg htag, append_nil_toArray, contrastReport,
      Visitor.only_of_ne .img htag]

theorem paints_headingRoles : headingRoles.Paints (stopAt .h1) (fun _ _ => titled) roleNotes where
  tag _ _ e := by
    rw [titled]
    split <;> rfl
  step {id e t} he cx ds := by
    by_cases htag : e.tag = .h1
    · have hbelow : stopAt .h1 e.tag = .stop := if_pos htag
      have hasked : askedRole? e = e.text.bind markedRole? := if_pos htag
      rw [hbelow, roleNotes, headingRoles, Visitor.only_of_tag .h1 htag, applyRole, hasked]
      -- Without a text, or without the name of a role in it, the heading is painted as it is.
      cases htext : e.text with
      | none =>
        have hself : titled e = e := by rw [titled, hasked, htext]; rfl
        rw [Tree.modify_self he hself]
        exact congrArg (fun ds => ((t, ds), Descent.stop)) (append_nil_toArray ds).symm
      | some text =>
        rw [Option.bind_some]
        cases hrole : markedRole? text with
        | none =>
          have hself : titled e = e := by rw [titled, hasked, htext, Option.bind_some, hrole]
          rw [Tree.modify_self he hself, append_nil_toArray]
          simp only [hrole]
        | some role =>
          have hpaint : t.modify id titled =
              t.modify id fun e =>
                { e with text := some (stripMarkers text) }.set roleAttr role.name := by
            apply Tree.modify_congr he
            rw [titled, hasked, htext, Option.bind_some, hrole]
            rfl
          rw [← push_eq_append, hpaint]
          simp only [hrole]
    · have hbelow : stopAt .h1 e.tag = .children := if_neg htag
      have hasked : askedRole? e = none := if_neg htag
      have hself : titled e = e := by rw [titled, hasked]
      rw [hbelow, roleNotes, hasked, append_nil_toArray, Tree.modify_self he hself, headingRoles,
        Visitor.only_of_ne .h1 htag]

theorem paints_tableRoles :
    tableRoles.Paints (stopAt .table) (fun ids _ => counted ids) fun _ _ _ => [] where
  tag ids _ e := by
    rw [counted]
    split <;> rfl
  step {id e t} he cx ds := by
    rw [append_nil_toArray]
    by_cases htag : e.tag = .table
    · have hpaint : t.modify id (counted (t.children id)) =
          t.modify id fun e =>
            (setRole .table e).set rowCountAttr (toString (t.children id).length) :=
        Tree.modify_congr he (if_pos htag)
      rw [stopAt, if_pos htag, hpaint, tableRoles, Visitor.only_of_tag .table htag, countParts]
    · have hself : counted (t.children id) e = e := if_neg htag
      rw [stopAt, if_neg htag, Tree.modify_self he hself, tableRoles,
        Visitor.only_of_ne .table htag]

theorem tableIndex_of_none {cx : Context} {s : Tree × Diagnostics}
    (hrole : partRole? e.tag = none) : tableIndex id e cx s = (s, .children) := by
  apply Visitor.ofSlots_of_none
  intro slot hslot
  rw [hslot] at hrole
  cases slot with
  | thead | tbody | tr | td | th => cases hrole
  | _ => rfl

theorem paints_tableIndex : tableIndex.Paints rowsAndCells (fun _ => indexed) fun _ _ _ => [] where
  tag _ cx e := by
    have hnumber : ∀ e, (numbered cx e).tag = e.tag := fun e => by rw [numbered]; split <;> rfl
    rw [indexed]
    split
    · split
      · exact hnumber _
      · rfl
    · rfl
  step {id e t} he cx ds := by
    have hpaint : ∀ f : Element → Element, indexed cx e = f e →
        t.modify id (indexed cx) = t.modify id f :=
      fun f hf => Tree.modify_congr he hf
    rw [append_nil_toArray]
    -- One case for each kind that has a handler.
    cases htag : e.tag with
    | thead =>
      rw [hpaint (setRole .rowGroup) (by rw [indexed, htag]; rfl), tableIndex,
        Visitor.ofSlots_of_tag .thead htag rfl]
      rfl
    | tbody =>
      rw [hpaint (setRole .rowGroup) (by rw [indexed, htag]; rfl), tableIndex,
        Visitor.ofSlots_of_tag .tbody htag rfl]
      rfl
    | tr =>
      rw [hpaint (fun e => numbered cx (setRole .row e)) (by rw [indexed, htag]; rfl), tableIndex,
        Visitor.ofSlots_of_tag .tr htag rfl]
      rfl
    | td =>
      rw [hpaint (setRole .cell) (by rw [indexed, htag]; rfl), tableIndex,
        Visitor.ofSlots_of_tag .td htag rfl]
      rfl
    | th =>
      rw [hpaint (setRole .columnHeader) (by rw [indexed, htag]; rfl), tableIndex,
        Visitor.ofSlots_of_tag .th htag rfl]
      rfl
    | _ =>
      have hrole : partRole? e.tag = none := by rw [htag]; rfl
      have hself : indexed cx e = e := by rw [indexed, hrole]
      rw [Tree.modify_self he hself, tableIndex_of_none hrole]
      rfl

/-! ## 5. Passes -/

namespace Pass

/-- How the walk in which a pass paints goes on. -/
def below : Pass → Tag → Descent
  | altCheck | imageContrast => stopAt .img
  | titleCheck => fun _ => .stop
  | ariaRole => stopAt .h1
  | ariaTableRole => stopAt .table
  | ariaTableIndex => rowsAndCells

theorem below_ne_first (pass : Pass) (tag : Tag) : pass.below tag ≠ .first := by
  cases pass with
  | altCheck | ariaRole | ariaTableRole | imageContrast => exact stopAt_ne_first _ tag
  | titleCheck => exact nofun
  | ariaTableIndex =>
    show rowsAndCells tag ≠ .first
    unfold rowsAndCells
    split <;> exact nofun

def brush : Pass → List NodeId → Context → Element → Element
  | altCheck, _, _, e => repaired e
  | ariaRole, _, _, e => titled e
  | ariaTableRole, ids, _, e => counted ids e
  | ariaTableIndex, _, cx, e => indexed cx e
  | titleCheck, _, _, e | imageContrast, _, _, e => e

/-- What a pass makes of the elements of a tree. -/
def paint (pass : Pass) (scope : NodeId) (t : Tree) : NodeId → Element → Element :=
  Tree.brushed (t.stops pass.below scope) pass.brush t

def notes (probe : Probe) (scope : NodeId) (t : Tree) : Pass → List Diagnostic
  | altCheck =>
    let after := t.repaint (altCheck.paint scope t)
    t.survey altNotes (t.stops (stopAt .img) scope) ++
      after.survey (repeatNotes after) (after.stops (stopAt .p) scope)
  | titleCheck => titleFaults t
  | ariaRole => t.survey roleNotes (t.stops (stopAt .h1) scope)
  | ariaTableRole | ariaTableIndex => []
  | imageContrast => t.survey (contrastNotes probe) (t.stops (stopAt .img) scope)

/-- **Effects.** A pass paints the tree and adds its notes. -/
theorem run_eq (pass : Pass) (probe : Probe) (h : t.Linked kids) (scope : NodeId)
    (ds : Diagnostics) :
    pass.run probe scope t ds =
      (t.repaint (pass.paint scope t), ds ++ (pass.notes probe scope t).toArray) := by
  have hnothing : ∀ stops, t.survey (fun _ _ _ => ([] : List Diagnostic)) stops = [] :=
    fun _ => Tree.survey_eq_nil fun _ _ _ _ => rfl
  cases pass with
  | altCheck =>
    -- The second walk sees the tree that the first has repaired.
    have hwalks : altCheck.run probe scope t ds =
        (t.walkFrom altRepair scope ds).1.walkFrom altDuplicates scope
        (t.walkFrom altRepair scope ds).2 := rfl
    rw [hwalks, paints_altRepair.walkFrom_eq h, reports_altDuplicates.walkFrom_eq,
      Array.append_assoc, List.append_toArray (t.survey altNotes _)]
    rfl
  | titleCheck => exact congrArg (·, _) (Tree.repaint_brushed_self _ t).symm
  | ariaRole => exact paints_headingRoles.walkFrom_eq h scope ds
  | ariaTableRole =>
    have := paints_tableRoles.walkFrom_eq h scope ds
    rwa [hnothing] at this
  | ariaTableIndex =>
    have := paints_tableIndex.walkFrom_eq h scope ds
    rwa [hnothing] at this
  | imageContrast =>
    have hself : t.repaint (imageContrast.paint scope t) = t := Tree.repaint_brushed_self _ t
    rw [hself]
    exact (reports_contrastReport probe).walkFrom_eq t scope ds

end Pass

end AccessibleMarkdown.Audit
