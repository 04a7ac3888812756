import AccessibleMarkdown.Proofs.Audit.Independence

/-!
# Running a pipeline again

What passes have painted they would paint the same way again, so a second run leaves the tree as it
is. Images have alternative text then and headings have no markers, so nothing is repaired; all
other findings recur.
-/

namespace AccessibleMarkdown.Audit

variable {t : Tree} {kids : NodeId → List NodeId} {scope : NodeId} {passes : List Pass}

/-! ## 1. Findings that recur -/

/-- The rules of findings that the passes repair. -/
def repairRules : List String := ["alt-missing", "alt-empty", "aria-role-set"]

def Diagnostic.recurs (d : Diagnostic) : Bool := d.rule ∉ repairRules

theorem recurs_of_rule {d : Diagnostic} {rule : String} (h : rule ∉ repairRules)
    (hd : d.rule = rule) : d.recurs = true := by
  rw [Diagnostic.recurs, hd]
  exact decide_eq_true h

theorem filter_altNotes (id : NodeId) (cx : Context) (e : Element) :
    (altNotes id cx e).filter (·.recurs) = [] := by
  rw [altNotes, altFault?]
  split
  · split
    · next hfault =>
      split at hfault
      · cases hfault; rfl
      · cases hfault; rfl
      · cases hfault
    · rfl
  · rfl

theorem filter_roleNotes (id : NodeId) (cx : Context) (e : Element) :
    (roleNotes id cx e).filter (·.recurs) = [] := by
  rw [roleNotes]
  split <;> rfl

theorem recurs_altRepeats (t : Tree) (cx : Context) (seen : List String) (index : Nat)
    (ids : List NodeId) : ∀ d ∈ altRepeats t cx seen index ids, d.recurs = true := by
  intro d hd
  obtain ⟨i, id, img, alt, -, -, rfl⟩ := exists_of_mem_altRepeats hd
  exact recurs_of_rule (by decide : "alt-duplicate" ∉ repairRules) rfl

theorem recurs_repeatNotes (t : Tree) (id : NodeId) (cx : Context) (e : Element) :
    (repeatNotes t id cx e).filter (·.recurs) = repeatNotes t id cx e := by
  rw [List.filter_eq_self, repeatNotes]
  split
  · exact recurs_altRepeats _ _ _ _ _
  · exact List.forall_mem_nil _

theorem recurs_titleFaults (t : Tree) : (titleFaults t).filter (·.recurs) = titleFaults t := by
  rw [titleFaults]
  split <;> rfl

theorem recurs_contrastNotes (probe : Probe) (id : NodeId) (cx : Context) (e : Element) :
    (contrastNotes probe id cx e).filter (·.recurs) = contrastNotes probe id cx e := by
  have hrules : ∀ rule ∈ contrastRules, rule ∉ repairRules := by decide
  rw [contrastNotes]
  split
  · apply List.filter_eq_self.mpr
    intro d hd
    rw [List.mem_singleton.mp hd]
    exact recurs_of_rule (hrules _ (rule_contrastVerdict probe _)) rfl
  · rfl

/-! ## 2. One pass -/

section
variable {notes : NodeId → Context → Element → List Diagnostic} {stops : List (NodeId × Context)}

theorem filter_survey_eq_nil (h : ∀ id cx e, (notes id cx e).filter (·.recurs) = []) (t : Tree)
    (stops : List (NodeId × Context)) : (t.survey notes stops).filter (·.recurs) = [] := by
  rw [Tree.filter_survey]
  exact Tree.survey_eq_nil fun stop _ e _ => h stop.1 stop.2 e

theorem filter_survey_eq_self
    (h : ∀ id cx e, (notes id cx e).filter (·.recurs) = notes id cx e) (t : Tree)
    (stops : List (NodeId × Context)) :
    (t.survey notes stops).filter (·.recurs) = t.survey notes stops := by
  rw [Tree.filter_survey]
  simp only [h]

/-- Where the brush of a pass takes away all that there was to say. -/
theorem survey_painted (pass : Pass)
    (h : ∀ ids cx id cx' e, notes id cx' (pass.brush ids cx e) = []) (scope : NodeId) (t : Tree) :
    (t.repaint (pass.paint scope t)).survey notes (t.stops pass.below scope) = [] := by
  rw [Tree.survey_repaint]
  apply Tree.survey_eq_nil
  intro stop hstop e _
  have hsome : ((t.stops pass.below scope).lookup stop.1).isSome :=
    List.lookup_isSome_iff.mpr ⟨stop, hstop, beq_self_eq_true _⟩
  obtain ⟨cx, hcx⟩ := Option.isSome_iff_exists.mp hsome
  rw [Pass.paint, Tree.brushed, hcx]
  exact h _ _ _ _ _

end

theorem notes_repaint_self (pass : Pass) (probe : Probe) (scope : NodeId) (t : Tree) :
    pass.notes probe scope (t.repaint (pass.paint scope t)) =
      (pass.notes probe scope t).filter (·.recurs) := by
  have hshape := t.sameShape_repaint (pass.tag_paint scope t)
  cases pass with
  | altCheck =>
    -- The second repair changes nothing, so repeated texts are looked for in the same tree.
    have hagain : (t.repaint (Pass.altCheck.paint scope t)).repaint
          (Pass.altCheck.paint scope (t.repaint (Pass.altCheck.paint scope t))) =
        t.repaint (Pass.altCheck.paint scope t) := by
      rw [Pass.paint_congr hshape, Tree.repaint_repaint]
      simp only [Pass.paint_paint]
    have hrepaired : ∀ (ids : List NodeId) (cx : Context) id cx' e,
        altNotes id cx' (Pass.altCheck.brush ids cx e) = [] := by
      intro ids cx id cx' e
      show altNotes id cx' (repaired e) = []
      have htag : (repaired e).tag = e.tag := Pass.altCheck.tag_brush ids cx e
      rw [altNotes, htag]
      split
      · next himg => rw [altFault?_repaired himg]
      · rfl
    have hfirst := survey_painted .altCheck hrepaired scope t
    rw [Pass.notes, Pass.notes, hagain, hshape.stops, List.filter_append,
      filter_survey_eq_nil filter_altNotes, filter_survey_eq_self (recurs_repeatNotes _)]
    exact congrArg (· ++ _) hfirst
  | titleCheck =>
    have hself : t.repaint (Pass.titleCheck.paint scope t) = t := Tree.repaint_brushed_self _ t
    rw [hself]
    exact (recurs_titleFaults t).symm
  | ariaRole =>
    have htitled : ∀ (ids : List NodeId) (cx : Context) id cx' e,
        roleNotes id cx' (Pass.ariaRole.brush ids cx e) = [] := by
      intro ids cx id cx' e
      show roleNotes id cx' (titled e) = []
      rw [roleNotes, askedRole?_titled]
    have hfirst := survey_painted .ariaRole htitled scope t
    rw [Pass.notes, Pass.notes, hshape.stops, filter_survey_eq_nil filter_roleNotes]
    exact hfirst
  | ariaTableRole => rfl
  | ariaTableIndex => rfl
  | imageContrast =>
    have hself : t.repaint (Pass.imageContrast.paint scope t) = t := Tree.repaint_brushed_self _ t
    rw [hself]
    exact (filter_survey_eq_self (recurs_contrastNotes probe) _ _).symm

/-! ## 3. Many passes -/

theorem spares_paintAll {pass : Pass} (hpass : pass ∉ passes) (scope : NodeId) (t : Tree) :
    Spares (paintAll passes scope t) pass := by
  induction passes with
  | nil => exact ⟨fun _ _ => rfl, fun _ _ _ => rfl, fun _ _ => rfl, fun _ _ => Iff.rfl⟩
  | cons other passes ih =>
    rw [List.mem_cons, not_or] at hpass
    have hother := spares_paint (Ne.symm hpass.1) scope t
    have hrest := ih hpass.2
    exact {
      tag := fun id e => (hrest.tag id _).trans (hother.tag id e)
      own := fun id e howner => by
        show paintAll passes scope t id (other.paint scope t id e) = e
        rw [hother.own id e howner, hrest.own id e howner]
      src := fun id e => (hrest.src id _).trans (hother.src id e)
      mark := fun id e => (hrest.mark id _).trans (hother.mark id e) }

/-- A painting that comes last may as well come first. -/
theorem paint_paintAll (pass : Pass) (passes : List Pass) (scope : NodeId) (t : Tree) (id : NodeId)
    (e : Element) :
    pass.paint scope t id (paintAll passes scope t id e) =
      paintAll passes scope t id (pass.paint scope t id e) := by
  have hperm : (passes ++ [pass]).Perm (pass :: passes) := List.perm_append_singleton pass passes
  have := congrFun (congrFun (paintAll_perm hperm scope t) id) e
  rwa [paintAll, List.foldl_append] at this

theorem paintAll_paintAll (passes : List Pass) (scope : NodeId) (t : Tree) (id : NodeId)
    (e : Element) :
    paintAll passes scope t id (paintAll passes scope t id e) = paintAll passes scope t id e := by
  induction passes generalizing e with
  | nil => rfl
  | cons pass passes ih =>
    show paintAll passes scope t id
        (pass.paint scope t id (paintAll passes scope t id (pass.paint scope t id e))) =
      paintAll passes scope t id (pass.paint scope t id e)
    rw [paint_paintAll, pass.paint_paint, ih]

theorem notes_repaint_all {pass : Pass} (hnodup : passes.Nodup) (hpass : pass ∈ passes)
    (probe : Probe) (scope : NodeId) (t : Tree) :
    pass.notes probe scope (t.repaint (paintAll passes scope t)) =
      (pass.notes probe scope t).filter (·.recurs) := by
  have hshape := t.sameShape_repaint (pass.tag_paint scope t)
  -- The pass may as well have painted first; the others then spare it.
  have hfirst : t.repaint (paintAll passes scope t) =
      (t.repaint (pass.paint scope t)).repaint (paintAll (passes.erase pass) scope t) := by
    rw [paintAll_perm (List.perm_cons_erase hpass), Tree.repaint_repaint]
    rfl
  have hrest : pass ∉ passes.erase pass := fun hmem => (hnodup.mem_erase_iff.mp hmem).1 rfl
  rw [hfirst, notes_repaint (spares_paintAll hrest scope t), notes_repaint_self]

/-- A second run finds the tree as the first has left it, and adds again what the first has added,
but for repairs. -/
def SettledBy (t : Tree) (run : Tree → Diagnostics → Tree × Diagnostics) : Prop :=
  ∃ u found, (∀ ds, run t ds = (u, ds ++ found)) ∧ ∀ ds,
    run u ds = (u, ds ++ found.filter (·.recurs))

theorem settledBy_foldl_run (probe : Probe) (h : t.Linked kids) (hnodup : passes.Nodup)
    (scope : NodeId) :
    SettledBy t fun t ds =>
      passes.foldl (fun (t, ds) pass => pass.run probe scope t ds) (t, ds) := by
  have hshape := t.sameShape_repaint (tag_paintAll passes scope t)
  refine ⟨t.repaint (paintAll passes scope t), (passes.flatMap (·.notes probe scope t)).toArray,
    foldl_run probe h hnodup scope, fun ds => ?_⟩
  have htree : (t.repaint (paintAll passes scope t)).repaint
        (paintAll passes scope (t.repaint (paintAll passes scope t))) =
      t.repaint (paintAll passes scope t) := by
    rw [paintAll_congr hshape, Tree.repaint_repaint]
    simp only [paintAll_paintAll]
  have hnotes : (passes.flatMap (·.notes probe scope (t.repaint (paintAll passes scope t)))) =
      (passes.flatMap (·.notes probe scope t)).filter (·.recurs) := by
    rw [List.filter_flatMap]
    exact List.flatMap_congr fun pass hpass => notes_repaint_all hnodup hpass probe scope t
  have hrun := foldl_run probe (h.sameLinks hshape.links) hnodup scope ds
  rw [htree, hnotes, ← List.filter_toArray] at hrun
  exact hrun

/-- **Settling.** A second run of a pipeline, of its tree stage or of both stages, repairs nothing
more: the tree stays as it is, and all findings but the repaired ones recur in their order. -/
theorem run_settled (probe : Probe) (ht : t.Reachable) (hpasses : passes.Nodup) :
    ∃ p, Pipeline.ofPasses passes = .ok p ∧ SettledBy t (p.run probe) ∧
      SettledBy t (p.runAll probe) := by
  obtain ⟨kids, h⟩ := ht.linked
  refine ⟨⟨passes⟩, Pipeline.ofPasses_eq hpasses,
    settledBy_foldl_run probe h (hpasses.filter _) _, ?_⟩
  have hnodup := (Pipeline.perm_bothStages ⟨passes⟩).nodup_iff.mpr hpasses
  have hboth := settledBy_foldl_run probe h hnodup Tree.rootId
  rw [Pipeline.bothStages] at hboth
  simp only [List.foldl_append] at hboth
  exact hboth

theorem run_settled_all :
    let t := Tree.session { tag := .h1, text := some "Start ==main==" }
      [.append 0 { tag := .p }, .append 1 { tag := .img }, .append 1 { tag := .img }]
    let probe : Probe := fun src => .error (.notFound src)
    t.Reachable ∧ Pass.all.Nodup ∧ ∃ p, Pipeline.ofPasses Pass.all = .ok p ∧
      SettledBy t (p.run probe) ∧ SettledBy t (p.runAll probe) := by
  intro t probe
  have ht : t.Reachable := ⟨_, _, rfl⟩
  have hall : Pass.all.Nodup := by decide
  exact ⟨ht, hall, run_settled probe ht hall⟩

end AccessibleMarkdown.Audit
