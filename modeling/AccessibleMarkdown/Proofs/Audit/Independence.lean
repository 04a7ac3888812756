import AccessibleMarkdown.Proofs.Audit.Assembling
import AccessibleMarkdown.Proofs.Audit.Ownership
import AccessibleMarkdown.Proofs.Tree.Session

/-!
# Passes do not interfere

Passes that run one after the other leave what each of them would leave alone, and say what each of
them would say alone. So a pipeline may list its passes in any order.
-/

namespace AccessibleMarkdown.Audit

variable {t : Tree} {kids : NodeId → List NodeId} {scope : NodeId} {passes order : List Pass}

/-! ## 1. Many passes -/

/-- What passes make of the elements of a tree. -/
def paintAll (passes : List Pass) (scope : NodeId) (t : Tree) (id : NodeId)
    (e : Element) : Element :=
  passes.foldl (fun e pass => pass.paint scope t id e) e

theorem tag_paintAll (passes : List Pass) (scope : NodeId) (t : Tree) (id : NodeId) (e : Element) :
    (paintAll passes scope t id e).tag = e.tag := by
  induction passes generalizing e with
  | nil => rfl
  | cons pass passes ih => exact (ih _).trans (pass.tag_paint scope t id e)

theorem paintAll_congr {u : Tree} (h : t.SameShape u) (passes : List Pass) (scope : NodeId) :
    paintAll passes scope u = paintAll passes scope t := by
  funext id e
  rw [paintAll, paintAll]
  simp only [Pass.paint_congr h]

theorem paintAll_perm (h : passes.Perm order) (scope : NodeId) (t : Tree) :
    paintAll passes scope t = paintAll order scope t := by
  funext id e
  exact h.foldl_eq' (fun p _ q _ e => q.paint_comm p scope t id e) e

/-- **Many passes.** Different passes, run one after the other, paint one over the other, and each
of them says what it has to say about the tree as it was in the beginning. -/
theorem foldl_run (probe : Probe) (h : t.Linked kids) (hnodup : passes.Nodup) (scope : NodeId)
    (ds : Diagnostics) :
    passes.foldl (fun (t, ds) pass => pass.run probe scope t ds) (t, ds) =
      (t.repaint (paintAll passes scope t),
        ds ++ (passes.flatMap (·.notes probe scope t)).toArray) := by
  -- On the list, for every tree: the rest of the passes meet a tree of the same shape, painted by
  -- another pass than themselves.
  induction passes generalizing t ds with
  | nil =>
    have hself : t.repaint (paintAll [] scope t) = t := Tree.repaint_self fun _ _ _ => rfl
    rw [hself, List.flatMap_nil, append_nil_toArray]
    rfl
  | cons pass passes ih =>
    rw [List.nodup_cons] at hnodup
    obtain ⟨hpass, hnodup⟩ := hnodup
    have hshape := t.sameShape_repaint (pass.tag_paint scope t)
    have hpaint : (t.repaint (pass.paint scope t)).repaint
          (paintAll passes scope (t.repaint (pass.paint scope t))) =
        t.repaint (paintAll (pass :: passes) scope t) := by
      rw [paintAll_congr hshape, Tree.repaint_repaint]
      rfl
    have hnotes :
        (passes.flatMap fun other => other.notes probe scope (t.repaint (pass.paint scope t))) =
          passes.flatMap (·.notes probe scope t) := by
      apply List.flatMap_congr
      intro other hother
      have hne : pass ≠ other := by rintro rfl; exact hpass hother
      exact notes_repaint (spares_paint hne scope t) probe scope t
    rw [List.foldl_cons, List.flatMap_cons]
    show passes.foldl _ (pass.run probe scope t ds) = _
    rw [pass.run_eq probe h, ih (h.sameLinks hshape.links) hnodup, hpaint, hnotes,
      Array.append_assoc, List.append_toArray (pass.notes probe scope t)]

/-! ## 2. Pipelines -/

namespace Pipeline

def bothStages (p : Pipeline) : List Pass :=
  p.passes.filter (·.stage == .block) ++ p.passes.filter (·.stage == .tree)

theorem perm_bothStages (p : Pipeline) : p.bothStages.Perm p.passes := by
  have htree : ∀ pass : Pass, (pass.stage == .tree) = !(pass.stage == .block) := by
    intro pass
    cases pass <;> rfl
  rw [bothStages]
  simp only [htree]
  exact List.filter_append_perm _ _

theorem run_eq (p : Pipeline) (probe : Probe) (h : t.Linked kids) (hp : p.passes.Nodup)
    (ds : Diagnostics) :
    p.run probe t ds =
      (t.repaint (paintAll (p.passes.filter (·.stage == .tree)) Tree.rootId t),
        ds ++
          ((p.passes.filter (·.stage == .tree)).flatMap (·.notes probe Tree.rootId t)).toArray) :=
  foldl_run probe h (hp.filter _) _ _

theorem runAll_eq (p : Pipeline) (probe : Probe) (h : t.Linked kids) (hp : p.passes.Nodup)
    (ds : Diagnostics) :
    p.runAll probe t ds =
      (t.repaint (paintAll p.bothStages Tree.rootId t),
        ds ++ (p.bothStages.flatMap (·.notes probe Tree.rootId t)).toArray) := by
  have hnodup := p.perm_bothStages.nodup_iff.mpr hp
  rw [← foldl_run probe h hnodup, bothStages, List.foldl_append]
  rfl

end Pipeline

/-- **Independence.** The tree stage adds what each of its passes adds alone to the tree as it was
in the beginning, in the order in which the passes are listed. In whatever order they are listed,
they leave the same tree. -/
theorem run_independent (probe : Probe) (ht : t.Reachable) (hpasses : passes.Nodup) :
    ∃ p, Pipeline.ofPasses passes = .ok p ∧
      (∀ ds, (p.run probe t ds).2 = ds ++ ((passes.filter (·.stage == .tree)).flatMap fun pass =>
        (pass.run probe Tree.rootId t #[]).2.toList).toArray) ∧
      ∀ order, passes.Perm order → ∃ q, Pipeline.ofPasses order = .ok q ∧
        ∀ ds, (q.run probe t ds).1 = (p.run probe t ds).1 ∧
          (q.runAll probe t ds).1 = (p.runAll probe t ds).1 := by
  obtain ⟨kids, h⟩ := ht.linked
  refine ⟨⟨passes⟩, Pipeline.ofPasses_eq hpasses, fun ds => ?_, fun order horder => ?_⟩
  -- What a pass adds alone are its notes.
  · have halone : ∀ pass : Pass,
        (pass.run probe Tree.rootId t #[]).2.toList = pass.notes probe Tree.rootId t := by
      intro pass
      rw [pass.run_eq probe h, Array.empty_append]
    simp only [halone]
    rw [Pipeline.run_eq _ probe h hpasses]
  · have hnodup := horder.nodup_iff.mp hpasses
    refine ⟨⟨order⟩, Pipeline.ofPasses_eq hnodup, fun ds => ⟨?_, ?_⟩⟩
    · rw [Pipeline.run_eq _ probe h hnodup, Pipeline.run_eq _ probe h hpasses,
        paintAll_perm (horder.filter _)]
    · have hboth :=
        ((Pipeline.perm_bothStages ⟨passes⟩).trans horder).trans
        (Pipeline.perm_bothStages ⟨order⟩).symm
      rw [Pipeline.runAll_eq _ probe h hnodup, Pipeline.runAll_eq _ probe h hpasses,
        paintAll_perm hboth]

theorem run_independent_reverse :
    let t := Tree.session { tag := .h1, text := some "Start ==main==" }
      [.append 0 { tag := .p }, .append 1 { tag := .img }, .append 1 { tag := .img }]
    let probe : Probe := fun src => .error (.notFound src)
    t.Reachable ∧ Pass.all.Nodup ∧ ∃ p q, Pipeline.ofPasses Pass.all = .ok p ∧
      Pipeline.ofPasses Pass.all.reverse = .ok q ∧
      ∀ ds, (q.run probe t ds).1 = (p.run probe t ds).1 ∧
        (q.runAll probe t ds).1 = (p.runAll probe t ds).1 := by
  intro t probe
  have ht : t.Reachable := ⟨_, _, rfl⟩
  have hall : Pass.all.Nodup := by decide
  obtain ⟨p, hp, -, horder⟩ := run_independent probe ht hall
  obtain ⟨q, hq, hsame⟩ := horder _ (List.reverse_perm Pass.all).symm
  exact ⟨ht, hall, p, q, hp, hq, hsame⟩

end AccessibleMarkdown.Audit
