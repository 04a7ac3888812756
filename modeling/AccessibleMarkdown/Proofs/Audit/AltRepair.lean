import AccessibleMarkdown.Proofs.Audit.Coverage
import AccessibleMarkdown.Proofs.Audit.Findings
import AccessibleMarkdown.Proofs.Checker.Success

/-!
# Repaired images

After the repair every outermost image has an alternative text. Nothing stands below an image of a
tree that was built from events, so all images of such a tree are outermost.
-/

namespace AccessibleMarkdown.Audit

open Markdown (Event TableHook)

variable {t : Tree} {kids : NodeId → List NodeId} {scope id : NodeId} {e img : Element}

/-! ## 1. Images that are repaired -/

/-- The alternative text is missing or empty. -/
def LacksAlt (e : Element) : Prop := e.get? "alt" = none ∨ e.get? "alt" = some ""

/-- The element, if it is an image to repair. -/
def lacking? (e : Element) : Option Element :=
  if e.tag = .img ∧ (altFault? e).isSome then some e else none

theorem lacking?_eq_some : lacking? e = some img ↔ e = img ∧ img.tag = .img ∧ LacksAlt img := by
  rw [lacking?, Option.ite_none_right_eq_some, altFault?_isSome, LacksAlt, Option.some.injEq]
  constructor
  · rintro ⟨hlacks, rfl⟩
    exact ⟨rfl, hlacks⟩
  · rintro ⟨rfl, hlacks⟩
    exact ⟨hlacks, rfl⟩

theorem repaired_eq (htag : e.tag = .img) (hlacks : LacksAlt e) :
    repaired e = e.set "alt" altPlaceholder :=
  if_pos ⟨htag, altFault?_isSome.mpr hlacks⟩

theorem repaired_self (hlacks : ¬ LacksAlt e) : repaired e = e :=
  if_neg fun h => hlacks (altFault?_isSome.mp h.2)

/-- What is said about an image that is repaired. -/
def faultNote (path : Path) (img : Element) : Diagnostic where
  rule := if img.get? "alt" = none then "alt-missing" else "alt-empty"
  criterion := some .nonTextContent
  message :=
    (if img.get? "alt" = none then "Found an image with no alt text for "
      else "Found an image with empty alt text for ") ++ srcOf img
  path := path

theorem altNotes_eq (id : NodeId) (cx : Context) (e : Element) :
    altNotes id cx e = ((lacking? e).map (faultNote cx.path)).toList := by
  by_cases htag : e.tag = .img
  · rw [altNotes, if_pos htag, lacking?]
    cases halt : e.get? "alt" with
    | none => simp [altFault?, faultNote, halt, htag]
    | some alt =>
      by_cases hempty : alt = ""
      · subst hempty
        simp [altFault?, faultNote, halt, htag]
      · simp [altFault?, halt]
  · rw [altNotes, if_neg htag, lacking?, if_neg fun h => htag h.1]
    rfl

/-! ## 2. The repair -/

/-- What becomes of a tree when the images in the subtree of `scope` are repaired. -/
structure AltsRepaired (t : Tree) (scope : NodeId) (ds : Diagnostics)
    (after : Tree × Diagnostics) : Prop where
  shape : t.SameShape after.1
  filled : ∀ id, t.Outermost .img scope id → ∃ alt, altAt? after.1 id = some alt ∧ alt ≠ ""
  kept : ∀ id alt, t.Outermost .img scope id → altAt? t id = some alt → alt ≠ "" →
    after.1.get? id = t.get? id
  given : ∀ id img, t.Outermost .img scope id → t.element? id = some img → LacksAlt img →
    after.1.element? id = some (img.set "alt" altPlaceholder)
  others : ∀ id, ¬ t.Outermost .img scope id → after.1.get? id = t.get? id
  reported : ∃ said, after.2 = ds ++ said.toArray ∧
    t.Listed (fun id img => t.Outermost .img scope id ∧ t.element? id = some img ∧ LacksAlt img)
      (fun id => faultNote (t.path id)) said

theorem altsRepaired_walkFrom (h : t.Linked kids) (scope : NodeId) (ds : Diagnostics) :
    AltsRepaired t scope ds (t.walkFrom altRepair scope ds) := by
  have hrun : t.walkFrom altRepair scope ds = (t.repaint (Pass.altCheck.paint scope t),
      ds ++ (t.survey altNotes (t.stops (stopAt .img) scope)).toArray) :=
    paints_altRepair.walkFrom_eq h scope ds
  have hlisted := listed_survey h altNotes_eq (fun _ _ hlacks => (lacking?_eq_some.mp hlacks).1 ▸
    (lacking?_eq_some.mp hlacks).2.1) scope
  have hbrush : ∀ {id e}, t.Outermost .img scope id →
      Pass.altCheck.paint scope t id e = repaired e :=
    fun hid => Pass.paint_of_reached h (mem_reached_of_outermost h hid) _
  have hafter : ∀ {id e}, t.Outermost .img scope id → t.element? id = some e →
      (t.repaint (Pass.altCheck.paint scope t)).element? id = some (repaired e) := by
    intro id e hid he
    rw [Tree.element?_repaint, he, Option.map_some, hbrush hid]
  -- The repair paints the outermost images and no other node, so every part is about one element.
  rw [hrun]
  constructor
  case shape => exact t.sameShape_repaint (Pass.altCheck.tag_paint scope t)
  case filled =>
    intro id hid
    obtain ⟨e, he, htag⟩ := Tree.tag?_eq_some.mp hid.1
    by_cases hlacks : LacksAlt e
    · refine ⟨altPlaceholder, altAt?_eq_some.mpr ⟨_, hafter hid he, ?_, ?_⟩, by decide⟩
      · rw [repaired_eq htag hlacks]
        exact htag
      · rw [repaired_eq htag hlacks]
        exact Element.get?_set_self _ _ _
    · obtain ⟨alt, halt⟩ := Option.ne_none_iff_exists'.mp fun hnone => hlacks (.inl hnone)
      have hne : alt ≠ "" := by
        rintro rfl
        exact hlacks (.inr halt)
      refine ⟨alt, altAt?_eq_some.mpr ⟨_, hafter hid he, ?_⟩, hne⟩
      rw [repaired_self hlacks]
      exact ⟨htag, halt⟩
  case kept =>
    intro id alt hid halt hne
    obtain ⟨img, himg, -, hget⟩ := altAt?_eq_some.mp halt
    apply Tree.get?_repaint_self
    intro e he
    obtain rfl : img = e := Option.some.inj (himg.symm.trans he)
    rw [hbrush hid]
    apply repaired_self
    rintro (hnone | hempty)
    · rw [hget] at hnone
      cases hnone
    · rw [hget, Option.some.injEq] at hempty
      exact hne hempty
  case given =>
    intro id img hid himg hlacks
    have htag : img.tag = .img := hid.tag_of_element? himg
    rw [hafter hid himg, repaired_eq htag hlacks]
  case others =>
    intro id hid
    have hother : ∀ e : Element, e.tag ≠ .img → repaired e = e :=
      fun e hne => if_neg fun hfault => hne hfault.1
    exact Tree.get?_repaint_self fun e => Pass.paint_of_not_outermost h rfl (fun _ _ => hother) hid
  case reported =>
    refine ⟨_, rfl, hlisted.congr fun id img => and_congr_right fun hid => ?_⟩
    rw [Option.bind_eq_some_iff]
    simp only [lacking?_eq_some]
    constructor
    · rintro ⟨e, he, rfl, -, hlacks⟩
      exact ⟨he, hlacks⟩
    · rintro ⟨himg, hlacks⟩
      exact ⟨img, himg, rfl, hid.tag_of_element? himg, hlacks⟩

/-! ## 3. Trees that were built -/

/-- All nodes of a whole tree are met by a walk that stops at images. -/
theorem outermost_of_whole (h : t.Whole) (himg : t.tag? id = some .img) :
    t.Outermost .img Tree.rootId id := by
  obtain ⟨kids, hl⟩ := h.linked
  rw [← mem_covered_iff hl, covered, List.mem_filter, reached_images h]
  exact ⟨h.mem_preorder (Tree.lt_size_of_tag? himg), decide_eq_true himg⟩

/-- **Alternative texts.** The repair gives a text to every outermost image that has none, reports
just these, and changes nothing else. In a tree that was built from events this is about all images,
with no hook, with that of a pipeline, or with any other one that keeps links and tags. -/
theorem altRepair_repairs :
    (∀ t : Tree, t.Reachable →
      ∀ scope ds, AltsRepaired t scope ds (t.walkFrom altRepair scope ds)) ∧
      (∀ {σ : Type} (hook : TableHook σ), hook.Shapely → ∀ deletion gathered events, ∃ t found,
        Markdown.buildTree deletion hook gathered events = .ok (t, found) ∧
          (∀ id, t.tag? id = some .img → t.Outermost .img Tree.rootId id) ∧
          ∀ ds, AltsRepaired t Tree.rootId ds (t.walkFrom altRepair Tree.rootId ds)) ∧
      TableHook.Shapely TableHook.none ∧ ∀ pipeline probe,
        TableHook.Shapely (Checker.blockStage pipeline probe) := by
  refine ⟨?_, ?_, Checker.shapely_none, Checker.shapely_blockStage⟩
  · intro t ht scope ds
    obtain ⟨kids, h⟩ := ht.linked
    exact altsRepaired_walkFrom h scope ds
  · intro σ hook hhook deletion gathered events
    obtain ⟨t, found, hbuild, hwhole⟩ := Checker.buildTree_whole hhook deletion gathered events
    obtain ⟨kids, h⟩ := hwhole.linked
    exact ⟨t, found, hbuild, fun id => outermost_of_whole hwhole,
      altsRepaired_walkFrom h Tree.rootId⟩

/-- An image below another one keeps its lack of a text; one between the events of another one is no
element. -/
theorem altRepair_repairs_nested :
    let t := Tree.session { tag := .div } [.append 0 { tag := .img }, .append 1 { tag := .img }]
    let after := (t.walkFrom altRepair 0 #[]).1
    let events :=
      [Event.start (.image "a.png" ""), .start (.image "b.png" ""), .stop .image, .stop .image]
    t.Reachable ∧ t.Outermost .img 0 1 ∧ ¬ t.Outermost .img 0 2 ∧
      AltsRepaired t 0 #[] (t.walkFrom altRepair 0 #[]) ∧
      altAt? after 1 = some "No alt text provided" ∧ altAt? after 2 = none ∧
      ∃ u found, Markdown.buildTree true TableHook.none () events = .ok (u, found) ∧
        ∀ id, u.tag? id = some .img → u.Outermost .img Tree.rootId id := by
  intro t after events
  have ht : t.Reachable := ⟨_, _, rfl⟩
  obtain ⟨kids, h⟩ := ht.linked
  obtain ⟨hrepairs, hbuilt, hnone, -⟩ := altRepair_repairs
  obtain ⟨u, found, hbuild, hout, -⟩ := hbuilt TableHook.none hnone true () events
  have hcovered : covered t .img 0 = [1] := by decide
  refine ⟨ht, (mem_covered_iff h).mp (by rw [hcovered]; decide),
    mt (mem_covered_iff h).mpr (by rw [hcovered]; decide),
    hrepairs t ht 0 #[], by decide, by decide, u, found, hbuild, hout⟩

end AccessibleMarkdown.Audit
