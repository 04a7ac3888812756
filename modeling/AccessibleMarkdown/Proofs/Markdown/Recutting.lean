import AccessibleMarkdown.Proofs.Markdown.Building
import Mathlib.Logic.Relation

/-!
# Recutting

Text comes in events of any size, with formulas and raw HTML between them that nothing is built of.
Where text is cut does not matter, whatever state the builder is in: a run of text is looked at as a
whole once something else comes. So markup may begin in one event and end in another, and the hook
is called as often and with the same trees.
-/

namespace AccessibleMarkdown.Markdown

variable {σ : Type} {hook : TableHook σ} {events events' : List Event}

/-! ## 1. One text, cut in several ways -/

/-- A formula or raw HTML. -/
def Event.isUnseen : Event → Bool
  | .html _ | .inlineHtml _ | .inlineMath _ | .displayMath _ => true
  | _ => false

/-- The events after one cut less: two texts that are one, or without an event that adds nothing. -/
inductive Joins : List Event → List Event → Prop
  | text (before : List Event) (s s' : String) (after : List Event) :
      Joins (before ++ .text s :: .text s' :: after) (before ++ .text (s ++ s') :: after)
  | empty (before after : List Event) : Joins (before ++ .text "" :: after) (before ++ after)
  | unseen (before : List Event) {e : Event} (he : e.isUnseen) (after : List Event) :
      Joins (before ++ e :: after) (before ++ after)

/-- The events differ by any number of cuts, made or taken back. -/
def Recut : List Event → List Event → Prop := Relation.EqvGen Joins

/-- What depends only on how the events after one go on, and not on a cut at the front, depends on
no cut. -/
theorem Recut.congr {α β : Type} (run : α → List Event → β)
    (hcons : ∀ e rest rest', (∀ a, run a rest = run a rest') →
      ∀ a, run a (e :: rest) = run a (e :: rest'))
    (htext : ∀ a s s' rest, run a (.text s :: .text s' :: rest) = run a (.text (s ++ s') :: rest))
    (hempty : ∀ a rest, run a (.text "" :: rest) = run a rest)
    (hunseen : ∀ a e rest, e.isUnseen → run a (e :: rest) = run a rest)
    (h : Recut events events') (a : α) : run a events = run a events' := by
  have hcontext : ∀ before rest rest', (∀ a, run a rest = run a rest') →
      ∀ a, run a (before ++ rest) = run a (before ++ rest') := by
    intro before rest rest' hrest
    induction before with
    | nil => exact hrest
    | cons e before ih => exact hcons e _ _ ih
  induction h with
  | rel _ _ hjoins =>
    cases hjoins with
    | text before s s' after => exact hcontext before _ _ (fun a => htext a s s' after) a
    | empty before after => exact hcontext before _ _ (fun a => hempty a after) a
    | unseen before he after => exact hcontext before _ _ (fun a => hunseen a _ after he) a
  | refl => rfl
  | symm _ _ _ ih => exact ih.symm
  | trans _ _ _ _ _ ih ih' => exact ih.trans ih'

/-! ## 2. Text that a builder takes -/

namespace Builder

/-- The builder after a text: held back, or in the text of an image. -/
def say (b : Builder σ) (s : String) : Builder σ :=
  match b.image with
  | some image => b.withImage { image with alt := image.alt ++ s }
  | none => b.hold s

theorem push_text (b : Builder σ) (s : String) : push hook b (.text s) = .ok (b.say s) := by
  rw [push, say]
  cases b.image <;> rfl

theorem push_unseen (b : Builder σ) {e : Event} (he : e.isUnseen) : push hook b e = .ok b := by
  rw [push]
  cases b.image <;> cases e <;> first | rfl | exact absurd he Bool.false_ne_true

theorem hold_hold (b : Builder σ) (s s' : String) : (b.hold s).hold s' = b.hold (s ++ s') := by
  have hframe : (b.hold s).frame = b.frame := by
    rw [hold_eq]
    rfl
  rw [hold, hframe, hold, hold]
  split
  · rfl
  · rw [String.append_assoc]

theorem say_say (b : Builder σ) (s s' : String) : (b.say s).say s' = b.say (s ++ s') := by
  unfold say
  cases himage : b.image with
  | some image =>
    show b.withImage { image with alt := image.alt ++ s ++ s' } = _
    rw [String.append_assoc]
  | none =>
    have hnone : (b.hold s).image = none := by
      rw [hold_eq]
      exact himage
    simp only [hnone]
    exact b.hold_hold s s'

theorem say_empty (b : Builder σ) : b.say "" = b := by
  unfold say
  cases himage : b.image with
  | some image =>
    show b.withImage { image with alt := image.alt ++ "" } = b
    rw [String.append_empty, withImage, ← himage]
  | none =>
    show b.hold "" = b
    rw [hold, String.append_empty, ite_self]

/-! ## 3. Runs -/

/-- The builder after the events, up to the first one that fails. -/
def reach (hook : TableHook σ) (b : Builder σ) : List Event → Builder σ
  | [] => b
  | e :: rest =>
    match push hook b e with
    | .ok b' => reach hook b' rest
    | .error _ => b

theorem reach_cons {b b' : Builder σ} {e : Event} (h : push hook b e = .ok b') (rest : List Event) :
    reach hook b (e :: rest) = reach hook b' rest := by
  rw [reach, h]

/-- If no event fails, the last builder is reached. -/
theorem reach_eq {b b' : Builder σ} (h : events.foldlM (push hook) b = .ok b') :
    reach hook b events = b' := by
  induction events generalizing b with
  | nil => exact Except.ok.inj h
  | cons e rest ih =>
    cases hpush : push hook b e with
    | ok b₁ =>
      rw [foldlM_cons_of_ok hpush] at h
      rw [reach_cons hpush, ih h]
    | error err =>
      rw [List.foldlM_cons, hpush] at h
      cases h

theorem foldlM_recut (h : Recut events events') (b : Builder σ) :
    events.foldlM (push hook) b = events'.foldlM (push hook) b := by
  refine h.congr (fun b events => events.foldlM (push hook) b) ?_ ?_ ?_ ?_ b
  · intro e rest rest' hrest b
    simp only [List.foldlM_cons, hrest]
  · intro b s s' rest
    rw [foldlM_cons_of_ok (push_text b s), foldlM_cons_of_ok (push_text _ s'),
      foldlM_cons_of_ok (push_text b _), say_say]
  · intro b rest
    rw [foldlM_cons_of_ok (push_text b ""), say_empty]
  · intro b e rest he
    exact foldlM_cons_of_ok (push_unseen b he) rest

theorem reach_recut (h : Recut events events') (b : Builder σ) :
    reach hook b events = reach hook b events' := by
  refine h.congr (reach hook) ?_ ?_ ?_ ?_ b
  · intro e rest rest' hrest b
    simp only [reach, hrest]
  · intro b s s' rest
    rw [reach_cons (push_text b s), reach_cons (push_text _ s'),
      reach_cons (push_text b _), say_say]
  · intro b rest
    rw [reach_cons (push_text b ""), say_empty]
  · intro b e rest he
    exact reach_cons (push_unseen b he) rest

/-! ## 4. What a hook is called with -/

section
variable {τ : Type} {f : σ → τ}

/-- The builder, with something else gathered. -/
def regather (f : σ → τ) (b : Builder σ) : Builder τ :=
  { tree := b.tree, gathered := f b.gathered, frames := b.frames, pending := b.pending,
    table := b.table, image := b.image, deletion := b.deletion }

theorem bind_map {ε α α' β β' : Type} {x : Except ε α} {g : α → α'}
    {k : α → Except ε β} {g' : β → β'} {k' : α' → Except ε β'} (h : ∀ a, k' (g a) = (k a).map g') :
    x.map g >>= k' = (x >>= k).map g' := by
  cases x with
  | error err => rfl
  | ok a => exact h a

theorem appendTo_regather (b : Builder σ) (p : NodeId) (e : Element) :
    (b.regather f).appendTo p e = (b.appendTo p e).map (Prod.map (regather f) id) := by
  have htree : (b.regather f).tree = b.tree := rfl
  rw [appendTo, appendTo, htree]
  obtain ⟨tree, result⟩ := b.tree.append p e
  cases result <;> rfl

/-- What is done next with a new node is the same on both sides, if it is for each builder and
node. -/
theorem bind_appendTo {β β' : Type} {g : β → β'} {k : Builder σ × NodeId → Except TreeError β}
    {k' : Builder τ × NodeId → Except TreeError β'} (b : Builder σ) (p : NodeId) (e : Element)
    (h : ∀ b' id, k' (b'.regather f, id) = (k (b', id)).map g) :
    (b.regather f).appendTo p e >>= k' = (b.appendTo p e >>= k).map g := by
  rw [appendTo_regather]
  exact bind_map fun r => h r.1 r.2

theorem openElement_regather (b : Builder σ) (e : Element) :
    (b.regather f).openElement e = (b.openElement e).map (regather f) :=
  b.bind_appendTo _ e fun _ _ => rfl

theorem foldlM_appendSegment_regather (segments : List Segment) (p : NodeId) (b : Builder σ) :
    segments.foldlM (appendSegment p) (b.regather f) =
      (segments.foldlM (appendSegment p) b).map (regather f) := by
  induction segments generalizing b with
  | nil => rfl
  | cons segment rest ih =>
    have hsegment :
        appendSegment p (b.regather f) segment = (appendSegment p b segment).map (regather f) := by
      cases segment with
      | text run => rfl
      | deleted run =>
        rw [appendSegment, appendTo_regather, appendSegment]
        cases b.appendTo p _ <;> rfl
    rw [List.foldlM_cons, hsegment]
    exact bind_map ih

theorem flush_regather (b : Builder σ) : (b.regather f).flush = b.flush.map (regather f) := by
  rw [flush, flush]
  by_cases hempty : b.pending.isEmpty = true
  · rw [if_pos hempty, if_pos (show (b.regather f).pending.isEmpty = true from hempty)]
    rfl
  · rw [if_neg hempty, if_neg (show ¬(b.regather f).pending.isEmpty = true from hempty)]
    by_cases hraw : (!b.deletion || b.frame.raw) = true
    · rw [if_pos hraw,
        if_pos (show (!(b.regather f).deletion || (b.regather f).frame.raw) = true from hraw)]
      rfl
    · rw [if_neg hraw,
        if_neg (show ¬(!(b.regather f).deletion || (b.regather f).frame.raw) = true from hraw)]
      exact foldlM_appendSegment_regather _ _ { b with pending := "" }

theorem hold_regather (b : Builder σ) (s : String) :
    (b.regather f).hold s = (b.hold s).regather f := by
  rw [hold_eq, hold_eq]
  rfl

theorem body_regather (b : Builder σ) :
    (b.regather f).body = b.body.map (Prod.map (regather f) id) := by
  have htable : (b.regather f).table = b.table := rfl
  rw [body, body, htable]
  split
  · rfl
  · split
    · rfl
    · exact b.bind_appendTo _ _ fun _ _ => rfl

theorem openSpan_regather (b : Builder σ) (s : Span) :
    (b.regather f).openSpan s = (b.openSpan s).map (regather f) := by
  cases s with
  | codeBlock info => exact b.bind_appendTo _ _ fun b' _ => b'.bind_appendTo _ _ fun _ _ => rfl
  | list start => cases start <;> exact b.openElement_regather _
  | image dest title => exact b.bind_appendTo _ _ fun _ _ => rfl
  | table alignments => exact b.bind_appendTo _ _ fun _ _ => rfl
  | tableHead => exact b.bind_appendTo _ _ fun b' _ => b'.bind_appendTo _ _ fun _ _ => rfl
  | tableRow =>
    rw [openSpan, body_regather]
    exact bind_map fun r => r.1.bind_appendTo _ _ fun _ _ => rfl
  | tableCell =>
    exact openElement_regather { b with table := (nextCell b.table).2 } (nextCell b.table).1
  | htmlBlock | metadataBlock | definitionList | definitionTitle | definition => rfl
  | _ => exact b.openElement_regather _

theorem appendCells_regather (b : Builder σ) (row : NodeId) (n : Nat) :
    (b.regather f).appendCells row n = (b.appendCells row n).map (regather f) := by
  induction n generalizing b with
  | zero => rfl
  | succ n ih => exact b.bind_appendTo _ _ fun b' _ => ih b'

theorem fillBody_regather (b : Builder σ) (o : OpenTable) :
    (b.regather f).fillBody o = (b.fillBody o).map (regather f) := by
  rw [fillBody, fillBody]
  split
  · rfl
  · exact b.bind_appendTo _ _ fun b' _ => b'.bind_appendTo _ _ fun b'' _ =>
      b''.appendCells_regather _ _

theorem finish_regather (b : Builder σ) :
    (b.regather f).finish = b.finish.map (Prod.map id f) := by
  rw [finish, flush_regather]
  exact bind_map fun _ => rfl

/-- Finishing adds nothing to what has been gathered: it goes on alike whatever that is. -/
theorem gathered_of_finish {b : Builder σ} {t : Tree} {found : σ} (h : b.finish = .ok (t, found)) :
    found = b.gathered := by
  have hsame := b.finish_regather (f := fun _ => b.gathered)
  change b.finish = b.finish.map _ at hsame
  rw [h] at hsame
  exact congrArg Prod.snd (Except.ok.inj hsame)

/-- Hooks that do the same to trees, one with more gathered than the other. -/
def Regathers (f : σ → τ) (hook : TableHook σ) (hook' : TableHook τ) : Prop :=
  ∀ parent t gathered, hook' parent (t, f gathered) = Prod.map id f (hook parent (t, gathered))

variable {hook' : TableHook τ} (hhook : Regathers f hook hook')
include hhook

theorem closeTable_regather (b : Builder σ) :
    (b.regather f).closeTable hook' = (b.closeTable hook).map (regather f) := by
  have htable : (b.regather f).table = b.table := rfl
  rw [closeTable, closeTable, htable]
  cases b.table with
  | none => rfl
  | some o =>
    refine (congrArg (· >>= _) (fillBody_regather { b with table := none } o)).trans
      (bind_map fun b' => ?_)
    show Except.ok _ = Except.ok _
    have h := hhook ((b'.tree.parent? o.table).getD Tree.rootId) b'.tree b'.gathered
    simp only [regather, h]
    rfl

theorem closeSpan_regather (b : Builder σ) (kind : SpanKind) :
    closeSpan hook' (b.regather f) kind = (closeSpan hook b kind).map (regather f) := by
  cases kind with
  | table => exact closeTable_regather hhook { b with frames := b.frames.tail }
  | _ => rfl

/-- An event does the same to both builders. -/
theorem push_regather (b : Builder σ) (e : Event) :
    push hook' (b.regather f) e = (push hook b e).map (regather f) := by
  have hleaf : ∀ leaf, (b.regather f).appendLeaf leaf = (b.appendLeaf leaf).map (regather f) := by
    intro leaf
    rw [appendLeaf, flush_regather]
    exact bind_map fun b' => b'.bind_appendTo _ leaf fun _ _ => rfl
  have himage : (b.regather f).image = b.image := rfl
  rw [push, push, himage]
  cases b.image with
  | some image =>
    refine congrArg Except.ok ?_
    unfold pushAlt
    split <;> first | rfl | split <;> rfl
  | none =>
    cases e with
    | start s =>
      show ((b.regather f).flush >>= _) = _
      rw [flush_regather]
      exact bind_map fun b' => b'.openSpan_regather s
    | stop kind =>
      show ((b.regather f).flush >>= _) = _
      rw [flush_regather]
      exact bind_map fun b' => closeSpan_regather hhook b' kind
    | text s => exact congrArg Except.ok (b.hold_regather s)
    | softBreak => exact congrArg Except.ok (b.hold_regather "\n")
    | html | inlineHtml | inlineMath | displayMath => rfl
    | _ => exact hleaf _

theorem foldlM_regather (events : List Event) (b : Builder σ) :
    events.foldlM (push hook') (b.regather f) = (events.foldlM (push hook) b).map (regather f) := by
  induction events generalizing b with
  | nil => rfl
  | cons e rest ih =>
    rw [List.foldlM_cons, push_regather hhook, List.foldlM_cons]
    exact bind_map ih

/-- So a run that stops for one of them stops there for the other. -/
theorem reach_regather (events : List Event) (b : Builder σ) :
    reach hook' (b.regather f) events = (reach hook b events).regather f := by
  induction events generalizing b with
  | nil => rfl
  | cons e rest ih =>
    rw [reach, push_regather hhook, reach]
    cases push hook b e with
    | ok b' => exact ih b'
    | error err => rfl

end

end Builder

/-! ## 5. Documents -/

/-- A hook that also gathers what it is called with: parents of tables, and the trees it sees. -/
def TableHook.logged (hook : TableHook σ) : TableHook (σ × List (NodeId × Tree)) :=
  fun parent (t, gathered, log) =>
  let (t', gathered') := hook parent (t, gathered)
  (t', gathered', log ++ [(parent, t)])

/-- The calls of a hook while a document is built, also if the building fails in the end. -/
def TableHook.calls (hook : TableHook σ) (deletion : Bool) (gathered : σ) (events : List Event) :
    List (NodeId × Tree) :=
  (Builder.reach hook.logged (.start deletion (gathered, [])) events).gathered.2

/-- Logging leaves the run over the events as it is. -/
structure TableHook.LogsRun (hook : TableHook σ) (deletion : Bool) (gathered : σ)
    (events : List Event) : Prop where
  /-- Apart from the log, the last builder is what it is without one, ... -/
  reach : (Builder.reach hook.logged (.start deletion (gathered, [])) events).regather Prod.fst =
    Builder.reach hook (.start deletion gathered) events
  /-- ... and so is the document, if there is one. -/
  build : (buildTree deletion hook.logged (gathered, []) events).map (Prod.map id Prod.fst) =
    buildTree deletion hook gathered events
  /-- Then the calls are what is in the log. -/
  calls : ∀ t found log,
    buildTree deletion hook.logged (gathered, []) events = .ok (t, found, log) →
    hook.calls deletion gathered events = log

theorem TableHook.logsRun (hook : TableHook σ) (deletion : Bool) (gathered : σ)
    (events : List Event) : hook.LogsRun deletion gathered events := by
  have hlogs : Builder.Regathers Prod.fst hook.logged hook := fun _ _ _ => rfl
  have hrun := Builder.foldlM_regather hlogs events (.start deletion (gathered, []))
  constructor
  case reach => exact (Builder.reach_regather hlogs events (.start deletion (gathered, []))).symm
  case build =>
    rw [buildTree, buildTree]
    refine .trans ?_ (congrArg (· >>= Builder.finish) hrun).symm
    exact (Builder.bind_map Builder.finish_regather).symm
  case calls =>
    intro t found log hbuild
    rw [buildTree] at hbuild
    -- If the building succeeds, the events have been pushed, and finishing calls no hook.
    cases hfold : events.foldlM (Builder.push hook.logged) (.start deletion (gathered, [])) with
    | error err =>
      rw [hfold] at hbuild
      cases hbuild
    | ok b =>
      rw [hfold] at hbuild
      have hlog : (found, log) = b.gathered := Builder.gathered_of_finish hbuild
      rw [TableHook.calls, Builder.reach_eq hfold, ← hlog]

/-- **Recutting.** However a text is cut into events, with whatever unseen between them, the same
tree is built, with the same calls of the hook. They are told by a log, which leaves the run as it
is. -/
theorem buildTree_recut (hook : TableHook σ) (deletion : Bool) (gathered : σ)
    (h : Recut events events') :
    buildTree deletion hook gathered events = buildTree deletion hook gathered events' ∧
      hook.calls deletion gathered events = hook.calls deletion gathered events' ∧
      hook.LogsRun deletion gathered events := by
  refine ⟨?_, ?_, hook.logsRun deletion gathered events⟩
  · rw [buildTree, buildTree, Builder.foldlM_recut h]
  · rw [TableHook.calls, TableHook.calls, Builder.reach_recut h]

/-- Deletion markup that begins in one event and ends in another, and an image with a formula in its
text. -/
theorem buildTree_recut_marker :
    let hook : TableHook (List NodeId) := fun parent (t, parents) => (t, parent :: parents)
    let events : List Event := [.start .paragraph, .text "a -", .inlineHtml "<i>", .text "-b--",
      .start (.image "c.png" ""), .text "c", .displayMath "x", .stop .image, .stop .paragraph]
    let events' : List Event :=
      [.start .paragraph, .text "a --b--", .start (.image "c.png" ""), .text "c", .text "",
        .stop .image, .stop .paragraph]
    Recut events events' ∧
      buildTree true hook [] events = buildTree true hook [] events' ∧
      hook.calls true [] events = hook.calls true [] events' ∧
      hook.LogsRun true [] events := by
  intro hook events events'
  let image : List Event := [.start (.image "c.png" ""), .text "c"]
  let rest : List Event := [.stop .image, .stop .paragraph]
  have hhtml :
      Joins events
        ([.start .paragraph, .text "a -", .text "-b--"] ++ image ++ .displayMath "x" :: rest) :=
    .unseen [.start .paragraph, .text "a -"] rfl _
  have hmath :
      Joins ([.start .paragraph, .text "a -", .text "-b--"] ++ image ++ .displayMath "x" :: rest)
        ([.start .paragraph, .text "a -", .text "-b--"] ++ image ++ rest) := .unseen _ rfl _
  have htexts : Joins ([.start .paragraph, .text "a -", .text "-b--"] ++ image ++ rest)
      ([.start .paragraph, .text "a --b--"] ++ image ++ rest) :=
    .text [.start .paragraph] "a -" "-b--" (image ++ rest)
  have hempty : Joins events' ([.start .paragraph, .text "a --b--"] ++ image ++ rest) :=
    .empty ([.start .paragraph, .text "a --b--"] ++ image) rest
  have hrecut : Recut events events' :=
    (Relation.EqvGen.rel _ _ hhtml).trans _ _ _ <| (Relation.EqvGen.rel _ _ hmath).trans _ _ _ <|
      (Relation.EqvGen.rel _ _ htexts).trans _ _ _ <| (Relation.EqvGen.rel _ _ hempty).symm _ _
  exact ⟨hrecut, buildTree_recut hook true [] hrecut⟩

end AccessibleMarkdown.Markdown
