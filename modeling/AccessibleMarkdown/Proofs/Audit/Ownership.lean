import AccessibleMarkdown.Proofs.Audit.Effects
import AccessibleMarkdown.Proofs.Audit.Repeats

/-!
# What belongs to a pass

Each tag belongs to at most one pass, and only that pass changes elements of the tag. So passes
paint in any order with the same result, and a pass that has painted a node has no more to do there.
What a pass has to say depends on the elements of its own tags, on the sources of images and on the
mark of a missing title, and no other pass changes any of that.
-/

namespace AccessibleMarkdown.Audit

variable {t u : Tree} {kids : NodeId → List NodeId} {scope id : NodeId} {e : Element}

/-! ## 1. Brushes that are used twice -/

theorem altFault?_repaired (htag : e.tag = .img) : altFault? (repaired e) = none := by
  rw [repaired]
  by_cases hfault : (altFault? e).isSome
  · rw [if_pos ⟨htag, hfault⟩, altFault?, Element.get?_set_self]
    rfl
  · rw [if_neg fun h => hfault h.2]
    exact Option.not_isSome_iff_eq_none.mp hfault

theorem repaired_repaired (e : Element) : repaired (repaired e) = repaired e := by
  by_cases htag : e.tag = .img
  · have hnone := altFault?_repaired htag
    exact if_neg fun h => by rw [hnone] at h; exact Bool.false_ne_true h.2
  · have hself : repaired e = e := if_neg fun h => htag h.1
    rw [hself, hself]

theorem askedRole?_titled (e : Element) : askedRole? (titled e) = none := by
  rw [titled]
  cases hasked : askedRole? e with
  | none => exact hasked
  | some role =>
    -- A stripped text asks for no role.
    have hstripped : (e.text.map stripMarkers).bind markedRole? = none := by
      cases e.text with
      | none => rfl
      | some text => rw [Option.map_some, Option.bind_some, markedRole?_stripMarkers]
    show (if e.tag = .h1 then (e.text.map stripMarkers).bind markedRole? else none) = none
    rw [hstripped, ite_self]

theorem titled_titled (e : Element) : titled (titled e) = titled e := by
  rw [titled, askedRole?_titled]

theorem counted_counted (ids : List NodeId) (e : Element) :
    counted ids (counted ids e) = counted ids e := by
  by_cases htag : e.tag = .table
  · have hcounted : counted ids e = (setRole .table e).set rowCountAttr (toString ids.length) :=
      if_pos htag
    have hrole : (counted ids e).get? roleAttr = some TableRole.table.name := by
      rw [hcounted, Element.get?_set_of_ne (by decide), setRole, Element.get?_set_self]
    have hcount : (counted ids e).get? rowCountAttr = some (toString ids.length) := by
      rw [hcounted, Element.get?_set_self]
    have hagain : counted ids (counted ids e) =
        (setRole .table (counted ids e)).set rowCountAttr (toString ids.length) := by
      apply if_pos
      rw [hcounted]
      exact htag
    rw [hagain, setRole, Element.set_of_get? hrole, Element.set_of_get? hcount]
  · have hself : counted ids e = e := if_neg htag
    rw [hself, hself]

theorem get?_numbered {name : String} (hne : name ≠ rowIndexAttr) (cx : Context) (e : Element) :
    (numbered cx e).get? name = e.get? name := by
  rw [numbered]
  cases cx.rowIndex with
  | none => rfl
  | some row => exact Element.get?_set_of_ne hne e _

theorem numbered_numbered (cx : Context) (e : Element) :
    numbered cx (numbered cx e) = numbered cx e := by
  rw [numbered, numbered]
  cases cx.rowIndex with
  | none => rfl
  | some row => exact Element.set_of_get? (Element.get?_set_self e _ _)

theorem indexed_eq {role : TableRole} (h : partRole? e.tag = some role) (cx : Context) :
    indexed cx e = if e.tag = .tr then numbered cx (setRole role e) else setRole role e := by
  rw [indexed, h]

/-- The row index is another attribute, so the role is read back as it was set. -/
theorem get?_role_indexed {role : TableRole} (h : partRole? e.tag = some role) (cx : Context) :
    (indexed cx e).get? roleAttr = some role.name := by
  rw [indexed_eq h]
  split
  · rw [get?_numbered (by decide), setRole, Element.get?_set_self]
  · exact Element.get?_set_self _ _ _

theorem indexed_indexed (cx : Context) (e : Element) :
    indexed cx (indexed cx e) = indexed cx e := by
  have htag : (indexed cx e).tag = e.tag := paints_tableIndex.tag [] cx e
  cases hpart : partRole? e.tag with
  | none =>
    have hself : indexed cx e = e := by rw [indexed, hpart]
    rw [hself, hself]
  | some role =>
    have hrole := get?_role_indexed hpart cx
    rw [indexed_eq (htag ▸ hpart), htag, setRole, Element.set_of_get? hrole]
    by_cases hrow : e.tag = .tr
    · rw [if_pos hrow, indexed_eq hpart, if_pos hrow, numbered_numbered]
    · rw [if_neg hrow]

/-! ## 2. Owners -/

/-- The pass that the elements of a tag belong to. -/
def owner? : Tag → Option Pass
  | .img => some .altCheck
  | .h1 => some .ariaRole
  | .table => some .ariaTableRole
  | .thead | .tbody | .tr | .td | .th => some .ariaTableIndex
  | _ => none

theorem partRole?_eq_none {tag : Tag} (h : owner? tag ≠ some .ariaTableIndex) :
    partRole? tag = none := by
  unfold partRole?
  split
  all_goals first | rfl | exact absurd rfl h

namespace Pass

theorem tag_brush (pass : Pass) (ids : List NodeId) (cx : Context) (e : Element) :
    (pass.brush ids cx e).tag = e.tag := by
  cases pass with
  | altCheck => exact paints_altRepair.tag ids cx e
  | ariaRole => exact paints_headingRoles.tag ids cx e
  | ariaTableRole => exact paints_tableRoles.tag ids cx e
  | ariaTableIndex => exact paints_tableIndex.tag ids cx e
  | titleCheck => rfl
  | imageContrast => rfl

/-- A pass leaves alone what does not belong to it. -/
theorem brush_of_ne {pass : Pass} (h : owner? e.tag ≠ some pass) (ids : List NodeId)
    (cx : Context) : pass.brush ids cx e = e := by
  cases pass with
  | altCheck => exact if_neg fun htag => h (by rw [htag.1]; rfl)
  | ariaRole =>
    have hasked : askedRole? e = none := if_neg fun htag => h (by rw [htag]; rfl)
    show titled e = e
    rw [titled, hasked]
  | ariaTableRole => exact if_neg fun htag => h (by rw [htag]; rfl)
  | ariaTableIndex =>
    show indexed cx e = e
    rw [indexed, partRole?_eq_none h]
  | titleCheck => rfl
  | imageContrast => rfl

theorem brush_brush (pass : Pass) (ids : List NodeId) (cx : Context) (e : Element) :
    pass.brush ids cx (pass.brush ids cx e) = pass.brush ids cx e := by
  cases pass with
  | altCheck => exact repaired_repaired e
  | ariaRole => exact titled_titled e
  | ariaTableRole => exact counted_counted ids e
  | ariaTableIndex => exact indexed_indexed cx e
  | titleCheck => rfl
  | imageContrast => rfl

/-! ## 3. Paintings -/

theorem tag_paint (pass : Pass) (scope : NodeId) (t : Tree) (id : NodeId) (e : Element) :
    (pass.paint scope t id e).tag = e.tag := by
  rw [paint, Tree.brushed]
  split
  · exact pass.tag_brush _ _ _
  · rfl

theorem paint_of_ne {pass : Pass} (h : owner? e.tag ≠ some pass) (scope : NodeId) (t : Tree)
    (id : NodeId) : pass.paint scope t id e = e := by
  rw [paint, Tree.brushed]
  split
  · exact brush_of_ne h _ _
  · rfl

theorem paint_paint (pass : Pass) (scope : NodeId) (t : Tree) (id : NodeId) (e : Element) :
    pass.paint scope t id (pass.paint scope t id e) = pass.paint scope t id e := by
  rw [paint, Tree.brushed, Tree.brushed]
  cases (t.stops pass.below scope).lookup id with
  | none => rfl
  | some cx => exact pass.brush_brush _ _ _

/-- Two passes paint a node in either order. -/
theorem paint_comm (p q : Pass) (scope : NodeId) (t : Tree) (id : NodeId) (e : Element) :
    p.paint scope t id (q.paint scope t id e) = q.paint scope t id (p.paint scope t id e) := by
  -- A tag has one owner, and the pass that is not the owner changes nothing; tags stay as they
  -- are, so this is so before and after the other pass.
  by_cases hp : owner? e.tag = some p
  · by_cases hq : owner? e.tag = some q
    · obtain rfl : p = q := Option.some.inj (hp.symm.trans hq)
      rfl
    · have hq' : owner? (p.paint scope t id e).tag ≠ some q := by rwa [tag_paint]
      rw [paint_of_ne hq, paint_of_ne hq']
  · have hp' : owner? (q.paint scope t id e).tag ≠ some p := by rwa [tag_paint]
    rw [paint_of_ne hp, paint_of_ne hp']

theorem paint_congr (h : t.SameShape u) (pass : Pass) (scope : NodeId) :
    pass.paint scope u = pass.paint scope t := by
  funext id e
  rw [paint, paint, Tree.brushed, Tree.brushed, h.stops, h.links.children]

/-! ## 4. What passes leave to each other -/

/-- The attributes that a pass writes. -/
def writes : Pass → List String
  | altCheck => ["alt"]
  | ariaRole => [roleAttr]
  | ariaTableRole => [roleAttr, rowCountAttr]
  | ariaTableIndex => [roleAttr, rowIndexAttr]
  | titleCheck | imageContrast => []

theorem get?_brush {pass : Pass} {name : String} (h : name ∉ pass.writes) (ids : List NodeId)
    (cx : Context) (e : Element) : (pass.brush ids cx e).get? name = e.get? name := by
  cases pass with
  | altCheck =>
    simp only [writes, List.mem_singleton] at h
    show (repaired e).get? name = _
    unfold repaired
    split
    · exact Element.get?_set_of_ne h e _
    · rfl
  | ariaRole =>
    simp only [writes, List.mem_singleton] at h
    show (titled e).get? name = _
    unfold titled
    split
    · exact Element.get?_set_of_ne h _ _
    · rfl
  | ariaTableRole =>
    simp only [writes, List.mem_cons, List.not_mem_nil, or_false, not_or] at h
    show (counted ids e).get? name = _
    unfold counted
    split
    · rw [Element.get?_set_of_ne h.2, setRole, Element.get?_set_of_ne h.1]
    · rfl
  | ariaTableIndex =>
    simp only [writes, List.mem_cons, List.not_mem_nil, or_false, not_or] at h
    show (indexed cx e).get? name = _
    unfold indexed
    split
    · split
      · rw [get?_numbered h.2, setRole, Element.get?_set_of_ne h.1]
      · rw [setRole, Element.get?_set_of_ne h.1]
    · rfl
  | titleCheck => rfl
  | imageContrast => rfl

theorem get?_paint {pass : Pass} {name : String} (h : name ∉ pass.writes) (scope : NodeId)
    (t : Tree) (id : NodeId) (e : Element) : (pass.paint scope t id e).get? name = e.get? name := by
  unfold paint Tree.brushed
  split
  · exact get?_brush h _ _ _
  · rfl

/-- A text that is the mark of a missing title has no role marker, and stripping a text cannot make
it the mark. -/
theorem text_titled_eq_mark : (titled e).text = some noTitleMark ↔ e.text = some noTitleMark := by
  rw [titled]
  cases hasked : askedRole? e with
  | none => rfl
  | some role =>
    have htext : e.text ≠ some noTitleMark := by
      intro hmark
      rw [askedRole?, hmark] at hasked
      split at hasked
      · cases hasked
      · cases hasked
    refine iff_of_false ?_ htext
    show e.text.map stripMarkers ≠ some noTitleMark
    intro hmark
    obtain ⟨text, -, hstrip⟩ := Option.map_eq_some_iff.mp hmark
    exact stripMarkers_ne_singleton (by decide) text hstrip

theorem text_brush_eq_mark (pass : Pass) (ids : List NodeId) (cx : Context) (e : Element) :
    (pass.brush ids cx e).text = some noTitleMark ↔ e.text = some noTitleMark := by
  cases pass with
  | altCheck =>
    show (repaired e).text = _ ↔ _
    rw [repaired]
    split <;> rfl
  | ariaRole => exact text_titled_eq_mark
  | ariaTableRole =>
    show (counted ids e).text = _ ↔ _
    rw [counted]
    split <;> rfl
  | ariaTableIndex =>
    have hnumber : ∀ e, (numbered cx e).text = e.text := fun e => by rw [numbered]; split <;> rfl
    show (indexed cx e).text = _ ↔ _
    rw [indexed]
    split
    · split
      · rw [hnumber]; rfl
      · rfl
    · rfl
  | titleCheck => rfl
  | imageContrast => rfl

end Pass

/-- A painting that changes nothing that the pass looks at. -/
structure Spares (f : NodeId → Element → Element) (pass : Pass) : Prop where
  tag : ∀ id e, (f id e).tag = e.tag
  own : ∀ id e, owner? e.tag = some pass → f id e = e
  src : ∀ id e, (f id e).get? "src" = e.get? "src"
  mark : ∀ id e, (f id e).text = some noTitleMark ↔ e.text = some noTitleMark

theorem spares_paint {p q : Pass} (hne : q ≠ p) (scope : NodeId) (t : Tree) :
    Spares (q.paint scope t) p where
  tag := q.tag_paint scope t
  own id e hp := Pass.paint_of_ne (fun hq => hne (Option.some.inj (hq.symm.trans hp))) scope t id
  src := by
    have hsrc : "src" ∉ q.writes := by cases q <;> decide
    exact Pass.get?_paint hsrc scope t
  mark id e := by
    rw [Pass.paint, Tree.brushed]
    split
    · exact q.text_brush_eq_mark _ _ _
    · rfl

/-! ## 5. Notes -/

/-- A repeated text is reported at an image of the list, with the place of the image. -/
theorem exists_of_mem_altRepeats {cx : Context} {seen : List String} {index : Nat}
    {ids : List NodeId} {d : Diagnostic} (hd : d ∈ altRepeats t cx seen index ids) :
    ∃ i id img alt, ids[i]? = some id ∧ imageAt? t id = some img ∧
      d = { rule := "alt-duplicate", criterion := some .nonTextContent,
            message := "Found an image with duplicate alt text(" ++ alt ++ ") for " ++ srcOf img,
            path := cx.path.child (index + i) } := by
  rw [altRepeats_eq] at hd
  obtain ⟨⟨id, k⟩, hmem, rfl⟩ := List.mem_map.mp hd
  obtain ⟨hle, hid⟩ :=
    List.mk_mem_zipIdx_iff_le_and_getElem?_sub.mp ((sublist_repeated _ _ _).subset hmem)
  obtain ⟨-, -, alt, -, (halt : altAt? t id = some alt), -⟩ := mem_repeated_iff.mp hmem
  obtain ⟨img, himg, -⟩ := Option.bind_eq_some_iff.mp halt
  refine ⟨k - index, id, img, alt, hid, himg, ?_⟩
  simp only [repeatNote, halt, himg, Nat.add_sub_cancel' hle]
  rfl

theorem altRepeats_congr (h : ∀ id, imageAt? u id = imageAt? t id) (cx : Context)
    (seen : List String) (index : Nat) (ids : List NodeId) :
    altRepeats u cx seen index ids = altRepeats t cx seen index ids := by
  have halt : ∀ id, altAt? u id = altAt? t id := fun id => by rw [altAt?, altAt?, h]
  have hnote : ∀ path id, repeatNote u path id = repeatNote t path id := fun path id => by
    rw [repeatNote, repeatNote, halt, h]
  rw [altRepeats_eq, altRepeats_eq]
  simp only [halt, hnote]

/-- Repeated texts are found by the shape of a tree and its images. -/
theorem survey_repeatNotes_congr (hshape : t.SameShape u) (h : ∀ id, imageAt? u id = imageAt? t id)
    (scope : NodeId) :
    u.survey (repeatNotes u) (u.stops (stopAt .p) scope) =
      t.survey (repeatNotes t) (t.stops (stopAt .p) scope) := by
  have hread : ∀ (s : Tree) (id : NodeId) (cx : Context),
      ((s.element? id).map (repeatNotes s id cx)).getD [] =
        if s.tag? id = some .p then altRepeats s cx [] 0 (s.children id) else [] := by
    intro s id cx
    cases he : s.element? id with
    | none => rw [Tree.tag?, he]; rfl
    | some e =>
      rw [Tree.tag?_of_element? he]
      show (if e.tag = .p then _ else _) = _
      simp only [Option.some.injEq]
  rw [hshape.stops]
  apply List.flatMap_congr
  intro stop _
  rw [hread, hread, hshape.tag, hshape.links.children, altRepeats_congr h]

/-- The images are the same after paintings that keep tags and do the same to images. -/
theorem imageAt?_repaint {f g : NodeId → Element → Element} (htag : ∀ id e, (f id e).tag = e.tag)
    (h : ∀ id e, e.tag = .img → g id e = f id e) (htag' : ∀ id e, (g id e).tag = e.tag) (t : Tree)
    (id : NodeId) : imageAt? (t.repaint g) id = imageAt? (t.repaint f) id := by
  rw [imageAt?, imageAt?, Tree.element?_repaint, Tree.element?_repaint]
  cases t.element? id with
  | none => rfl
  | some e =>
    rw [Option.map_some, Option.map_some]
    by_cases himg : e.tag = .img
    · rw [h id e himg]
    · rw [Option.filter_some, Option.filter_some, if_neg (by rw [htag', beq_iff_eq]; exact himg),
        if_neg (by rw [htag, beq_iff_eq]; exact himg)]

/-- **Notes.** A pass says the same about a tree after a painting that spares it. -/
theorem notes_repaint {f : NodeId → Element → Element} {pass : Pass} (hf : Spares f pass)
    (probe : Probe) (scope : NodeId) (t : Tree) :
    pass.notes probe scope (t.repaint f) = pass.notes probe scope t := by
  have hshape := t.sameShape_repaint hf.tag
  cases pass with
  | altCheck =>
    have hfault : ∀ id cx e, altNotes id cx (f id e) = altNotes id cx e := by
      intro id cx e
      by_cases htag : e.tag = .img
      · rw [hf.own id e (by rw [htag]; rfl)]
      · rw [altNotes, altNotes, hf.tag, if_neg htag, if_neg htag]
    -- Repeated texts are looked for after the repair, so there are two trees with the same images
    -- to compare: repaired with and without `f` before.
    have hafter : (t.repaint f).repaint (Pass.altCheck.paint scope (t.repaint f)) =
        t.repaint fun id e => Pass.altCheck.paint scope t id (f id e) := by
      rw [Pass.paint_congr hshape, Tree.repaint_repaint]
    have htag : ∀ id e, (Pass.altCheck.paint scope t id (f id e)).tag = e.tag := by
      intro id e
      rw [Pass.tag_paint, hf.tag]
    have hshape' :=
      (t.sameShape_repaint (Pass.altCheck.tag_paint scope t)).symm.trans (t.sameShape_repaint htag)
    rw [Pass.notes, Pass.notes, hafter, hshape.stops, Tree.survey_repaint]
    simp only [hfault]
    refine congrArg _ (survey_repeatNotes_congr hshape' ?_ scope)
    refine imageAt?_repaint (Pass.altCheck.tag_paint scope t) ?_ htag t
    intro id e himg
    rw [hf.own id e (by rw [himg]; rfl)]
  | titleCheck =>
    rw [Pass.notes, Pass.notes, titleFaults, titleFaults, Tree.element?_repaint]
    cases t.element? Tree.rootId with
    | none => rfl
    | some e =>
      show (if (f Tree.rootId e).text = some noTitleMark then _ else _) =
        if e.text = some noTitleMark then _ else _
      simp only [hf.mark]
  | ariaRole =>
    have hasked : ∀ id e, askedRole? (f id e) = askedRole? e := by
      intro id e
      by_cases htag : e.tag = .h1
      · rw [hf.own id e (by rw [htag]; rfl)]
      · rw [askedRole?, askedRole?, hf.tag, if_neg htag, if_neg htag]
    have hnotes : ∀ id cx e, roleNotes id cx (f id e) = roleNotes id cx e := by
      intro id cx e
      rw [roleNotes, roleNotes, hasked]
    rw [Pass.notes, Pass.notes, hshape.stops, Tree.survey_repaint]
    simp only [hnotes]
  | ariaTableRole => rfl
  | ariaTableIndex => rfl
  | imageContrast =>
    have hnotes : ∀ id cx e, contrastNotes probe id cx (f id e) = contrastNotes probe id cx e := by
      intro id cx e
      rw [contrastNotes, contrastNotes, hf.tag, hf.src]
    rw [Pass.notes, Pass.notes, hshape.stops, Tree.survey_repaint]
    simp only [hnotes]

end AccessibleMarkdown.Audit
