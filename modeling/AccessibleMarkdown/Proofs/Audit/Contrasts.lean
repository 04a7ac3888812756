import AccessibleMarkdown.Proofs.Audit.Coverage
import AccessibleMarkdown.Proofs.Audit.Pointing

/-!
# Contrasts of images

The pass says one thing about every outermost image, whatever the probe answers: failures of the
probe are findings like others. What it says about an image depends on the answer for the source of
this image alone.
-/

namespace AccessibleMarkdown.Audit

variable {t : Tree} {kids : NodeId → List NodeId} {probe : Probe} {scope id : NodeId}
  {img : Element}

/-! ## 1. What is said about an image -/

/-- The source of an image, unless it is empty. -/
def source? (img : Element) : Option String := (img.get? "src").filter (· ≠ "")

theorem source?_eq_none :
    source? img = none ↔ img.get? "src" = none ∨ img.get? "src" = some "" := by
  rw [source?]
  cases img.get? "src" with
  | none => simp
  | some src => simp

/-- The rule of what is said, from the answer about the source. -/
def contrastRule : Option (Except ProbeError Float) → String
  | none => "contrast-no-src"
  | some (.ok _) => "contrast-estimate"
  | some (.error (.notFound _)) => "contrast-image-missing"
  | some (.error _) => "contrast-image-unreadable"

/-- The rule tells the kinds of answers apart. -/
theorem contrastRule_eq_iff (answer : Option (Except ProbeError Float)) :
    (contrastRule answer = "contrast-no-src" ↔ answer = none) ∧
      (contrastRule answer = "contrast-estimate" ↔ ∃ spread, answer = some (.ok spread)) ∧
      (contrastRule answer = "contrast-image-missing" ↔
        ∃ file, answer = some (.error (.notFound file))) ∧
      (contrastRule answer = "contrast-image-unreadable" ↔
        ∃ err, answer = some (.error err) ∧ ∀ file, err ≠ .notFound file) := by
  match answer with
  | none | some (.ok _) => simp [contrastRule]
  | some (.error (.notFound _)) => simp [contrastRule]
  | some (.error (.unreadable _ _)) | some (.error (.undecodable _ _))
  | some (.error (.noPixels _)) =>
    simp [contrastRule]

theorem rule_eq_contrastRule (probe : Probe) (img : Element) :
    (contrastVerdict probe (img.get? "src")).1 = contrastRule ((source? img).map probe) := by
  rw [source?]
  unfold contrastVerdict
  split
  · rename_i hsrc
    rw [hsrc]
    rfl
  · rename_i hsrc
    rw [hsrc]
    rfl
  · rename_i src hempty hsrc
    have hne : src ≠ "" := hempty
    rw [hsrc, Option.filter_some, if_pos (decide_eq_true hne), Option.map_some]
    cases probe src with
    | ok spread => rfl
    | error err => cases err <;> rfl

/-- The finding is what there is to say about the contrast of the image at a node. -/
structure ContrastNoted (t : Tree) (probe : Probe) (id : NodeId) (img : Element)
    (d : Diagnostic) : Prop where
  path : d.path = t.path id
  severity : d.severity = .info
  criterion : d.criterion = some .contrastMinimum
  noSource : d.rule = "contrast-no-src" ↔ img.get? "src" = none ∨ img.get? "src" = some ""
  estimate : d.rule = "contrast-estimate" ↔ ∃ spread, (source? img).map probe = some (.ok spread)
  imageMissing : d.rule = "contrast-image-missing" ↔
    ∃ file, (source? img).map probe = some (.error (.notFound file))
  unreadable : d.rule = "contrast-image-unreadable" ↔
    ∃ err, (source? img).map probe = some (.error err) ∧ ∀ file, err ≠ .notFound file
  suits : Suits probe id img.tag (srcOf img) d.rule d.message

def contrastNote (probe : Probe) (path : Path) (img : Element) : Diagnostic where
  rule := (contrastVerdict probe (img.get? "src")).1
  criterion := some .contrastMinimum
  message := (contrastVerdict probe (img.get? "src")).2
  path := path

theorem contrastNoted (t : Tree) (probe : Probe) (id : NodeId) (htag : img.tag = .img) :
    ContrastNoted t probe id img (contrastNote probe (t.path id) img) := by
  have hrule : (contrastNote probe (t.path id) img).rule = contrastRule ((source? img).map probe) :=
    rule_eq_contrastRule probe img
  obtain ⟨hnone, hestimate, hmissing, hunreadable⟩ := contrastRule_eq_iff ((source? img).map probe)
  rw [← hrule] at hnone hestimate hmissing hunreadable
  exact {
    path := rfl
    severity := rfl
    criterion := rfl
    noSource := hnone.trans (Option.map_eq_none_iff.trans source?_eq_none)
    estimate := hestimate
    imageMissing := hmissing
    unreadable := hunreadable
    suits := suits_contrastVerdict probe id htag }

/-- Two probes that agree about the source of an image have the same said about it. -/
theorem contrastNote_congr {probe' : Probe}
    (h : ∀ src, source? img = some src → probe src = probe' src) (path : Path) :
    contrastNote probe path img = contrastNote probe' path img := by
  have hverdict :
      contrastVerdict probe (img.get? "src") = contrastVerdict probe' (img.get? "src") := by
    unfold contrastVerdict
    split
    · rfl
    · rfl
    · rename_i src hempty hsrc
      have hne : src ≠ "" := hempty
      have hsource : source? img = some src := by
        rw [source?, hsrc, Option.filter_some, if_pos (decide_eq_true hne)]
      rw [h src hsource]
  rw [contrastNote, contrastNote, hverdict]

/-! ## 2. What is said about a subtree -/

/-- The element, if it is an image. -/
def image? (e : Element) : Option Element := if e.tag = .img then some e else none

theorem contrastNotes_eq (probe : Probe) (id : NodeId) (cx : Context) (e : Element) :
    contrastNotes probe id cx e = ((image? e).map (contrastNote probe cx.path)).toList := by
  rw [contrastNotes, image?]
  split <;> rfl

theorem image?_eq_some {e : Element} : image? e = some img ↔ e = img ∧ img.tag = .img := by
  rw [image?, Option.ite_none_right_eq_some, Option.some.injEq]
  constructor
  · rintro ⟨htag, rfl⟩
    exact ⟨rfl, htag⟩
  · rintro ⟨rfl, htag⟩
    exact ⟨htag, rfl⟩

/-- The outermost images of a subtree, in document order. -/
def outermostImages (t : Tree) (scope : NodeId) : List (NodeId × Element) :=
  (covered t .img scope).filterMap fun id => ((t.element? id).bind image?).map (id, ·)

section
variable (h : t.Linked kids)
include h

theorem mem_outermostImages :
    (id, img) ∈ outermostImages t scope ↔ t.Outermost .img scope id ∧ t.element? id = some img := by
  simp only [outermostImages, List.mem_filterMap, Option.map_eq_some_iff, Option.bind_eq_some_iff,
    image?_eq_some, mem_covered_iff h]
  constructor
  · rintro ⟨_, hid, _, ⟨e, he, rfl, -⟩, heq⟩
    cases heq
    exact ⟨hid, he⟩
  · rintro ⟨hid, he⟩
    exact ⟨id, hid, img, ⟨img, he, rfl, hid.tag_of_element? he⟩, rfl⟩

theorem pairwise_outermostImages (scope : NodeId) :
    (outermostImages t scope).Pairwise fun a b => (t.path a.1).Before (t.path b.1) :=
  Tree.pairwise_filterMap (pairwise_covered h .img scope) fun id => (t.element? id).bind image?

theorem survey_contrastNotes (probe : Probe) (scope : NodeId) :
    t.survey (contrastNotes probe) (t.stops (stopAt .img) scope) =
      (outermostImages t scope).map fun image => contrastNote probe (t.path image.1) image.2 := by
  have htag : ∀ e img, image? e = some img → e.tag = .img := by
    intro e img he
    obtain ⟨rfl, htag⟩ := image?_eq_some.mp he
    exact htag
  rw [survey_found h (contrastNotes_eq probe) htag, outermostImages, List.map_filterMap]
  simp only [Option.map_map]
  rfl

end

/-- What the pass does in the subtree of `scope`, whose outermost images are `images`. -/
structure ContrastsReported (t : Tree) (scope : NodeId) (images : List (NodeId × Element))
    (found : Probe → List Diagnostic) : Prop where
  mem : ∀ id img, (id, img) ∈ images ↔ t.Outermost .img scope id ∧ t.element? id = some img
  order : images.Pairwise fun a b => (t.path a.1).Before (t.path b.1)
  run : ∀ probe ds, Pass.imageContrast.run probe scope t ds = (t, ds ++ (found probe).toArray)
  noted : ∀ probe,
    List.Forall₂ (fun image d => ContrastNoted t probe image.1 image.2 d) images (found probe)
  /-- What is said about an image depends on what the probe answers about it. -/
  apart : ∀ (probe probe' : Probe) (k : Nat) id img, images[k]? = some (id, img) →
    (∀ src, source? img = some src → probe src = probe' src) →
    (found probe)[k]? = (found probe')[k]?

/-- **Contrasts.** Each outermost image of a subtree is reported once, at its place and in document
order; a failure of the probe for one image changes nothing for another. -/
theorem imageContrast_reports (ht : t.Reachable) (scope : NodeId) :
    ∃ images found, ContrastsReported t scope images found := by
  obtain ⟨kids, h⟩ := ht.linked
  refine ⟨outermostImages t scope,
    fun probe => (outermostImages t scope).map fun image => contrastNote probe
      (t.path image.1) image.2, ?_⟩
  constructor
  case mem => exact fun id img => mem_outermostImages h
  case order => exact pairwise_outermostImages h scope
  case run =>
    intro probe ds
    rw [← survey_contrastNotes h]
    exact (reports_contrastReport probe).walkFrom_eq t scope ds
  case noted =>
    intro probe
    rw [List.forall₂_map_right_iff, List.forall₂_same]
    rintro ⟨id, img⟩ hmem
    obtain ⟨hid, he⟩ := (mem_outermostImages h).mp hmem
    exact contrastNoted t probe id (hid.tag_of_element? he)
  case apart =>
    intro probe probe' k id img hk hagree
    rw [List.getElem?_map, List.getElem?_map, hk]
    exact congrArg some (contrastNote_congr hagree _)

/-- An image with no source, one that is not found, one inside it and one that cannot be decoded. -/
theorem imageContrast_reports_each :
    let img (src : String) : Element := { tag := .img, attrs := .ofList [("src", src)] }
    let t := Tree.session { tag := .div } [.append 0 { tag := .img }, .append 0 (img "a.png"),
      .append 2 (img "b.png"), .append 0 (img "c.png")]
    let probe : Probe := fun src => .error (if src = "a.png" then .notFound src else .noPixels src)
    t.Reachable ∧ (∃ images found, ContrastsReported t 0 images found) ∧
      t.Outermost .img 0 2 ∧ ¬ t.Outermost .img 0 3 ∧
      (Pass.imageContrast.run probe 0 t #[]).2.toList.map (·.rule) =
        ["contrast-no-src", "contrast-image-missing", "contrast-image-unreadable"] := by
  intro img t probe
  have ht : t.Reachable := ⟨_, _, rfl⟩
  obtain ⟨kids, h⟩ := ht.linked
  have hnested : ¬ t.Outermost .img 0 3 := mt (mem_covered_iff h).mpr (by decide)
  exact ⟨ht, imageContrast_reports ht 0, (mem_covered_iff h).mp (by decide), hnested, by decide⟩

end AccessibleMarkdown.Audit
