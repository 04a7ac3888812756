import AccessibleMarkdown.Checker
import AccessibleMarkdown.Proofs.Audit.Messages
import AccessibleMarkdown.Proofs.Markdown.Standing

/-!
# Captions

What a document says about its images, in the order in which a builder meets it: the address of each
image that is not inside another, and the texts inside. Nothing else of the document gets into the
elements of images. So if the captions stay on one line, then so do the images, in every tree that a
hook sees and in the one at the end.
-/

namespace AccessibleMarkdown

open Text (Unbroken unbroken_append unbroken_literal)

/-! ## 1. Trees -/

theorem Element.OneLine.of_ne {e : Element} (h : e.tag ≠ .img) : e.OneLine :=
  fun himg => absurd himg h

theorem Tree.OneLine.append {t u : Tree} {p id : NodeId} {e : Element} (h : t.OneLine)
    (he : e.OneLine) (hok : t.append p e = (u, .ok id)) : u.OneLine := by
  have hu : u = ((t.create e).1.attach p t.size).1 := (congrArg Prod.fst hok).symm
  intro k e' he'
  rw [hu, element?_attach, element?_create] at he'
  split at he'
  · exact Option.some.inj he' ▸ he
  · exact h k e' he'

theorem Tree.oneLine_empty : Tree.empty.OneLine := by
  intro id e he
  cases id with
  | zero => exact Option.some.inj he ▸ Element.OneLine.of_ne (by decide)
  | succ id => cases he

namespace Markdown

/-! ## 2. Events -/

/-- How many images are open behind an event, where `depth` are before it. -/
def Event.depth (depth : Nat) : Event → Nat
  | .start (.image _ _) => depth + 1
  | .stop .image => depth - 1
  | _ => depth

/-- What an event tells the outermost image. -/
def Event.caption? (depth : Nat) : Event → Option String
  | .start (.image dest _) => if depth = 0 then some dest else none
  | .text s | .code s => if depth = 0 then none else some s
  | _ => none

/-- What events tell the images, where `depth` are open before them. -/
def captions : Nat → List Event → List String
  | _, [] => []
  | depth, event :: events => (event.caption? depth).toList ++ captions (event.depth depth) events

variable {σ : Type} {hook : TableHook σ} {clean : Prop} {Q : Tree × σ → Prop}

/-- The hook keeps a property that asks of a tree, if the captions are `clean`, that the images stay
on one line, and nothing of it otherwise. -/
structure TableHook.Minds (hook : TableHook σ) (clean : Prop) (Q : Tree × σ → Prop) : Prop where
  redraw : ∀ {t t' : Tree} {gathered : σ}, (clean → t.OneLine → t'.OneLine) → Q (t, gathered) →
    Q (t', gathered)
  call : ∀ parent s, Q s → Q (hook parent s)

namespace Builder

variable {b b' b'' : Builder σ} {p id : NodeId} {e : Element}

theorem oneLine_appendRun {t : Tree} (h : t.OneLine) (container : NodeId) (run : String) :
    (appendRun t container run).OneLine := by
  unfold appendRun
  split
  · exact h.modify fun _ he => he
  · exact h.modify fun _ he => he

theorem oneLine_markUntitled {t : Tree} (h : t.OneLine) : (markUntitled t).OneLine := by
  unfold markUntitled
  split
  · split
    · exact h
    · exact h.modify fun _ he => he
  · exact h

/-- An image as it starts out has its address on one line, and no text yet. -/
theorem oneLine_image {dest : String} (h : Unbroken dest) (title : String) :
    (element "img" (("src", dest) :: given "title" title)).OneLine := by
  have hbare : Element.OneLine { tag := .ofName "img" } := by
    intro _ name _ value hvalue
    cases hvalue
  have hsrc : (Element.set { tag := .ofName "img" } "src" dest).OneLine := hbare.set fun _ => h
  rw [given]
  split
  · exact hsrc
  · exact hsrc.set_of_notMem (by decide +kernel) title

theorem Grown.oneLine {t u : Tree} (h : Grown t u) (ht : t.OneLine) : u.OneLine := by
  induction h with
  | refl => exact ht
  | text _ p run ih => exact oneLine_appendRun ih p run
  | element _ he hok ih => exact ih.append (.of_ne he) hok

/-! ## 3. Steps -/

/-- How many images are open, one inside the other. -/
def openImages (b : Builder σ) : Nat :=
  match b.image with
  | some image => image.depth + 1
  | none => 0

/-- The property holds, and if captions are `clean`, the image that is open has its text on one line
so far. -/
structure Captioned (clean : Prop) (Q : Tree × σ → Prop) (b : Builder σ) : Prop where
  holds : Q (b.tree, b.gathered)
  image : clean → ∀ image, b.image = some image → Unbroken image.alt

theorem openImages_congr (h : b'.image = b.image) : b'.openImages = b.openImages := by
  rw [openImages, h, openImages]

namespace Captioned

/-- What does not touch the tree leaves all as it was. -/
theorem congr (h : b.Captioned clean Q) (htree : b'.tree = b.tree)
    (hgathered : b'.gathered = b.gathered) (himage : b'.image = b.image) :
    b'.Captioned clean Q where
  holds := by
    rw [htree, hgathered]
    exact h.holds
  image hclean image hb' := h.image hclean image (himage ▸ hb')

theorem grows (h : b.Captioned clean Q) (hhook : hook.Minds clean Q) (hb : b.Grows b') :
    b'.Captioned clean Q where
  holds := by
    rw [hb.gathered]
    exact hhook.redraw (fun _ => hb.tree.oneLine) h.holds
  image hclean image hb' := h.image hclean image (hb.image ▸ hb')

theorem emptied (h : b.Captioned clean Q) : Captioned clean Q { b with pending := "" } :=
  h.congr rfl rfl rfl

theorem opens (h : b.Captioned clean Q) (hhook : hook.Minds clean Q) {f : Frame}
    (hb : b.Opens f b') : b'.Captioned clean Q :=
  have hpushed : (b.pushFrame f).Captioned clean Q := h.congr rfl rfl rfl
  hpushed.grows hhook hb.grows

theorem closes (h : b.Captioned clean Q) (hhook : hook.Minds clean Q) (hb : b.Closes hook b') :
    b'.Captioned clean Q := by
  cases hb with
  | plain hgrows => exact h.grows hhook hgrows
  | table parent hgrows hcall =>
    subst hcall
    have h₁ := h.grows hhook hgrows
    exact ⟨hhook.call parent _ h₁.holds, h₁.image⟩

/-- An image is made with its address, and is the one that is open then. -/
theorem openImage (h : b.Captioned clean Q) (hhook : hook.Minds clean Q) {dest title : String}
    (hdest : clean → Unbroken dest) (hok : b.openSpan (.image dest title) = .ok b') :
    b'.Captioned clean Q ∧ b'.openImages = 1 := by
  obtain ⟨u, node, htree, rfl⟩ := openSpan_image_ok hok
  have hempty : Unbroken "" := unbroken_literal rfl
  refine ⟨⟨?_, fun _ image himage => Option.some.inj himage ▸ hempty⟩, rfl⟩
  exact hhook.redraw (fun hclean ht => ht.append (oneLine_image (hdest hclean) title) htree) h.holds

/-- Inside an image, texts are put together to the text of the outermost one, and its end writes
that down. -/
theorem pushAlt (h : b.Captioned clean Q) (hhook : hook.Minds clean Q) {image : OpenImage}
    (himage : b.image = some image) {event : Event}
    (hcaption : clean → ∀ text ∈ event.caption? b.openImages, Unbroken text) :
    (b.pushAlt image event).Captioned clean Q ∧ (b.pushAlt image event).openImages =
      event.depth b.openImages := by
  have hopen : b.openImages = image.depth + 1 := by rw [openImages, himage]
  have halt : clean → Unbroken image.alt := fun hclean => h.image hclean image himage
  -- With a text or more images open, the tree stays.
  have hmore : ∀ alt depth, (clean → Unbroken alt) →
      Captioned clean Q { b with image := some { image with alt, depth } } := fun alt depth halt =>
    ⟨h.holds, fun hclean _ himage => Option.some.inj himage ▸ halt hclean⟩
  rw [hopen] at hcaption ⊢
  cases event with
  | text s | code s =>
    have hs : clean → Unbroken s := fun hclean => hcaption hclean s rfl
    exact ⟨hmore _ image.depth fun hclean => unbroken_append.mpr ⟨halt hclean, hs hclean⟩, rfl⟩
  | softBreak | hardBreak =>
    have hspace : Unbroken " " := unbroken_literal rfl
    exact ⟨hmore _ image.depth fun hclean => unbroken_append.mpr ⟨halt hclean, hspace⟩, rfl⟩
  | start span =>
    cases span with
    | image dest title => exact ⟨hmore _ _ halt, rfl⟩
    | _ => exact ⟨h, hopen⟩
  | stop kind =>
    cases kind with
    | image =>
      rw [Builder.pushAlt]
      split
      · rename_i depth hdepth
        rw [hdepth]
        exact ⟨hmore _ _ halt, rfl⟩
      · rename_i hdepth
        -- The outermost image ends: its text is written down, and no image is open.
        rw [hdepth]
        refine ⟨⟨?_, fun _ _ himage => by cases himage⟩, rfl⟩
        exact hhook.redraw
          (fun hclean ht => ht.modify fun _ he => he.set fun _ => halt hclean) h.holds
    | _ => exact ⟨h, hopen⟩
  | _ => exact ⟨h, hopen⟩

/-- **Step.** Images stay on one line if the caption of an event does. -/
theorem push (h : b.Captioned clean Q) (hhook : hook.Minds clean Q) {event : Event}
    (hcaption : clean → ∀ text ∈ event.caption? b.openImages, Unbroken text)
    (hok : push hook b event = .ok b') :
    b'.Captioned clean Q ∧ b'.openImages = event.depth b.openImages := by
  cases himage : b.image with
  | some image =>
    rw [Builder.push, himage] at hok
    cases hok
    exact h.pushAlt hhook himage hcaption
  | none =>
    have hopen : b.openImages = 0 := by rw [openImages, himage]
    rw [hopen] at hcaption ⊢
    have hplain : ∀ {b' : Builder σ}, b'.image = b.image → b'.openImages = 0 :=
      fun hsame => (openImages_congr hsame).trans hopen
    -- Where no image is open, only the start of one has a caption, its address.
    obtain ⟨l, rfl⟩ | ⟨s, rfl⟩ | ⟨kind, rfl⟩ := event_cases event
    · have hdepth : l.event.depth 0 = 0 := by cases l <;> rfl
      rw [hdepth]
      obtain ⟨text, rfl⟩ | hgrows := leaf_ok himage hok
      · rw [hold_eq]
        exact ⟨h.congr rfl rfl rfl, hplain rfl⟩
      · exact ⟨h.emptied.grows hhook hgrows, hplain hgrows.image⟩
    · obtain ⟨b₁, hgrows, hok⟩ := start_ok himage hok
      have h₁ := h.emptied.grows hhook hgrows
      obtain ⟨dest, title, rfl⟩ | hs := image_or_ne s
      · exact h₁.openImage hhook (fun hclean => hcaption hclean dest rfl) hok
      · have hdepth : (Event.start s).depth 0 = 0 := by
          cases s <;> first | rfl | exact absurd rfl hs
        obtain ⟨f, hopens⟩ := Opens.span hok hs
        rw [hdepth]
        exact ⟨h₁.opens hhook hopens, hplain (hopens.grows.image.trans hgrows.image)⟩
    · obtain ⟨b₁, hgrows, hclose⟩ := stop_ok himage hok
      have hdepth : (Event.stop kind).depth 0 = 0 := by cases kind <;> rfl
      have hpopped : Captioned clean Q { b₁ with frames := b₁.frames.tail } :=
        (h.emptied.grows hhook hgrows).congr rfl rfl rfl
      obtain ⟨-, -, hsame⟩ := hclose.kept
      rw [hdepth]
      exact ⟨hpopped.closes hhook hclose, hplain (hsame.trans hgrows.image)⟩

/-- **Run.** So they do if all captions do. -/
theorem run (h : b.Captioned clean Q) (hhook : hook.Minds clean Q) {events : List Event}
    (hcaptions : clean → ∀ text ∈ captions b.openImages events, Unbroken text)
    (hok : events.foldlM (Builder.push hook) b = .ok b') : b'.Captioned clean Q := by
  -- On the events; what is said of the rest of them begins at the images that are open then.
  induction events generalizing b with
  | nil =>
    cases hok
    exact h
  | cons event events ih =>
    rw [List.foldlM_cons] at hok
    obtain ⟨b₁, hpush, hok⟩ := bind_eq_ok.mp hok
    simp only [captions, List.mem_append, Option.mem_toList] at hcaptions
    obtain ⟨h₁, hopen⟩ :=
      h.push hhook (fun hclean text htext => hcaptions hclean text (.inl htext)) hpush
    refine ih h₁ (fun hclean text htext => ?_) hok
    rw [hopen] at htext
    exact hcaptions hclean text (.inr htext)

end Captioned

end Builder

/-! ## 4. Documents -/

/-- What a hook keeps holds at the end as well. -/
theorem holds_buildTree (hhook : hook.Minds clean Q) {deletion : Bool} {gathered : σ}
    {events : List Event} {s : Tree × σ} (hstart : Q (.empty, gathered))
    (hcaptions : clean → ∀ text ∈ captions 0 events, Unbroken text)
    (hok : buildTree deletion hook gathered events = .ok s) : Q s := by
  obtain ⟨b, hrun, hok⟩ := bind_eq_ok.mp hok
  obtain ⟨b₁, hflush, hok⟩ := bind_eq_ok.mp hok
  cases hok
  have h₀ : (Builder.start deletion gathered).Captioned clean Q :=
    ⟨hstart, fun _ _ himage => by cases himage⟩
  have h₁ := (h₀.run hhook hcaptions hrun).emptied.grows hhook (.flush hflush)
  exact hhook.redraw (fun _ => Builder.oneLine_markUntitled) h₁.holds

end Markdown

namespace Checker

open Audit (Diagnostics OneLineProbe Pipeline Probe Says)
open Markdown

variable {pipeline : Pipeline} {probe : Probe} {clean : Prop} {deletion : Bool}
  {events : List Event} {s : Tree × Diagnostics}

theorem minds_blockStage (pipeline : Pipeline) (hprobe : clean → OneLineProbe probe) :
    TableHook.Minds (blockStage pipeline probe) clean (Says clean) where
  redraw ht h := ⟨fun hclean => ht hclean (h.images hclean), h.rules, h.messages⟩
  call parent _ h := Audit.says_runStage hprobe pipeline .block parent h

theorem minds_none : TableHook.Minds TableHook.none clean fun s => clean → s.1.OneLine where
  redraw ht h hclean := ht hclean (h hclean)
  call _ _ h := h

theorem says_start {t : Tree} (ht : clean → t.OneLine) : Says clean (t, #[]) where
  images := ht
  rules _ hd := absurd hd (Array.not_mem_empty _)
  messages _ _ hd := absurd hd (Array.not_mem_empty _)

/-- A tree that is built without a hook, before any pass. -/
theorem says_buildTree {t : Tree} (hcaptions : clean → ∀ text ∈ captions 0 events, Unbroken text)
    (hok : buildTree deletion TableHook.none () events = .ok (t, ())) : Says clean (t, #[]) :=
  says_start (holds_buildTree minds_none (fun _ => Tree.oneLine_empty) hcaptions hok)

theorem says_runAll {t : Tree} (hprobe : clean → OneLineProbe probe)
    (hcaptions : clean → ∀ text ∈ captions 0 events, Unbroken text)
    (hok : buildTree deletion TableHook.none () events = .ok (t, ())) :
    Says clean (pipeline.runAll probe t #[]) :=
  Audit.says_runStage hprobe pipeline .tree _
    (Audit.says_runStage hprobe pipeline .block _ (says_buildTree hcaptions hok))

/-- **Audits.** No rule has a line break; nor has a message, if captions and probe stay on one
line. -/
theorem says_audit (hprobe : clean → OneLineProbe probe)
    (hcaptions : clean → ∀ text ∈ captions 0 events, Unbroken text)
    (hok : audit pipeline probe deletion events = .ok s) : Says clean s := by
  have hrun : ∀ (t : Tree) ds, Says clean (t, ds) → Says clean (pipeline.run probe t ds) :=
    fun _ _ => Audit.says_runStage hprobe pipeline .tree Tree.rootId
  rw [audit] at hok
  split at hok
  · obtain ⟨⟨t, ds⟩, hbuild, hok⟩ := bind_eq_ok.mp hok
    cases hok
    have hhook := minds_blockStage pipeline hprobe
    exact hrun t ds
      (holds_buildTree hhook (says_start fun _ => Tree.oneLine_empty) hcaptions hbuild)
  · cases hbuild : buildTree deletion TableHook.none () events with
    | error err =>
      rw [hbuild] at hok
      cases hok
    | ok made =>
      rw [hbuild] at hok
      cases hok
      exact hrun made.1 #[] (says_buildTree hcaptions hbuild)

end Checker

end AccessibleMarkdown
