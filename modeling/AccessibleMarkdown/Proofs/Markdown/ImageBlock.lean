import AccessibleMarkdown.Proofs.Checker.Success
import AccessibleMarkdown.Proofs.Markdown.Standing
import AccessibleMarkdown.Proofs.Markdown.TableBlock

/-!
# Image blocks

From the start of an image to its end, the events make up its alternative text. They may be
anything, starts and ends that do not match among them: only images are counted, to find the end.
All that comes of them is one element.
-/

namespace AccessibleMarkdown.Markdown

variable {inside : List Event}

/-! ## 1. Events inside an image -/

def Event.opensImage : Event → Bool
  | .start (.image _ _) => true
  | _ => false

def Event.closesImage : Event → Bool
  | .stop .image => true
  | _ => false

/-- What an event adds to the text of the image around it. -/
def Event.alt : Event → String
  | .text s | .code s => s
  | .softBreak | .hardBreak => " "
  | _ => ""

/-- The text of all levels, in order. -/
def altText (inside : List Event) : String := String.join (inside.map Event.alt)

/-- The images inside end where those end that start inside, and no end goes further. -/
structure ImagesMatch (inside : List Event) : Prop where
  within : ∀ k, (inside.take k).countP Event.closesImage ≤ (inside.take k).countP Event.opensImage
  all : inside.countP Event.closesImage = inside.countP Event.opensImage

/-- The events of an image, up to the end that matches its start. -/
def imageEvents (dest title : String) (inside : List Event) : List Event :=
  .start (.image dest title) :: (inside ++ [.stop .image])

/-! ## 2. Building inside an image -/

namespace Builder

variable {σ : Type} {hook : TableHook σ} {b : Builder σ} {fs : List Frame}

/-- Text is added to that of the image, and images are counted; nothing else happens. -/
theorem push_alt (b : Builder σ) (image : OpenImage) (e : Event)
    (h : [e].countP Event.closesImage ≤ image.depth + [e].countP Event.opensImage) :
    push hook (b.withImage image) e = .ok (b.withImage { image with
      alt := image.alt ++ e.alt
      depth := image.depth + [e].countP Event.opensImage - [e].countP Event.closesImage }) := by
  have hsame : b.withImage image = b.withImage { image with alt := image.alt ++ "" } := by
    rw [String.append_empty]
  cases e with
  | text s | code s | softBreak | hardBreak => rfl
  | start span =>
    cases span with
    | image dest title =>
      exact congrArg Except.ok (by rw [show Event.alt _ = "" from rfl, String.append_empty]; rfl)
    | _ => exact congrArg Except.ok hsame
  | stop kind =>
    cases kind with
    | image =>
      obtain ⟨node, alt, depth⟩ := image
      cases depth with
      | zero => exact absurd h (by show ¬1 ≤ 0 + 0; decide)
      | succ depth =>
        exact congrArg Except.ok (by rw [show Event.alt _ = "" from rfl, String.append_empty]; rfl)
    | _ => exact congrArg Except.ok hsame
  | _ => exact congrArg Except.ok hsame

/-- As long as no end goes further than the image, all events make up its text. -/
theorem foldlM_inside (b : Builder σ) (image : OpenImage)
    (h : ∀ k, (inside.take k).countP Event.closesImage ≤
      image.depth + (inside.take k).countP Event.opensImage) :
    inside.foldlM (push hook) (b.withImage image) = .ok (b.withImage { image with
      alt := image.alt ++ altText inside
      depth :=
        image.depth + inside.countP Event.opensImage - inside.countP Event.closesImage }) := by
  -- The images that are open then are those that were, with those that started since, without those
  -- that ended.
  induction inside generalizing image with
  | nil =>
    rw [show altText [] = "" from rfl, String.append_empty]
    rfl
  | cons e rest ih =>
    have hcount : ∀ (p : Event → Bool) (es : List Event),
        (e :: es).countP p = [e].countP p + es.countP p := by
      intro p es
      rw [← List.countP_append]
      rfl
    have hstep : [e].countP Event.closesImage ≤ image.depth + [e].countP Event.opensImage := h 1
    have hrest : ∀ k, (rest.take k).countP Event.closesImage ≤
        image.depth + [e].countP Event.opensImage - [e].countP Event.closesImage +
          (rest.take k).countP Event.opensImage := by
      intro k
      have hnext := h (k + 1)
      rw [List.take_succ_cons] at hnext
      have hopens := hcount Event.opensImage (rest.take k)
      have hcloses := hcount Event.closesImage (rest.take k)
      omega
    have halt : altText (e :: rest) = e.alt ++ altText rest := by
      rw [altText, List.map_cons, String.join_cons]
      rfl
    have hdepth :
        image.depth + (e :: rest).countP Event.opensImage - (e :: rest).countP Event.closesImage =
        image.depth + [e].countP Event.opensImage - [e].countP Event.closesImage +
          rest.countP Event.opensImage -
          rest.countP Event.closesImage := by
      have hopens := hcount Event.opensImage rest
      have hcloses := hcount Event.closesImage rest
      omega
    rw [foldlM_cons_of_ok (push_alt b image e hstep), ih _ hrest, halt, hdepth, String.append_assoc]

/-! ## 3. From the start to the end -/

/-- The builder with one element more in its container. -/
def grow (b : Builder σ) (e : Element) : Builder σ :=
  { b with tree := b.tree.grow b.frame.container e }

/-- The start of an image finds no text held back. -/
theorem Stands.push_image (h : b.Stands fs) (himage : b.image = none) (dest title : String) :
    let b₀ := b.fill (b.mode.run b.pending)
    let img : Element := { tag := .img, attrs := .ofList (("src", dest) :: given "title" title) }
    Builder.push hook b (.start (.image dest title)) =
      .ok ((b₀.grow img).withImage { node := b₀.tree.size }) := by
  intro b₀ img
  have hready : b₀.Ready := (h.fill _).ready himage
  have himg : ∀ attrs, element "img" attrs = { tag := .img, attrs := .ofList attrs } :=
    element_eq (by decide +kernel)
  rw [push_eq himage, pushEvent, h.flush_eq]
  show (b₀.append (element "img" _) >>= _) = _
  rw [himg, append_eq hready]
  rfl

theorem push_stop_grow (himage : b.image = none) (attrs : List (String × String)) (alt : String) :
    push hook
        ((b.grow { tag := .img, attrs := .ofList attrs }).withImage { node := b.tree.size, alt })
        (.stop .image) =
      .ok (b.grow (imageElement attrs alt)) := by
  rw [push_stop_image, grow, grow, grow_setAlt, himage]

theorem Stands.foldlM_image (h : b.Stands fs) (himage : b.image = none) (dest title : String)
    (hmatch : ImagesMatch inside) :
    (imageEvents dest title inside).foldlM (Builder.push hook) b =
      .ok ((b.fill (b.mode.run b.pending)).grow
        (imageElement (("src", dest) :: given "title" title) (altText inside))) := by
  have hwithin : ∀ k,
      (inside.take k).countP Event.closesImage ≤ 0 + (inside.take k).countP Event.opensImage := by
    intro k
    rw [Nat.zero_add]
    exact hmatch.within k
  have hdepth : 0 + inside.countP Event.opensImage - inside.countP Event.closesImage = 0 := by
    rw [hmatch.all, Nat.zero_add, Nat.sub_self]
  rw [imageEvents, foldlM_cons_of_ok (h.push_image himage dest title),
    foldlM_append_of_ok (foldlM_inside _ _ hwithin), hdepth, String.empty_append]
  have hfilled : (b.fill (b.mode.run b.pending)).image = none := himage
  exact foldlM_cons_of_ok (push_stop_grow hfilled _ _) []

/-! ## 4. What comes of an image -/

/-- Of a builder `b`, only the tree is another in `b'`: behind the text that `b` held back, which is
in the tree of `b₀`, its container has one child more, an image with nothing inside. -/
structure GainsImage (b b₀ b' : Builder σ) (dest title alt : String) (img : Element) : Prop where
  flush : b.flush = .ok b₀
  kept : b₀ = { b with tree := b₀.tree, pending := "" } ∧ b' = { b₀ with tree := b'.tree }
  append : b₀.tree.append b.frame.container img = (b'.tree, .ok b₀.tree.size)
  gains : GainsChild b₀.tree b'.tree b.frame.container img .nil
  image : img.tag = .img ∧ img.text = none ∧ img.tail = none
  attrs : img.attrs.toList =
    ("src", dest) :: ((if title = "" then [] else [("title", title)]) ++ [("alt", alt)])

theorem toList_imageElement (dest title alt : String) :
    (imageElement (("src", dest) :: given "title" title) alt).attrs.toList =
      ("src", dest) :: ((if title = "" then [] else [("title", title)]) ++ [("alt", alt)]) := by
  rw [imageElement, (Attributes.ofPairs?_eq _).2, given]
  by_cases htitle : title = ""
  · rw [if_pos htitle, if_pos (String.isEmpty_iff.mpr htitle)]
    rfl
  · rw [if_neg htitle, if_neg (mt String.isEmpty_iff.mp htitle)]
    rfl

theorem Stands.gainsImage (h : b.Stands fs) (dest title alt : String) :
    let img := imageElement (("src", dest) :: given "title" title) alt
    let b₀ := b.fill (b.mode.run b.pending)
    b.GainsImage b₀ (b₀.grow img) dest title alt img := by
  intro img b₀
  have hfill := h.fill (b.mode.run b.pending)
  obtain ⟨kids, hl⟩ := hfill.linked
  constructor
  case flush => exact h.flush_eq
  case kept => exact ⟨rfl, rfl⟩
  case append => exact Tree.append_eq hl img hfill.container_lt
  case gains =>
    have hgains := Content.gainsChild img .nil hl hfill.container_lt rfl
    rwa [Content.addTo_element, Content.addTo_nil, Content.addTo_nil] at hgains
  case image => exact ⟨rfl, rfl, rfl⟩
  case attrs => exact toList_imageElement dest title alt

/-- **Images.** Whatever events came before, if no image is open, the events of an image put one
element into the container that is open, and change nothing else. What is inside is its text,
whatever it is otherwise, and no hook is called. The hook that was called before may have done to
the tree all that its operations do. -/
theorem foldlM_imageEvents :
    (∀ {σ : Type} {hook : TableHook σ}, hook.Careful →
      ∀ deletion gathered (before : List Event) (b : Builder σ),
        before.foldlM (push hook) (start deletion gathered) = .ok b → b.image = none →
        ∀ dest title inside, ImagesMatch inside →
          ∃ b₀ b' img, b.GainsImage b₀ b' dest title (altText inside) img ∧
            ∀ hook' : TableHook σ, (imageEvents dest title inside).foldlM (push hook') b = .ok b') ∧
      (∀ {σ : Type} {hook : TableHook σ}, (∀ parent t gathered, ∃ steps : List TreeStep,
        (hook parent (t, gathered)).1 = steps.foldl Tree.step t) → hook.Careful) ∧
      TableHook.Careful TableHook.none ∧ ∀ pipeline probe,
        TableHook.Careful (Checker.blockStage pipeline probe) := by
  refine ⟨?_, TableHook.careful_of_steps, ?_, ?_⟩
  · intro σ hook hhook deletion gathered before b hbefore himage dest title inside hmatch
    obtain ⟨fs, h⟩ := (stands_start deletion gathered).run hhook hbefore
    refine ⟨_, _, _, h.gainsImage dest title (altText inside), fun hook' => ?_⟩
    exact h.foldlM_image himage dest title hmatch
  · exact TableHook.careful_of_sameLinks fun _ t _ => .refl t
  · intro pipeline probe
    exact TableHook.careful_of_sameLinks fun parent t ds =>
      ((Checker.keepsTexts_blockStage pipeline probe).sameShape parent t ds).links

/-- An image with another one, a table that is not closed, an end without a start and deletion
markup inside, after a table that a hook has put a note behind. -/
theorem foldlM_imageEvents_note :
    let hook : TableHook Unit := fun parent (t, _) => (t.step (.append parent { tag := .p }), ())
    let before : List Event := [.start .blockQuote, .start (.table []), .stop .table, .text "see "]
    let inside : List Event :=
      [.text "a --b--", .start (.image "in.png" ""), .stop .blockQuote, .code "c", .stop .image,
        .start (.table [.left]), .hardBreak, .text "d"]
    hook.Careful ∧ ImagesMatch inside ∧ altText inside = "a --b--c d" ∧
      ∃ b, before.foldlM (push hook) (start true ()) = .ok b ∧ b.image = none ∧
        ∃ b₀ b' img, b.GainsImage b₀ b' "out.png" "" "a --b--c d" img ∧
          ∀ hook', (imageEvents "out.png" "" inside).foldlM (push hook') b = .ok b' := by
  intro hook before inside
  obtain ⟨himages, hsteps, -⟩ := foldlM_imageEvents
  have hhook : hook.Careful := hsteps fun parent t _ => ⟨[.append parent { tag := .p }], rfl⟩
  have hmatch : ImagesMatch inside := by
    refine ⟨fun k => ?_, by decide⟩
    have hall : ∀ k < 9,
        (inside.take k).countP Event.closesImage ≤ (inside.take k).countP Event.opensImage := by
      decide
    -- A longer beginning is the whole list.
    by_cases hk : k < 9
    · exact hall k hk
    · rw [List.take_of_length_le
        (show inside.length ≤ k from Nat.le_trans (by decide) (Nat.not_lt.mp hk))]
      decide
  have halt : altText inside = "a --b--c d" := by decide
  obtain ⟨b, hbefore, himage⟩ : ∃ b,
      before.foldlM (push hook) (start true ()) = .ok b ∧ b.image = none := by
    have hrun : (before.foldlM (push hook) (start true ())).toOption.map (·.image) = some none := by
      decide +kernel
    cases hfold : before.foldlM (push hook) (start true ()) with
    | ok b =>
      rw [hfold] at hrun
      exact ⟨b, rfl, Option.some.inj hrun⟩
    | error err =>
      rw [hfold] at hrun
      cases hrun
  have himage' := himages hhook true () before b hbefore himage "out.png" "" inside hmatch
  rw [halt] at himage'
  exact ⟨hhook, hmatch, halt, b, hbefore, himage, himage'⟩

end Builder

end AccessibleMarkdown.Markdown
