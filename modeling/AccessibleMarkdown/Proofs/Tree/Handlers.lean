import AccessibleMarkdown.Tree.Walk

/-!
# Handlers by kind

Nine kinds of elements have a slot for a handler of their own, each its own one, and no other kind
has any. A visitor asks the handler in the slot of a node, or the generic one.
-/

namespace AccessibleMarkdown

/-! ## 1. Slots -/

namespace HandlerSlot

variable {tag : Tag} {slot : HandlerSlot}

theorem ofTag?_tag (slot : HandlerSlot) : ofTag? slot.tag = some slot := by
  cases slot <;> rfl

theorem ofTag?_eq_some : ofTag? tag = some slot ↔ tag = slot.tag := by
  constructor
  · intro h
    unfold ofTag? at h
    split at h <;> cases h <;> rfl
  · rintro rfl
    exact ofTag?_tag slot

theorem ofTag?_eq_none : ofTag? tag = none ↔ ∀ slot : HandlerSlot, tag ≠ slot.tag := by
  rw [Option.eq_none_iff_forall_ne_some]
  exact forall_congr' fun slot => not_congr ofTag?_eq_some

end HandlerSlot

/-! ## 2. Dispatch -/

namespace Visitor

variable {σ : Type} {handlers : HandlerSlot → Option (Visitor σ)} {handler : Visitor σ}
  {id : NodeId} {e : Element} {cx : Context} {s : Tree × σ}

theorem ofSlots_of_tag (slot : HandlerSlot) (hslot : e.tag = slot.tag)
    (hhandler : handlers slot = some handler) :
    ofSlots handlers id e cx s = handler id e cx s := by
  rw [ofSlots, HandlerSlot.ofTag?_eq_some.mpr hslot, Option.bind_some, hhandler]

theorem ofSlots_of_none (hslot : ∀ slot, e.tag = slot.tag → handlers slot = none) :
    ofSlots handlers id e cx s = (s, .children) := by
  have hnone : (HandlerSlot.ofTag? e.tag).bind handlers = none := by
    cases htag : HandlerSlot.ofTag? e.tag with
    | none => rfl
    | some slot => exact hslot slot (HandlerSlot.ofTag?_eq_some.mp htag)
  rw [ofSlots, hnone]
  rfl

theorem only_of_tag (slot : HandlerSlot) (htag : e.tag = slot.tag) :
    only slot handler id e cx s = handler id e cx s :=
  ofSlots_of_tag slot htag (if_pos rfl)

theorem only_of_ne (slot : HandlerSlot) (htag : e.tag ≠ slot.tag) :
    only slot handler id e cx s = (s, .children) := by
  apply ofSlots_of_none
  intro other hother
  apply if_neg
  rintro rfl
  exact htag hother

/-- What every handler keeps at the nodes that it is for, the visitor keeps. -/
theorem ofSlots_keeps {P : Tree × σ → Prop} (hs : P s)
    (hhandler : ∀ slot handler, e.tag = HandlerSlot.tag slot → handlers slot = some handler →
      P (handler id e cx s).1) : P (ofSlots handlers id e cx s).1 := by
  cases hasked : (HandlerSlot.ofTag? e.tag).bind handlers with
  | none => rwa [ofSlots, hasked]
  | some handler =>
    obtain ⟨slot, hslot, hhandlers⟩ := Option.bind_eq_some_iff.mp hasked
    rw [ofSlots, hasked]
    exact hhandler slot handler (HandlerSlot.ofTag?_eq_some.mp hslot) hhandlers

theorem only_keeps {P : Tree × σ → Prop} {slot : HandlerSlot} (hs : P s)
    (hhandler : e.tag = slot.tag → P (handler id e cx s).1) :
    P (only slot handler id e cx s).1 := by
  by_cases htag : e.tag = slot.tag
  · rw [only_of_tag slot htag]
    exact hhandler htag
  · rwa [only_of_ne slot htag]

end Visitor

end AccessibleMarkdown
