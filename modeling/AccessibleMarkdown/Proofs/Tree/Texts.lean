import AccessibleMarkdown.Proofs.Tree.Grove
import AccessibleMarkdown.Proofs.Tree.Painting

/-!
# Reading a tree

A tree is read in document order: the text of an element, then what is inside it, then its tail.
Attributes are not read, so trees that differ in nothing else are read alike.
-/

namespace AccessibleMarkdown

/-! ## 1. Readings -/

namespace Element

/-- The element without its attributes. -/
def bare (e : Element) : Element := { e with attrs := {} }

/-- The text of an element. With `marks`, deleted text stands between hyphens again. -/
def wording (marks : Bool) (e : Element) : String :=
  if marks ∧ e.tag = .del then "--" ++ e.text.getD "" ++ "--" else e.text.getD ""

/-- The element adds nothing to what is inside it. -/
structure Plain (e : Element) : Prop where
  tag : e.tag ≠ .del
  text : e.text = none
  tail : e.tail = none

theorem plain (tag : Tag) {attrs : Attributes} (h : tag ≠ .del) :
    Plain { tag, attrs } := ⟨h, rfl, rfl⟩

end Element

namespace Grove

def reading (marks : Bool) : Grove → String
  | nil => ""
  | node e inner rest =>
    e.wording marks ++ inner.reading marks ++ e.tail.getD "" ++ rest.reading marks

def bare : Grove → Grove
  | nil => nil
  | node e inner rest => node e.bare inner.bare rest.bare

theorem reading_bare (marks : Bool) (g : Grove) : g.bare.reading marks = g.reading marks := by
  induction g with
  | nil => rfl
  | node e inner rest ihinner ihrest =>
    rw [bare, reading, ihinner, ihrest]
    rfl

end Grove

/-! ## 2. Bare trees -/

namespace Tree

variable {t u : Tree} {ids : List NodeId} {g : Grove}

def bare (t : Tree) : Tree := t.repaint fun _ e => e.bare

theorem element?_bare (t : Tree) (id : NodeId) :
    t.bare.element? id = (t.element? id).map Element.bare :=
  t.element?_repaint _ id

theorem sameShape_bare (t : Tree) : t.SameShape t.bare := t.sameShape_repaint fun _ _ => rfl

theorem Holds.bare (h : t.Holds ids g) : t.bare.Holds ids g.bare := by
  induction g generalizing ids with
  | nil =>
    cases ids with
    | nil => trivial
    | cons id ids => exact h
  | node e inner rest ihinner ihrest =>
    cases ids with
    | nil => exact h
    | cons id ids =>
      obtain ⟨he, hinner, hrest⟩ := h
      refine ⟨by rw [element?_bare, he, Option.map_some], ?_, ihrest hrest⟩
      rw [t.sameShape_bare.links.children]
      exact ihinner hinner

/-- A tree holds what it holds without its attributes, with attributes of its own. -/
theorem exists_holds_of_bare (h : t.bare.Holds ids g) : ∃ g', t.Holds ids g' ∧ g'.bare = g := by
  induction g generalizing ids with
  | nil =>
    cases ids with
    | nil => exact ⟨.nil, trivial, rfl⟩
    | cons id ids => exact h.elim
  | node e inner rest ihinner ihrest =>
    cases ids with
    | nil => exact h.elim
    | cons id ids =>
      obtain ⟨he, hinner, hrest⟩ := h
      rw [element?_bare] at he
      obtain ⟨e', he', rfl⟩ := Option.map_eq_some_iff.mp he
      rw [t.sameShape_bare.links.children] at hinner
      obtain ⟨inner', hinner', rfl⟩ := ihinner hinner
      obtain ⟨rest', hrest', rfl⟩ := ihrest hrest
      exact ⟨.node e' inner' rest', ⟨he', hinner', hrest'⟩, rfl⟩

theorem bare_grow (t : Tree) (p : NodeId) (e : Element) :
    (t.grow p e).bare = t.bare.grow p e.bare :=
  grow_repaint (f := fun _ e => e.bare) (fun _ _ => rfl) t p e

theorem bare_modify (t : Tree) (id : NodeId) {f : Element → Element}
    (hf : ∀ e, (f e).bare = f e.bare) : (t.modify id f).bare = t.bare.modify id f :=
  modify_repaint hf t

/-- Where only attributes are written, the bare tree stays as it is. -/
theorem bare_modify_attrs (t : Tree) (id : NodeId) {f : Element → Element}
    (hf : ∀ e, (f e).bare = e.bare) : (t.modify id f).bare = t.bare := by
  rw [bare, modify_eq_repaint, repaint_repaint]
  apply repaint_congr
  intro k e _
  by_cases hk : k = id
  · rw [if_pos hk, hf]
  · rw [if_neg hk]

end Tree

/-- A walk that writes attributes only leaves the bare tree as it is. -/
theorem Visitor.Paints.bare_walkFrom {δ : Type} {v : Visitor (Array δ)} {below : Tag → Descent}
    {brush : List NodeId → Context → Element → Element}
    {notes : NodeId → Context → Element → List δ} (hv : v.Paints below brush notes)
    (hbrush : ∀ ids cx e, (brush ids cx e).bare = e.bare) (t : Tree) (scope : NodeId)
    (ds : Array δ) : (t.walkFrom v scope ds).1.bare = t.bare := by
  have hact : ∀ (s : Tree × Array δ) stop, (v.act s stop).1.bare = s.1.bare := by
    rintro ⟨t, ds⟩ ⟨id, cx⟩
    unfold Visitor.act
    split
    · rfl
    · rename_i e he
      rw [hv.step he]
      exact t.bare_modify_attrs id (hbrush _ _)
  rw [hv.steered.walkFrom_eq]
  generalize (t.stops below scope) = stops
  induction stops generalizing t ds with
  | nil => rfl
  | cons stop rest ih => exact (ih _ _).trans (hact (t, ds) stop)

end AccessibleMarkdown
