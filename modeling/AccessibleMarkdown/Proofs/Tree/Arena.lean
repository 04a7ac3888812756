import AccessibleMarkdown.Tree.Basic

/-!
# Reading the arena

What each operation on a tree does to the element and to the five links of a node.
-/

namespace AccessibleMarkdown.Tree

variable {t : Tree}

/-! ## 1. Changing one node -/

theorem get?_modifyNode (id : NodeId) (f : Node → Node) (k : NodeId) :
    (t.modifyNode id f).get? k = if k = id then (t.get? k).map f else t.get? k := by
  show (t.nodes.modify id f)[k]? = _
  rw [Array.getElem?_modify]
  by_cases h : id = k
  · rw [if_pos h, if_pos h.symm]; rfl
  · rw [if_neg h, if_neg (Ne.symm h)]; rfl

@[simp] theorem size_modifyNode (id : NodeId) (f : Node → Node) :
    (t.modifyNode id f).size = t.size :=
  Array.size_modify

theorem get?_eq_none_iff {id : NodeId} : t.get? id = none ↔ t.size ≤ id :=
  Array.getElem?_eq_none_iff

theorem exists_get? {id : NodeId} (h : id < t.size) : ∃ node, t.get? id = some node :=
  ⟨t.nodes[id], Array.getElem?_eq_getElem h⟩

theorem lt_size_of_get? {id : NodeId} {node : Node} (h : t.get? id = some node) : id < t.size := by
  by_cases hlt : id < t.size
  · exact hlt
  · rw [get?_eq_none_iff.mpr (Nat.le_of_not_lt hlt)] at h; contradiction

theorem ext_get? {u : Tree} (h : ∀ id, t.get? id = u.get? id) : t = u := by
  cases t
  cases u
  exact congrArg Tree.mk (Array.ext_getElem? h)

/-- A change of an element commutes with a change of links. -/
theorem modify_modifyNode {i : NodeId} {g : Node → Node} {f : Element → Element}
    (hg : ∀ n, g { n with element := f n.element } = { g n with element := f (g n).element })
    (j : NodeId) : (t.modifyNode i g).modify j f = (t.modify j f).modifyNode i g := by
  apply ext_get?
  intro k
  simp only [modify, get?_modifyNode]
  by_cases hi : k = i
  · by_cases hj : k = j
    · rw [if_pos hi, if_pos hj, if_pos hj, if_pos hi, Option.map_map, Option.map_map]
      congr 1
      exact funext fun n => (hg n).symm
    · rw [if_pos hi, if_neg hj, if_neg hj, if_pos hi]
  · rw [if_neg hi, if_neg hi]

theorem element?_modify (id : NodeId) (f : Element → Element) (k : NodeId) :
    (t.modify id f).element? k = if k = id then (t.element? k).map f else t.element? k := by
  simp only [modify, element?, get?_modifyNode]
  by_cases h : k = id
  · rw [if_pos h, if_pos h, Option.map_map, Option.map_map]; rfl
  · rw [if_neg h, if_neg h]

theorem modify_modify (id : NodeId) (f g : Element → Element) :
    (t.modify id f).modify id g = t.modify id fun e => g (f e) := by
  apply ext_get?
  intro k
  simp only [modify, get?_modifyNode]
  by_cases h : k = id
  · rw [if_pos h, if_pos h, if_pos h, Option.map_map]; rfl
  · rw [if_neg h, if_neg h, if_neg h]

/-! Whatever a link of a node is read from exists. -/

theorem lt_size_of_parent? {id p : NodeId} (h : t.parent? id = some p) : id < t.size := by
  obtain ⟨node, hn, -⟩ := Option.bind_eq_some_iff.mp h
  exact lt_size_of_get? hn

theorem exists_element? {id : NodeId} (h : id < t.size) : ∃ e, t.element? id = some e := by
  obtain ⟨node, hn⟩ := exists_get? h
  exact ⟨node.element, by rw [element?, hn]; rfl⟩

theorem lt_size_of_element? {id : NodeId} {e : Element} (h : t.element? id = some e) :
    id < t.size := by
  obtain ⟨node, hn, -⟩ := Option.map_eq_some_iff.mp h
  exact lt_size_of_get? hn

theorem element?_eq_none_iff {id : NodeId} : t.element? id = none ↔ t.size ≤ id := by
  rw [element?, Option.map_eq_none_iff, get?_eq_none_iff]

/-! ## 2. A new node -/

@[simp] theorem size_create (e : Element) : (t.create e).1.size = t.size + 1 := Array.size_push _

theorem size_lt_create (t : Tree) (e : Element) : t.size < (t.create e).1.size := by
  rw [size_create]
  exact Nat.lt_succ_self _

theorem lt_size_create (e : Element) {id : NodeId} (h : id < t.size) : id < (t.create e).1.size :=
  Nat.lt_trans h (t.size_lt_create e)

theorem get?_create (e : Element) (id : NodeId) :
    (t.create e).1.get? id = if id = t.size then some { element := e } else t.get? id := by
  show (t.nodes.push { element := e })[id]? = _
  rw [Array.getElem?_push]; rfl

theorem get?_size : t.get? t.size = none := get?_eq_none_iff.mpr (Nat.le_refl _)

section
variable {α : Type} {link : Node → Option α}

/-- A new node has no links, and a place outside the arena has none either. -/
theorem bind_get?_create (e : Element) (hlink : link { element := e } = none) (id : NodeId) :
    ((t.create e).1.get? id).bind link = (t.get? id).bind link := by
  rw [get?_create]
  by_cases h : id = t.size
  · rw [if_pos h, h, get?_size]; exact hlink
  · rw [if_neg h]

end

@[simp] theorem parent?_create (e : Element) (id : NodeId) :
    (t.create e).1.parent? id = t.parent? id :=
  bind_get?_create e rfl id

@[simp] theorem firstChild?_create (e : Element) (id : NodeId) :
    (t.create e).1.firstChild? id = t.firstChild? id :=
  bind_get?_create e rfl id

@[simp] theorem lastChild?_create (e : Element) (id : NodeId) :
    (t.create e).1.lastChild? id = t.lastChild? id :=
  bind_get?_create e rfl id

@[simp] theorem prevSibling?_create (e : Element) (id : NodeId) :
    (t.create e).1.prevSibling? id = t.prevSibling? id :=
  bind_get?_create e rfl id

@[simp] theorem nextSibling?_create (e : Element) (id : NodeId) :
    (t.create e).1.nextSibling? id = t.nextSibling? id :=
  bind_get?_create e rfl id

theorem element?_create (e : Element) (id : NodeId) :
    (t.create e).1.element? id = if id = t.size then some e else t.element? id := by
  rw [element?, get?_create]
  by_cases h : id = t.size
  · rw [if_pos h, if_pos h]; rfl
  · rw [if_neg h, if_neg h]; rfl

/-! ## 3. A new link -/

/-- A change that keeps what `link` reads. -/
theorem bind_get?_modifyNode {α : Type} {link : Node → Option α} {id : NodeId} {f : Node → Node}
    (hf : ∀ n, link (f n) = link n) (k : NodeId) :
    ((t.modifyNode id f).get? k).bind link = (t.get? k).bind link := by
  rw [get?_modifyNode]
  by_cases h : k = id
  · rw [if_pos h]
    cases t.get? k with
    | none => rfl
    | some n => exact hf n
  · rw [if_neg h]

/-- A change that sets what `link` reads. -/
theorem bind_get?_modifyNode_set {α : Type} {link : Node → Option α} {id : NodeId} {f : Node → Node}
    {value : Option α} (hid : id < t.size) (hf : ∀ n, link (f n) = value) (k : NodeId) :
    ((t.modifyNode id f).get? k).bind link = if k = id then value else (t.get? k).bind link := by
  rw [get?_modifyNode]
  by_cases h : k = id
  · obtain ⟨n, hn⟩ := exists_get? hid
    rw [if_pos h, if_pos h, h, hn]
    exact hf n
  · rw [if_neg h, if_neg h]

section
variable {p c : NodeId}

@[simp] theorem size_link : (t.link p c).size = t.size := by
  simp only [link]
  cases t.lastChild? p <;> simp

theorem parent?_link (hc : c < t.size) (id : NodeId) :
    (t.link p c).parent? id = if id = c then some p else t.parent? id := by
  simp only [link, parent?]
  cases t.lastChild? p
  all_goals
    rw [bind_get?_modifyNode, bind_get?_modifyNode, bind_get?_modifyNode_set hc]
    all_goals exact fun _ => rfl

theorem prevSibling?_link (hc : c < t.size) (id : NodeId) :
    (t.link p c).prevSibling? id = if id = c then t.lastChild? p else t.prevSibling? id := by
  simp only [link, prevSibling?]
  cases t.lastChild? p
  all_goals
    rw [bind_get?_modifyNode, bind_get?_modifyNode, bind_get?_modifyNode_set hc]
    all_goals exact fun _ => rfl

theorem lastChild?_link (hp : p < t.size) (id : NodeId) :
    (t.link p c).lastChild? id = if id = p then some c else t.lastChild? id := by
  simp only [link]
  cases t.lastChild? p
  all_goals
    simp only [lastChild?]
    rw [bind_get?_modifyNode_set (by simpa using hp), bind_get?_modifyNode, bind_get?_modifyNode]
    all_goals exact fun _ => rfl

/-- The first child changes only where there was none. -/
theorem firstChild?_link (hp : p < t.size) (id : NodeId) :
    (t.link p c).firstChild? id =
      if id = p ∧ t.lastChild? p = none then some c else t.firstChild? id := by
  simp only [link]
  cases t.lastChild? p with
  | none =>
    simp only [and_true, firstChild?]
    rw [bind_get?_modifyNode, bind_get?_modifyNode_set (by simpa using hp), bind_get?_modifyNode]
    all_goals exact fun _ => rfl
  | some last =>
    simp only [reduceCtorEq, and_false, if_false, firstChild?]
    rw [bind_get?_modifyNode, bind_get?_modifyNode, bind_get?_modifyNode]
    all_goals exact fun _ => rfl

theorem nextSibling?_link (hc : c < t.size)
    (hlast : ∀ last, t.lastChild? p = some last → last < t.size) (id : NodeId) :
    (t.link p c).nextSibling? id =
      if t.lastChild? p = some id then some c else if id = c then none else t.nextSibling? id := by
  simp only [link]
  cases hl : t.lastChild? p with
  | none =>
    simp only [reduceCtorEq, if_false, nextSibling?]
    rw [bind_get?_modifyNode, bind_get?_modifyNode, bind_get?_modifyNode_set hc]
    all_goals exact fun _ => rfl
  | some last =>
    simp only [Option.some.injEq, eq_comm (a := last), nextSibling?]
    rw [bind_get?_modifyNode, bind_get?_modifyNode_set (by simpa using hlast last hl),
      bind_get?_modifyNode_set hc]
    all_goals exact fun _ => rfl

end

theorem element?_modifyNode {id : NodeId} {f : Node → Node} (hf : ∀ n, (f n).element = n.element)
    (k : NodeId) : (t.modifyNode id f).element? k = t.element? k := by
  simp only [element?, get?_modifyNode]
  by_cases h : k = id
  · rw [if_pos h, Option.map_map]
    congr 1
    exact funext hf
  · rw [if_neg h]

@[simp] theorem element?_link (p c id : NodeId) : (t.link p c).element? id = t.element? id := by
  simp only [link]
  cases t.lastChild? p
  all_goals
    rw [element?_modifyNode, element?_modifyNode, element?_modifyNode]
    all_goals exact fun _ => rfl

end AccessibleMarkdown.Tree
