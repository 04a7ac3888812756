import Std.Data.ExtTreeMap

/-!
Attribute collections: names with values, each name at most once, in the order in which the names
were first set. An index leads from a name to its place.
-/

namespace AccessibleMarkdown

structure Attribute where
  name : String
  value : String
  deriving DecidableEq, Repr

def Attribute.pair (e : Attribute) : String × String := (e.name, e.value)

/-- Attributes in their order, and an index of their names. -/
structure AttributeTable where
  entries : Array Attribute := #[]
  index : Std.ExtTreeMap String Nat := {}

namespace AttributeTable

def size (t : AttributeTable) : Nat := t.entries.size

def isEmpty (t : AttributeTable) : Bool := t.entries.isEmpty

def toList (t : AttributeTable) : List (String × String) := t.entries.toList.map Attribute.pair

def get? (t : AttributeTable) (name : String) : Option String :=
  t.index[name]?.bind fun i => t.entries[i]?.map Attribute.value

def contains (t : AttributeTable) (name : String) : Bool := t.index.contains name

/-- Gives `name` the value, in its old place if it has one and at the end otherwise, and answers
with the value that it had. There is no answer where the index leads out of range. -/
def set? (t : AttributeTable) (name value : String) : Option (AttributeTable × Option String) :=
  match t.index[name]? with
  | some i =>
    if h : i < t.entries.size then
      some ({ t with entries := t.entries.set i ⟨name, value⟩ }, some t.entries[i].value)
    else none
  | none =>
    some
      ({ entries := t.entries.push ⟨name, value⟩, index := t.index.insert name t.entries.size },
        none)

/-- Takes `name` out and answers with its value. The others keep their order, and those behind it
move up by one place. There is no answer where the index leads out of range. -/
def remove? (t : AttributeTable) (name : String) : Option (AttributeTable × Option String) :=
  match t.index[name]? with
  | some i =>
    if h : i < t.entries.size then
      let index := (t.index.erase name).map fun _ j => if i < j then j - 1 else j
      some ({ entries := t.entries.eraseIdx i, index }, some t.entries[i].value)
    else none
  | none => some (t, none)

/-! The index of a collection is right, and stays so. -/

def nameAt? (t : AttributeTable) (i : Nat) : Option String := t.entries[i]?.map Attribute.name

/-- The index knows the places of all names, and nothing else. -/
def Indexed (t : AttributeTable) : Prop :=
  ∀ name i, t.index[name]? = some i ↔ t.nameAt? i = some name

theorem indexed_empty : Indexed {} := fun name i => by simp [nameAt?]

/-- The operation succeeds, and leaves behind a table whose index is right. -/
structure Succeeds (result : Option (AttributeTable × Option String)) : Prop where
  isSome : result.isSome
  indexed : ∀ next ∈ result, next.1.Indexed

theorem succeeds_some {next : AttributeTable × Option String} (h : next.1.Indexed) :
    Succeeds (some next) :=
  ⟨rfl, fun _ hnext => Option.some.inj hnext ▸ h⟩

namespace Indexed

variable {t : AttributeTable} {name value : String} {i : Nat}

theorem lt_size (h : t.Indexed) (hi : t.index[name]? = some i) : i < t.entries.size := by
  obtain ⟨e, he, -⟩ := Option.map_eq_some_iff.mp ((h name i).mp hi)
  exact (Array.getElem?_eq_some_iff.mp he).1

/-- An entry that is replaced keeps its name, and a new one has the last place. -/
theorem succeeds_set? (h : t.Indexed) (name value : String) : Succeeds (t.set? name value) := by
  unfold set?
  split
  · rename_i i hi
    rw [dif_pos (h.lt_size hi)]
    apply succeeds_some
    intro k j
    have hname := (h name i).mp hi
    rw [h k j, nameAt?, nameAt?, Array.getElem?_set]
    split
    · rename_i hij
      rw [← hij, ← nameAt?, hname, Option.map_some]
    · rfl
  · rename_i hnone
    apply succeeds_some
    intro k j
    have hold := h k j
    have hfresh := h name j
    simp only [nameAt?, Std.ExtTreeMap.getElem?_insert, Array.getElem?_push,
      Std.compare_eq_iff_eq] at *
    grind

/-- What stood behind the entry that is taken out has moved up, in the index as well. -/
theorem succeeds_remove? (h : t.Indexed) (name : String) : Succeeds (t.remove? name) := by
  unfold remove?
  split
  · rename_i i hi
    rw [dif_pos (h.lt_size hi)]
    apply succeeds_some
    intro k j
    have hname := (h name i).mp hi
    have hbefore := h k j
    have hbehind := h k (j + 1)
    simp only [nameAt?, Std.ExtTreeMap.getElem?_map, Std.ExtTreeMap.getElem?_erase,
      Array.getElem?_eraseIdx, Std.compare_eq_iff_eq] at *
    grind
  · exact succeeds_some h

end Indexed

end AttributeTable

/-- A table whose index is right. -/
structure Attributes where
  table : AttributeTable := {}
  indexed : table.Indexed := by exact AttributeTable.indexed_empty

namespace Attributes

def empty : Attributes := {}

def entries (a : Attributes) : Array Attribute := a.table.entries

/-- The entries determine the index. -/
theorem ext_entries {a b : Attributes} (h : a.entries = b.entries) : a = b := by
  obtain ⟨⟨entries, index⟩, ha⟩ := a
  obtain ⟨⟨_, index'⟩, hb⟩ := b
  obtain rfl : entries = _ := h
  have hindex : index = index' := Std.ExtTreeMap.ext_getElem? fun name =>
    Option.ext fun i => (ha name i).trans (hb name i).symm
  subst hindex
  rfl

instance : DecidableEq Attributes := fun a b =>
  decidable_of_iff (a.entries = b.entries) ⟨ext_entries, congrArg entries⟩

instance : Repr Attributes := ⟨fun a => reprPrec a.entries⟩

instance : Inhabited Attributes := ⟨empty⟩

def size (a : Attributes) : Nat := a.table.size

def isEmpty (a : Attributes) : Bool := a.table.isEmpty

def toList (a : Attributes) : List (String × String) := a.table.toList

def get? (a : Attributes) (name : String) : Option String := a.table.get? name

def contains (a : Attributes) (name : String) : Bool := a.table.contains name

/-- The collection after an operation, with the answer of the operation. -/
def after (result : Option (AttributeTable × Option String)) (h : AttributeTable.Succeeds result) :
    Attributes × Option String :=
  (⟨(result.get h.isSome).1, h.indexed _ (Option.get_mem h.isSome)⟩, (result.get h.isSome).2)

/-- Gives `name` the value, in its old place if it has one and at the end otherwise, and answers
with the value that it had. -/
def replace (a : Attributes) (name value : String) : Attributes × Option String :=
  after (a.table.set? name value) (a.indexed.succeeds_set? name value)

/-- Takes `name` out and answers with its value; the others keep their order. -/
def remove (a : Attributes) (name : String) : Attributes × Option String :=
  after (a.table.remove? name) (a.indexed.succeeds_remove? name)

/-! Where the answer does not matter, the collection alone is left. -/

def set (a : Attributes) (name value : String) : Attributes := (a.replace name value).1

def erase (a : Attributes) (name : String) : Attributes := (a.remove name).1

def ofList (pairs : List (String × String)) : Attributes :=
  pairs.foldl (fun a (name, value) => a.set name value) empty

/-- Do both hold the same values, in whatever order? -/
def agrees (a b : Attributes) : Bool :=
  a.size == b.size && a.entries.all fun e => b.get? e.name == some e.value

end Attributes

end AccessibleMarkdown
