import AccessibleMarkdown.Element.Basic
import AccessibleMarkdown.Proofs.Element.AttributeTable

/-!
# Reading attributes after they were set

An attribute collection is read as a list in which the first entry of a name counts. Setting a name
puts its value in the place of that entry, or at the end.
-/

namespace AccessibleMarkdown

namespace Attributes

variable {a : Attributes} {name value : String}

theorem find?_of_forall_ne {l : List Attribute} (h : ∀ e ∈ l, e.name ≠ name) :
    l.find? (·.name == name) = none :=
  List.find?_eq_none.mpr fun e he => by rw [beq_iff_eq]; exact h e he

theorem get?_eq (a : Attributes) (name : String) :
    a.get? name = (a.entries.toList.find? (·.name == name)).map (·.value) := by
  obtain ⟨before, old, after, hfinds⟩ | hmisses := a.indexed.finds_or_misses name
  · rw [get?, hfinds.get?_eq, entries, hfinds.entries, List.find?_append,
      find?_of_forall_ne hfinds.before_ne, Option.none_or, List.find?_cons_of_pos (by simp)]
    rfl
  · rw [get?, hmisses.get?_eq, entries, find?_of_forall_ne hmisses.entries_ne]
    rfl

/-- What setting a name does: its first entry gets the value, or there is a new last entry. -/
theorem set_cases (a : Attributes) (name value : String) :
    (∃ before old after, a.entries.toList = before ++ ⟨name, old⟩ :: after ∧
        (∀ e ∈ before, e.name ≠ name) ∧
        (a.set name value).entries.toList = before ++ ⟨name, value⟩ :: after) ∨
      (∀ e ∈ a.entries.toList, e.name ≠ name) ∧
        (a.set name value).entries.toList = a.entries.toList ++ [⟨name, value⟩] := by
  obtain ⟨before, old, after, hfinds⟩ | hmisses := a.indexed.finds_or_misses name
  · obtain ⟨u, hu, hentries⟩ := hfinds.set?_eq value
    have htable : (a.set name value).table = u := table_step (s := .set name value) hu
    refine .inl ⟨before, old, after, hfinds.entries, hfinds.before_ne, ?_⟩
    rw [entries, htable, hentries]
  · obtain ⟨u, hu, hentries⟩ := hmisses.set?_eq value
    have htable : (a.set name value).table = u := table_step (s := .set name value) hu
    refine .inr ⟨hmisses.entries_ne, ?_⟩
    rw [entries, htable, hentries]
    rfl

theorem get?_set_self (a : Attributes) (name value : String) :
    (a.set name value).get? name = some value := by
  rw [get?_eq]
  obtain ⟨before, old, after, -, hbefore, hset⟩ | ⟨hnone, hset⟩ := set_cases a name value
  · rw [hset, List.find?_append, find?_of_forall_ne hbefore, Option.none_or,
      List.find?_cons_of_pos (by simp)]
    rfl
  · rw [hset, List.find?_append, find?_of_forall_ne hnone, Option.none_or,
      List.find?_cons_of_pos (by simp)]
    rfl

theorem get?_set_of_ne {other : String} (hne : other ≠ name) (a : Attributes) (value : String) :
    (a.set name value).get? other = a.get? other := by
  have hskip : ∀ v (l : List Attribute),
      (⟨name, v⟩ :: l).find? (·.name == other) = l.find? (·.name == other) :=
    fun v l => List.find?_cons_of_neg (by rw [beq_iff_eq]; exact hne.symm)
  rw [get?_eq, get?_eq]
  obtain ⟨before, old, after, hold, -, hset⟩ | ⟨-, hset⟩ := set_cases a name value
  · rw [hset, hold, List.find?_append, List.find?_append, hskip, hskip]
  · rw [hset, List.find?_append, hskip, List.find?_nil, Option.or_none]

/-- Setting a name to the value that it has changes nothing, the order included. -/
theorem set_of_get? (h : a.get? name = some value) : a.set name value = a := by
  have hext : ∀ b : Attributes, b.entries.toList = a.entries.toList → b = a := fun b hb =>
    ext_entries (Array.toList_inj.mp hb)
  rw [get?_eq] at h
  obtain ⟨before, old, after, hold, hbefore, hset⟩ | ⟨hnone, -⟩ := set_cases a name value
  · rw [hold, List.find?_append, find?_of_forall_ne hbefore, Option.none_or,
      List.find?_cons_of_pos (by simp)] at h
    obtain rfl : old = value := Option.some.inj h
    exact hext _ (hset.trans hold.symm)
  · rw [find?_of_forall_ne hnone] at h
    cases h

/-- The attributes of other names, in their order. -/
def others (a : Attributes) (names : List String) : List Attribute :=
  a.entries.toList.filter (·.name ∉ names)

/-- Setting a name neither changes nor moves the others. -/
theorem others_set {names : List String} (h : name ∈ names) (a : Attributes) (value : String) :
    (a.set name value).others names = a.others names := by
  have hskip : ∀ v (l : List Attribute),
      (⟨name, v⟩ :: l).filter (·.name ∉ names) = l.filter (·.name ∉ names) :=
    fun v l => List.filter_cons_of_neg (by simpa using h)
  rw [others, others]
  obtain ⟨before, old, after, hold, -, hset⟩ | ⟨-, hset⟩ := set_cases a name value
  · rw [hset, hold, List.filter_append, List.filter_append, hskip, hskip]
  · rw [hset, List.filter_append, hskip, List.filter_nil, List.append_nil]

/-- What is not among the pairs is not set. -/
theorem get?_ofList_of_notMem {pairs : List (String × String)} (h : name ∉ pairs.map Prod.fst) :
    (ofList pairs).get? name = none := by
  have hfold : ∀ a : Attributes, (pairs.foldl (fun a pair => a.set pair.1 pair.2) a).get? name =
      a.get? name := by
    induction pairs with
    | nil => exact fun _ => rfl
    | cons pair pairs ih =>
      simp only [List.map_cons, List.mem_cons, not_or] at h
      intro a
      rw [List.foldl_cons, ih h.2, get?_set_of_ne h.1]
  calc (ofList pairs).get? name
    _ = ({} : Attributes).get? name := hfold {}
    _ = none := get?_eq _ _

end Attributes

/-! The same for elements. -/

namespace Element

variable {e : Element} {name value : String}

theorem get?_set_self (e : Element) (name value : String) :
    (e.set name value).get? name = some value :=
  e.attrs.get?_set_self name value

theorem get?_set_of_ne {other : String} (hne : other ≠ name) (e : Element) (value : String) :
    (e.set name value).get? other = e.get? other :=
  Attributes.get?_set_of_ne hne e.attrs value

theorem set_of_get? (h : e.get? name = some value) : e.set name value = e := by
  rw [set, Attributes.set_of_get? h]

end Element

end AccessibleMarkdown
