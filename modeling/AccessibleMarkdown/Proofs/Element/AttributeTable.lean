import AccessibleMarkdown.Element.Attributes

/-!
# Tables and association lists

Read as a list of pairs, an attribute table behaves as an association list in which a value is
replaced in its place, new pairs come last, and the rest closes up where a pair is taken out. Its
index never leads out of range.
-/

namespace AccessibleMarkdown

namespace AttributeTable

variable {t : AttributeTable} {name value : String} {i : Nat}

/-! ## 1. Where the index leads -/

theorem nameAt?_eq_some (hi : i < t.entries.toList.length) :
    t.nameAt? i = some t.entries.toList[i].name := by
  rw [nameAt?, Array.getElem?_eq_getElem hi]
  rfl

/-- The index leads from the name to its one entry, between `before` and `after`. -/
structure Finds (t : AttributeTable) (name : String) (before : List Attribute) (old : String)
    (after : List Attribute) : Prop where
  index : t.index[name]? = some before.length
  entries : t.entries.toList = before ++ ⟨name, old⟩ :: after
  before_ne : ∀ e ∈ before, e.name ≠ name
  after_ne : ∀ e ∈ after, e.name ≠ name

/-- The name is neither in the index nor among the entries. -/
structure Misses (t : AttributeTable) (name : String) : Prop where
  index : t.index[name]? = none
  entries_ne : ∀ e ∈ t.entries.toList, e.name ≠ name

namespace Indexed

theorem place_unique (h : t.Indexed) (hi : t.index[name]? = some i) {j : Nat}
    (hj : j < t.entries.toList.length) (hname : t.entries.toList[j].name = name) : j = i := by
  have hat := nameAt?_eq_some hj
  rw [hname, ← h name j, hi, Option.some.injEq] at hat
  exact hat.symm

theorem finds_or_misses (h : t.Indexed) (name : String) :
    (∃ before old after, t.Finds name before old after) ∨ t.Misses name := by
  cases hi : t.index[name]? with
  | none =>
    refine .inr ⟨hi, ?_⟩
    rintro e he rfl
    obtain ⟨i, hlt, rfl⟩ := List.mem_iff_getElem.mp he
    rw [(h _ i).mpr (nameAt?_eq_some hlt)] at hi
    cases hi
  | some i =>
    have hlt : i < t.entries.toList.length := h.lt_size hi
    have hname : t.entries.toList[i].name = name := by
      have hat := nameAt?_eq_some hlt
      rw [(h name i).mp hi, Option.some.injEq] at hat
      exact hat.symm
    have hlen := List.length_take_of_le (Nat.le_of_lt hlt)
    refine .inl ⟨t.entries.toList.take i, t.entries.toList[i].value, t.entries.toList.drop (i + 1),
      hlen.symm ▸ hi, ?_, fun e he hsame => ?_, fun e he hsame => ?_⟩
    · rw [← hname, List.getElem_cons_drop, List.take_append_drop]
    -- No entry before it, and none behind it, has the name as well.
    · obtain ⟨j, hj, rfl⟩ := List.mem_take_iff_getElem.mp he
      have := h.place_unique hi _ hsame
      omega
    · obtain ⟨j, hj, rfl⟩ := List.mem_drop_iff_getElem.mp he
      have := h.place_unique hi _ hsame
      omega

end Indexed

namespace Finds

variable {before after : List Attribute} {old : String}

theorem lt_size (h : t.Finds name before old after) : before.length < t.entries.size := by
  rw [← Array.length_toList, h.entries, List.length_append, List.length_cons]
  omega

theorem getElem (h : t.Finds name before old after) (hlt : before.length < t.entries.size) :
    t.entries[before.length] = ⟨name, old⟩ :=
  List.getElem_of_append h.entries rfl

theorem get?_eq (h : t.Finds name before old after) : t.get? name = some old := by
  rw [AttributeTable.get?, h.index, Option.bind_some,
    Array.getElem?_eq_getElem h.lt_size, h.getElem]
  rfl

theorem set?_eq (h : t.Finds name before old after) (value : String) :
    ∃ u, t.set? name value = some (u, some old) ∧
      u.entries.toList = before ++ ⟨name, value⟩ :: after := by
  rw [AttributeTable.set?, h.index]
  simp only
  rw [dif_pos h.lt_size, h.getElem]
  refine ⟨_, rfl, ?_⟩
  rw [Array.toList_set, h.entries, List.set_append_right _ _ (Nat.le_refl _), Nat.sub_self,
    List.set_cons_zero]

theorem remove?_eq (h : t.Finds name before old after) :
    ∃ u, t.remove? name = some (u, some old) ∧ u.entries.toList = before ++ after := by
  rw [AttributeTable.remove?, h.index]
  simp only
  rw [dif_pos h.lt_size, h.getElem]
  refine ⟨_, rfl, ?_⟩
  rw [Array.toList_eraseIdx, h.entries,
    List.eraseIdx_append_of_length_le (Nat.le_refl _), Nat.sub_self, List.eraseIdx_cons_zero]

end Finds

namespace Misses

theorem get?_eq (h : t.Misses name) : t.get? name = none := by
  rw [AttributeTable.get?, h.index, Option.bind_none]

theorem set?_eq (h : t.Misses name) (value : String) :
    ∃ u, t.set? name value = some (u, none) ∧
      u.entries.toList = t.entries.toList ++ [⟨name, value⟩] := by
  rw [AttributeTable.set?, h.index]
  exact ⟨_, rfl, Array.toList_push⟩

theorem remove?_eq (h : t.Misses name) : t.remove? name = some (t, none) := by
  rw [AttributeTable.remove?, h.index]

end Misses

end AttributeTable

/-! ## 2. Association lists -/

abbrev Pairs := List (String × String)

namespace Pairs

variable {name old value : String} {before after : Pairs}

/-- Puts the value in the place of the first pair of the name, or behind all pairs. -/
def set (name value : String) : Pairs → Pairs
  | [] => [(name, value)]
  | (key, old) :: rest =>
    if key = name then (name, value) :: rest else (key, old) :: set name value rest

def remove (name : String) (pairs : Pairs) : Pairs := pairs.eraseP fun pair => pair.1 = name

theorem set_append (h : ∀ pair ∈ before, pair.1 ≠ name) (rest : Pairs) :
    set name value (before ++ rest) = before ++ set name value rest := by
  induction before with
  | nil => rfl
  | cons pair before ih =>
    obtain ⟨hpair, hbefore⟩ := List.forall_mem_cons.mp h
    rw [List.cons_append, set, if_neg hpair, ih hbefore]
    rfl

theorem set_found (h : ∀ pair ∈ before, pair.1 ≠ name) :
    set name value (before ++ (name, old) :: after) = before ++ (name, value) :: after := by
  rw [set_append h, set, if_pos rfl]

theorem set_missed (h : ∀ pair ∈ before, pair.1 ≠ name) :
    set name value before = before ++ [(name, value)] := by
  have hset : set name value (before ++ []) = before ++ set name value [] := set_append h []
  rwa [List.append_nil] at hset

theorem remove_found (h : ∀ pair ∈ before, pair.1 ≠ name) :
    remove name (before ++ (name, old) :: after) = before ++ after := by
  rw [remove, List.eraseP_append_right _ fun pair hpair => by simpa using h pair hpair,
    List.eraseP_cons_of_pos (by simp)]

theorem remove_missed (h : ∀ pair ∈ before, pair.1 ≠ name) : remove name before = before :=
  List.eraseP_of_forall_not fun pair hpair => by simpa using h pair hpair

theorem lookup_missed (h : ∀ pair ∈ before, pair.1 ≠ name) : before.lookup name = none :=
  List.lookup_eq_none_iff.mpr fun pair hpair => by simpa using (h pair hpair).symm

theorem lookup_found (h : ∀ pair ∈ before, pair.1 ≠ name) :
    (before ++ (name, old) :: after).lookup name = some old := by
  rw [List.lookup_append, lookup_missed h, Option.none_or, List.lookup_cons_self]

end Pairs

/-! ## 3. Steps -/

inductive AttributeStep
  | set (name value : String)
  | remove (name : String)
  deriving DecidableEq, Repr

def AttributeStep.name : AttributeStep → String
  | .set name _ | .remove name => name

def AttributeTable.step? (t : AttributeTable) :
    AttributeStep → Option (AttributeTable × Option String)
  | .set name value => t.set? name value
  | .remove name => t.remove? name

/-- Both steps answer with the value that the name had before. -/
def Pairs.step (pairs : Pairs) : AttributeStep → Pairs × Option String
  | .set name value => (pairs.set name value, pairs.lookup name)
  | .remove name => (pairs.remove name, pairs.lookup name)

namespace AttributeTable

variable {t : AttributeTable} {name : String}

theorem forall_pair_ne {entries : List Attribute} (h : ∀ e ∈ entries, e.name ≠ name) :
    ∀ pair ∈ entries.map Attribute.pair, pair.1 ≠ name := by
  intro pair hpair
  obtain ⟨e, he, rfl⟩ := List.mem_map.mp hpair
  exact h e he

theorem Misses.pair_ne (h : t.Misses name) : ∀ pair ∈ t.toList, pair.1 ≠ name :=
  forall_pair_ne h.entries_ne

theorem toList_of_split {before after : List Attribute} {value : String}
    (h : t.entries.toList = before ++ ⟨name, value⟩ :: after) :
    t.toList = before.map Attribute.pair ++ (name, value) :: after.map Attribute.pair := by
  rw [toList, h, List.map_append, List.map_cons]
  rfl

namespace Indexed

theorem get?_eq (h : t.Indexed) (name : String) : t.get? name = t.toList.lookup name := by
  obtain ⟨before, old, after, hfinds⟩ | hmisses := h.finds_or_misses name
  · rw [hfinds.get?_eq, toList_of_split hfinds.entries,
      Pairs.lookup_found (forall_pair_ne hfinds.before_ne)]
  · rw [hmisses.get?_eq, Pairs.lookup_missed hmisses.pair_ne]

theorem contains_eq (h : t.Indexed) (name : String) :
    t.contains name = (t.toList.lookup name).isSome := by
  rw [← h.get?_eq, contains, Std.ExtTreeMap.contains_eq_isSome_getElem?]
  obtain ⟨before, old, after, hfinds⟩ | hmisses := h.finds_or_misses name
  · rw [hfinds.index, hfinds.get?_eq]
    rfl
  · rw [hmisses.index, hmisses.get?_eq]
    rfl

theorem nodup_names (h : t.Indexed) : (t.toList.map Prod.fst).Nodup := by
  rw [toList, List.map_map, List.Nodup, List.pairwise_map, List.pairwise_iff_getElem]
  intro i j hi hj hlt hsame
  have hindex := (h _ j).mpr (nameAt?_eq_some hj)
  have := h.place_unique hindex hi hsame
  omega

/-- A step succeeds, and does to the table what it does to the list. -/
theorem step?_eq (h : t.Indexed) (s : AttributeStep) :
    ∃ u answer, t.step? s = some (u, answer) ∧ u.Indexed ∧
      Pairs.step t.toList s = (u.toList, answer) := by
  -- The entries are split at the name, on which the table and the list then do the same.
  cases s with
  | set name value =>
    have hkeeps := h.succeeds_set? name value
    obtain ⟨before, old, after, hfinds⟩ | hmisses := h.finds_or_misses name
    · obtain ⟨u, hu, hentries⟩ := hfinds.set?_eq value
      have hbefore := forall_pair_ne hfinds.before_ne
      refine ⟨u, some old, hu, hkeeps.indexed _ hu, ?_⟩
      rw [Pairs.step, toList_of_split hfinds.entries, Pairs.set_found hbefore,
        Pairs.lookup_found hbefore, toList_of_split hentries]
    · obtain ⟨u, hu, hentries⟩ := hmisses.set?_eq value
      refine ⟨u, none, hu, hkeeps.indexed _ hu, ?_⟩
      rw [Pairs.step, Pairs.lookup_missed hmisses.pair_ne, Pairs.set_missed hmisses.pair_ne, toList,
        toList, hentries, List.map_append]
      rfl
  | remove name =>
    have hkeeps := h.succeeds_remove? name
    obtain ⟨before, old, after, hfinds⟩ | hmisses := h.finds_or_misses name
    · obtain ⟨u, hu, hentries⟩ := hfinds.remove?_eq
      have hbefore := forall_pair_ne hfinds.before_ne
      refine ⟨u, some old, hu, hkeeps.indexed _ hu, ?_⟩
      rw [Pairs.step, toList_of_split hfinds.entries, Pairs.remove_found hbefore,
        Pairs.lookup_found hbefore, toList, hentries, List.map_append]
    · refine ⟨t, none, hmisses.remove?_eq, h, ?_⟩
      rw [Pairs.step, Pairs.lookup_missed hmisses.pair_ne, Pairs.remove_missed hmisses.pair_ne]

end Indexed

end AttributeTable

/-! ## 4. Runs -/

/-- The table after some steps, and their answers. -/
def AttributeTable.run? (t : AttributeTable) :
    List AttributeStep → Option (AttributeTable × List (Option String))
  | [] => some (t, [])
  | s :: steps => do
    let (u, answer) ← t.step? s
    let (last, answers) ← u.run? steps
    return (last, answer :: answers)

def Pairs.run (pairs : Pairs) : List AttributeStep → Pairs × List (Option String)
  | [] => (pairs, [])
  | s :: steps =>
    let (after, answer) := Pairs.step pairs s
    let (last, answers) := Pairs.run after steps
    (last, answer :: answers)

/-- The table of a list of pairs, set one after the other. -/
def AttributeTable.ofPairs? (pairs : Pairs) : Option AttributeTable :=
  pairs.foldlM (fun t (name, value) => (t.set? name value).map Prod.fst) {}

def Pairs.ofPairs (pairs : Pairs) : Pairs :=
  pairs.foldl (fun list (name, value) => Pairs.set name value list) []

namespace AttributeTable

variable {t : AttributeTable}

/-- The table is sound, and reads as the list. -/
structure Reads (t : AttributeTable) (pairs : Pairs) : Prop where
  /-- The index leads from a name to a place just if the attribute at the place has the name. -/
  index : ∀ name i, t.index[name]? = some i ↔ t.entries[i]?.map Attribute.name = some name
  unique : (pairs.map Prod.fst).Nodup
  toList : t.toList = pairs
  size : t.size = pairs.length
  isEmpty : t.isEmpty = pairs.isEmpty
  get : ∀ name, t.get? name = pairs.lookup name
  contains : ∀ name, t.contains name = (pairs.lookup name).isSome

theorem Indexed.reads (h : t.Indexed) : t.Reads t.toList where
  index := h
  unique := h.nodup_names
  toList := rfl
  size := by rw [toList, List.length_map, Array.length_toList, size]
  isEmpty := by rw [toList, List.isEmpty_map, Array.isEmpty_toList, isEmpty]
  get := h.get?_eq
  contains := h.contains_eq

end AttributeTable

namespace Attributes

/-! ## 5. Collections -/

def step (a : Attributes) : AttributeStep → Attributes × Option String
  | .set name value => a.replace name value
  | .remove name => a.remove name

/-- The collection after some steps, and their answers. -/
def run (a : Attributes) : List AttributeStep → Attributes × List (Option String)
  | [] => (a, [])
  | s :: steps =>
    let (b, answer) := a.step s
    let (last, answers) := b.run steps
    (last, answer :: answers)

theorem run_cons (a : Attributes) (s : AttributeStep) (steps : List AttributeStep) :
    a.run (s :: steps) = (((a.step s).1.run steps).1, (a.step s).2 :: ((a.step s).1.run steps).2) :=
  rfl

/-- What an operation on the table succeeds with is what the collection has after it. -/
theorem eq_some_after (result : Option (AttributeTable × Option String))
    (h : AttributeTable.Succeeds result) :
    result = some ((after result h).1.table, (after result h).2) :=
  (Option.some_get h.isSome).symm

theorem step?_table (a : Attributes) (s : AttributeStep) :
    a.table.step? s = some ((a.step s).1.table, (a.step s).2) := by
  cases s with
  | set name value => exact eq_some_after _ (a.indexed.succeeds_set? name value)
  | remove name => exact eq_some_after _ (a.indexed.succeeds_remove? name)

theorem table_step {a : Attributes} {s : AttributeStep} {u : AttributeTable}
    {answer : Option String} (h : a.table.step? s = some (u, answer)) : (a.step s).1.table = u := by
  rw [a.step?_table, Option.some.injEq] at h
  exact congrArg Prod.fst h

theorem run?_table (a : Attributes) (steps : List AttributeStep) :
    a.table.run? steps = some ((a.run steps).1.table, (a.run steps).2) := by
  induction steps generalizing a with
  | nil => rfl
  | cons s steps ih =>
    rw [AttributeTable.run?, a.step?_table, run_cons]
    simp [ih]

/-- **Step.** A collection and its association list do the same and answer the same. -/
theorem pairs_step (a : Attributes) (s : AttributeStep) :
    Pairs.step a.toList s = ((a.step s).1.toList, (a.step s).2) := by
  obtain ⟨u, answer, hu, -, hpairs⟩ := a.indexed.step?_eq s
  rw [a.step?_table, Option.some.injEq] at hu
  cases hu
  exact hpairs

theorem pairs_run (a : Attributes) (steps : List AttributeStep) :
    Pairs.run a.toList steps = ((a.run steps).1.toList, (a.run steps).2) := by
  induction steps generalizing a with
  | nil => rfl
  | cons s steps ih =>
    rw [Pairs.run, pairs_step]
    simp only
    rw [ih, run_cons]

theorem toList_set (a : Attributes) (name value : String) :
    (a.set name value).toList = Pairs.set name value a.toList :=
  (congrArg Prod.fst (a.pairs_step (.set name value))).symm

theorem toList_erase (a : Attributes) (name : String) :
    (a.erase name).toList = Pairs.remove name a.toList :=
  (congrArg Prod.fst (a.pairs_step (.remove name))).symm

theorem ofPairs?_eq (pairs : Pairs) :
    AttributeTable.ofPairs? pairs = some (ofList pairs).table ∧
    (ofList pairs).toList = Pairs.ofPairs pairs := by
  suffices h : ∀ a : Attributes,
      pairs.foldlM
          (fun (t : AttributeTable) (name, value) => (t.set? name value).map Prod.fst) a.table =
        some (pairs.foldl (fun (a : Attributes) (name, value) => a.set name value) a).table ∧
      (pairs.foldl (fun (a : Attributes) (name, value) => a.set name value) a).toList =
        pairs.foldl (fun list (name, value) => Pairs.set name value list) a.toList from h {}
  induction pairs with
  | nil => exact fun a => ⟨rfl, rfl⟩
  | cons pair pairs ih =>
    intro a
    obtain ⟨name, value⟩ := pair
    have htable : (a.table.set? name value).map Prod.fst = some (a.set name value).table :=
      congrArg (Option.map Prod.fst) (a.step?_table (.set name value))
    obtain ⟨hrest, hrestlist⟩ := ih (a.set name value)
    refine ⟨?_, ?_⟩
    · rw [List.foldlM_cons]
      simp only [htable]
      exact hrest
    · rw [toList_set] at hrestlist
      exact hrestlist

/-- **Ordered maps.** Collecting pairs and then setting and removing names never makes the index
lead out of range; the table reads as the association list after the same steps, and the answers are
the same. A collection, which holds its table together with the proof that the index is right, is no
exception. -/
theorem run_reads (pairs : Pairs) (steps : List AttributeStep) :
    AttributeTable.ofPairs? pairs = some (ofList pairs).table ∧
      ∃ t answers, (ofList pairs).table.run? steps = some (t, answers) ∧
        answers = (Pairs.run (Pairs.ofPairs pairs) steps).2 ∧
        t.Reads (Pairs.run (Pairs.ofPairs pairs) steps).1 ∧
        ((ofList pairs).run steps).1.table = t ∧ ((ofList pairs).run steps).2 = answers := by
  obtain ⟨hstart, hlist⟩ := ofPairs?_eq pairs
  refine ⟨hstart, _, _, (ofList pairs).run?_table steps, ?_⟩
  rw [← hlist, pairs_run]
  exact ⟨rfl, ((ofList pairs).run steps).1.indexed.reads, rfl, rfl⟩

end Attributes

end AccessibleMarkdown
