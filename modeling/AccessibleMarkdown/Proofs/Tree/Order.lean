import AccessibleMarkdown.Proofs.Tree.Links
import AccessibleMarkdown.Tree.Walk

/-!
# The nodes that a walk meets

Where the tag of a node decides how a walk goes on below it, the nodes met are known beforehand. In
a linked tree they are different from each other and lie below the start, and a walk as deep as the
tree is cut off nowhere.
-/

namespace AccessibleMarkdown

def Descent.nexts (d : Descent) (ids : List NodeId) : List NodeId :=
  match d with
  | stop => []
  | children | rows => ids
  | first => ids.take 1

theorem Descent.nexts_sublist (d : Descent) (ids : List NodeId) : (d.nexts ids).Sublist ids := by
  cases d with
  | stop => exact List.nil_sublist ids
  | children => exact List.Sublist.refl ids
  | rows => exact List.Sublist.refl ids
  | first => exact List.take_sublist 1 ids

namespace Tree

/-- The nodes met from `id` on, at most `fuel` levels deep, where `below` says how to go on. -/
def visited (t : Tree) (below : Tag → Descent) : Nat → NodeId → List NodeId
  | 0, _ => []
  | fuel + 1, id =>
    match t.element? id with
    | none => []
    | some e => id :: ((below e.tag).nexts (t.children id)).flatMap (visited t below fuel)

variable {t : Tree} {kids : NodeId → List NodeId} {below : Tag → Descent} {fuel : Nat}
  {id c : NodeId}

theorem visited_succ {e : Element} (he : t.element? id = some e) :
    t.visited below (fuel + 1) id =
      id :: ((below e.tag).nexts (t.children id)).flatMap (t.visited below fuel) := by
  rw [visited, he]

theorem visited_missing (hid : t.size ≤ id) : t.visited below fuel id = [] := by
  cases fuel with
  | zero => rfl
  | succ fuel => rw [visited, element?_eq_none_iff.mpr hid]

theorem mem_children_of_mem_nexts {d : Descent} (h : c ∈ d.nexts (t.children id)) :
    c ∈ t.children id :=
  (d.nexts_sublist _).subset h

namespace Linked

variable (h : t.Linked kids)
include h

theorem above_of_mem_visited {x : NodeId} (hx : x ∈ t.visited below fuel id) :
    t.Above id x ∧ x < t.size := by
  induction fuel generalizing id with
  | zero => cases hx
  | succ fuel ih =>
    cases he : t.element? id with
    | none => rw [visited, he] at hx; cases hx
    | some e =>
      rw [visited_succ he, List.mem_cons, List.mem_flatMap] at hx
      obtain rfl | ⟨c, hc, hxc⟩ := hx
      · exact ⟨.refl _, lt_size_of_element? he⟩
      · have hp := h.mem_children.mp (mem_children_of_mem_nexts hc)
        exact ⟨(Above.of_parent hp).trans (ih hxc).1, (ih hxc).2⟩

/-- Below different children there are different nodes. -/
theorem disjoint_below {a b x : NodeId} (ha : t.parent? a = some id) (hb : t.parent? b = some id)
    (hax : t.Above a x) (hbx : t.Above b x) : a = b := by
  -- One of two children cannot stand above the other, with their parent in between.
  have key : ∀ {a b}, t.parent? a = some id → t.parent? b = some id → t.Above a b → a = b := by
    intro a b ha hb hab
    obtain heq | ⟨p, hp, hap⟩ := hab.cases
    · exact heq
    · rw [hb] at hp
      cases hp
      exact absurd hap (h.not_above_parent ha)
  obtain hba | hab := hax.total hbx
  · exact (key hb ha hba).symm
  · exact key ha hb hab

theorem nodup_visited (below : Tag → Descent) (fuel : Nat) (id : NodeId) :
    (t.visited below fuel id).Nodup := by
  induction fuel generalizing id with
  | zero => exact List.nodup_nil
  | succ fuel ih =>
    cases he : t.element? id with
    | none => rw [visited, he]; exact List.nodup_nil
    | some e =>
      have hparent : ∀ {c}, c ∈ (below e.tag).nexts (t.children id) → t.parent? c = some id :=
        fun hc => h.mem_children.mp (mem_children_of_mem_nexts hc)
      rw [visited_succ he, List.nodup_cons, List.mem_flatMap]
      -- A node is not met again below itself, and what is met below one child is not met below
      -- another.
      constructor
      · rintro ⟨c, hc, hid⟩
        exact h.not_above_parent (hparent hc) (h.above_of_mem_visited hid).1
      · rw [List.nodup_flatMap]
        refine ⟨fun c _ => ih c, ?_⟩
        have hnodup := ((below e.tag).nexts_sublist (t.children id)).nodup (h.nodup_children id)
        refine hnodup.imp_of_mem fun {a b} ha hb hne x hxa hxb => hne ?_
        exact h.disjoint_below (hparent ha) (hparent hb) (h.above_of_mem_visited hxa).1
          (h.above_of_mem_visited hxb).1

theorem length_visited_le (below : Tag → Descent) (fuel : Nat) (id : NodeId) :
    (t.visited below fuel id).length ≤ t.size :=
  length_le_size (h.nodup_visited below fuel id) fun _ hx => (h.above_of_mem_visited hx).2

/-- The deeper a node is, the less fuel is needed below it. -/
theorem visited_enough (id : NodeId) {m n : Nat} (hm : t.size < m + (t.ancestors id).length)
    (hn : t.size < n + (t.ancestors id).length) : t.visited below m id = t.visited below n id := by
  -- From the leaves up: a child has one more node above it, and one level less of fuel.
  induction id using h.bottom_up generalizing m n with
  | step id ih =>
    cases he : t.element? id with
    | none =>
      have hid := element?_eq_none_iff.mp he
      rw [visited_missing hid, visited_missing hid]
    | some e =>
      have hlen := h.length_ancestors_le id
      obtain ⟨m, rfl⟩ : ∃ k, m = k + 1 := ⟨m - 1, by omega⟩
      obtain ⟨n, rfl⟩ : ∃ k, n = k + 1 := ⟨n - 1, by omega⟩
      rw [visited_succ he, visited_succ he]
      congr 1
      apply List.flatMap_congr
      intro c hc
      have hp := h.mem_children.mp (mem_children_of_mem_nexts hc)
      have hdeep : (t.ancestors c).length = (t.ancestors id).length + 1 := by
        rw [h.ancestors_parent hp, List.length_cons]
      exact ih c hp (by omega) (by omega)

theorem length_ancestors_pos (hid : id < t.size) : 0 < (t.ancestors id).length :=
  List.length_pos_of_mem ((h.mem_ancestors hid).mpr (.refl id))

end Linked

/-! ## All nodes below a node -/

/-- The nodes at and below `id` in document order. -/
def preorder (t : Tree) (id : NodeId) : List NodeId := t.visited (fun _ => .children) t.size id

theorem Linked.preorder_eq (h : t.Linked kids) (hid : id < t.size) :
    t.preorder id = id :: (t.children id).flatMap t.preorder := by
  obtain ⟨e, he⟩ := exists_element? hid
  have hpos := h.length_ancestors_pos hid
  rw [preorder, h.visited_enough id (n := t.size + 1) (by omega) (by omega), visited_succ he]
  rfl

/-- A search that starts with `id` on its agenda looks at what is below it first. -/
theorem Linked.search?_cons (h : t.Linked kids) (tag : Tag) (id : NodeId) (hid : id < t.size)
    (agenda : List NodeId) (fuel : Nat) :
    t.search? tag ((t.preorder id).length + fuel) (id :: agenda) =
      (t.search? tag fuel agenda).map
        ((t.preorder id).filter (fun k => (t.element? k).any (·.tag = tag)) ++ ·) := by
  induction id using h.bottom_up generalizing agenda fuel with
  | step id ih =>
    -- The children are searched one after the other, and then the agenda.
    have hkids : ∀ ids : List NodeId, (∀ c ∈ ids, t.parent? c = some id) → ∀ agenda fuel,
        t.search? tag ((ids.flatMap t.preorder).length + fuel) (ids ++ agenda) =
          (t.search? tag fuel agenda).map
            ((ids.flatMap t.preorder).filter (fun k => (t.element? k).any (·.tag = tag)) ++ ·) := by
      intro ids
      induction ids with
      | nil => intro _ agenda fuel; simp
      | cons c ids ihids =>
        intro hids agenda fuel
        have hp := hids c List.mem_cons_self
        rw [List.flatMap_cons, List.length_append, List.cons_append, Nat.add_assoc,
          ih c hp (lt_size_of_parent? hp), ihids (fun k hk => hids k (List.mem_cons_of_mem _ hk)),
          Option.map_map, List.filter_append]
        congr 1
        funext found
        exact (List.append_assoc _ _ _).symm
    obtain ⟨node, hnode⟩ := exists_get? hid
    have htag : (t.element? id).any (·.tag = tag) = decide (node.element.tag = tag) := by
      rw [element?, hnode]; rfl
    rw [h.preorder_eq hid, List.length_cons, Nat.add_right_comm, search?, hnode]
    simp only
    rw [hkids _ (fun c hc => h.mem_children.mp hc), List.filter_cons, htag]
    cases t.search? tag fuel agenda with
    | none => rfl
    | some found => by_cases hn : node.element.tag = tag <;> simp [hn]

/-- One step for each node at or below the start, and one more, are enough for a search. -/
theorem Linked.search?_start (h : t.Linked kids) (tag : Tag) {n : Nat} (hn : t.size < n)
    (start : NodeId) :
    t.search? tag n [start] =
      some ((t.preorder start).filter fun k => (t.element? k).any (·.tag = tag)) := by
  by_cases hstart : start < t.size
  · have hlen := h.length_visited_le (fun _ => .children) t.size start
    obtain ⟨fuel, rfl⟩ : ∃ fuel, n = (t.preorder start).length + fuel :=
      ⟨n - (t.preorder start).length, by rw [preorder]; omega⟩
    rw [h.search?_cons tag start hstart]
    cases fuel <;> simp [search?]
  · have hmissing := Nat.le_of_not_lt hstart
    obtain ⟨n, rfl⟩ : ∃ k, n = k + 1 := ⟨n - 1, by omega⟩
    rw [search?, get?_eq_none_iff.mpr hmissing, preorder, visited_missing hmissing]
    cases n <;> rfl

theorem Linked.findAll_eq (h : t.Linked kids) (start : NodeId) (tag : Tag) :
    t.findAll start tag = (t.preorder start).filter fun k => (t.element? k).any (·.tag = tag) := by
  rw [findAll, h.search?_start tag (Nat.lt_succ_self _)]
  rfl

end Tree

end AccessibleMarkdown
