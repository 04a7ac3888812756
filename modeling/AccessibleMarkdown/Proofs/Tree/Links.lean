import AccessibleMarkdown.Proofs.Tree.Arena
import Mathlib.Data.List.Nodup
import Mathlib.Data.List.Perm.Subperm
import Mathlib.Logic.Relation
import Mathlib.Order.WellFounded

/-!
# Links that fit together

`Linked t kids` says that the links of `t` are those of a forest in which the children of `p` are
`kids p`. From it every way along the links is known: it ends, stays in the arena, and meets no node
twice.
-/

namespace AccessibleMarkdown.Tree

variable {t : Tree}

/-! ## 1. Trails -/

section
variable {step : NodeId → Option (Option NodeId)}

@[simp] theorem trail?_none (fuel : Nat) : trail? step fuel none = some [] := by
  cases fuel <;> rfl

theorem trail?_succ {id : NodeId} {after : Option NodeId} (h : step id = some after) (fuel : Nat) :
    trail? step (fuel + 1) (some id) = (trail? step fuel after).map (id :: ·) := by
  rw [trail?, h]
  show ((trail? step fuel after).bind fun rest => some (id :: rest)) = _
  cases trail? step fuel after <;> rfl

/-- As much fuel as there are nodes on the trail is enough. -/
theorem trail?_of_length_le {fuel : Nat} {start : Option NodeId} {ids : List NodeId}
    (h : trail? step fuel start = some ids) {n : Nat} (hn : ids.length ≤ n) :
    trail? step n start = some ids := by
  induction fuel generalizing start ids n with
  | zero =>
    cases start with
    | none => rw [trail?_none] at h ⊢; exact h
    | some id => cases h
  | succ fuel ih =>
    cases start with
    | none => rw [trail?_none] at h ⊢; exact h
    | some id =>
      cases hs : step id with
      | none => simp [trail?, hs] at h
      | some after =>
        rw [trail?_succ hs, Option.map_eq_some_iff] at h
        obtain ⟨rest, hrest, rfl⟩ := h
        rw [List.length_cons] at hn
        obtain ⟨m, rfl⟩ : ∃ m, n = m + 1 := ⟨n - 1, by omega⟩
        rw [trail?_succ hs, ih hrest (by omega)]
        rfl

end

/-! ## 2. Lists of siblings -/

/-- The nodes of a list are linked both ways; `before` comes before the first of them and `after`
after the last. -/
def Strung (t : Tree) : Option NodeId → List NodeId → Option NodeId → Prop
  | _, [], _ => True
  | before, id :: rest, after =>
    t.prevSibling? id = before ∧ t.nextSibling? id = rest.head?.or after ∧
    t.Strung (some id) rest after

theorem getLast?_cons_or {α : Type} (a : α) (l : List α) (b : Option α) :
    (a :: l).getLast?.or b = l.getLast?.or (some a) := by
  rw [List.getLast?_cons]
  cases l.getLast? <;> rfl

theorem strung_append {before after : Option NodeId} {ids rest : List NodeId} :
    t.Strung before (ids ++ rest) after ↔
      t.Strung before ids (rest.head?.or after) ∧ t.Strung (ids.getLast?.or before) rest after := by
  induction ids generalizing before with
  | nil => simp [Strung]
  | cons id ids ih =>
    rw [List.cons_append, Strung, Strung, ih, getLast?_cons_or, List.head?_append, Option.or_assoc,
      and_assoc, and_assoc]

/-- Only the sibling links of the nodes themselves count. -/
theorem Strung.congr {u : Tree} {before after : Option NodeId} {ids : List NodeId}
    (hprev : ∀ id ∈ ids, u.prevSibling? id = t.prevSibling? id)
    (hnext : ∀ id ∈ ids, u.nextSibling? id = t.nextSibling? id) (h : t.Strung before ids after) :
    u.Strung before ids after := by
  induction ids generalizing before with
  | nil => trivial
  | cons id ids ih =>
    obtain ⟨hp, hn, hrest⟩ := h
    refine ⟨(hprev id List.mem_cons_self).trans hp, (hnext id List.mem_cons_self).trans hn, ?_⟩
    exact ih (fun k hk => hprev k (List.mem_cons_of_mem _ hk))
      (fun k hk => hnext k (List.mem_cons_of_mem _ hk)) hrest

theorem Strung.trail_next {before : Option NodeId} {ids : List NodeId}
    (h : t.Strung before ids none) :
    trail? (fun c => some (t.nextSibling? c)) ids.length ids.head? = some ids := by
  induction ids generalizing before with
  | nil => rfl
  | cons id ids ih =>
    obtain ⟨-, hnext, hrest⟩ := h
    rw [List.head?_cons, List.length_cons, trail?_succ rfl, hnext, Option.or_none, ih hrest]
    rfl

/-- Backwards, a list is met from its end on, and then whatever comes before it. -/
theorem Strung.trail_prev {before after : Option NodeId} {ids met : List NodeId} {n : Nat}
    (hex : ∀ id ∈ ids, id < t.size) (h : t.Strung before ids after)
    (hmet : trail? (fun c => (t.get? c).map (·.prev)) n before = some met) :
    trail? (fun c => (t.get? c).map (·.prev)) (ids.length + n) (ids.getLast?.or before) =
      some (ids.reverse ++ met) := by
  induction ids generalizing before met n with
  | nil => simpa using hmet
  | cons id ids ih =>
    obtain ⟨hprev, -, hrest⟩ := h
    obtain ⟨node, hnode⟩ := exists_get? (hex id List.mem_cons_self)
    have hstep : (t.get? id).map (·.prev) = some before := by
      rw [← hprev, prevSibling?, hnode]; rfl
    have hid : trail? (fun c => (t.get? c).map (·.prev)) (n + 1) (some id) = some (id :: met) := by
      rw [trail?_succ hstep, hmet]; rfl
    -- One more node has been met before the rest of the list is.
    have := ih (fun k hk => hex k (List.mem_cons_of_mem _ hk)) hrest hid
    rw [getLast?_cons_or, List.length_cons, List.reverse_cons, List.append_assoc,
      List.singleton_append, ← this, Nat.add_right_comm, Nat.add_assoc]

/-! ## 3. Climbing -/

/-- `a` is the node `id`, or its parent, or further up. -/
def Above (t : Tree) (a id : NodeId) : Prop :=
  Relation.ReflTransGen (fun c p => t.parent? c = some p) id a

namespace Above

variable {a b id p : NodeId}

theorem refl (id : NodeId) : t.Above id id := Relation.ReflTransGen.refl

theorem trans (h : t.Above a b) (h' : t.Above b id) : t.Above a id :=
  Relation.ReflTransGen.trans h' h

theorem of_parent (h : t.parent? id = some p) : t.Above p id := Relation.ReflTransGen.single h

theorem cases (h : t.Above a id) : a = id ∨ ∃ p, t.parent? id = some p ∧ t.Above a p :=
  (Relation.ReflTransGen.cases_head h).imp Eq.symm fun h => h

theorem eq_of_top (h : t.Above a id) (htop : t.parent? id = none) : a = id := by
  obtain rfl | ⟨p, hp, -⟩ := h.cases
  · rfl
  · rw [htop] at hp; cases hp

/-- What is above a node stands on one line. -/
theorem total (h : t.Above a id) (h' : t.Above b id) : t.Above b a ∨ t.Above a b :=
  Relation.ReflTransGen.total_of_right_unique
    (fun _ _ _ h h' => Option.some.inj (h.symm.trans h')) h h'

end Above

/-! ## 4. Linked trees -/

structure Linked (t : Tree) (kids : NodeId → List NodeId) : Prop where
  root_lt : rootId < t.size
  root_top : t.parent? rootId = none
  climbs : WellFounded fun p c => t.parent? c = some p
  parent_lt : ∀ {c p}, t.parent? c = some p → p < t.size
  mem_kids : ∀ {c p}, c ∈ kids p ↔ t.parent? c = some p
  nodup_kids : ∀ p, (kids p).Nodup
  first : ∀ p, t.firstChild? p = (kids p).head?
  last : ∀ p, t.lastChild? p = (kids p).getLast?
  strung : ∀ p, t.Strung none (kids p) none
  alone : ∀ {c}, t.parent? c = none → t.prevSibling? c = none ∧ t.nextSibling? c = none

/-- Different nodes of the arena are at most as many as the arena has. -/
theorem length_le_size {ids : List NodeId} (hnodup : ids.Nodup) (hlt : ∀ id ∈ ids, id < t.size) :
    ids.length ≤ t.size := by
  have hsub : ids ⊆ List.range t.size := fun id h => List.mem_range.mpr (hlt id h)
  have := (hnodup.subperm hsub).length_le
  rwa [List.length_range] at this

namespace Linked

variable {kids : NodeId → List NodeId} {id p c : NodeId} {fuel : Nat}

theorem kids_lt (h : t.Linked kids) (hc : c ∈ kids p) : c < t.size :=
  lt_size_of_parent? (h.mem_kids.mp hc)

theorem length_kids_le (h : t.Linked kids) (p : NodeId) : (kids p).length ≤ t.size :=
  length_le_size (h.nodup_kids p) fun _ => h.kids_lt

theorem childTrail?_eq (h : t.Linked kids) (hfuel : t.size ≤ fuel) :
    t.childTrail? fuel p = some (kids p) := by
  -- The list itself tells how long the trail is, and the arena is at least as long.
  have := (h.strung p).trail_next
  rw [← h.first p] at this
  exact trail?_of_length_le this (Nat.le_trans (h.length_kids_le p) hfuel)

theorem children_eq (h : t.Linked kids) (p : NodeId) : t.children p = kids p := by
  rw [children, h.childTrail?_eq (Nat.le_refl _)]; rfl

theorem mem_children (h : t.Linked kids) : c ∈ t.children p ↔ t.parent? c = some p := by
  rw [h.children_eq, h.mem_kids]

theorem root_notMem_children (h : t.Linked kids) (p : NodeId) : rootId ∉ t.children p := by
  rw [h.mem_children, h.root_top]
  simp

theorem nodup_children (h : t.Linked kids) (p : NodeId) : (t.children p).Nodup := by
  rw [h.children_eq]; exact h.nodup_kids p

theorem trail_last (h : t.Linked kids) (hfuel : t.size ≤ fuel) (p : NodeId) :
    trail? (fun c => (t.get? c).map (·.prev)) fuel (t.lastChild? p) = some (kids p).reverse := by
  have := (h.strung p).trail_prev (fun _ => h.kids_lt) (trail?_none 0)
  rw [Option.or_none, ← h.last p, List.append_nil] at this
  refine trail?_of_length_le this ?_
  rw [List.length_reverse]
  exact Nat.le_trans (h.length_kids_le p) hfuel

theorem siblings_eq (h : t.Linked kids) {elder younger : List NodeId}
    (hkids : kids p = elder ++ id :: younger) :
    t.prevSibling? id = elder.getLast? ∧ t.nextSibling? id = younger.head? := by
  have hstrung := h.strung p
  rw [hkids, strung_append] at hstrung
  obtain ⟨-, hprev, hnext, -⟩ := hstrung
  exact ⟨by rw [hprev, Option.or_none], by rw [hnext, Option.or_none]⟩

theorem elderTrail?_eq (h : t.Linked kids) (hfuel : t.size ≤ fuel) {elder younger : List NodeId}
    (hkids : kids p = elder ++ id :: younger) : t.elderTrail? fuel id = some elder.reverse := by
  have hlt : ∀ k ∈ elder, k < t.size := fun k hk =>
    h.kids_lt (p := p) (by rw [hkids]; exact List.mem_append_left _ hk)
  have hstrung := h.strung p
  rw [hkids, strung_append] at hstrung
  have := hstrung.1.trail_prev hlt (trail?_none 0)
  rw [Option.or_none, ← (h.siblings_eq hkids).1, List.append_nil] at this
  refine trail?_of_length_le this ?_
  have := h.length_kids_le p
  rw [hkids, List.length_append] at this
  rw [List.length_reverse]
  omega

theorem elderTrail?_top (h : t.Linked kids) (htop : t.parent? id = none) :
    t.elderTrail? fuel id = some [] := by
  rw [elderTrail?, (h.alone htop).1, trail?_none]

theorem siblingIndex?_eq (h : t.Linked kids) (hfuel : t.size ≤ fuel) :
    t.siblingIndex? fuel id = some (((t.parent? id).map fun p => (kids p).idxOf id).getD 0) := by
  rw [siblingIndex?]
  cases hp : t.parent? id with
  | none => rw [h.elderTrail?_top hp]; rfl
  | some p =>
    obtain ⟨elder, younger, hkids⟩ := List.append_of_mem (h.mem_kids.mpr hp)
    have hnodup := h.nodup_kids p
    rw [hkids, List.nodup_append] at hnodup
    have hne : id ∉ elder := fun hmem => hnodup.2.2 id hmem id List.mem_cons_self rfl
    rw [h.elderTrail?_eq hfuel hkids, Option.map_some, Option.map_some, Option.getD_some, hkids,
      List.idxOf_append_of_notMem hne, List.idxOf_cons_self, List.length_reverse, Nat.add_zero]

/-! The way up from a node. -/

theorem not_above_parent (h : t.Linked kids) (hp : t.parent? id = some p) : ¬ t.Above id p := by
  intro hup
  have hcycle : Relation.TransGen (fun c p => t.parent? c = some p) id id :=
    Relation.TransGen.head' hp hup
  exact h.climbs.transGen.irrefl.irrefl id (Relation.transGen_swap.mp hcycle)

theorem above_antisymm (h : t.Linked kids) {a : NodeId} (ha : t.Above a id)
    (hid : t.Above id a) : a = id := by
  obtain rfl | ⟨p, hp, hap⟩ := ha.cases
  · rfl
  · exact absurd (hid.trans hap) (h.not_above_parent hp)

/-- Climbing ends, and meets just the nodes above, each of them once. -/
theorem exists_way (h : t.Linked kids) (id : NodeId) :
    ∃ way, trail? (fun c => some (t.parent? c)) way.length (some id) = some way ∧ way.Nodup ∧
      ∀ a, a ∈ way ↔ t.Above a id := by
  -- Along the order in which a parent comes before its children: the way from a child is the child
  -- and the way from its parent.
  induction id using h.climbs.induction with
  | h id ih =>
    cases hp : t.parent? id with
    | none =>
      refine ⟨[id], by rw [List.length_singleton, trail?_succ rfl, hp, trail?_none]; rfl,
        List.nodup_singleton id, fun a => ?_⟩
      rw [List.mem_singleton]
      exact ⟨fun ha => ha ▸ .refl _, fun ha => ha.eq_of_top hp⟩
    | some p =>
      obtain ⟨way, htrail, hnodup, hmem⟩ := ih p hp
      refine ⟨id :: way, by rw [List.length_cons, trail?_succ rfl, hp, htrail]; rfl,
        ?_, fun a => ?_⟩
      -- A node is not on the way up from its own parent.
      · refine List.nodup_cons.mpr ⟨fun hid => ?_, hnodup⟩
        exact h.not_above_parent hp ((hmem id).mp hid)
      · rw [List.mem_cons, hmem]
        constructor
        · rintro (rfl | ha)
          · exact .refl _
          · exact ha.trans (.of_parent hp)
        · intro ha
          obtain rfl | ⟨q, hq, haq⟩ := ha.cases
          · exact .inl rfl
          · rw [hp] at hq
            cases hq
            exact .inr haq

theorem above_lt (h : t.Linked kids) {a : NodeId} (ha : t.Above a id) (hid : id < t.size) :
    a < t.size := by
  induction ha with
  | refl => exact hid
  | tail _ hp _ => exact h.parent_lt hp

theorem parentTrail?_eq (h : t.Linked kids) (hfuel : t.size ≤ fuel) :
    t.parentTrail? fuel id = some (t.ancestors id) := by
  -- The queries themselves use the size of the arena as fuel, so one way for all fuels says both.
  suffices hs : ∃ way, ∀ n, t.size ≤ n → t.parentTrail? n id = some way by
    obtain ⟨way, hway⟩ := hs
    rw [ancestors, hway _ (Nat.le_refl _), hway _ hfuel]; rfl
  by_cases hid : id < t.size
  · obtain ⟨node, hnode⟩ := exists_get? hid
    obtain ⟨way, htrail, hnodup, hmem⟩ := h.exists_way id
    refine ⟨way, fun n hn => ?_⟩
    rw [parentTrail?, hnode]
    refine trail?_of_length_le htrail (Nat.le_trans (length_le_size hnodup fun a ha => ?_) hn)
    exact h.above_lt ((hmem a).mp ha) hid
  · refine ⟨[], fun n _ => ?_⟩
    rw [parentTrail?, get?_eq_none_iff.mpr (Nat.le_of_not_lt hid)]
    exact trail?_none n

theorem ancestors_missing (hid : t.size ≤ id) : t.ancestors id = [] := by
  rw [ancestors, parentTrail?, get?_eq_none_iff.mpr hid, Option.map_none, trail?_none]; rfl

theorem exists_ancestors (h : t.Linked kids) (hid : id < t.size) :
    (t.ancestors id).Nodup ∧ ∀ a, a ∈ t.ancestors id ↔ t.Above a id := by
  obtain ⟨node, hnode⟩ := exists_get? hid
  obtain ⟨way, htrail, hnodup, hmem⟩ := h.exists_way id
  have hlen := length_le_size (t := t) hnodup fun a ha => h.above_lt ((hmem a).mp ha) hid
  have : t.ancestors id = way := by
    rw [ancestors, parentTrail?, hnode, Option.map_some, trail?_of_length_le htrail hlen]; rfl
  rw [this]
  exact ⟨hnodup, hmem⟩

theorem mem_ancestors (h : t.Linked kids) (hid : id < t.size) {a : NodeId} :
    a ∈ t.ancestors id ↔ t.Above a id :=
  (h.exists_ancestors hid).2 a

theorem nodup_ancestors (h : t.Linked kids) (id : NodeId) : (t.ancestors id).Nodup := by
  by_cases hid : id < t.size
  · exact (h.exists_ancestors hid).1
  · rw [ancestors_missing (Nat.le_of_not_lt hid)]; exact List.nodup_nil

theorem ancestors_top (hid : id < t.size) (htop : t.parent? id = none) : t.ancestors id = [id] := by
  obtain ⟨node, hnode⟩ := exists_get? hid
  obtain ⟨n, hn⟩ : ∃ n, t.size = n + 1 := Nat.exists_eq_add_one.mpr (Nat.zero_lt_of_lt hid)
  rw [ancestors, parentTrail?, hnode, Option.map_some, hn, trail?_succ rfl, htop, trail?_none]
  rfl

theorem ancestors_parent (h : t.Linked kids) (hp : t.parent? id = some p) :
    t.ancestors id = id :: t.ancestors p := by
  obtain ⟨pnode, hpnode⟩ := exists_get? (h.parent_lt hp)
  obtain ⟨node, hnode⟩ := exists_get? (lt_size_of_parent? hp)
  have hway : t.parentTrail? t.size.succ id = some (t.ancestors id) :=
    h.parentTrail?_eq (Nat.le_succ _)
  have hup : t.parentTrail? t.size p = some (t.ancestors p) := h.parentTrail?_eq (Nat.le_refl _)
  rw [parentTrail?, hpnode, Option.map_some] at hup
  rw [parentTrail?, hnode, Option.map_some, Nat.succ_eq_add_one, trail?_succ rfl, hp, hup] at hway
  exact (Option.some.inj hway).symm

theorem length_ancestors_le (h : t.Linked kids) (id : NodeId) :
    (t.ancestors id).length ≤ t.size := by
  by_cases hid : id < t.size
  · exact length_le_size (h.nodup_ancestors id) fun a ha =>
      h.above_lt ((h.mem_ancestors hid).mp ha) hid
  · rw [ancestors_missing (Nat.le_of_not_lt hid)]; exact Nat.zero_le _

/-- Induction from the leaves up: a node comes after its children. -/
theorem bottom_up {P : NodeId → Prop} (h : t.Linked kids)
    (step : ∀ id, (∀ c, t.parent? c = some id → P c) → P id) (id : NodeId) : P id := by
  -- There is less room above the size of the arena for the way up of a child than for that of `id`.
  generalize hn : t.size - (t.ancestors id).length = n
  induction n using Nat.strong_induction_on generalizing id with
  | h n ih =>
    refine step id fun c hc => ih _ ?_ c rfl
    have := h.length_ancestors_le c
    rw [h.ancestors_parent hc, List.length_cons] at this ⊢
    omega

end Linked

/-! ## 5. Descending -/

/-- `id` is the node `top`, or a child of it, or further down. -/
def Within (t : Tree) (top id : NodeId) : Prop :=
  Relation.ReflTransGen (fun p c => c ∈ t.children p) top id

/-- The way down to a node is the way up from it, backwards. -/
theorem Linked.within_iff {kids : NodeId → List NodeId} {top id : NodeId} (h : t.Linked kids) :
    t.Within top id ↔ t.Above top id := by
  have hswap : (fun p c => c ∈ t.children p) = Function.swap fun c p => t.parent? c = some p := by
    funext p c
    exact propext h.mem_children
  rw [Within, hswap, Relation.reflTransGen_swap]
  rfl

end AccessibleMarkdown.Tree
