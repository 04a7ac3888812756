import AccessibleMarkdown.Proofs.Tree.Links

/-!
# Growing a linked tree

A tree of one node is linked, and stays so when a node is added, when an element changes, and when
a detached node becomes the last child of one that is not below it.
-/

namespace AccessibleMarkdown.Tree

variable {t u : Tree} {kids : NodeId → List NodeId} {p c : NodeId}

/-! ## 1. Operations that keep all links -/

/-- The same nodes, and the same links between them. -/
structure SameLinks (t u : Tree) : Prop where
  size : u.size = t.size
  parent : u.parent? = t.parent?
  first : u.firstChild? = t.firstChild?
  last : u.lastChild? = t.lastChild?
  prev : u.prevSibling? = t.prevSibling?
  next : u.nextSibling? = t.nextSibling?

theorem SameLinks.refl (t : Tree) : t.SameLinks t := ⟨rfl, rfl, rfl, rfl, rfl, rfl⟩

theorem SameLinks.symm (h : t.SameLinks u) : u.SameLinks t where
  size := h.size.symm
  parent := h.parent.symm
  first := h.first.symm
  last := h.last.symm
  prev := h.prev.symm
  next := h.next.symm

theorem SameLinks.trans {v : Tree} (h : t.SameLinks u) (h' : u.SameLinks v) : t.SameLinks v where
  size := h'.size.trans h.size
  parent := h'.parent.trans h.parent
  first := h'.first.trans h.first
  last := h'.last.trans h.last
  prev := h'.prev.trans h.prev
  next := h'.next.trans h.next

theorem Linked.congr (h : t.Linked kids) (hsize : t.size ≤ u.size) (hparent : u.parent? = t.parent?)
    (hfirst : u.firstChild? = t.firstChild?) (hlast : u.lastChild? = t.lastChild?)
    (hprev : u.prevSibling? = t.prevSibling?) (hnext : u.nextSibling? = t.nextSibling?) :
    u.Linked kids where
  root_lt := Nat.lt_of_lt_of_le h.root_lt hsize
  root_top := by rw [hparent]; exact h.root_top
  climbs := by rw [hparent]; exact h.climbs
  parent_lt hp := by rw [hparent] at hp; exact Nat.lt_of_lt_of_le (h.parent_lt hp) hsize
  mem_kids := by rw [hparent]; exact h.mem_kids
  nodup_kids := h.nodup_kids
  first := by rw [hfirst]; exact h.first
  last := by rw [hlast]; exact h.last
  strung p := (h.strung p).congr (fun _ _ => by rw [hprev]) (fun _ _ => by rw [hnext])
  alone := by rw [hparent, hprev, hnext]; exact h.alone

theorem Linked.sameLinks (h : t.Linked kids) (hs : t.SameLinks u) : u.Linked kids :=
  h.congr (Nat.le_of_eq hs.size.symm) hs.parent hs.first hs.last hs.prev hs.next

theorem Linked.create (h : t.Linked kids) (e : Element) : (t.create e).1.Linked kids :=
  h.congr (Nat.le_of_lt (t.size_lt_create e)) (funext (parent?_create e))
    (funext (firstChild?_create e)) (funext (lastChild?_create e)) (funext (prevSibling?_create e))
    (funext (nextSibling?_create e))

theorem sameLinks_modify (id : NodeId) (f : Element → Element) : t.SameLinks (t.modify id f) where
  size := size_modifyNode id _
  parent := funext (bind_get?_modifyNode fun _ => rfl)
  first := funext (bind_get?_modifyNode fun _ => rfl)
  last := funext (bind_get?_modifyNode fun _ => rfl)
  prev := funext (bind_get?_modifyNode fun _ => rfl)
  next := funext (bind_get?_modifyNode fun _ => rfl)

theorem SameLinks.children (hs : t.SameLinks u) : u.children = t.children := by
  funext id
  rw [Tree.children, Tree.children, childTrail?, childTrail?, hs.size, hs.first, hs.next]

theorem Linked.modify (h : t.Linked kids) (id : NodeId) (f : Element → Element) :
    (t.modify id f).Linked kids :=
  h.sameLinks (sameLinks_modify id f)

/-- A tree of one node has no links. -/
theorem linked_withRoot (e : Element) : (withRoot e).Linked fun _ => [] := by
  have hnone : ∀ {α : Type} (link : Node → Option α), link { element := e } = none → ∀ id,
      ((withRoot e).get? id).bind link = none := by
    intro α link hlink id
    show ((#[{ element := e }] : Array Node)[id]?).bind link = none
    cases id with
    | zero => exact hlink
    | succ n => rfl
  have hparent : ∀ id, (withRoot e).parent? id = none := hnone (·.parent) rfl
  exact {
    root_lt := Nat.zero_lt_one
    root_top := hparent _
    climbs := ⟨fun c => ⟨c, fun p hp => by rw [hparent] at hp; cases hp⟩⟩
    parent_lt := fun hp => by rw [hparent] at hp; cases hp
    mem_kids := fun {c p} => by rw [hparent]; simp
    nodup_kids := fun _ => List.nodup_nil
    first := hnone (·.children.first) rfl
    last := hnone (·.children.last) rfl
    strung := fun _ => trivial
    alone := fun _ => ⟨hnone (·.prev) rfl _, hnone (·.next) rfl _⟩ }

/-! ## 2. Linking a detached node -/

/-- `c` can become the last child of `p`. -/
structure Fits (t : Tree) (p c : NodeId) : Prop where
  child_lt : c < t.size
  detached : t.parent? c = none
  not_root : c ≠ rootId
  parent_lt : p < t.size
  acyclic : ¬ t.Above c p

section
variable (h : t.Linked kids) (hfit : t.Fits p c)
include h hfit

theorem Linked.notMem_of_fits (q : NodeId) : c ∉ kids q := by
  rw [h.mem_kids, hfit.detached]
  simp

omit hfit in
theorem Linked.last_lt (q : NodeId) : ∀ last, t.lastChild? q = some last → last < t.size := by
  intro last hlast
  rw [h.last] at hlast
  exact h.kids_lt (List.mem_of_getLast? hlast)

/-- Nodes that do not see `c` on their way up climb as before; the others reach `c`, and then
`p`. -/
theorem Linked.climbs_link : WellFounded fun q x => (t.link p c).parent? x = some q := by
  simp only [parent?_link hfit.child_lt]
  -- `p` does not see `c`, so its way up is an old one: that is what breaks the circle.
  have hold :
      ∀ x, ¬ t.Above c x → Acc (fun q x => (if x = c then some p else t.parent? x) = some q) x := by
    intro x
    induction x using h.climbs.induction with
    | h x ih =>
      refine fun hx => ⟨x, fun q hq => ?_⟩
      have hxc : x ≠ c := fun heq => hx (heq ▸ .refl _)
      rw [if_neg hxc] at hq
      exact ih q hq fun hcq => hx (hcq.trans (.of_parent hq))
  refine ⟨fun x => ?_⟩
  -- Every other way up is old as far as `c`, and goes on from `p`.
  induction x using h.climbs.induction with
  | h x ih =>
    refine ⟨x, fun q hq => ?_⟩
    by_cases hxc : x = c
    · rw [if_pos hxc, Option.some.injEq] at hq
      exact hq ▸ hold p hfit.acyclic
    · rw [if_neg hxc] at hq
      exact ih q hq

theorem Linked.nextSibling?_link_of_mem {q id : NodeId} (hid : id ∈ kids q)
    (hne : (kids p).getLast? ≠ some id) : (t.link p c).nextSibling? id = t.nextSibling? id := by
  have hic : id ≠ c := fun heq => h.notMem_of_fits hfit q (heq ▸ hid)
  rw [nextSibling?_link hfit.child_lt (h.last_lt p), h.last, if_neg hne, if_neg hic]

theorem Linked.prevSibling?_link_of_mem {q id : NodeId} (hid : id ∈ kids q) :
    (t.link p c).prevSibling? id = t.prevSibling? id := by
  have hic : id ≠ c := fun heq => h.notMem_of_fits hfit q (heq ▸ hid)
  rw [prevSibling?_link hfit.child_lt, if_neg hic]

theorem Linked.strung_link : (t.link p c).Strung none (kids p ++ [c]) none := by
  have hlast : (kids p).getLast? ≠ some c := fun hl =>
    h.notMem_of_fits hfit p (List.mem_of_getLast? hl)
  rw [strung_append]
  refine ⟨?_, ?_, ?_, trivial⟩
  · have hold := h.strung p
    have hnodup := h.nodup_kids p
    -- Among the old children only the last one gets a new link, to `c`.
    obtain hnil | ⟨init, last, hkids⟩ := List.eq_nil_or_concat (kids p)
    · rw [hnil]; trivial
    · rw [List.concat_eq_append] at hkids
      have hlast : (kids p).getLast? = some last := by rw [hkids, List.getLast?_concat]
      have hmem : last ∈ kids p := List.mem_of_getLast? hlast
      rw [hkids, strung_append] at hold ⊢
      rw [hkids, List.nodup_append] at hnodup
      obtain ⟨hinit, hend, -, -⟩ := hold
      have hin : ∀ id ∈ init, id ∈ kids p := fun id hid => by
        rw [hkids]; exact List.mem_append_left _ hid
      refine ⟨hinit.congr (fun id hid => h.prevSibling?_link_of_mem hfit (hin id hid))
        fun id hid => ?_, (h.prevSibling?_link_of_mem hfit hmem).trans hend, ?_, trivial⟩
      · refine h.nextSibling?_link_of_mem hfit (hin id hid) ?_
        rw [hlast]
        exact fun heq =>
          hnodup.2.2 id hid last (List.mem_singleton_self _) (Option.some.inj heq).symm
      · rw [nextSibling?_link hfit.child_lt (h.last_lt p), h.last, if_pos hlast]
        rfl
  -- The new child comes after the last of the old ones, and before none.
  · rw [prevSibling?_link hfit.child_lt, if_pos rfl, h.last, Option.or_none]
  · rw [nextSibling?_link hfit.child_lt (h.last_lt p), h.last, if_neg hlast, if_pos rfl]
    rfl

theorem Linked.link : (t.link p c).Linked (Function.update kids p (kids p ++ [c])) where
  root_lt := by rw [size_link]; exact h.root_lt
  root_top := by rw [parent?_link hfit.child_lt, if_neg hfit.not_root.symm]; exact h.root_top
  climbs := h.climbs_link hfit
  parent_lt {x q} hq := by
    rw [parent?_link hfit.child_lt] at hq
    rw [size_link]
    by_cases hx : x = c
    · rw [if_pos hx, Option.some.injEq] at hq
      exact hq ▸ hfit.parent_lt
    · rw [if_neg hx] at hq
      exact h.parent_lt hq
  mem_kids {x q} := by
    rw [parent?_link hfit.child_lt]
    by_cases hq : q = p
    · rw [hq, Function.update_self, List.mem_append, List.mem_singleton, h.mem_kids]
      by_cases hx : x = c
      · rw [if_pos hx]; simp [hx]
      · rw [if_neg hx]; simp [hx]
    · rw [Function.update_of_ne hq, h.mem_kids]
      by_cases hx : x = c
      · rw [if_pos hx, hx, hfit.detached]; simp [Ne.symm hq]
      · rw [if_neg hx]
  nodup_kids q := by
    by_cases hq : q = p
    · rw [hq, Function.update_self, List.nodup_append]
      refine ⟨h.nodup_kids p, List.nodup_singleton c, fun a ha b hb => ?_⟩
      rw [List.mem_singleton] at hb
      exact fun heq => h.notMem_of_fits hfit p (hb ▸ heq ▸ ha)
    · rw [Function.update_of_ne hq]; exact h.nodup_kids q
  first q := by
    rw [firstChild?_link hfit.parent_lt, h.last]
    by_cases hq : q = p
    · rw [hq, Function.update_self, h.first]
      cases kids p with
      | nil => rw [if_pos ⟨rfl, rfl⟩]; rfl
      | cons a l => rw [if_neg (by simp)]; rfl
    · rw [Function.update_of_ne hq, if_neg fun hh => hq hh.1]; exact h.first q
  last q := by
    rw [lastChild?_link hfit.parent_lt]
    by_cases hq : q = p
    · rw [if_pos hq, hq, Function.update_self, List.getLast?_concat]
    · rw [if_neg hq, Function.update_of_ne hq]; exact h.last q
  strung q := by
    by_cases hq : q = p
    · rw [hq, Function.update_self]; exact h.strung_link hfit
    · rw [Function.update_of_ne hq]
      refine (h.strung q).congr (fun id hid => h.prevSibling?_link_of_mem hfit hid) fun id hid => ?_
      -- The last child of `p` is no child of `q`.
      refine h.nextSibling?_link_of_mem hfit hid fun hl => hq ?_
      have hp := h.mem_kids.mp (List.mem_of_getLast? hl)
      exact Option.some.inj ((h.mem_kids.mp hid).symm.trans hp)
  alone {x} hx := by
    rw [parent?_link hfit.child_lt] at hx
    have hxc : x ≠ c := fun heq => by rw [if_pos heq] at hx; cases hx
    rw [if_neg hxc] at hx
    -- A node without a parent is no last child, so neither sibling link of it is set.
    have hlast : (kids p).getLast? ≠ some x := fun hl => by
      have hp := h.mem_kids.mp (List.mem_of_getLast? hl)
      rw [hx] at hp
      cases hp
    rw [prevSibling?_link hfit.child_lt, if_neg hxc, nextSibling?_link hfit.child_lt (h.last_lt p),
      h.last, if_neg hlast, if_neg hxc]
    exact h.alone hx

end

/-! ## 3. Appending -/

/-- The one write that is ever made is the link, and only where there is no error. -/
theorem attach_cases (t : Tree) (p c : NodeId) :
    (∃ err, t.attach p c = (t, .error err)) ∨ t.attach p c = (t.link p c, .ok ()) := by
  unfold attach
  split
  · exact .inl ⟨_, rfl⟩
  · split
    · exact .inl ⟨_, rfl⟩
    · split
      · exact .inl ⟨_, rfl⟩
      · split
        · exact .inl ⟨_, rfl⟩
        · exact .inr rfl

/-- A child that is refused leaves the tree as it was. -/
theorem attach_unchanged {err : TreeError} (h : (t.attach p c).2 = .error err) :
    (t.attach p c).1 = t := by
  obtain ⟨fault, hrefused⟩ | hdone := t.attach_cases p c
  · rw [hrefused]
  · rw [hdone] at h
    cases h

theorem size_attach (t : Tree) (p c : NodeId) : (t.attach p c).1.size = t.size := by
  obtain ⟨err, hrefused⟩ | hdone := t.attach_cases p c
  · rw [hrefused]
  · rw [hdone]
    exact size_link

theorem element?_attach (t : Tree) (p c id : NodeId) :
    (t.attach p c).1.element? id = t.element? id := by
  obtain ⟨err, hrefused⟩ | hdone := t.attach_cases p c
  · rw [hrefused]
  · rw [hdone]
    exact element?_link p c id

theorem appendChild_eq_ok : t.appendChild p c = .ok u ↔ t.attach p c = (u, .ok ()) := by
  rw [appendChild]
  obtain ⟨left, _ | _⟩ := t.attach p c <;> simp

theorem appendChild_eq_error {err : TreeError} :
    t.appendChild p c = .error err ↔ t.attach p c = (t, .error err) := by
  rw [appendChild]
  obtain ⟨fault, hrefused⟩ | hdone := t.attach_cases p c
  · simp [hrefused]
  · simp [hdone]

theorem attach_of_fits (h : t.Linked kids) (hfit : t.Fits p c) :
    t.attach p c = (t.link p c, .ok ()) := by
  obtain ⟨node, hnode⟩ := exists_get? hfit.child_lt
  have hnone : node.parent = none := by
    have := hfit.detached
    rwa [parent?, hnode] at this
  rw [attach, hnode]
  show ite _ _ _ = _
  -- None of the three checks fails.
  rw [if_neg (by rw [hnone]; simpa using hfit.not_root), if_neg (Nat.not_le.mpr hfit.parent_lt),
    if_neg (by rw [h.mem_ancestors hfit.parent_lt]; exact hfit.acyclic)]

theorem fits_of_attach (h : t.Linked kids) (hok : t.attach p c = (u, .ok ())) :
    t.Fits p c ∧ u = t.link p c := by
  rw [attach] at hok
  cases hnode : t.get? c with
  | none => rw [hnode] at hok; cases hok
  | some node =>
    rw [hnode] at hok
    simp only at hok
    split at hok
    · cases hok
    · split at hok
      · cases hok
      · split at hok
        · cases hok
        -- All three checks have passed, and they say that `c` fits.
        · rename_i hfree hp hup
          rw [not_or, Option.not_isSome_iff_eq_none] at hfree
          rw [Nat.not_le] at hp
          cases hok
          rw [h.mem_ancestors hp] at hup
          have hroot : t.parent? c = none := by rw [parent?, hnode]; exact hfree.1
          exact ⟨⟨lt_size_of_get? hnode, hroot, hfree.2, hp, hup⟩, rfl⟩

theorem fits_of_appendChild (h : t.Linked kids) (hok : t.appendChild p c = .ok u) :
    t.Fits p c ∧ u = t.link p c :=
  fits_of_attach h (appendChild_eq_ok.mp hok)

theorem fits_create (h : t.Linked kids) (e : Element) (hp : p < t.size) :
    (t.create e).1.Fits p t.size where
  child_lt := t.size_lt_create e
  detached := by rw [parent?_create, parent?, get?_size]; rfl
  not_root := fun heq => Nat.lt_irrefl _ (heq ▸ h.root_lt)
  parent_lt := lt_size_create e hp
  acyclic hup := by
    have hold : t.Above t.size p := by
      rwa [Above, funext (parent?_create e)] at hup
    exact Nat.lt_irrefl _ (h.above_lt hold hp)

/-- Whether it succeeds or fails, attaching leaves behind a tree whose links are sound. -/
theorem Linked.exists_attach (h : t.Linked kids) (p c : NodeId) :
    ∃ kids, (t.attach p c).1.Linked kids := by
  obtain ⟨err, hrefused⟩ | hdone := t.attach_cases p c
  · rw [hrefused]
    exact ⟨kids, h⟩
  · rw [hdone]
    exact ⟨_, h.link (fits_of_attach h hdone).1⟩

theorem append_attach (t : Tree) (p : NodeId) (e : Element) :
    t.append p e = (((t.create e).1.attach p t.size).1,
      ((t.create e).1.attach p t.size).2.map fun () => t.size) := rfl

/-- The tree in which a new node for `e` is the last child of `p`. -/
@[irreducible] def grow (t : Tree) (p : NodeId) (e : Element) : Tree := (t.create e).1.link p t.size

theorem append_eq (h : t.Linked kids) (e : Element) (hp : p < t.size) :
    t.append p e = (t.grow p e, .ok t.size) := by
  rw [append_attach, attach_of_fits (h.create e) (fits_create h e hp), Tree.grow]
  rfl

theorem Linked.grow (h : t.Linked kids) (e : Element) (hp : p < t.size) :
    (t.grow p e).Linked (Function.update kids p (kids p ++ [t.size])) := by
  rw [Tree.grow]
  exact (h.create e).link (fits_create h e hp)

@[simp] theorem size_grow (e : Element) : (t.grow p e).size = t.size + 1 := by
  rw [Tree.grow, size_link, size_create]

theorem size_lt_grow (t : Tree) (p : NodeId) (e : Element) : t.size < (t.grow p e).size := by
  rw [size_grow]
  exact Nat.lt_succ_self _

theorem lt_size_grow (e : Element) {id : NodeId} (h : id < t.size) : id < (t.grow p e).size :=
  Nat.lt_trans h (t.size_lt_grow p e)

theorem element?_grow (e : Element) (id : NodeId) :
    (t.grow p e).element? id = if id = t.size then some e else t.element? id := by
  rw [Tree.grow, element?_link, element?_create]

theorem parent?_grow (e : Element) (id : NodeId) :
    (t.grow p e).parent? id = if id = t.size then some p else t.parent? id := by
  rw [Tree.grow, parent?_link (t.size_lt_create e), parent?_create]

theorem lastChild?_grow (e : Element) (hp : p < t.size) (id : NodeId) :
    (t.grow p e).lastChild? id = if id = p then some t.size else t.lastChild? id := by
  rw [Tree.grow, lastChild?_link (lt_size_create e hp), lastChild?_create]

theorem children_grow (h : t.Linked kids) (e : Element) (hp : p < t.size) (id : NodeId) :
    (t.grow p e).children id = if id = p then t.children p ++ [t.size] else t.children id := by
  rw [(h.grow e hp).children_eq, h.children_eq, h.children_eq]
  by_cases hid : id = p
  · rw [if_pos hid, hid, Function.update_self]
  · rw [if_neg hid, Function.update_of_ne hid]

/-- What is changed in a new node could have been put there at once. -/
theorem grow_modify (p : NodeId) (e : Element) (f : Element → Element) :
    (t.grow p e).modify t.size f = t.grow p (f e) := by
  have hcreate : (t.create e).1.modify t.size f = (t.create (f e)).1 := by
    apply ext_get?
    intro k
    rw [modify, get?_modifyNode, get?_create, get?_create]
    by_cases hk : k = t.size
    · rw [if_pos hk, if_pos hk, if_pos hk]; rfl
    · rw [if_neg hk, if_neg hk, if_neg hk]
  -- Linking reads no element, so it may come after the change as well as before it.
  have hlink :
      ∀ u : Tree, (u.link p t.size).modify t.size f = (u.modify t.size f).link p t.size := by
    intro u
    have hlast : (u.modify t.size f).lastChild? p = u.lastChild? p :=
      congrFun (sameLinks_modify t.size f).last p
    simp only [link, hlast]
    cases u.lastChild? p
    all_goals
      rw [modify_modifyNode, modify_modifyNode, modify_modifyNode]
      all_goals exact fun _ => rfl
  rw [Tree.grow, hlink, hcreate, Tree.grow]

end AccessibleMarkdown.Tree
