import AccessibleMarkdown.Proofs.Tree.Session

/-!
# Attaching nodes

Whether a node can become a child of another is decided by four questions: is the child there, is it
free, is the parent there, and is the parent outside the subtree of the child? The first answer that
is no is the error. If all are yes, one list of children gets one node longer, and nothing else
changes.
-/

namespace AccessibleMarkdown.Tree

variable {t : Tree} {kids : NodeId → List NodeId} {parent child : NodeId}

/-! ## 1. What a new link changes -/

/-- The tree `u` is `t` with `child` as the last child of `parent`. -/
structure Attached (t : Tree) (parent child : NodeId) (u : Tree) : Prop where
  size : u.size = t.size
  /-- The child comes after the children that there were, ... -/
  children : u.children parent = t.children parent ++ [child]
  /-- ... and no other node has other children than before. -/
  children_of_ne : ∀ id, id ≠ parent → u.children id = t.children id
  parent : u.parent? child = some parent
  parent_of_ne : ∀ id, id ≠ child → u.parent? id = t.parent? id
  element : ∀ id, u.element? id = t.element? id

theorem Linked.attached_link (h : t.Linked kids) (hfit : t.Fits parent child) :
    t.Attached parent child (t.link parent child) where
  size := size_link
  children := by rw [(h.link hfit).children_eq, h.children_eq, Function.update_self]
  children_of_ne id hid := by
    rw [(h.link hfit).children_eq, h.children_eq, Function.update_of_ne hid]
  parent := by rw [parent?_link hfit.child_lt, if_pos rfl]
  parent_of_ne id hid := by rw [parent?_link hfit.child_lt, if_neg hid]
  element := element?_link parent child

/-! ## 2. What stands in the way of one -/

/-- The node is there, is not the root, and has no parent. -/
structure Free (t : Tree) (id : NodeId) : Prop where
  lt_size : id < t.size
  not_root : id ≠ rootId
  top : t.parent? id = none

theorem attach_missing (hchild : t.size ≤ child) :
    t.attach parent child = (t, .error (.notFound child)) := by
  rw [attach, get?_eq_none_iff.mpr hchild]

theorem attach_held (hchild : child < t.size)
    (hheld : child = rootId ∨ (t.parent? child).isSome) :
    t.attach parent child = (t, .error (.alreadyAttached child)) := by
  obtain ⟨node, hnode⟩ := exists_get? hchild
  rw [parent?, hnode] at hheld
  rw [attach, hnode]
  exact if_pos hheld.symm

/-- Of a free child only two questions are left. -/
theorem Free.attach_eq (hfree : t.Free child) (parent : NodeId) :
    t.attach parent child =
      if t.size ≤ parent then (t, .error (.notFound parent))
      else if child ∈ t.ancestors parent then (t, .error (.cycle parent child))
      else (t.link parent child, .ok ()) := by
  obtain ⟨node, hnode⟩ := exists_get? hfree.lt_size
  have htop : node.parent = none := by
    have htop := hfree.top
    rwa [parent?, hnode] at htop
  rw [attach, hnode]
  apply if_neg
  rw [htop]
  simpa using hfree.not_root

theorem Free.attach_missing (hfree : t.Free child) (hparent : t.size ≤ parent) :
    t.attach parent child = (t, .error (.notFound parent)) := by
  rw [hfree.attach_eq, if_pos hparent]

/-- The way up from the parent meets the child just if the parent is in the subtree of the child. -/
theorem Linked.attach_cycle (h : t.Linked kids) (hfree : t.Free child) (hparent : parent < t.size)
    (hwithin : t.Within child parent) :
    t.attach parent child = (t, .error (.cycle parent child)) := by
  have hup : child ∈ t.ancestors parent := (h.mem_ancestors hparent).mpr (h.within_iff.mp hwithin)
  rw [hfree.attach_eq, if_neg (Nat.not_le.mpr hparent), if_pos hup]

theorem Linked.fits_of_free (h : t.Linked kids) (hfree : t.Free child) (hparent : parent < t.size)
    (hwithin : ¬ t.Within child parent) : t.Fits parent child where
  child_lt := hfree.lt_size
  detached := hfree.top
  not_root := hfree.not_root
  parent_lt := hparent
  acyclic hup := hwithin (h.within_iff.mpr hup)

/-! ## 3. Making a node a child -/

/-- The node is not made a child, for the reason given, and the tree stays as it is. -/
structure Refuses (t : Tree) (parent child : NodeId) (err : TreeError) : Prop where
  attach : t.attach parent child = (t, .error err)
  appendChild : t.appendChild parent child = .error err
  step : t.step (.appendChild parent child) = t

theorem refuses_of_attach {err : TreeError} (h : t.attach parent child = (t, .error err)) :
    t.Refuses parent child err where
  attach := h
  appendChild := appendChild_eq_error.mpr h
  step := congrArg Prod.fst h

/-- What comes of making `child` a child of `parent`. -/
structure AppendChildOutcome (t : Tree) (parent child : NodeId) : Prop where
  missing_child : t.size ≤ child → t.Refuses parent child (.notFound child)
  held : child < t.size → child = rootId ∨ (t.parent? child).isSome →
    t.Refuses parent child (.alreadyAttached child)
  missing_parent : t.Free child → t.size ≤ parent → t.Refuses parent child (.notFound parent)
  cycle : t.Free child → parent < t.size → t.Within child parent →
    t.Refuses parent child (.cycle parent child)
  done : t.Free child → parent < t.size → ¬ t.Within child parent →
    ∃ u, t.attach parent child = (u, .ok ()) ∧ t.appendChild parent child = .ok u ∧
      t.Attached parent child u
  /-- Whatever the error is, it is answered before anything is written. -/
  unchanged : ∀ err, (t.attach parent child).2 = .error err → (t.attach parent child).1 = t

/-- **Attaching.** In every tree of a session, and for all nodes, whether they are there or not, a
node is made a child just if nothing speaks against it. -/
theorem appendChild_outcome (ht : t.Reachable) (parent child : NodeId) :
    t.AppendChildOutcome parent child := by
  obtain ⟨kids, h⟩ := ht.linked
  constructor
  case missing_child => exact fun hchild => refuses_of_attach (attach_missing hchild)
  case held => exact fun hchild hheld => refuses_of_attach (attach_held hchild hheld)
  case missing_parent =>
    exact fun hfree hparent => refuses_of_attach (hfree.attach_missing hparent)
  case cycle =>
    exact fun hfree hparent hwithin => refuses_of_attach (h.attach_cycle hfree hparent hwithin)
  case done =>
    intro hfree hparent hwithin
    have hfit := h.fits_of_free hfree hparent hwithin
    have hdone := attach_of_fits h hfit
    exact ⟨t.link parent child, hdone, appendChild_eq_ok.mpr hdone, h.attached_link hfit⟩
  case unchanged => exact fun _ herr => attach_unchanged herr

/-- A detached node with a child of its own cannot go below that child, but below a paragraph. -/
theorem appendChild_outcome_detached :
    let t := session { tag := .div } [.append 0 { tag := .h1 }, .append 0 { tag := .p },
      .create { tag := .div }, .append 3 { tag := .other "span" }]
    t.Reachable ∧ t.Free 3 ∧ t.Within 3 4 ∧ t.Refuses 4 3 (.cycle 4 3) ∧ ¬ t.Within 3 2 ∧
      ∃ u, t.attach 2 3 = (u, .ok ()) ∧ t.appendChild 2 3 = .ok u ∧ t.Attached 2 3 u := by
  intro t
  have ht : t.Reachable := ⟨_, _, rfl⟩
  have hfree : t.Free 3 := ⟨by decide, by decide, by decide⟩
  have hbelow : t.Within 3 4 := Relation.ReflTransGen.single (by decide)
  have hbeside : ¬ t.Within 3 2 := by
    obtain ⟨kids, h⟩ := ht.linked
    rw [h.within_iff, ← h.mem_ancestors (by decide)]
    decide
  exact ⟨ht, hfree, hbelow, (appendChild_outcome ht 4 3).cycle hfree (by decide) hbelow, hbeside,
    (appendChild_outcome ht 2 3).done hfree (by decide) hbeside⟩

/-! ## 4. Adding a new node -/

/-- A node that has just been added is free. -/
theorem Linked.free_create (h : t.Linked kids) (e : Element) : (t.create e).1.Free t.size where
  lt_size := t.size_lt_create e
  not_root := (Nat.ne_of_lt h.root_lt).symm
  top := by rw [parent?_create, parent?, get?_size]; rfl

/-- A new node that finds no place stays behind as it was made. -/
theorem append_of_refused {e : Element} {err : TreeError}
    (h : (t.create e).1.attach parent t.size = ((t.create e).1, .error err)) :
    t.append parent e = ((t.create e).1, .error err) := by
  rw [append_attach, h]
  rfl

/-- What comes of adding a node for `e` below `parent`. The node is there before the parent is
looked for, so the first place that was empty counts as a parent that is below its child. -/
structure AppendOutcome (t : Tree) (parent : NodeId) (e : Element) : Prop where
  done : parent < t.size → ∃ u, t.append parent e = (u, .ok t.size) ∧
    (t.create e).1.Attached parent t.size u
  missing : t.size < parent → t.append parent e = ((t.create e).1, .error (.notFound parent))
  next : parent = t.size → t.append parent e = ((t.create e).1, .error (.cycle parent parent))
  /-- A node that stays behind is not seen from the others. -/
  kept : t.size ≤ parent → ∀ id < t.size, (t.append parent e).1.get? id = t.get? id

theorem append_outcome (ht : t.Reachable) (parent : NodeId) (e : Element) :
    t.AppendOutcome parent e := by
  obtain ⟨kids, h⟩ := ht.linked
  have hcreate := h.create e
  have hfree := h.free_create e
  have hmissing :
      t.size < parent → t.append parent e = ((t.create e).1, .error (.notFound parent)) := by
    intro hparent
    apply append_of_refused
    apply hfree.attach_missing
    rw [size_create]
    omega
  -- The new node has taken the place, so it would go below itself.
  have hnext :
      parent = t.size → t.append parent e = ((t.create e).1, .error (.cycle parent parent)) := by
    rintro rfl
    apply append_of_refused
    exact hcreate.attach_cycle hfree hfree.lt_size .refl
  constructor
  case missing => exact hmissing
  case next => exact hnext
  case done =>
    intro hparent
    have hfit := fits_create h e hparent
    refine ⟨(t.create e).1.link parent t.size, ?_, hcreate.attached_link hfit⟩
    rw [append_attach, attach_of_fits hcreate hfit]
    rfl
  case kept =>
    intro hparent id hid
    have hleft : (t.append parent e).1 = (t.create e).1 := by
      by_cases heq : parent = t.size
      · rw [hnext heq]
      · rw [hmissing (Nat.lt_of_le_of_ne hparent (Ne.symm heq))]
    rw [hleft, get?_create, if_neg (Nat.ne_of_lt hid)]

/-- A place far behind the end, in a tree of one node. -/
theorem append_outcome_far : empty.Reachable ∧
    empty.append 4294967295 { tag := .p } =
      ((empty.create { tag := .p }).1, .error (.notFound 4294967295)) := by
  have ht : empty.Reachable := ⟨_, [], rfl⟩
  exact ⟨ht, (append_outcome ht 4294967295 { tag := .p }).missing (by decide)⟩

/-- Not every parent that is not there is reported as missing. -/
theorem append_next_not_missing : empty.Reachable ∧ empty.get? 1 = none ∧
    (empty.append 1 { tag := .p }).2 = .error (.cycle 1 1) ∧
    (empty.append 1 { tag := .p }).2 ≠ .error (.notFound 1) := by
  exact ⟨⟨_, [], rfl⟩, rfl, by decide, by decide⟩

end AccessibleMarkdown.Tree
