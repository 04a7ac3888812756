import AccessibleMarkdown.Proofs.Tree.Sprouting

/-!
# What a walk dispatches

A logged visitor does what the visitor does, and also writes down each node that the walk comes to,
with its context and with the tree as it was then. If the visitor adds leaves at most, the walk
comes to an end, meets no node twice, and finds each at the place that its context tells.
-/

namespace AccessibleMarkdown

/-- What a visitor was asked: about which node, with which element and context, and in which
tree. -/
structure Dispatch where
  node : NodeId
  element : Element
  context : Context
  tree : Tree
  deriving DecidableEq, Repr

def Dispatch.stop (d : Dispatch) : NodeId × Context := (d.node, d.context)

variable {σ : Type} {v : Visitor σ}

/-! ## 1. Logs -/

namespace Visitor

/-- The visitor, with a log of what it has been asked. -/
def logged (v : Visitor σ) : Visitor (σ × List Dispatch) := fun id e cx r =>
  let after := v id e cx (r.1, r.2.1)
  ((after.1.1, after.1.2, r.2.2 ++ [⟨id, e, cx, r.1⟩]), after.2)

end Visitor

namespace Tree

theorem visit_missing {id : NodeId} {s : Tree × σ} (he : s.1.element? id = none) (fuel : Nat)
    (cx : Context) : visit v fuel id cx s = s := by
  cases fuel with
  | zero => rfl
  | succ fuel => rw [visit, he]

theorem visit_succ {id : NodeId} {e : Element} {s : Tree × σ}
    (he : s.1.element? id = some e) (fuel : Nat) (cx : Context) : visit v (fuel + 1) id cx s =
      ((v id e cx s).2.visits cx ((v id e cx s).1.1.children id)).foldl
        (fun s (id, cx) => visit v fuel id cx s) (v id e cx s).1 := by
  rw [visit, he]

/-- Without its log, the logged visitor makes the same walk. -/
theorem visit_logged (v : Visitor σ) (fuel : Nat) (id : NodeId) (cx : Context)
    (r : Tree × σ × List Dispatch) :
    ((visit v.logged fuel id cx r).1, (visit v.logged fuel id cx r).2.1) =
      visit v fuel id cx (r.1, r.2.1) := by
  induction fuel generalizing id cx r with
  | zero => rfl
  | succ fuel ih =>
    cases he : r.1.element? id with
    | none => rw [visit_missing he, visit_missing (s := (r.1, r.2.1)) he]
    | some e =>
      rw [visit_succ he, visit_succ (s := (r.1, r.2.1)) he]
      apply List.foldl_rel
        (r := fun (r : Tree × σ × List Dispatch) (s : Tree × σ) => (r.1, r.2.1) = s)
      · rfl
      · rintro stop _ r _ rfl
        exact ih stop.1 stop.2 r

/-- Whatever the visitor keeps at each node, a walk keeps. -/
theorem visit_keeps {P : Tree × σ → Prop}
    (hv : ∀ id e cx s, s.1.element? id = some e → P s → P (v id e cx s).1)
    (fuel : Nat) (id : NodeId) (cx : Context) {s : Tree × σ} (hs : P s) :
    P (visit v fuel id cx s) := by
  induction fuel generalizing id cx s with
  | zero => exact hs
  | succ fuel ih =>
    cases he : s.1.element? id with
    | none => rwa [visit_missing he]
    | some e =>
      rw [visit_succ he]
      exact List.foldlRecOn _ _ (hv id e cx s he hs) fun s hs stop _ => ih stop.1 stop.2 hs

theorem walkFrom_keeps {P : Tree × σ → Prop}
    (hv : ∀ id e cx s, s.1.element? id = some e → P s → P (v id e cx s).1) (start : NodeId)
    {t : Tree} {s : σ} (hs : P (t, s)) : P (t.walkFrom v start s) :=
  visit_keeps hv _ _ _ hs

/-- What the visitor is asked in the walk from `start`. -/
def dispatches (v : Visitor σ) (t : Tree) (start : NodeId) (s : σ) : List Dispatch :=
  (t.walkFrom v.logged start (s, [])).2.2

theorem walkFrom_logged (v : Visitor σ) (t : Tree) (start : NodeId) (s : σ) :
    t.walkFrom v.logged start (s, []) =
      ((t.walkFrom v start s).1, (t.walkFrom v start s).2, t.dispatches v start s) := by
  have hsame : ((t.walkFrom v.logged start (s, [])).1, (t.walkFrom v.logged start (s, [])).2.1) =
      t.walkFrom v start s := visit_logged v _ _ _ _
  rw [← hsame]
  rfl

end Tree

/-! ## 2. Walks that end -/

namespace Visitor

/-- The visits of the agenda, each with all those that it leads to below, come to an end, and lead
from one state to the other. -/
inductive Walks (v : Visitor σ) : List (NodeId × Context) → Tree × σ → Tree × σ → Prop
  | done {s} : v.Walks [] s s
  | missing {id cx agenda s after} (he : s.1.element? id = none) (rest : v.Walks agenda s after) :
    v.Walks ((id, cx) :: agenda) s after
  | node {id cx agenda e s between after} (he : s.1.element? id = some e)
    (below : v.Walks ((v id e cx s).2.visits cx ((v id e cx s).1.1.children id))
      (v id e cx s).1 between)
    (rest : v.Walks agenda between after) : v.Walks ((id, cx) :: agenda) s after

theorem Walks.unique {agenda : List (NodeId × Context)} {s a b : Tree × σ} (ha : v.Walks agenda s a)
    (hb : v.Walks agenda s b) : a = b := by
  induction ha generalizing b with
  | done =>
    cases hb
    rfl
  | missing he _ ih =>
    cases hb with
    | missing _ hrest => exact ih hrest
    | node he' => rw [he] at he'; cases he'
  | node he _ _ ihbelow ihrest =>
    cases hb with
    | missing he' => rw [he] at he'; cases he'
    | node he' hbelow hrest =>
      rw [he] at he'
      cases he'
      rw [← ihbelow hbelow] at hrest
      exact ihrest hrest

theorem Walks.cons {stop : NodeId × Context} {agenda : List (NodeId × Context)}
    {s between after : Tree × σ} (h : v.Walks [stop] s between)
    (hrest : v.Walks agenda between after) : v.Walks (stop :: agenda) s after := by
  cases h with
  | missing he hdone =>
    cases hdone
    exact .missing he hrest
  | node he hbelow hdone =>
    cases hdone
    exact .node he hbelow hrest

end Visitor

/-! ## 3. Visitors that add leaves -/

/-- A visit below a node is to one of its children, in the context of its place. -/
theorem Descent.mem_visits {d : Descent} {cx : Context} {ids : List NodeId}
    {stop : NodeId × Context} (h : stop ∈ d.visits cx ids) :
    ∃ k, ids[k]? = some stop.1 ∧ stop.2.path = cx.path.child k ∧
      stop.2.rowIndex = if d = .rows then some (k + 1) else none := by
  cases d with
  | stop => cases h
  | children =>
    obtain ⟨⟨id, k⟩, hid, rfl⟩ := List.mem_map.mp h
    exact ⟨k, List.mem_zipIdx_iff_getElem?.mp hid, rfl, rfl⟩
  | rows =>
    obtain ⟨⟨id, k⟩, hid, rfl⟩ := List.mem_map.mp h
    exact ⟨k, List.mem_zipIdx_iff_getElem?.mp hid, rfl, rfl⟩
  | first =>
    cases ids with
    | nil => cases h
    | cons id ids =>
      rw [List.mem_singleton.mp h]
      exact ⟨0, rfl, rfl, rfl⟩

namespace Visitor

variable {t : Tree} {below : Tag → Descent} {kids : NodeId → List NodeId}

/-- The visitor adds leaves at most, and the tag of a node says how it goes on. -/
structure Sprouts (v : Visitor σ) (below : Tag → Descent) : Prop where
  tree : ∀ {t : Tree} {id e} {s : Tree × σ}, s.1.element? id = some e → t.Sprouted s.1 →
    ∀ cx, t.Sprouted (v id e cx s).1.1
  descent : ∀ {id e} {s : Tree × σ}, s.1.element? id = some e → ∀ cx, (v id e cx s).2 = below e.tag

theorem Steered.sprouts (hv : v.Steered below) : v.Sprouts below where
  tree he hs cx := hs.sameShape (hv.shape he cx)
  descent he cx := hv.descent he cx

namespace Sprouts

theorem logged (hv : v.Sprouts below) : v.logged.Sprouts below where
  tree {_ _ _} r he hr cx := hv.tree (s := (r.1, r.2.1)) he hr cx
  descent {_ _} r he cx := hv.descent (s := (r.1, r.2.1)) he cx

theorem visit (hv : v.Sprouts below) (fuel : Nat) (id : NodeId) (cx : Context) {s : Tree × σ}
    (hs : t.Sprouted s.1) : t.Sprouted (Tree.visit v fuel id cx s).1 :=
  Tree.visit_keeps (P := fun s => t.Sprouted s.1)
    (fun _ _ cx _ he hs => hv.tree he hs cx) fuel id cx hs

theorem walkFrom (hv : v.Sprouts below) (ht : t.Linked kids) (start : NodeId) (s : σ) :
    t.Sprouted (t.walkFrom v start s).1 :=
  hv.visit _ _ _ ht.sprouted

theorem foldl_visit (hv : v.Sprouts below) (fuel : Nat) (visits : List (NodeId × Context))
    {s : Tree × σ} (hs : t.Sprouted s.1) :
    t.Sprouted (visits.foldl (fun s (id, cx) => Tree.visit v fuel id cx s) s).1 :=
  List.foldlRecOn (motive := fun s : Tree × σ => t.Sprouted s.1) _ _ hs fun _ hs stop _ =>
    hv.visit fuel stop.1 stop.2 hs

/-- One level more than an old node has below it is enough there, and one level is enough for a new
node. -/
theorem walks_visit (hv : v.Sprouts below) (ht : t.Linked kids) {fuel : Nat} {id : NodeId}
    (hfuel : 0 < fuel) (hdeep : id < t.size → t.size + 1 < fuel + (t.ancestors id).length)
    (cx : Context) {s : Tree × σ} (hs : t.Sprouted s.1) :
    v.Walks [(id, cx)] s (Tree.visit v fuel id cx s) := by
  induction fuel generalizing id cx s with
  | zero => exact absurd hfuel (Nat.lt_irrefl 0)
  | succ fuel ih =>
    cases he : s.1.element? id with
    | none =>
      rw [Tree.visit_missing he]
      exact .missing he .done
    | some e =>
      have hfold : ∀ (visits : List (NodeId × Context)) {s : Tree × σ}, t.Sprouted s.1 →
          (∀ stop ∈ visits,
            0 < fuel ∧ (stop.1 < t.size → t.size + 1 < fuel + (t.ancestors stop.1).length)) →
          v.Walks visits s (visits.foldl (fun s (id, cx) => Tree.visit v fuel id cx s) s) := by
        intro visits
        induction visits with
        | nil => exact fun _ _ => .done
        | cons stop visits ihvisits =>
          intro s hs hvisits
          obtain ⟨hpos, hstop⟩ := hvisits stop List.mem_cons_self
          apply (ih hpos hstop stop.2 hs).cons
          exact ihvisits (hv.visit fuel _ _ hs) fun x hx => hvisits x (List.mem_cons_of_mem _ hx)
      have hafter := hv.tree he hs cx
      rw [Tree.visit_succ he]
      refine .node he (hfold _ hafter fun stop hstop => ?_) .done
      obtain ⟨kids', hlinked⟩ := hafter.linked
      obtain ⟨k, hk, -, -⟩ := Descent.mem_visits hstop
      have hparent := hlinked.mem_children.mp (List.mem_of_getElem? hk)
      -- A node with a child is old, and an old child has one node more above it.
      have hid := hafter.parent_lt hparent
      have hlen := ht.length_ancestors_le id
      have hmore := hdeep hid
      refine ⟨by omega, fun hold => ?_⟩
      rw [hafter.parent stop.1 hold] at hparent
      rw [ht.ancestors_parent hparent, List.length_cons]
      omega

theorem walks_iff (hv : v.Sprouts below) (ht : t.Linked kids) (start : NodeId) (s : σ)
    (after : Tree × σ) :
    v.Walks [(start, .ofPath (t.path start))] (t, s) after ↔ after = t.walkFrom v start s := by
  have hdeep : start < t.size → t.size + 1 < t.walkDepth + (t.ancestors start).length := by
    intro hstart
    have hpos := ht.length_ancestors_pos hstart
    rw [Tree.walkDepth]
    omega
  have hend :=
    hv.walks_visit ht (Nat.succ_pos t.size) hdeep (.ofPath (t.path start)) (s := (t, s)) ht.sprouted
  constructor
  · exact fun hafter => hafter.unique hend
  · rintro rfl
    exact hend

/-- **Ends.** The walk has just one end. It is the state that the walk leads to, with the log of
what has been dispatched. -/
theorem walks_logged_iff (hv : v.Sprouts below) (ht : t.Linked kids) (start : NodeId) (s : σ)
    (after : Tree × σ × List Dispatch) :
    v.logged.Walks [(start, .ofPath (t.path start))] (t, s, []) after ↔
      after = ((t.walkFrom v start s).1, (t.walkFrom v start s).2, t.dispatches v start s) := by
  rw [hv.logged.walks_iff ht, Tree.walkFrom_logged]

end Sprouts

end Visitor

/-! ## 4. Accounts -/

namespace Tree

variable {t u : Tree} {below : Tag → Descent} {kids : NodeId → List NodeId}
  {agenda : List (NodeId × Context)} {log : List Dispatch} {p : NodeId}

/-- What the log of the visits of an agenda, and of those that they lead to, says about the tree
that is left in the end. -/
structure Accounts (u : Tree) (below : Tag → Descent) (agenda : List (NodeId × Context))
    (log : List Dispatch) : Prop where
  above : ∀ d ∈ log, d.node < u.size ∧ ∃ stop ∈ agenda, u.Above stop.1 d.node
  once : (log.map Dispatch.node).Nodup
  path : ∀ d ∈ log, d.context.path = u.path d.node
  /-- A visit is on the agenda, or comes from the visit to the parent. -/
  origin : ∀ d ∈ log, d.stop ∈ agenda ∨ ∃ source ∈ log, ∃ k,
    (u.children source.node)[k]? = some d.node ∧
    d.context.rowIndex = if below source.element.tag = .rows then some (k + 1) else none

namespace Accounts

theorem nil : u.Accounts below agenda [] := ⟨nofun, List.nodup_nil, nofun, nofun⟩

/-- Leaves that are added later change nothing. -/
theorem sprouted (h : t.Accounts below agenda log) (ht : t.Linked kids) (hu : t.Sprouted u) :
    u.Accounts below agenda log := by
  constructor
  case above =>
    intro d hd
    obtain ⟨hlt, stop, hstop, habove⟩ := h.above d hd
    exact ⟨Nat.lt_of_lt_of_le hlt hu.size_le, stop, hstop, (hu.above_iff ht hlt).mpr habove⟩
  case once => exact h.once
  case path =>
    intro d hd
    rw [h.path d hd, hu.path ht (h.above d hd).1]
  case origin =>
    intro d hd
    obtain hstop | ⟨source, hsource, k, hk, hrow⟩ := h.origin d hd
    · exact .inl hstop
    · exact .inr ⟨source, hsource, k, (hu.getElem?_children ht (h.above d hd).1).mpr hk, hrow⟩

/-- The visits to one child, and then to the other children. -/
theorem append {stop : NodeId × Context} {more : List Dispatch} (h : u.Accounts below [stop] log)
    (hmore : u.Accounts below agenda more) (hu : u.Linked kids)
    (hparent : ∀ x ∈ stop :: agenda, u.parent? x.1 = some p)
    (hnodup : ((stop :: agenda).map Prod.fst).Nodup) :
    u.Accounts below (stop :: agenda) (log ++ more) := by
  constructor
  case above =>
    intro d hd
    obtain hd | hd := List.mem_append.mp hd
    · obtain ⟨hlt, x, hx, habove⟩ := h.above d hd
      exact ⟨hlt, x, List.mem_cons.mpr (.inl (List.mem_singleton.mp hx)), habove⟩
    · obtain ⟨hlt, x, hx, habove⟩ := hmore.above d hd
      exact ⟨hlt, x, List.mem_cons_of_mem _ hx, habove⟩
  case once =>
    rw [List.map_append, List.nodup_append']
    refine ⟨h.once, hmore.once, ?_⟩
    -- What is below one child is not below another.
    intro id hid hid'
    obtain ⟨d, hd, rfl⟩ := List.mem_map.mp hid
    obtain ⟨d', hd', heq⟩ := List.mem_map.mp hid'
    obtain ⟨-, x, hx, habove⟩ := h.above d hd
    obtain ⟨-, y, hy, habove'⟩ := hmore.above d' hd'
    rw [List.mem_singleton.mp hx] at habove
    rw [heq] at habove'
    have hsame :=
      hu.disjoint_below (hparent stop List.mem_cons_self) (hparent y (List.mem_cons_of_mem _ hy))
        habove habove'
    rw [List.map_cons, List.nodup_cons] at hnodup
    apply hnodup.1
    rw [hsame]
    exact List.mem_map_of_mem hy
  case path =>
    intro d hd
    obtain hd | hd := List.mem_append.mp hd
    · exact h.path d hd
    · exact hmore.path d hd
  case origin =>
    intro d hd
    obtain hd | hd := List.mem_append.mp hd
    · obtain hstop | ⟨source, hsource, hk⟩ := h.origin d hd
      · exact .inl (List.mem_cons.mpr (.inl (List.mem_singleton.mp hstop)))
      · exact .inr ⟨source, List.mem_append_left _ hsource, hk⟩
    · obtain hstop | ⟨source, hsource, hk⟩ := hmore.origin d hd
      · exact .inl (List.mem_cons_of_mem _ hstop)
      · exact .inr ⟨source, List.mem_append_right _ hsource, hk⟩

/-- The visit to a node, and then those to its children, as they were in the tree `t`. -/
theorem cons {d : Dispatch} (ht : t.Linked kids) (hu : t.Sprouted u) (hd : d.node < u.size)
    (hpath : d.context.path = u.path d.node)
    (h : u.Accounts below ((below d.element.tag).visits d.context (t.children d.node)) log) :
    u.Accounts below [d.stop] (d :: log) := by
  obtain ⟨_, hlinked⟩ := hu.linked
  have hplace : ∀ x ∈ (below d.element.tag).visits d.context (t.children d.node), ∃ k,
      (u.children d.node)[k]? = some x.1 ∧
        x.2.rowIndex = if below d.element.tag = .rows then some (k + 1) else none := by
    intro x hx
    obtain ⟨k, hk, -, hrow⟩ := Descent.mem_visits hx
    have hlt := lt_size_of_parent? (ht.mem_children.mp (List.mem_of_getElem? hk))
    exact ⟨k, (hu.getElem?_children ht hlt).mpr hk, hrow⟩
  have hparent : ∀ x ∈ (below d.element.tag).visits d.context (t.children d.node),
      u.parent? x.1 = some d.node := by
    intro x hx
    obtain ⟨k, hk, -⟩ := hplace x hx
    exact hlinked.mem_children.mp (List.mem_of_getElem? hk)
  constructor
  case above =>
    refine List.forall_mem_cons.mpr
      ⟨⟨hd, d.stop, List.mem_singleton_self _, .refl _⟩, fun x hx => ?_⟩
    obtain ⟨hlt, stop, hstop, habove⟩ := h.above x hx
    exact ⟨hlt, d.stop, List.mem_singleton_self _,
      (Above.of_parent (hparent stop hstop)).trans habove⟩
  case once =>
    -- If the node came again below one of its children, this child would be above its own parent.
    rw [List.map_cons, List.nodup_cons]
    refine ⟨fun hmem => ?_, h.once⟩
    obtain ⟨x, hx, heq⟩ := List.mem_map.mp hmem
    obtain ⟨-, stop, hstop, habove⟩ := h.above x hx
    exact hlinked.not_above_parent (hparent stop hstop) (heq ▸ habove)
  case path => exact List.forall_mem_cons.mpr ⟨hpath, h.path⟩
  case origin =>
    refine List.forall_mem_cons.mpr ⟨.inl (List.mem_singleton_self _), fun x hx => .inr ?_⟩
    obtain hstop | ⟨source, hsource, hk⟩ := h.origin x hx
    · obtain ⟨k, hk, hrow⟩ := hplace x.stop hstop
      exact ⟨d, List.mem_cons_self, k, hk, hrow⟩
    · exact ⟨source, List.mem_cons_of_mem _ hsource, hk⟩

/-- In a walk that starts without a row number, a visit has one if it comes from a node with
rows. -/
theorem rowIndex_iff {start : NodeId} {path : Path} {d : Dispatch} {row : Nat}
    (h : u.Accounts below [(start, .ofPath path)] log) (hu : u.Linked kids) (hd : d ∈ log) :
    d.context.rowIndex = some row ↔ ∃ source ∈ log, below source.element.tag = .rows ∧
      ∃ k, row = k + 1 ∧ (u.children source.node)[k]? = some d.node := by
  constructor
  · intro hrow
    obtain hstop | ⟨source, hsource, k, hk, hindex⟩ := h.origin d hd
    · have hcontext : d.context = .ofPath path := congrArg Prod.snd (List.mem_singleton.mp hstop)
      rw [hcontext] at hrow
      cases hrow
    · rw [hindex] at hrow
      split at hrow
      · rename_i hrows
        exact ⟨source, hsource, hrows, k, (Option.some.inj hrow).symm, hk⟩
      · cases hrow
  · rintro ⟨source, hsource, hrows, k, rfl, hk⟩
    have hparent := hu.mem_children.mp (List.mem_of_getElem? hk)
    obtain hstop | ⟨source', hsource', k', hk', hindex⟩ := h.origin d hd
    -- The start is below no node that is met.
    · obtain ⟨-, stop, hmem, habove⟩ := h.above source hsource
      have hnode : d.node = start := congrArg Prod.fst (List.mem_singleton.mp hstop)
      rw [List.mem_singleton.mp hmem] at habove
      rw [hnode] at hparent
      exact absurd habove (hu.not_above_parent hparent)
    -- There is one visit to the parent, and one place among its children.
    · have hparent' := hu.mem_children.mp (List.mem_of_getElem? hk')
      have hnode : source'.node = source.node := Option.some.inj (hparent'.symm.trans hparent)
      obtain rfl : source' = source := List.inj_on_of_nodup_map h.once hsource' hsource hnode
      have hlt := (List.getElem?_eq_some_iff.mp hk).1
      have hplace := (List.getElem?_inj hlt (hu.nodup_children _)).mp (hk.trans hk'.symm)
      rw [hindex, if_pos hrows, hplace]

end Accounts

end Tree

namespace Visitor

/-- From one state to the other, the log has grown by the account of an agenda. -/
def Accounted (below : Tag → Descent) (agenda : List (NodeId × Context))
    (r r' : Tree × σ × List Dispatch) : Prop :=
  ∃ log, r'.2.2 = r.2.2 ++ log ∧ r'.1.Accounts below agenda log

namespace Sprouts

variable {below : Tag → Descent} {kids : NodeId → List NodeId} {fuel : Nat}
  {p id : NodeId} {e : Element} {cx : Context} {r : Tree × σ × List Dispatch}

/-- What is visited below a node are children at their places. -/
theorem mem_visits (hv : v.Sprouts below) {s : Tree × σ} (he : s.1.element? id = some e)
    (hs : s.1.Linked kids) (hpath : cx.path = s.1.path id) :
    ∀ x ∈ (v id e cx s).2.visits cx ((v id e cx s).1.1.children id),
      (v id e cx s).1.1.parent? x.1 = some id ∧ x.2.path = (v id e cx s).1.1.path x.1 := by
  intro x hx
  have hafter := hv.tree he hs.sprouted cx
  obtain ⟨_, hlinked⟩ := hafter.linked
  obtain ⟨k, hk, hxpath, -⟩ := Descent.mem_visits hx
  rw [hlinked.path_of_getElem? hk, hafter.path hs (Tree.lt_size_of_element? he), ← hpath]
  exact ⟨hlinked.mem_children.mp (List.mem_of_getElem? hk), hxpath⟩

/-- Children are visited one after the other, each in the tree that is left by those before it. -/
theorem accounted_foldl (hv : v.Sprouts below)
    (hvisit : ∀ id cx {r : Tree × σ × List Dispatch} {kids}, r.1.Linked kids →
      cx.path = r.1.path id →
      Accounted below [(id, cx)] r (Tree.visit v.logged fuel id cx r))
    (visits : List (NodeId × Context)) (hr : r.1.Linked kids)
    (hvisits : ∀ x ∈ visits, r.1.parent? x.1 = some p ∧ x.2.path = r.1.path x.1)
    (hnodup : (visits.map Prod.fst).Nodup) :
    Accounted below visits r
      (visits.foldl (fun r (id, cx) => Tree.visit v.logged fuel id cx r) r) := by
  induction visits generalizing r kids with
  | nil => exact ⟨[], (List.append_nil _).symm, .nil⟩
  | cons stop visits ih =>
    have hfirst := hv.logged.visit fuel stop.1 stop.2 hr.sprouted
    have hall := hv.logged.foldl_visit fuel (stop :: visits) hr.sprouted
    obtain ⟨_, hlinked⟩ := hfirst.linked
    obtain ⟨_, hend⟩ := hall.linked
    have hmore := hv.logged.foldl_visit fuel visits hlinked.sprouted
    have hold : ∀ x ∈ stop :: visits, x.1 < r.1.size :=
      fun x hx => Tree.lt_size_of_parent? (hvisits x hx).1
    have hparent : ∀ x ∈ stop :: visits,
        ((stop :: visits).foldl (fun r (id, cx) => Tree.visit v.logged fuel id cx r) r).1.parent?
          x.1 = some p :=
      fun x hx => (hall.parent x.1 (hold x hx)).trans (hvisits x hx).1
    -- The first visit leaves the others where they are: old nodes keep their parents and their
    -- places.
    have hlater : ∀ x ∈ visits, (Tree.visit v.logged fuel stop.1 stop.2 r).1.parent? x.1 = some p ∧
        x.2.path = (Tree.visit v.logged fuel stop.1 stop.2 r).1.path x.1 := by
      intro x hx
      have hx := List.mem_cons_of_mem stop hx
      rw [hfirst.parent x.1 (hold x hx), hfirst.path hr (hold x hx)]
      exact hvisits x hx
    obtain ⟨log, hlog, hstop⟩ := hvisit stop.1 stop.2 hr (hvisits stop List.mem_cons_self).2
    obtain ⟨more, hmorelog, hrest⟩ := ih hlinked hlater (List.nodup_cons.mp hnodup).2
    refine ⟨log ++ more, ?_, ?_⟩
    · rw [List.foldl_cons, hmorelog, hlog, List.append_assoc]
    · exact (hstop.sprouted hlinked hmore).append hrest hend hparent hnodup

/-- **Accounts.** A visit at the right place leaves a log that fits. -/
theorem accounted_visit (hv : v.Sprouts below) (fuel : Nat) (id : NodeId) (cx : Context)
    (hr : r.1.Linked kids) (hpath : cx.path = r.1.path id) :
    Accounted below [(id, cx)] r (Tree.visit v.logged fuel id cx r) := by
  induction fuel generalizing id cx r kids with
  | zero => exact ⟨[], (List.append_nil _).symm, .nil⟩
  | succ fuel ih =>
    cases he : r.1.element? id with
    | none =>
      rw [Tree.visit_missing he]
      exact ⟨[], (List.append_nil _).symm, .nil⟩
    | some e =>
      have hid := Tree.lt_size_of_element? he
      have hdescent : (v.logged id e cx r).2 = below e.tag := hv.logged.descent he cx
      have hafter := hv.logged.tree he hr.sprouted cx
      -- The children are those after the visitor has acted, and the log is about the tree at the
      -- end.
      have hvisits := hv.logged.mem_visits he hr hpath
      obtain ⟨_, hlinked⟩ := hafter.linked
      rw [Tree.visit_succ he]
      rw [hdescent] at hvisits ⊢
      have hnodup :
          (((below e.tag).visits cx ((v.logged id e cx r).1.1.children id)).map
            Prod.fst).Nodup := by
        rw [Tree.map_fst_visits]
        exact (Descent.nexts_sublist _ _).nodup (hlinked.nodup_children id)
      obtain ⟨log, hlog, hbelow⟩ :=
        hv.accounted_foldl (fun id cx _ _ => ih id cx) _ hlinked hvisits hnodup
      have hall := hv.logged.foldl_visit fuel
        ((below e.tag).visits cx ((v.logged id e cx r).1.1.children id)) hafter
      have hmore := hv.logged.foldl_visit fuel
        ((below e.tag).visits cx ((v.logged id e cx r).1.1.children id)) hlinked.sprouted
      refine ⟨⟨id, e, cx, r.1⟩ :: log, ?_, ?_⟩
      · rw [hlog]
        exact List.append_assoc _ _ _
      · have hplace := hpath.trans (hall.path hr hid).symm
        exact .cons (d := ⟨id, e, cx, r.1⟩) hlinked hmore
          (Nat.lt_of_lt_of_le hid hall.size_le) hplace hbelow

/-- The log of a walk fits. -/
theorem accounts_dispatches (hv : v.Sprouts below) {t : Tree} (ht : t.Linked kids)
    (start : NodeId) (s : σ) :
    (t.walkFrom v start s).1.Accounts below [(start, .ofPath (t.path start))]
    (t.dispatches v start s) := by
  obtain ⟨log, hlog, haccounts⟩ :=
    hv.accounted_visit (r := (t, s, [])) t.walkDepth start (.ofPath (t.path start)) ht rfl
  have hwalk : (t.walkFrom v.logged start (s, [])).2.2 = log := hlog
  change (t.walkFrom v.logged start (s, [])).1.Accounts _ _ log at haccounts
  rw [Tree.walkFrom_logged] at hwalk haccounts
  rwa [← hwalk] at haccounts

/-- Each dispatch is about a node of its tree, and the tree only sprouts after it. -/
theorem sprouted_dispatches (hv : v.Sprouts below) {t : Tree} (ht : t.Linked kids)
    (start : NodeId) (s : σ) :
    ∀ d ∈ t.dispatches v start s, d.tree.element? d.node = some d.element ∧ t.Sprouted d.tree ∧
      d.tree.Sprouted (t.walkFrom v start s).1 := by
  have hkeep := Tree.walkFrom_keeps (v := v.logged) (P := fun r => t.Sprouted r.1 ∧ ∀ d ∈ r.2.2,
    d.tree.element? d.node = some d.element ∧ t.Sprouted d.tree ∧ d.tree.Sprouted r.1) ?_ start
    (t := t) (s := (s, [])) ⟨ht.sprouted, nofun⟩
  · rw [Tree.walkFrom_logged] at hkeep
    exact hkeep.2
  · rintro id e cx r he ⟨hr, hlog⟩
    refine ⟨hv.logged.tree he hr cx, fun d hd => ?_⟩
    obtain hd | hd := List.mem_append.mp hd
    · obtain ⟨hnode, htree, hnow⟩ := hlog d hd
      exact ⟨hnode, htree, hv.logged.tree he hnow cx⟩
    · obtain ⟨_, hlinked⟩ := hr.linked
      rw [List.mem_singleton.mp hd]
      exact ⟨he, hr, hv.logged.tree he hlinked.sprouted cx⟩

end Sprouts

end Visitor

end AccessibleMarkdown
