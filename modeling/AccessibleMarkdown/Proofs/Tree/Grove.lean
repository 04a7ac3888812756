import AccessibleMarkdown.Tree.Basic

/-!
# Trees as values

A grove is a list of trees written down as one value: no identities, no links, only elements inside
each other. `t.Holds ids g` says that the nodes `ids` of an arena are the tops of such trees.
-/

namespace AccessibleMarkdown

/-- A list of trees: none, or an element with the trees inside it and the trees after it. -/
inductive Grove
  | nil
  | node (e : Element) (inner rest : Grove)
  deriving DecidableEq, Repr

def Grove.size : Grove → Nat
  | nil => 0
  | node _ inner rest => inner.size + rest.size + 1

/-- The grove of trees that are given one by one, each as its element and what is inside it. -/
def Grove.ofList : List (Element × Grove) → Grove
  | [] => nil
  | (e, inner) :: rest => node e inner (ofList rest)

namespace Tree

/-- The nodes are the tops of the trees of the grove, with the same elements all the way down. -/
def Holds (t : Tree) : List NodeId → Grove → Prop
  | [], .nil => True
  | [], .node _ _ _ => False
  | _ :: _, .nil => False
  | id :: ids, .node e inner rest =>
    t.element? id = some e ∧ t.Holds (t.children id) inner ∧ t.Holds ids rest

/-- What a grove sees of a tree: the elements and children of a set of nodes closed under
children. -/
theorem Holds.congr {t u : Tree} {P : NodeId → Prop}
    (helement : ∀ id, P id → u.element? id = t.element? id)
    (hchildren : ∀ id, P id → u.children id = t.children id)
    (hclosed : ∀ id, P id → ∀ c ∈ t.children id, P c) {ids : List NodeId} {g : Grove}
    (hids : ∀ id ∈ ids, P id) (h : t.Holds ids g) : u.Holds ids g := by
  induction g generalizing ids with
  | nil =>
    cases ids with
    | nil => trivial
    | cons id ids => exact h
  | node e inner rest ihinner ihrest =>
    cases ids with
    | nil => exact h
    | cons id ids =>
      obtain ⟨he, hinner, hrest⟩ := h
      have hid := hids id List.mem_cons_self
      refine ⟨(helement id hid).trans he, ?_,
        ihrest (fun k hk => hids k (List.mem_cons_of_mem _ hk)) hrest⟩
      rw [hchildren id hid]
      exact ihinner (hclosed id hid) hinner

end Tree

end AccessibleMarkdown
