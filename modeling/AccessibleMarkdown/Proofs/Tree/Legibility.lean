import AccessibleMarkdown.Proofs.Element.Line
import AccessibleMarkdown.Proofs.Tree.Isomorphism
import AccessibleMarkdown.Proofs.Tree.Outline
import AccessibleMarkdown.Proofs.Tree.Session

/-!
# What an outline tells

A line is known from its element, and how deep it stands from its indentation. So a tree is known
from its outline, up to the identities of its nodes, whichever characters the quoted values show as
they are.
-/

namespace AccessibleMarkdown

open Text.Quoted (Safe quoteWith)

variable {quote : String → String} {raw : Char → Bool}

/-! ## 1. Groves -/

namespace Grove

variable {g other : Grove} {depth : Nat}

/-- The lines of a grove, the tops of which are `depth` levels deep. -/
def chars (quote : String → String) : Nat → Grove → List Char
  | _, nil => []
  | depth, node e inner rest =>
    List.replicate (2 * depth) ' ' ++
      ((e.outlineWith quote).toList ++ ['\n'] ++
        (chars quote (depth + 1) inner ++ chars quote depth rest))

/-- All elements of a grove. -/
def All (P : Element → Prop) : Grove → Prop
  | nil => True
  | node e inner rest => P e ∧ inner.All P ∧ rest.All P

/-- No line begins here that is `depth` levels deep or deeper. -/
def Shallow (depth : Nat) (s : List Char) : Prop :=
  s = [] ∨ (s.takeWhile (· = ' ')).length < 2 * depth

/-- The name of a tag comes right after the indentation of its line. -/
theorem length_takeWhile_line {e : Element} (he : e.Legible) (s : List Char) :
    ((List.replicate (2 * depth) ' ' ++ ((e.outlineWith quote).toList ++ s)).takeWhile
      (· = ' ')).length = 2 * depth := by
  obtain ⟨c, rest, hname⟩ : ∃ c rest, e.tag.name.toList = c :: rest :=
    List.exists_cons_of_ne_nil fun h => he.tag_ne_empty (String.toList_inj.mp h)
  have hc : c ≠ ' ' := (he.tag_solid c (by rw [hname]; exact List.mem_cons_self)).1
  have hblank : ∀ d ∈ List.replicate (2 * depth) ' ', decide (d = ' ') = true := fun d hd =>
    decide_eq_true (List.eq_of_mem_replicate hd)
  rw [List.takeWhile_append_of_pos hblank, Element.toList_outlineWith, hname]
  simp [hc]

theorem shallow_chars_append (hg : g.All Element.Legible) {s : List Char} (hs : Shallow depth s) :
    Shallow (depth + 1) (g.chars quote depth ++ s) := by
  cases g with
  | nil =>
    obtain rfl | hlt := hs
    · exact Or.inl rfl
    · exact Or.inr (by rw [chars, List.nil_append]; omega)
  | node e inner rest =>
    refine Or.inr ?_
    simp only [chars, List.append_assoc]
    rw [length_takeWhile_line hg.1]
    omega

theorem node_append_not_shallow {e : Element} {inner rest : Grove} (he : e.Legible)
    (s : List Char) : ¬ Shallow depth ((node e inner rest).chars quote depth ++ s) := by
  simp only [chars, List.append_assoc]
  rintro (hnil | hlt)
  · simp at hnil
  · rw [length_takeWhile_line he] at hlt
    omega

/-- **Groves are known from their lines**, and so is where these end. -/
theorem chars_append_inj (hraw : Safe raw) (hg : g.All Element.Legible)
    (hother : other.All Element.Legible) {s s' : List Char} (hs : Shallow depth s)
    (hs' : Shallow depth s')
    (heq : g.chars (quoteWith raw) depth ++ s = other.chars (quoteWith raw) depth ++ s') :
    g = other ∧ s = s' := by
  -- What is inside an element ends where a line comes that is not deeper than its own.
  induction g generalizing other depth s s' with
  | nil =>
    cases other with
    | nil => exact ⟨rfl, heq⟩
    | node e' inner' rest' =>
      rw [chars, List.nil_append] at heq
      exact absurd (heq ▸ hs) (node_append_not_shallow hother.1 s')
  | node e inner rest ihinner ihrest =>
    cases other with
    | nil =>
      rw [chars.eq_1, List.nil_append] at heq
      exact absurd (heq ▸ hs') (node_append_not_shallow hg.1 s)
    | node e' inner' rest' =>
      simp only [chars, List.append_assoc, List.append_cancel_left_eq] at heq
      have hline := Element.delimits_line hraw hg.1 hother.1
        (inner.chars (quoteWith raw) (depth + 1) ++ (rest.chars (quoteWith raw) depth ++ s))
        (inner'.chars (quoteWith raw) (depth + 1) ++ (rest'.chars (quoteWith raw) depth ++ s'))
      obtain ⟨rfl, hbelow⟩ := hline (by simpa only [List.append_assoc] using heq)
      obtain ⟨rfl, hbehind⟩ := ihinner hg.2.1 hother.2.1 (shallow_chars_append hg.2.2 hs)
        (shallow_chars_append hother.2.2 hs') hbelow
      obtain ⟨rfl, hst⟩ := ihrest hg.2.2 hother.2.2 hs hs' hbehind
      exact ⟨rfl, hst⟩

end Grove

/-! ## 2. Trees -/

namespace Tree

variable {t u : Tree} {kids kids' : NodeId → List NodeId} {ids : List NodeId}
  {g : Grove} {depth : Nat}

/-- The line of a node, `depth` levels deep, in which `quote` writes the values. -/
def lineWith (quote : String → String) (t : Tree) (id : NodeId) (depth : Nat) : String :=
  match t.element? id with
  | none => ""
  | some e => String.ofList (List.replicate (2 * depth) ' ') ++ e.outlineWith quote ++ "\n"

/-- The lines of the nodes at and below the root, in document order. -/
def outlineWith (quote : String → String) (t : Tree) : String :=
  String.join ((t.preorder rootId).map fun id => t.lineWith quote id ((t.ancestors id).length - 1))

/-- The elements at and below the root can be told from their lines. -/
def Legible (t : Tree) : Prop := ∀ id e, t.Within rootId id → t.element? id = some e → e.Legible

theorem legible_of_nodes (h : ∀ node ∈ t.nodes, node.element.Legible) : t.Legible := by
  intro id e _ he
  obtain ⟨node, hnode, rfl⟩ := Option.map_eq_some_iff.mp he
  exact h node (Array.mem_of_getElem? hnode)

theorem Holds.all {P : Element → Prop}
    (h : ∀ id e, t.Within rootId id → t.element? id = some e → P e)
    (hids : ∀ id ∈ ids, t.Within rootId id) (hg : t.Holds ids g) : g.All P := by
  induction g generalizing ids with
  | nil => trivial
  | node e inner rest ihinner ihrest =>
    cases ids with
    | nil => exact hg.elim
    | cons id ids =>
      obtain ⟨he, hinner, hrest⟩ := hg
      have hid := hids id List.mem_cons_self
      exact ⟨h id e hid he, ihinner (fun c hc => hid.tail hc) hinner,
        ihrest (fun k hk => hids k (List.mem_cons_of_mem _ hk)) hrest⟩

namespace Linked

theorem outline_eq (h : t.Linked kids) : t.outline = t.outlineWith Text.quote := by
  rw [outline, h.outlineFrom?_enough rootId 0 (Nat.le_refl _), Option.getD_some, outlineWith]
  refine congrArg String.join (List.map_congr_left fun id _ => ?_)
  rw [ancestors_top h.root_lt h.root_top, List.length_singleton, Nat.zero_add, line, lineWith]
  cases t.element? id with
  | none => rfl
  | some e => simp only [e.outline_eq]

/-- The lines at and below some nodes are those of the grove that they hold. -/
theorem chars_of_holds (h : t.Linked kids) (hdeep : ∀ id ∈ ids, (t.ancestors id).length = depth + 1)
    (hg : t.Holds ids g) :
    (ids.flatMap fun id => (t.preorder id).flatMap fun k =>
      (t.lineWith quote k ((t.ancestors k).length - 1)).toList) =
      g.chars quote depth := by
  -- On the grove, for every depth; the depth of a line is the number of nodes above it.
  induction g generalizing ids depth with
  | nil =>
    cases ids with
    | nil => rfl
    | cons id ids => exact hg.elim
  | node e inner rest ihinner ihrest =>
    cases ids with
    | nil => exact hg.elim
    | cons id ids =>
      obtain ⟨he, hinner, hrest⟩ := hg
      have hid : id < t.size := lt_size_of_element? he
      have hlen := hdeep id List.mem_cons_self
      have hchildren : ∀ c ∈ t.children id, (t.ancestors c).length = depth + 1 + 1 := by
        intro c hc
        rw [h.ancestors_parent (h.mem_children.mp hc), List.length_cons, hlen]
      have hline : (t.lineWith quote id depth).toList =
          List.replicate (2 * depth) ' ' ++ ((e.outlineWith quote).toList ++ ['\n']) := by
        simp [lineWith, he]
      rw [List.flatMap_cons, h.preorder_eq hid, List.flatMap_cons, List.flatMap_assoc,
        ihinner hchildren hinner, ihrest (fun k hk => hdeep k (List.mem_cons_of_mem _ hk)) hrest,
        hlen, Nat.add_sub_cancel, hline, Grove.chars]
      simp only [List.append_assoc]

theorem toList_outlineWith (h : t.Linked kids) (hg : t.Holds [rootId] g) :
    (t.outlineWith quote).toList = g.chars quote 0 := by
  have htop : ∀ id ∈ [rootId], (t.ancestors id).length = 0 + 1 := by
    intro id hid
    rw [List.mem_singleton.mp hid, ancestors_top h.root_lt h.root_top, List.length_singleton]
  rw [outlineWith, String.toList_join, List.flatMap_map, ← h.chars_of_holds htop hg,
    List.flatMap_singleton]

end Linked

theorem outlineWith_eq_iff (ht : t.Linked kids) (hu : u.Linked kids') (hlt : t.Legible)
    (hlu : u.Legible) (hraw : Safe raw) :
    t.outlineWith (quoteWith raw) = u.outlineWith (quoteWith raw) ↔
      ∃ rename, t.Isomorphism u rename := by
  rw [exists_isomorphism_iff ht hu]
  have hroot : ∀ t : Tree, ∀ id ∈ [rootId], t.Within rootId id := fun t id hid =>
    List.mem_singleton.mp hid ▸ Relation.ReflTransGen.refl
  constructor
  · intro heq
    obtain ⟨g, hg⟩ := ht.exists_holds_root
    obtain ⟨g', hg'⟩ := hu.exists_holds_root
    have hchars := congrArg String.toList heq
    rw [ht.toList_outlineWith hg, hu.toList_outlineWith hg'] at hchars
    obtain ⟨rfl, -⟩ :=
      Grove.chars_append_inj hraw (hg.all hlt (hroot t)) (hg'.all hlu (hroot u)) (Or.inl rfl)
        (Or.inl rfl) (congrArg (· ++ []) hchars)
    exact ⟨g, hg, hg'⟩
  · rintro ⟨g, hg, hg'⟩
    rw [← String.toList_inj, ht.toList_outlineWith hg, hu.toList_outlineWith hg']

/-- **An outline determines its tree**, up to the identities of the nodes. That holds of the
outlines of trees, and of those that show other characters as they are, as long as the quote and the
backslash are escaped. -/
theorem outline_eq_iff_isomorphic (ht : t.Reachable) (hu : u.Reachable) (hlt : t.Legible)
    (hlu : u.Legible) :
    (t.outline = u.outline ↔ ∃ rename, t.Isomorphism u rename) ∧
    ∀ raw, Safe raw →
      (t.outlineWith (quoteWith raw) = u.outlineWith (quoteWith raw) ↔
        ∃ rename, t.Isomorphism u rename) := by
  obtain ⟨kids, ht⟩ := ht.linked
  obtain ⟨kids', hu⟩ := hu.linked
  refine ⟨?_, fun raw hraw => outlineWith_eq_iff ht hu hlt hlu hraw⟩
  rw [ht.outline_eq, hu.outline_eq, funext Text.Quoted.quote_eq]
  exact outlineWith_eq_iff ht hu hlt hlu Text.Quoted.safe_printed

/-- The emphasis is made last in one session and first in the other, so it is another node, on the
same line. -/
theorem outline_eq_iff_isomorphic_other_order :
    let p : Element := { tag := .p, attrs := .ofList [("id", "a \"b\"")], text := some "" }
    let img : Element := { tag := .img, tail := some "x\n  y" }
    let em : Element := { tag := .other "em", text := some "z" }
    let t := session { tag := .div } [.append 0 p, .append 1 img, .append 0 em]
    let u :=
      session { tag := .div } [.create em, .append 0 p, .create p, .append 2 img, .appendChild 0 1]
    t.Reachable ∧ u.Reachable ∧ t.Legible ∧ u.Legible ∧ t.outline = u.outline ∧ t ≠ u ∧
      ∃ rename, t.Isomorphism u rename := by
  intro p img em t u
  have ht : t.Reachable := ⟨_, _, rfl⟩
  have hu : u.Reachable := ⟨_, _, rfl⟩
  let elements : List Element := [{ tag := .div }, p, img, em]
  have hread : ∀ e ∈ elements, ∃ name ∈ ["div", "p", "IMG", "em"], e.tag = .ofName name := by
    decide +kernel
  have hsolid :
      ∀ e ∈ elements, e.tag.name ≠ "" ∧ ' ' ∉ e.tag.name.toList ∧ '\n' ∉ e.tag.name.toList := by
    decide +kernel
  have hnames : ∀ e ∈ elements, ∀ pair ∈ e.attrs.toList,
      '=' ∉ pair.1.toList ∧ pair.1 ≠ "text" ∧ pair.1 ≠ "tail" := by decide +kernel
  have hlegible : ∀ e ∈ elements, e.Legible := by
    intro e he
    obtain ⟨name, -, hname⟩ := hread e he
    obtain ⟨hne, hblank, hbreak⟩ := hsolid e he
    exact ⟨⟨name, hname⟩, hne, hblank, hbreak, fun pair hpair => (hnames e he pair hpair).1,
      fun pair hpair => (hnames e he pair hpair).2⟩
  have htnodes : ∀ node ∈ t.nodes, node.element ∈ elements := by decide +kernel
  have hunodes : ∀ node ∈ u.nodes, node.element ∈ elements := by decide +kernel
  have hlt : t.Legible := legible_of_nodes fun node hnode => hlegible _ (htnodes node hnode)
  have hlu : u.Legible := legible_of_nodes fun node hnode => hlegible _ (hunodes node hnode)
  have heq : t.outline = u.outline := by decide +kernel
  have hne : t ≠ u := by decide +kernel
  exact ⟨ht, hu, hlt, hlu, heq, hne, (outline_eq_iff_isomorphic ht hu hlt hlu).1.mp heq⟩

end Tree

end AccessibleMarkdown
