import AccessibleMarkdown.Proofs.Audit.Independence
import AccessibleMarkdown.Proofs.Tree.Coordinates
import Mathlib.Data.List.Flatten

/-!
# Findings point at what they are about

A finding carries the path of a node. Followed from the root of the finished tree, the path leads to
the node that the finding is about: an image, a heading or the root itself. The same is not said
twice about a node.
-/

namespace AccessibleMarkdown.Audit

variable {t : Tree} {kids : NodeId → List NodeId} {passes : List Pass} {pass : Pass} {probe : Probe}
  {id : NodeId} {e : Element} {rule : String} {d : Diagnostic}

/-! ## 1. What a finding is about -/

/-- A rule and a message that suit a node with a tag and a source. -/
inductive Suits (probe : Probe) (id : NodeId) (tag : Tag) (src : String) : String → String → Prop
  | altMissing (himg : tag = .img) : Suits probe id tag src "alt-missing"
      ("Found an image with no alt text for " ++ src)
  | altEmpty (himg : tag = .img) : Suits probe id tag src "alt-empty"
      ("Found an image with empty alt text for " ++ src)
  | altDuplicate (himg : tag = .img) (alt : String) : Suits probe id tag src "alt-duplicate"
      ("Found an image with duplicate alt text(" ++ alt ++ ") for " ++ src)
  | title (hroot : id = Tree.rootId) : Suits probe id tag src "title-missing" "No title found"
  | role (htitle : tag = .h1) (role : LandmarkRole) : Suits probe id tag src "aria-role-set"
      ("Setting role to " ++ role.name)
  | noSource (himg : tag = .img) (hsrc : src = "") : Suits probe id tag src "contrast-no-src"
      "Found an image with no src attribute"
  | estimate (himg : tag = .img) {spread : Float} (hprobe : probe src = .ok spread) :
      Suits probe id tag src "contrast-estimate"
        ("Estimated contrast of the image(" ++ src ++ ") is " ++ Decimal.twoPlaces spread.toBits)
  | imageMissing (himg : tag = .img) {path : String}
      (hprobe : probe src = .error (.notFound path)) :
      Suits probe id tag src "contrast-image-missing" ("No image found. Check the path for " ++ src)
  | unreadable (himg : tag = .img) {err : ProbeError} (hprobe : probe src = .error err) :
      Suits probe id tag src "contrast-image-unreadable"
        ("Image " ++ src ++ " could not be read: " ++ err.message)

/-- The path of a finding leads from the root to a node that suits it. -/
def Points (probe : Probe) (t : Tree) (d : Diagnostic) : Prop :=
  ∃ id e, t.follow? Tree.rootId d.path = some id ∧ t.element? id = some e ∧
    Suits probe id e.tag (srcOf e) d.rule d.message

/-- Paintings keep the tags and sources that a finding is about. -/
theorem points_repaint {f : NodeId → Element → Element} (htag : ∀ id e, (f id e).tag = e.tag)
    (hsrc : ∀ id e, (f id e).get? "src" = e.get? "src") :
    Points probe (t.repaint f) d ↔ Points probe t d := by
  have hsuits :
      ∀ id e, Suits probe id (f id e).tag (srcOf (f id e)) = Suits probe id e.tag (srcOf e) := by
    intro id e
    rw [htag, srcOf, hsrc, srcOf]
  simp only [Points, (t.sameShape_repaint htag).links.follow?, Tree.element?_repaint,
    Option.map_eq_some_iff]
  constructor
  · rintro ⟨id, e', hpath, ⟨e, he, rfl⟩, h⟩
    exact ⟨id, e, hpath, he, hsuits id e ▸ h⟩
  · rintro ⟨id, e, hpath, he, h⟩
    exact ⟨id, f id e, hpath, ⟨e, he, rfl⟩, (hsuits id e).symm ▸ h⟩

theorem get?_src_paint (pass : Pass) (scope : NodeId) (t : Tree) (id : NodeId) (e : Element) :
    (pass.paint scope t id e).get? "src" = e.get? "src" := by
  apply Pass.get?_paint
  cases pass <;> decide

theorem get?_src_paintAll (passes : List Pass) (scope : NodeId) (t : Tree) (id : NodeId)
    (e : Element) : (paintAll passes scope t id e).get? "src" = e.get? "src" := by
  induction passes generalizing e with
  | nil => rfl
  | cons pass passes ih => exact (ih _).trans (get?_src_paint pass scope t id e)

/-! ## 2. Notes about a node -/

/-- The rules of findings about an alternative text that is missing or empty. -/
def faultRules : List String := ["alt-missing", "alt-empty"]

theorem suits_altNotes (probe : Probe) {cx : Context} (hd : d ∈ altNotes id cx e) :
    d.path = cx.path ∧ Suits probe id e.tag (srcOf e) d.rule d.message ∧ d.rule ∈ faultRules := by
  unfold altNotes altFault? at hd
  split at hd
  · rename_i himg
    split at hd
    · rename_i hfault
      rw [List.mem_singleton.mp hd]
      split at hfault
      · cases hfault
        exact ⟨rfl, .altMissing himg, List.mem_cons_self⟩
      · cases hfault
        exact ⟨rfl, .altEmpty himg, List.mem_cons_of_mem _ List.mem_cons_self⟩
      · cases hfault
    · cases hd
  · cases hd

theorem suits_roleNotes {cx : Context} (hd : d ∈ roleNotes id cx e) :
    d.path = cx.path ∧ Suits probe id e.tag (srcOf e) d.rule d.message ∧
    d.rule = "aria-role-set" := by
  unfold roleNotes askedRole? at hd
  split at hd
  · rename_i role hasked
    split at hasked
    · rename_i htitle
      rw [List.mem_singleton.mp hd]
      exact ⟨rfl, .role htitle role, rfl⟩
    · cases hasked
  · cases hd

theorem suits_contrastVerdict (probe : Probe) (id : NodeId) (himg : e.tag = .img) :
    Suits probe id e.tag (srcOf e) (contrastVerdict probe (e.get? "src")).1
      (contrastVerdict probe (e.get? "src")).2 := by
  unfold contrastVerdict srcOf
  split
  · rename_i hsrc
    rw [hsrc]
    exact .noSource himg rfl
  · rename_i hsrc
    rw [hsrc]
    exact .noSource himg rfl
  · rename_i src _ hsrc
    rw [hsrc, Option.getD_some]
    split
    · rename_i hprobe
      exact .estimate himg hprobe
    · rename_i hprobe
      exact .imageMissing himg hprobe
    · rename_i hprobe
      exact .unreadable himg hprobe

theorem suits_contrastNotes {cx : Context} (hd : d ∈ contrastNotes probe id cx e) :
    d.path = cx.path ∧ Suits probe id e.tag (srcOf e) d.rule d.message ∧
    d.rule ∈ contrastRules := by
  unfold contrastNotes at hd
  split at hd
  · rename_i himg
    rw [List.mem_singleton.mp hd]
    exact ⟨rfl, suits_contrastVerdict probe id himg, rule_contrastVerdict probe _⟩
  · cases hd

/-! ## 3. Notes of a walk -/

section
variable {below : Tag → Descent} {notes : NodeId → Context → Element → List Diagnostic}

theorem mem_survey_root (h : t.Linked kids)
    (hd : d ∈ t.survey notes (t.stops below Tree.rootId)) :
    ∃ id e, t.Above Tree.rootId id ∧ t.element? id = some e ∧
      d ∈ notes id (t.placed below id) e := by
  rw [h.stops_root] at hd
  obtain ⟨stop, hstop, e, he, hd⟩ := Tree.mem_survey.mp hd
  obtain ⟨id, hid, rfl⟩ := List.mem_map.mp hstop
  exact ⟨id, e, (h.above_of_mem_visited hid).1, he, hd⟩

/-- The notes about each node have the paths of some of the nodes that it answers for. -/
theorem sublist_paths (h : t.Linked kids) (about : NodeId → List NodeId)
    (hnotes : ∀ id e,
      ((notes id (t.placed below id) e).map (·.path)).Sublist ((about id).map t.path)) :
    ((t.survey notes (t.stops below Tree.rootId)).map (·.path)).Sublist
      (((t.reached below Tree.rootId).flatMap about).map t.path) := by
  rw [h.stops_root, Tree.survey, List.flatMap_map, List.map_flatMap, List.map_flatMap]
  apply List.Sublist.flatMap_right
  intro id _
  show ((((t.element? id).map (notes id (t.placed below id))).getD []).map (·.path)).Sublist _
  cases t.element? id with
  | none => exact List.nil_sublist _
  | some e => exact hnotes id e

theorem nodup_paths_survey (h : t.Linked kids)
    (hnotes : ∀ id e, ((notes id (t.placed below id) e).map (·.path)).Sublist [t.path id]) :
    ((t.survey notes (t.stops below Tree.rootId)).map (·.path)).Nodup := by
  refine (sublist_paths h (fun id => [id]) hnotes).nodup (h.nodup_paths h.root_top ?_ ?_)
  · rw [List.flatMap_singleton']
    exact h.nodup_visited below _ _
  · rw [List.flatMap_singleton']
    exact fun id hid => (h.above_of_mem_visited hid).1

end

/-- Repeated texts are reported with the paths of some of the images. -/
theorem sublist_paths_altRepeats (t : Tree) (cx : Context) (seen : List String) (index : Nat)
    (ids : List NodeId) :
    ((altRepeats t cx seen index ids).map (·.path)).Sublist
      ((ids.zipIdx index).map fun x => cx.path.child x.2) := by
  rw [altRepeats_eq, List.map_map]
  exact (sublist_repeated _ _ _).map _

theorem sublist_paths_repeatNotes (h : t.Linked kids) (below : Tag → Descent) (id : NodeId)
    (e : Element) :
    ((repeatNotes t id (t.placed below id) e).map (·.path)).Sublist
    ((t.children id).map t.path) := by
  have hpaths :
      (t.children id).zipIdx.map (fun x => (t.path id).child x.2) = (t.children id).map t.path := by
    apply h.map_zipIdx_children
    intro c i hc hi
    rw [h.path_child hc, hi]
  unfold repeatNotes
  split
  · rw [← hpaths]
    exact sublist_paths_altRepeats t _ _ _ _
  · exact List.nil_sublist _

theorem nodup_paths_repeatNotes (h : t.Linked kids) :
    ((t.survey (repeatNotes t) (t.stops below Tree.rootId)).map (·.path)).Nodup := by
  refine (sublist_paths h t.children fun id e => sublist_paths_repeatNotes h below id e).nodup ?_
  apply h.nodup_paths h.root_top
  · exact h.nodup_flatMap_children (h.nodup_visited below _ _)
  · intro c hc
    obtain ⟨id, hid, hc⟩ := List.mem_flatMap.mp hc
    exact (h.above_of_mem_visited hid).1.trans (.of_parent (h.mem_children.mp hc))

theorem points_repeatNotes (probe : Probe) (h : t.Linked kids)
    (hd : d ∈ t.survey (repeatNotes t) (t.stops below Tree.rootId)) :
    Points probe t d ∧ d.rule = "alt-duplicate" := by
  obtain ⟨p, e, habove, -, hd⟩ := mem_survey_root h hd
  unfold repeatNotes at hd
  split at hd
  · obtain ⟨i, id, img, alt, hid, himg, rfl⟩ := exists_of_mem_altRepeats hd
    obtain ⟨he, htag⟩ := Option.filter_eq_some_iff.mp himg
    refine ⟨⟨id, img, ?_, he, .altDuplicate (beq_iff_eq.mp htag) alt⟩, rfl⟩
    show t.follow? Tree.rootId ((t.path p).child (0 + i)) = some id
    rw [Tree.follow?_child, h.follow?_path h.root_top habove, Option.bind_some, Nat.zero_add, hid]
  · cases hd

/-! ## 4. Notes of passes -/

/-- The rules are not both broken at one node: they are the same, or both are about the text of an
image by itself, or both about its contrast. -/
def Exclude (rule rule' : String) : Prop :=
  rule = rule' ∨ (rule ∈ faultRules ∧ rule' ∈ faultRules) ∨
    (rule ∈ contrastRules ∧ rule' ∈ contrastRules)

instance (rule rule' : String) : Decidable (Exclude rule rule') :=
  inferInstanceAs (Decidable (_ ∨ _))

/-- Findings with the same path are not of rules that exclude each other. -/
def Distinct (ds : List Diagnostic) : Prop :=
  ds.Pairwise fun d d' => d.path = d'.path → ¬ Exclude d.rule d'.rule

theorem distinct_of_nodup {ds : List Diagnostic} (h : (ds.map (·.path)).Nodup) : Distinct ds :=
  (List.pairwise_map.mp h).imp fun hne heq => absurd heq hne

/-- The rules of the findings of a pass. -/
def Pass.rules : Pass → List String
  | altCheck => "alt-duplicate" :: faultRules
  | titleCheck => ["title-missing"]
  | ariaRole => ["aria-role-set"]
  | ariaTableRole | ariaTableIndex => []
  | imageContrast => contrastRules

theorem not_exclude_of_ne {p q : Pass} (hne : p ≠ q) (hrule : rule ∈ p.rules) {rule' : String}
    (hrule' : rule' ∈ q.rules) : ¬ Exclude rule rule' := by
  have hall : ∀ p ∈ Pass.all, ∀ q ∈ Pass.all, p ≠ q → ∀ rule ∈ p.rules, ∀ rule' ∈ q.rules,
      ¬ Exclude rule rule' := by
    decide
  have hmem : ∀ p : Pass, p ∈ Pass.all := by
    intro p
    cases p <;> decide
  exact hall p (hmem p) q (hmem q) hne rule hrule rule' hrule'

theorem points_survey (h : t.Linked kids) {below : Tag → Descent}
    {notes : NodeId → Context → Element → List Diagnostic}
    (hnotes : ∀ id cx e d, d ∈ notes id cx e →
      d.path = cx.path ∧ Suits probe id e.tag (srcOf e) d.rule d.message ∧ d.rule ∈ pass.rules)
    (hd : d ∈ t.survey notes (t.stops below Tree.rootId)) :
    Points probe t d ∧ d.rule ∈ pass.rules := by
  obtain ⟨id, e, habove, he, hd⟩ := mem_survey_root h hd
  obtain ⟨hpath, hsuits, hrule⟩ := hnotes _ _ _ _ hd
  refine ⟨⟨id, e, ?_, he, hsuits⟩, hrule⟩
  rw [hpath]
  exact h.follow?_path h.root_top habove

theorem points_notes (h : t.Linked kids) (pass : Pass) (hd : d ∈ pass.notes probe Tree.rootId t) :
    Points probe t d ∧ d.rule ∈ pass.rules := by
  cases pass with
  | altCheck =>
    rcases List.mem_append.mp hd with hd | hd
    · refine points_survey h (fun id cx e d hd => ?_) hd
      obtain ⟨hpath, hsuits, hrule⟩ := suits_altNotes probe hd
      exact ⟨hpath, hsuits, List.mem_cons_of_mem _ hrule⟩
    -- Repeated texts are looked for in the repaired tree.
    · have hshape := t.sameShape_repaint (Pass.altCheck.tag_paint Tree.rootId t)
      obtain ⟨hpoints, hrule⟩ := points_repeatNotes probe (h.sameLinks hshape.links) hd
      rw [points_repaint (Pass.altCheck.tag_paint _ t) (get?_src_paint _ _ t)] at hpoints
      exact ⟨hpoints, List.mem_cons.mpr (.inl hrule)⟩
  | titleCheck =>
    show Points probe t d ∧ d.rule ∈ ["title-missing"]
    change d ∈ titleFaults t at hd
    unfold titleFaults at hd
    split at hd
    · rename_i hmark
      obtain ⟨e, he, -⟩ := Option.bind_eq_some_iff.mp hmark
      rw [List.mem_singleton.mp hd]
      exact ⟨⟨Tree.rootId, e, t.follow?_root _, he, .title rfl⟩, List.mem_cons_self⟩
    · cases hd
  | ariaRole =>
    refine points_survey h (fun id cx e d hd => ?_) hd
    obtain ⟨hpath, hsuits, hrule⟩ := suits_roleNotes hd
    exact ⟨hpath, hsuits, List.mem_singleton.mpr hrule⟩
  | ariaTableRole | ariaTableIndex => cases hd
  | imageContrast => exact points_survey h (fun _ _ _ _ => suits_contrastNotes) hd

theorem distinct_notes (h : t.Linked kids) (pass : Pass) :
    Distinct (pass.notes probe Tree.rootId t) := by
  cases pass with
  | altCheck =>
    have hshape := t.sameShape_repaint (Pass.altCheck.tag_paint Tree.rootId t)
    have hafter := h.sameLinks hshape.links
    -- Two walks: neither names a node twice, and the rules of one exclude none of the other.
    apply List.pairwise_append.mpr
    refine ⟨?_, ?_, ?_⟩
    · apply distinct_of_nodup
      apply nodup_paths_survey h
      intro id e
      unfold altNotes
      split
      · split
        · exact List.Sublist.refl _
        · exact List.nil_sublist _
      · exact List.nil_sublist _
    · exact distinct_of_nodup (nodup_paths_repeatNotes hafter)
    · intro d hd d' hd' _
      obtain ⟨id, e, -, -, hd⟩ := mem_survey_root h hd
      have hrule := (suits_altNotes probe hd).2.2
      have hrule' := (points_repeatNotes probe hafter hd').2
      have hall : ∀ rule ∈ faultRules, ¬ Exclude rule "alt-duplicate" := by decide
      rw [hrule']
      exact hall _ hrule
  | titleCheck =>
    show Distinct (titleFaults t)
    unfold titleFaults
    split
    · exact List.pairwise_singleton _ _
    · exact List.Pairwise.nil
  | ariaRole =>
    apply distinct_of_nodup
    apply nodup_paths_survey h
    intro id e
    unfold roleNotes
    split
    · exact List.Sublist.refl _
    · exact List.nil_sublist _
  | ariaTableRole | ariaTableIndex => exact List.Pairwise.nil
  | imageContrast =>
    apply distinct_of_nodup
    apply nodup_paths_survey h
    intro id e
    unfold contrastNotes
    split
    · exact List.Sublist.refl _
    · exact List.nil_sublist _

/-! ## 5. Runs -/

/-- A run adds findings that point into the tree that it leaves, and are distinct. -/
def PointsBy (probe : Probe) (run : Diagnostics → Tree × Diagnostics) : Prop :=
  ∀ ds, ∃ found : List Diagnostic, (run ds).2 = ds ++ found.toArray ∧
    (∀ d ∈ found, Points probe (run ds).1 d) ∧ Distinct found

theorem pointsBy_of_notes (h : t.Linked kids) (hnodup : passes.Nodup)
    {run : Diagnostics → Tree × Diagnostics}
    (hrun : ∀ ds,
      run ds =
        (t.repaint (paintAll passes Tree.rootId t),
          ds ++ (passes.flatMap (·.notes probe Tree.rootId t)).toArray)) : PointsBy probe run := by
  intro ds
  refine ⟨passes.flatMap (·.notes probe Tree.rootId t), by rw [hrun], ?_, ?_⟩
  · intro d hd
    obtain ⟨pass, -, hd⟩ := List.mem_flatMap.mp hd
    rw [hrun, points_repaint (tag_paintAll _ _ t) (get?_src_paintAll _ _ t)]
    exact (points_notes h pass hd).1
  · apply List.pairwise_flatMap.mpr
    refine ⟨fun pass _ => distinct_notes h pass, hnodup.imp fun {p q} hne d hd d' hd' _ => ?_⟩
    exact not_exclude_of_ne hne (points_notes h p hd).2 (points_notes h q hd').2

/-- **Pointing.** All that a run of the tree stage or of both stages finds is found at nodes of the
tree that the run leaves, and no node is named twice for the same thing. -/
theorem run_points (probe : Probe) (ht : t.Reachable) (hpasses : passes.Nodup) :
    ∃ p, Pipeline.ofPasses passes = .ok p ∧ PointsBy probe (p.run probe t) ∧
      PointsBy probe (p.runAll probe t) := by
  obtain ⟨kids, h⟩ := ht.linked
  refine ⟨⟨passes⟩, Pipeline.ofPasses_eq hpasses, ?_, ?_⟩
  · exact pointsBy_of_notes h (hpasses.filter _) (Pipeline.run_eq _ probe h hpasses)
  · exact pointsBy_of_notes h ((Pipeline.perm_bothStages ⟨passes⟩).nodup_iff.mpr hpasses)
      (Pipeline.runAll_eq _ probe h hpasses)

/-- Two images of a paragraph, one of them without a source, below a heading. -/
theorem run_points_images :
    let t := Tree.session { tag := .h1, text := some "Start ==main==" }
      [.append 0 { tag := .p }, .append 1 { tag := .img },
        .append 1 { tag := .img, attrs := .ofList [("src", "a.png")] }]
    let probe : Probe := fun src => .error (.notFound src)
    t.Reachable ∧ Pass.all.Nodup ∧ ∃ p, Pipeline.ofPasses Pass.all = .ok p ∧
      PointsBy probe (p.run probe t) ∧ PointsBy probe (p.runAll probe t) := by
  intro t probe
  have ht : t.Reachable := ⟨_, _, rfl⟩
  have hall : Pass.all.Nodup := by decide
  exact ⟨ht, hall, run_points probe ht hall⟩

end AccessibleMarkdown.Audit
