import AccessibleMarkdown.Proofs.Audit.Coverage

/-!
# Headings that ask for a role

The first marker of a heading tells the role that it asks for. A heading that asks for one of the
roles that there are gets it and loses all its markers; every other heading is left as it is.
-/

namespace AccessibleMarkdown.Audit

variable {t u : Tree} {kids : NodeId → List NodeId} {scope id : NodeId} {e : Element}
  {text before token after plain : List Char} {name : String} {role : LandmarkRole}

/-! ## 1. Roles -/

/-- The names of the roles that a heading may ask for. -/
def landmarkNames : List String :=
  ["article", "banner", "complementary", "contentinfo", "definition", "document", "feed", "figure",
    "form", "main", "navigation", "region", "search", "section", "table"]

theorem mem_landmarkNames : name ∈ landmarkNames ↔ ∃ role : LandmarkRole, role.name = name := by
  have hall : landmarkNames = LandmarkRole.all.map LandmarkRole.name := rfl
  have hmem : ∀ role : LandmarkRole, role ∈ LandmarkRole.all := by
    intro role
    cases role <;> decide
  rw [hall, List.mem_map]
  exact exists_congr fun role => and_iff_right (hmem role)

theorem ofName?_eq_some : LandmarkRole.ofName? name = some role ↔ role.name = name := by
  constructor
  · intro h
    exact beq_iff_eq.mp (List.find?_some (p := fun role : LandmarkRole => role.name == name) h)
  · rintro rfl
    cases role <;> decide

theorem markedRole?_eq_some {text : String} :
    markedRole? text = some role ↔
      ∃ before after, FirstMarker text.toList before role.name.toList after := by
  rw [markedRole?_eq]
  simp only [firstMarker_iff, Option.bind_eq_some_iff, ofName?_eq_some]
  constructor
  · rintro ⟨m, hm, hrole⟩
    refine ⟨m.before, m.after, ?_⟩
    rw [hm, hrole, String.toList_ofList]
  · rintro ⟨before, after, hm⟩
    exact ⟨_, hm, String.ofList_toList.symm⟩

/-- The name of the role that a heading asks for. -/
def askedName? (e : Element) : Option String := (askedRole? e).map LandmarkRole.name

theorem tag_of_askedName? (h : askedName? e = some name) : e.tag = .h1 := by
  by_contra hne
  rw [askedName?, askedRole?, if_neg hne] at h
  cases h

theorem askedName?_eq_some (htag : e.tag = .h1) :
    askedName? e = some name ↔
      (∃ text before after, e.text = some text ∧ FirstMarker text.toList before name.toList after) ∧
        name ∈ landmarkNames := by
  rw [askedName?, askedRole?, if_pos htag, mem_landmarkNames]
  simp only [Option.map_eq_some_iff, Option.bind_eq_some_iff, markedRole?_eq_some]
  constructor
  · rintro ⟨role, ⟨text, htext, before, after, hmarker⟩, rfl⟩
    exact ⟨⟨text, before, after, htext, hmarker⟩, role, rfl⟩
  · rintro ⟨⟨text, before, after, htext, hmarker⟩, role, rfl⟩
    exact ⟨role, ⟨text, htext, before, after, hmarker⟩, rfl⟩

/-! ## 2. Headings -/

/-- The text of the node has a marker, and the first one is around `name`. -/
def Offers (t : Tree) (id : NodeId) (name : String) : Prop :=
  ∃ text before after, (t.element? id).bind (·.text) = some text ∧
    FirstMarker text.toList before name.toList after

/-- The node is a heading that is below no other one in the subtree of `scope`, and offers the name
of a role. -/
def AsksFor (t : Tree) (scope id : NodeId) (name : String) : Prop :=
  t.Outermost .h1 scope id ∧ Offers t id name ∧ name ∈ landmarkNames

theorem asksFor_iff :
    AsksFor t scope id name ↔
      t.Outermost .h1 scope id ∧ (t.element? id).bind askedName? = some name := by
  refine and_congr_right fun hid => ?_
  obtain ⟨e, he, htag⟩ := Tree.tag?_eq_some.mp hid.1
  rw [he, Option.bind_some, askedName?_eq_some htag, Offers, he]
  rfl

def roleNote (path : Path) (name : String) : Diagnostic where
  rule := "aria-role-set"
  severity := .debug
  message := "Setting role to " ++ name
  path := path

theorem roleNotes_eq (id : NodeId) (cx : Context) (e : Element) :
    roleNotes id cx e = ((askedName? e).map (roleNote cx.path)).toList := by
  rw [roleNotes, askedName?]
  cases askedRole? e <;> rfl

/-- The pass names the roles that the outermost headings ask for. -/
theorem notes_ariaRole (h : t.Linked kids) (probe : Probe) (scope : NodeId) :
    Pass.ariaRole.notes probe scope t = (covered t .h1 scope).filterMap fun id =>
      ((t.element? id).bind askedName?).map (roleNote (t.path id)) :=
  survey_found h roleNotes_eq (fun _ _ => tag_of_askedName?) scope

/-- What an outermost heading asks for depends on what it offers. -/
theorem asked_congr (hu : t.SameShape u) (hid : t.Outermost .h1 scope id)
    (hoffers : ∀ name, Offers u id name ↔ Offers t id name) :
    (u.element? id).bind askedName? = (t.element? id).bind askedName? := by
  apply Option.ext
  intro name
  have hasks : AsksFor u scope id name ↔ AsksFor t scope id name := by
    rw [AsksFor, AsksFor, hu.outermost, hoffers]
  have hid' : u.Outermost .h1 scope id := by rwa [hu.outermost]
  rwa [asksFor_iff, asksFor_iff, and_iff_right hid, and_iff_right hid'] at hasks

theorem titled_eq {text : String} (hasked : askedName? e = some name) (htext : e.text = some text) :
    titled e = { e with text := some (stripMarkers text) }.set roleAttr name := by
  obtain ⟨role, hrole, rfl⟩ := Option.map_eq_some_iff.mp hasked
  rw [titled, hrole, htext]
  rfl

theorem titled_self (hasked : askedName? e = none) : titled e = e := by
  rw [titled, Option.map_eq_none_iff.mp hasked]

/-- What becomes of a tree when the headings in the subtree of `scope` get their roles. -/
structure RolesGiven (t : Tree) (scope : NodeId) (ds : Diagnostics)
    (after : Tree × Diagnostics) : Prop where
  shape : t.SameShape after.1
  given : ∀ id name e text, AsksFor t scope id name → t.element? id = some e → e.text = some text →
    ∃ stripped, (∀ s, Stripped text s ↔ s = stripped) ∧
      after.1.element? id = some ({ e with text := some stripped }.set "role" name)
  kept : ∀ id, (∀ name, ¬ AsksFor t scope id name) → after.1.get? id = t.get? id
  reported : ∃ said, after.2 = ds ++ said.toArray ∧
    t.Listed (AsksFor t scope) (fun id => roleNote (t.path id)) said

theorem rolesGiven_run (h : t.Linked kids) (probe : Probe) (scope : NodeId) (ds : Diagnostics) :
    RolesGiven t scope ds (Pass.ariaRole.run probe scope t ds) := by
  have hlisted := listed_survey h roleNotes_eq (fun _ _ => tag_of_askedName?) scope
  rw [Pass.run_eq _ probe h]
  constructor
  case shape => exact t.sameShape_repaint (Pass.ariaRole.tag_paint scope t)
  case given =>
    intro id name e text hasks he htext
    obtain ⟨hid, hasked⟩ := asksFor_iff.mp hasks
    rw [he, Option.bind_some] at hasked
    refine ⟨stripMarkers text, fun s => stripped_iff, ?_⟩
    rw [Tree.element?_repaint, he, Option.map_some,
      Pass.paint_of_reached h (mem_reached_of_outermost h hid)]
    exact congrArg some (titled_eq hasked htext)
  case kept =>
    intro id hnot
    apply Tree.get?_repaint_self
    intro e he
    by_cases hid : t.Outermost .h1 scope id
    · rw [Pass.paint_of_reached h (mem_reached_of_outermost h hid)]
      apply titled_self
      rw [Option.eq_none_iff_forall_ne_some]
      intro name hasked
      exact hnot name (asksFor_iff.mpr ⟨hid, by rw [he]; exact hasked⟩)
    · have hother : ∀ e : Element, e.tag ≠ .h1 → titled e = e := fun e hne =>
        titled_self
          (Option.eq_none_iff_forall_ne_some.mpr fun _ hasked => hne (tag_of_askedName? hasked))
      exact Pass.paint_of_not_outermost h rfl (fun _ _ => hother) hid he
  case reported => exact ⟨_, rfl, hlisted.congr fun id name => asksFor_iff.symm⟩

/-- **Roles of headings.** The outermost headings of a subtree whose first marker is around the name
of a role get this role, and nothing else changes. What is said about a tree depends on these
markers alone. -/
theorem run_givesRoles (ht : t.Reachable) (probe : Probe) (scope : NodeId) (ds : Diagnostics) :
    RolesGiven t scope ds (Pass.ariaRole.run probe scope t ds) ∧
      ∀ u, t.SameShape u →
        (∀ id name, t.Outermost .h1 scope id → (Offers u id name ↔ Offers t id name)) →
        (Pass.ariaRole.run probe scope u ds).2 = (Pass.ariaRole.run probe scope t ds).2 := by
  obtain ⟨kids, h⟩ := ht.linked
  refine ⟨rolesGiven_run h probe scope ds, fun u hu hoffers => ?_⟩
  have hlinked := h.sameLinks hu.links
  have hnotes : Pass.ariaRole.notes probe scope u = Pass.ariaRole.notes probe scope t := by
    rw [notes_ariaRole h, notes_ariaRole hlinked, covered_congr hu, hu.links.path]
    apply List.filterMap_congr
    intro id hmem
    have hid := (mem_covered_iff h).mp hmem
    rw [asked_congr hu hid fun name => hoffers id name hid]
  rw [Pass.run_eq _ probe h, Pass.run_eq _ probe hlinked, hnotes]

/-- Only the heading outside gets a role, the one that its first marker names, whatever stands in
its tail. -/
theorem run_givesRoles_nested :
    let t :=
      Tree.session { tag := .div }
        [.append 0 { tag := .h1, text := some "Start ==main== ==form==" },
      .append 1 { tag := .h1, text := some "==form==" }]
    let u := t.modify 1 fun e => { e with tail := some "==form==" }
    let probe : Probe := fun src => .error (.notFound src)
    t.Reachable ∧ t.SameShape u ∧
    (∀ id name, t.Outermost .h1 0 id → (Offers u id name ↔ Offers t id name)) ∧
      AsksFor t 0 1 "main" ∧ ¬ t.Outermost .h1 0 2 ∧
      RolesGiven t 0 #[] (Pass.ariaRole.run probe 0 t #[]) ∧
      (Pass.ariaRole.run probe 0 u #[]).2 = (Pass.ariaRole.run probe 0 t #[]).2 := by
  intro t u probe
  have ht : t.Reachable := ⟨_, _, rfl⟩
  obtain ⟨kids, h⟩ := ht.linked
  have hu : t.SameShape u := t.sameShape_modify 1 fun _ => rfl
  have htexts : ∀ id, (u.element? id).bind (·.text) = (t.element? id).bind (·.text) := by
    intro id
    rw [Tree.element?_modify]
    split
    · cases t.element? id <;> rfl
    · rfl
  have hoffers : ∀ id name, t.Outermost .h1 0 id → (Offers u id name ↔ Offers t id name) := by
    intro id name _
    rw [Offers, Offers, htexts]
  have hasks : AsksFor t 0 1 "main" := by
    refine ⟨(mem_covered_iff h).mp (by decide), ?_, by decide⟩
    exact ⟨_, _, _, rfl, firstMarker_iff.mpr rfl⟩
  have hnested : ¬ t.Outermost .h1 0 2 := mt (mem_covered_iff h).mpr (by decide)
  obtain ⟨hgiven, hsame⟩ := run_givesRoles ht probe 0 #[]
  exact ⟨ht, hu, hoffers, hasks, hnested, hgiven, hsame u hu hoffers⟩

end AccessibleMarkdown.Audit
