import AccessibleMarkdown.Audit.HeadingRole
import AccessibleMarkdown.Proofs.Text.Pair
import AccessibleMarkdown.Proofs.Text.Trim

/-!
# Stripped texts

A text without its markers has no marker any more: what stood before a marker cannot form a pair of
equals signs with what stood after it. The blanks that are trimmed off do not matter to that.

The scanner moves by byte position; here is what each of its positions says about the characters.
-/

namespace AccessibleMarkdown.Audit

variable {text part before token after plain : List Char}

/-! ## 1. Texts that have a marker -/

/-- The characters of a text before a marker, in it and after it. -/
structure MarkerCut where
  before : List Char
  token : List Char
  after : List Char

/-- A text cut at its first marker. -/
def findMarker? (text : List Char) : Option MarkerCut := do
  let (before, inner) ← Text.cutPair? '=' text
  let (token, after) ← Text.cutPair? '=' inner
  some { before, token, after }

/-- Two pairs of equals signs, without overlap. -/
def HasMarker (text : List Char) : Prop :=
  ∃ before token after, text = before ++ '=' :: '=' :: (token ++ '=' :: '=' :: after)

theorem findMarker?_eq_some {m : MarkerCut} (h : findMarker? text = some m) :
    ∃ inner, Text.cutPair? '=' text = some (m.before, inner) ∧
      Text.cutPair? '=' inner = some (m.token, m.after) := by
  simp only [findMarker?, bind, Option.bind_eq_some_iff, Option.some.injEq, Prod.exists] at h
  obtain ⟨before, inner, hbefore, token, after, htoken, rfl⟩ := h
  exact ⟨inner, hbefore, htoken⟩

theorem findMarker?_length {m : MarkerCut} (h : findMarker? text = some m) :
    m.after.length < text.length := by
  obtain ⟨inner, hbefore, htoken⟩ := findMarker?_eq_some h
  have := Text.cutPair?_length hbefore
  have := Text.cutPair?_length htoken
  omega

theorem hasMarker_iff : HasMarker text ↔ (findMarker? text).isSome := by
  constructor
  · rintro ⟨before, token, after, rfl⟩
    -- The leftmost pair may come earlier than the one given, but the second one is still behind it.
    obtain ⟨x, y, hx, ⟨pre, rfl⟩⟩ := Text.exists_cutPair? '=' before (token ++ '=' :: '=' :: after)
    obtain ⟨x', y', hx', -⟩ := Text.exists_cutPair? '=' (pre ++ token) after
    rw [List.append_assoc] at hx'
    rw [findMarker?, hx]
    show ((Text.cutPair? '=' (pre ++ (token ++ '=' :: '=' :: after))) >>= _).isSome = true
    rw [hx']
    rfl
  · intro h
    obtain ⟨m, hm⟩ := Option.isSome_iff_exists.mp h
    obtain ⟨inner, hbefore, htoken⟩ := findMarker?_eq_some hm
    refine ⟨m.before, m.token, m.after, ?_⟩
    rw [Text.cutPair?_eq_some hbefore, Text.cutPair?_eq_some htoken]

theorem HasMarker.of_infix (h : part <:+: text) (hpart : HasMarker part) : HasMarker text := by
  obtain ⟨pre, post, rfl⟩ := h
  obtain ⟨before, token, after, rfl⟩ := hpart
  exact ⟨pre ++ before, token, after ++ post, by simp⟩

theorem findMarker?_of_infix (h : part <:+: text) (hnone : findMarker? text = none) :
    findMarker? part = none := by
  rw [← Option.not_isSome_iff_eq_none, ← hasMarker_iff] at hnone ⊢
  exact fun hpart => hnone (hpart.of_infix h)

/-- The text around all markers. -/
def withoutMarkers (text : List Char) : List Char :=
  match h : findMarker? text with
  | some m =>
    have := findMarker?_length h
    m.before ++ withoutMarkers m.after
  | none => text
  termination_by text.length

theorem withoutMarkers_of_none (h : findMarker? text = none) : withoutMarkers text = text := by
  rw [withoutMarkers]
  split
  · rename_i m hm
    rw [h] at hm
    cases hm
  · rfl

theorem withoutMarkers_of_some {m : MarkerCut} (h : findMarker? text = some m) :
    withoutMarkers text = m.before ++ withoutMarkers m.after := by
  rw [withoutMarkers]
  split
  · rename_i m' hm
    obtain rfl := Option.some.inj (h.symm.trans hm)
    rfl
  · rename_i hnone
    rw [h] at hnone
    cases hnone

/-! ## 2. What the scanner reads -/

/-- The marker by byte position. -/
def MarkerCut.marker (m : MarkerCut) : RoleMarker :=
  .around (String.ofList m.before).utf8ByteSize (String.ofList m.token).utf8ByteSize
    (String.ofList m.token)

theorem size_equals : "==".utf8ByteSize = 2 := rfl

/-- Behind a pair, the text is read from a position between two characters. -/
theorem slice?_after_pair {text : String} {before after : List Char}
    (h : Text.cutPair? '=' text.toList = some (before, after)) :
    Text.slice? text ((String.ofList before).utf8ByteSize + 2) text.utf8ByteSize =
      some (String.ofList after) := by
  have htext : text = String.ofList before ++ "==" ++ String.ofList after :=
    Text.eq_append_of_cutPair? h
  apply Text.slice?_eq_some_iff.mpr
  refine ⟨String.ofList before ++ "==", "", ?_, ?_, ?_⟩
  · rw [String.append_empty]
    exact htext
  · rw [String.utf8ByteSize_append, size_equals]
  · rw [← htext]

/-- **The search for a marker.** It finishes on every text. -/
theorem roleMarker?_eq (text : String) :
    roleMarker? text = some ((findMarker? text.toList).map MarkerCut.marker) := by
  rw [roleMarker?, Text.findPair?, findMarker?]
  cases hopen : Text.cutPair? '=' text.toList with
  | none => rfl
  | some cut =>
    obtain ⟨before, inner⟩ := cut
    have hinner := slice?_after_pair hopen
    simp only [Option.map_some, hinner, bind, Option.bind_some, Text.findPair?,
      String.toList_ofList]
    cases hclose : Text.cutPair? '=' inner with
    | none => rfl
    | some cut =>
      obtain ⟨token, after⟩ := cut
      -- The token lies between the two pairs, so it is sliced between characters.
      have htext : text = String.ofList before ++ "==" ++ String.ofList inner :=
        Text.eq_append_of_cutPair? hopen
      have htoken : String.ofList inner = String.ofList token ++ "==" ++ String.ofList after :=
        Text.eq_append_of_cutPair? (by rw [String.toList_ofList, hclose])
      have hslice : Text.slice? text ((String.ofList before).utf8ByteSize + 2)
          ((String.ofList before).utf8ByteSize + 2 + (String.ofList token).utf8ByteSize) =
            some (String.ofList token) := by
        apply Text.slice?_eq_some_iff.mpr
        refine ⟨String.ofList before ++ "==", "==" ++ String.ofList after, ?_, ?_, ?_⟩
        · rw [htext, htoken]
          simp only [String.append_assoc]
        · rw [String.utf8ByteSize_append, size_equals]
        · simp only [String.utf8ByteSize_append, size_equals]
      simp only [Option.map_some, hslice, Option.bind_some, pure]
      rfl

theorem roleMarker?_eq_none_iff {text : String} :
    roleMarker? text = some none ↔ findMarker? text.toList = none := by
  rw [roleMarker?_eq, Option.some_inj, Option.map_eq_none_iff]

theorem findMarker?_of_roleMarker? {text : String} {r : RoleMarker}
    (h : roleMarker? text = some (some r)) :
    ∃ m, findMarker? text.toList = some m ∧ m.marker = r := by
  rw [roleMarker?_eq] at h
  exact Option.map_eq_some_iff.mp (Option.some.inj h)

/-- What the loop reads around a marker. -/
theorem slice?_around_marker {text : String} {m : MarkerCut}
    (h : findMarker? text.toList = some m) :
    Text.slice? text 0 m.marker.start = some (String.ofList m.before) ∧
      Text.slice? text m.marker.stop text.utf8ByteSize = some (String.ofList m.after) := by
  obtain ⟨inner, hopen, hclose⟩ := findMarker?_eq_some h
  have htext : text = String.ofList m.before ++ "==" ++ String.ofList inner :=
    Text.eq_append_of_cutPair? hopen
  have hinner : String.ofList inner = String.ofList m.token ++ "==" ++ String.ofList m.after :=
    Text.eq_append_of_cutPair? (by rw [String.toList_ofList, hclose])
  constructor
  · apply Text.slice?_eq_some_iff.mpr
    refine ⟨"", "==" ++ String.ofList inner, ?_, rfl, ?_⟩
    · rw [String.empty_append, ← String.append_assoc]
      exact htext
    · rw [String.empty_append]
      rfl
  · apply Text.slice?_eq_some_iff.mpr
    refine ⟨String.ofList m.before ++ "==" ++ String.ofList m.token ++ "==", "", ?_, ?_, ?_⟩
    · rw [htext, hinner]
      simp only [String.append_assoc, String.append_empty]
    · simp only [String.utf8ByteSize_append, size_equals]
      rfl
    · rw [htext, hinner]
      simp only [String.append_assoc]

/-- **The loop.** It finishes on every text, and what it gathers is the text around all markers. -/
theorem stripFrom?_eq (out rest : String) :
    stripFrom? out rest = some (out ++ String.ofList (withoutMarkers rest.toList)) := by
  fun_induction stripFrom? out rest with
  | case1 out rest hscan =>
    rw [roleMarker?_eq] at hscan
    cases hscan
  | case2 out rest hscan =>
    rw [withoutMarkers_of_none (roleMarker?_eq_none_iff.mp hscan), String.ofList_toList]
  | case3 out rest m hscan hslice =>
    obtain ⟨cut, hcut, rfl⟩ := findMarker?_of_roleMarker? hscan
    rw [(slice?_around_marker hcut).2] at hslice
    cases hslice
  | case4 out rest m hscan after hslice _ ih =>
    obtain ⟨cut, hcut, rfl⟩ := findMarker?_of_roleMarker? hscan
    obtain ⟨hbefore, hafter⟩ := slice?_around_marker hcut
    obtain rfl := Option.some.inj (hafter.symm.trans hslice)
    rw [hbefore, withoutMarkers_of_some hcut, String.ofList_append, ← String.append_assoc]
    show stripFrom? (out ++ String.ofList cut.before) _ = _
    rw [ih, String.toList_ofList]

theorem stripMarkers_eq (text : String) :
    stripMarkers text = String.ofList (Text.trim (withoutMarkers text.toList)) := by
  rw [stripMarkers, stripFrom?_eq, Option.getD_some, String.empty_append, String.toList_ofList]

theorem markedRole?_eq (text : String) :
    markedRole? text = (findMarker? text.toList).bind fun m =>
      LandmarkRole.ofName? (String.ofList m.token) := by
  rw [markedRole?, roleMarker?_eq]
  cases findMarker? text.toList <;> rfl

/-! ## 3. What is left of a text -/

/-- The first marker of a text: the first pair of equals signs, and the nearest pair after it. -/
def FirstMarker (text before token after : List Char) : Prop :=
  ∃ inner, Text.FirstPair '=' text before inner ∧ Text.FirstPair '=' inner token after

theorem firstMarker_iff : FirstMarker text before token after ↔
    findMarker? text = some ⟨before, token, after⟩ := by
  unfold FirstMarker
  simp only [Text.firstPair_iff]
  constructor
  · rintro ⟨inner, hbefore, htoken⟩
    rw [findMarker?, hbefore]
    show ((Text.cutPair? '=' inner) >>= _) = _
    rw [htoken]
    rfl
  · exact findMarker?_eq_some

/-- What is left of a text without its markers. Behind a marker, the next one is the first of the
rest. -/
inductive Unmarked : List Char → List Char → Prop
  | plain {text : List Char} (h : ∀ before token after, ¬ FirstMarker text before token after) :
      Unmarked text text
  | marker {text before token after rest : List Char} (h : FirstMarker text before token after)
    (hrest : Unmarked after rest) : Unmarked text (before ++ rest)

theorem Unmarked.eq (h : Unmarked text plain) : plain = withoutMarkers text := by
  induction h with
  | plain h =>
    have hnone : ∀ m, findMarker? _ ≠ some m := fun m hm => h _ _ _ (firstMarker_iff.mpr hm)
    rw [withoutMarkers_of_none (Option.eq_none_iff_forall_ne_some.mpr hnone)]
  | marker h _ ih => rw [withoutMarkers_of_some (firstMarker_iff.mp h), ih]

theorem unmarked_withoutMarkers (text : List Char) : Unmarked text (withoutMarkers text) := by
  fun_induction withoutMarkers text with
  | case1 text m hm _ ih => exact .marker (firstMarker_iff.mpr hm) ih
  | case2 text hnone =>
    apply Unmarked.plain
    intro before token after h
    rw [firstMarker_iff.mp h] at hnone
    cases hnone

/-- What is left of a text without its markers, and then without the blanks at the ends. -/
def Stripped (text stripped : String) : Prop :=
  ∃ plain, Unmarked text.toList plain ∧ Text.Trims plain stripped.toList

theorem stripped_iff {text stripped : String} :
    Stripped text stripped ↔ stripped = stripMarkers text := by
  rw [stripMarkers_eq, ← String.toList_inj, String.toList_ofList]
  constructor
  · rintro ⟨plain, hplain, htrims⟩
    rw [← hplain.eq]
    exact htrims.eq
  · intro h
    exact ⟨_, unmarked_withoutMarkers _, Text.trims_iff.mpr h⟩

theorem trims_stripMarkers (text : String) :
    Text.Trims (withoutMarkers text.toList) (stripMarkers text).toList := by
  rw [stripMarkers_eq, String.toList_ofList]
  exact Text.trims_trim _

/-! ## 4. No marker is left -/

/-- Behind what stood before a marker, only what follows can hold one. -/
theorem findMarker?_before_append {m : MarkerCut} (h : findMarker? text = some m) {rest : List Char}
    (hrest : findMarker? rest = none) : findMarker? (m.before ++ rest) = none := by
  obtain ⟨inner, hbefore, -⟩ := findMarker?_eq_some h
  rw [findMarker?, Text.cutPair?_before_append hbefore]
  rw [findMarker?] at hrest
  cases hcut : Text.cutPair? '=' rest with
  | none => rfl
  | some cut =>
    rw [hcut] at hrest
    show ((Text.cutPair? '=' cut.2) >>= _) = none
    cases hinner : Text.cutPair? '=' cut.2 with
    | none => rfl
    | some cut' =>
      have hfound : ((Text.cutPair? '=' cut.2) >>= fun c => some (⟨cut.1, c.1, c.2⟩ : MarkerCut)) =
          none := hrest
      rw [hinner] at hfound
      cases hfound

theorem findMarker?_withoutMarkers (text : List Char) :
    findMarker? (withoutMarkers text) = none := by
  fun_induction withoutMarkers text with
  | case1 text m hm _ ih => exact findMarker?_before_append hm ih
  | case2 text hnone => exact hnone

theorem findMarker?_stripMarkers (text : String) : findMarker? (stripMarkers text).toList = none :=
  findMarker?_of_infix (trims_stripMarkers text).isInfix (findMarker?_withoutMarkers _)

theorem markedRole?_stripMarkers (text : String) : markedRole? (stripMarkers text) = none := by
  rw [markedRole?_eq, findMarker?_stripMarkers]
  rfl

/-- A stripped text does not begin with a blank, so it is not a lone one. -/
theorem stripMarkers_ne_singleton {c : Char} (hc : Text.isBlank c = true) (text : String) :
    stripMarkers text ≠ String.ofList [c] := by
  intro heq
  obtain ⟨-, -, -, -, -, hhead, -⟩ := trims_stripMarkers text
  rw [heq, String.toList_ofList] at hhead
  exact Bool.false_ne_true ((hhead c rfl).symm.trans hc)

theorem stripMarkers_stripMarkers (text : String) :
    stripMarkers (stripMarkers text) = stripMarkers text := by
  rw [stripMarkers_eq (stripMarkers text), withoutMarkers_of_none (findMarker?_stripMarkers text),
    (trims_stripMarkers text).trim_eq, String.ofList_toList]

theorem not_hasMarker_iff : ¬ HasMarker text ↔ findMarker? text = none := by
  rw [hasMarker_iff, Option.not_isSome_iff_eq_none]

/-- **Stripping.** On every text the loop finishes, and so does each search, without reading a place
inside a character. What is left is the text around all markers, without the blanks at its ends. It
has no marker, wherever it has been put together, and the search finds none; so what has been
stripped stays as it is. -/
theorem stripMarkers_unmarked (text : String) :
    (∃ plain, stripFrom? "" text = some plain ∧ Unmarked text.toList plain.toList ∧
      ¬ HasMarker plain.toList ∧ Text.Trims plain.toList (stripMarkers text).toList) ∧
    (∃ found, roleMarker? text = some found ∧ (found = none ↔ ¬ HasMarker text.toList)) ∧
    roleMarker? (stripMarkers text) = some none ∧
    stripMarkers (stripMarkers text) = stripMarkers text := by
  refine ⟨⟨String.ofList (withoutMarkers text.toList), ?_, ?_, ?_, ?_⟩,
    ⟨_, roleMarker?_eq text, ?_⟩, ?_, ?_⟩
  · rw [stripFrom?_eq, String.empty_append]
  · rw [String.toList_ofList]
    exact unmarked_withoutMarkers _
  · rw [String.toList_ofList]
    exact not_hasMarker_iff.mpr (findMarker?_withoutMarkers _)
  · rw [String.toList_ofList]
    exact trims_stripMarkers text
  · rw [Option.map_eq_none_iff, not_hasMarker_iff]
  · exact roleMarker?_eq_none_iff.mpr (findMarker?_stripMarkers text)
  · exact stripMarkers_stripMarkers text

/-- What stands around a marker may meet as equals signs, but not as a pair. -/
example : stripMarkers "==main== Body ===x=== end" = "Body = end" := by decide +kernel

end AccessibleMarkdown.Audit
