import AccessibleMarkdown.Audit.Diagnostic
import AccessibleMarkdown.Audit.Role
import AccessibleMarkdown.Text.Blank
import AccessibleMarkdown.Text.Pair
import AccessibleMarkdown.Text.Slice
import AccessibleMarkdown.Tree.Walk

/-!
Roles of headings. The first marker `==name==` in the text of an `h1` gives the heading its role if
it names one; then all markers go.

The text is read by byte position. A position that is inside a character gives no result.
-/

namespace AccessibleMarkdown.Audit

/-- A marker: where it starts and where it ends, and what its equals signs enclose. -/
structure RoleMarker where
  start : Nat
  stop : Nat
  token : String
  /-- There are four equals signs. -/
  start_le : start + 4 ≤ stop

/-- The marker around `token`, which has `length` bytes. -/
def RoleMarker.around (start length : Nat) (token : String) : RoleMarker where
  start
  stop := start + 2 + length + 2
  token
  start_le := by omega

/-- The first marker: two equals signs, the shortest text, two equals signs. -/
def roleMarker? (text : String) : Option (Option RoleMarker) := do
  match Text.findPair? '=' text with
  | none => return none
  | some start =>
    match Text.findPair? '=' (← Text.slice? text (start + 2) text.utf8ByteSize) with
    | none => return none
    | some length =>
      let token ← Text.slice? text (start + 2) (start + 2 + length)
      return some (.around start length token)

theorem RoleMarker.lt_of_slice? (m : RoleMarker) {text after : String}
    (h : Text.slice? text m.stop text.utf8ByteSize = some after) :
    after.utf8ByteSize < text.utf8ByteSize := by
  obtain ⟨front, back, rfl, hstop, -⟩ := Text.slice?_eq_some_iff.mp h
  have := m.start_le
  simp only [String.utf8ByteSize_append]
  omega

/-- Puts the text around all markers of `rest` behind `out`. -/
def stripFrom? (out rest : String) : Option String :=
  match roleMarker? rest with
  | none => none
  | some none => some (out ++ rest)
  | some (some m) =>
    match h : Text.slice? rest m.stop rest.utf8ByteSize with
    | none => none
    | some after => do
      have := m.lt_of_slice? h
      stripFrom? (out ++ (← Text.slice? rest 0 m.start)) after
  termination_by rest.utf8ByteSize

/-- The text around all markers, trimmed. Every position that is read is between characters. -/
def stripMarkers (text : String) : String :=
  String.ofList (Text.trim ((stripFrom? "" text).getD "").toList)

def markedRole? (text : String) : Option LandmarkRole :=
  (roleMarker? text).join.bind fun m => LandmarkRole.ofName? m.token

/-- Takes the markers out of a heading and writes the role that they ask for. -/
def applyRole : Visitor Diagnostics := fun id e cx (t, ds) =>
  match e.text with
  | none => ((t, ds), .stop)
  | some text =>
    match markedRole? text with
    | none => ((t, ds), .stop)
    | some role =>
      ((t.modify id fun e => { e with text := some (stripMarkers text) }.set roleAttr role.name,
        ds.push { rule := "aria-role-set", severity := .debug,
                  message := "Setting role to " ++ role.name, path := cx.path }), .stop)

def headingRoles : Visitor Diagnostics := .only .h1 applyRole

end AccessibleMarkdown.Audit
