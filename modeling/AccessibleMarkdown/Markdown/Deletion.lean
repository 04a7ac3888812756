import AccessibleMarkdown.Text.Pair
import AccessibleMarkdown.Text.Slice

/-!
Deletion markup `--text--`: two hyphens, the shortest text on the same line, two hyphens. The text
may be empty.

The text is read by byte position. A position that is inside a character gives no result.
-/

namespace AccessibleMarkdown.Markdown

/-- A piece of a text: kept as it is, or deleted (its hyphens taken off). -/
inductive Segment
  | text (run : String)
  | deleted (run : String)
  deriving DecidableEq, Repr

namespace Deletion

/-- Where the first two hyphens of a text stand. -/
def hyphens? (text : String) : Option Nat := Text.findPair? '-' text

/-- Where the first line of a text ends. -/
def lineEnd (text : String) : Nat := (String.ofList (text.toList.takeWhile (· ≠ '\n'))).utf8ByteSize

/-- What the first two hyphens from a position on are. -/
inductive Marker
  /-- There are none. -/
  | missing
  /-- They stand at `start`, and no others close them on their line. -/
  | unclosed (start : Nat)
  /-- They stand at `start`, and the next ones on their line at `stop`. -/
  | closed (start stop : Nat)

def marker? (text : String) (search : Nat) : Option Marker := do
  match hyphens? (← Text.slice? text search text.utf8ByteSize) with
  | none => return .missing
  | some found =>
    let start := search + found
    let inner := start + 2
    let line := lineEnd (← Text.slice? text inner text.utf8ByteSize)
    match hyphens? (← Text.slice? text inner (inner + line)) with
    | none => return .unclosed start
    | some length => return .closed start (inner + length)

/-- The plain text from `plain` to `stop`, unless it is empty, and the pieces after it. -/
def keep? (text : String) (plain stop : Nat) (tail : List Segment) : Option (List Segment) :=
  if plain < stop then return .text (← Text.slice? text plain stop) :: tail else tail

theorem lt_of_hyphens? {text : String} {found : Nat} (h : hyphens? text = some found) :
    found < text.utf8ByteSize := by
  obtain ⟨⟨before, after⟩, hcut, hfound⟩ := Option.map_eq_some_iff.mp h
  have htext : text = String.ofList before ++ String.ofList ('-' :: '-' :: after) := by
    apply String.toList_inj.mp
    rw [Text.cutPair?_eq_some hcut, String.toList_append, String.toList_ofList,
      String.toList_ofList]
  have hrest : String.ofList ('-' :: '-' :: after) ≠ "" := by simp
  rw [htext, String.utf8ByteSize_append, ← hfound]
  exact Nat.lt_add_of_pos_right (Nat.pos_of_ne_zero (mt String.utf8ByteSize_eq_zero_iff.mp hrest))

/-- The marker stands between two positions. -/
def Marker.Within (first last : Nat) : Marker → Prop
  | missing => True
  | unclosed start => first ≤ start ∧ start < last
  | closed start stop => first ≤ start ∧ start < last ∧ start + 2 ≤ stop

theorem marker?_within {text : String} {search : Nat} {m : Marker}
    (h : marker? text search = some m) : m.Within search text.utf8ByteSize := by
  simp only [marker?, bind, Option.bind_eq_some_iff] at h
  obtain ⟨rest, hrest, h⟩ := h
  obtain ⟨a, c, rfl, rfl, -⟩ := Text.slice?_eq_some_iff.mp hrest
  split at h
  · cases h
    trivial
  · rename_i found hfound
    have hstart : a.utf8ByteSize + found < (a ++ rest ++ c).utf8ByteSize := by
      have := lt_of_hyphens? hfound
      rw [String.utf8ByteSize_append, String.utf8ByteSize_append]
      omega
    simp only [Option.bind_eq_some_iff] at h
    obtain ⟨_, -, _, -, h⟩ := h
    split at h <;> cases h
    · exact ⟨Nat.le_add_right _ _, hstart⟩
    · exact ⟨Nat.le_add_right _ _, hstart, Nat.le_add_right _ _⟩

/-- Splits a text whose plain run began at `plain`; up to `search`, no marker in the run is
closed. -/
def splitFrom? (text : String) (plain search : Nat) : Option (List Segment) :=
  match h : marker? text search with
  | none => none
  | some .missing => keep? text plain text.utf8ByteSize []
  | some (.unclosed start) => splitFrom? text plain (start + 1)
  | some (.closed start stop) => do
    let run ← Text.slice? text (start + 2) stop
    keep? text plain start (.deleted run :: (← splitFrom? text (stop + 2) (stop + 2)))
  termination_by text.utf8ByteSize - search
  decreasing_by
    · have hwithin : search ≤ start ∧ start < text.utf8ByteSize := marker?_within h
      omega
    · have hwithin : search ≤ start ∧ start < text.utf8ByteSize ∧ start + 2 ≤ stop :=
        marker?_within h
      omega

/-- The pieces of a text, in order. Every position that is read is between characters. -/
def split (text : String) : List Segment := (splitFrom? text 0 0).getD []

end Deletion

end AccessibleMarkdown.Markdown
