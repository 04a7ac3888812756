import AccessibleMarkdown.Proofs.Audit.Records
import AccessibleMarkdown.Proofs.Checker.Captions
import AccessibleMarkdown.Proofs.Checker.Success
import AccessibleMarkdown.Proofs.Tree.Outline

/-!
# The lines of a report

Reports are written with a line for each diagnostic that is shown, in their order, and one at the
end that counts. A message is written as it is: if it has a break, its line is broken there.
Documents can do that, by a character reference in the address of an image or in its text.
-/

namespace AccessibleMarkdown

open Audit (Diagnostic OneLineProbe Pipeline Probe Says Severity)
open Text (Unbroken breaks breaks_append breaks_eq_zero lines unbroken_literal)

/-! ## 1. Parts of a line -/

theorem Path.unbroken_toText (p : Path) : Unbroken p.toText := by
  have hsteps : '\n' ∉ Path.steps p.indices := by
    intro hmem
    obtain ⟨i, -, hi⟩ := List.mem_flatMap.mp hmem
    obtain hslash | hdigits := List.mem_cons.mp hi
    · revert hslash
      decide
    · refine Text.unbroken_toString i ?_
      rwa [Nat.toString_eq_repr, Nat.toList_repr]
  rw [Unbroken, Path.toList_toText]
  split
  · decide
  · exact hsteps

/-- A criterion in front of a message adds no break. -/
theorem Audit.Diagnostic.breaks_toText (d : Diagnostic) : breaks d.toText = breaks d.message := by
  have hcriterion : ∀ c : Audit.Criterion, breaks ("[" ++ c.toText ++ "] ") = 0 := by
    intro c
    cases c <;> decide +kernel
  rw [Audit.Diagnostic.toText]
  split
  · rw [breaks_append, hcriterion, Nat.zero_add]
  · rfl

namespace Report

/-- What is written of a diagnostic, without the break at its end. -/
def finding (r : Report) (d : Diagnostic) : String :=
  r.source ++ ":" ++ d.path.toText ++ ": " ++ d.toText ++ " (" ++ d.rule ++ ")"

theorem line_eq (r : Report) (d : Diagnostic) : r.line d = r.finding d ++ "\n" := by
  have hend : (")\n" : String) = ")" ++ "\n" := by decide +kernel
  rw [line, hend, ← String.append_assoc, finding]

/-- All breaks of a line are those of its message. -/
theorem breaks_finding {r : Report} {d : Diagnostic} (hsource : Unbroken r.source)
    (hrule : Unbroken d.rule) : breaks (r.finding d) = breaks d.message := by
  have hpath := breaks_eq_zero.mpr d.path.unbroken_toText
  have hcolon : breaks ":" = 0 := breaks_eq_zero.mpr (unbroken_literal rfl)
  have hgap : breaks ": " = 0 := breaks_eq_zero.mpr (unbroken_literal rfl)
  have hopen : breaks " (" = 0 := breaks_eq_zero.mpr (unbroken_literal rfl)
  have hclose : breaks ")" = 0 := breaks_eq_zero.mpr (unbroken_literal rfl)
  simp only [finding, breaks_append, breaks_eq_zero.mpr hsource, breaks_eq_zero.mpr hrule, hpath,
    hcolon, hgap, hopen, hclose, d.breaks_toText, Nat.zero_add, Nat.add_zero]

/-! ## 2. Texts of reports -/

/-- The diagnostics that are shown, each with the report that it is in. -/
def shown (min : Severity) (reports : List Report) : List (Report × Diagnostic) :=
  reports.flatMap fun r => (r.findings min).toList.map (r, ·)

def findingLines (min : Severity) (reports : List Report) : List String :=
  (shown min reports).map fun x => x.1.finding x.2

/-- The line at the end, whose first number is how many diagnostics are of severity info. -/
def summaryLine (reports : List Report) : String :=
  toString ((reports.flatMap (·.diagnostics.toList)).countP (·.severity = .info)) ++
    " finding(s) in "
    ++ toString reports.length ++ " document(s)"

theorem size_findings_info (r : Report) :
    (r.findings .info).size = r.diagnostics.toList.countP (·.severity = .info) := by
  have hleast : ∀ s : Severity, s.atLeast .info = decide (s = .info) := by
    intro s
    cases s <;> rfl
  simp only [findings, Audit.Diagnostics.atLeast, hleast, Array.countP_toList,
    Array.countP_eq_size_filter]

theorem summary_eq (reports : List Report) : summary reports = summaryLine reports ++ "\n" := by
  have hend : (" document(s)\n" : String) = " document(s)" ++ "\n" := by decide +kernel
  have htotal : ∀ n, reports.foldl (fun n r => n + (r.findings .info).size) n =
      n + (reports.flatMap (·.diagnostics.toList)).countP (·.severity = .info) := by
    induction reports with
    | nil => exact fun n => rfl
    | cons r reports ih =>
      intro n
      rw [List.foldl_cons, ih, size_findings_info, List.flatMap_cons, List.countP_append,
        Nat.add_assoc]
  rw [summary, htotal, Nat.zero_add, hend, ← String.append_assoc, summaryLine]

/-- A text without trees is its lines, each with a break behind it. -/
theorem renderText_eq (min : Severity) (reports : List Report) :
    renderText min false reports =
      String.join ((findingLines min reports ++ [summaryLine reports]).map (· ++ "\n")) := by
  have hreport : toText min false = fun r => String.join ((r.findings min).toList.map r.line) :=
    funext fun _ => String.append_empty
  have hlines : (findingLines min reports).map (· ++ "\n") =
      reports.flatMap fun r => (r.findings min).toList.map r.line := by
    simp only [findingLines, shown, List.map_flatMap, List.map_map]
    refine List.flatMap_congr fun r _ => List.map_congr_left fun d _ => ?_
    exact (r.line_eq d).symm
  rw [renderText, hreport, summary_eq, List.map_append, String.join_append, hlines, join_flatMap,
    List.map_singleton, String.join_cons, String.join_nil, String.append_empty]

theorem unbroken_summaryLine (reports : List Report) : Unbroken (summaryLine reports) := by
  have hfindings : Unbroken " finding(s) in " := unbroken_literal rfl
  have hdocuments : Unbroken " document(s)" := unbroken_literal rfl
  simp only [summaryLine, Text.unbroken_append]
  exact ⟨⟨⟨Text.unbroken_toString _, hfindings⟩, Text.unbroken_toString _⟩, hdocuments⟩

/-! ## 3. Reports that are made -/

/-- A report that comes of events: either the passes run over the document as a checker has them do,
or over a tree that is already built. -/
inductive Made (probe : Probe) (events : List Markdown.Event) (r : Report) : Prop
  | reading (pipeline : Pipeline) (deletion : Bool)
    (h : Checker.audit pipeline probe deletion events = .ok (r.tree, r.diagnostics))
  | finished (pipeline : Pipeline) (deletion : Bool) (t : Tree)
    (hbuild : Markdown.buildTree deletion Markdown.TableHook.none () events = .ok (t, ()))
    (hrun : pipeline.runAll probe t #[] = (r.tree, r.diagnostics))

variable {probe : Probe} {events : List Markdown.Event} {r : Report} {clean : Prop} {min : Severity}
  {reports : List Report}

theorem Made.notes (h : r.Made probe events) (hprobe : clean → OneLineProbe probe)
    (hcaptions : clean → ∀ text ∈ Markdown.captions 0 events, Unbroken text) :
    Says clean (r.tree, r.diagnostics) := by
  cases h with
  | reading pipeline deletion h => exact Checker.says_audit hprobe hcaptions h
  | finished pipeline deletion t hbuild hrun =>
    exact hrun ▸ Checker.says_runAll hprobe hcaptions hbuild

/-- What a checker makes of a text is a report of this kind. -/
theorem made_check {c : Checker} {files : File.Files} {source text : String}
    (h : c.check files source text = .ok r) :
    r.source = source ∧
    r.Made ((c.imageSource ".").probe files) (Markdown.eventsOf c.config.markdown text) := by
  cases haudit :
    Checker.audit c.pipeline ((c.imageSource ".").probe files) c.config.markdown.deletion
      (Markdown.eventsOf c.config.markdown text) with
  | error err =>
    rw [Checker.check, Checker.checkText, haudit] at h
    cases h
  | ok made =>
    obtain ⟨t, ds⟩ := made
    rw [Checker.check_eq haudit] at h
    cases h
    exact ⟨rfl, .reading _ _ haudit⟩

theorem mem_shown {x : Report × Diagnostic} (h : x ∈ shown min reports) :
    x.1 ∈ reports ∧ x.2 ∈ x.1.diagnostics := by
  obtain ⟨r, hr, hx⟩ := List.mem_flatMap.mp h
  obtain ⟨d, hd, rfl⟩ := List.mem_map.mp hx
  exact ⟨hr, (Array.mem_filter.mp (Array.mem_def.mpr hd)).1⟩

/-! ## 4. Lines -/

theorem breaks_of_mem_shown (hsources : ∀ r ∈ reports, Unbroken r.source)
    (hmade : ∀ r ∈ reports, ∃ probe events, r.Made probe events) {x : Report × Diagnostic}
    (hx : x ∈ shown min reports) : breaks (x.1.finding x.2) = breaks x.2.message := by
  obtain ⟨hr, hd⟩ := mem_shown hx
  obtain ⟨probe, events, hmade⟩ := hmade x.1 hr
  have hnotes : Says False (x.1.tree, x.1.diagnostics) := hmade.notes False.elim False.elim
  exact breaks_finding (hsources x.1 hr) (hnotes.rules x.2 hd)

theorem lines_renderText_flatMap (min : Severity) (reports : List Report) :
    lines (renderText min false reports) =
      (findingLines min reports).flatMap (fun line => lines (line ++ "\n")) ++
        [summaryLine reports] := by
  rw [renderText_eq, Text.lines_join, List.flatMap_append, List.flatMap_singleton,
    Text.lines_unbroken (unbroken_summaryLine reports)]

theorem length_lines_renderText (hsources : ∀ r ∈ reports, Unbroken r.source)
    (hmade : ∀ r ∈ reports, ∃ probe events, r.Made probe events) :
    (lines (renderText min false reports)).length =
      (shown min reports).length +
        breaks (String.join ((shown min reports).map (·.2.message))) + 1 := by
  have hbreaks : breaks (String.join (findingLines min reports)) =
      breaks (String.join ((shown min reports).map (·.2.message))) :=
    Text.breaks_join_congr fun x hx => breaks_of_mem_shown hsources hmade hx
  rw [lines_renderText_flatMap, List.length_append, Text.length_flatMap_lines, hbreaks,
    findingLines, List.length_map, List.length_singleton]

theorem lines_renderText_eq_iff (min : Severity) (hsources : ∀ r ∈ reports, Unbroken r.source)
    (hmade : ∀ r ∈ reports, ∃ probe events, r.Made probe events) :
    lines (renderText min false reports) = findingLines min reports ++ [summaryLine reports] ↔
      ∀ x ∈ shown min reports, Unbroken x.2.message := by
  have hfinding : ∀ x ∈ shown min reports, Unbroken (x.1.finding x.2) ↔ Unbroken x.2.message := by
    intro x hx
    rw [← breaks_eq_zero, breaks_of_mem_shown hsources hmade hx, breaks_eq_zero]
  rw [renderText_eq, Text.lines_join_eq_iff, List.forall_mem_append, findingLines,
    List.forall_mem_map]
  constructor
  · exact fun h x hx => (hfinding x hx).mp (h.1 x hx)
  · intro h
    refine ⟨fun x hx => (hfinding x hx).mpr (h x hx), ?_⟩
    exact List.forall_mem_singleton.mpr (unbroken_summaryLine reports)

/-- **Lines.** A text has the lines of the diagnostics that are shown, in the order of the reports
and in theirs, and one line at the end. There is a line for each diagnostic, and one more for each
break in a message, so the lines are those of the diagnostics just if no message has a break. None
has one where the captions of the documents have none and the probe, asked about a source on one
line, says what is wrong on one line. -/
theorem lines_renderText (min : Severity) {reports : List Report}
    (hsources : ∀ r ∈ reports, Unbroken r.source)
    (hmade : ∀ r ∈ reports, ∃ probe events, r.Made probe events) :
    lines (renderText min false reports) =
        (findingLines min reports).flatMap (fun line => lines (line ++ "\n")) ++
          [summaryLine reports] ∧
      (lines (renderText min false reports)).length =
        (shown min reports).length +
          breaks (String.join ((shown min reports).map (·.2.message))) + 1 ∧
      (lines (renderText min false reports) = findingLines min reports ++ [summaryLine reports] ↔
        ∀ x ∈ shown min reports, Unbroken x.2.message) ∧
      ((∀ r ∈ reports, ∃ probe events, r.Made probe events ∧ OneLineProbe probe ∧
          ∀ caption ∈ Markdown.captions 0 events, Unbroken caption) →
        lines (renderText min false reports) =
          findingLines min reports ++ [summaryLine reports]) := by
  have hwhole := lines_renderText_eq_iff min hsources hmade
  refine ⟨lines_renderText_flatMap min reports, length_lines_renderText hsources hmade, hwhole,
    fun hclean => ?_⟩
  refine hwhole.mpr fun x hx => ?_
  obtain ⟨hr, hd⟩ := mem_shown hx
  obtain ⟨probe, events, hmade, hprobe, hcaptions⟩ := hclean x.1 hr
  have hnotes : Says True (x.1.tree, x.1.diagnostics) :=
    hmade.notes (fun _ => hprobe) fun _ => hcaptions
  exact hnotes.messages trivial x.2 hd

/-- A document whose captions stay on one line. -/
theorem lines_renderText_caption :
    let c : Checker := { config := {}, pipeline := ⟨({} : Config).passes⟩ }
    Checker.ofConfig {} = .ok c ∧
      ∃ r, c.check (fun _ => .missing) "doc.md" "![b](a.png) ![b](c.png)\n" = .ok r ∧
        lines (renderText .info false [r]) = findingLines .info [r] ++ [summaryLine [r]] := by
  intro c
  have hconfig : Checker.ofConfig {} = .ok c := rfl
  obtain ⟨-, -, hchecks⟩ := Checker.check_succeeds true []
  obtain ⟨r, hcheck, -⟩ :=
    (hchecks {} _ c hconfig).2 (fun _ => .missing) "doc.md" "![b](a.png) ![b](c.png)\n"
  obtain ⟨hsource, hmade⟩ := made_check hcheck
  have hsource : Unbroken r.source := hsource ▸ unbroken_literal rfl
  have hprobe : OneLineProbe ((c.imageSource ".").probe fun _ => .missing) := by
    have hbase : Unbroken "." := unbroken_literal rfl
    exact Audit.oneLineProbe_probe hbase nofun Image.Codec.oneLine_absent nofun
  have hcaptions :
      ∀ caption ∈ Markdown.captions 0
          (Markdown.eventsOf c.config.markdown "![b](a.png) ![b](c.png)\n"),
        Unbroken caption := by
    have htexts :
        Markdown.captions 0 (Markdown.eventsOf c.config.markdown "![b](a.png) ![b](c.png)\n") =
          ["a.png", "b", "c.png", "b"] := by
      decide +kernel
    rw [htexts]
    decide +kernel
  obtain ⟨-, -, -, hclean⟩ := lines_renderText .info (List.forall_mem_singleton.mpr hsource)
    (List.forall_mem_singleton.mpr ⟨_, _, hmade⟩)
  have hlines := hclean (List.forall_mem_singleton.mpr ⟨_, _, hmade, hprobe, hcaptions⟩)
  exact ⟨hconfig, r, hcheck, hlines⟩

/-- A reference to a line break in the address of an image: two diagnostics are shown on three
lines. -/
theorem lines_renderText_reference :
    let c : Checker := { config := {}, pipeline := ⟨({} : Config).passes⟩ }
    ∃ r, c.check (fun _ => .missing) "doc.md" "![](a&#10;b.png)\n" = .ok r ∧ Unbroken r.source ∧
      (findingLines .info [r]).length = 2 ∧ (lines (renderText .info false [r])).length = 4 := by
  intro c
  have hmessages : (c.check (fun _ => .missing) "doc.md" "![](a&#10;b.png)\n").map
      (fun r => (shown .info [r]).map (·.2.message)) =
      .ok ["Found an image with empty alt text for a\nb.png", "No title found"] := by
    decide +kernel
  cases hcheck : c.check (fun _ => .missing) "doc.md" "![](a&#10;b.png)\n" with
  | error err =>
    rw [hcheck] at hmessages
    cases hmessages
  | ok r =>
    rw [hcheck] at hmessages
    have hmessages : (shown .info [r]).map (·.2.message) =
        ["Found an image with empty alt text for a\nb.png", "No title found"] :=
      Except.ok.inj hmessages
    have hlength : (shown .info [r]).length = 2 := by
      have hlength := congrArg List.length hmessages
      rwa [List.length_map] at hlength
    have hbreaks : breaks (String.join
        ["Found an image with empty alt text for a\nb.png", "No title found"]) = 1 := by
      decide +kernel
    obtain ⟨hsource, hmade⟩ := made_check hcheck
    have hsource : Unbroken r.source := hsource ▸ unbroken_literal rfl
    refine ⟨r, rfl, hsource, ?_, ?_⟩
    · rw [findingLines, List.length_map, hlength]
    · rw [length_lines_renderText (List.forall_mem_singleton.mpr hsource)
        (List.forall_mem_singleton.mpr ⟨_, _, hmade⟩), hmessages, hlength, hbreaks]

end Report

end AccessibleMarkdown
