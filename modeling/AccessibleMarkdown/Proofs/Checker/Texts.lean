import AccessibleMarkdown.Proofs.Checker.Annotations
import AccessibleMarkdown.Proofs.Checker.Verdict
import AccessibleMarkdown.Proofs.Markdown.Reading

/-!
# Checking texts

What is known of the audit of well-formed events holds of every report on a text, since reading a
text gives no others.
-/

namespace AccessibleMarkdown.Checker

open Markdown (Nest TableHook buildTree eventsOf)

variable {config : Config} {codec : Image.Codec} {c : Checker} (files : File.Files)
  (source text : String)

/-- A report is what both stages make of the tree of the text. -/
theorem check_eq_runAll (hc : ofConfig config codec = .ok c) :
    ∃ t u ds,
      buildTree c.config.markdown.deletion TableHook.none () (eventsOf c.config.markdown text) =
        .ok (t, ()) ∧
      c.pipeline.runAll ((c.imageSource ".").probe files) t #[] = (u, ds) ∧
      c.check files source text = .ok { source, tree := u, diagnostics := ds } := by
  obtain ⟨hpasses, rfl⟩ := ofConfig_eq_ok.mp hc
  obtain ⟨n, hn, hfits⟩ := (Markdown.wellFormed_eventsOf config.markdown text).1
  refine ⟨n.tree config.markdown.deletion, _, _, ?_, rfl, check_eq ?_ source⟩
  · rw [← hn]
    exact n.buildTree_none _
  · rw [← hn]
    exact audit_nest hpasses _ _ hfits

/-- The elements of a report have the annotations that its passes are to give. -/
theorem check_annotated (hc : ofConfig config codec = .ok c) :
    ∃ r, c.check files source text = .ok r ∧
      ∀ id e, r.tree.element? id = some e → Annotated config.passes r.tree id e := by
  obtain ⟨hpasses, rfl⟩ := ofConfig_eq_ok.mp hc
  obtain ⟨n, hn, hfits⟩ := (Markdown.wellFormed_eventsOf config.markdown text).1
  obtain ⟨t, ds, haudit, hannotated⟩ := exists_annotated hfits hpasses
    ((imageSource { config, pipeline := ⟨config.passes⟩, codec } ".").probe files)
      config.markdown.deletion
  rw [hn] at haudit
  exact ⟨_, check_eq haudit source, hannotated⟩

/-- With the passes by default a report has findings if and only if the tree of the text has a
fault. -/
theorem check_verdict (hpasses : config.passes = ({} : Config).passes)
    (hc : ofConfig config codec = .ok c) :
    ∃ t r,
      buildTree c.config.markdown.deletion TableHook.none () (eventsOf c.config.markdown text) =
        .ok (t, ()) ∧
      c.check files source text = .ok r ∧ Verdict t r.diagnostics := by
  obtain ⟨-, rfl⟩ := ofConfig_eq_ok.mp hc
  obtain ⟨n, hn, hfits, hsheltered⟩ := (Markdown.wellFormed_eventsOf config.markdown text).2
  have hpipeline : (⟨config.passes⟩ : Audit.Pipeline) = defaultPipeline :=
    congrArg Audit.Pipeline.mk hpasses
  obtain ⟨u, ds, haudit, hverdict⟩ := exists_verdict hfits hsheltered
    ((imageSource { config, pipeline := ⟨config.passes⟩, codec } ".").probe files)
      config.markdown.deletion
  rw [← hpipeline, hn] at haudit
  refine ⟨n.tree config.markdown.deletion, _, ?_, check_eq haudit source, hverdict⟩
  rw [← hn]
  exact n.buildTree_none _

end AccessibleMarkdown.Checker
