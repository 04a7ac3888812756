import AccessibleMarkdown.Proofs.Markdown.Hyphens

/-!
# The pieces of a text

Deletion markup divides a text in one way: from the left, each marker that is closed on its line
ends at the first hyphens that can close it. The pieces are known by what they are, without the
scanner; the scanner finds them, and reads no place inside a character on its way.
-/

namespace AccessibleMarkdown.Markdown

/-- A piece as it stood in the text that it was cut from. -/
def Segment.source : Segment → String
  | text run => run
  | deleted run => "--" ++ run ++ "--"

def sources (segments : List Segment) : String := String.join (segments.map Segment.source)

theorem sources_cons (segment : Segment) (rest : List Segment) :
    sources (segment :: rest) = segment.source ++ sources rest := by
  rw [sources, List.map_cons, String.join_cons, sources]

namespace Deletion

/-! ## Segmentations -/

/-- Pieces that do not start with plain text. -/
def StartsCut (segments : List Segment) : Prop := ∀ run after, segments ≠ .text run :: after

/-- The pieces of a text. What is plain is cut nowhere, since no marker in it is closed on its
line. -/
structure Segmentation (text : String) (segments : List Segment) : Prop where
  sources_eq : sources segments = text
  enclosed : ∀ run, .deleted run ∈ segments → Enclosed run.toList
  nonempty : .text "" ∉ segments
  apart : ∀ before run after, segments = before ++ .text run :: after → StartsCut after
  plain : ∀ before run after, segments = before ++ .text run :: after →
    Plain run.toList (sources after).toList

variable {text run rest : String} {segment : Segment} {segments others : List Segment}

theorem segmentation_nil : Segmentation "" [] where
  sources_eq := rfl
  enclosed _ h := absurd h List.not_mem_nil
  nonempty := List.not_mem_nil
  apart := by simp
  plain := by simp

namespace Segmentation

theorem tail (h : Segmentation text (segment :: segments)) :
    Segmentation (sources segments) segments where
  sources_eq := rfl
  enclosed r hr := h.enclosed r (List.mem_cons_of_mem _ hr)
  nonempty hr := h.nonempty (List.mem_cons_of_mem _ hr)
  apart before r after heq := h.apart (segment :: before) r after (by rw [heq, List.cons_append])
  plain before r after heq := h.plain (segment :: before) r after (by rw [heq, List.cons_append])

theorem deleted_cons (h : Segmentation rest segments) (hrun : Enclosed run.toList) :
    Segmentation ("--" ++ run ++ "--" ++ rest) (.deleted run :: segments) where
  sources_eq := by rw [sources_cons, h.sources_eq, Segment.source]
  enclosed r hr := by
    obtain heq | hr := List.mem_cons.mp hr
    · cases heq
      exact hrun
    · exact h.enclosed r hr
  nonempty := by simpa using h.nonempty
  apart before r after heq := by
    cases before with
    | nil => cases heq
    | cons first before => exact h.apart before r after (List.cons.inj heq).2
  plain before r after heq := by
    cases before with
    | nil => cases heq
    | cons first before => exact h.plain before r after (List.cons.inj heq).2

theorem text_cons (h : Segmentation rest segments) (hrun : run ≠ "")
    (hplain : Plain run.toList rest.toList) (hcut : StartsCut segments) :
    Segmentation (run ++ rest) (.text run :: segments) where
  sources_eq := by rw [sources_cons, h.sources_eq, Segment.source]
  enclosed r hr := h.enclosed r (by simpa using hr)
  nonempty := by simpa [hrun.symm] using h.nonempty
  apart before r after heq := by
    cases before with
    | nil =>
      cases heq
      exact hcut
    | cons first before => exact h.apart before r after (List.cons.inj heq).2
  plain before r after heq := by
    cases before with
    | nil =>
      cases heq
      rwa [h.sources_eq]
    | cons first before => exact h.plain before r after (List.cons.inj heq).2

/-! ## There is only one -/

theorem toList_text (h : Segmentation text (.text run :: segments)) :
    text.toList = run.toList ++ (sources segments).toList := by
  rw [← h.sources_eq, sources_cons, String.toList_append, Segment.source]

theorem toList_deleted (h : Segmentation text (.deleted run :: segments)) :
    text.toList = '-' :: '-' :: (run.toList ++ '-' :: '-' :: (sources segments).toList) := by
  rw [← h.sources_eq, sources_cons, Segment.source]
  simp

theorem opens (h : Segmentation text (.deleted run :: segments)) : Opens text.toList :=
  ⟨run.toList, (sources segments).toList, h.toList_deleted,
    (h.enclosed run List.mem_cons_self).one_line⟩

theorem ne_empty (h : Segmentation text (.text run :: segments)) : run ≠ "" :=
  fun heq => h.nonempty (heq ▸ List.mem_cons_self)

theorem not_opens (h : Segmentation text (.text run :: segments)) : ¬ Opens text.toList := by
  rw [h.toList_text]
  exact h.plain [] run segments rfl run.toList (by simpa using h.ne_empty) List.suffix_rfl

theorem eq_nil (h : Segmentation "" segments) : segments = [] := by
  match segments with
  | [] => rfl
  | .text run :: _ =>
    have hrun := (List.append_eq_nil_iff.mp h.toList_text.symm).1
    exact absurd (String.toList_eq_nil_iff.mp hrun) h.ne_empty
  | .deleted run :: _ => cases h.toList_deleted

/-- Of the plain beginnings of two segmentations none is longer than the other: a deleted piece
would open in it. -/
theorem eq_nil_of_longer (h : Segmentation text (.text run :: segments)) {other : String}
    (h' : Segmentation text (.text other :: others)) {more : List Char}
    (hrun : run.toList = other.toList ++ more) : more = [] := by
  have hothers : (sources others).toList = more ++ (sources segments).toList := by
    have htext := h.toList_text.symm.trans h'.toList_text
    rw [hrun, List.append_assoc] at htext
    exact (List.append_cancel_left htext).symm
  match others with
  | [] => exact (List.append_eq_nil_iff.mp hothers.symm).1
  | .text next :: after => exact absurd rfl (h'.apart [] other _ rfl next after)
  | .deleted next :: after =>
    have hopens := h'.tail.opens
    rw [hothers] at hopens
    cases more with
    | nil => rfl
    | cons c more =>
      exact absurd hopens
        (h.plain [] run segments rfl _ (List.cons_ne_nil c more) ⟨other.toList, hrun.symm⟩)

theorem head_eq {other : Segment} (h : Segmentation text (segment :: segments))
    (h' : Segmentation text (other :: others)) : segment = other := by
  match segment, other with
  | .text run, .deleted other => exact absurd h'.opens h.not_opens
  | .deleted run, .text other => exact absurd h.opens h'.not_opens
  | .text run, .text other =>
    have htext := h.toList_text.symm.trans h'.toList_text
    obtain ⟨more, hother, -⟩ | ⟨more, hrun, -⟩ := List.append_eq_append_iff.mp htext
    · obtain rfl := h'.eq_nil_of_longer h hother
      rw [List.append_nil] at hother
      rw [String.toList_inj.mp hother]
    · obtain rfl := h.eq_nil_of_longer h' hrun
      rw [List.append_nil] at hrun
      rw [String.toList_inj.mp hrun]
  | .deleted run, .deleted other =>
    -- Both runs end at the first hyphens after those that the text starts with.
    have htext := h.toList_deleted.symm.trans h'.toList_deleted
    have hrun := (h.enclosed run List.mem_cons_self).cut (sources segments).toList
    rw [(List.cons.inj (List.cons.inj htext).2).2,
      (h'.enclosed other List.mem_cons_self).cut] at hrun
    rw [String.toList_inj.mp (Prod.mk.inj (Option.some.inj hrun)).1]

/-- **One segmentation.** No text is divided into such pieces in two ways. -/
theorem unique (h : Segmentation text segments) (h' : Segmentation text others) :
    segments = others := by
  induction segments generalizing text others with
  | nil =>
    obtain rfl : "" = text := h.sources_eq
    exact h'.eq_nil.symm
  | cons segment segments ih =>
    match others with
    | [] =>
      obtain rfl : "" = text := h'.sources_eq
      exact h.eq_nil
    | other :: others =>
      obtain rfl := h.head_eq h'
      have htext := h.sources_eq.trans h'.sources_eq.symm
      rw [sources_cons, sources_cons, String.append_right_inj] at htext
      rw [ih h.tail (htext ▸ h'.tail)]

end Segmentation

/-! ## The scanner finds it -/

theorem exists_keep? {text before run rest : String} (htext : text = before ++ run ++ rest)
    (h : Segmentation rest segments) (hplain : Plain run.toList rest.toList)
    (hcut : StartsCut segments) :
    ∃ kept, keep? text before.utf8ByteSize (before ++ run).utf8ByteSize segments = some kept ∧
      Segmentation (run ++ rest) kept := by
  unfold keep?
  by_cases hrun : run = ""
  · refine ⟨segments, if_neg ?_, ?_⟩
    · simp [hrun]
    · rwa [hrun, String.empty_append]
  · have hslice : Text.slice? text before.utf8ByteSize (before ++ run).utf8ByteSize = some run :=
      Text.slice?_eq_some_iff.mpr ⟨before, rest, htext, rfl, rfl⟩
    have hsize : run.utf8ByteSize ≠ 0 := mt String.utf8ByteSize_eq_zero_iff.mp hrun
    refine ⟨.text run :: segments, ?_, h.text_cons hrun hplain hcut⟩
    rw [if_pos (by rw [String.utf8ByteSize_append]; omega), hslice]
    rfl

/-- **The scanner.** Between two characters, and where nothing opens in the plain text that it has
passed, it finishes, and what it finds are the pieces of the rest. -/
theorem exists_splitFrom? (text : String) (plain search : Nat) {before passed rest : String}
    (htext : text = before ++ passed ++ rest) (hstart : plain = before.utf8ByteSize)
    (hsearch : search = (before ++ passed).utf8ByteSize)
    (hplain : Plain passed.toList rest.toList) :
    ∃ segments, splitFrom? text plain search = some segments ∧
      Segmentation (passed ++ rest) segments := by
  fun_induction splitFrom? text plain search generalizing before passed rest with
  | case1 plain search h =>
    obtain ⟨m, hm, -⟩ := exists_marker? htext
    rw [← hsearch, h] at hm
    cases hm
  | case2 plain search h =>
    have hrest : Plain rest.toList "".toList := describes_of_marker? h htext hsearch
    have hall : Plain (passed ++ rest).toList "".toList :=
      plain_toList_append.mpr ⟨by rwa [String.append_empty], hrest⟩
    have hend : text = before ++ (passed ++ rest) ++ "" := by
      rw [htext, String.append_empty, String.append_assoc]
    obtain ⟨segments, hkeep, hsegments⟩ :=
      exists_keep? hend segmentation_nil hall (by simp [StartsCut])
    rw [String.append_empty] at hsegments
    rw [← String.append_assoc, ← htext, ← hstart] at hkeep
    exact ⟨segments, hkeep, hsegments⟩
  | case3 plain search start h ih =>
    obtain ⟨more, rest, rfl, hplace, hmore⟩ := describes_of_marker? h htext hsearch
    rw [← String.append_assoc]
    refine ih ?_ hstart ?_ (plain_toList_append.mpr ⟨hplain, hmore⟩)
    · simp only [htext, String.append_assoc]
    · rw [hplace, String.append_assoc]
  | case4 plain search start stop h ih =>
    obtain ⟨more, run, rest, rfl, hopen, hclose, hmore, hrun⟩ :=
      describes_of_marker? h htext hsearch
    have hslice : Text.slice? text (start + 2) stop = some run :=
      Text.slice?_eq_some_iff.mpr ⟨before ++ passed ++ more ++ "--", "--" ++ rest,
        by simp only [htext, String.append_assoc],
        by rw [hopen, ← size_hyphens, ← String.utf8ByteSize_append], hclose⟩
    have hnext : stop + 2 = (before ++ passed ++ more ++ "--" ++ run ++ "--").utf8ByteSize := by
      rw [hclose, ← size_hyphens, ← String.utf8ByteSize_append]
    -- After the deleted piece nothing has been passed yet.
    obtain ⟨tail, htail, hsegments⟩ := @ih (before ++ passed ++ more ++ "--" ++ run ++ "--") "" rest
      (by simp only [htext, String.append_assoc, String.append_empty]) hnext
      (by rw [hnext, String.append_empty])
      plain_nil
    rw [String.empty_append] at hsegments
    have hcut : text = before ++ (passed ++ more) ++ ("--" ++ run ++ "--" ++ rest) := by
      simp only [htext, String.append_assoc]
    obtain ⟨segments, hkeep, hkept⟩ := exists_keep? hcut (hsegments.deleted_cons hrun)
      (plain_toList_append.mpr ⟨hplain, hmore⟩) (by simp [StartsCut])
    refine ⟨segments, ?_, String.append_assoc ▸ hkept⟩
    simp only [hslice, htail, bind, Option.bind_some]
    rw [hstart, hopen, String.append_assoc]
    exact hkeep

/-! ## Splitting -/

theorem splitFrom?_start (text : String) :
    splitFrom? text 0 0 = some (split text) ∧ Segmentation text (split text) := by
  have htext : text = "" ++ "" ++ text := by simp
  obtain ⟨segments, hsplit, hsegments⟩ := exists_splitFrom? text 0 0 htext rfl rfl plain_nil
  rw [String.empty_append] at hsegments
  rw [split, hsplit]
  exact ⟨rfl, hsegments⟩

theorem segmentation_split (text : String) : Segmentation text (split text) :=
  (splitFrom?_start text).2

/-- **Splitting loses nothing.** Written back as they stood, the pieces of a text are the text. -/
theorem sources_split (text : String) : sources (split text) = text :=
  (segmentation_split text).sources_eq

/-- A plain piece of a text is a text that has no other piece. -/
theorem Segmentation.piece (h : Segmentation text segments) (hrun : .text run ∈ segments) :
    Segmentation run [.text run] := by
  obtain ⟨before, after, rfl⟩ := List.mem_iff_append.mp hrun
  have hne : run ≠ "" := fun heq => h.nonempty (heq ▸ hrun)
  have hplain : Plain run.toList "".toList := (h.plain before run after rfl).alone
  simpa using segmentation_nil.text_cons hne hplain (by simp [StartsCut])

/-- **The division of a text.** The scanner finishes on every text without reading a place inside a
character. What it returns is the one segmentation of the text, and a plain piece of it is not
divided any further. -/
theorem split_divides (text : String) :
    splitFrom? text 0 0 = some (split text) ∧ Segmentation text (split text) ∧
      (∀ segments, Segmentation text segments → segments = split text) ∧
      ∀ run, .text run ∈ split text → split run = [.text run] := by
  obtain ⟨hscan, hsegments⟩ := splitFrom?_start text
  refine ⟨hscan, hsegments, fun segments h => h.unique hsegments, fun run hrun => ?_⟩
  exact (segmentation_split run).unique (hsegments.piece hrun)

end Deletion

end AccessibleMarkdown.Markdown
