import AccessibleMarkdown.Audit.ImageFile
import AccessibleMarkdown.Audit.Pipeline
import AccessibleMarkdown.Proofs.Audit.Effects
import AccessibleMarkdown.Proofs.Audit.Repeats
import AccessibleMarkdown.Proofs.Element.Attributes
import AccessibleMarkdown.Proofs.Text.Lines
import AccessibleMarkdown.Proofs.Tree.Dispatch

/-!
# Messages on one line

All that a message takes from a document is the address of an image, its alternative text, and what
the probe says about the address. If these stay on one line, so does every message.
-/

namespace AccessibleMarkdown

open Text (Unbroken unbroken_append unbroken_literal unbroken_toString)

/-! ## 1. Images -/

/-- The address and the alternative text of an image stay on one line. -/
def Element.OneLine (e : Element) : Prop :=
  e.tag = .img → ∀ name ∈ ["src", "alt"], ∀ value, e.get? name = some value → Unbroken value

theorem Element.OneLine.set {e : Element} {name value : String} (h : e.OneLine)
    (hvalue : name ∈ ["src", "alt"] → Unbroken value) : (e.set name value).OneLine := by
  intro himg k hk v hv
  by_cases hname : k = name
  · subst hname
    rw [Element.get?_set_self, Option.some.injEq] at hv
    exact hv ▸ hvalue hk
  · rw [Element.get?_set_of_ne hname] at hv
    exact h himg k hk v hv

theorem Element.OneLine.set_of_notMem {e : Element} {name : String} (h : e.OneLine)
    (hname : name ∉ ["src", "alt"]) (value : String) : (e.set name value).OneLine :=
  h.set fun hmem => absurd hmem hname

def Tree.OneLine (t : Tree) : Prop := ∀ id e, t.element? id = some e → e.OneLine

theorem Tree.OneLine.modify {t : Tree} {id : NodeId} {f : Element → Element} (h : t.OneLine)
    (hf : ∀ e, e.OneLine → (f e).OneLine) : (t.modify id f).OneLine := by
  intro k e he
  rw [Tree.element?_modify] at he
  split at he
  · obtain ⟨e', he', rfl⟩ := Option.map_eq_some_iff.mp he
    exact hf e' (h k e' he')
  · exact h k e he

namespace Audit

/-- What a probe says about an address on one line is on one line itself. -/
def OneLineProbe (probe : Probe) : Prop :=
  ∀ src err, Unbroken src → probe src = .error err → Unbroken err.message

theorem unbroken_srcOf {e : Element} (h : e.OneLine) (himg : e.tag = .img) :
    Unbroken (srcOf e) := by
  rw [srcOf]
  cases hsrc : e.get? "src" with
  | none => exact (unbroken_literal rfl : Unbroken "")
  | some src => exact h himg "src" List.mem_cons_self src hsrc

/-! ## 2. Audits -/

/-- An audit on its way: no rule has a line break, and if images are `clean`, then nor has a
message. -/
structure Says (clean : Prop) (s : Tree × Diagnostics) : Prop where
  images : clean → s.1.OneLine
  rules : ∀ d ∈ s.2, Unbroken d.rule
  messages : clean → ∀ d ∈ s.2, Unbroken d.message

variable {clean : Prop} {t : Tree} {ds : Diagnostics} {s : Tree × Diagnostics}
  {probe : Probe} {id : NodeId} {e : Element} {cx : Context}

namespace Says

theorem append {found : List Diagnostic} (h : Says clean (t, ds))
    (hrules : ∀ d ∈ found, Unbroken d.rule) (hmessages : clean → ∀ d ∈ found, Unbroken d.message) :
    Says clean (t, ds ++ found.toArray) where
  images := h.images
  rules d hd := by
    obtain hd | hd := Array.mem_append.mp hd
    · exact h.rules d hd
    · exact hrules d (List.mem_toArray.mp hd)
  messages hclean d hd := by
    obtain hd | hd := Array.mem_append.mp hd
    · exact h.messages hclean d hd
    · exact hmessages hclean d (List.mem_toArray.mp hd)

theorem push {d : Diagnostic} (h : Says clean (t, ds)) (hrule : Unbroken d.rule)
    (hmessage : clean → Unbroken d.message) : Says clean (t, ds.push d) := by
  rw [Array.push_eq_append]
  refine h.append (fun d' hd => ?_) fun hclean d' hd => ?_
  · rw [List.mem_singleton.mp hd]
    exact hrule
  · rw [List.mem_singleton.mp hd]
    exact hmessage hclean

theorem modify {f : Element → Element} (h : Says clean (t, ds))
    (hf : ∀ e, e.OneLine → (f e).OneLine) : Says clean (t.modify id f, ds) :=
  ⟨fun hclean => (h.images hclean).modify hf, h.rules, h.messages⟩

end Says

/-! ## 3. Visitors -/

theorem unbroken_altFault {rule message : String} (hfault : altFault? e = some (rule, message)) :
    Unbroken rule ∧ (Unbroken (srcOf e) → Unbroken message) := by
  have hmissing : Unbroken "alt-missing" ∧ Unbroken "Found an image with no alt text for " :=
    ⟨unbroken_literal rfl, unbroken_literal rfl⟩
  have hempty : Unbroken "alt-empty" ∧ Unbroken "Found an image with empty alt text for " :=
    ⟨unbroken_literal rfl, unbroken_literal rfl⟩
  unfold altFault? at hfault
  split at hfault
  · cases hfault
    exact ⟨hmissing.1, fun hsrc => unbroken_append.mpr ⟨hmissing.2, hsrc⟩⟩
  · cases hfault
    exact ⟨hempty.1, fun hsrc => unbroken_append.mpr ⟨hempty.2, hsrc⟩⟩
  · cases hfault

theorem says_altRepair (h : Says clean s) (he : s.1.element? id = some e) :
    Says clean (altRepair id e cx s).1 := by
  obtain ⟨t, ds⟩ := s
  refine Visitor.only_keeps h fun himg => ?_
  simp only [repairAlt]
  split
  · rename_i rule message hfault
    obtain ⟨hrule, hmessage⟩ := unbroken_altFault hfault
    have hplaceholder : Unbroken altPlaceholder := unbroken_literal rfl
    refine (h.modify fun e he => he.set fun _ => hplaceholder).push hrule fun hclean => hmessage ?_
    exact unbroken_srcOf (h.images hclean id e he) himg
  · exact h

theorem unbroken_repeatNote (h : t.OneLine) (path : Path) (id : NodeId) :
    Unbroken (repeatNote t path id).message := by
  have hopen : Unbroken "Found an image with duplicate alt text(" := unbroken_literal rfl
  have hclose : Unbroken ") for " := unbroken_literal rfl
  have hnothing : Unbroken "" := unbroken_literal rfl
  have htexts :
      Unbroken ((altAt? t id).getD "") ∧ Unbroken (((imageAt? t id).map srcOf).getD "") := by
    rw [altAt?]
    cases himg : imageAt? t id with
    | none => exact ⟨hnothing, hnothing⟩
    | some img =>
      obtain ⟨he, htag⟩ := Option.filter_eq_some_iff.mp himg
      have himg := beq_iff_eq.mp htag
      refine ⟨?_, unbroken_srcOf (h id img he) himg⟩
      rw [Option.bind_some]
      cases halt : img.get? "alt" with
      | none => exact hnothing
      | some alt => exact h id img he himg "alt" (by decide +kernel) alt halt
  simp only [repeatNote, unbroken_append]
  exact ⟨⟨⟨hopen, htexts.1⟩, hclose⟩, htexts.2⟩

theorem says_altDuplicates (h : Says clean s) : Says clean (altDuplicates id e cx s).1 := by
  obtain ⟨t, ds⟩ := s
  have hrule : Unbroken "alt-duplicate" := unbroken_literal rfl
  refine Visitor.only_keeps h fun _ => ?_
  rw [reportRepeats, altRepeats_eq]
  refine h.append (fun d hd => ?_) fun hclean d hd => ?_
  · obtain ⟨x, -, rfl⟩ := List.mem_map.mp hd
    exact hrule
  · obtain ⟨x, -, rfl⟩ := List.mem_map.mp hd
    exact unbroken_repeatNote (h.images hclean) _ _

theorem says_headingRoles (h : Says clean s) : Says clean (headingRoles id e cx s).1 := by
  obtain ⟨t, ds⟩ := s
  have hrule : Unbroken "aria-role-set" := unbroken_literal rfl
  have hmessage : ∀ role : LandmarkRole, Unbroken ("Setting role to " ++ role.name) := by
    intro role
    have hopen : Unbroken "Setting role to " := unbroken_literal rfl
    refine unbroken_append.mpr ⟨hopen, ?_⟩
    cases role <;> exact unbroken_literal rfl
  refine Visitor.only_keeps h fun _ => ?_
  simp only [applyRole]
  split
  · exact h
  · split
    · exact h
    · refine (h.modify fun e he => ?_).push hrule fun _ => hmessage _
      exact Element.OneLine.set_of_notMem he (by decide +kernel) _

theorem says_tableRoles (h : Says clean s) : Says clean (tableRoles id e cx s).1 := by
  obtain ⟨t, ds⟩ := s
  refine Visitor.only_keeps h fun _ => ?_
  exact h.modify fun e he =>
    (he.set_of_notMem (by decide +kernel) _).set_of_notMem (by decide +kernel) _

theorem says_tableIndex (h : Says clean s) : Says clean (tableIndex id e cx s).1 := by
  obtain ⟨t, ds⟩ := s
  have hrole : ∀ role e, Element.OneLine e → (setRole role e).OneLine := fun _ e he =>
    he.set_of_notMem (by decide +kernel) _
  refine Visitor.ofSlots_keeps h fun slot handler _ hhandler => ?_
  split at hhandler <;> cases hhandler
  · exact h.modify (hrole _)
  · exact h.modify (hrole _)
  · refine h.modify fun e he => ?_
    dsimp only
    split
    · exact (hrole _ e he).set_of_notMem (by decide +kernel) _
    · exact hrole _ e he
  · exact h.modify (hrole _)
  · exact h.modify (hrole _)

theorem unbroken_twoPlaces (bits : UInt64) : Unbroken (Decimal.twoPlaces bits) := by
  have hsign : ∀ negative, Unbroken (Decimal.Binary64.sign negative) := by
    intro negative
    cases negative <;> exact unbroken_literal rfl
  have hhundredths : ∀ n, Unbroken (Decimal.hundredths n) := by
    intro n
    have hpoint : Unbroken "." := unbroken_literal rfl
    have hzero : Unbroken (if n % 100 < 10 then "0" else "") := by
      split <;> exact unbroken_literal rfl
    simp only [Decimal.hundredths, unbroken_append]
    exact ⟨⟨⟨unbroken_toString _, hpoint⟩, hzero⟩, unbroken_toString _⟩
  unfold Decimal.twoPlaces
  split
  · exact unbroken_literal rfl
  · exact unbroken_append.mpr ⟨hsign _, unbroken_literal rfl⟩
  · exact unbroken_append.mpr ⟨hsign _, hhundredths _⟩

theorem unbroken_rule_contrastVerdict (probe : Probe) (src : Option String) :
    Unbroken (contrastVerdict probe src).1 :=
  (by decide +kernel : ∀ rule ∈ contrastRules, Unbroken rule) _ (rule_contrastVerdict probe src)

theorem unbroken_contrastVerdict (hprobe : OneLineProbe probe) {src : Option String}
    (hsrc : ∀ value, src = some value → Unbroken value) :
    Unbroken (contrastVerdict probe src).2 := by
  have hnone : Unbroken "Found an image with no src attribute" := unbroken_literal rfl
  unfold contrastVerdict
  split
  · exact hnone
  · exact hnone
  · rename_i src _
    have hsrc := hsrc src rfl
    split
    · have hopen : Unbroken "Estimated contrast of the image(" := unbroken_literal rfl
      have hclose : Unbroken ") is " := unbroken_literal rfl
      simp only [unbroken_append]
      exact ⟨⟨⟨hopen, hsrc⟩, hclose⟩, unbroken_twoPlaces _⟩
    · have hopen : Unbroken "No image found. Check the path for " := unbroken_literal rfl
      exact unbroken_append.mpr ⟨hopen, hsrc⟩
    · rename_i err _ herr
      have hopen : Unbroken "Image " := unbroken_literal rfl
      have hclose : Unbroken " could not be read: " := unbroken_literal rfl
      simp only [unbroken_append]
      exact ⟨⟨⟨hopen, hsrc⟩, hclose⟩, hprobe src err hsrc herr⟩

theorem says_contrastReport (hprobe : clean → OneLineProbe probe) (h : Says clean s)
    (he : s.1.element? id = some e) : Says clean (contrastReport probe id e cx s).1 := by
  obtain ⟨t, ds⟩ := s
  refine Visitor.only_keeps h fun himg => ?_
  refine h.push (unbroken_rule_contrastVerdict probe _) fun hclean =>
    unbroken_contrastVerdict (hprobe hclean) ?_
  exact h.images hclean id e he himg "src" List.mem_cons_self

/-! ## 4. Passes -/

/-- **Step.** A pass says nothing on more than one line if the images do not. -/
theorem says_run (hprobe : clean → OneLineProbe probe) (pass : Pass) (scope : NodeId)
    (h : Says clean (t, ds)) : Says clean (pass.run probe scope t ds) := by
  cases pass with
  | altCheck =>
    exact Tree.walkFrom_keeps (fun _ _ _ _ _ h => says_altDuplicates h) scope
      (Tree.walkFrom_keeps (fun _ _ _ _ he h => says_altRepair h he) scope h)
  | titleCheck =>
    have hfaults : ∀ d ∈ titleFaults t, Unbroken d.rule ∧ Unbroken d.message := by
      unfold titleFaults
      split <;> decide +kernel
    exact h.append (fun d hd => (hfaults d hd).1) fun _ d hd => (hfaults d hd).2
  | ariaRole => exact Tree.walkFrom_keeps (fun _ _ _ _ _ h => says_headingRoles h) scope h
  | ariaTableRole => exact Tree.walkFrom_keeps (fun _ _ _ _ _ h => says_tableRoles h) scope h
  | ariaTableIndex => exact Tree.walkFrom_keeps (fun _ _ _ _ _ h => says_tableIndex h) scope h
  | imageContrast =>
    exact Tree.walkFrom_keeps (fun _ _ _ _ he h => says_contrastReport hprobe h he) scope h

/-- **Run.** Nor do the passes of a stage, whatever the pipeline lists, and how often. -/
theorem says_runStage (hprobe : clean → OneLineProbe probe) (pipeline : Pipeline) (stage : Stage)
    (scope : NodeId) (h : Says clean (t, ds)) :
    Says clean (pipeline.runStage probe stage scope t ds) :=
  List.foldlRecOn _ _ h fun _ h pass _ => says_run hprobe pass scope h

end Audit

/-! ## 5. Image files -/

/-- Between quotes, breaks are escaped. -/
theorem Text.Quoted.notMem_escape (raw : Char → Bool) (c : Char) : '\n' ∉ escape raw c := by
  have hdigits : '\n' ∉ Nat.toDigits 16 c.toNat := notMem_toDigits (by decide) (by decide) c.toNat
  unfold escape
  split
  case h_7 hbreak _ _ _ =>
    split
    · exact fun hmem => hbreak (List.mem_singleton.mp hmem).symm
    · simp [hdigits]
  all_goals decide

theorem Image.Format.unbroken_name (format : Image.Format) : Unbroken format.name := by
  cases format <;> exact unbroken_literal rfl

theorem Image.DecodeError.unbroken_quoteExtension (extension : String) :
    Unbroken (quoteExtension extension) := by
  have hquote : '\n' ∉ (Text.quote extension).toList := by
    simp [Text.quote, Text.Quoted.encode, Text.Quoted.notMem_escape]
  intro hbreak
  rw [quoteExtension, String.toList_ofList] at hbreak
  obtain ⟨c, hc, hbreak⟩ := List.mem_flatMap.mp hbreak
  split at hbreak
  · revert hbreak
    decide
  · exact hquote (List.mem_singleton.mp hbreak ▸ hc)

/-- All but the messages of a codec are known here. -/
theorem Image.DecodeError.unbroken_message {err : Image.DecodeError}
    (hown : ∀ message, err ≠ .codec message) : Unbroken err.message := by
  cases err with
  | undetermined => exact unbroken_literal rfl
  | unknownExtension extension =>
    have hopen : Unbroken "The file extension \x60." := unbroken_literal rfl
    have hclose : Unbroken "\x60 was not recognized as an image format" := unbroken_literal rfl
    have hname := unbroken_append.mpr ⟨hopen, unbroken_quoteExtension extension⟩
    exact unbroken_append.mpr ⟨hname, hclose⟩
  | unsupported format =>
    have hopen : Unbroken "The image format " := unbroken_literal rfl
    have hclose : Unbroken " is not supported" := unbroken_literal rfl
    exact unbroken_append.mpr ⟨unbroken_append.mpr ⟨hopen, format.unbroken_name⟩, hclose⟩
  | png fault => cases fault <;> exact unbroken_literal rfl
  | codec message => exact absurd rfl (hown message)

/-- What the codec says is wrong with a file is said on one line. -/
def Image.Codec.OneLine (codec : Image.Codec) : Prop :=
  ∀ format limit file err, codec format limit file = .error err → Unbroken err.message

theorem Image.Codec.oneLine_absent : Image.Codec.absent.OneLine := by
  intro format limit file err herr
  cases herr
  exact DecodeError.unbroken_message nofun

theorem Image.formatOf_ne_codec {extension : Option String} {file : List UInt8} {err : DecodeError}
    (herr : formatOf extension file = .error err) (message : String) : err ≠ .codec message := by
  rintro rfl
  unfold formatOf at herr
  split at herr
  · cases herr
  · cases herr
  · split at herr <;> cases herr

theorem Image.unbroken_message_decode {codec : Codec} (hcodec : codec.OneLine) {limit : Nat}
    {extension : Option String} {file : List UInt8} {err : DecodeError}
    (herr : decode codec limit extension file = .error err) : Unbroken err.message := by
  rw [decode] at herr
  cases hformat : formatOf extension file with
  | error fault =>
    rw [hformat] at herr
    cases herr
    exact DecodeError.unbroken_message (formatOf_ne_codec hformat)
  | ok format =>
    rw [hformat] at herr
    -- PNG is read here first, three formats by the codec alone, and all others are not supported.
    cases format with
    | png =>
      cases hpng : Png.decode? limit file with
      | error fault =>
        simp only [bind, Except.bind, hpng, Except.mapError] at herr
        cases herr
        exact DecodeError.unbroken_message nofun
      | ok found =>
        simp only [bind, Except.bind, hpng, Except.mapError] at herr
        cases found with
        | none => exact hcodec _ _ _ _ herr
        | some luminances => cases herr
    | jpeg => exact hcodec _ _ _ _ herr
    | gif => exact hcodec _ _ _ _ herr
    | webP => exact hcodec _ _ _ _ herr
    | _ =>
      cases herr
      exact DecodeError.unbroken_message nofun

/-- What the system says of a file that cannot be read is said on one line. -/
def File.OneLine (files : File.Files) : Prop :=
  ∀ path reason, files path = .unreadable reason → Unbroken reason

namespace Audit

variable {s : ImageSource}

theorem unbroken_resolve (hbase : Unbroken s.base)
    (hfixture : ∀ file, s.fixture = some file → Unbroken file) {src : String}
    (hsrc : Unbroken src) : Unbroken (s.resolve src) := by
  have hslash : Unbroken "/" := unbroken_literal rfl
  rw [ImageSource.resolve]
  cases hfile : s.fixture with
  | some file => exact hfixture file hfile
  | none =>
    rw [Option.getD_none, File.join]
    split
    · exact hsrc
    · split <;> simp [hbase, hslash, hsrc]

theorem unbroken_message_load {files : File.Files} {path : String} {err : ProbeError}
    (hcodec : s.codec.OneLine) (hfiles : File.OneLine files) (hpath : Unbroken path)
    (herr : s.load files path = .error err) : Unbroken err.message := by
  have hcolon : Unbroken ": " := unbroken_literal rfl
  have hmissing : Unbroken (ProbeError.notFound path).message := by
    have hopen : Unbroken "image not found: " := unbroken_literal rfl
    exact unbroken_append.mpr ⟨hopen, hpath⟩
  rw [ImageSource.load] at herr
  split at herr
  · rename_i bytes _
    cases hdecode : Image.decode s.codec s.limit (File.extension? path) bytes.data.toList with
    | error fault =>
      rw [hdecode] at herr
      cases herr
      have hopen : Unbroken "failed to decode " := unbroken_literal rfl
      have hfile := unbroken_append.mpr ⟨unbroken_append.mpr ⟨hopen, hpath⟩, hcolon⟩
      exact unbroken_append.mpr ⟨hfile, Image.unbroken_message_decode hcodec hdecode⟩
    | ok luminances =>
      rw [hdecode] at herr
      cases herr
  · rename_i reason hreason
    cases herr
    have hopen : Unbroken "failed to read " := unbroken_literal rfl
    have hfile := unbroken_append.mpr ⟨unbroken_append.mpr ⟨hopen, hpath⟩, hcolon⟩
    exact unbroken_append.mpr ⟨hfile, hfiles path reason hreason⟩
  -- Whatever else is found under the name, the message is that there is no image.
  all_goals
    cases herr
    exact hmissing

/-- Files are looked for on one line, and what is wrong with one is said on one line. -/
theorem oneLineProbe_probe {files : File.Files} (hbase : Unbroken s.base)
    (hfixture : ∀ file, s.fixture = some file → Unbroken file) (hcodec : s.codec.OneLine)
    (hfiles : File.OneLine files) : OneLineProbe (s.probe files) := by
  intro src err hsrc herr
  have hpath := unbroken_resolve hbase hfixture hsrc
  have hempty : Unbroken "image has no pixels: " := unbroken_literal rfl
  rw [ImageSource.probe] at herr
  cases hload : s.load files (s.resolve src) with
  | error fault =>
    rw [hload] at herr
    cases herr
    exact unbroken_message_load hcodec hfiles hpath hload
  | ok luminances =>
    rw [hload] at herr
    cases hspread : Image.spread luminances with
    | some value =>
      simp only [bind, Except.bind, hspread] at herr
      cases herr
    | none =>
      simp only [bind, Except.bind, hspread] at herr
      cases herr
      exact unbroken_append.mpr ⟨hempty, hpath⟩

end Audit

end AccessibleMarkdown
