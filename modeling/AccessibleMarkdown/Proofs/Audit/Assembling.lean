import AccessibleMarkdown.Checker
import Mathlib.Data.List.Nodup
import Mathlib.Data.Nat.Find

/-!
# Assembling pipelines

A pipeline takes a pass unless it has it already, and refuses it otherwise. Listed passes are
assembled into one if none of them is repeated; the first that is becomes the error. The probe that
is given away once brings no other error, and none at another place.
-/

namespace AccessibleMarkdown

namespace Audit

variable {passes before : List Pass} {pass : Pass} {i : Nat}

/-! ## 1. Repetitions -/

/-- The pass stands at the place, and before it too. -/
def RepeatsAt (passes : List Pass) (i : Nat) (pass : Pass) : Prop :=
  passes[i]? = some pass ∧ pass ∈ passes.take i

/-- No pass is repeated at an earlier place. -/
def FirstRepeat (passes : List Pass) (i : Nat) (pass : Pass) : Prop :=
  RepeatsAt passes i pass ∧ ∀ j < i, ∀ other, ¬ RepeatsAt passes j other

theorem nodup_iff_not_repeatsAt : passes.Nodup ↔ ∀ i pass, ¬ RepeatsAt passes i pass := by
  rw [List.nodup_iff_getElem?_ne_getElem?]
  constructor
  · rintro h i pass ⟨hpass, hmem⟩
    obtain ⟨j, hj, hearlier⟩ := List.mem_take_iff_getElem.mp hmem
    have hlt := (List.getElem?_eq_some_iff.mp hpass).1
    apply h j i (by omega) hlt
    rw [hpass, ← hearlier, List.getElem?_eq_getElem]
  · intro h i j hij hj heq
    apply h j passes[j]
    refine ⟨List.getElem?_eq_getElem hj, List.mem_take_iff_getElem.mpr ⟨i, by omega, ?_⟩⟩
    rw [List.getElem?_eq_getElem hj, List.getElem?_eq_getElem (by omega)] at heq
    exact Option.some.inj heq

theorem exists_firstRepeat (h : ¬ passes.Nodup) : ∃ i pass, FirstRepeat passes i pass := by
  classical
  have hsome : ∃ i pass, RepeatsAt passes i pass := by
    by_contra hnone
    exact h (nodup_iff_not_repeatsAt.mpr fun i pass hrepeat => hnone ⟨i, pass, hrepeat⟩)
  obtain ⟨pass, hrepeat⟩ := Nat.find_spec hsome
  exact ⟨Nat.find hsome, pass, hrepeat,
    fun j hj other hother => Nat.find_min hsome hj ⟨other, hother⟩⟩

theorem FirstRepeat.nodup_take (h : FirstRepeat passes i pass) : (passes.take i).Nodup := by
  rw [nodup_iff_not_repeatsAt]
  rintro j other ⟨hother, hmem⟩
  have hlt := (List.getElem?_eq_some_iff.mp hother).1
  rw [List.length_take] at hlt
  rw [List.getElem?_take_of_lt (by omega)] at hother
  rw [List.take_take, min_eq_left (by omega)] at hmem
  exact h.2 j (by omega) other ⟨hother, hmem⟩

/-! ## 2. Registering -/

namespace Pipeline

variable {p q : Pipeline}

theorem enroll_of_mem (h : pass ∈ p.passes) : p.enroll pass = (p, .error (.duplicatePass pass)) :=
  if_pos (List.contains_iff_mem.mpr h)

theorem enroll_of_notMem (h : pass ∉ p.passes) : p.enroll pass = (⟨p.passes ++ [pass]⟩, .ok ()) :=
  if_neg fun hcontains => h (List.contains_iff_mem.mp hcontains)

/-- A pass that is refused leaves the pipeline as it was. -/
theorem enroll_unchanged {err : PipelineError} (h : (p.enroll pass).2 = .error err) :
    (p.enroll pass).1 = p := by
  by_cases hmem : pass ∈ p.passes
  · rw [enroll_of_mem hmem]
  · rw [enroll_of_notMem hmem] at h
    cases h

theorem register_of_mem (h : pass ∈ p.passes) : p.register pass = .error (.duplicatePass pass) := by
  rw [register, enroll_of_mem h]

theorem register_of_notMem (h : pass ∉ p.passes) : p.register pass = .ok ⟨p.passes ++ [pass]⟩ := by
  rw [register, enroll_of_notMem h]

theorem foldlM_register (h : (before ++ passes).Nodup) :
    passes.foldlM register ⟨before⟩ = .ok ⟨before ++ passes⟩ := by
  induction passes generalizing before with
  | nil => rw [List.append_nil]; rfl
  | cons pass passes ih =>
    have hmem : pass ∉ before :=
      fun hpass => (List.nodup_append.mp h).2.2 pass hpass pass List.mem_cons_self rfl
    rw [List.append_cons] at h ⊢
    rw [List.foldlM_cons, register_of_notMem hmem]
    exact ih h

/-- Up to the first repetition all passes are taken. -/
theorem foldlM_register_firstRepeat (h : FirstRepeat passes i pass) :
    passes.foldlM register empty = .error (.duplicatePass pass) := by
  obtain ⟨hpass, hmem⟩ := h.1
  obtain ⟨hlt, hget⟩ := List.getElem?_eq_some_iff.mp hpass
  have hsplit : passes = passes.take i ++ pass :: passes.drop (i + 1) := by
    rw [← hget, ← List.drop_eq_getElem_cons hlt, List.take_append_drop]
  have htaken : (passes.take i).foldlM register empty = .ok ⟨passes.take i⟩ :=
    foldlM_register h.nodup_take
  calc passes.foldlM register empty
      = (passes.take i ++ pass :: passes.drop (i + 1)).foldlM register empty := congrArg _ hsplit
    _ = (pass :: passes.drop (i + 1)).foldlM register ⟨passes.take i⟩ := by
      rw [List.foldlM_append, htaken]
      rfl
    _ = .error (.duplicatePass pass) := by
      rw [List.foldlM_cons, register_of_mem hmem]
      rfl

/-! ## 3. Assembling -/

/-- The assembly that has made a pipeline: the probe is gone if the pass that takes it is there. -/
def assembly (p : Pipeline) : Assembly := ⟨p, !p.contains .imageContrast⟩

theorem takeProbe_of_ne (a : Assembly) (h : pass ≠ .imageContrast) : a.takeProbe pass = .ok a := by
  unfold Assembly.takeProbe
  split
  · exact absurd rfl h
  · rfl

theorem contains_concat (p : Pipeline) (pass other : Pass) :
    contains ⟨p.passes ++ [pass]⟩ other = (p.contains other || other == pass) := by
  rw [contains, List.contains_append]
  exact congrArg (p.contains other || ·) (Bool.or_false _)

/-- The pass that is new finds the probe, and leaves it to others unless it needs it. -/
theorem takeProbe_assembly (h : pass ∉ p.passes) :
    p.assembly.takeProbe pass = .ok ⟨p, (assembly ⟨p.passes ++ [pass]⟩).probeLeft⟩ := by
  show _ = Except.ok (Assembly.mk p !contains ⟨p.passes ++ [pass]⟩ .imageContrast)
  rw [contains_concat]
  by_cases hpass : pass = .imageContrast
  · subst hpass
    have hleft : p.assembly.probeLeft = true := by
      show (!p.contains .imageContrast) = true
      rw [contains, Bool.not_eq_true', Bool.eq_false_iff]
      exact fun hcontains => h (List.contains_iff_mem.mp hcontains)
    rw [Assembly.takeProbe, if_pos hleft, beq_self_eq_true, Bool.or_true]
    rfl
  · rw [takeProbe_of_ne _ hpass, beq_false_of_ne (Ne.symm hpass), Bool.or_false]
    rfl

/-- Where the probe is missing, so is nothing else: the pass that took it is there. -/
theorem add_of_mem (h : pass ∈ p.passes) : p.assembly.add pass = .error (.duplicatePass pass) := by
  by_cases hpass : pass = .imageContrast
  · subst hpass
    have hgone : p.assembly.probeLeft = false := by
      show (!p.contains .imageContrast) = false
      rw [contains, List.contains_iff_mem.mpr h]
      rfl
    rw [Assembly.add, Assembly.takeProbe, hgone]
    rfl
  · rw [Assembly.add, takeProbe_of_ne _ hpass]
    show (p.register pass >>= _) = _
    rw [register_of_mem h]
    rfl

/-- **Step.** What is assembled is what is registered. -/
theorem add_assembly (p : Pipeline) (pass : Pass) :
    p.assembly.add pass = (p.register pass).map assembly := by
  by_cases hmem : pass ∈ p.passes
  · rw [add_of_mem hmem, register_of_mem hmem]
    rfl
  · rw [Assembly.add, takeProbe_assembly hmem]
    show (p.register pass >>= _) = _
    rw [register_of_notMem hmem]
    rfl

theorem foldlM_add (p : Pipeline) (passes : List Pass) :
    passes.foldlM Assembly.add p.assembly = (passes.foldlM register p).map assembly := by
  induction passes generalizing p with
  | nil => rfl
  | cons pass passes ih =>
    rw [List.foldlM_cons, List.foldlM_cons, add_assembly]
    cases p.register pass with
    | error err => rfl
    | ok q => exact ih q

theorem ofPasses_eq_foldlM (passes : List Pass) :
    ofPasses passes = passes.foldlM register empty := by
  have hstart : ({} : Assembly) = empty.assembly := rfl
  rw [ofPasses, hstart, foldlM_add]
  cases passes.foldlM register empty <;> rfl

theorem ofPasses_eq (h : passes.Nodup) : ofPasses passes = .ok ⟨passes⟩ :=
  (ofPasses_eq_foldlM passes).trans (foldlM_register h)

theorem ofPasses_firstRepeat (h : FirstRepeat passes i pass) :
    ofPasses passes = .error (.duplicatePass pass) :=
  (ofPasses_eq_foldlM passes).trans (foldlM_register_firstRepeat h)

/-- A pipeline is made of the listed passes if and only if each is listed once. -/
theorem ofPasses_eq_ok : ofPasses passes = .ok p ↔ passes.Nodup ∧ p = ⟨passes⟩ := by
  constructor
  · intro hok
    by_cases hnodup : passes.Nodup
    · rw [ofPasses_eq hnodup] at hok
      exact ⟨hnodup, (Except.ok.inj hok).symm⟩
    · obtain ⟨i, pass, hfirst⟩ := exists_firstRepeat hnodup
      rw [ofPasses_firstRepeat hfirst] at hok
      cases hok
  · rintro ⟨hnodup, rfl⟩
    exact ofPasses_eq hnodup

theorem ofPasses_eq_error {err : PipelineError} :
    ofPasses passes = .error err ↔
      ∃ i pass, FirstRepeat passes i pass ∧ err = .duplicatePass pass := by
  constructor
  · intro herr
    by_cases hnodup : passes.Nodup
    · rw [ofPasses_eq hnodup] at herr
      cases herr
    · obtain ⟨i, pass, hfirst⟩ := exists_firstRepeat hnodup
      rw [ofPasses_firstRepeat hfirst] at herr
      exact ⟨i, pass, hfirst, (Except.error.inj herr).symm⟩
  · rintro ⟨i, pass, hfirst, rfl⟩
    exact ofPasses_firstRepeat hfirst

/-! ## 4. Requests -/

/-- Asks for passes, one after the other, whatever the answers are. -/
def enrollAll (p : Pipeline) : List Pass → Pipeline × List (Except PipelineError Unit)
  | [] => (p, [])
  | pass :: rest =>
    let (q, answer) := p.enroll pass
    let (r, answers) := q.enrollAll rest
    (r, answer :: answers)

theorem enrollAll_cons (p : Pipeline) (pass : Pass) (rest : List Pass) :
    p.enrollAll (pass :: rest) = (((p.enroll pass).1.enrollAll rest).1,
      (p.enroll pass).2 :: ((p.enroll pass).1.enrollAll rest).2) := rfl

/-- After the passes that were there stand those that were asked for, each where it was asked for
first. -/
theorem passes_enrollAll (p : Pipeline) (requests : List Pass) :
    (p.enrollAll requests).1.passes = p.passes ++ (requests.removeAll p.passes).eraseDups := by
  induction requests generalizing p with
  | nil => exact (List.append_nil p.passes).symm
  | cons pass rest ih =>
    rw [enrollAll_cons]
    by_cases hmem : pass ∈ p.passes
    · have hremoved : (pass :: rest).removeAll p.passes = rest.removeAll p.passes := by
        simp [List.removeAll, hmem]
      rw [enroll_of_mem hmem, hremoved]
      exact ih p
    · have hkept : (pass :: rest).removeAll p.passes = pass :: rest.removeAll p.passes := by
        simp [List.removeAll, hmem]
      -- What is taken now is left out of the rest, as a repetition or as a pass that is there.
      have hremoved : (rest.removeAll p.passes).filter (fun other => !other == pass) =
          rest.removeAll (p.passes ++ [pass]) := by
        rw [List.removeAll, List.removeAll, List.filter_filter]
        apply List.filter_congr
        intro other _
        simp only [List.elem_eq_contains, List.contains_append, List.contains_cons,
          List.contains_nil, Bool.or_false, Bool.not_or, Bool.and_comm]
      have hrest := ih ⟨p.passes ++ [pass]⟩
      rw [enroll_of_notMem hmem, hkept, List.eraseDups_cons, hremoved]
      rwa [List.append_assoc] at hrest

/-- A request is refused if the pass was there in the beginning, or has been asked for before. -/
theorem answers_enrollAll (p : Pipeline) (requests : List Pass) :
    (p.enrollAll requests).2 = requests.mapIdx fun i pass =>
      if pass ∈ p.passes ++ requests.take i then .error (.duplicatePass pass) else .ok () := by
  induction requests generalizing p with
  | nil => rfl
  | cons pass rest ih =>
    -- For the rest, what has been asked for is there if it was not there before.
    have hthere : ∀ i other, other ∈ (p.enroll pass).1.passes ++ rest.take i ↔
        other ∈ p.passes ++ (pass :: rest).take (i + 1) := by
      intro i other
      rw [List.take_succ_cons]
      by_cases hmem : pass ∈ p.passes
      · rw [enroll_of_mem hmem]
        simp only [List.mem_append, List.mem_cons]
        constructor
        · exact Or.imp_right .inr
        · rintro (hbefore | rfl | hrest)
          · exact .inl hbefore
          · exact .inl hmem
          · exact .inr hrest
      · rw [enroll_of_notMem hmem, List.append_assoc]
        rfl
    have hanswer :
        (p.enroll pass).2 = if pass ∈ p.passes then .error (.duplicatePass pass) else .ok () := by
      split
      · rename_i hmem
        rw [enroll_of_mem hmem]
      · rename_i hmem
        rw [enroll_of_notMem hmem]
    rw [enrollAll_cons, List.mapIdx_cons, List.take_zero, List.append_nil, hanswer, ih]
    simp only [hthere]

theorem enroll_eq_refused :
    p.enroll pass = (p, .error (.duplicatePass pass)) ↔ pass ∈ p.passes := by
  refine ⟨fun hrefused => ?_, enroll_of_mem⟩
  by_contra hmem
  rw [enroll_of_notMem hmem] at hrefused
  cases congrArg Prod.snd hrefused

end Pipeline

end Audit

/-! ## 5. Checkers -/

namespace Checker

open Audit (Pipeline FirstRepeat PipelineError)

theorem ofConfig_eq (config : Config) (codec : Image.Codec) :
    ofConfig config codec =
      (Pipeline.ofPasses config.passes).map fun pipeline => { config, pipeline, codec } := by
  rw [ofConfig]
  cases Pipeline.ofPasses config.passes <;> rfl

/-- The configuration of a checker lists each pass once, and its pipeline the same passes. -/
theorem ofConfig_eq_ok {config : Config} {codec : Image.Codec} {c : Checker} :
    ofConfig config codec = .ok c ↔
      config.passes.Nodup ∧ c = { config, pipeline := ⟨config.passes⟩, codec } := by
  rw [ofConfig_eq]
  cases hpasses : Pipeline.ofPasses config.passes with
  | error fault =>
    refine ⟨nofun, fun h => ?_⟩
    rw [Pipeline.ofPasses_eq h.1] at hpasses
    cases hpasses
  | ok pipeline =>
    obtain ⟨hnodup, rfl⟩ := Pipeline.ofPasses_eq_ok.mp hpasses
    exact ⟨fun h => ⟨hnodup, (Except.ok.inj h).symm⟩, fun h => congrArg Except.ok h.2.symm⟩

theorem ofConfig_eq_error {config : Config} {codec : Image.Codec} {err : PipelineError} :
    ofConfig config codec = .error err ↔
      ∃ i pass, FirstRepeat config.passes i pass ∧ err = .duplicatePass pass := by
  rw [ofConfig_eq, ← Pipeline.ofPasses_eq_error]
  cases Pipeline.ofPasses config.passes with
  | error fault =>
    show Except.error fault = Except.error err ↔ _
    rw [Except.error.injEq, Except.error.injEq]
  | ok p => exact ⟨nofun, nofun⟩

end Checker

namespace Audit

/-- **Pipelines.** Listed passes, those of a configuration too, make up a pipeline just if none is
repeated; the error names the first one that is. A pipeline that is asked for passes takes each of
them once, and stays as it is where it refuses one. -/
theorem Pipeline.passes_once :
    (∀ passes p, ofPasses passes = .ok p ↔ passes.Nodup ∧ p = ⟨passes⟩) ∧
      (∀ passes err, ofPasses passes = .error err ↔
        ∃ i pass, FirstRepeat passes i pass ∧ err = .duplicatePass pass) ∧
      (∀ config codec c, Checker.ofConfig config codec = .ok c ↔
        config.passes.Nodup ∧ c = { config, pipeline := ⟨config.passes⟩, codec }) ∧
      (∀ config codec err, Checker.ofConfig config codec = .error err ↔
        ∃ i pass, FirstRepeat config.passes i pass ∧ err = .duplicatePass pass) ∧
      (∀ p pass, enroll p pass = (p, .error (.duplicatePass pass)) ↔ pass ∈ p.passes) ∧
      (∀ p pass err, (enroll p pass).2 = .error err → (enroll p pass).1 = p) ∧
      ∀ p requests,
        (enrollAll p requests).1.passes = p.passes ++ (requests.removeAll p.passes).eraseDups ∧
        (enrollAll p requests).2 = requests.mapIdx fun i pass =>
          if pass ∈ p.passes ++ requests.take i then .error (.duplicatePass pass) else .ok () :=
  ⟨fun _ _ => ofPasses_eq_ok, fun _ _ => ofPasses_eq_error, fun _ _ _ => Checker.ofConfig_eq_ok,
    fun _ _ _ => Checker.ofConfig_eq_error, fun _ _ => enroll_eq_refused,
    fun _ _ _ => enroll_unchanged, fun p requests =>
      ⟨passes_enrollAll p requests, answers_enrollAll p requests⟩⟩

end Audit

end AccessibleMarkdown
