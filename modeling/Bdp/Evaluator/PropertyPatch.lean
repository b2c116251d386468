import Bdp.Evaluator.Creation
import Bdp.Retained.EditMemory

/-!
# Property Changes and object edits

`patch` of the resource evaluator, with its own copies, traversal and diagnostics and the object
that it freezes instead of copying it, agrees with `applyObjectChange`, and both of them with the
edits of RFC 6902.
-/

namespace Bdp.Evaluator

open Retained (JsonObject ObjectChange Stored Memory contents memberContents place placeMembers
  jsonCopy editDocument applyEdit applyEditIn EditRefusal applyObjectChange applyObjectChangeIn
  reference denote IsObject Admissible Untouched Confined)
open Bdp.Except (ok_bind)

section Agreement

variable {options : ResourceEvaluationOptions}

theorem diagnosticFailure_stops (options : ResourceEvaluationOptions)
    (diagnostics : List ValidationDiagnostic) (α : Type) :
    ∃ stop, (diagnosticFailure options diagnostics : Except Stop α) = .error stop := by
  unfold diagnosticFailure
  cases collectDiagnostics options [] 2 diagnostics with
  | error stop => exact ⟨stop, rfl⟩
  | ok collected =>
    obtain ⟨retained, truncated⟩ := collected
    by_cases hempty : retained = []
    · exact ⟨_, if_pos hempty⟩
    · exact ⟨_, if_neg hempty⟩

variable {document : Document} {address : ℕ} {members : List (String × Stored)}
  {changes : ObjectChange} {memory : Memory} {state : Option Stored × Memory}

/-- The changes of `patch` are the edits with its copies. -/
theorem foldlM_changeOrInvalid_ok {result : Option Stored × Memory}
    (h : changes.foldlM (fun state edit ↦ (applyEditIn propertyCopy state edit).mapError
      fun refusal ↦ (refusal, edit.path)) state = .ok result) :
    changes.foldlM (changeOrInvalid options document) state = .ok result := by
  induction changes generalizing state with
  | nil => exact congrArg Except.ok (Except.ok.inj h)
  | cons change changes ih =>
    rw [List.foldlM_cons] at h ⊢
    rw [changeOrInvalid, changeIn_eq]
    cases hedit : applyEditIn propertyCopy state change with
    | ok next =>
      rw [hedit] at h
      exact ih h
    | error refusal =>
      rw [hedit] at h
      cases h

theorem foldlM_changeOrInvalid_error {problem : EditRefusal × String}
    (h : changes.foldlM (fun state edit ↦ (applyEditIn propertyCopy state edit).mapError
      fun refusal ↦ (refusal, edit.path)) state = .error problem) :
    ∃ stop, changes.foldlM (changeOrInvalid options document) state = .error stop := by
  induction changes generalizing state with
  | nil => cases h
  | cons change changes ih =>
    rw [List.foldlM_cons] at h ⊢
    rw [changeOrInvalid, changeIn_eq]
    cases hedit : applyEditIn propertyCopy state change with
    | ok next =>
      rw [hedit] at h
      exact ih h
    | error refusal =>
      obtain ⟨stop, hstop⟩ := diagnosticFailure_stops options
        [invalidDiagnostic document (propertyText refusal) change.path] (Option Stored × Memory)
      refine ⟨stop, ?_⟩
      simp only [hstop]
      rfl

def copiedState (properties : Stored) (memory : Memory) : Option Stored × Memory :=
  (some (propertyCopy.copy (contents properties) memory).1,
    (propertyCopy.copy (contents properties) memory).2)

theorem patchIn_of_refused {problem : EditRefusal × String}
    (hedit : editDocument propertyCopy (.object address members) changes memory =
      .error problem) :
    ∃ stop, patchIn options document (.object address members) changes memory = .error stop := by
  obtain ⟨stop, hstop⟩ : ∃ stop, changes.foldlM (changeOrInvalid options document)
      (copiedState (.object address members) memory) = .error stop :=
    foldlM_changeOrInvalid_error hedit
  refine ⟨stop, ?_⟩
  unfold patchIn
  change (changes.foldlM (changeOrInvalid options document)
    (copiedState (.object address members) memory) >>= fun state ↦ _) = _
  rw [hstop]
  rfl

theorem patchIn_of_object {edited : ℕ} {others : List (String × Stored)} {later : Memory}
    (hedit : editDocument propertyCopy (.object address members) changes memory =
      .ok (some (.object edited others), later)) :
    patchIn options document (.object address members) changes memory =
      .ok (.object edited others, freeze (.object edited others) later) := by
  have hrun : changes.foldlM (changeOrInvalid options document)
      (copiedState (.object address members) memory) = .ok (some (.object edited others), later) :=
    foldlM_changeOrInvalid_ok hedit
  unfold patchIn
  change (changes.foldlM (changeOrInvalid options document)
    (copiedState (.object address members) memory) >>= fun state ↦ _) = _
  rw [hrun]
  rfl

theorem patchIn_of_not_object
    (hedit : editDocument propertyCopy (.object address members) changes memory = .ok state)
    (hne : ∀ edited others, state.1 ≠ some (.object edited others)) :
    ∃ stop, patchIn options document (.object address members) changes memory = .error stop := by
  have hrun : changes.foldlM (changeOrInvalid options document)
      (copiedState (.object address members) memory) = .ok state :=
    foldlM_changeOrInvalid_ok hedit
  obtain ⟨stop, hstop⟩ := diagnosticFailure_stops options
    [{ message := "resulting " ++ document.text ++ " must be an object", type := none
       schemaLocation := none, instanceLocation := some "", document := document.named }]
    (Stored × Memory)
  refine ⟨stop, ?_⟩
  unfold patchIn
  change (changes.foldlM (changeOrInvalid options document)
    (copiedState (.object address members) memory) >>= fun state ↦ _) = _
  rw [hrun]
  obtain ⟨final, later⟩ := state
  cases final with
  | none => exact hstop
  | some value =>
    cases value with
    | object edited others => exact absurd rfl (hne edited others)
    | null => exact hstop
    | bool flag => exact hstop
    | number found => exact hstop
    | string text => exact hstop
    | array place items => exact hstop

theorem applyObjectChange_of_not_object
    (hfold : changes.foldlM applyEdit (some (.object (memberContents members))) =
      .ok (state.1.map contents))
    (hne : ∀ edited others, state.1 ≠ some (.object edited others)) :
    ∃ failure, applyObjectChange (memberContents members) changes = .error failure := by
  refine ⟨{ message := "resulting document must be an object", pointer := "" }, ?_⟩
  unfold applyObjectChange
  rw [hfold]
  obtain ⟨final, later⟩ := state
  cases final with
  | none => rfl
  | some value =>
    cases value with
    | object edited others => exact absurd rfl (hne edited others)
    | null => rfl
    | bool flag => rfl
    | number found => rfl
    | string text => rfl
    | array place items => rfl

/-- `patch` in memory answers the object that `applyObjectChange` does, on containers of its own,
and stops where that fails. -/
theorem patchIn_spec (options : ResourceEvaluationOptions) (document : Document) (address : ℕ)
    (members : List (String × Stored)) (changes : ObjectChange) (memory : Memory) :
    (∃ result after object,
      patchIn options document (.object address members) changes memory = .ok (result, after) ∧
        contents result = .object object ∧
        applyObjectChange (memberContents members) changes = .ok object ∧
        Untouched memory after result) ∨
    ∃ stop failure,
      patchIn options document (.object address members) changes memory = .error stop ∧
        applyObjectChange (memberContents members) changes = .error failure := by
  have hspec := Retained.editDocument_spec propertyCopy (.object address members) changes memory
  rw [contents] at hspec
  cases hedit : editDocument propertyCopy (.object address members) changes memory with
  | error problem =>
    obtain ⟨refusal, pointer⟩ := problem
    rw [hedit] at hspec
    obtain ⟨stop, hstop⟩ : ∃ stop, patchIn options document (.object address members) changes
        memory = .error stop := patchIn_of_refused hedit
    refine .inr ⟨stop, { message := refusal.patchText, pointer }, hstop, ?_⟩
    unfold applyObjectChange
    rw [hspec]
    rfl
  | ok state =>
    rw [hedit] at hspec
    obtain ⟨hfold, hdocument, hconfined⟩ := hspec
    by_cases hobject : ∃ edited others, state.1 = some (.object edited others)
    · obtain ⟨final, later⟩ := state
      obtain ⟨edited, others, rfl⟩ := hobject
      have hfrom := hdocument _ rfl
      refine .inl ⟨_, _, memberContents others, patchIn_of_object hedit, by rw [contents], ?_, ?_⟩
      · rw [Retained.applyObjectChange_eq_ok, hfold]
        rfl
      · refine ⟨?_, hfrom⟩
        intro other hother
        obtain hother | hother := List.mem_append.mp hother
        · exact hconfined.written other hother
        · exact .inr (hfrom other hother)
    · have hne (edited : ℕ) (others : List (String × Stored)) :
          state.1 ≠ some (.object edited others) := fun h ↦ hobject ⟨edited, others, h⟩
      obtain ⟨stop, hstop⟩ : ∃ stop, patchIn options document (.object address members) changes
          memory = .error stop := patchIn_of_not_object hedit hne
      obtain ⟨failure, hfailure⟩ := applyObjectChange_of_not_object hfold hne
      exact .inr ⟨stop, failure, hstop, hfailure⟩

/-- On the document of a row `patch` succeeds where `applyObjectChange` does, with its object. -/
theorem patch_eq_ok (options : ResourceEvaluationOptions) (document : Document)
    (before after : JsonObject) (changes : ObjectChange) :
    patch options document before changes = .ok after ↔
      applyObjectChange before changes = .ok after := by
  have hspec := patchIn_spec options document 0 (placeMembers before 1).1 changes
    { next := (place (.object before) 0).2, written := [] }
  rw [Retained.contents_placeMembers] at hspec
  have hplace : (place (.object before) 0).1 = .object 0 (placeMembers before 1).1 := by
    rw [place]
  unfold patch
  simp only [hplace]
  obtain ⟨result, later, object, hpatch, hcontents, hobject, -⟩ |
    ⟨stop, failure, hpatch, hfailure⟩ := hspec
  · rw [hpatch, hobject, Except.map, hcontents, Except.ok.injEq, Except.ok.injEq]
  · rw [hpatch, hfailure]
    exact ⟨nofun, nofun⟩

/-- Both implementations make the edits of RFC 6902 on copies of their own. -/
structure MakesEdits (options : ResourceEvaluationOptions) (document : Document)
    (address : ℕ) (members : List (String × Stored)) (changes : ObjectChange) (memory : Memory) :
    Prop where
  /-- A result stands for the document that the edits leave. -/
  value : ∀ result after,
    applyObjectChangeIn (.object address members) changes memory = .ok (result, after) →
      reference (memberContents members) changes = some (some (denote (contents result)))
  /-- There is none exactly where an edit fails or the edits leave no object. -/
  failure : (∃ problem,
      applyObjectChangeIn (.object address members) changes memory = .error problem) ↔
    ∀ left, reference (memberContents members) changes = some left → ¬ IsObject left
  /-- The result is made of new containers. -/
  untouched : ∀ result after,
    applyObjectChangeIn (.object address members) changes memory = .ok (result, after) →
      Untouched memory after result
  /-- After every edit, also of a change that fails later, only new containers were written. -/
  passing : ∀ front back state, changes = front ++ back →
    editDocument jsonCopy (.object address members) front memory = .ok state →
      Confined memory.next memory state.2
  /-- `patch` returns the same value, made of new containers. -/
  patched : ∀ result after,
    applyObjectChangeIn (.object address members) changes memory = .ok (result, after) →
      ∃ other later, patchIn options document (.object address members) changes memory =
        .ok (other, later) ∧ contents other = contents result ∧ Untouched memory later other
  /-- `patch` stops where `applyObjectChange` fails. -/
  refused : ∀ problem,
    applyObjectChangeIn (.object address members) changes memory = .error problem →
      ∃ stop, patchIn options document (.object address members) changes memory = .error stop

theorem applyObjectChangeIn_error_iff :
    (∃ problem, applyObjectChangeIn (.object address members) changes memory = .error problem) ↔
      ∃ problem, applyObjectChange (memberContents members) changes = .error problem := by
  have hspec := Retained.applyObjectChangeIn_spec address members changes memory
  cases hresult : applyObjectChangeIn (.object address members) changes memory with
  | error problem =>
    rw [hresult] at hspec
    exact ⟨fun _ ↦ ⟨problem, hspec⟩, fun _ ↦ ⟨problem, rfl⟩⟩
  | ok state =>
    rw [hresult] at hspec
    obtain ⟨⟨object, -, hobject⟩, -⟩ := hspec
    constructor
    · rintro ⟨problem, hproblem⟩
      cases hproblem
    · rintro ⟨problem, hproblem⟩
      rw [hobject] at hproblem
      cases hproblem

/-- Object edits are those of RFC 6902, apart from the demand that an object is left; they modify
nothing that was there before, and `patch` agrees. -/
theorem objectEdits_makeEdits (h : Admissible (memberContents members) changes) :
    MakesEdits options document address members changes memory := by
  have hspec := Retained.applyObjectChangeIn_spec address members changes memory
  have hpatch := patchIn_spec options document address members changes memory
  constructor
  case value =>
    intro result after hresult
    rw [hresult] at hspec
    obtain ⟨⟨object, hcontents, hobject⟩, -⟩ := hspec
    rw [hcontents]
    exact Retained.reference_of_ok h hobject
  case failure =>
    rw [applyObjectChangeIn_error_iff]
    exact Retained.applyObjectChange_error_iff h
  case untouched =>
    intro result after hresult
    rw [hresult] at hspec
    exact hspec.2
  case passing =>
    rintro front back state - hstate
    have hfront := Retained.editDocument_spec jsonCopy (.object address members) front memory
    rw [hstate] at hfront
    exact hfront.2.2
  case patched =>
    intro result after hresult
    rw [hresult] at hspec
    obtain ⟨⟨object, hcontents, hobject⟩, -⟩ := hspec
    obtain ⟨other, later, patched, hother, hpatched, hvalue, huntouched⟩ |
      ⟨stop, failure, hother, hfailure⟩ := hpatch
    · rw [hobject] at hvalue
      refine ⟨other, later, hother, ?_, huntouched⟩
      rw [hcontents, hpatched, Except.ok.inj hvalue]
    · rw [hobject] at hfailure
      cases hfailure
  case refused =>
    intro problem hproblem
    rw [hproblem] at hspec
    obtain ⟨other, later, patched, -, -, hvalue, -⟩ | ⟨stop, failure, hother, -⟩ := hpatch
    · rw [hspec] at hvalue
      cases hvalue
    · exact ⟨stop, hother⟩

end Agreement

section Sample

/-- Add at the end of an array whose name has a slash, and remove its first item. -/
def sampleEdits : ObjectChange := [.add "/a~1b/-" (.bool true), .remove "/a~1b/0"]

def sampleMembers : List (String × Stored) := [("a/b", .array 1 [.null])]

theorem sampleEdits_admissible : Admissible (memberContents sampleMembers) sampleEdits where
  pointers := by decide
  before := by
    intro length hlength
    rw [List.mem_singleton.mp hlength]
    decide
  values := by
    intro edit hedit value hvalue length hlength
    obtain rfl | hedit := List.mem_cons.mp hedit
    · obtain rfl := Option.some.inj hvalue
      cases hlength
    · rw [List.mem_singleton.mp hedit] at hvalue
      cases hvalue
  count := by decide

theorem objectEdits_makeEdits_sample :
    MakesEdits (sampleContext.options (sampleConfiguration .recovery)) .properties 0 sampleMembers
      sampleEdits { next := 2, written := [] } :=
  objectEdits_makeEdits sampleEdits_admissible

/-- An edit that RFC 6902 makes leaves a number, and is refused. -/
theorem objectEdits_refuse_number :
    ∃ before changes, Admissible before changes ∧ (reference before changes).isSome = true ∧
      ∃ failure, applyObjectChange before changes = .error failure := by
  refine ⟨[], [.replace "" (.number 5)], ?_, rfl, _, rfl⟩
  constructor
  · decide
  · intro length hlength
    cases hlength
  · intro edit hedit value hvalue length hlength
    rw [List.mem_singleton.mp hedit] at hvalue
    obtain rfl := Option.some.inj hvalue
    cases hlength
  · decide

end Sample

end Bdp.Evaluator
