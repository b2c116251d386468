import Bdp.Evaluator.ReadAddress
import Bdp.Evaluator.ReadPlaneSpec

/-!
# Reads do not fault

In every run whose creations take plain identities that are not reserved, a read that takes Resources
for what they are ends with a result or a declared problem. A creation below the reserved namespace
lets every later read of its collection fail, and so does a request for the Links of a Link.
-/

namespace Bdp.Evaluator

open Recovery (ResourceKind ResourceShape)
open Transaction (Reference)
open UrlPath (Scope hasScheme canonicalPath)
open Bdp.Except (bind_eq_ok ok_bind pure_eq_ok_iff)

variable {config : GraphConfiguration} {plane : ReadPlane} {graph : Graph} {context : MemberContext}
variable {controls : PageControls}

section Specification

def visibleRead (config : GraphConfiguration) (plane : ReadPlane)
    (record : String → Option ResourceRecord) (records : List ResourceRecord) :
    ReadRequest → Except ReadStop ReadResult
  | .discovery => .ok .discovery
  | .typeResource id => do
    let descriptor ← require (plane.types.find? fun descriptor ↦ descriptor.id == id)
      (.problem .resourceNotFound)
    check (plane.canReadType descriptor = true) (.problem .resourceNotFound)
    pure (.descriptor descriptor)
  | .types controls =>
    match plane.control controls, controls.continuation with
    | some problem, _ => .error (.problem problem)
    | none, some url => .ok (.continuation url)
    | none, none => .ok (.inventory (plane.types.filter plane.canReadType))
  | .resource _ id =>
    (require (record (sliceScope config id)) (.problem .resourceNotFound)).map ReadResult.record
  | .properties _ id =>
    (require (record (sliceScope config id)) (.problem .resourceNotFound)).map fun record ↦
      .properties record.fields.properties record.fields.revision
  | .beadLinks bead direction controls => pageRead plane controls do
      let _ ← require (record (sliceScope config bead)) (.problem .resourceNotFound)
      pure (records.filter fun record ↦ touches bead record && directed bead direction record)
  | .collection collection filters controls =>
    pageRead plane controls (.ok (records.filter (structural plane collection filters)))

/-- The request takes the Resource that it names for what it is. -/
def Graph.AgreesWith (config : GraphConfiguration) (plane : ReadPlane) (graph : Graph) :
    ReadRequest → Prop
  | .resource requested id => graph.Agrees config requested id
  | .properties requested id => graph.Agrees config requested id
  | .beadLinks bead _ controls => plane.control controls = none → controls.continuation = none →
      graph.Agrees config .bead bead
  | _ => True

/-- What the plane throws when a request takes a Resource for another kind. -/
def ReadRequest.mismatch : ReadRequest → String
  | .beadLinks _ _ _ => "incident anchor is not a Bead"
  | _ => "requested Resource kind disagrees with row"

def IsProblem (stop : ReadStop) : Prop := ∃ problem, stop = .problem problem

theorem IsProblem.of_problem (problem : ReadProblem) : IsProblem (.problem problem) := ⟨problem, rfl⟩

theorem pageRead_problem {items : Except ReadStop (List ResourceRecord)}
    (h : ErrorsIn IsProblem items) : ErrorsIn IsProblem (pageRead plane controls items) := by
  unfold pageRead
  split
  · exact errorsIn_error (.of_problem _)
  · exact errorsIn_ok _
  · exact errorsIn_map h

theorem visibleRead_problem {record : String → Option ResourceRecord} {records : List ResourceRecord}
    (request : ReadRequest) : ErrorsIn IsProblem (visibleRead config plane record records request) := by
  have hfound (found : Option ResourceRecord) :
      ErrorsIn IsProblem (require found (ReadStop.problem .resourceNotFound)) :=
    errorsIn_require (.of_problem _)
  cases request with
  | discovery => exact errorsIn_ok _
  | typeResource id =>
    simp only [visibleRead]
    refine errorsIn_bind (errorsIn_require (.of_problem _)) fun descriptor _ ↦ ?_
    exact errorsIn_bind (errorsIn_check (.of_problem _)) fun _ _ ↦ errorsIn_ok _
  | types controls =>
    simp only [visibleRead]
    split
    · exact errorsIn_error (.of_problem _)
    · exact errorsIn_ok _
    · exact errorsIn_ok _
  | resource requested id => exact errorsIn_map (hfound _)
  | properties requested id => exact errorsIn_map (hfound _)
  | beadLinks bead direction controls =>
    apply pageRead_problem
    exact errorsIn_bind (hfound _) fun _ _ ↦ errorsIn_ok _
  | collection collection filters controls => exact pageRead_problem (errorsIn_ok _)

end Specification

variable {bead : String}

section Materialized

section

variable (h : graph.Checked config plane)
include h

variable (direction : Option Direction)

theorem Graph.Checked.incidentRead_eq {name : String}
    (hagrees : graph.Agrees config .bead (config.scope.href ++ name)) :
    incidentRead plane (context.options config) (graph.view config context)
        (config.scope.href ++ name) direction =
      (do
        let _ ← require (graph.visibleRecord config context name) (.problem .resourceNotFound)
        pure ((graph.visibleRecords config context).filter fun record ↦
          touches (config.scope.href ++ name) record &&
            directed (config.scope.href ++ name) direction record)) := by
  have hslice : localSlice (context.options config) (config.scope.href ++ name) = name :=
    sliceScope_append name
  unfold incidentRead Graph.visibleRecord
  rw [hslice, h.graphPoint_ok]
  simp only [integrity, Except.mapError, ok_bind]
  cases hrow : graph.resources[name]? with
  | none => rfl
  | some row =>
    have hrow' : graph.resources[sliceScope config (config.scope.href ++ name)]? = some row := by
      rwa [sliceScope_append]
    have hbead : row.body.kind = .bead := by
      simpa [disagrees] using hagrees row hrow'
    simp only [Option.map_some, require_some, ok_bind, h.graphVisible_eq hrow]
    rw [check_of hbead, ok_bind, h.incident_items (h.plain hrow) direction]
    cases hvisible : graph.isVisible config context row.body with
    | false =>
      rw [Option.filter_some_neg hvisible]
      rfl
    | true =>
      rw [Option.filter_some_pos hvisible]
      rfl

theorem Graph.Checked.incidentRead_fault (hnot : ¬ graph.Agrees config .bead bead) :
    incidentRead plane (context.options config) (graph.view config context) bead direction =
      .error (.fault "incident anchor is not a Bead") := by
  unfold Graph.Agrees at hnot
  push Not at hnot
  obtain ⟨row, hrow, hdisagrees⟩ := hnot
  have hlink : row.body.kind ≠ .bead := by
    simpa [disagrees] using hdisagrees
  have hslice : localSlice (context.options config) bead = sliceScope config bead := rfl
  unfold incidentRead
  rw [hslice, h.graphPoint_ok, hrow]
  simp only [integrity, Except.mapError, ok_bind, Option.map_some, require_some]
  rw [check_of_not hlink]
  rfl

variable {request : ReadRequest}

theorem Graph.Checked.materialize_eq
    (hlocal : ∀ bead direction controls, request = .beadLinks bead direction controls →
      ∃ name, bead = config.scope.href ++ name) (hagrees : graph.AgreesWith config plane request) :
    materialize plane (context.options config) (graph.view config context) request =
      visibleRead config plane (graph.visibleRecord config context)
        (graph.visibleRecords config context) request := by
  cases request with
  | discovery => rfl
  | typeResource id => rfl
  | types controls => rfl
  | resource requested id =>
    have hagrees : graph.Agrees config requested id := hagrees
    simp only [materialize, visibleRead, h.pointRead_eq hagrees]
  | properties requested id =>
    have hagrees : graph.Agrees config requested id := hagrees
    simp only [materialize, visibleRead, h.pointRead_eq hagrees]
  | beadLinks bead direction controls =>
    obtain ⟨name, rfl⟩ := hlocal bead direction controls rfl
    simp only [materialize, visibleRead, pageRead]
    cases hcontrol : plane.control controls with
    | some problem => rfl
    | none =>
      cases hcontinuation : controls.continuation with
      | some url => rfl
      | none =>
        simp only
        rw [h.incidentRead_eq direction (hagrees hcontrol hcontinuation), sliceScope_append]
  | collection collection filters controls =>
    simp only [materialize, visibleRead]
    rw [h.collection_eq]
    rfl

theorem Graph.Checked.materialize_fault (hnot : ¬ graph.AgreesWith config plane request) :
    materialize plane (context.options config) (graph.view config context) request =
      .error (.fault request.mismatch) := by
  cases request with
  | discovery => exact absurd trivial hnot
  | typeResource id => exact absurd trivial hnot
  | types controls => exact absurd trivial hnot
  | collection collection filters controls => exact absurd trivial hnot
  | resource requested id =>
    have hnot : ¬ graph.Agrees config requested id := hnot
    simp only [materialize, h.pointRead_fault hnot]
    rfl
  | properties requested id =>
    have hnot : ¬ graph.Agrees config requested id := hnot
    simp only [materialize, h.pointRead_fault hnot]
    rfl
  | beadLinks bead direction controls =>
    unfold Graph.AgreesWith at hnot
    push Not at hnot
    obtain ⟨hcontrol, hcontinuation, hnot⟩ := hnot
    simp only [materialize, pageRead, hcontrol, hcontinuation, h.incidentRead_fault direction hnot]
    rfl

end

end Materialized

section Validated

variable {ports : UrlPorts} {scope : Scope} {url : RequestUrl} {request : ReadRequest}

def ReadRequest.identity : ReadRequest → Option String
  | .resource _ id => some id
  | .properties _ id => some id
  | .beadLinks bead _ _ => some bead
  | _ => none

variable {direction : Option Direction}

theorem local_of_valid (hvalid : validateRequest ports scope request = .ok ())
    (hrequest : request = .beadLinks bead direction controls) : ∃ name, bead = scope.href ++ name := by
  subst hrequest
  obtain ⟨-, -, hidentity⟩ := bind_eq_ok.mp hvalid
  obtain ⟨name, hname, -⟩ := bind_eq_ok.mp hidentity
  exact ⟨name, UrlPath.Scope.localPath_eq_some.mp (require_eq_ok.mp hname)⟩

variable (value : Option String)

theorem typeParameter_problem :
    ErrorsIn IsProblem (parseOptionalTypeParameter ports scope value) := by
  cases value with
  | none => exact errorsIn_ok _
  | some value =>
    simp only [parseOptionalTypeParameter]
    refine errorsIn_bind (errorsIn_check (.of_problem _)) fun _ _ ↦ ?_
    split
    · exact errorsIn_ok _
    · exact errorsIn_bind (errorsIn_check (.of_problem _)) fun _ _ ↦ errorsIn_ok _

theorem endpointParameter_problem :
    ErrorsIn IsProblem (normalizeEndpointParameter ports scope value) := by
  cases value with
  | none => exact errorsIn_ok _
  | some value =>
    simp only [normalizeEndpointParameter]
    split
    · split
      · exact errorsIn_ok _
      · exact errorsIn_error (.of_problem _)
    · split
      · exact errorsIn_ok _
      · refine errorsIn_bind (errorsIn_check (.of_problem _)) fun _ _ ↦ ?_
        refine errorsIn_bind (errorsIn_require (.of_problem _)) fun _ _ ↦ ?_
        exact errorsIn_bind (errorsIn_check (.of_problem _)) fun _ _ ↦ errorsIn_ok _

theorem validateRequest_problem (hidentity : request.identity = none) :
    ErrorsIn IsProblem (validateRequest ports scope request) := by
  have hcontrols (controls : PageControls) (filtered : Bool) :
      ErrorsIn IsProblem (collectionControlIssue controls filtered) :=
    errorsIn_check (.of_problem _)
  cases request with
  | discovery => exact errorsIn_ok _
  | types controls => exact hcontrols controls false
  | typeResource id => exact errorsIn_bind (typeParameter_problem _) fun _ _ ↦ errorsIn_ok _
  | resource requested id => cases hidentity
  | properties requested id => cases hidentity
  | beadLinks bead direction controls => cases hidentity
  | collection collection filters controls =>
    simp only [validateRequest]
    refine errorsIn_bind (hcontrols controls _) fun _ _ ↦ ?_
    refine errorsIn_bind (typeParameter_problem _) fun _ _ ↦ ?_
    refine errorsIn_bind (typeParameter_problem _) fun _ _ ↦ ?_
    cases collection with
    | beads => exact errorsIn_ok _
    | links =>
      apply errorsIn_forM
      intro value
      exact errorsIn_bind (endpointParameter_problem value) fun _ _ ↦ errorsIn_check (.of_problem _)

variable {id : String}

theorem validateRequest_beadLinks (hcontrols : controls.continuation.isSome = true →
      controls.limit = none ∧ controls.selector = none ∧ direction.isSome = false)
    (hid : validateLocalResourceIdentity scope id = .ok ()) :
    validateRequest ports scope (.beadLinks id direction controls) = .ok () := by
  change (check _ _ >>= fun _ ↦ validateLocalResourceIdentity scope id) = _
  rw [check_of hcontrols, ok_bind, hid]

theorem viewRequest_valid (hrequest : viewRequest url id = .ok request)
    (hid : validateLocalResourceIdentity scope id = .ok ()) :
    validateRequest ports scope request = .ok () := by
  unfold viewRequest at hrequest
  split at hrequest
  · obtain ⟨-, -, hrequest⟩ := bind_eq_ok.mp hrequest
    obtain rfl := pure_eq_ok_iff.mp hrequest
    exact hid
  split at hrequest
  · obtain ⟨-, -, hrequest⟩ := bind_eq_ok.mp hrequest
    obtain ⟨direction, hrequest⟩ : ∃ direction : Direction, (do
        let limit ← parseOptionalLimit (url.parameter "limit")
        if (url.parameter "cursor").isSome then
          pure (ReadRequest.beadLinks id none
            { limit := none, selector := none, continuation := some url.href })
        else pure (.beadLinks id (some direction)
          { limit, selector := none, continuation := none })) = Except.ok request := by
      simp only at hrequest
      split at hrequest
      · exact ⟨.inbound, hrequest⟩
      · exact ⟨.outbound, hrequest⟩
      · exact ⟨.both, hrequest⟩
      · cases hrequest
    obtain ⟨limit, -, hrequest⟩ := bind_eq_ok.mp hrequest
    split at hrequest
    · obtain rfl := pure_eq_ok_iff.mp hrequest
      exact validateRequest_beadLinks (fun _ ↦ ⟨rfl, rfl, rfl⟩) hid
    · obtain rfl := pure_eq_ok_iff.mp hrequest
      exact validateRequest_beadLinks (fun hsome ↦ nomatch hsome) hid
  split at hrequest
  · obtain ⟨-, -, hrequest⟩ := bind_eq_ok.mp hrequest
    obtain rfl := pure_eq_ok_iff.mp hrequest
    exact hid
  · cases hrequest

theorem collectionRequest_identity {collection : Collection}
    (hrequest : collectionRequest ports scope url collection = .ok request) :
    request.identity = none := by
  unfold collectionRequest at hrequest
  obtain ⟨-, -, hrequest⟩ := bind_eq_ok.mp hrequest
  obtain ⟨limit, -, hrequest⟩ := bind_eq_ok.mp hrequest
  obtain ⟨type, -, hrequest⟩ := bind_eq_ok.mp hrequest
  obtain ⟨conformsTo, -, hrequest⟩ := bind_eq_ok.mp hrequest
  split at hrequest
  · obtain rfl := pure_eq_ok_iff.mp hrequest
    rfl
  cases collection with
  | beads =>
    obtain rfl := pure_eq_ok_iff.mp hrequest
    rfl
  | links =>
    obtain ⟨source, -, hrequest⟩ := bind_eq_ok.mp hrequest
    obtain ⟨target, -, hrequest⟩ := bind_eq_ok.mp hrequest
    obtain ⟨endpoint, -, hrequest⟩ := bind_eq_ok.mp hrequest
    obtain rfl := pure_eq_ok_iff.mp hrequest
    rfl

theorem typesRequest_identity (hrequest : typesRequest url = .ok request) :
    request.identity = none := by
  unfold typesRequest at hrequest
  obtain ⟨-, -, hrequest⟩ := bind_eq_ok.mp hrequest
  obtain ⟨limit, -, hrequest⟩ := bind_eq_ok.mp hrequest
  split at hrequest <;> obtain rfl := pure_eq_ok_iff.mp hrequest <;> rfl

theorem resolvedIdentity_eq_ok {resolved : Except String String}
    (h : resolvedIdentity resolved = .ok id) : resolved = .ok id := by
  unfold resolvedIdentity at h
  split at h
  · exact congrArg Except.ok (Except.ok.inj h)
  · split at h <;> cases h

theorem requestFromUrl_cases (hrequest : requestFromUrl ports scope url = .ok request) :
    request.identity = none ∨ ∃ path id, relativePath scope url = some path ∧
      resolveCanonicalLocalResourceId scope (String.ofList path) = .ok id ∧
      viewRequest url id = .ok request := by
  unfold requestFromUrl at hrequest
  split at hrequest
  · cases hrequest
  next relative hrelative =>
  simp only at hrequest
  split at hrequest
  · exact .inl (collectionRequest_identity hrequest)
  split at hrequest
  · exact .inl (collectionRequest_identity hrequest)
  split at hrequest
  · exact .inl (typesRequest_identity hrequest)
  split at hrequest
  · split at hrequest
    · cases hrequest
    · obtain ⟨id, -, hrequest⟩ := bind_eq_ok.mp hrequest
      obtain rfl := pure_eq_ok_iff.mp hrequest
      exact .inl rfl
  split at hrequest
  · split at hrequest
    · cases hrequest
    next hrebuilt =>
      obtain ⟨id, hid, hrequest⟩ := bind_eq_ok.mp hrequest
      refine .inr ⟨relative, id, hrelative, ?_, hrequest⟩
      rw [not_ne_iff.mp hrebuilt, String.ofList_toList]
      exact resolvedIdentity_eq_ok hid
  · cases hrequest

theorem validIdentity_of_resolved {path : String} (hplain : hasScheme path = false)
    (hresolved : resolveCanonicalLocalResourceId scope path = .ok id) :
    validateLocalResourceIdentity scope id = .ok () := by
  have hid := (resolveCanonicalLocalResourceId_eq_iff hresolved).mpr hplain
  unfold validateLocalResourceIdentity
  rw [hid, UrlPath.Scope.localPath_append, require_some, ok_bind, hresolved]
  exact check_of hid

/-- A request that has passed its validation, or that a URL stands for whose path does not start like
an absolute URL. -/
def Requested (ports : UrlPorts) (scope : Scope) (request : ReadRequest) : Prop :=
  validateRequest ports scope request = .ok () ∨
    ∃ url path, relativePath scope url = some path ∧ hasScheme (String.ofList path) = false ∧
      requestFromUrl ports scope url = .ok request

theorem Requested.valid_or (h : Requested ports scope request) :
    validateRequest ports scope request = .ok () ∨ request.identity = none := by
  obtain hvalid | ⟨url, path, hpath, hplain, hrequest⟩ := h
  · exact .inl hvalid
  obtain hnone | ⟨path', id, hpath', hresolved, hview⟩ := requestFromUrl_cases hrequest
  · exact .inr hnone
  · obtain rfl : path = path' := Option.some.inj (hpath.symm.trans hpath')
    exact .inl (viewRequest_valid hview (validIdentity_of_resolved hplain hresolved))

end Validated

section Performed

variable {request : ReadRequest}

theorem Graph.agreesWith_of_none (hidentity : request.identity = none) :
    graph.AgreesWith config plane request := by
  cases request with
  | resource requested id => cases hidentity
  | properties requested id => cases hidentity
  | beadLinks bead direction controls => cases hidentity
  | _ => exact trivial

section

variable (h : graph.Checked config plane)
include h

section

variable (hrequested : Requested plane.ports config.scope request)
include hrequested

theorem Graph.Checked.performRead_eq (hagrees : graph.AgreesWith config plane request) :
    performRead plane (context.options config) (graph.view config context) request = (do
        validateRequest plane.ports config.scope request
        visibleRead config plane (graph.visibleRecord config context)
          (graph.visibleRecords config context) request) := by
  unfold performRead
  apply congrArg (validateRequest plane.ports config.scope request >>= ·)
  funext _
  apply h.materialize_eq ?_ hagrees
  intro bead direction controls heq
  obtain hvalid | hnone := hrequested.valid_or
  · exact local_of_valid hvalid heq
  · rw [heq] at hnone
    cases hnone

theorem Graph.Checked.performRead_fault (hnot : ¬ graph.AgreesWith config plane request) :
    performRead plane (context.options config) (graph.view config context) request =
      .error (.fault request.mismatch) := by
  obtain hvalid | hnone := hrequested.valid_or
  · unfold performRead
    change (validateRequest plane.ports config.scope request >>= fun _ ↦ _) = _
    rw [hvalid, ok_bind, h.materialize_fault hnot]
  · exact absurd (Graph.agreesWith_of_none hnone) hnot

theorem Graph.Checked.performRead_problem_iff : ErrorsIn IsProblem
        (performRead plane (context.options config) (graph.view config context) request) ↔
      graph.AgreesWith config plane request := by
  constructor
  · intro herrors
    by_contra hnot
    obtain ⟨problem, hproblem⟩ := herrors _ (h.performRead_fault hrequested hnot)
    cases hproblem
  · intro hagrees
    rw [h.performRead_eq hrequested hagrees]
    refine errorsIn_bind ?_ fun _ _ ↦ visibleRead_problem request
    obtain hvalid | hnone := hrequested.valid_or
    · rw [hvalid]
      exact errorsIn_ok _
    · exact validateRequest_problem hnone

end

end

end Performed

end Bdp.Evaluator
