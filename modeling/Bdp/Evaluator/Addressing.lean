import Bdp.Evaluator.Creation

/-!
# Addressing Beads

Whether a Bead is found by its own URL. A member that names it, as the subject of an update or a
deletion or as an endpoint of a new Link, resolves the URL first, and reads every URL below the alias
root through the alias table. The handle of a creation is replaced by the URL of the created Bead
before that.
-/

namespace Bdp.Evaluator

open Recovery (ResourceKind ResourceShape)
open Transaction (Reference)
open UrlPath (Scope hasScheme)
open Bdp.Except (ok_bind)

section Keys

variable {config : GraphConfiguration} {graph after : Graph} {past : List Graph}
  {admits : MemberContext → ResourceMutation → Prop}

def Graph.Keyed (graph : Graph) : Prop :=
  ∀ (key : String) (row : StoredResource), graph.resources[key]? = some row → row.id = key

section

variable (h : graph.Keyed)
include h

theorem Graph.Keyed.insertRow (row : StoredResource) : (graph.insertRow row).Keyed := by
  intro key found hfound
  change (graph.resources.insert row.id (graph.upserted row))[key]? = some found at hfound
  rw [Table.lookup_insert] at hfound
  split at hfound
  next heq =>
    rw [← heq, ← Option.some.inj hfound, Graph.upserted]
    split
    next old hold => exact h row.id old hold
    next => rfl
  next => exact h key found hfound

theorem Graph.Keyed.erase (id : String) :
    Graph.Keyed { graph with resources := graph.resources.erase id } := by
  intro key found hfound
  change (graph.resources.erase id)[key]? = some found at hfound
  rw [Table.lookup_erase] at hfound
  split at hfound
  · cases hfound
  · exact h key found hfound

theorem Graph.Keyed.apply {evaluation : ResourceEvaluation}
    (happly : graph.apply config evaluation = .ok after) : after.Keyed := by
  unfold Graph.apply at happly
  obtain ⟨written, hwritten, happly⟩ := Except.bind_eq_ok.mp happly
  have hkeyed : written.Keyed := by
    refine replay_induction (fun _ graph ↦ graph.Keyed) hwritten h ?_
    intro _ row middle next hmiddle hput
    exact putResource_eq_ok hput ▸ hmiddle.insertRow row
  obtain ⟨removed, hremoved, happly⟩ := Except.bind_eq_ok.mp happly
  obtain rfl := Except.pure_eq_ok_iff.mp happly
  cases hdeleted : evaluation.deleted with
  | none =>
    rw [hdeleted] at hremoved
    obtain rfl := Except.ok.inj hremoved
    exact hkeyed
  | some id =>
    rw [hdeleted] at hremoved
    obtain rfl := deleteResource_eq_ok hremoved
    exact hkeyed.erase id

theorem Graph.Keyed.applyAlias {change : AliasChange}
    (happly : graph.applyAlias config change = .ok after) : after.Keyed := by
  intro key found hfound
  rw [(applyAlias_tables happly).1] at hfound
  exact h key found hfound

end

theorem GraphRun.keyed (run : GraphRun config admits past graph) : graph.Keyed := by
  induction run with
  | empty =>
    intro key row hrow
    exact absurd hrow (by simp [Graph.empty])
  | mutated context mutation evaluation run captured admitted step ih => exact ih.apply step.2
  | aliased context mutation evaluation run step ih => exact ih.applyAlias step.2
  | unchanged run ih => exact ih

end Keys

section Refusals

variable {α β : Type} {options : ResourceEvaluationOptions} {tx : ResourceTransaction}

/-- The stop is not the refusal of a Resource that is not found. -/
def NotMissing (stop : Stop) : Prop := stop ≠ refusal .resourceNotFound

theorem notMissing_fault (message : String) : NotMissing (.fault message) := nofun

theorem notMissing_refusal {code : FailureCode} (h : code ≠ .resourceNotFound) :
    NotMissing (refusal code) := by
  unfold NotMissing
  cases code <;> first | exact absurd rfl h | decide

theorem notMissing_collect {retained : List ValidationDiagnostic} {bytes : ℕ}
    {diagnostics : List ValidationDiagnostic} :
    ErrorsIn NotMissing (collectDiagnostics options retained bytes diagnostics) := by
  induction diagnostics generalizing retained bytes with
  | nil => exact errorsIn_ok _
  | cons diagnostic diagnostics ih =>
    unfold collectDiagnostics
    extract_lets next
    split
    · split
      · exact errorsIn_error (notMissing_fault _)
      · exact errorsIn_ok _
    · exact ih

theorem notMissing_diagnostic (diagnostics : List ValidationDiagnostic) :
    ErrorsIn NotMissing (diagnosticFailure options diagnostics : Except Stop α) := by
  unfold diagnosticFailure
  refine errorsIn_bind notMissing_collect fun collected _ ↦ ?_
  obtain ⟨retained, truncated⟩ := collected
  simp only
  split
  · exact errorsIn_error (notMissing_fault _)
  · refine errorsIn_error fun heq ↦ ?_
    have hcode : "validation-failed" = "resource-not-found" :=
      congrArg ReadUpdateProblem.code (Stop.failure.inj heq)
    exact absurd hcode (by decide)

theorem notMissing_gather {fuel : ℕ} {gathered : List InstalledResourceContract}
    {pending : List String} :
    ErrorsIn NotMissing (gatherContracts options tx fuel gathered pending) := by
  induction fuel generalizing gathered pending with
  | zero => exact errorsIn_error (notMissing_fault _)
  | succ fuel ih =>
    cases pending with
    | nil => exact errorsIn_ok _
    | cons name pending =>
      unfold gatherContracts
      split
      · exact ih
      · refine errorsIn_bind (errorsIn_require (notMissing_refusal nofun)) fun entry _ ↦ ?_
        exact errorsIn_bind (errorsIn_check (notMissing_refusal nofun)) fun _ _ ↦ ih

theorem notMissing_contracts (type : String) : ErrorsIn NotMissing (contracts options tx type) := by
  unfold contracts
  refine errorsIn_bind notMissing_gather fun gathered _ ↦ ?_
  exact errorsIn_bind (errorsIn_check (notMissing_refusal nofun)) fun _ _ ↦ errorsIn_ok _

theorem notMissing_stored (stored : StoredResource) :
    ErrorsIn NotMissing (storedRecord options stored) := by
  unfold storedRecord
  refine errorsIn_bind (errorsIn_check (notMissing_fault _)) fun _ _ ↦ ?_
  exact errorsIn_bind (errorsIn_check (notMissing_fault _)) fun _ _ ↦ errorsIn_ok _

variable {replacement : Option LinkRecipe} {removed : Option String} {owner : String}

theorem notMissing_live : ErrorsIn NotMissing (liveLinks options tx owner replacement removed) := by
  unfold liveLinks
  refine errorsIn_bind (errorsIn_require (notMissing_fault _)) fun id _ ↦ ?_
  refine errorsIn_bind (errorsIn_mapM fun stored ↦ ?_) fun _ _ ↦ errorsIn_ok _
  refine errorsIn_bind (notMissing_stored stored) fun record _ ↦ ?_
  cases record with
  | bead record => exact errorsIn_error (notMissing_fault _)
  | link record => exact errorsIn_ok _

theorem notMissing_owned {descriptor : TypeDescriptor} :
    ErrorsIn NotMissing (ownedLinksOf options tx owner descriptor replacement removed) := by
  unfold ownedLinksOf
  split
  · exact errorsIn_ok _
  · refine errorsIn_map ?_
    unfold ownedLinks
    refine errorsIn_bind notMissing_live fun live _ ↦ ?_
    refine errorsIn_bind (errorsIn_forM fun entry ↦ ?_) fun _ _ ↦ ?_
    · split
      · exact notMissing_diagnostic _
      · exact errorsIn_ok _
    · split
      · exact notMissing_diagnostic _
      · exact errorsIn_ok _

theorem notMissing_revision (draw : ℕ) : ErrorsIn NotMissing (allocateRevision tx draw) := by
  unfold allocateRevision
  split
  · exact errorsIn_error (notMissing_refusal nofun)
  · exact errorsIn_bind (errorsIn_check (notMissing_fault _)) fun _ _ ↦ errorsIn_ok _

variable {mutation : ResourceMutation} {subject : Subject} {prepared : Prepared}
  {versions : Versions} {noOp : Bool}

theorem notMissing_patch (document : Document) (before : Retained.JsonObject)
    (changes : Retained.ObjectChange) :
    ErrorsIn NotMissing (patch options document before changes) := by
  unfold patch patchIn
  refine errorsIn_map (errorsIn_bind (errorsIn_foldlM fun _ _ _ ↦ ?_) fun left _ ↦ ?_)
  · unfold changeOrInvalid
    split
    · exact errorsIn_ok _
    · exact notMissing_diagnostic _
  · obtain ⟨result, memory⟩ := left
    dsimp only
    split
    · exact errorsIn_ok _
    · exact notMissing_diagnostic _

theorem notMissing_document (document : Document) (before : Option ResourceRecord) :
    ErrorsIn NotMissing (stagedDocument options document mutation before) := by
  unfold stagedDocument
  extract_lets kept supplied
  split
  · exact errorsIn_ok _
  · exact errorsIn_ok _
  · split
    · exact notMissing_patch document _ _
    · exact errorsIn_ok _
  · exact errorsIn_ok _

theorem notMissing_prepare (hbead : mutation.resourceKind = .bead)
    (hsubject : mutationSubject options tx mutation = .ok subject) :
    ErrorsIn NotMissing (prepare options tx mutation) := by
  unfold prepare
  rw [hsubject, ok_bind]
  refine errorsIn_bind (errorsIn_require (notMissing_fault _)) fun type _ ↦ ?_
  rw [mutationEndpoints, hbead, ok_bind]
  refine errorsIn_bind (notMissing_contracts type) fun effective _ ↦ ?_
  refine errorsIn_bind (errorsIn_require (notMissing_refusal nofun)) fun declared _ ↦ ?_
  split
  · exact notMissing_diagnostic _
  · rw [endpointChecks, ok_bind, sourceBead, ok_bind]
    refine errorsIn_bind (notMissing_document .properties _) fun properties _ ↦ ?_
    refine errorsIn_bind (notMissing_document .metadata _) fun metadata _ ↦ ?_
    refine errorsIn_bind ?_ fun _ _ ↦ errorsIn_ok _
    split
    · exact errorsIn_ok _
    · unfold validatePropertyContracts
      split
      · exact errorsIn_ok _
      · exact notMissing_diagnostic _

theorem notMissing_versions (hends : prepared.endpoints = none)
    (howning : owningSource prepared = none) :
    ErrorsIn NotMissing (makeVersions options tx mutation prepared noOp) := by
  unfold makeVersions
  refine errorsIn_bind ?_ fun recipe _ ↦ ?_
  · unfold subjectRecipe
    split
    · exact errorsIn_ok _
    · refine errorsIn_bind ?_ fun revision _ ↦ ?_
      · unfold subjectRevision
        split
        · exact errorsIn_ok _
        · exact notMissing_revision _
      · rw [hends]
        exact errorsIn_bind notMissing_owned fun _ _ ↦ errorsIn_ok _
  · have hnone : sourceRecipe options tx mutation prepared noOp recipe = .ok none := by
      unfold sourceRecipe
      rw [howning]
    rw [hnone, ok_bind]
    refine errorsIn_bind ?_ fun _ _ ↦ errorsIn_bind ?_ fun _ _ ↦ errorsIn_ok _
    · unfold checkMultiplicities
      rw [hends]
      split
      · next heq => cases heq
      · exact errorsIn_ok _
    · unfold nativeContext
      split
      · exact errorsIn_map (errorsIn_require (notMissing_fault _))
      · exact errorsIn_ok _

theorem notMissing_final (hsource : prepared.source = none) :
    ErrorsIn NotMissing (checkPolicy options mutation prepared versions) ∧
      ErrorsIn NotMissing (checkConditions options tx mutation prepared) ∧
      ErrorsIn NotMissing (mutationOutcome mutation prepared versions) ∧
      ErrorsIn NotMissing (writtenRows options noOp versions) := by
  refine ⟨?_, ?_, ?_, ?_⟩
  · unfold checkPolicy
    refine errorsIn_bind (errorsIn_check (notMissing_refusal nofun)) fun _ _ ↦ ?_
    rw [hsource]
    exact errorsIn_ok _
  · unfold checkConditions
    refine errorsIn_bind (errorsIn_check (notMissing_refusal nofun)) fun _ _ ↦ ?_
    refine errorsIn_bind (errorsIn_check (notMissing_refusal nofun)) fun _ _ ↦ ?_
    refine errorsIn_bind (errorsIn_check (notMissing_refusal nofun)) fun _ _ ↦ ?_
    exact errorsIn_check (notMissing_refusal nofun)
  · unfold mutationOutcome
    extract_lets source
    split
    · exact errorsIn_ok _
    · exact errorsIn_ok _
    · exact errorsIn_ok _
    · exact errorsIn_error (notMissing_fault _)
  · unfold writtenRows
    split
    · exact errorsIn_ok _
    · exact errorsIn_mapM fun record ↦ errorsIn_bind (errorsIn_require (notMissing_fault _))
        fun _ _ ↦ errorsIn_ok _

theorem notMissing_evaluate (hbead : mutation.resourceKind = .bead)
    (hsubject : mutationSubject options tx mutation = .ok subject) :
    ErrorsIn NotMissing (evaluate options tx mutation) := by
  unfold evaluate
  refine errorsIn_bind (notMissing_prepare hbead hsubject) fun prepared hprepared ↦ ?_
  have hspec := prepare_spec hprepared
  have hends : prepared.endpoints = none := by
    obtain ⟨-, hnone⟩ | ⟨hlink, -⟩ := mutationEndpoints_spec hspec.endpoints
    · exact hnone
    · rw [hbead] at hlink
      cases hlink
  have hsource : prepared.source = none := by
    have hsource := hspec.source
    rw [hends] at hsource
    exact (Except.ok.inj hsource).symm
  have howning : owningSource prepared = none := by
    rw [owningSource, hsource]
  extract_lets noOp
  refine errorsIn_bind (notMissing_versions hends howning) fun versions _ ↦ ?_
  obtain ⟨hpolicy, hconditions, houtcome, hwrites⟩ := notMissing_final hsource
  refine errorsIn_bind hpolicy fun _ _ ↦ errorsIn_bind hconditions fun _ _ ↦ ?_
  refine errorsIn_bind (errorsIn_forM fun record ↦ errorsIn_check (notMissing_refusal fun h ↦ by cases h))
    fun _ _ ↦ ?_
  exact errorsIn_bind houtcome fun _ _ ↦ errorsIn_bind hwrites fun _ _ ↦ errorsIn_ok _

end Refusals

section Handles

/-- The identities that earlier members of a carrier created, under their handles. -/
abbrev Bindings := List (String × String)

def isHandle (reference : String) : Bool := reference.toList.head? == some '@'

/-- A bound handle is replaced by its identity; an unbound one stops the member. -/
def boundReference (bindings : Bindings) (reference : String) : String :=
  if isHandle reference then (bindings.lookup reference).getD reference else reference

/-- An endpoint whose handle is replaced keeps its revision. -/
def boundEndpoint (bindings : Bindings) (reference : Reference) : Reference :=
  { reference with uri := boundReference bindings reference.uri }

/-- The mutation of a member once its handles are replaced. A new identity is not a handle. -/
def ResourceMutation.bound (bindings : Bindings) : ResourceMutation → ResourceMutation
  | .createBead input => .createBead input
  | .createLink input source target =>
    .createLink input (boundEndpoint bindings source) (boundEndpoint bindings target)
  | .update kind input =>
    .update kind { input with subject := boundReference bindings input.subject }
  | .delete kind subject expected => .delete kind (boundReference bindings subject) expected

end Handles

section Addressing

variable {config : GraphConfiguration} {graph : Graph} {past : List Graph}
  {admits : MemberContext → ResourceMutation → Prop} {options : ResourceEvaluationOptions}
  {tx : ResourceTransaction}

/-- A live Bead under its path, visible to the principal. -/
structure LiveBead (options : ResourceEvaluationOptions) (tx : ResourceTransaction) (path : String)
    (record : BeadRecord) : Prop where
  stored : ∃ row, tx.resource path = some row ∧ row.kind = .bead ∧
    storedRecord options row = .ok (.bead record)
  visible : isResourceVisible options tx (.bead record) = .ok true

/-- A Bead is found by its own URL and by every handle bound to it, as a subject and as an
endpoint. -/
structure Addressed (options : ResourceEvaluationOptions) (tx : ResourceTransaction)
    (record : BeadRecord) : Prop where
  resolved : resolve options tx record.id .bead = .ok record.id
  loaded : loadVisible options tx record.id .bead = .ok (.bead record)
  linked : ∀ (bindings : Bindings) (reference : Reference),
    boundReference bindings reference.uri = record.id →
      endpoint options tx (boundEndpoint bindings reference) =
        .ok { uri := record.id, revision := reference.revision }
  updated : ∀ (bindings : Bindings) (input : UpdateInput),
    boundReference bindings input.subject = record.id →
      evaluate options tx ((ResourceMutation.update .bead input).bound bindings) ≠
        .error (refusal .resourceNotFound)
  deleted : ∀ (bindings : Bindings) (subject : String) (expected : Option String),
    boundReference bindings subject = record.id →
      evaluate options tx ((ResourceMutation.delete .bead subject expected).bound bindings) ≠
        .error (refusal .resourceNotFound)

/-- The path of a Bead is not below the alias root, or its alias leads back to the Bead. -/
def ReachesItself (options : ResourceEvaluationOptions) (tx : ResourceTransaction) (path : String)
    (record : BeadRecord) : Prop :=
  aliasPath path = none ∨ ∃ name target, aliasPath path = some name ∧ tx.alias name = some target ∧
    target ≠ "" ∧ options.scope.resolve target = some record.id

theorem notMissing_subject {name uri : String} {record : ResourceRecord}
    (hresolved : resolve options tx name .bead = .ok uri)
    (hloaded : loadVisible options tx uri .bead = .ok record) :
    ErrorsIn NotMissing (existingSubject options tx .bead name) := by
  unfold existingSubject
  rw [hresolved, ok_bind, hloaded, ok_bind]
  refine errorsIn_bind (errorsIn_require (notMissing_fault _)) fun id _ ↦ ?_
  exact errorsIn_bind (errorsIn_require (notMissing_fault _)) fun _ _ ↦ errorsIn_ok _

theorem notMissing_of_subject {mutation : ResourceMutation} (hbead : mutation.resourceKind = .bead)
    (hsubject : ErrorsIn NotMissing (mutationSubject options tx mutation)) :
    evaluate options tx mutation ≠ .error (refusal .resourceNotFound) := by
  intro herror
  cases hresult : mutationSubject options tx mutation with
  | ok subject => exact notMissing_evaluate hbead hresult _ herror rfl
  | error stop =>
    have hevaluate : evaluate options tx mutation = .error stop := by
      unfold evaluate prepare
      rw [hresult]
      rfl
    rw [hevaluate] at herror
    exact hsubject stop hresult (Except.error.inj herror)

/-- In every state a live visible Bead is found by its own URL if and only if its path is not below
the alias root, or its alias leads back to it. -/
theorem bead_addressed_iff (run : GraphRun config admits past graph) {context : MemberContext}
    {path : String} {record : BeadRecord}
    (live : LiveBead (context.options config) (graph.view config context) path record) :
    Addressed (context.options config) (graph.view config context) record ↔
      ReachesItself (context.options config) (graph.view config context) path record := by
  obtain ⟨row, hrow, hkind, hstored⟩ := live.stored
  obtain ⟨-, -, -, hid⟩ := storedRecord_eq_ok.mp hstored
  have hbody : row.body = .bead record := (storedRecord_eq_ok.mp hstored).1.symm
  obtain rfl : row.id = path := run.keyed path row hrow
  rw [hbody] at hid
  have hresource : (context.options config).scope.resourcePath record.id = some row.id := hid
  have huri : record.id = config.scope.href ++ row.id :=
    (UrlPath.Scope.resourcePath_eq_some.mp hresource).1
  have habsolute : hasScheme record.id = true := huri ▸ UrlPath.Scope.hasScheme_append row.id
  have hcanonical := @canonical_absolute (context.options config) _ habsolute
  have hlocal : ((context.options config).scope.localPath record.id).bind aliasPath =
      aliasPath row.id := by
    rw [huri]
    exact congrArg (Option.bind · aliasPath) (UrlPath.Scope.localPath_append row.id)
  constructor
  · intro haddressed
    obtain ⟨spelled, hspelled, ⟨hnone, -⟩ | ⟨name, target, hname, htarget, hnonempty, hresolved⟩⟩ :=
      resolve_bead_eq_ok haddressed.resolved
    · rw [← Except.ok.inj (hcanonical.symm.trans hspelled), hlocal] at hnone
      exact .inl hnone
    · rw [← Except.ok.inj (hcanonical.symm.trans hspelled), hlocal] at hname
      exact .inr ⟨name, target, hname, htarget, hnonempty, hresolved⟩
  · intro hreaches
    have hresolved : resolve (context.options config) (graph.view config context) record.id .bead =
        .ok record.id := by
      obtain hnone | ⟨name, target, hname, htarget, hnonempty, hresolved⟩ := hreaches
      · exact resolve_of_not_alias hcanonical (hlocal.trans hnone)
      · exact resolve_alias hcanonical (hlocal.trans hname) htarget hnonempty hresolved
    have hloaded : loadVisible (context.options config) (graph.view config context) record.id
        .bead = .ok (.bead record) :=
      loadVisible_eq_ok.mpr ⟨row.id, row, hresource, hrow, hkind, hstored, live.visible⟩
    refine ⟨hresolved, hloaded, fun bindings reference hbound ↦ ?_,
      fun bindings input hbound ↦ ?_, fun bindings subject expected hbound ↦ ?_⟩
    · have hchecked : checkEndpoint (context.options config) (graph.view config context) record.id =
          .ok () := by
        have hpath : (context.options config).scope.localPath record.id = some row.id :=
          UrlPath.Scope.localPath_eq_some.mpr huri
        have hbead : ((graph.view config context).resource row.id).any
            (fun found ↦ found.kind == .link) = false := by
          rw [hrow, Option.any_some, hkind]
          rfl
        unfold checkEndpoint
        simp only [hpath, hresource, hbead, hloaded, Option.isNone_some, Bool.or_self,
          Bool.false_eq_true, if_false]
        rfl
      unfold endpoint boundEndpoint
      rw [hbound, hresolved, Except.ok_bind, hchecked]
      rfl
    · refine notMissing_of_subject rfl ?_
      change ErrorsIn NotMissing (existingSubject _ _ _ (boundReference bindings input.subject))
      rw [hbound]
      exact notMissing_subject hresolved hloaded
    · refine notMissing_of_subject rfl ?_
      change ErrorsIn NotMissing (existingSubject _ _ _ (boundReference bindings subject))
      rw [hbound]
      exact notMissing_subject hresolved hloaded

end Addressing

theorem note_addressed :
    Addressed (sampleContext.options (sampleConfiguration .recovery))
        (noteGraph.view (sampleConfiguration .recovery) sampleContext) (sampleNote "a" 0) ↔
      ReachesItself (sampleContext.options (sampleConfiguration .recovery))
        (noteGraph.view (sampleConfiguration .recovery) sampleContext) "a" (sampleNote "a" 0) :=
  bead_addressed_iff (noteGraph_run .recovery) ⟨⟨noteRow "a" 0, rfl, rfl, rfl⟩, rfl⟩

/-- The note `alias/a` alone. -/
def aliasNoteGraph : Graph := { Graph.empty.insertRow (noteRow "alias/a" 0) with revisions := 2 }

/-- A note created as `alias/a` is live and visible, but no member finds it by its own URL. -/
theorem bead_below_alias_root_not_addressed :
    admittedIdentity sampleScope "alias/a" = true ∧
      GraphRun (sampleConfiguration .recovery) (fun _ _ ↦ True) [Graph.empty] aliasNoteGraph ∧
      LiveBead (sampleContext.options (sampleConfiguration .recovery))
        (aliasNoteGraph.view (sampleConfiguration .recovery) sampleContext) "alias/a"
        (sampleNote "alias/a" 0) ∧
      ¬ Addressed (sampleContext.options (sampleConfiguration .recovery))
        (aliasNoteGraph.view (sampleConfiguration .recovery) sampleContext)
        (sampleNote "alias/a" 0) := by
  refine ⟨rfl, .mutated sampleContext (createNote "alias/a") (noteEvaluation "alias/a" "alias/a" 0)
    .empty (captured_nothing _ _ _) trivial ⟨rfl, rfl⟩,
    ⟨⟨noteRow "alias/a" 0, rfl, rfl, rfl⟩, rfl⟩, fun haddressed ↦ ?_⟩
  exact haddressed.deleted [] "https://h/alias/a" none rfl rfl

end Bdp.Evaluator
