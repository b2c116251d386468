import Bdp.Evaluator.GraphLaw
import Bdp.Evaluator.MemberTurn

/-!
# Endpoint multiplicity

A multiplicity policy bounds how many live Links of the Types that conform to one Type may share a
Bead in one endpoint role. The check of a mutation counts the Links of the graph before it; with the
policies fixed, the bound holds in every state that a run of members leads to.
-/

namespace Bdp.Evaluator

open Recovery (ResourceKind ResourceShape)
open Transaction (Reference)
open UrlPath (Scope hasScheme)
open Bdp.Except (bind_eq_ok)

section Effective

variable {options options' : ResourceEvaluationOptions} {tx tx' : ResourceTransaction}

section

variable (hcontracts : options.contracts = options'.contracts)
include hcontracts

theorem gatherContracts_congr (hinstalled : tx.installedTypes = tx'.installedTypes) (fuel : ℕ)
    (gathered : List InstalledResourceContract) (pending : List String) :
    gatherContracts options tx fuel gathered pending =
      gatherContracts options' tx' fuel gathered pending := by
  induction fuel generalizing gathered pending with
  | zero => rfl
  | succ fuel ih =>
    cases pending with
    | nil => rfl
    | cons name pending => simp only [gatherContracts, ih, hcontracts, hinstalled]

theorem contracts_congr (hinstalled : tx.installedTypes = tx'.installedTypes) (type : String) :
    contracts options tx type = contracts options' tx' type := by
  unfold contracts typeBound
  rw [hcontracts, hinstalled, gatherContracts_congr hcontracts hinstalled]

end

end Effective

section Counting

variable (config : GraphConfiguration)

def MemberContext.idle : MemberContext :=
  { policy := { canRead := fun _ ↦ false, canCreate := fun _ ↦ false, canWrite := fun _ _ ↦ false }
    canWriteBead := fun _ ↦ false, maximumEndpointMultiplicity := [], observeCommitTime := none
    recordChangeContext := false, limits := .unlimited, captured := []
    allocateResourceId := fun _ ↦ .error "", allocationUnsafe := false }

/-- The effective Types of a Type, the same for every member. -/
def GraphConfiguration.effective (type : String) : Except Stop (List InstalledResourceContract) :=
  Evaluator.contracts (MemberContext.idle.options config) (Graph.empty.view config .idle) type

def GraphConfiguration.conforms (type name : String) : Bool :=
  match config.effective type with
  | .ok effective => effective.any fun entry ↦ entry.descriptor.id == name
  | .error _ => false

def EndpointSide.reference (side : EndpointSide) (source target : Reference) : Reference :=
  match side with
  | .source => source
  | .target => target

def EndpointSide.column (side : EndpointSide) (shape : ResourceShape) : Option String :=
  match side with
  | .source => shape.source
  | .target => shape.target

/-- Whether a row is a Link that the policy counts at the Bead. -/
def countedAt (policy : MaximumEndpointMultiplicityPolicy) (bead : String)
    (row : StoredResource) : Bool :=
  match row.body with
  | .bead _ => false
  | .link link =>
    config.scope.localPath (policy.endpoint.reference link.source link.target).uri == some bead &&
      config.conforms link.type policy.linkConformsTo

/-- The live Links that conform to a policy at a Bead. -/
def Graph.conformingLinks (graph : Graph) (policy : MaximumEndpointMultiplicityPolicy)
    (bead : String) : List StoredResource :=
  (graph.resources.toList.map Prod.snd).filter (countedAt config policy bead)

/-- No Bead has more conforming Links than a policy allows. -/
def Graph.WithinMultiplicity (policies : List MaximumEndpointMultiplicityPolicy) (graph : Graph) :
    Prop :=
  ∀ policy ∈ policies, ∀ bead, (graph.conformingLinks config policy bead).length ≤ policy.max

end Counting

variable {policies : List MaximumEndpointMultiplicityPolicy}

section Checks

variable {config : GraphConfiguration} {context : MemberContext} {graph after : Graph}
  {mutation : ResourceMutation} {evaluation : ResourceEvaluation} {prepared : Prepared}
  {versions : Versions} {policy : MaximumEndpointMultiplicityPolicy} {bead : String}

theorem length_filterM {ε α : Type} {f : α → Except ε Bool} (keep : α → Bool)
    (hkeep : ∀ item result, keep item = true → f item = .ok result → result = true)
    {items kept : List α} (h : items.filterM f = .ok kept) :
    (items.filter keep).length ≤ kept.length := by
  have haux : ∀ (items found : List α) {all : List α}, items.filterAuxM f found = .ok all →
      (items.filter keep).length + found.length ≤ all.length := by
    intro items
    induction items with
    | nil =>
      intro found all hall
      rw [← Except.ok.inj hall]
      simp
    | cons item items ih =>
      intro found all hall
      obtain ⟨passes, hpasses, hall⟩ := bind_eq_ok.mp hall
      have hrest := ih _ hall
      cases hitem : keep item with
      | false =>
        rw [List.filter_cons_of_neg (by simp [hitem])]
        cases passes <;> simp at hrest <;> omega
      | true =>
        obtain rfl := hkeep item passes hitem hpasses
        rw [List.filter_cons_of_pos hitem]
        simp at hrest ⊢
        omega
  obtain ⟨all, hall, hkept⟩ := bind_eq_ok.mp h
  rw [Except.pure_eq_ok_iff.mp hkept, List.length_reverse]
  exact haux items [] hall

variable {row : StoredResource}

theorem mem_conformingLinks : row ∈ graph.conformingLinks config policy bead ↔
      (∃ key : String, graph.resources[key]? = some row) ∧
        countedAt config policy bead row = true := by
  unfold Graph.conformingLinks
  rw [List.mem_filter, List.mem_map]
  refine and_congr_left fun _ ↦ ⟨?_, ?_⟩
  · rintro ⟨⟨key, found⟩, hmem, rfl⟩
    exact ⟨key, Table.mem_toList.mp hmem⟩
  · rintro ⟨key, hrow⟩
    exact ⟨(key, row), Table.mem_toList.mpr hrow, rfl⟩

theorem countedAt_link (h : countedAt config policy bead row = true) :
    ∃ link, row.body = .link link ∧
      config.scope.localPath (policy.endpoint.reference link.source link.target).uri = some bead ∧
      config.conforms link.type policy.linkConformsTo = true := by
  unfold countedAt at h
  cases hbody : row.body with
  | bead record => rw [hbody] at h; cases h
  | link link =>
    rw [hbody, Bool.and_eq_true, beq_iff_eq] at h
    exact ⟨link, rfl, h⟩

variable {pair : Endpoints}
variable {options : ResourceEvaluationOptions} {tx : ResourceTransaction}

theorem multiplicities_passed
    {noOp : Bool} (h : makeVersions options tx mutation prepared noOp = .ok versions)
    (hdeleting : mutation.deleting = false) (hpair : prepared.endpoints = some pair) :
    ∀ policy ∈ options.maximumEndpointMultiplicity,
      checkMultiplicity options tx prepared pair policy = .ok () := by
  unfold makeVersions at h
  obtain ⟨_, -, h⟩ := bind_eq_ok.mp h
  obtain ⟨_, -, h⟩ := bind_eq_ok.mp h
  obtain ⟨_, hcheck, -⟩ := bind_eq_ok.mp h
  rw [checkMultiplicities, hdeleting, hpair] at hcheck
  exact fun policy hpolicy ↦ forM_eq_ok hcheck policy hpolicy

theorem checkMultiplicity_eq
    : checkMultiplicity options tx prepared pair policy = (if (prepared.effective.any fun entry ↦
          entry.descriptor.id == policy.linkConformsTo) = false then pure ()
      else match options.scope.localPath (policy.endpoint.reference pair.1 pair.2).uri with
        | none => pure ()
        | some endpointId => do
          let counted ← ((tx.incidentLinks endpointId).filter fun link ↦
            link.id != prepared.subject.id &&
              policy.endpoint.column link.shape == some endpointId).filterM (fun link ↦ do
                let record ← storedRecord options link
                let effective ← contracts options tx record.fields.type
                pure (effective.any fun entry ↦ entry.descriptor.id == policy.linkConformsTo))
          check (counted.length + 1 ≤ policy.max) (refusal .aggregateConstraintViolation)) := by
  unfold checkMultiplicity EndpointSide.reference EndpointSide.column
  cases policy.endpoint <;> rfl

variable {side : EndpointSide}

theorem column_recordShape {scope : Scope} {link : LinkRecord}
    (h : scope.localPath (side.reference link.source link.target).uri = some bead) :
    side.column (recordShape scope (.link link)) = some bead := by
  cases side with
  | source =>
    rw [EndpointSide.reference] at h
    simp only [EndpointSide.column, recordShape, endpointColumn, ResourceShape.source, h,
      Option.getD_some]
  | target =>
    rw [EndpointSide.reference] at h
    simp only [EndpointSide.column, recordShape, endpointColumn, ResourceShape.target, h,
      Option.getD_some]

theorem mem_incident_of_column {shape : ResourceShape} (h : side.column shape = some bead) :
    (shape.source == some bead || shape.target == some bead) = true := by
  cases side with
  | source => exact Bool.or_eq_true_iff.mpr (.inl (beq_iff_eq.mpr h))
  | target => exact Bool.or_eq_true_iff.mpr (.inr (beq_iff_eq.mpr h))

theorem checkMultiplicity_counts
    (hprepared : IsPrepared (context.options config) (graph.view config context) mutation prepared)
    (hshaped : ∀ (key : String) (row : StoredResource), graph.resources[key]? = some row →
      row.shape = recordShape config.scope row.body)
    (hconforms : config.conforms prepared.type policy.linkConformsTo = true)
    (hlocal : config.scope.localPath (policy.endpoint.reference pair.1 pair.2).uri = some bead)
    (h : checkMultiplicity (context.options config) (graph.view config context) prepared pair
      policy = .ok ()) :
    ((graph.conformingLinks config policy bead).filter fun row ↦
      row.id != prepared.subject.id).length + 1 ≤ policy.max := by
  have heffective (type : String) :
      contracts (context.options config) (graph.view config context) type =
        config.effective type := by
    rw [GraphConfiguration.effective]
    exact @contracts_congr (context.options config) (MemberContext.idle.options config)
      (graph.view config context) (Graph.empty.view config .idle) rfl rfl type
  have hany : prepared.effective.any (fun entry ↦
      entry.descriptor.id == policy.linkConformsTo) = true := by
    have hprepare := hprepared.effective
    rw [heffective] at hprepare
    rwa [GraphConfiguration.conforms, hprepare] at hconforms
  have haddress : (context.options config).scope.localPath
      (policy.endpoint.reference pair.1 pair.2).uri = some bead := hlocal
  rw [checkMultiplicity_eq, if_neg (by rw [hany]; decide), haddress] at h
  obtain ⟨counted, hcounted, h⟩ := bind_eq_ok.mp h
  have hmax := check_eq_ok.mp h
  have hlength := length_filterM (countedAt config policy bead) ?_ hcounted
  · refine (Nat.add_le_add_right (le_trans ?_ hlength) 1).trans hmax
    unfold Graph.conformingLinks ResourceTransaction.incidentLinks ResourceTransaction.rows
    rw [List.filter_filter, List.filter_filter, List.filter_filter,
      ← List.countP_eq_length_filter, ← List.countP_eq_length_filter]
    refine List.countP_mono_left fun row hrow hcount ↦ ?_
    rw [Bool.and_eq_true] at hcount
    obtain ⟨link, hbody, hreference, -⟩ := countedAt_link hcount.2
    obtain ⟨⟨key, _⟩, hmem, rfl⟩ := List.mem_map.mp hrow
    have hcolumn := column_recordShape hreference
    rw [← hbody, ← hshaped key _ (Table.mem_toList.mp hmem)] at hcolumn
    rw [Bool.and_eq_true, Bool.and_eq_true, Bool.and_eq_true]
    exact ⟨⟨hcount.2, hcount.1, beq_iff_eq.mpr hcolumn⟩, mem_incident_of_column hcolumn⟩
  · intro row result hcount hresult
    obtain ⟨link, hbody, -, hlink⟩ := countedAt_link hcount
    obtain ⟨record, hrecord, heffectiveResult⟩ := bind_eq_ok.mp hresult
    obtain ⟨effective, hfound, hpassed⟩ := bind_eq_ok.mp heffectiveResult
    obtain ⟨rfl, -⟩ := storedRecord_eq_ok.mp hrecord
    have hlinkType : config.effective link.type = .ok effective := by
      rw [← heffective, ← hfound, hbody]
      rfl
    rw [GraphConfiguration.conforms, hlinkType] at hlink
    rw [Except.pure_eq_ok_iff.mp hpassed]
    exact hlink

theorem MemberStep.counted (step : MemberStep config context graph after mutation evaluation prepared
      versions) (hrow : row ∈ after.conformingLinks config policy bead) :
    row ∈ (graph.conformingLinks config policy bead).filter (fun other ↦
        other.id != prepared.subject.id) ∨
      after.resources[prepared.subject.id]? = some row ∧ versions.after = some row.body := by
  obtain ⟨⟨key, hkey⟩, hcount⟩ := mem_conformingLinks.mp hrow
  obtain ⟨link, hbody, -⟩ := countedAt_link hcount
  obtain ⟨rfl, hafter⟩ | ⟨-, -, -, -, found, -, -, -, -, -, -, -, hbead⟩ | ⟨hne, hold, -⟩ :=
    step.row_cases hkey
  · exact .inr ⟨hkey, hafter⟩
  · rw [hbead] at hbody
    cases hbody
  · refine .inl (List.mem_filter.mpr ⟨mem_conformingLinks.mpr ⟨⟨key, hold⟩, hcount⟩, ?_⟩)
    rw [(step.consistent.keyed key row hold).1]
    exact bne_iff_ne.mpr hne

theorem nodup_conformingLinks (config : GraphConfiguration)
    (policy : MaximumEndpointMultiplicityPolicy) (bead : String) (graph : Graph)
    (h : ∀ (key : String) (row : StoredResource), graph.resources[key]? = some row → row.id = key) :
    (graph.conformingLinks config policy bead).Nodup := by
  refine List.Nodup.filter _ (List.Nodup.of_map StoredResource.id ?_)
  rw [List.map_map]
  have hkeys : graph.resources.toList.map (StoredResource.id ∘ Prod.snd) =
      graph.resources.toList.map Prod.fst :=
    List.map_congr_left fun entry hentry ↦ h entry.1 entry.2 (Table.mem_toList.mp hentry)
  rw [hkeys]
  exact Table.toList_keys_nodup _

section

variable (h : graph.WithinMultiplicity config policies)
include h

theorem Graph.WithinMultiplicity.step
    (step : MemberStep config context graph after mutation evaluation prepared versions)
    (hkeyed : ∀ (key : String) (row : StoredResource), after.resources[key]? = some row →
      row.id = key) (hpolicies : context.maximumEndpointMultiplicity = policies) :
    after.WithinMultiplicity config policies := by
  intro policy hpolicy bead
  have hprepared := step.evaluated.isPrepared
  have hnodup := nodup_conformingLinks config policy bead after hkeyed
  by_cases hsubject : ∃ row ∈ after.conformingLinks config policy bead,
      after.resources[prepared.subject.id]? = some row ∧ versions.after = some row.body
  · obtain ⟨row, hrow, hkey, hafter⟩ := hsubject
    obtain ⟨hdeleting, -, -, hends, htype⟩ := after_spec hprepared step.evaluated.made hafter
    obtain ⟨link, hbody, hlocal, hconforms⟩ := countedAt_link (mem_conformingLinks.mp hrow).2
    rw [hbody] at hends htype
    cases hpair : prepared.endpoints with
    | none => rw [hpair] at hends; cases hends
    | some pair =>
      rw [hpair] at hends
      obtain ⟨hsource, hrest⟩ := List.cons.inj hends
      obtain ⟨htarget, -⟩ := List.cons.inj hrest
      have hpassed := multiplicities_passed step.evaluated.made hdeleting hpair policy
        (show policy ∈ context.maximumEndpointMultiplicity from hpolicies ▸ hpolicy)
      have hcounts := checkMultiplicity_counts hprepared step.consistent.shaped
        (htype ▸ hconforms) (hsource ▸ htarget ▸ hlocal) hpassed
      -- everything else that is counted has been counted by the check
      have hsubset : after.conformingLinks config policy bead ⊆
          row :: (graph.conformingLinks config policy bead).filter fun other ↦
            other.id != prepared.subject.id := by
        intro other hother
        obtain hkept | ⟨hsame, -⟩ := step.counted hother
        · exact List.mem_cons_of_mem _ hkept
        · exact Option.some.inj (hsame.symm.trans hkey) ▸ List.mem_cons_self
      exact (List.subperm_of_subset hnodup hsubset).length_le.trans hcounts
  · have hsubset : after.conformingLinks config policy bead ⊆
        graph.conformingLinks config policy bead := by
      intro row hrow
      obtain hother | hafter := step.counted hrow
      · exact List.mem_of_mem_filter hother
      · exact absurd ⟨row, hrow, hafter⟩ hsubject
    exact (List.subperm_of_subset hnodup hsubset).length_le.trans (h policy hpolicy bead)

theorem Graph.WithinMultiplicity.of_resources (hsame : after.resources = graph.resources) :
    after.WithinMultiplicity config policies := by
  intro policy hpolicy bead
  unfold conformingLinks
  rw [hsame]
  exact h policy hpolicy bead

end

theorem Graph.withinMultiplicity_empty (config : GraphConfiguration)
    (policies : List MaximumEndpointMultiplicityPolicy) :
    Graph.empty.WithinMultiplicity config policies := by
  intro policy _ bead
  have hnil : Graph.empty.conformingLinks config policy bead = [] := by
    refine List.eq_nil_iff_forall_not_mem.mpr fun row hrow ↦ ?_
    obtain ⟨⟨key, hkey⟩, -⟩ := mem_conformingLinks.mp hrow
    simp [Graph.empty] at hkey
  rw [hnil]
  exact Nat.zero_le _

end Checks

section Runs

variable {config : GraphConfiguration} {past : List Graph} {graph : Graph}

/-- A member under fixed policies whose creation takes a plain identity. -/
structure UnderPolicies (config : GraphConfiguration)
    (policies : List MaximumEndpointMultiplicityPolicy) (context : MemberContext)
    (mutation : ResourceMutation) : Prop where
  plain : PlainCreation config context mutation
  policies : context.maximumEndpointMultiplicity = policies

theorem GraphRun.withinMultiplicity {policies : List MaximumEndpointMultiplicityPolicy}
    (run : GraphRun config (UnderPolicies config policies) past graph) :
    graph.WithinMultiplicity config policies := by
  induction run with
  | empty => exact Graph.withinMultiplicity_empty config policies
  | mutated context mutation evaluation run captured admitted step ih =>
    have hsound := (run.mono fun _ _ h ↦ h.plain).sound
    have happlied := hsound.mutated captured admitted.plain step
    obtain hsame | ⟨prepared, versions, hstep⟩ := hsound.memberStep captured admitted.plain step
    · exact ih.of_resources (Table.ext_lookup hsame)
    · exact ih.step hstep (fun key row hrow ↦ (happlied.consistent.keyed key row hrow).1)
        admitted.policies
  | aliased context mutation evaluation run step ih =>
    exact ih.of_resources (applyAlias_tables step.2).1
  | unchanged run ih => exact ih

/-- What the owners of the stores bring along: fixed policies, none in the transaction store, and in
the recovery store digests for identities. -/
structure OwnerContext (config : GraphConfiguration)
    (policies : List MaximumEndpointMultiplicityPolicy) (context : MemberContext) : Prop where
  fixed : context.maximumEndpointMultiplicity = policies
  transaction : config.store = .transaction → policies = []
  allocated : config.store = .recovery → ∀ kind id, context.allocateResourceId kind = .ok id →
    isDigest id = true

/-- Runs of members from the empty graph under fixed policies, with the graphs passed on the way. -/
inductive MemberRun (config : GraphConfiguration)
    (policies : List MaximumEndpointMultiplicityPolicy) : List Graph → Graph → Prop where
  | empty : MemberRun config policies [] Graph.empty
  | member {past : List Graph} {graph : Graph} (context : MemberContext) (bindings : Bindings)
      (mutation : ResourceMutation) (run : MemberRun config policies past graph)
      (owner : OwnerContext config policies context)
      (captured : ∀ executable, (mutation.bound bindings).executable (context.options config)
        (graph.view config context) = .ok executable →
          CapturedFrom config (graph :: past) context executable) :
      MemberRun config policies (graph :: past) (graph.runMember config context bindings mutation)
  | aliased {past : List Graph} {graph after : Graph} (context : MemberContext)
      (mutation : AliasMutation) (evaluation : AliasEvaluation)
      (run : MemberRun config policies past graph)
      (step : graph.AliasMutated config context mutation evaluation after) :
      MemberRun config policies (graph :: past) after

theorem MemberRun.graphRun {policies : List MaximumEndpointMultiplicityPolicy}
    (hstore : config.store = .recovery) (run : MemberRun config policies past graph) :
    GraphRun config (UnderPolicies config policies) past graph := by
  induction run with
  | empty => exact .empty
  | @member past graph context bindings mutation run owner captured ih =>
    unfold Graph.runMember
    cases hturn : graph.turn config context bindings mutation with
    | error stop => exact ih.unchanged
    | ok after =>
      obtain ⟨executable, evaluation, hexecutable, hstep, hcoherent⟩ := turn_spec hturn
      have hplain := plainCreation_of_coherent (owner.allocated hstore) hstep.1 (hcoherent hstore)
      exact ih.mutated context executable evaluation (captured executable hexecutable)
        ⟨hplain, owner.fixed⟩ hstep
  | aliased context mutation evaluation run step ih =>
    exact ih.aliased context mutation evaluation step

theorem MemberRun.withinMultiplicity_transaction
    {policies : List MaximumEndpointMultiplicityPolicy} (hstore : config.store = .transaction)
    (run : MemberRun config policies past graph) : graph.WithinMultiplicity config policies := by
  induction run with
  | empty => exact Graph.withinMultiplicity_empty config policies
  | member context bindings mutation run owner captured ih =>
    rw [owner.transaction hstore]
    exact fun _ hpolicy ↦ nomatch hpolicy
  | aliased context mutation evaluation run step ih =>
    exact ih.of_resources (applyAlias_tables step.2).1

/-- In a run of members under fixed policies no Bead ever has more conforming Links than a policy
allows. -/
theorem multiplicity_law {policies : List MaximumEndpointMultiplicityPolicy}
    (run : MemberRun config policies past graph) : graph.WithinMultiplicity config policies := by
  cases hstore : config.store with
  | recovery => exact (run.graphRun hstore).withinMultiplicity
  | transaction => exact run.withinMultiplicity_transaction hstore

end Runs

section Sample

def oneCitation : MaximumEndpointMultiplicityPolicy :=
  { linkConformsTo := "cites", endpoint := .source, max := 1 }

def citingContext : MemberContext :=
  { sampleContext with maximumEndpointMultiplicity := [oneCitation] }

theorem citing_owner : OwnerContext (sampleConfiguration .recovery) [oneCitation] citingContext :=
  ⟨rfl, nofun, nofun⟩

theorem citing_run {past : List Graph} {graph after : Graph} (mutation : ResourceMutation)
    (run : MemberRun (sampleConfiguration .recovery) [oneCitation] past graph)
    (h : graph.runMember (sampleConfiguration .recovery) citingContext [] mutation = after) :
    MemberRun (sampleConfiguration .recovery) [oneCitation] (graph :: past) after :=
  h ▸ .member citingContext [] mutation run citing_owner fun _ _ _ h ↦ nomatch h

/-- The note is cited once; the policy refuses another citation, and the envelope rolls back one
whose identity starts like a URL behind the Scope. -/
theorem multiplicity_law_of_notes :
    citedNote.WithinMultiplicity (sampleConfiguration .recovery) [oneCitation] ∧
      citedNote.conformingLinks (sampleConfiguration .recovery) oneCitation "a" = [citeRow "l" 2] ∧
      citedNote.runMember (sampleConfiguration .recovery) citingContext [] (createCite "m") =
        citedNote ∧
      noteGraph.runMember (sampleConfiguration .recovery) citingContext []
        (createCite "https://h/https:https:c") = noteGraph :=
  ⟨multiplicity_law (citing_run (createCite "l") (citing_run (createNote "a") .empty rfl) rfl),
    rfl, rfl, rfl⟩

end Sample

end Bdp.Evaluator
