import Bdp.Retained.BatchEvaluate
import Bdp.Retained.Effects
import Bdp.Retained.Graph

/-!
# Staging the members of a batch

What one staged member does to the working graph, and what every staged graph keeps: its Links stay
attached to live Beads, an identity is created at most once and never over an occupied one, and an
identity that no member touches is still what the store holds.
-/

namespace Bdp.Retained

open Bdp.Except (bind_eq_ok ok_bind)

variable {config : StoreConfiguration} {baseline : BatchBaseline} {graph staged : WorkingGraph}
  {member : BatchMember config} {comparison : ReferenceComparison}

variable {state : ResourceState}

theorem admitEndpoints_eq_ok {value : Unit} : admitEndpoints config graph state = .ok value ↔
      EndpointsLive config.navigation.scope (graph.live[·]?) state := by
  rw [← endpointFailure_eq_none]
  unfold admitEndpoints
  split
  · next problem h => simp [h]
  · next h => simp [h]

theorem admitEndpoints_of (h : EndpointsLive config.navigation.scope (graph.live[·]?) state) :
    admitEndpoints config graph state = .ok () := by
  rw [admitEndpoints, endpointFailure_eq_none.mpr h]
  rfl

/-- An identity that a creating member may take. -/
structure FreshIdentity (config : StoreConfiguration) (baseline : BatchBaseline)
    (graph : WorkingGraph) (id : String) : Prop where
  unseen : graph.seen id = false
  untaken : baseline.taken id = false
  not_alias : baseline.aliasTaken id = false
  unreserved : config.isReserved id = false
  canonical : config.navigation.canonical id = true

theorem createdId_canonical (member : BatchMember config) {uri : String}
    (h : member.invocation.createdId = some uri) : config.navigation.canonical uri = true := by
  cases hinvocation : member.invocation with
  | create input =>
    rw [hinvocation] at h
    exact input.id_canonical uri h
  | update input => simp [hinvocation, BatchInvocation.createdId] at h
  | delete input => simp [hinvocation, BatchInvocation.createdId] at h
  | link input =>
    rw [hinvocation, BatchInvocation.createdId] at h
    split at h
    · exact input.id_canonical uri h
    · cases h

variable {draws : ℕ}

theorem createdIdentity_eq_ok {id : String}
    (h : createdIdentity baseline graph member = .ok (id, draws)) :
    FreshIdentity config baseline graph id ∧ graph.identityDraws ≤ draws ∧
      ((member.invocation.createdId = some id ∧ draws = graph.identityDraws) ∨
        (member.invocation.createdId = none ∧
          allocateIdentity config (fun id ↦ graph.seen id || baseline.taken id ||
            baseline.aliasTaken id || config.isReserved id) MAX_ALLOCATION_ATTEMPTS
            graph.identityDraws = some (id, draws))) := by
  unfold createdIdentity at h
  rw [bind_eq_ok] at h
  obtain ⟨⟨candidate, next⟩, hcandidate, h⟩ := h
  dsimp only at h
  rw [check_bind_eq_ok, check_bind_eq_ok, Except.pure_eq_ok_iff] at h
  obtain ⟨⟨hunseen, huntaken, hunreserved⟩, halias, h⟩ := h
  obtain ⟨rfl, rfl⟩ := Prod.mk.inj h
  unfold candidateIdentity at hcandidate
  split at hcandidate
  · next uri huri =>
    obtain ⟨rfl, rfl⟩ := Prod.mk.inj (Except.ok.inj hcandidate)
    exact ⟨⟨hunseen, huntaken, halias, hunreserved, createdId_canonical member huri⟩, le_rfl,
      Or.inl ⟨huri, rfl⟩⟩
  · next hnone =>
    rw [require_eq_ok] at hcandidate
    obtain ⟨hlt, hid, -⟩ := allocateIdentity_eq_some hcandidate
    exact ⟨⟨hunseen, huntaken, halias, hunreserved, hid ▸ config.canonical_allocated _⟩,
      by omega, Or.inr ⟨hnone, hcandidate⟩⟩

theorem createdState_eq_ok {id : String} (h : createdState graph member comparison id = .ok state) :
    state.kind = member.invocation.kind ∧ state.resource = stagedBead member.invocation.edits id ∧
      (∀ resource, state = .link resource →
        memberReference graph member comparison .source = .ok (some resource.source) ∧
          memberReference graph member comparison .target = .ok (some resource.target)) := by
  unfold createdState at h
  dsimp only at h
  split at h
  · next hkind =>
    obtain rfl := Except.ok.inj h
    exact ⟨hkind.symm, rfl, fun _ h ↦ nomatch h⟩
  · next hkind =>
    rw [bind_eq_ok] at h
    obtain ⟨source, hsource, h⟩ := h
    rw [bind_eq_ok] at h
    obtain ⟨target, htarget, h⟩ := h
    cases source with
    | none => simp at h
    | some source =>
    cases target with
    | none => simp at h
    | some target =>
    obtain rfl := Except.ok.inj h
    refine ⟨hkind.symm, rfl, fun resource hresource ↦ ?_⟩
    obtain rfl := ResourceState.link.inj hresource
    exact ⟨hsource, htarget⟩

def subjectField (kind : ResourceKind) : HandleField :=
  match kind with
  | .bead => .bead
  | .link => .link

variable {before : ResourceState}

theorem stagedSubject_eq_ok {id : String} :
    stagedSubject baseline graph member comparison = .ok (id, before) ↔
      memberReference graph member comparison (subjectField member.invocation.kind) =
          .ok (some (.floating id)) ∧
        graph.live[id]? = some before ∧ before.kind = member.invocation.kind ∧
        ∀ revision ∈ member.invocation.edits.expectedRevision,
          (baseline.initial[id]?).map (fun state ↦ state.resource.revision) = some revision := by
  unfold stagedSubject
  change (memberReference graph member comparison (subjectField member.invocation.kind) >>= _) = _ ↔ _
  rw [bind_eq_ok]
  constructor
  · rintro ⟨reference, hreference, h⟩
    split at h
    · rw [bind_eq_ok] at h
      obtain ⟨found, hfound, h⟩ := h
      rw [check_bind_eq_ok, check_bind_eq_ok, Except.pure_eq_ok_iff] at h
      obtain ⟨hkind, hguard, h⟩ := h
      obtain ⟨rfl, rfl⟩ := Prod.mk.inj h
      exact ⟨hreference, require_eq_ok.mp hfound, hkind, hguard⟩
    · cases h
  · rintro ⟨hreference, hfound, hkind, hguard⟩
    refine ⟨_, hreference, ?_⟩
    dsimp only
    rw [hfound, require_some, ok_bind, check_of hkind, ok_bind, check_of hguard]
    rfl

theorem updatedState_eq_ok (h : updatedState graph member comparison before = .ok state) :
    exceedsEditLimits [member.invocation.edits.propertiesChange.getD [],
        member.invocation.edits.metadataChange.getD []] = false ∧
      ∃ properties metadata source target,
        editedDocuments member.invocation.edits before.resource.properties
          before.resource.metadata = .ok (properties, metadata) ∧
        state = editedState before (member.invocation.edits.type.getD before.resource.type)
          properties metadata source target ∧
        (∀ resource, before = .link resource → ∃ from' to', source = some from' ∧
          target = some to' ∧
          editedEndpoint graph member comparison .source resource.source = .ok (some from') ∧
          editedEndpoint graph member comparison .target resource.target = .ok (some to')) := by
  unfold updatedState at h
  rw [check_bind_eq_ok, bind_eq_ok] at h
  obtain ⟨hlimits, ⟨properties, metadata⟩, hdocuments, h⟩ := h
  have hdocuments : editedDocuments member.invocation.edits before.resource.properties
      before.resource.metadata = .ok (properties, metadata) := by
    cases hresult : editedDocuments member.invocation.edits before.resource.properties
        before.resource.metadata with
    | error problem => simp [hresult, Except.mapError] at hdocuments
    | ok documents =>
      rw [hresult] at hdocuments
      exact congrArg Except.ok (Except.ok.inj hdocuments)
  refine ⟨hlimits, properties, metadata, ?_⟩
  dsimp only at h
  split at h
  · exact ⟨none, none, hdocuments, (Except.ok.inj h).symm, fun _ h ↦ nomatch h⟩
  · next resource =>
    rw [bind_eq_ok] at h
    obtain ⟨source, hsource, h⟩ := h
    rw [bind_eq_ok] at h
    obtain ⟨target, htarget, h⟩ := h
    cases source with
    | none => simp at h
    | some source =>
    cases target with
    | none => simp at h
    | some target =>
    refine ⟨some source, some target, hdocuments, (Except.ok.inj h).symm, fun found hfound ↦ ?_⟩
    obtain rfl := ResourceState.link.inj hfound
    exact ⟨source, target, rfl, rfl, hsource, htarget⟩

/-- No live Link of the graph is attached to the identity. -/
def Unlinked (live : Table ResourceState) (id : String) : Prop :=
  ∀ (other : String) (row : ResourceState), live[other]? = some row → row.kind = .link →
    linkedTo id row = false

variable {live : Table ResourceState}

theorem unlinked_iff {id : String} :
    ((live.toList.map Prod.snd).any fun state ↦ state.kind == .link && linkedTo id state) = false ↔
      Unlinked live id := by
  simp only [List.any_eq_false, List.mem_map, Bool.and_eq_true, beq_iff_eq, not_and,
    Bool.not_eq_true, Unlinked]
  constructor
  · intro h other row hrow hkind
    exact h row ⟨(other, row), Table.mem_toList.mpr hrow, rfl⟩ hkind
  · rintro h row ⟨entry, hentry, rfl⟩ hkind
    exact h entry.1 entry.2 (Table.mem_toList.mp hentry) hkind

/-- What staging the operation of one member does to the graph. -/
inductive StagedStep (baseline : BatchBaseline) (graph : WorkingGraph)
    (member : BatchMember config) (comparison : ReferenceComparison) :
    String → WorkingGraph → Prop where
  | created (id : String) (state : ResourceState) (identityDraws : ℕ)
      (creates : member.invocation.isCreate = true)
      (identity : createdIdentity baseline graph member = .ok (id, identityDraws))
      (created : createdState graph member comparison id = .ok state)
      (endpoints : EndpointsLive config.navigation.scope (graph.live[·]?) state) :
      StagedStep baseline graph member comparison id { graph with
        live := graph.live.insert id state
        allocated := graph.allocated ++ [(id, member.invocation.kind)]
        identityDraws }
  | deleted (id : String) (before : ResourceState)
      (creates : member.invocation.isCreate = false)
      (deletes : member.invocation.isDelete = true)
      (subject : stagedSubject baseline graph member comparison = .ok (id, before))
      (unlinked : member.invocation.kind = .bead → Unlinked graph.live id) :
      StagedStep baseline graph member comparison id { graph with live := graph.live.erase id }
  | updated (id : String) (before state : ResourceState)
      (creates : member.invocation.isCreate = false)
      (deletes : member.invocation.isDelete = false)
      (subject : stagedSubject baseline graph member comparison = .ok (id, before))
      (updated : updatedState graph member comparison before = .ok state)
      (endpoints : EndpointsLive config.navigation.scope (graph.live[·]?) state) :
      StagedStep baseline graph member comparison id { graph with live := graph.live.insert id state }

theorem stageOperation_eq_ok {id : String} :
    stageOperation baseline graph member comparison = .ok (id, staged) ↔
      StagedStep baseline graph member comparison id staged := by
  constructor
  · intro h
    unfold stageOperation at h
    split at h
    · next hcreates =>
      unfold stageCreate at h
      rw [bind_eq_ok] at h
      obtain ⟨⟨created, draws⟩, hidentity, h⟩ := h
      rw [bind_eq_ok] at h
      obtain ⟨state, hstate, h⟩ := h
      rw [bind_eq_ok] at h
      obtain ⟨_, hendpoints, h⟩ := h
      obtain ⟨rfl, rfl⟩ := Prod.mk.inj (Except.ok.inj h)
      exact .created _ state draws hcreates hidentity hstate (admitEndpoints_eq_ok.mp hendpoints)
    next hcreates =>
    split at h
    · next hdeletes =>
      unfold stageDelete at h
      rw [bind_eq_ok] at h
      obtain ⟨⟨deleted, before⟩, hsubject, h⟩ := h
      rw [check_bind_eq_ok] at h
      obtain ⟨hlinks, h⟩ := h
      obtain ⟨rfl, rfl⟩ := Prod.mk.inj (Except.ok.inj h)
      exact .deleted _ before (by simpa using hcreates) hdeletes hsubject
        fun hbead ↦ unlinked_iff.mp (hlinks hbead)
    · next hdeletes =>
      unfold stageUpdate at h
      rw [bind_eq_ok] at h
      obtain ⟨⟨updated, before⟩, hsubject, h⟩ := h
      rw [bind_eq_ok] at h
      obtain ⟨state, hstate, h⟩ := h
      rw [bind_eq_ok] at h
      obtain ⟨_, hendpoints, h⟩ := h
      obtain ⟨rfl, rfl⟩ := Prod.mk.inj (Except.ok.inj h)
      exact .updated _ before state (by simpa using hcreates) (by simpa using hdeletes) hsubject
        hstate (admitEndpoints_eq_ok.mp hendpoints)
  · intro h
    cases h with
    | created state draws hcreates hidentity hstate hendpoints =>
      rw [stageOperation, if_pos hcreates, stageCreate, hidentity, ok_bind]
      dsimp only
      rw [hstate, ok_bind, admitEndpoints_of hendpoints]
      rfl
    | deleted before hcreates hdeletes hsubject hlinks =>
      rw [stageOperation, if_neg (by simp [hcreates]), if_pos hdeletes, stageDelete, hsubject,
        ok_bind]
      dsimp only
      rw [check_of fun hbead ↦ unlinked_iff.mpr (hlinks hbead)]
      rfl
    | updated before state hcreates hdeletes hsubject hstate hendpoints =>
      rw [stageOperation, if_neg (by simp [hcreates]), if_neg (by simp [hdeletes]), stageUpdate,
        hsubject, ok_bind]
      dsimp only
      rw [hstate, ok_bind, admitEndpoints_of hendpoints]
      rfl

variable {next : WorkingGraph}

theorem evaluateMember_eq_ok : evaluateMember baseline graph (member, comparison) = .ok next ↔
      member.invocation.refusal = none ∧ ∃ id staged,
        StagedStep baseline graph member comparison id staged ∧
        next = recordMember member graph.mappings.length id staged := by
  unfold evaluateMember
  cases hrefusal : member.invocation.refusal with
  | some problem => simp
  | none =>
    simp only [true_and]
    rw [bind_eq_ok]
    constructor
    · rintro ⟨⟨id, staged⟩, hstage, h⟩
      exact ⟨id, staged, stageOperation_eq_ok.mp hstage, (Except.ok.inj h).symm⟩
    · rintro ⟨id, staged, hstage, rfl⟩
      exact ⟨(id, staged), stageOperation_eq_ok.mpr hstage, rfl⟩

section Invariant

/-- What a batch relies on of the store it starts from. -/
structure BatchBaseline.Sound (config : StoreConfiguration) (baseline : BatchBaseline) : Prop where
  linked : WellLinked config.navigation.scope baseline.initial
  taken : ∀ id ∈ baseline.initial, baseline.taken id = true

/-- What holds of the working graph after any number of staged members. -/
structure Staged (config : StoreConfiguration) (baseline : BatchBaseline) (graph : WorkingGraph) :
    Prop where
  linked : WellLinked config.navigation.scope graph.live
  untouched : ∀ id : String, id ∉ graph.touched → graph.live[id]? = baseline.initial[id]?
  kind_live : ∀ (id : String) (kind : ResourceKind) (state : ResourceState),
    graph.touched[id]? = some kind → graph.live[id]? = some state → state.kind = kind
  kind_initial : ∀ (id : String) (kind : ResourceKind) (state : ResourceState),
    graph.touched[id]? = some kind → baseline.initial[id]? = some state → state.kind = kind
  origin : ∀ id ∈ graph.touched, id ∈ baseline.initial ∨ graph.seen id = true
  allocated : ∀ entry ∈ graph.allocated, baseline.taken entry.1 = false ∧
    baseline.aliasTaken entry.1 = false ∧ config.isReserved entry.1 = false ∧
    config.navigation.canonical entry.1 = true ∧ graph.touched[entry.1]? = some entry.2
  allocated_nodup : (graph.allocated.map Prod.fst).Nodup

variable {id : String}

theorem seen_iff : graph.seen id = true ↔ id ∈ graph.allocated.map Prod.fst := by
  simp [WorkingGraph.seen]

theorem staged_initial (h : baseline.Sound config) (draws : ℕ) :
    Staged config baseline (WorkingGraph.initial baseline draws) where
  linked := h.linked
  untouched _ _ := rfl
  kind_live id kind state htouched := by simp [WorkingGraph.initial] at htouched
  kind_initial id kind state htouched := by simp [WorkingGraph.initial] at htouched
  origin id hid := by simp [WorkingGraph.initial] at hid
  allocated entry hentry := by simp [WorkingGraph.initial] at hentry
  allocated_nodup := by simp [WorkingGraph.initial]

theorem Staged.occupied (hbase : baseline.Sound config) (h : Staged config baseline graph)
    (hid : id ∈ graph.live ∨ id ∈ graph.touched) :
    graph.seen id = true ∨ (id ∈ baseline.initial ∧ baseline.taken id = true) := by
  by_cases htouched : id ∈ graph.touched
  · obtain hinitial | hseen := h.origin id htouched
    · exact Or.inr ⟨hinitial, hbase.taken id hinitial⟩
    · exact Or.inl hseen
  · obtain hlive | hmem := hid
    · obtain ⟨state, hstate⟩ := Table.mem_iff_exists.mp hlive
      rw [h.untouched id htouched] at hstate
      have hinitial := Table.mem_of_lookup hstate
      exact Or.inr ⟨hinitial, hbase.taken id hinitial⟩
    · exact absurd hmem htouched

variable (index : ℕ)

@[simp]
theorem recordMember_live (id : String) :
    (recordMember member index id graph).live = graph.live := rfl

@[simp]
theorem recordMember_allocated (id : String) :
    (recordMember member index id graph).allocated = graph.allocated := rfl

@[simp]
theorem recordMember_touched (id : String) : (recordMember member index id graph).touched =
      graph.touched.insert id member.invocation.kind := rfl

@[simp]
theorem recordMember_seen (id other : String) :
    (recordMember member index id graph).seen other = graph.seen other := rfl

section

variable (hbase : baseline.Sound config)
include hbase

section

variable (h : Staged config baseline graph)
include h

theorem Staged.create {identityDraws index : ℕ} (hfresh : FreshIdentity config baseline graph id)
    (hkind : state.kind = member.invocation.kind) (hid : state.resource.id = id)
    (hendpoints : EndpointsLive config.navigation.scope (graph.live[·]?) state) :
    Staged config baseline (recordMember member index id { graph with
      live := graph.live.insert id state
      allocated := graph.allocated ++ [(id, member.invocation.kind)]
      identityDraws }) := by
  have hnew : id ∉ graph.live ∧ id ∉ graph.touched := by
    constructor <;> intro hmem
    · obtain hseen | ⟨-, htaken⟩ := h.occupied hbase (Or.inl hmem)
      · rw [hfresh.unseen] at hseen
        cases hseen
      · rw [hfresh.untaken] at htaken
        cases htaken
    · obtain hseen | ⟨-, htaken⟩ := h.occupied hbase (Or.inr hmem)
      · rw [hfresh.unseen] at hseen
        cases hseen
      · rw [hfresh.untaken] at htaken
        cases htaken
  have hinitial : baseline.initial[id]? = none := by
    rw [← h.untouched id hnew.2, Table.lookup_eq_none_iff]
    exact hnew.1
  refine ⟨?_, ?_, ?_, ?_, ?_, ?_, ?_⟩
  · refine h.linked.insert hid (fun old hold ↦ ?_) hendpoints
    exact absurd (Table.mem_of_lookup hold) hnew.1
  · intro other hother
    simp only [recordMember_touched, recordMember_live, Table.mem_insert, not_or] at hother ⊢
    rw [Table.lookup_insert_of_ne hother.1, h.untouched other hother.2]
  · intro other kind found htouched hlive
    simp only [recordMember_touched, recordMember_live, Table.lookup_insert] at htouched hlive
    split at hlive
    · next heq =>
      rw [if_pos heq] at htouched
      rw [← Option.some.inj hlive, ← Option.some.inj htouched, hkind]
    · next hne =>
      rw [if_neg hne] at htouched
      exact h.kind_live other kind found htouched hlive
  · intro other kind found htouched hfound
    simp only [recordMember_touched, Table.lookup_insert] at htouched
    split at htouched
    · next heq =>
      rw [← heq, hinitial] at hfound
      cases hfound
    · exact h.kind_initial other kind found htouched hfound
  · intro other hother
    simp only [recordMember_touched, Table.mem_insert] at hother
    rw [recordMember_seen, seen_iff]
    simp only [List.map_append, List.mem_append]
    obtain rfl | hother := hother
    · exact Or.inr (Or.inr (by simp))
    · obtain hmem | hseen := h.origin other hother
      · exact Or.inl hmem
      · exact Or.inr (Or.inl (seen_iff.mp hseen))
  · intro entry hentry
    simp only [recordMember_allocated, List.mem_append, List.mem_singleton] at hentry
    simp only [recordMember_touched, Table.lookup_insert]
    obtain hentry | rfl := hentry
    · obtain ⟨htaken, halias, hreserved, hcanonical, htouched⟩ := h.allocated entry hentry
      refine ⟨htaken, halias, hreserved, hcanonical, ?_⟩
      rw [if_neg, htouched]
      rintro rfl
      exact hnew.2 (Table.mem_of_lookup htouched)
    · exact ⟨hfresh.untaken, hfresh.not_alias, hfresh.unreserved, hfresh.canonical, by simp⟩
  · simp only [recordMember_allocated, List.map_append, List.map_cons, List.map_nil]
    refine List.nodup_append.mpr ⟨h.allocated_nodup, by simp, fun name hname other hother ↦ ?_⟩
    obtain rfl := List.mem_singleton.mp hother
    rintro rfl
    have hseen := seen_iff.mpr hname
    rw [hfresh.unseen] at hseen
    cases hseen

theorem Staged.change {index : ℕ}
    (hbefore : graph.live[id]? = some before) (hkind : before.kind = member.invocation.kind)
    (hlinked : WellLinked config.navigation.scope live)
    (hsame : ∀ other, other ≠ id → live[other]? = graph.live[other]?)
    (hafter : ∀ state, live[id]? = some state → state.kind = before.kind) :
    Staged config baseline (recordMember member index id { graph with live }) := by
  refine ⟨hlinked, ?_, ?_, ?_, ?_, ?_, h.allocated_nodup⟩
  · intro other hother
    simp only [recordMember_touched, recordMember_live, Table.mem_insert, not_or] at hother ⊢
    rw [hsame other (Ne.symm hother.1), h.untouched other hother.2]
  · intro other kind found htouched hlive
    simp only [recordMember_touched, recordMember_live, Table.lookup_insert] at htouched hlive
    split at htouched
    · next heq =>
      subst heq
      rw [hafter found hlive, hkind, Option.some.inj htouched]
    · next hne =>
      rw [hsame other (Ne.symm hne)] at hlive
      exact h.kind_live other kind found htouched hlive
  · intro other kind found htouched hfound
    simp only [recordMember_touched, Table.lookup_insert] at htouched
    split at htouched
    · next heq =>
      subst heq
      by_cases hmem : id ∈ graph.touched
      · obtain ⟨old, hold⟩ := Table.mem_iff_exists.mp hmem
        rw [h.kind_initial id old found hold hfound, ← h.kind_live id old before hold hbefore,
          hkind, Option.some.inj htouched]
      · rw [h.untouched id hmem, hfound] at hbefore
        rw [Option.some.inj hbefore, hkind, Option.some.inj htouched]
    · exact h.kind_initial other kind found htouched hfound
  · intro other hother
    simp only [recordMember_touched, Table.mem_insert] at hother
    rw [recordMember_seen]
    obtain rfl | hother := hother
    · obtain hseen | hinitial := h.occupied hbase (Or.inl (Table.mem_of_lookup hbefore))
      · exact Or.inr hseen
      · exact Or.inl hinitial.1
    · exact h.origin other hother
  · intro entry hentry
    obtain ⟨htaken, halias, hreserved, hcanonical, htouched⟩ := h.allocated entry hentry
    refine ⟨htaken, halias, hreserved, hcanonical, ?_⟩
    simp only [recordMember_touched, Table.lookup_insert]
    split
    · next heq =>
      subst heq
      rw [← h.kind_live _ _ before htouched hbefore, hkind]
    · exact htouched

theorem Staged.step (hstep : evaluateMember baseline graph (member, comparison) = .ok next) :
    Staged config baseline next := by
  obtain ⟨-, id, staged, hstage, rfl⟩ := evaluateMember_eq_ok.mp hstep
  cases hstage with
  | created state draws hcreates hidentity hcreated hendpoints =>
    obtain ⟨hkind, hresource, -⟩ := createdState_eq_ok hcreated
    exact h.create hbase (createdIdentity_eq_ok hidentity).1 hkind (by rw [hresource]; rfl)
      hendpoints
  | deleted before hcreates hdeletes hsubject hunlinked =>
    obtain ⟨-, hbefore, hkind, -⟩ := stagedSubject_eq_ok.mp hsubject
    refine h.change hbase hbefore hkind (h.linked.erase hbefore fun hbead ↦ ?_) ?_ ?_
    · exact hunlinked (hkind ▸ hbead)
    · intro other hother
      rw [Table.lookup_erase, if_neg (Ne.symm hother)]
    · intro state hstate
      rw [Table.lookup_erase, if_pos rfl] at hstate
      cases hstate
  | updated before state hcreates hdeletes hsubject hupdated hendpoints =>
    obtain ⟨-, hbefore, hkind, -⟩ := stagedSubject_eq_ok.mp hsubject
    obtain ⟨-, properties, metadata, source, target, -, rfl, -⟩ := updatedState_eq_ok hupdated
    refine h.change hbase hbefore hkind (h.linked.insert ?_ ?_ hendpoints) ?_ ?_
    · rw [editedState_resource]
      exact h.linked.id_eq id before hbefore
    · intro old hold
      rw [editedState_kind, Option.some.inj (hold.symm.trans hbefore)]
    · intro other hother
      rw [Table.lookup_insert_of_ne (Ne.symm hother)]
    · intro found hfound
      rw [Table.lookup_insert_self] at hfound
      rw [← Option.some.inj hfound, editedState_kind]

end

theorem staged_of_stageMembers {input : PreparedBatch config}
    {comparison : BatchComparison} {last : WorkingGraph}
    (h : stageMembers input comparison baseline draws = .ok last) :
    Staged config baseline last :=
  replay_induction (fun _ graph ↦ Staged config baseline graph) h (staged_initial hbase draws)
    fun _ _ _ _ hstaged hstep ↦ hstaged.step hbase hstep

end

end Invariant

end Bdp.Retained
