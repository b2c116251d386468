import Bdp.Retained.Counted
import Bdp.Retained.Steps

/-!
# The graph invariant

In every reachable store the resources form a well-linked graph, every live resource and every
historical version belongs to an identity of its kind, and aliases live apart from identities and
name Beads. Identities are never removed and never change their kind.
-/

namespace Bdp.Retained

variable {config : StoreConfiguration} {store result : Store}

structure GraphInvariant (config : StoreConfiguration) (store : Store) : Prop where
  linked : WellLinked config.navigation.scope store.resources
  kinds : ∀ (id : String) (state : ResourceState), store.resources[id]? = some state →
    store.identities[id]? = some state.kind
  versions : ∀ row ∈ store.historicalVersions, store.identities[row.id]? = some .bead
  alias_apart : ∀ locator ∈ store.aliases, locator ∉ store.identities
  alias_target : ∀ locator target : String, store.aliases[locator]? = some target →
    store.identities[target]? = some .bead

theorem graphInvariant_empty : GraphInvariant config (Store.empty config) where
  linked := .empty
  kinds _ _ h := by simp [Store.empty] at h
  versions _ h := by simp [Store.empty] at h
  alias_apart _ h := by simp [Store.empty] at h
  alias_target _ _ h := by simp [Store.empty] at h

variable {id : String}
variable {kind : ResourceKind}

namespace GraphInvariant

section

variable (h : GraphInvariant config store)
include h

theorem congr (hidentities : result.identities = store.identities)
    (hresources : result.resources = store.resources) (haliases : result.aliases = store.aliases)
    (hversions : result.historicalVersions = store.historicalVersions) :
    GraphInvariant config result := by
  refine ⟨?_, ?_, ?_, ?_, ?_⟩
  · rw [hresources]
    exact h.linked
  · rw [hresources, hidentities]
    exact h.kinds
  · rw [hversions, hidentities]
    exact h.versions
  · rw [haliases, hidentities]
    exact h.alias_apart
  · rw [haliases, hidentities]
    exact h.alias_target

theorem currentState_none (id : String) : store.currentState id none = store.resources[id]? := by
  cases hstate : store.resources[id]? with
  | none => simp [Store.currentState, hstate]
  | some state =>
    exact currentState_eq_some.mpr ⟨hstate, h.kinds id state hstate, Or.inl rfl⟩

theorem endpointsLive {state : ResourceState}
    (hendpoints : EndpointsLive config.navigation.scope (store.currentState · none) state) :
    EndpointsLive config.navigation.scope (store.resources[·]?) state := by
  have heq : (store.currentState · none) = fun id ↦ store.resources[id]? :=
    funext h.currentState_none
  rwa [heq] at hendpoints

theorem put (id : String) (state : ResourceState) (hid : state.resource.id = id)
    (hold : ∀ kind, store.identities[id]? = some kind → kind = state.kind)
    (halias : id ∉ store.identities → id ∉ store.aliases)
    (hendpoints : EndpointsLive config.navigation.scope (store.resources[·]?) state)
    (hidentities : result.identities = store.identities.insert id state.kind)
    (hresources : result.resources = store.resources.insert id state)
    (haliases : result.aliases = store.aliases)
    (hversions : ∀ row ∈ result.historicalVersions,
      row ∈ store.historicalVersions ∨ (row.id = id ∧ state.kind = .bead)) :
    GraphInvariant config result := by
  have hkeep {other : String} {kind : ResourceKind} (hother : store.identities[other]? = some kind) :
      (store.identities.insert id state.kind)[other]? = some kind := by
    rw [Table.lookup_insert]
    split
    · next heq => rw [hold kind (heq ▸ hother)]
    · exact hother
  refine ⟨?_, ?_, ?_, ?_, ?_⟩
  · rw [hresources]
    exact h.linked.insert hid (fun old hfound ↦ hold _ (h.kinds id old hfound)) hendpoints
  · intro other found hfound
    rw [hresources, Table.lookup_insert] at hfound
    rw [hidentities]
    split at hfound
    · next heq =>
      rw [← heq, Table.lookup_insert_self, Option.some.inj hfound]
    · exact hkeep (h.kinds other found hfound)
  · intro row hrow
    rw [hidentities]
    obtain hrow | ⟨rfl, hbead⟩ := hversions row hrow
    · exact hkeep (h.versions row hrow)
    · rw [Table.lookup_insert_self, hbead]
  · intro locator hlocator
    rw [haliases] at hlocator
    rw [hidentities, Table.mem_insert, not_or]
    refine ⟨?_, h.alias_apart locator hlocator⟩
    rintro rfl
    exact halias (h.alias_apart id hlocator) hlocator
  · intro locator target htarget
    rw [haliases] at htarget
    rw [hidentities]
    exact hkeep (h.alias_target locator target htarget)

theorem baseline {selected : Bool} {baseline : UpdateBaseline}
    (hbaseline : store.updateBaseline config kind id selected = .ok (some baseline)) :
    store.identities[id]? = some baseline.before.kind := by
  obtain ⟨-, ⟨-, hlive, -⟩ | ⟨-, -, terminal, resource, context, -, hversion, hbefore, -⟩⟩ :=
    updateBaseline_eq_some hbaseline
  · exact (currentState_eq_some.mp hlive).2.1
  · rw [hbefore]
    unfold Store.historicalVersion at hversion
    split at hversion
    · dsimp only at hversion
      obtain ⟨row, hrow, -⟩ := Option.map_eq_some_iff.mp hversion
      have hid := List.find?_some hrow
      simp only [Bool.and_eq_true, beq_iff_eq] at hid
      rw [← hid.1]
      exact h.versions row (List.mem_of_find?_eq_some hrow)
    · cases hversion

end

end GraphInvariant

variable {outcome : Outcome}

section Singletons

variable {transition : Transition} {row : VersionRow}

theorem Transition.mem_versions (h : row ∈ transition.versions config store) :
    row.id = transition.id ∧ transition.state.kind = .bead := by
  unfold Transition.versions at h
  split at h
  · next hhistorical =>
    obtain rfl := List.mem_singleton.mp h
    exact ⟨rfl, hhistorical.2⟩
  · cases h

theorem Transition.mem_commit_versions
    (h : row ∈ (transition.commit config store).historicalVersions) :
    row ∈ store.historicalVersions ∨ (row.id = transition.id ∧ transition.state.kind = .bead) := by
  obtain h | h := List.mem_append.mp h
  · exact Or.inl h
  · exact Or.inr (Transition.mem_versions h)

theorem GraphInvariant.unlinked (h : GraphInvariant config store)
    (hlinks : store.liveLinks.any (linkedTo id) = false) : Unlinked store.resources id := by
  intro other row hrow hkind
  have hidentity := h.kinds other row hrow
  simp only [List.any_eq_false, Bool.not_eq_true] at hlinks
  refine hlinks row (List.mem_map.mpr ⟨(other, row), List.mem_filter.mpr ⟨?_, ?_⟩, rfl⟩)
  · exact Table.mem_toList.mpr hrow
  · simpa [hkind] using hidentity

theorem GraphInvariant.effect {context : RequestContext}
    (h : GraphInvariant config store) (heffect : Effect config context store result outcome) :
    GraphInvariant config result := by
  cases heffect with
  | refused problem draws retainable le => exact h.congr rfl rfl rfl rfl
  | putAlias locator target operation_eq contains unreserved not_identity target_not_alias
      target_bead =>
    obtain ⟨resource, hresource⟩ := target_bead
    refine ⟨h.linked, h.kinds, h.versions, ?_, ?_⟩
    · intro other hother
      obtain rfl | hother := Table.mem_insert.mp hother
      · exact not_identity
      · exact h.alias_apart other hother
    · intro other found hfound
      dsimp only at hfound
      rw [Table.lookup_insert] at hfound
      split at hfound
      · obtain rfl := Option.some.inj hfound
        exact (currentState_eq_some.mp hresource).2.1
      · exact h.alias_target other found hfound
  | deleteAlias locator operation_eq contains live =>
    refine ⟨h.linked, h.kinds, h.versions, ?_, ?_⟩
    · intro other hother
      exact h.alias_apart other (Table.mem_erase.mp hother).2
    · intro other found hfound
      unfold Store.deleteAlias at hfound
      rw [Table.lookup_erase] at hfound
      split at hfound
      · cases hfound
      · exact h.alias_target other found hfound
  | created state time draws operation_eq drawn canonical type_reference unreserved not_alias
      endpoints admitted =>
    have hnew := (admitted.created rfl).1
    refine h.put state.resource.id state rfl ?_ (fun _ ↦ not_alias)
      (h.endpointsLive endpoints) rfl rfl rfl fun row hrow ↦ Transition.mem_commit_versions hrow
    intro kind hkind
    exact absurd (Table.mem_of_lookup hkind) hnew
  | unchanged => exact h
  | updated kind id edits baseline source candidate state time draws operation_eq from_eq guard_eq
      update type_reference changes state_eq drawn admitted =>
    have hidentity := h.baseline update.baseline_eq
    obtain ⟨-, ⟨properties, metadata, -, hcandidate⟩, hendpoints⟩ :=
      updateCandidate_eq_ok.mp update.candidate_eq
    have hkind : state.kind = baseline.before.kind := by
      rw [state_eq, rematerialized_kind, hcandidate, editedState_kind]
    have hid : state.resource.id = id := by rw [state_eq, rematerialized_resource]; rfl
    refine h.put id state hid ?_ ?_ (h.endpointsLive (hendpoints.congr ?_ ?_))
      ?_ ?_ rfl ?_
    · intro kind hfound
      rw [hidentity] at hfound
      rw [hkind, Option.some.inj hfound]
    · intro habsent
      exact absurd (Table.mem_of_lookup hidentity) habsent
    · rw [state_eq, rematerialized_kind]
    · rw [state_eq, rematerialized_endpoints]
    · rw [← hkind] at hidentity
      exact (Table.insert_of_lookup hidentity).symm
    · rw [← hid]
      rfl
    · intro row hrow
      rw [← hid]
      exact Transition.mem_commit_versions hrow
  | deleted id before time operation_eq live guard unlinked admitted =>
    have hrow := (currentState_eq_some.mp live).1
    have hid := h.linked.id_eq id before hrow
    have hresources : ((deletion before time).commit config store).resources =
        store.resources.erase id := by
      rw [← hid]
      rfl
    refine ⟨?_, ?_, ?_, h.alias_apart, h.alias_target⟩
    · rw [hresources]
      exact h.linked.erase hrow fun hbead ↦ h.unlinked (unlinked hbead)
    · intro other found hfound
      rw [hresources, Table.lookup_erase] at hfound
      split at hfound
      · cases hfound
      · exact h.kinds other found hfound
    · intro row hmem
      obtain hmem | ⟨hrowid, hbead⟩ := Transition.mem_commit_versions hmem
      · exact h.versions row hmem
      · have hkind : before.kind = .bead := hbead
        have hrowid : row.id = before.resource.id := hrowid
        rw [← hkind, hrowid, hid]
        exact h.kinds id before hrow

end Singletons

section Batches

theorem GraphInvariant.initialGraph_eq (h : GraphInvariant config store) :
    store.initialGraph = store.resources := by
  have hrows : store.liveStates = store.resources.toList.map Prod.snd := by
    unfold Store.liveStates
    rw [List.filter_eq_self.mpr]
    intro entry hentry
    have hkind := h.kinds entry.1 entry.2 (Table.mem_toList.mp hentry)
    simpa using hkind
  rw [Store.initialGraph, hrows, List.foldl_map]
  calc store.resources.toList.foldl (fun graph entry ↦
        graph.insert entry.2.resource.id entry.2) ∅
      = Table.insertRows ∅ store.resources.toList := by
        refine List.foldl_ext _ _ _ fun graph entry hentry ↦ ?_
        rw [h.linked.id_eq entry.1 entry.2 (Table.mem_toList.mp hentry)]
    _ = store.resources := Table.insertRows_toList _

theorem GraphInvariant.baseline_sound (h : GraphInvariant config store) :
    store.batchBaseline.Sound config := by
  refine ⟨?_, fun id hid ↦ ?_⟩
  · rw [Store.batchBaseline, h.initialGraph_eq]
    exact h.linked
  · rw [Store.batchBaseline, h.initialGraph_eq] at hid
    obtain ⟨state, hstate⟩ := Table.mem_iff_exists.mp hid
    exact Store.isIdentity_iff.mpr (Table.mem_of_lookup (h.kinds id state hstate))

variable {graph : WorkingGraph}

theorem allocated_identities (hstaged : Staged config store.batchBaseline graph) :
    (store.identities.insertRows graph.allocated)[id]? = some kind ↔
      store.identities[id]? = some kind ∨ (id, kind) ∈ graph.allocated := by
  by_cases hmem : id ∈ graph.allocated.map Prod.fst
  · obtain ⟨entry, hentry, rfl⟩ := List.mem_map.mp hmem
    have hlookup : (store.identities.insertRows graph.allocated)[entry.1]? = some entry.2 :=
      Table.insertRows_of_mem hstaged.allocated_nodup hentry
    have hold : store.identities[entry.1]? = none :=
      Table.lookup_eq_none_iff.mpr (Store.isIdentity_eq_false.mp (hstaged.allocated entry hentry).1)
    rw [hlookup, hold]
    constructor
    · intro h
      obtain rfl := Option.some.inj h
      exact Or.inr hentry
    · rintro (h | h)
      · cases h
      · rw [← hlookup]
        exact Table.insertRows_of_mem hstaged.allocated_nodup h
  · rw [Table.insertRows_of_not_mem hmem]
    refine ⟨Or.inl, ?_⟩
    rintro (h | h)
    · exact h
    · exact absurd (List.mem_map_of_mem h) hmem

theorem GraphInvariant.acceptedBatch (h : GraphInvariant config store)
    {input : PreparedBatch config} {clock : ℕ → ℕ}
    {evaluation : BatchEvaluation} {facts : List (BatchEffect × LifecycleFact)}
    (accepted : AcceptedBatch config store input clock graph evaluation facts) :
    GraphInvariant config (batchWritten config store evaluation facts) := by
  have hbase := h.baseline_sound
  have hstaged := staged_of_stageMembers hbase accepted.staged
  have hfinished := finishBatch_eq_ok accepted.finished
  have hinitial : store.batchBaseline.initial = store.resources := h.initialGraph_eq
  have hkeep {id : String} {kind : ResourceKind} (hid : store.identities[id]? = some kind) :
      (store.identities.insertRows evaluation.allocations)[id]? = some kind := by
    rw [hfinished.allocations]
    exact (allocated_identities hstaged).mpr (Or.inl hid)
  refine ⟨?_, ?_, fun row hrow ↦ hkeep (h.versions row hrow), ?_, fun locator target htarget ↦
    hkeep (h.alias_target locator target htarget)⟩
  · rw [batchWritten, ← hinitial]
    exact persistedRows_linked hbase hstaged hfinished.rows
  · intro id final hfinal
    have hspec := persistedRows_publishes hbase hstaged hfinished.rows id
    rw [hinitial] at hspec
    change (persistedRows store.resources evaluation.rows)[id]? = some final at hfinal
    change (store.identities.insertRows evaluation.allocations)[id]? = _
    rw [hfinal] at hspec
    split at hspec
    · cases hspec
    next staged hlive =>
    obtain ⟨found, hfound, hpublishes⟩ := hspec
    obtain rfl := Option.some.inj hfound
    rw [hpublishes.kind_eq]
    by_cases htouched : id ∈ graph.touched
    · obtain ⟨kind, hkind⟩ := Table.mem_iff_exists.mp htouched
      rw [hstaged.kind_live id kind staged hkind hlive]
      obtain hmem | hseen := hstaged.origin id htouched
      · obtain ⟨before, hbefore⟩ := Table.mem_iff_exists.mp hmem
        rw [← hstaged.kind_initial id kind before hkind hbefore]
        rw [hinitial] at hbefore
        exact hkeep (h.kinds id before hbefore)
      · obtain ⟨entry, hentry, rfl⟩ := List.mem_map.mp (seen_iff.mp hseen)
        have hentryKind := (hstaged.allocated entry hentry).2.2.2.2
        rw [hkind] at hentryKind
        rw [hfinished.allocations]
        refine (allocated_identities hstaged).mpr (Or.inr ?_)
        rw [Option.some.inj hentryKind]
        exact hentry
    · rw [hstaged.untouched id htouched, hinitial] at hlive
      exact hkeep (h.kinds id staged hlive)
  · intro locator hlocator hidentity
    obtain ⟨kind, hkind⟩ := Table.mem_iff_exists.mp hidentity
    change (store.identities.insertRows evaluation.allocations)[locator]? = some kind at hkind
    rw [hfinished.allocations] at hkind
    obtain hold | hallocated := (allocated_identities hstaged).mp hkind
    · exact h.alias_apart locator hlocator (Table.mem_of_lookup hold)
    · exact Store.isAliasLocator_eq_false.mp (hstaged.allocated _ hallocated).2.1 hlocator

end Batches

section Runs

theorem GraphInvariant.step (h : GraphInvariant config store) (hstep : Step config store result) :
    GraphInvariant config result := by
  cases hstep with
  | same => exact h
  | paged principal source subject selection clock result page rows read =>
    obtain ⟨window, hread⟩ := eventPage_eq_ok read
    obtain ⟨cursors, draws, rfl⟩ := hread.only_cursors
    exact h.congr rfl rfl rfl rfl
  | decided principal key captured context middle outcome fresh captures guards effect capacity =>
    exact (h.effect effect).congr rfl rfl rfl rfl
  | refusedBatch => exact h.congr rfl rfl rfl rfl
  | acceptedBatch principal input clock graph evaluation facts mode version fresh accepted
      capacity => exact (h.acceptedBatch accepted).congr rfl rfl rfl rfl

variable {owner : Owner}

theorem graphInvariant_of_reachable (h : owner.Reachable config) :
    GraphInvariant config owner.store :=
  h.invariant graphInvariant_empty fun _ _ ↦ GraphInvariant.step

/-- Every identity row of the first store is a row of the second. -/
def IdentitiesKept (store result : Store) : Prop :=
  ∀ (id : String) (kind : ResourceKind),
    store.identities[id]? = some kind → result.identities[id]? = some kind

theorem Effect.identitiesKept {context : RequestContext}
    (heffect : Effect config context store result outcome) : IdentitiesKept store result := by
  cases heffect with
  | created state time draws operation_eq drawn canonical type_reference unreserved not_alias
      endpoints admitted =>
    intro id kind hid
    change (store.identities.insert state.resource.id state.kind)[id]? = some kind
    rw [Table.lookup_insert_of_ne, hid]
    rintro rfl
    exact (admitted.created rfl).1 (Table.mem_of_lookup hid)
  | _ => exact fun _ _ hid ↦ hid

theorem Step.identitiesKept (h : GraphInvariant config store) (hstep : Step config store result) :
    IdentitiesKept store result := by
  cases hstep with
  | same => exact fun _ _ hid ↦ hid
  | paged principal source subject selection clock result page rows read =>
    obtain ⟨window, hread⟩ := eventPage_eq_ok read
    obtain ⟨cursors, draws, rfl⟩ := hread.only_cursors
    exact fun _ _ hid ↦ hid
  | decided principal key captured context middle outcome fresh captures guards effect capacity =>
    exact effect.identitiesKept
  | refusedBatch => exact fun _ _ hid ↦ hid
  | acceptedBatch principal input clock graph evaluation facts mode version fresh accepted
      capacity =>
    intro id kind hid
    have hstaged := staged_of_stageMembers h.baseline_sound accepted.staged
    change (store.identities.insertRows evaluation.allocations)[id]? = some kind
    rw [(finishBatch_eq_ok accepted.finished).allocations]
    exact (allocated_identities hstaged).mpr (Or.inl hid)

theorem Owner.Run.identitiesKept {later : Owner} (h : owner.Reachable config)
    (run : Owner.Run config owner later) : IdentitiesKept owner.store later.store := by
  suffices GraphInvariant config later.store ∧ IdentitiesKept owner.store later.store from this.2
  refine run.invariant (P := fun store ↦ GraphInvariant config store ∧
    IdentitiesKept owner.store store) ⟨graphInvariant_of_reachable h, fun _ _ hid ↦ hid⟩ ?_
  rintro store result ⟨hinvariant, hkept⟩ hstep
  exact ⟨hinvariant.step hstep,
    fun id kind hid ↦ hstep.identitiesKept hinvariant id kind (hkept id kind hid)⟩

/-- The graph of a reachable store: every live Link is attached to live Beads of the Scope, live
resources belong to identities that keep their kind, and aliases stay apart and name Beads. -/
theorem reachable_graph {owner : Owner} (h : owner.Reachable config) :
    (∀ (id : String) (link : RetainedLink), owner.store.resources[id]? = some (.link link) →
      (∃ reference ∈ [link.source, link.target],
        isLocal config.navigation.scope (referenceUri reference) = true) ∧
      ∀ reference ∈ [link.source, link.target],
        isLocal config.navigation.scope (referenceUri reference) = true →
          ∃ bead, owner.store.resources[referenceUri reference]? = some (.bead bead)) ∧
    (∀ (id : String) (state : ResourceState), owner.store.resources[id]? = some state →
      owner.store.identities[id]? = some state.kind) ∧
    (∀ later, Owner.Run config owner later → ∀ (id : String) (kind : ResourceKind),
      owner.store.identities[id]? = some kind → later.store.identities[id]? = some kind) ∧
    (∀ locator ∈ owner.store.aliases, locator ∉ owner.store.identities) ∧
    ∀ locator target : String, owner.store.aliases[locator]? = some target →
      owner.store.identities[target]? = some .bead ∧ target ∉ owner.store.aliases := by
  have hinvariant := graphInvariant_of_reachable h
  refine ⟨fun id link hlink ↦ ⟨?_, fun reference hreference hlocal ↦ ?_⟩, hinvariant.kinds,
    fun later run ↦ run.identitiesKept h, hinvariant.alias_apart, fun locator target htarget ↦ ?_⟩
  · obtain ⟨uri, huri⟩ := List.exists_mem_of_ne_nil _ (hinvariant.linked.attached id _ hlink rfl)
    obtain ⟨⟨reference, hreference, rfl⟩, hlocal⟩ := mem_localEndpoints.mp huri
    exact ⟨reference, hreference, hlocal⟩
  · obtain ⟨found, hfound, hkind⟩ := hinvariant.linked.closed id _ hlink _
      (mem_localEndpoints.mpr ⟨⟨reference, hreference, rfl⟩, hlocal⟩)
    cases found with
    | bead bead => exact ⟨bead, hfound⟩
    | link other => cases hkind
  · have hidentity := hinvariant.alias_target locator target htarget
    exact ⟨hidentity, fun halias ↦
      hinvariant.alias_apart target halias (Table.mem_of_lookup hidentity)⟩

/-- A store with one Bead and one Link from it to a foreign URI. -/
def linkedOwner : Owner :=
  (Owner.provisioned (countedConfiguration .historical)).serveAll
    [(.create "p" (countedCreate .historical "k1" "x" [] rfl), fun _ ↦ 0),
      (.link "p" (countedLink .historical "k2" "l" "x"), fun _ ↦ 1)]

theorem linkedOwner_reachable : linkedOwner.Reachable (countedConfiguration .historical) := by
  unfold linkedOwner
  exact Owner.run_serveAll _ _ _

theorem link_of_endpoints {found : Option ResourceState} {source target : EndpointReference}
    (h : found.map ResourceState.endpoints = some [source, target]) :
    ∃ link, found = some (.link link) ∧ link.source = source := by
  obtain ⟨state, rfl, hstate⟩ := Option.map_eq_some_iff.mp h
  cases state with
  | bead bead => simp [ResourceState.endpoints] at hstate
  | link link => exact ⟨link, rfl, (List.cons.inj hstate).1⟩

theorem linkedOwner_endpoints :
    (linkedOwner.store.resources[inScope "l"]?).map ResourceState.endpoints =
      some [.floating (inScope "x"), .floating "https://f/"] := by decide +kernel

theorem reachable_graph_linked :
    ∃ bead, linkedOwner.store.resources[inScope "x"]? = some (.bead bead) := by
  obtain ⟨link, hlookup, hsource⟩ := link_of_endpoints linkedOwner_endpoints
  have hbead := ((reachable_graph linkedOwner_reachable).1 (inScope "l") link hlookup).2
    link.source List.mem_cons_self
  rw [hsource, referenceUri] at hbead
  exact hbead (inScope_startsWith "x")

end Runs

end Bdp.Retained
