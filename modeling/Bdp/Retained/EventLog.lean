import Bdp.Retained.Steps

/-!
# The event log

Every step appends a list of facts to the log and leaves everything below it as it was. In every
reachable store the events are numbered from one without a gap in the order of their rows, each
position has its own boundary, and incidence names positions of the log only.
-/

namespace Bdp.Retained

variable {config : StoreConfiguration} {store result : Store}
variable {outcome : Outcome}
variable (transition : Transition)

section Draws

variable {input : PreparedBatch config} {graph : WorkingGraph}

theorem identityDraws_le_of_stageMembers {baseline : BatchBaseline}
    {comparison : BatchComparison} {draws : ℕ}
    (h : stageMembers input comparison baseline draws = .ok graph) :
    draws ≤ graph.identityDraws := by
  refine replay_induction (fun _ graph ↦ draws ≤ graph.identityDraws) h le_rfl ?_
  intro before entry middle next hle hstep
  obtain ⟨-, id, staged, hstage, rfl⟩ := evaluateMember_eq_ok.mp hstep
  cases hstage with
  | created state identityDraws creates identity created endpoints =>
    exact hle.trans (createdIdentity_eq_ok identity).2.1
  | deleted => exact hle
  | updated => exact hle

theorem Transition.commit_draws_le (store : Store) :
    store.draws.Le (transition.commit config store).draws := by
  have hle := drawFact_le store (transition.fact config store)
  exact ⟨hle.identity, hle.revision, hle.event, hle.transaction, Nat.le_succ _, hle.cursor⟩

theorem Effect.draws_le {context : RequestContext}
    (h : Effect config context store result outcome) : store.draws.Le result.draws := by
  cases h with
  | refused problem draws retainable le => exact le
  | putAlias => exact .refl _
  | deleteAlias => exact .refl _
  | created state time draws operation_eq drawn => 
    exact drawn.le.trans (Transition.commit_draws_le _ { store with draws })
  | unchanged => exact .refl _
  | updated kind id edits baseline source candidate state time draws operation_eq from_eq guard_eq
      update type_reference changes state_eq drawn admitted =>
    exact drawn.le.trans (Transition.commit_draws_le _ { store with draws })
  | deleted => exact Transition.commit_draws_le _ _

theorem AcceptedBatch.draws_le {clock : ℕ → ℕ} {evaluation : BatchEvaluation}
    {facts : List (BatchEffect × LifecycleFact)}
    (accepted : AcceptedBatch config store input clock graph evaluation facts) :
    store.draws.Le (batchWritten config store evaluation facts).draws := by
  have hfinished := finishBatch_eq_ok accepted.finished
  have hidentity := identityDraws_le_of_stageMembers accepted.staged
  have hrevision := hfinished.rows.first_le
  rw [batchWritten, hfinished.draws]
  refine ⟨hidentity, hrevision, Nat.le_add_right _ _, ?_, Nat.le_add_right _ _, le_rfl⟩
  dsimp only
  split
  · exact Nat.le_succ _
  · exact le_rfl

theorem Step.draws_le (h : Step config store result) : store.draws.Le result.draws := by
  cases h with
  | same => exact .refl _
  | paged principal source subject selection clock result page rows read =>
    obtain ⟨window, hread⟩ := eventPage_eq_ok read
    rw [hread.result_eq, Store.withPageCursors]
    split
    · exact ⟨le_rfl, le_rfl, le_rfl, le_rfl, le_rfl, by simp [Store.withCursor, add_assoc]⟩
    · exact ⟨le_rfl, le_rfl, le_rfl, le_rfl, le_rfl, Nat.le_succ _⟩
  | decided principal key captured context middle outcome fresh captures guards effect capacity =>
    exact effect.draws_le
  | refusedBatch => exact .refl _
  | acceptedBatch principal input clock graph evaluation facts mode version fresh accepted
      capacity => exact accepted.draws_le

end Draws

section Publication

theorem Transition.commit_published (store : Store) (draws : Draws)
    (hdraws : store.draws.Le draws) :
    Published config store (transition.commit config { store with draws })
      [(transition.fact config { store with draws }, transition.beads config)] := by
  refine ⟨rfl, ?_, draws.boundary, hdraws.boundary, le_rfl, rfl⟩
  rw [publishedIncidence, publishedIncidence, List.append_nil]
  rfl

theorem Effect.published {context : RequestContext}
    (h : Effect config context store result outcome) : ∃ facts, Published config store result facts := by
  cases h with
  | refused problem draws retainable le => exact ⟨[], .refl rfl rfl rfl le.boundary⟩
  | putAlias => exact ⟨[], .refl rfl rfl rfl le_rfl⟩
  | deleteAlias => exact ⟨[], .refl rfl rfl rfl le_rfl⟩
  | created state time draws operation_eq drawn =>
    exact ⟨_, Transition.commit_published _ store draws drawn.le⟩
  | unchanged => exact ⟨[], .refl rfl rfl rfl le_rfl⟩
  | updated kind id edits baseline source candidate state time draws operation_eq from_eq guard_eq
      update type_reference changes state_eq drawn admitted =>
    exact ⟨_, Transition.commit_published _ store draws drawn.le⟩
  | deleted => exact ⟨_, Transition.commit_published _ store store.draws (.refl _)⟩

theorem Step.published (h : Step config store result) :
    ∃ facts, Published config store result facts := by
  cases h with
  | same => exact ⟨[], .refl rfl rfl rfl le_rfl⟩
  | paged principal source subject selection clock result page rows read =>
    have hle := (Step.paged principal source subject selection clock result page rows read).draws_le
    obtain ⟨window, hread⟩ := eventPage_eq_ok read
    obtain ⟨cursors, draws, rfl⟩ := hread.only_cursors
    exact ⟨[], .refl rfl rfl rfl hle.boundary⟩
  | decided principal key captured context middle outcome fresh captures guards effect capacity =>
    obtain ⟨facts, hpublished⟩ := effect.published
    exact ⟨facts, hpublished.events, hpublished.incidence, hpublished.boundaries⟩
  | refusedBatch => exact ⟨[], .refl rfl rfl rfl le_rfl⟩
  | acceptedBatch principal input clock graph evaluation facts mode version fresh accepted
      capacity =>
    refine ⟨facts.map (publishedFact config), rfl, rfl, evaluation.draws.boundary, ?_, ?_, ?_⟩
    · rw [(finishBatch_eq_ok accepted.finished).draws]
    · simp [batchWritten, Store.recorded]
    · simp [batchWritten, Store.recorded]

end Publication

section Invariant

/-- The log of a reachable store. -/
structure LogInvariant (config : StoreConfiguration) (store : Store) : Prop where
  positions : store.events.map EventRow.position = List.range' 1 store.events.length
  subjects : ∀ row ∈ store.events, row.subject = row.fact.state.resource.id
  boundaries : store.boundaries.map Prod.fst = List.range' 0 (store.events.length + 1)
  tokens : ∃ indices : List ℕ, indices.Pairwise (· < ·) ∧
    (∀ index ∈ indices, index < store.draws.boundary) ∧
    store.boundaries.map Prod.snd = indices.map (config.uuids.uuid .boundary)
  incidence : ∀ entry ∈ store.incidence, 1 ≤ entry.1 ∧ entry.1 ≤ store.events.length

theorem logInvariant_empty : LogInvariant config (Store.empty config) where
  positions := rfl
  subjects _ h := nomatch h
  boundaries := rfl
  tokens := ⟨[0], by simp, by simp [Store.empty], rfl⟩
  incidence _ h := nomatch h

theorem foldr_max_range' (start count : ℕ) :
    (List.range' start count).foldr max 0 = if count = 0 then 0 else start + count - 1 := by
  induction count generalizing start with
  | zero => rfl
  | succ count ih =>
    rw [List.range'_succ, List.foldr_cons, ih]
    split
    · next h => simp [h]
    · rw [if_neg (Nat.succ_ne_zero count)]
      omega

theorem range'_append_of_eq {start first second next : ℕ} (h : next = start + first) :
    List.range' start first ++ List.range' next second = List.range' start (first + second) := by
  rw [h, List.range'_append_1]

variable {facts : List PublishedFact}
variable {position : ℕ}

theorem mem_publishedIncidence {entry : ℕ × String}
    (h : entry ∈ publishedIncidence position facts) :
    position ≤ entry.1 ∧ entry.1 < position + facts.length := by
  induction facts generalizing position with
  | nil => cases h
  | cons fact facts ih =>
    rw [List.length_cons]
    rcases List.mem_append.mp h with h | h
    · obtain ⟨bead, -, rfl⟩ := List.mem_map.mp h
      dsimp only
      omega
    · have hbounds := ih h
      omega

variable {row : EventRow}

theorem publishedEvents_subjects (h : row ∈ publishedEvents position facts) :
    row.subject = row.fact.state.resource.id := by
  induction facts generalizing position with
  | nil => cases h
  | cons fact facts ih =>
    rcases List.mem_cons.mp h with rfl | h
    · rfl
    · exact ih h

namespace LogInvariant

section

variable (h : LogInvariant config store)
include h

theorem head_eq : store.head = store.events.length := by
  rw [Store.head, h.positions, foldr_max_range']
  split
  · next hzero => exact hzero.symm
  · omega

theorem mem_position (hrow : row ∈ store.events) :
    1 ≤ row.position ∧ row.position ≤ store.events.length := by
  have hmem : row.position ∈ store.events.map EventRow.position := List.mem_map_of_mem hrow
  rw [h.positions, List.mem_range'_1] at hmem
  omega

theorem ascending : store.events.Pairwise fun left right ↦ left.position < right.position := by
  have hpositions : (store.events.map EventRow.position).Pairwise (· < ·) := by
    rw [h.positions]
    exact List.pairwise_lt_range' 
  exact List.pairwise_map.mp hpositions

theorem eventsInOrder_eq : store.eventsInOrder = store.events := by
  refine List.Pairwise.insertionSort_eq ?_
  exact h.ascending.imp fun hlt ↦ le_of_lt hlt

theorem published
    (hpublished : Published config store result facts) : LogInvariant config result := by
  have hlength : result.events.length = store.events.length + facts.length := by
    rw [hpublished.events, List.length_append, publishedEvents_length]
  obtain ⟨draw, hdraw, hdrawn, hboundaries⟩ := hpublished.boundaries
  refine ⟨?_, ?_, ?_, ?_, ?_⟩
  · rw [hlength, hpublished.events, List.map_append, h.positions, publishedEvents_positions,
      h.head_eq, range'_append_of_eq (Nat.add_comm _ _)]
  · intro row hrow
    rw [hpublished.events] at hrow
    rcases List.mem_append.mp hrow with hrow | hrow
    · exact h.subjects row hrow
    · exact publishedEvents_subjects hrow
  · rw [hlength, hboundaries, List.map_append, h.boundaries, publishedBoundaries_positions,
      h.head_eq, range'_append_of_eq (Nat.zero_add _).symm, Nat.add_right_comm]
  · obtain ⟨indices, hsorted, hbound, htokens⟩ := h.tokens
    refine ⟨indices ++ List.range' draw facts.length, ?_, ?_, ?_⟩
    · refine List.pairwise_append.mpr ⟨hsorted, List.pairwise_lt_range', ?_⟩
      intro index hindex other hother
      have hlt := hbound index hindex
      rw [List.mem_range'_1] at hother
      omega
    · intro index hindex
      rcases List.mem_append.mp hindex with hindex | hindex
      · have hlt := hbound index hindex
        omega
      · rw [List.mem_range'_1] at hindex
        omega
    · rw [hboundaries, List.map_append, htokens, publishedBoundaries_tokens, List.map_append]
  · intro entry hentry
    rw [hpublished.incidence] at hentry
    rcases List.mem_append.mp hentry with hentry | hentry
    · have hbounds := h.incidence entry hentry
      omega
    · have hbounds := mem_publishedIncidence hentry
      rw [h.head_eq] at hbounds
      omega

end

end LogInvariant

theorem logInvariant_of_reachable {owner : Owner} (h : owner.Reachable config) :
    LogInvariant config owner.store := by
  refine h.invariant logInvariant_empty fun store result hinvariant hstep ↦ ?_
  obtain ⟨facts, hpublished⟩ := hstep.published
  exact hinvariant.published hpublished

end Invariant

end Bdp.Retained
