import Bdp.Retained.Batch
import Bdp.Retained.BatchStaging

/-!
# Committing a batch

The final rows of a staged graph and what their persistence writes. The resource table after an
accepted batch holds, for every identity, the record that the working graph staged for it, up to
the revision and provenance that publication adds.
-/

namespace Bdp.Retained

open Bdp.Except (bind_eq_ok)

variable {config : StoreConfiguration} {baseline : BatchBaseline} {graph : WorkingGraph}
variable {id : String}
variable {evaluation : BatchEvaluation} {draws : Draws}

section Rows

/-- The final row of an identity, and how many revisions have been drawn after it. -/
inductive RowSpec (config : StoreConfiguration) (baseline : BatchBaseline) (graph : WorkingGraph)
    (time id : String) (revisions : ℕ) : BatchFinalRow → ℕ → Prop where
  | allocated (initial : baseline.initial[id]? = none) (live : graph.live[id]? = none) :
      RowSpec config baseline graph time id revisions .allocated revisions
  | deleted (before : ResourceState) (initial : baseline.initial[id]? = some before)
      (live : graph.live[id]? = none) :
      RowSpec config baseline graph time id revisions (.deleted before) revisions
  | unchanged (before staged : ResourceState) (initial : baseline.initial[id]? = some before)
      (live : graph.live[id]? = some staged)
      (same : jsonValueEqual (covered before) (covered staged) = true) :
      RowSpec config baseline graph time id revisions (.unchanged before) revisions
  | updated (before staged : ResourceState) (provenance : Option RevisionProvenanceInput)
      (initial : baseline.initial[id]? = some before) (live : graph.live[id]? = some staged)
      (changes : jsonValueEqual (covered before) (covered staged) = false) :
      RowSpec config baseline graph time id revisions (.updated before (rematerialized staged
        provenance id (config.uuids.uuid .revision revisions) time)) (revisions + 1)
  | created (staged : ResourceState) (provenance : Option RevisionProvenanceInput)
      (initial : baseline.initial[id]? = none) (live : graph.live[id]? = some staged) :
      RowSpec config baseline graph time id revisions (.created (rematerialized staged
        provenance id (config.uuids.uuid .revision revisions) time)) (revisions + 1)

theorem finalRow_eq_ok {time : String} {revisions next : ℕ} {row : BatchFinalRow}
    (h : finalRow config baseline graph time id revisions = .ok (row, next)) :
    RowSpec config baseline graph time id revisions row next := by
  unfold finalRow at h
  cases hinitial : baseline.initial[id]? with
  | none =>
    cases hlive : graph.live[id]? with
    | none =>
      simp only [hinitial, hlive] at h
      obtain ⟨rfl, rfl⟩ := Prod.mk.inj (Except.ok.inj h)
      exact .allocated hinitial hlive
    | some staged =>
      simp only [hinitial, hlive, Option.filter_none] at h
      rw [check_bind_eq_ok] at h
      obtain ⟨rfl, rfl⟩ := Prod.mk.inj (Except.ok.inj h.2)
      exact .created staged _ hinitial hlive
  | some before =>
    cases hlive : graph.live[id]? with
    | none =>
      simp only [hinitial, hlive] at h
      obtain ⟨rfl, rfl⟩ := Prod.mk.inj (Except.ok.inj h)
      exact .deleted before hinitial hlive
    | some staged =>
      simp only [hinitial, hlive] at h
      cases hsame : jsonValueEqual (covered before) (covered staged) with
      | true =>
        simp only [Option.filter_some, hsame, if_true] at h
        obtain ⟨rfl, rfl⟩ := Prod.mk.inj (Except.ok.inj h)
        exact .unchanged before staged hinitial hlive hsame
      | false =>
        simp only [Option.filter_some, hsame, Bool.false_eq_true, if_false] at h
        rw [check_bind_eq_ok] at h
        obtain ⟨rfl, rfl⟩ := Prod.mk.inj (Except.ok.inj h.2)
        exact .updated before staged _ hinitial hlive hsame

/-- The rows of a list of touched identities, drawing revisions from first to last. -/
inductive RowsSpec (config : StoreConfiguration) (baseline : BatchBaseline) (graph : WorkingGraph)
    (time : String) : List (String × ResourceKind) → ℕ → List BatchRow → ℕ → Prop where
  | nil (revisions : ℕ) : RowsSpec config baseline graph time [] revisions [] revisions
  | cons {entries : List (String × ResourceKind)} {id : String} {kind : ResourceKind}
      {row : BatchFinalRow} {rows : List BatchRow} {first next last : ℕ}
      (head : RowSpec config baseline graph time id first row next)
      (tail : RowsSpec config baseline graph time entries next rows last) :
      RowsSpec config baseline graph time ((id, kind) :: entries) first
        ({ id, kind, row } :: rows) last

theorem foldlM_appendRow_eq_ok {time : String} {entries : List (String × ResourceKind)}
    {before after : List BatchRow} {first last : ℕ}
    (h : entries.foldlM (appendRow config baseline graph time) (before, first) =
      .ok (after, last)) :
    ∃ rows, after = before ++ rows ∧
      RowsSpec config baseline graph time entries first rows last := by
  induction entries generalizing before first with
  | nil =>
    obtain ⟨rfl, rfl⟩ := Prod.mk.inj (Except.ok.inj h)
    exact ⟨[], by simp, .nil _⟩
  | cons entry entries ih =>
    rw [List.foldlM_cons, bind_eq_ok] at h
    obtain ⟨⟨middle, next⟩, hentry, h⟩ := h
    unfold appendRow at hentry
    rw [bind_eq_ok] at hentry
    obtain ⟨⟨row, drawn⟩, hrow, hentry⟩ := hentry
    obtain ⟨rfl, rfl⟩ := Prod.mk.inj (Except.ok.inj hentry)
    obtain ⟨rows, rfl, hrows⟩ := ih h
    exact ⟨_, by simp, .cons (finalRow_eq_ok hrow) hrows⟩

theorem finalRows_eq_ok {time : String} {first last : ℕ} {rows : List BatchRow}
    (h : finalRows config baseline graph time first = .ok (rows, last)) :
    RowsSpec config baseline graph time graph.touched.toList first rows last := by
  obtain ⟨found, rfl, hrows⟩ := foldlM_appendRow_eq_ok h
  simpa using hrows

namespace RowsSpec

variable {time : String} {entries : List (String × ResourceKind)} {first last : ℕ}
  {rows : List BatchRow}

section

variable (h : RowsSpec config baseline graph time entries first rows last)
include h

theorem map_entry : rows.map (fun row ↦ (row.id, row.kind)) = entries := by
  induction h with
  | nil => rfl
  | cons head tail ih => simp [ih]

theorem first_le : first ≤ last := by
  induction h with
  | nil => exact le_rfl
  | cons head tail ih => cases head <;> omega

theorem spec {row : BatchRow} (hrow : row ∈ rows) : ∃ start next, first ≤ start ∧ next ≤ last ∧
      RowSpec config baseline graph time row.id start row.row next := by
  induction h with
  | nil => cases hrow
  | cons head tail ih =>
    have hle := tail.first_le
    obtain rfl | hrow := List.mem_cons.mp hrow
    · exact ⟨_, _, le_rfl, hle, head⟩
    · obtain ⟨start, next, hstart, hnext, hspec⟩ := ih hrow
      refine ⟨start, next, ?_, hnext, hspec⟩
      cases head <;> omega

end

end RowsSpec

/-- Whether a batch publishes anything at all. -/
def batchChanged (rows : List BatchRow) : Bool := rows.any fun row ↦ row.row.changed

/-- The transaction of a batch that changes something. -/
def batchTransaction (config : StoreConfiguration) (rows : List BatchRow) (draws : Draws) :
    Option String :=
  if batchChanged rows then some (config.uuids.uuid .transaction draws.transaction) else none

/-- An accepted evaluation reports the rows and mappings of its graph. -/
structure FinishedBatch (config : StoreConfiguration) (baseline : BatchBaseline)
    (graph : WorkingGraph) (time : String) (draws : Draws) (evaluation : BatchEvaluation) :
    Prop where
  rows : RowsSpec config baseline graph time graph.touched.toList draws.revision evaluation.rows
    evaluation.draws.revision
  status : evaluation.status = 200
  transaction : evaluation.transaction = batchTransaction config evaluation.rows draws
  text : evaluation.text = config.serialized
    (batchResult evaluation.transaction graph.mappings evaluation.rows)
  size : evaluation.text.utf8ByteSize ≤ BATCH_LIMITS.maximumResultBytes
  allocations : evaluation.allocations = graph.allocated
  draws : evaluation.draws = { draws with
    identity := graph.identityDraws
    revision := evaluation.draws.revision
    transaction := if batchChanged evaluation.rows then draws.transaction + 1
      else draws.transaction }

theorem finishBatch_eq_ok {time : String}
    (h : finishBatch config baseline graph time draws = .ok evaluation) :
    FinishedBatch config baseline graph time draws evaluation := by
  unfold finishBatch at h
  rw [bind_eq_ok] at h
  obtain ⟨⟨rows, revisions⟩, hrows, h⟩ := h
  rw [check_bind_eq_ok] at h
  obtain ⟨hsize, h⟩ := h
  obtain rfl := Except.ok.inj h
  exact ⟨finalRows_eq_ok hrows, rfl, rfl, rfl, hsize, rfl, rfl⟩

end Rows

variable {result store : Store}

section Persistence

/-- The resource table after a row is persisted. -/
def persistedRow (table : Table ResourceState) (row : BatchRow) : Table ResourceState :=
  match row.row with
  | .unchanged _ => table
  | .updated _ after => table.insert row.id after
  | .created after => table.insert row.id after
  | .deleted _ => table.erase row.id
  | .allocated => table.erase row.id

/-- The resource table after all rows are persisted. -/
def persistedRows (table : Table ResourceState) (rows : List BatchRow) : Table ResourceState :=
  rows.foldl persistedRow table

variable {row : BatchRow}

theorem persistRow_eq_ok (h : store.persistRow row = .ok result) :
    result = { store with resources := persistedRow store.resources row } := by
  obtain ⟨id, kind, row⟩ := row
  cases row with
  | allocated => exact (Except.ok.inj h).symm
  | deleted before => exact (Except.ok.inj h).symm
  | unchanged before => exact (Except.ok.inj h).symm
  | updated before after => exact (Store.putResource_eq_ok.mp h).2
  | created after => exact (Store.putResource_eq_ok.mp h).2

variable {rows : List BatchRow}

theorem persistRows_eq_ok (h : rows.foldlM Store.persistRow store = .ok result) :
    result = { store with resources := persistedRows store.resources rows } := by
  induction rows generalizing store with
  | nil => exact (Except.ok.inj h).symm
  | cons row rows ih =>
    rw [List.foldlM_cons, bind_eq_ok] at h
    obtain ⟨middle, hrow, h⟩ := h
    obtain rfl := persistRow_eq_ok hrow
    exact ih h

variable {table : Table ResourceState}

theorem persistedRow_of_ne (h : row.id ≠ id) : (persistedRow table row)[id]? = table[id]? := by
  unfold persistedRow
  split <;> simp [Table.lookup_insert, Table.lookup_erase, h]

theorem persistedRow_congr {table' : Table ResourceState} (h : table[row.id]? = table'[row.id]?) :
    (persistedRow table row)[row.id]? = (persistedRow table' row)[row.id]? := by
  unfold persistedRow
  cases row.row <;> simp [h]

theorem persistedRows_of_not_mem
    (h : id ∉ rows.map BatchRow.id) : (persistedRows table rows)[id]? = table[id]? := by
  induction rows generalizing table with
  | nil => rfl
  | cons row rows ih =>
    simp only [List.map_cons, List.mem_cons, not_or] at h
    change (persistedRows (persistedRow table row) rows)[id]? = _
    rw [ih h.2, persistedRow_of_ne (Ne.symm h.1)]

theorem persistedRows_of_mem (hnodup : (rows.map BatchRow.id).Nodup) (hrow : row ∈ rows) :
    (persistedRows table rows)[row.id]? = (persistedRow table row)[row.id]? := by
  induction rows generalizing table with
  | nil => cases hrow
  | cons first rows ih =>
    simp only [List.map_cons, List.nodup_cons] at hnodup
    change (persistedRows (persistedRow table first) rows)[row.id]? = _
    obtain rfl | hrow := List.mem_cons.mp hrow
    · exact persistedRows_of_not_mem hnodup.1
    · have hne : first.id ≠ row.id := fun heq ↦
        hnodup.1 (heq ▸ List.mem_map_of_mem hrow)
      rw [ih hnodup.2 hrow]
      exact persistedRow_congr (persistedRow_of_ne hne)

theorem insertIdentities_eq_ok {allocations : List (String × ResourceKind)}
    (h : allocations.foldlM (fun store entry ↦ Store.insertIdentity store entry.1 entry.2) store =
      .ok result) :
    result = { store with identities := store.identities.insertRows allocations } := by
  induction allocations generalizing store with
  | nil => exact (Except.ok.inj h).symm
  | cons entry allocations ih =>
    rw [List.foldlM_cons, bind_eq_ok] at h
    obtain ⟨middle, hentry, h⟩ := h
    obtain ⟨-, rfl⟩ := Store.insertIdentity_eq_ok.mp hentry
    exact ih h

end Persistence

section Publication

theorem reference_eq_of_jsonValueEqual {left right : EndpointReference}
    (h : jsonValueEqual left.toJson right.toJson = true) : left = right := by
  cases left <;> cases right <;>
    simp_all [EndpointReference.toJson, jsonValueEqual, membersEqual, List.lookup]

theorem endpoints_eq_of_covered {left right : ResourceState} (hkind : left.kind = right.kind)
    (h : jsonValueEqual (covered left) (covered right) = true) :
    left.endpoints = right.endpoints := by
  cases left with
  | bead left =>
    cases right with
    | bead right => rfl
    | link right => cases hkind
  | link left =>
    cases right with
    | bead right => cases hkind
    | link right =>
      simp only [covered, jsonValueEqual, membersEqual, List.cons_append, List.nil_append,
        List.lookup, Bool.and_eq_true] at h
      obtain ⟨-, -, -, -, hsource, htarget, -⟩ := h
      simp only [ResourceState.endpoints, reference_eq_of_jsonValueEqual hsource,
        reference_eq_of_jsonValueEqual htarget]

/-- What a published record keeps of the record that was staged for it. -/
structure Publishes (staged final : ResourceState) : Prop where
  id_eq : final.resource.id = staged.resource.id
  kind_eq : final.kind = staged.kind
  endpoints_eq : final.endpoints = staged.endpoints

variable {time : String} {first last : ℕ} {rows : List BatchRow}

section

variable (hrows : RowsSpec config baseline graph time graph.touched.toList first rows last)
include hrows

theorem rows_nodup : (rows.map BatchRow.id).Nodup := by
  have hmap : rows.map BatchRow.id = graph.touched.toList.map Prod.fst := by
    rw [← hrows.map_entry, List.map_map]
    rfl
  rw [hmap]
  exact Table.toList_keys_nodup _

theorem mem_rows_of_touched {kind : ResourceKind} (h : graph.touched[id]? = some kind) :
    ∃ row ∈ rows, row.id = id ∧ row.kind = kind := by
  have hmem := Table.mem_toList.mpr h
  rw [← hrows.map_entry] at hmem
  obtain ⟨row, hrow, heq⟩ := List.mem_map.mp hmem
  obtain ⟨rfl, rfl⟩ := Prod.mk.inj heq
  exact ⟨row, hrow, rfl, rfl⟩

theorem touched_of_mem_rows
    {row : BatchRow} (h : row ∈ rows) : graph.touched[row.id]? = some row.kind := by
  rw [← Table.mem_toList, ← hrows.map_entry]
  exact List.mem_map.mpr ⟨row, h, rfl⟩

end

theorem persistedRows_publishes (hbase : baseline.Sound config)
    (hstaged : Staged config baseline graph)
    (hrows : RowsSpec config baseline graph time graph.touched.toList first rows last)
    (id : String) :
    match graph.live[id]? with
    | none => (persistedRows baseline.initial rows)[id]? = none
    | some staged => ∃ final, (persistedRows baseline.initial rows)[id]? = some final ∧
        Publishes staged final := by
  by_cases htouched : id ∈ graph.touched
  · obtain ⟨kind, hkind⟩ := Table.mem_iff_exists.mp htouched
    obtain ⟨row, hrow, rfl, rfl⟩ := mem_rows_of_touched hrows hkind
    rw [persistedRows_of_mem (rows_nodup hrows) hrow]
    obtain ⟨start, next, -, -, hspec⟩ := hrows.spec hrow
    obtain ⟨id, kind, row⟩ := row
    dsimp only at hspec hkind ⊢
    unfold persistedRow
    cases hspec with
    | allocated hinitial hlive => simp [hlive]
    | deleted before hinitial hlive => simp [hlive]
    | unchanged before staged hinitial hlive hsame =>
      have hstagedKind := hstaged.kind_live id kind staged hkind hlive
      have hbeforeKind := hstaged.kind_initial id kind before hkind hinitial
      rw [hlive]
      refine ⟨before, hinitial, ?_, by rw [hbeforeKind, hstagedKind],
        endpoints_eq_of_covered (by rw [hbeforeKind, hstagedKind]) hsame⟩
      rw [hstaged.linked.id_eq id staged hlive]
      exact hbase.linked.id_eq id before hinitial
    | updated before staged provenance hinitial hlive hchanges =>
      rw [hlive]
      refine ⟨_, Table.lookup_insert_self, ?_, rematerialized_kind .., rematerialized_endpoints ..⟩
      rw [rematerialized_resource, hstaged.linked.id_eq id staged hlive]
      rfl
    | created staged provenance hinitial hlive =>
      rw [hlive]
      refine ⟨_, Table.lookup_insert_self, ?_, rematerialized_kind .., rematerialized_endpoints ..⟩
      rw [rematerialized_resource, hstaged.linked.id_eq id staged hlive]
      rfl
  · have hnot : id ∉ rows.map BatchRow.id := by
      intro hmem
      obtain ⟨row, hrow, rfl⟩ := List.mem_map.mp hmem
      exact htouched (Table.mem_of_lookup (touched_of_mem_rows hrows hrow))
    rw [persistedRows_of_not_mem hnot, hstaged.untouched id htouched]
    cases hinitial : baseline.initial[id]? with
    | none => rfl
    | some state => exact ⟨state, rfl, rfl, rfl, rfl⟩

theorem persistedRows_linked (hbase : baseline.Sound config)
    (hstaged : Staged config baseline graph)
    (hrows : RowsSpec config baseline graph time graph.touched.toList first rows last) :
    WellLinked config.navigation.scope (persistedRows baseline.initial rows) := by
  refine hstaged.linked.rewrite ?_ ?_
  · intro id final hfinal
    have hspec := persistedRows_publishes hbase hstaged hrows id
    split at hspec
    · rw [hfinal] at hspec
      cases hspec
    · next staged hlive =>
      obtain ⟨found, hfound, hpublishes⟩ := hspec
      obtain rfl := Option.some.inj (hfinal.symm.trans hfound)
      exact ⟨staged, hlive, hpublishes.id_eq, hpublishes.kind_eq, hpublishes.endpoints_eq⟩
  · intro id staged hlive
    have hspec := persistedRows_publishes hbase hstaged hrows id
    rw [hlive] at hspec
    obtain ⟨final, hfinal, -⟩ := hspec
    exact ⟨final, hfinal⟩

end Publication

variable {facts : List (BatchEffect × LifecycleFact)}

section Facts

/-- The fact of an effect, at its place among the effects of its batch. -/
def IsEffectFact (config : StoreConfiguration) (transaction : String) (clock : ℕ → ℕ)
    (draws : Draws) (entry : BatchEffect × ℕ) (fact : BatchEffect × LifecycleFact) : Prop :=
  fact.1 = entry.1 ∧ ∃ verb state, entry.1.transition = some (verb, state) ∧
    fact.2 = lifecycleFact verb state config.navigation.events
      (config.uuids.uuid .event (draws.event + entry.2)) transaction
      (config.clockFormat.toISOString (clock (entry.2 + 1)))

theorem batchFacts_eq_ok {transaction : String} {clock : ℕ → ℕ} {effects : List BatchEffect}
    (h : batchFacts config transaction clock draws effects = .ok facts) :
    List.Forall₂ (IsEffectFact config transaction clock draws) effects.zipIdx facts := by
  refine (mapM_eq_ok.mp h).imp fun entry fact hfact ↦ ?_
  rw [bind_eq_ok] at hfact
  obtain ⟨⟨verb, state⟩, htransition, hfact⟩ := hfact
  rw [bind_eq_ok] at hfact
  obtain ⟨instant, hnow, hfact⟩ := hfact
  obtain ⟨-, rfl⟩ := now_eq_ok.mp hnow
  obtain rfl := Except.ok.inj hfact
  exact ⟨rfl, verb, state, require_eq_ok.mp htransition, rfl⟩

/-- A fact as it is published, with the Beads of both of its sides. -/
def publishedFact (config : StoreConfiguration) (entry : BatchEffect × LifecycleFact) :
    PublishedFact :=
  (entry.2, incidentBeads config.navigation.scope
    (entry.1.before.toList ++ entry.1.after.toList))

theorem persistFact_eq_ok {entry : BatchEffect × LifecycleFact}
    (h : store.persistFact config entry = .ok result) :
    result = { store with
      events := store.events ++ publishedEvents (store.head + 1) [publishedFact config entry]
      incidence := store.incidence ++
        publishedIncidence (store.head + 1) [publishedFact config entry]
      boundaries := store.boundaries ++
        publishedBoundaries config store.draws.boundary (store.head + 1) 1
      draws := { store.draws with boundary := store.draws.boundary + 1 } } := by
  unfold Store.persistFact at h
  rw [check_bind_eq_ok, bind_eq_ok] at h
  obtain ⟨-, withEvent, hevent, h⟩ := h
  obtain ⟨-, rfl⟩ := Store.insertEvent_eq_ok.mp hevent
  rw [bind_eq_ok] at h
  obtain ⟨withIncidence, hincidence, h⟩ := h
  obtain ⟨-, rfl⟩ := Store.recordIncidence_eq_ok.mp hincidence
  obtain ⟨-, rfl⟩ := Store.insertBoundary_eq_ok.mp h
  simp [publishedEvents, publishedIncidence, publishedBoundaries, publishedFact]

theorem persistFacts_eq_ok (h : facts.foldlM (Store.persistFact config) store = .ok result) :
    result = { store with
      events := store.events ++ publishedEvents (store.head + 1) (facts.map (publishedFact config))
      incidence := store.incidence ++
        publishedIncidence (store.head + 1) (facts.map (publishedFact config))
      boundaries := store.boundaries ++
        publishedBoundaries config store.draws.boundary (store.head + 1) facts.length
      draws := { store.draws with boundary := store.draws.boundary + facts.length } } := by
  induction facts generalizing store with
  | nil =>
    obtain rfl := Except.ok.inj h
    simp [publishedEvents, publishedIncidence, publishedBoundaries]
  | cons entry facts ih =>
    rw [List.foldlM_cons, bind_eq_ok] at h
    obtain ⟨middle, hentry, h⟩ := h
    have hmiddle := persistFact_eq_ok hentry
    have hhead : middle.head = store.head + 1 := by
      rw [hmiddle]
      exact Store.head_append rfl
    rw [ih h, hhead, hmiddle]
    simp only [publishedEvents, publishedIncidence, publishedBoundaries, List.map_cons,
      List.length_cons, List.append_assoc, List.append_nil, List.cons_append, List.nil_append,
      Store.mk.injEq, Draws.mk.injEq, true_and, and_true]
    omega

end Facts

section Record

/-- The store after a decision is retained with the positions of its facts. -/
def Store.recorded (store : Store) (row : OutcomeRow) (facts : List ℕ) : Store :=
  { store with
    outcomes := store.outcomes ++ [row]
    decisionFacts := store.decisionFacts ++ (facts.map fun position ↦ (row.decision, position))
    decisions := row.decision }

theorem insertDecisionFacts_eq_ok {decision : ℕ} {positions : List ℕ}
    (h : positions.foldlM (fun store position ↦
      Store.insertDecisionFact store decision position) store = .ok result) :
    result = { store with decisionFacts := store.decisionFacts ++
      (positions.map fun position ↦ (decision, position)) } := by
  induction positions generalizing store with
  | nil =>
    obtain rfl := Except.ok.inj h
    simp
  | cons position positions ih =>
    rw [List.foldlM_cons, bind_eq_ok] at h
    obtain ⟨middle, hposition, h⟩ := h
    obtain ⟨-, rfl⟩ := Store.insertDecisionFact_eq_ok.mp hposition
    rw [ih h]
    simp

def batchRow (config : StoreConfiguration) (store : Store) (principal : String)
    (input : PreparedBatch config) (comparison : BatchComparison) (status : ℕ) (body : String)
    (positions : List ℕ) : OutcomeRow :=
  { decision := store.decisions + 1, principal, key := input.key, operation := .batch
    identity := comparison.identity, witnesses := comparison.originalWitnesses, status, body
    eventPosition := positions.head? }

/-- Everything that an evaluated batch writes besides its outcome. -/
def batchWritten (config : StoreConfiguration) (store : Store) (evaluation : BatchEvaluation)
    (facts : List (BatchEffect × LifecycleFact)) : Store :=
  { store with
    identities := store.identities.insertRows evaluation.allocations
    resources := persistedRows store.resources evaluation.rows
    events := store.events ++ publishedEvents (store.head + 1) (facts.map (publishedFact config))
    incidence := store.incidence ++
      publishedIncidence (store.head + 1) (facts.map (publishedFact config))
    boundaries := store.boundaries ++
      publishedBoundaries config evaluation.draws.boundary (store.head + 1) facts.length
    draws := { evaluation.draws with
      event := evaluation.draws.event + facts.length
      boundary := evaluation.draws.boundary + facts.length } }

theorem commitBatch_eq_ok {principal : String} {input : PreparedBatch config}
    {comparison : BatchComparison} {response : StoredResponse}
    (h : commitBatch principal input comparison evaluation facts store = .ok (result, response)) :
    result = (batchWritten config store evaluation facts).recorded
        (batchRow config store principal input comparison evaluation.status evaluation.text
          (store.nextPositions facts.length)) (store.nextPositions facts.length) ∧
      response = { status := evaluation.status, text := evaluation.text } ∧
      store.decisions + 1 ≤ MAX_SAFE_INTEGER := by
  unfold commitBatch at h
  rw [check_bind_eq_ok] at h
  obtain ⟨hdecision, h⟩ := h
  dsimp only at h
  rw [bind_eq_ok] at h
  obtain ⟨allocated, hallocated, h⟩ := h
  obtain rfl := insertIdentities_eq_ok hallocated
  rw [bind_eq_ok] at h
  obtain ⟨persisted, hpersisted, h⟩ := h
  obtain rfl := persistRows_eq_ok hpersisted
  rw [bind_eq_ok] at h
  obtain ⟨published, hpublished, h⟩ := h
  obtain rfl := persistFacts_eq_ok hpublished
  rw [bind_eq_ok] at h
  obtain ⟨decided, hdecided, h⟩ := h
  obtain ⟨-, rfl⟩ := Store.insertOutcome_eq_ok.mp hdecided
  rw [bind_eq_ok] at h
  obtain ⟨listed, hlisted, h⟩ := h
  obtain rfl := insertDecisionFacts_eq_ok hlisted
  obtain ⟨rfl, rfl⟩ := Prod.mk.inj (Except.ok.inj h)
  exact ⟨rfl, rfl, hdecision⟩

end Record

end Bdp.Retained
