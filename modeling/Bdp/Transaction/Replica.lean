import Bdp.Library.Replica
import Bdp.Transaction.Streams

/-!
# Replicas of the changefeed

The changes of a group are the final images of everything that its transaction rewrote. Folding the
groups of a store from its genesis gives its live Resources, record for record.
-/

namespace Bdp.Transaction

open Recovery (StoredResource)
open Relation

/-- The live Resources of some tables, by their URIs. -/
def live (reader : RecordReader) (tables : Tables) (uri : String) : Option ResourceRecord :=
  ((stripScope reader.scope uri).bind fun path ↦ tables.resources[path]?).bind fun row ↦
    (readStoredResource reader row).toOption

def TransactionStateChange.toImage : TransactionStateChange → ImageChange String ResourceRecord
  | .upsert _ resource => { key := resource.id, image := some resource }
  | .tombstone _ resource => { key := resource.id, image := none }

@[simp]
theorem TransactionStateChange.toImage_key (change : TransactionStateChange) :
    change.toImage.key = change.id := by
  cases change <;> rfl

variable {uri : String}

section Scope

theorem stripPrefix_eq_some {front text rest : List Char} (h : stripPrefix front text = some rest) :
    text = front ++ rest := by
  induction front generalizing text with
  | nil => exact Option.some.inj h
  | cons letter front ih =>
    cases text with
    | nil => cases h
    | cons other text =>
      unfold stripPrefix at h
      split at h
      next same => rw [← same, ih h, List.cons_append]
      next => cases h

theorem stripScope_eq_some {scope path : String} :
    stripScope scope uri = some path ↔ uri = scope ++ path := by
  unfold stripScope
  constructor
  · intro h
    obtain ⟨rest, stripped, same⟩ := Option.map_eq_some_iff.mp h
    have letters := stripPrefix_eq_some stripped
    apply String.ext
    rw [letters, ← same, String.toList_append, String.toList_ofList]
  · intro h
    rw [h, String.toList_append, stripPrefix_append, Option.map_some, String.ofList_toList]

end Scope

section Tables

variable {reader : RecordReader} {tables : Tables} {path : String}

/-- Every row stands under its own identity. -/
def RowsKeyed (tables : Tables) : Prop :=
  ∀ (path : String) (row : StoredResource), tables.resources[path]? = some row → row.id = path

def RowsReadable (reader : RecordReader) (tables : Tables) : Prop :=
  ∀ (path : String) (row : StoredResource), tables.resources[path]? = some row →
    ∃ record, readStoredResource reader row = .ok record

theorem readStoredResource_id {stored : StoredResource} {record : ResourceRecord}
    (h : readStoredResource reader stored = .ok record) : record.id = reader.scope ++ stored.id := by
  unfold readStoredResource at h
  rw [Except.bind_eq_ok] at h
  obtain ⟨parsed, _, h⟩ := h
  rw [check_bind_eq_ok] at h
  obtain ⟨⟨local_id, _⟩, done⟩ := h
  cases done
  exact stripScope_eq_some.mp local_id

@[simp]
theorem live_scope : live reader tables (reader.scope ++ path) =
    tables.resources[path]?.bind fun row ↦ (readStoredResource reader row).toOption := by
  unfold live
  rw [stripScope_eq_some.mpr rfl, Option.bind_some]

theorem live_congr {other : Tables}
    (h : ∀ path, uri = reader.scope ++ path → other.resources[path]? = tables.resources[path]?) :
    live reader other uri = live reader tables uri := by
  unfold live
  cases local_path : stripScope reader.scope uri with
  | none => rfl
  | some path =>
    rw [Option.bind_some, Option.bind_some, h path (stripScope_eq_some.mp local_path)]

variable {resource : StoredResource}

theorem putResource_keyed (keyed : RowsKeyed tables) : RowsKeyed (tables.putResource resource) := by
  intro path row found
  unfold Tables.putResource at found
  dsimp only at found
  rw [Table.lookup_insert] at found
  split at found
  next same =>
    cases old : tables.resources[resource.id]? with
    | none =>
      rw [old] at found
      cases found
      exact same
    | some before =>
      rw [old] at found
      cases found
      exact (keyed resource.id before old).trans same
  next => exact keyed path row found

theorem putResource_other (other : resource.id ≠ path) :
    (tables.putResource resource).resources[path]? = tables.resources[path]? := by
  unfold Tables.putResource
  exact Table.lookup_insert_of_ne other

variable {success : MutationSuccess}

theorem applyWrites_keyed (keyed : RowsKeyed tables) : RowsKeyed (applyWrites tables success) := by
  have written : RowsKeyed (success.writes.foldl Tables.putResource tables) := by
    generalize success.writes = writes
    induction writes generalizing tables with
    | nil => exact keyed
    | cons write writes ih => exact ih (putResource_keyed keyed)
  unfold applyWrites
  dsimp only
  split
  · intro path row found
    unfold Tables.deleteResource at found
    dsimp only at found
    rw [Table.lookup_erase] at found
    split at found
    · cases found
    · exact written path row found
  · exact written

theorem applyWrites_other
    (unwritten : path ∉ success.writes.map StoredResource.id) (undeleted : success.deleted ≠ some path) :
    (applyWrites tables success).resources[path]? = tables.resources[path]? := by
  have written : (success.writes.foldl Tables.putResource tables).resources[path]? =
      tables.resources[path]? := by
    generalize success.writes = writes at unwritten
    induction writes generalizing tables with
    | nil => rfl
    | cons write writes ih =>
      rw [List.map_cons, List.mem_cons, not_or] at unwritten
      calc
        ((write :: writes).foldl Tables.putResource tables).resources[path]? =
            (tables.putResource write).resources[path]? := ih unwritten.2
        _ = tables.resources[path]? := putResource_other (Ne.symm unwritten.1)
  unfold applyWrites
  dsimp only
  split
  next id deleted =>
    unfold Tables.deleteResource
    dsimp only
    rw [Table.lookup_erase, if_neg, written]
    intro same
    exact undeleted (same ▸ deleted)
  next => exact written

theorem applyWrites_deleted (deleted : success.deleted = some path) :
    (applyWrites tables success).resources[path]? = none := by
  unfold applyWrites
  rw [deleted]
  unfold Tables.deleteResource
  dsimp only
  rw [Table.lookup_erase, if_pos rfl]

end Tables

section Changes

variable {changes : List TransactionStateChange} {change : TransactionStateChange}

theorem mem_setChange {other : TransactionStateChange} (h : other ∈ setChange changes change) :
    other = change ∨ (other ∈ changes ∧ other.id ≠ change.id) := by
  unfold setChange at h
  split at h
  · obtain ⟨old, member, same⟩ := List.mem_map.mp h
    split at same
    · exact Or.inl same.symm
    next different =>
      rw [← same]
      exact Or.inr ⟨member, fun equal ↦ different (beq_iff_eq.mpr equal)⟩
  next absent =>
    cases List.mem_append.mp h with
    | inl member =>
      refine Or.inr ⟨member, ?_⟩
      intro equal
      exact absent (List.any_eq_true.mpr ⟨other, member, beq_iff_eq.mpr equal⟩)
    | inr last => exact Or.inl (List.mem_singleton.mp last)

theorem mem_setChange_ids {id : String} :
    id ∈ (setChange changes change).map TransactionStateChange.id ↔
      id ∈ changes.map TransactionStateChange.id ∨ id = change.id := by
  unfold setChange
  split
  next present =>
    have ids : (changes.map fun old ↦ if old.id == change.id then change else old).map
        TransactionStateChange.id = changes.map TransactionStateChange.id := by
      rw [List.map_map]
      apply List.map_congr_left
      intro old _
      dsimp only [Function.comp]
      split
      next same => exact (beq_iff_eq.mp same).symm
      next => rfl
    rw [ids]
    obtain ⟨old, member, same⟩ := List.any_eq_true.mp present
    constructor
    · exact Or.inl
    · intro either
      cases either with
      | inl inside => exact inside
      | inr equal =>
        rw [equal, ← beq_iff_eq.mp same]
        exact List.mem_map_of_mem member
  next => rw [List.map_append, List.mem_append, List.map_singleton, List.mem_singleton]

/-- The recorded changes name some more identities, each with its image in some tables. -/
structure Recorded (reader : RecordReader) (tables : Tables) (touched : List String)
    (before after : List TransactionStateChange) : Prop where
  each : ∀ change ∈ after, change.toImage.image = live reader tables change.id ∨
    (change ∈ before ∧ change.id ∉ touched)
  ids : ∀ id, id ∈ after.map TransactionStateChange.id ↔
    id ∈ before.map TransactionStateChange.id ∨ id ∈ touched

variable {reader : RecordReader} {tables : Tables} {touched more : List String}
variable {before between after : List TransactionStateChange}

theorem Recorded.refl : Recorded reader tables [] changes changes :=
  ⟨fun _ member ↦ Or.inr ⟨member, List.not_mem_nil⟩, fun _ ↦ by simp⟩

theorem Recorded.trans (first : Recorded reader tables touched before between)
    (second : Recorded reader tables more between after) :
    Recorded reader tables (touched ++ more) before after := by
  refine ⟨?_, ?_⟩
  · intro change member
    cases second.each change member with
    | inl final => exact Or.inl final
    | inr kept =>
      cases first.each change kept.1 with
      | inl final => exact Or.inl final
      | inr older =>
        refine Or.inr ⟨older.1, ?_⟩
        rw [List.mem_append, not_or]
        exact ⟨older.2, kept.2⟩
  · intro id
    rw [second.ids, first.ids, List.mem_append, or_assoc]

theorem recorded_setChange (final : change.toImage.image = live reader tables change.id) :
    Recorded reader tables [change.id] changes (setChange changes change) := by
  refine ⟨?_, ?_⟩
  · intro other member
    cases mem_setChange member with
    | inl same => exact Or.inl (same ▸ final)
    | inr kept =>
      refine Or.inr ⟨kept.1, ?_⟩
      rw [List.mem_singleton]
      exact kept.2
  · intro id
    rw [mem_setChange_ids, List.mem_singleton]

end Changes

section Evaluation

variable {evaluators : Evaluators} {context : EvaluationContext} {start : Tables}
variable {state after : EvaluationState}
variable {ids : List String}

theorem recordUpserts_recorded (keyed : RowsKeyed state.tables)
    (h : ids.foldlM (recordUpsert context) state = .ok after) :
    Recorded context.toRecordReader state.tables (ids.map (context.scope ++ ·)) state.changes
      after.changes := by
  induction ids generalizing state with
  | nil =>
    cases h
    exact Recorded.refl
  | cons id ids ih =>
    rw [List.foldlM_cons, Except.bind_eq_ok] at h
    obtain ⟨next, step, rest⟩ := h
    obtain ⟨row, record, found, read, same⟩ := recordUpsert_eq_ok step
    have named : record.id = context.scope ++ id := by
      rw [readStoredResource_id read, keyed id row found]
    have final : (TransactionStateChange.upsert record.kind record).toImage.image =
        live context.toRecordReader state.tables record.id := by
      rw [named, live_scope, found, Option.bind_some, read]
      rfl
    have first : Recorded context.toRecordReader state.tables [record.id] state.changes
        (setChange state.changes (.upsert record.kind record)) := recorded_setChange final
    rw [named] at first
    subst same
    exact first.trans (ih (by exact keyed) rest)

theorem recordUpserts_read
    (h : ids.foldlM (recordUpsert context) state = .ok after) {path : String} (member : path ∈ ids)
    {row : StoredResource} (found : state.tables.resources[path]? = some row) :
    ∃ record, readStoredResource context.toRecordReader row = .ok record := by
  induction ids generalizing state with
  | nil => cases member
  | cons id ids ih =>
    rw [List.foldlM_cons, Except.bind_eq_ok] at h
    obtain ⟨next, step, rest⟩ := h
    obtain ⟨other, record, here, read, same⟩ := recordUpsert_eq_ok step
    cases List.mem_cons.mp member with
    | inl first =>
      rw [← first, found] at here
      cases here
      exact ⟨record, read⟩
    | inr later =>
      subst same
      exact ih rest later found

/-- The changes of an evaluation are the net difference of its tables, and without an event there
is none. -/
structure Mirrors (reader : RecordReader) (start : Tables) (state : EvaluationState) : Prop where
  keyed : RowsKeyed state.tables
  readable : RowsReadable reader state.tables
  net : NetChanges (live reader start) (live reader state.tables)
    (state.changes.map TransactionStateChange.toImage)
  quiet : state.events = [] → state.changes = []

theorem keys_toImage (changes : List TransactionStateChange) :
    (changes.map TransactionStateChange.toImage).map ImageChange.key =
      changes.map TransactionStateChange.id := by
  rw [List.map_map]
  apply List.map_congr_left
  intro change _
  exact change.toImage_key

theorem Mirrors.record (mirrors : Mirrors context.toRecordReader start state)
    {success : MutationSuccess} (tables : after.tables = applyWrites state.tables success)
    (effective : after.events ≠ [])
    (written : ∀ path ∈ success.writes.map StoredResource.id, ∀ row,
      after.tables.resources[path]? = some row →
        ∃ record, readStoredResource context.toRecordReader row = .ok record)
    (recorded : Recorded context.toRecordReader after.tables
      ((success.writes.map StoredResource.id ++ success.deleted.toList).map (context.scope ++ ·))
      state.changes after.changes) : Mirrors context.toRecordReader start after := by
  have untouched {uri : String} (absent : uri ∉
      (success.writes.map StoredResource.id ++ success.deleted.toList).map (context.scope ++ ·)) :
      live context.toRecordReader after.tables uri =
        live context.toRecordReader state.tables uri := by
    apply live_congr
    intro path here
    rw [tables]
    have away : path ∉ success.writes.map StoredResource.id ++ success.deleted.toList :=
      fun member ↦ absent (here ▸ List.mem_map_of_mem member)
    rw [List.mem_append, not_or] at away
    apply applyWrites_other away.1
    intro deleted
    rw [deleted] at away
    exact away.2 (List.mem_singleton_self path)
  refine ⟨?_, ?_, ⟨?_, ?_⟩, fun none ↦ absurd none effective⟩
  · rw [tables]
    exact applyWrites_keyed mirrors.keyed
  · intro path row found
    by_cases inside : path ∈ success.writes.map StoredResource.id
    · exact written path inside row found
    · by_cases deleted : success.deleted = some path
      · rw [tables, applyWrites_deleted deleted] at found
        cases found
      · rw [tables, applyWrites_other inside deleted] at found
        exact mirrors.readable path row found
  · intro image member
    obtain ⟨change, inside, same⟩ := List.mem_map.mp member
    rw [← same, change.toImage_key]
    cases recorded.each change inside with
    | inl final => exact final
    | inr older =>
      have before := mirrors.net.final change.toImage (List.mem_map_of_mem older.1)
      rw [change.toImage_key] at before
      rw [before, untouched older.2]
  · intro key absent
    rw [keys_toImage, recorded.ids, not_or] at absent
    rw [untouched absent.2]
    apply mirrors.net.others
    rw [keys_toImage]
    exact absent.1

theorem mirrors_kept : Kept evaluators context (Mirrors context.toRecordReader start) where
  frame := by
    intro state after mirrors resources _ events changes
    have same : live context.toRecordReader after.tables =
        live context.toRecordReader state.tables := by
      funext uri
      exact live_congr fun path _ ↦ by rw [resources]
    refine ⟨?_, ?_, ?_, ?_⟩
    · intro path row found
      rw [resources] at found
      exact mirrors.keyed path row found
    · intro path row found
      rw [resources] at found
      exact mirrors.readable path row found
    · rw [same, changes]
      exact mirrors.net
    · rw [events, changes]
      exact mirrors.quiet
  resource := by
    intro state after operation name input operationIndex aliases mirrors applied
    obtain ⟨success, staged, tables, events, changes, recorded⟩ := applyResource_eq_ok applied
    cases recorded with
    | inl idle =>
      obtain ⟨unwritten, undeleted, same⟩ := idle
      have kept : staged.tables = state.tables := by
        rw [tables]
        unfold applyWrites
        rw [unwritten, undeleted]
        rfl
      subst same
      refine ⟨kept ▸ mirrors.keyed, kept ▸ mirrors.readable, ?_, ?_⟩
      · rw [kept, changes]
        exact mirrors.net
      · rw [events, changes]
        exact mirrors.quiet
    | inr transition =>
      obtain ⟨upserted, removed, upserting, deleting, net⟩ := transition.changes
      have rewritten : after.tables = applyWrites state.tables success :=
        transition.tables.trans tables
      have keyed : RowsKeyed staged.tables := by
        rw [tables]
        exact applyWrites_keyed mirrors.keyed
      have written := recordUpserts_recorded keyed upserting
      have read : ∀ path ∈ success.writes.map StoredResource.id, ∀ row,
          after.tables.resources[path]? = some row →
            ∃ record, readStoredResource context.toRecordReader row = .ok record := by
        intro path member row found
        rw [transition.tables] at found
        exact recordUpserts_read upserting member found
      apply mirrors.record rewritten transition.effective read
      rw [net, ← changes, transition.tables]
      cases deleted : success.deleted with
      | none =>
        rw [deleted] at deleting
        rw [deleting, Option.toList_none, List.append_nil]
        exact written
      | some id =>
        rw [deleted] at deleting
        obtain ⟨kind, identity, named, tombstoned⟩ := deleting
        have final : (TransactionStateChange.tombstone kind identity).toImage.image =
            live context.toRecordReader staged.tables identity.id := by
          rw [named, live_scope, tables, applyWrites_deleted deleted]
          rfl
        have last : Recorded context.toRecordReader staged.tables [identity.id] upserted.changes
            (setChange upserted.changes (.tombstone kind identity)) := recorded_setChange final
        rw [named] at last
        rw [tombstoned, Option.toList_some, List.map_append]
        exact written.trans last

theorem evaluateTransaction_mirrors {normalized : NormalizedTransaction} (keyed : RowsKeyed start)
    (readable : RowsReadable context.toRecordReader start)
    (h : evaluateTransaction evaluators context normalized start = .ok (.ok after)) :
    Mirrors context.toRecordReader start after := by
  apply mirrors_kept.evaluation _ h
  exact ⟨keyed, readable, ⟨fun _ member ↦ absurd member List.not_mem_nil, fun _ _ ↦ rfl⟩,
    fun _ ↦ rfl⟩

end Evaluation

section Runs

variable {config : StoreConfiguration} {clock : Clock} {turn : ℕ} {state after : Traced}

def groupChanges (groups : List GroupRow) : List (ImageChange String ResourceRecord) :=
  groups.flatMap fun row ↦ row.body.changes.map TransactionStateChange.toImage

/-- The groups of a store replay to its live Resources. -/
structure ReplicaInvariant (config : StoreConfiguration) (persisted : Persisted) : Prop where
  keyed : RowsKeyed persisted.tables
  readable : RowsReadable config.toRecordReader persisted.tables
  replica : applyFeed (fun _ ↦ none) (groupChanges persisted.groups) =
    live config.toRecordReader persisted.tables

theorem ReplicaInvariant.transition (h : ReplicaInvariant config state.persisted)
    (step : Transition config clock turn state after) : ReplicaInvariant config after.persisted := by
  have same {before later : Persisted} (h : ReplicaInvariant config before)
      (effects : SameEffects before later) : ReplicaInvariant config later := by
    refine ⟨?_, ?_, ?_⟩
    · rw [effects.tables]
      exact h.keyed
    · rw [effects.tables]
      exact h.readable
    · rw [effects.tables, effects.groups]
      exact h.replica
  cases step.effects_cases with
  | inl quiet => exact same h quiet.2
  | inr executing =>
    obtain ⟨executed, _, effects⟩ := executing
    apply same _ effects
    cases executed.cases_effected with
    | inl failed => exact same h failed.2.2
    | inr completed =>
      cases completed with
      | inl quiet =>
        obtain ⟨evaluated, terminal, _, _, silent, effected⟩ := quiet
        have evaluating := executed.evaluated
        rw [terminal] at evaluating
        have mirrors := evaluateTransaction_mirrors h.keyed h.readable evaluating
        have unchanged : live config.toRecordReader state.persisted.tables =
            live config.toRecordReader evaluated.tables := by
          have net := mirrors.net.applyFeed_eq
          rw [mirrors.quiet silent] at net
          exact net
        rw [effected]
        exact ⟨mirrors.keyed, mirrors.readable, h.replica.trans unchanged⟩
      | inr announced =>
        obtain ⟨evaluated, terminal, _, _, _, effected⟩ := announced
        have evaluating := executed.evaluated
        rw [terminal] at evaluating
        have mirrors := evaluateTransaction_mirrors h.keyed h.readable evaluating
        rw [effected]
        refine ⟨mirrors.keyed, mirrors.readable, ?_⟩
        calc
          applyFeed (fun _ ↦ none) (groupChanges (state.persisted.groups ++
              [{ position := state.persisted.position + 1
                 body := transactionGroup state.persisted executed.current.receipt.core
                   evaluated }])) =
              applyFeed (applyFeed (fun _ ↦ none) (groupChanges state.persisted.groups))
                (evaluated.changes.map TransactionStateChange.toImage) := by
            unfold groupChanges
            rw [List.flatMap_append, applyFeed_append, List.flatMap_singleton]
            rfl
          _ = applyFeed (live config.toRecordReader state.persisted.tables)
                (evaluated.changes.map TransactionStateChange.toImage) := by rw [h.replica]
          _ = live config.toRecordReader evaluated.tables := mirrors.net.applyFeed_eq

namespace TransactionStore

variable {store : TransactionStore} {history : List Execution}

theorem replica_run {epoch : String} (run : Run config (created epoch) history store) :
    ReplicaInvariant config store.persisted := by
  induction run with
  | refl =>
    refine ⟨?_, ?_, ?_⟩
    · intro path row found
      rw [created, Table.lookup_empty] at found
      cases found
    · intro path row found
      rw [created, Table.lookup_empty] at found
      cases found
    · funext uri
      unfold live
      cases stripScope config.scope uri with
      | none => rfl
      | some path =>
        rw [Option.bind_some, created, Table.lookup_empty]
        rfl
  | @called store history faults clock request before ih =>
    have entered : Enters config clock store.turn _ store _ :=
      call_enters (KeyInvariant.run before).unique faults request
    obtain ⟨draw, steps⟩ := entered.reaches history
    have kept {state after : Traced} (h : ReplicaInvariant config state.persisted)
        (steps : ReflTransGen (Transition config clock store.turn) state after) :
        ReplicaInvariant config after.persisted := by
      induction steps with
      | refl => exact h
      | tail _ step ih => exact ih.transition step
    exact kept ih steps

end TransactionStore

end Runs

section Reading

open TransactionStore

variable {config : StoreConfiguration} {allowed : TransactionStore → Prop}
variable {start store : TransactionStore} {after epoch : String} {history : List Execution}
variable {page : TransactionChangefeedPage} {groups : List TransactionChangeGroup}

/-- A reader of the changefeed and the groups that it has read, each page behind the one before;
commits may land between two reads, and the states that are read are allowed ones. -/
inductive ChangeTrace (config : StoreConfiguration) (allowed : TransactionStore → Prop)
    (after : String) (start : TransactionStore) :
    TransactionStore → TransactionChangefeedPage → List TransactionChangeGroup → Prop where
  | first {supplied : SuppliedMinimum} {page : TransactionChangefeedPage}
      {context : TransactionReadContext} (admitted : allowed start)
      (read : start.readChanges config after supplied = .ok (.found page context)) :
      ChangeTrace config allowed after start start page page.groups
  | followed {store later : TransactionStore} {page next : TransactionChangefeedPage}
      {groups : List TransactionChangeGroup} {more : List Execution} {supplied : SuppliedMinimum}
      {context : TransactionReadContext} (traced : ChangeTrace config allowed after start store page groups)
      (run : Run config store more later) (admitted : allowed later)
      (read : later.readChanges config (changePacket page).continuation supplied =
        .ok (.found next context)) :
      ChangeTrace config allowed after start later next (groups ++ next.groups)

theorem ChangeTrace.delivered (reached : Run config (created epoch) history start)
    (trace : ChangeTrace config allowed after start store page groups) :
    (∃ more, Run config start more store) ∧
      Delivered config allowed store (cursorPosition after) groups ∧
      cursorPosition (changePacket page).continuation = cursorPosition after + groups.length ∧
      (page.next = none → store.persisted.position = cursorPosition after + groups.length) := by
  induction trace with
  | first admitted read =>
    obtain ⟨delivered, continuation, _⟩ := changePacket_spec reached read
    obtain ⟨_, last, _⟩ := readChanges_spec (GroupsInvariant.run reached).1 read
    refine ⟨⟨[], .refl⟩, delivered.mono ?_, continuation, last⟩
    intro observer same
    rw [same]
    exact admitted
  | @followed store later page next groups more supplied context traced run admitted read ih =>
    obtain ⟨⟨earlier, before⟩, delivered, continuation, _⟩ := ih
    have here := reached.trans before
    obtain ⟨added, continued, _⟩ := changePacket_spec (here.trans run) read
    obtain ⟨_, last, _⟩ := readChanges_spec (GroupsInvariant.run (here.trans run)).1 read
    rw [continuation] at added continued last
    have seen : Delivered config allowed later (cursorPosition after + groups.length)
        (changePacket next).items := by
      apply added.mono
      intro observer same
      rw [same]
      exact admitted
    refine ⟨⟨_, before.trans run⟩, (delivered.grow here run).append seen, ?_, ?_⟩
    · rw [continued, List.length_append, Nat.add_assoc]
      rfl
    · intro ended
      rw [last ended, List.length_append, Nat.add_assoc]

theorem projectTransactionChangeGroup_changes {context : TransactionReadContext} {position : ℕ}
    {group : TransactionGroup} {shown : TransactionChangeGroup}
    (h : projectTransactionChangeGroup config.tags config.scope context position true group =
      .ok shown) : shown.changes = group.changes := by
  unfold projectTransactionChangeGroup at h
  rw [check_bind_eq_ok, check_bind_eq_ok, Except.bind_eq_ok] at h
  obtain ⟨_, _, _, _, done⟩ := h
  cases done
  rfl

theorem Delivered.changes
    (h : Delivered config (fun observer ↦ observer.authorization.allVisible = true) store 0 groups)
    (whole : store.persisted.groups.length = groups.length) :
    groups.map TransactionChangeGroup.changes =
      store.persisted.groups.map fun row ↦ row.body.changes := by
  apply List.ext_getElem
  · rw [List.length_map, List.length_map, whole]
  · intro index inside _
    rw [List.length_map] at inside
    rw [List.getElem_map, List.getElem_map]
    obtain ⟨row, here, _, observer, visible, shows⟩ :=
      h index groups[index] (List.getElem?_eq_getElem inside)
    rw [visible] at shows
    rw [projectTransactionChangeGroup_changes shows]
    rw [Nat.zero_add, List.getElem?_eq_getElem (whole ▸ inside)] at here
    rw [Option.some.inj here]

/-- Fold the changes of some groups, from nothing. -/
def replica (groups : List TransactionChangeGroup) : String → Option ResourceRecord :=
  applyFeed (fun _ ↦ none)
    (groups.flatMap fun group ↦ group.changes.map TransactionStateChange.toImage)

/-- Every read of the changefeed from genesis to the head, in allowed states, gives a replica of
the live Resources, and every stored row is one of them. -/
def Converges (config : StoreConfiguration) (allowed : TransactionStore → Prop) : Prop :=
  ∀ history start, Reachable config history start → ∀ store page groups,
    ChangeTrace config allowed genesis start store page groups → page.next = none →
      replica groups = live config.toRecordReader store.persisted.tables ∧
        ∀ (path : String) (row : StoredResource), store.persisted.tables.resources[path]? = some row →
          ∃ record, readStoredResource config.toRecordReader row = .ok record ∧
            replica groups (config.scope ++ path) = some record

/-- Under a policy that shows everything, the changefeed converges to the live Resources. -/
theorem visible_converges (config : StoreConfiguration) :
    Converges config fun store ↦ store.authorization.allVisible = true := by
  intro history start reachable store page groups trace complete
  obtain ⟨epoch, reached⟩ := reachable
  obtain ⟨⟨_, onward⟩, delivered, _, last⟩ := trace.delivered reached
  have here := reached.trans onward
  have invariant := (GroupsInvariant.run here).1
  have genesis_position : cursorPosition genesis = 0 := rfl
  rw [genesis_position] at delivered last
  have whole : store.persisted.groups.length = groups.length := by
    have lengths := congrArg List.length invariant.positions
    rw [List.length_map, List.length_range', last complete, Nat.zero_add] at lengths
    exact lengths
  have same := delivered.changes whole
  have converged : replica groups = live config.toRecordReader store.persisted.tables := calc
    replica groups = applyFeed (fun _ ↦ none)
        ((groups.map TransactionChangeGroup.changes).flatMap fun changes ↦
          changes.map TransactionStateChange.toImage) := by
      rw [List.flatMap_map]
      rfl
    _ = applyFeed (fun _ ↦ none) (groupChanges store.persisted.groups) := by
      rw [same, List.flatMap_map]
      rfl
    _ = live config.toRecordReader store.persisted.tables := (replica_run here).replica
  refine ⟨converged, ?_⟩
  intro path row found
  obtain ⟨record, read⟩ := (replica_run here).readable path row found
  refine ⟨record, read, ?_⟩
  rw [converged, live_scope, found, Option.bind_some, read]
  rfl

end Reading

section Emptied

open TransactionStore

/-- The store with the Bead, after the policy was replaced by the empty one. -/
def beadEmptied : TransactionStore :=
  beadCreated.call beadConfiguration (fun _ ↦ .none) (fun _ ↦ 0) .replaceAuthorizationPolicy

theorem beadEmptied_reachable : ∃ history, Reachable beadConfiguration history beadEmptied := by
  obtain ⟨_, epoch, run⟩ := beadCreated_reachable
  exact ⟨_, epoch, Run.called _ _ _ run⟩

/-- Whether a read finds the last page, and no change on it. -/
def endsWithoutChange (read : Except ReadFailure (ReadOutcome TransactionChangefeedPage)) : Bool :=
  match read with
  | .ok (.found page _) => page.next.isNone && page.groups.all fun group ↦ group.changes.isEmpty
  | _ => false

/-- A reader without access sees that groups were committed, and none of their changes. -/
theorem emptied_diverges : ¬ ∀ config, Converges config fun _ ↦ True := by
  intro converges
  obtain ⟨history, reachable⟩ := beadEmptied_reachable
  have ends : endsWithoutChange (beadEmptied.readChanges beadConfiguration genesis .absent) =
      true := by decide +kernel
  unfold endsWithoutChange at ends
  split at ends
  next page context read =>
    rw [Bool.and_eq_true, Option.isNone_iff_eq_none] at ends
    obtain ⟨last, empty⟩ := ends
    have trace : ChangeTrace beadConfiguration (fun _ ↦ True) genesis beadEmptied beadEmptied page
        page.groups := .first trivial read
    obtain ⟨same, _⟩ := converges beadConfiguration history beadEmptied reachable beadEmptied page
      page.groups trace last
    have nothing : (page.groups.flatMap fun group ↦
        group.changes.map TransactionStateChange.toImage) = [] := by
      apply List.flatMap_eq_nil_iff.mpr
      intro group member
      rw [List.isEmpty_iff.mp (List.all_eq_true.mp empty group member)]
      rfl
    have absent := congrFun same "https://example.test/b"
    unfold replica at absent
    rw [nothing, applyFeed_nil] at absent
    have present : (live beadConfiguration.toRecordReader beadEmptied.persisted.tables
        "https://example.test/b").isSome = true := by decide +kernel
    rw [← absent] at present
    cases present
  next => cases ends

end Emptied

end Bdp.Transaction
