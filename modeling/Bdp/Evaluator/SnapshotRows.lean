import Bdp.Evaluator.SnapshotCut

/-!
# The rows of a capture

What was read of the rows of the Resources, the rows that a capture writes for them, and the reading
of these rows: the records of a page are the captured ones, and the stored plan passes its checks.
-/

namespace Bdp.Evaluator.Snapshot

open Recovery (ResourceKind)
open Transaction (TransactionReadContext)
open JsonParts
open Bdp.Except (bind_eq_ok ok_bind)

variable {ports : SnapshotPorts} {config : GraphConfiguration} {plane : ReadPlane}
  {member : MemberContext}

variable {α : Type}

section Read

/-- The validation of a record by the server. -/
def validRecord (config : GraphConfiguration) (plane : ReadPlane) (member : MemberContext)
    (value : ResourceRecord) : Prop :=
  match value with
  | .bead bead => validateServerBead plane (member.options config) bead = .ok ()
  | .link link => validateServerLink plane (member.options config) link = .ok ()

/-- What holds of a row that was captured. -/
structure Captured.Read (ports : SnapshotPorts) (config : GraphConfiguration) (plane : ReadPlane)
    (member : MemberContext) (row : Captured) : Prop where
  kind : row.value.kind = row.kind
  readable : (member.options config).readable row.value = true
  path : (member.options config).scope.resourcePath row.value.id = some row.localId
  valid : validRecord config plane member row.value
  text : row.body = ports.text row.value
  size : bytes row.body ≤ representationBytes

theorem thrown_eq_ok {outcome : Except String α} {value : α} :
    thrown outcome = .ok value ↔ outcome = .ok value := by
  cases outcome <;> simp [thrown, Except.mapError]

theorem checkRecord_valid {row : StoredResource} {value : ResourceRecord}
    (h : checkRecord config plane member row value = .ok ()) :
    validRecord config plane member value := by
  unfold checkRecord at h
  cases value with
  | bead bead => exact thrown_eq_ok.mp h
  | link link =>
    dsimp only at h
    rw [bind_eq_ok] at h
    obtain ⟨⟨⟩, valid, _⟩ := h
    exact thrown_eq_ok.mp valid

theorem record_read {localId : String} {row : StoredResource} {captured : Captured}
    (h : record ports config plane member localId row = .ok captured) :
    captured.Read ports config plane member ∧ captured.localId = localId := by
  unfold record at h
  rw [check_bind_eq_ok, bind_eq_ok] at h
  obtain ⟨_, value, read, h⟩ := h
  rw [bind_eq_ok] at h
  obtain ⟨⟨⟩, checked, h⟩ := h
  rw [check_bind_eq_ok, Except.pure_eq_ok_iff] at h
  obtain ⟨size, same⟩ := h
  obtain ⟨body, kind, readable, path⟩ := storedRecord_eq_ok.mp (mapError_eq_ok.mp read)
  subst same body
  exact ⟨⟨kind, readable, path, checkRecord_valid checked, rfl, size⟩, rfl⟩

theorem readRecords_read {rows : List (String × StoredResource)} {total : ℕ}
    {captured : List Captured} (bound : total ≤ recordBytes)
    (h : readRecords ports config plane member rows total = .ok captured) :
    captured.map Captured.localId = rows.map Prod.fst ∧
      (∀ row ∈ captured, row.Read ports config plane member) ∧
      total + (captured.map fun row ↦ bytes row.body).sum ≤ recordBytes := by
  induction rows generalizing total captured with
  | nil =>
    cases h
    refine ⟨rfl, ?_, bound⟩
    intro _ inside
    cases inside
  | cons first rows ih =>
    rw [readRecords, bind_eq_ok] at h
    obtain ⟨row, read, h⟩ := h
    rw [check_bind_eq_ok, bind_eq_ok] at h
    obtain ⟨within, rest, later, h⟩ := h
    rw [Except.pure_eq_ok_iff] at h
    subst h
    obtain ⟨row_read, row_id⟩ := record_read read
    obtain ⟨ids, each, size⟩ := ih within later
    refine ⟨?_, ?_, ?_⟩
    · rw [List.map_cons, List.map_cons, ids, row_id]
    · intro other inside
      cases List.mem_cons.mp inside with
      | inl same => exact same ▸ row_read
      | inr behind => exact each other behind
    · rw [List.map_cons, List.sum_cons]
      omega

theorem reread_eq_ok {row : Captured} (read : row.Read ports config plane member) {id : String}
    {ordinal : ℕ} :
    reread config plane member
      { snapshot := id, kind := row.kind, ordinal, id := row.value.id, body := row.body
        value := row.value } = .ok row.value := by
  have local_id : localSlice (member.options config) row.value.id = row.localId := by
    obtain ⟨spelled, _⟩ := UrlPath.Scope.resourcePath_eq_some.mp read.path
    rw [spelled, localSlice, String.toList_append, List.drop_left, String.ofList_toList]
  have stored : storedRecord (member.options config)
      { id := localSlice (member.options config) row.value.id
        shape := capturedShape row.kind
        body := row.value } = .ok row.value := by
    refine storedRecord_eq_ok.mpr ⟨rfl, ?_, read.readable, ?_⟩
    · rw [StoredResource.kind]
      dsimp only
      rw [read.kind]
      cases row.kind <;> rfl
    · dsimp only
      rw [local_id]
      exact read.path
  have valid := read.valid
  unfold reread
  dsimp only
  rw [stored]
  simp only [Except.mapError, ok_bind]
  unfold validRecord at valid
  split at valid
  next bead same =>
    rw [same]
    simp only [thrown, valid, Except.mapError, ok_bind, Except.pure_eq_ok]
  next link same =>
    rw [same]
    simp only [thrown, valid, Except.mapError, ok_bind, Except.pure_eq_ok]

end Read

section Written

variable {id : String} {kind : ResourceKind} {captured : List Captured}

theorem filter_zipIdx (items : List α) (start stop offset : ℕ) :
    ((items.zipIdx offset).filter fun item ↦ decide (start ≤ item.2 ∧ item.2 < stop)) =
      ((items.zipIdx offset).drop (start - offset)).take (stop - max start offset) := by
  induction items generalizing offset with
  | nil => simp
  | cons item items ih =>
    rw [List.zipIdx_cons]
    by_cases before : offset < start
    · have more : start - offset = (start - (offset + 1)) + 1 := by omega
      have last : max start offset = max start (offset + 1) := by omega
      rw [List.filter_cons_of_neg (by simp; omega), ih, more, List.drop_succ_cons, last]
    · have none : start - offset = 0 := by omega
      have none' : start - (offset + 1) = 0 := by omega
      have last : max start offset = offset := by omega
      have last' : max start (offset + 1) = offset + 1 := by omega
      rw [none, List.drop_zero, last]
      by_cases inside : offset < stop
      · have more : stop - offset = (stop - (offset + 1)) + 1 := by omega
        rw [List.filter_cons_of_pos (by simp; omega), ih, none', List.drop_zero, last', more,
          List.take_succ_cons]
      · have empty : stop - offset = 0 := by omega
        have empty' : stop - (offset + 1) = 0 := by omega
        rw [List.filter_cons_of_neg (by simp; omega), ih, last', empty, empty', List.take_zero,
          List.take_zero]

theorem filter_recordRows (start stop : ℕ) : ((recordRows id kind captured).filter fun row ↦
      decide (start ≤ row.ordinal ∧ row.ordinal < stop)) =
      ((recordRows id kind captured).drop start).take (stop - start) := by
  have numbered := filter_zipIdx (stream kind captured) start stop 0
  rw [Nat.sub_zero, Nat.max_zero] at numbered
  unfold recordRows
  rw [List.filter_map, ← List.map_drop, ← List.map_take, ← numbered]
  rfl

theorem map_ordinal_recordRows : (recordRows id kind captured).map SnapshotRecord.ordinal =
      List.range (stream kind captured).length := by
  rw [recordRows, List.map_map]
  exact (List.zipIdx_map_snd 0 _).trans List.range_eq_range'.symm

theorem mem_recordRows {row : SnapshotRecord} (h : row ∈ recordRows id kind captured) :
    ∃ source ∈ stream kind captured, row.snapshot = id ∧ row.kind = kind ∧
      row.id = source.value.id ∧ row.body = source.body ∧ row.value = source.value := by
  obtain ⟨⟨source, ordinal⟩, inside, same⟩ := List.mem_map.mp h
  exact ⟨source, List.fst_mem_of_mem_zipIdx inside, by rw [← same], by rw [← same],
    by rw [← same], by rw [← same], by rw [← same]⟩

theorem map_body_recordRows : (recordRows id kind captured).map SnapshotRecord.body =
    (stream kind captured).map Captured.body := by
  rw [recordRows, List.map_map]
  conv_rhs => rw [← List.zipIdx_map_fst 0 (stream kind captured), List.map_map]
  rfl

theorem map_value_recordRows : (recordRows id kind captured).map SnapshotRecord.value =
    (stream kind captured).map Captured.value := by
  rw [recordRows, List.map_map]
  conv_rhs => rw [← List.zipIdx_map_fst 0 (stream kind captured), List.map_map]
  rfl

/-- Two records of one snapshot differ in their places and in their identities. -/
def Apart (other row : SnapshotRecord) : Prop :=
  other.snapshot = row.snapshot →
    (other.kind, other.ordinal) ≠ (row.kind, row.ordinal) ∧ other.id ≠ row.id

theorem foldlM_insertRecord {rows : List SnapshotRecord} {tables : SnapshotTables}
    (free : ∀ other ∈ tables.records, ∀ row ∈ rows, Apart other row) (apart : rows.Pairwise Apart) :
    rows.foldlM SnapshotTables.insertRecord tables =
      .ok { tables with records := tables.records ++ rows } := by
  induction rows generalizing tables with
  | nil =>
    rw [List.append_nil]
    rfl
  | cons row rows ih =>
    obtain ⟨before, apart⟩ := List.pairwise_cons.mp apart
    have checked : ∀ other ∈ tables.records, other.snapshot = row.snapshot →
        (other.kind, other.ordinal) ≠ (row.kind, row.ordinal) ∧ other.id ≠ row.id :=
      fun other inside ↦ free other inside row List.mem_cons_self
    rw [List.foldlM_cons, SnapshotTables.insertRecord, check_of checked, ok_bind,
      Except.pure_eq_ok, ok_bind, ih ?_ apart]
    · simp
    · intro other inside later behind
      cases List.mem_append.mp inside with
      | inl old => exact free other old later (List.mem_cons_of_mem _ behind)
      | inr new =>
        rw [List.mem_singleton.mp new]
        exact before later behind

/-- Two pages differ in their tokens, and in their places within one snapshot. -/
def PagesApart (other row : String × PageRange) : Prop :=
  other.2.token ≠ row.2.token ∧ (other.1 = row.1 →
    (other.2.kind, other.2.ordinal) ≠ (row.2.kind, row.2.ordinal))

theorem foldlM_insertPage {rows : List (String × PageRange)} {tables : SnapshotTables}
    (free : ∀ other ∈ tables.pages, ∀ row ∈ rows, PagesApart other row)
    (apart : rows.Pairwise PagesApart) :
    rows.foldlM SnapshotTables.insertPage tables =
      .ok { tables with pages := tables.pages ++ rows } := by
  induction rows generalizing tables with
  | nil =>
    rw [List.append_nil]
    rfl
  | cons row rows ih =>
    obtain ⟨before, apart⟩ := List.pairwise_cons.mp apart
    have checked : ∀ other ∈ tables.pages, other.2.token ≠ row.2.token ∧ (other.1 = row.1 →
        (other.2.kind, other.2.ordinal) ≠ (row.2.kind, row.2.ordinal)) :=
      fun other inside ↦ free other inside row List.mem_cons_self
    rw [List.foldlM_cons, SnapshotTables.insertPage, check_of checked, ok_bind,
      Except.pure_eq_ok, ok_bind, ih ?_ apart]
    · simp
    · intro other inside later behind
      cases List.mem_append.mp inside with
      | inl old => exact free other old later (List.mem_cons_of_mem _ behind)
      | inr new =>
        rw [List.mem_singleton.mp new]
        exact before later behind

end Written

end Bdp.Evaluator.Snapshot
