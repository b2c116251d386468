import Mathlib.Algebra.BigOperators.Group.List.Basic
import Mathlib.Data.List.Nodup
import Mathlib.Logic.Relation
import Bdp.Pagination.Law
import Bdp.Pagination.Ledger

/-!
# The accounts balance

A call is a sequence of moves: a release, an admission that its checks allow, a cursor drawn for a
live snapshot, a later time, another status. Every move keeps the accounts equal to the sums over
the live snapshots and within their capacities, and the index equal to the cursors of the
snapshots.
-/

namespace Bdp.Pagination

open Relation
open List (mem_map_of_mem map_append mem_append mem_singleton mem_map)

variable {α : Type} {ports : Ports α}

namespace Ledger

variable {token : List Char} {after : Ledger α}

section Balance

/-- The accounts of the live snapshots, and their order. -/
structure Balanced (ports : Ports α) (ledger : Ledger α) : Prop where
  bytes : ledger.retainedSnapshotBytes = (ledger.toEngine.retainedSnapshotBytes : ℤ)
  nodes : ledger.retainedSnapshotNodes = (ledger.toEngine.retainedSnapshotNodes : ℤ)
  positions : ledger.retainedCursorPositions = (ledger.toEngine.retainedCursorPositions : ℤ)
  byteCapacity : ledger.retainedSnapshotBytes ≤ ports.options.retainedSnapshotByteCapacity
  nodeCapacity : ledger.retainedSnapshotNodes ≤ ports.options.retainedSnapshotNodeCapacity
  stateCapacity : (ledger.snapshots.length : ℤ) + ledger.retainedCursorPositions ≤
    ports.options.retainedStateCapacity
  index : ∀ binding : CursorBinding, binding ∈ ledger.cursorIndex ↔
    ∃ snapshot ∈ ledger.snapshots, snapshot.serial = binding.serial ∧
      (binding.offset, binding.token) ∈ snapshot.cursors
  tokens : (ledger.cursorIndex.map CursorBinding.token).Nodup
  serials : (ledger.snapshots.map Snapshot.serial).Nodup
  admitted : ∀ snapshot ∈ ledger.snapshots, snapshot.serial ≤ ledger.admitted
  fifo : ledger.snapshots.Pairwise fun first second ↦ first.expiresAt ≤ second.expiresAt
  lifetime : ∀ snapshot ∈ ledger.snapshots,
    snapshot.expiresAt ≤ ledger.lastClockValue + ports.options.cursorTtlMs

/-- One change of the authority. -/
inductive Move (ports : Ports α) : Ledger α → Ledger α → Prop
  | release {ledger : Ledger α} (serial : ℕ) : Move ports ledger (ledger.release serial)
  | observe {ledger : Ledger α} {now : ℕ} (later : ledger.lastClockValue ≤ now) :
      Move ports ledger (ledger.observe now)
  | status {ledger : Ledger α} (epoch : Option String) (closed : Bool) (turn : ℕ) :
      Move ports ledger { ledger with activeScopeEpoch := epoch, closed := closed, turn := turn }
  | register {ledger : Ledger α} {snapshot : Snapshot α}
      (serial : snapshot.serial = ledger.admitted + 1) (cursors : snapshot.cursors = [])
      (expiry : snapshot.expiresAt = ledger.lastClockValue + ports.options.cursorTtlMs)
      (bytes : ledger.retainedSnapshotBytes + snapshot.retainedBytes ≤
        ports.options.retainedSnapshotByteCapacity)
      (nodes : ledger.retainedSnapshotNodes + snapshot.retainedNodes ≤
        ports.options.retainedSnapshotNodeCapacity)
      (state : (ledger.snapshots.length : ℤ) + ledger.retainedCursorPositions + 1 +
        snapshot.reservedCursorPositions ≤ ports.options.retainedStateCapacity) :
      Move ports ledger (ledger.register snapshot)
  | bind {ledger : Ledger α} {snapshot : Snapshot α} {offset : ℕ} {token : List Char}
      (live : snapshot.serial ∈ ledger.snapshots.map Snapshot.serial)
      (fresh : token ∉ ledger.cursorIndex.map CursorBinding.token) :
      Move ports ledger (ledger.bind snapshot.serial offset token)

abbrev Moves (ports : Ports α) : Ledger α → Ledger α → Prop := ReflTransGen (Move ports)

variable {ledger : Ledger α}
variable {snapshot : Snapshot α}

theorem snapshot_unique (h : (ledger.snapshots.map Snapshot.serial).Nodup)
    {other : Snapshot α} (hsnapshot : snapshot ∈ ledger.snapshots)
    (hother : other ∈ ledger.snapshots) (hserial : snapshot.serial = other.serial) :
    snapshot = other :=
  List.inj_on_of_nodup_map h hsnapshot hother hserial

theorem perm_release {snapshots : List (Snapshot α)} (h : (snapshots.map Snapshot.serial).Nodup)
    (hmem : snapshot ∈ snapshots) :
    snapshots.Perm (snapshot :: snapshots.filter fun other ↦ other.serial != snapshot.serial) := by
  induction snapshots with
  | nil => cases hmem
  | cons first rest ih =>
    obtain ⟨hfirst, hrest⟩ := List.nodup_cons.mp h
    have hothers : ∀ other ∈ rest, other.serial ≠ first.serial := fun other hother heq ↦
      hfirst (heq ▸ mem_map_of_mem hother)
    obtain rfl | htail := List.mem_cons.mp hmem
    · rw [List.filter_cons_of_neg (by simp), List.filter_eq_self.mpr]
      exact fun other hother ↦ by simpa using hothers other hother
    · rw [List.filter_cons_of_pos (by simpa using (hothers snapshot htail).symm)]
      exact ((ih hrest htail).cons first).trans (.swap _ _ _)

section Release

theorem mem_unbind {index : List CursorBinding}
    (h : (index.map CursorBinding.token).Nodup) (serial : ℕ) (token : List Char)
    (binding : CursorBinding) :
    binding ∈ unbind serial index token ↔
      binding ∈ index ∧ ¬ (binding.token = token ∧ binding.serial = serial) := by
  unfold unbind
  split
  · next found hfound =>
    have htoken : found.token = token := by simpa using List.find?_some hfound
    have hsame : binding ∈ index → binding.token = token → binding = found := fun hmem heq ↦
      List.inj_on_of_nodup_map h hmem (List.mem_of_find?_eq_some hfound) (heq.trans htoken.symm)
    split
    · next hserial =>
      simp only [List.mem_filter, Bool.not_eq_true', beq_eq_false_iff_ne, ne_eq]
      refine ⟨fun h ↦ ⟨h.1, fun hboth ↦ h.2 hboth.1⟩, fun h ↦ ⟨h.1, fun heq ↦ h.2 ⟨heq, ?_⟩⟩⟩
      rw [hsame h.1 heq, hserial]
    · next hserial =>
      refine ⟨fun hmem ↦ ⟨hmem, fun hboth ↦ hserial ?_⟩, And.left⟩
      rw [← hsame hmem hboth.1, hboth.2]
  · next hnone =>
    refine ⟨fun hmem ↦ ⟨hmem, fun hboth ↦ ?_⟩, And.left⟩
    have := List.find?_eq_none.mp hnone binding hmem
    exact this (by simp [hboth.1])

theorem unbind_sublist (serial : ℕ) (index : List CursorBinding) (token : List Char) :
    (unbind serial index token).Sublist index := by
  unfold unbind
  split
  · split
    · exact List.filter_sublist
    · exact .refl _
  · exact .refl _

theorem mem_unbindAll (serial : ℕ) (tokens : List (List Char)) {index : List CursorBinding}
    (h : (index.map CursorBinding.token).Nodup) (binding : CursorBinding) :
    binding ∈ tokens.foldl (unbind serial) index ↔
      binding ∈ index ∧ ¬ (binding.token ∈ tokens ∧ binding.serial = serial) := by
  induction tokens generalizing index with
  | nil => simp
  | cons token tokens ih =>
    have hnodup := h.sublist ((unbind_sublist serial index token).map CursorBinding.token)
    rw [List.foldl_cons, ih hnodup, mem_unbind h, List.mem_cons]
    tauto

theorem unbindAll_sublist (serial : ℕ) (tokens : List (List Char)) (index : List CursorBinding) :
    (tokens.foldl (unbind serial) index).Sublist index := by
  induction tokens generalizing index with
  | nil => exact .refl _
  | cons token tokens ih => exact (ih _).trans (unbind_sublist serial index token)

theorem release_snapshots (ledger : Ledger α) (serial : ℕ) : (ledger.release serial).snapshots =
      ledger.snapshots.filter fun snapshot ↦ snapshot.serial != serial := by
  unfold release
  split
  · next hnone =>
    refine (List.filter_eq_self.mpr fun snapshot hmem ↦ ?_).symm
    have := List.find?_eq_none.mp hnone snapshot hmem
    simpa using this
  · rfl

theorem release_kept (ledger : Ledger α) (serial : ℕ) :
    (ledger.release serial).lastClockValue = ledger.lastClockValue ∧
      (ledger.release serial).admitted = ledger.admitted ∧
      (ledger.release serial).closed = ledger.closed := by
  unfold release
  split <;> exact ⟨rfl, rfl, rfl⟩

theorem balanced_release (h : Balanced ports ledger) (serial : ℕ) :
    Balanced ports (ledger.release serial) := by
  unfold release
  split
  · exact h
  · next snapshot hfound =>
    have hserial : snapshot.serial = serial := by simpa using List.find?_some hfound
    have hmem := List.mem_of_find?_eq_some hfound
    subst hserial
    have hperm := perm_release h.serials hmem
    have hsum (weight : Snapshot α → ℕ) : (ledger.snapshots.map weight).sum = weight snapshot +
        ((ledger.snapshots.filter fun other ↦ other.serial != snapshot.serial).map weight).sum := by
      rw [(hperm.map weight).sum_eq, List.map_cons, List.sum_cons]
    have hlength := hperm.length_eq
    have hbytes := hsum Snapshot.retainedBytes
    have hnodes := hsum Snapshot.retainedNodes
    have hpositions := hsum Snapshot.reservedCursorPositions
    have hsub : (ledger.snapshots.filter fun other ↦ other.serial != snapshot.serial).Sublist
        ledger.snapshots := List.filter_sublist
    have hledgerBytes := h.bytes
    have hledgerNodes := h.nodes
    have hledgerPositions := h.positions
    have hbyteCapacity := h.byteCapacity
    have hnodeCapacity := h.nodeCapacity
    have hstateCapacity := h.stateCapacity
    simp only [Engine.retainedSnapshotBytes, Engine.retainedSnapshotNodes,
      Engine.retainedCursorPositions] at hledgerBytes hledgerNodes hledgerPositions
    rw [List.length_cons] at hlength
    constructor
    · simp only [Engine.retainedSnapshotBytes]
      omega
    · simp only [Engine.retainedSnapshotNodes]
      omega
    · simp only [Engine.retainedCursorPositions]
      omega
    · simp only
      omega
    · simp only
      omega
    · simp only
      omega
    · intro binding
      simp only [mem_unbindAll _ _ h.tokens, h.index, List.mem_filter, bne_iff_ne]
      constructor
      · rintro ⟨⟨other, hother, hsame, hcursor⟩, hkept⟩
        refine ⟨other, ⟨hother, fun heq ↦ hkept ⟨?_, hsame ▸ heq⟩⟩, hsame, hcursor⟩
        rw [snapshot_unique h.serials hother hmem heq] at hcursor
        exact mem_map_of_mem (f := Prod.snd) hcursor
      · rintro ⟨other, ⟨hother, hne⟩, hsame, hcursor⟩
        exact ⟨⟨other, hother, hsame, hcursor⟩, fun hboth ↦ hne (hsame.trans hboth.2)⟩
    · exact h.tokens.sublist ((unbindAll_sublist _ _ _).map _)
    · exact h.serials.sublist (hsub.map _)
    · exact fun other hother ↦ h.admitted other (hsub.subset hother)
    · exact h.fifo.sublist hsub
    · exact fun other hother ↦ h.lifetime other (hsub.subset hother)

end Release

theorem balanced_observe (h : Balanced ports ledger) {now : ℕ}
    (hnow : ledger.lastClockValue ≤ now) :
    Balanced ports (ledger.observe now) :=
  { h with
    lifetime := fun snapshot hsnapshot ↦ by
      have := h.lifetime snapshot hsnapshot
      change snapshot.expiresAt ≤ now + _
      omega }

theorem balanced_register (h : Balanced ports ledger)
    (hserial : snapshot.serial = ledger.admitted + 1) (hcursors : snapshot.cursors = [])
    (hexpiry : snapshot.expiresAt = ledger.lastClockValue + ports.options.cursorTtlMs)
    (hbytes : ledger.retainedSnapshotBytes + snapshot.retainedBytes ≤
      ports.options.retainedSnapshotByteCapacity)
    (hnodes : ledger.retainedSnapshotNodes + snapshot.retainedNodes ≤
      ports.options.retainedSnapshotNodeCapacity)
    (hstate : (ledger.snapshots.length : ℤ) + ledger.retainedCursorPositions + 1 +
      snapshot.reservedCursorPositions ≤ ports.options.retainedStateCapacity) :
    Balanced ports (ledger.register snapshot) := by
  have hledgerBytes := h.bytes
  have hledgerNodes := h.nodes
  have hledgerPositions := h.positions
  constructor
  · simp only [register, Engine.retainedSnapshotBytes, map_append, List.sum_append] at *
    simp [hledgerBytes]
  · simp only [register, Engine.retainedSnapshotNodes, map_append, List.sum_append] at *
    simp [hledgerNodes]
  · simp only [register, Engine.retainedCursorPositions, map_append, List.sum_append] at *
    simp [hledgerPositions]
  · exact hbytes
  · exact hnodes
  · simp only [register, List.length_append, List.length_singleton]
    omega
  · intro binding
    simp only [register, h.index, mem_append, mem_singleton]
    constructor
    · rintro ⟨other, hother, hbound⟩
      exact ⟨other, .inl hother, hbound⟩
    · rintro ⟨other, hother | rfl, hsame, hcursor⟩
      · exact ⟨other, hother, hsame, hcursor⟩
      · rw [hcursors] at hcursor
        cases hcursor
  · exact h.tokens
  · simp only [register, map_append, List.map_cons, List.map_nil]
    refine List.nodup_append.mpr ⟨h.serials, List.nodup_singleton _, ?_⟩
    rintro serial hmem _ hlast rfl
    obtain ⟨other, hother, rfl⟩ := mem_map.mp hmem
    have := h.admitted other hother
    rw [mem_singleton.mp hlast] at this
    omega
  · intro other hother
    obtain hother | hother := mem_append.mp hother
    · exact (h.admitted other hother).trans (Nat.le_succ _)
    · rw [mem_singleton.mp hother, hserial]
      rfl
  · refine List.pairwise_append.mpr ⟨h.fifo, List.pairwise_singleton _ _, ?_⟩
    intro other hother last hlast
    rw [mem_singleton.mp hlast, hexpiry]
    exact h.lifetime other hother
  · intro other hother
    obtain hother | hother := mem_append.mp hother
    · exact h.lifetime other hother
    · rw [mem_singleton.mp hother, hexpiry]
      rfl

theorem balanced_bind (h : Balanced ports ledger) {serial offset : ℕ}
    (hlive : serial ∈ ledger.snapshots.map Snapshot.serial)
    (hfresh : token ∉ ledger.cursorIndex.map CursorBinding.token) :
    Balanced ports (ledger.bind serial offset token) := by
  have hkept {β : Type} (field : Snapshot α → β)
      (hfield : ∀ (snapshot : Snapshot α) cursors,
        field { snapshot with cursors } = field snapshot) :
      (ledger.bind serial offset token).snapshots.map field = ledger.snapshots.map field := by
    simp only [bind, List.map_map]
    refine List.map_congr_left fun snapshot _ ↦ ?_
    simp only [Function.comp_apply]
    split
    · exact hfield _ _
    · rfl
  have hmember {other : Snapshot α} (hother : other ∈ (ledger.bind serial offset token).snapshots) :
      ∃ snapshot ∈ ledger.snapshots, other.serial = snapshot.serial ∧
        other.expiresAt = snapshot.expiresAt := by
    obtain ⟨snapshot, hsnapshot, rfl⟩ := mem_map.mp hother
    refine ⟨snapshot, hsnapshot, ?_⟩
    split <;> exact ⟨rfl, rfl⟩
  constructor
  · have := h.bytes
    rw [Engine.retainedSnapshotBytes, hkept _ fun _ _ ↦ rfl]
    exact this
  · have := h.nodes
    rw [Engine.retainedSnapshotNodes, hkept _ fun _ _ ↦ rfl]
    exact this
  · have := h.positions
    rw [Engine.retainedCursorPositions, hkept _ fun _ _ ↦ rfl]
    exact this
  · exact h.byteCapacity
  · exact h.nodeCapacity
  · have := h.stateCapacity
    simp only [bind, List.length_map]
    exact this
  · rintro ⟨token', serial', offset'⟩
    simp only [bind, mem_append, mem_singleton, h.index, CursorBinding.mk.injEq,
      mem_map]
    constructor
    · rintro (⟨snapshot, hsnapshot, rfl, hcursor⟩ | ⟨rfl, rfl, rfl⟩)
      · refine ⟨_, ⟨snapshot, hsnapshot, rfl⟩, ?_, ?_⟩
        · split <;> rfl
        · split
          · exact List.mem_append_left _ hcursor
          · exact hcursor
      · obtain ⟨snapshot, hsnapshot, hserial⟩ := mem_map.mp hlive
        refine ⟨_, ⟨snapshot, hsnapshot, rfl⟩, ?_, ?_⟩
        · split <;> exact hserial
        · rw [if_pos hserial]
          exact List.mem_append_right _ (mem_singleton.mpr rfl)
    · rintro ⟨_, ⟨snapshot, hsnapshot, rfl⟩, hsame, hcursor⟩
      split at hsame
      · next hserial =>
        rw [if_pos hserial] at hcursor
        obtain hcursor | hcursor := mem_append.mp hcursor
        · exact .inl ⟨snapshot, hsnapshot, hsame, hcursor⟩
        · obtain ⟨rfl, rfl⟩ := Prod.mk.inj (mem_singleton.mp hcursor)
          exact .inr ⟨rfl, hsame.symm.trans hserial, rfl⟩
      · next hserial =>
        rw [if_neg hserial] at hcursor
        exact .inl ⟨snapshot, hsnapshot, hsame, hcursor⟩
  · simp only [bind, map_append, List.map_cons, List.map_nil]
    rw [← List.concat_eq_append]
    exact h.tokens.concat hfresh
  · rw [hkept _ fun _ _ ↦ rfl]
    exact h.serials
  · intro other hother
    obtain ⟨snapshot, hsnapshot, hserial, -⟩ := hmember hother
    exact hserial ▸ h.admitted snapshot hsnapshot
  · simp only [bind]
    refine List.pairwise_map.mpr (h.fifo.imp fun hle ↦ ?_)
    split <;> split <;> exact hle
  · intro other hother
    obtain ⟨snapshot, hsnapshot, -, hexpiry⟩ := hmember hother
    rw [hexpiry]
    exact h.lifetime snapshot hsnapshot

theorem Move.balanced (move : Move ports ledger after)
    (h : Balanced ports ledger) : Balanced ports after := by
  cases move with
  | release serial => exact balanced_release h serial
  | observe later => exact balanced_observe h later
  | status epoch closed turn => exact { h with }
  | register serial cursors expiry bytes nodes state =>
    exact balanced_register h serial cursors expiry bytes nodes state
  | bind live fresh => exact balanced_bind h live fresh

theorem Moves.balanced (moves : Moves ports ledger after)
    (h : Balanced ports ledger) : Balanced ports after := by
  induction moves with
  | refl => exact h
  | tail _ move ih => exact move.balanced ih

end Balance

section Cleanup

variable {ledger : Ledger α}

theorem moves_cleanupLoop (now : ℕ) (snapshots : List (Snapshot α)) (ledger : Ledger α) :
    Moves ports ledger (cleanupLoop now snapshots ledger) := by
  induction snapshots generalizing ledger with
  | nil => exact .refl
  | cons snapshot rest ih =>
    rw [cleanupLoop]
    split
    · exact .refl
    · exact .head (.release snapshot.serial) (ih _)

theorem moves_releaseAll (snapshots : List (Snapshot α)) (ledger : Ledger α) : Moves ports ledger
      (snapshots.foldl (fun ledger snapshot ↦ ledger.release snapshot.serial) ledger) := by
  induction snapshots generalizing ledger with
  | nil => exact .refl
  | cons snapshot rest ih => exact .head (.release snapshot.serial) (ih _)

theorem cleanupLoop_kept (now : ℕ) (snapshots : List (Snapshot α)) (ledger : Ledger α) :
    (cleanupLoop now snapshots ledger).lastClockValue = ledger.lastClockValue ∧
      (cleanupLoop now snapshots ledger).closed = ledger.closed := by
  induction snapshots generalizing ledger with
  | nil => exact ⟨rfl, rfl⟩
  | cons snapshot rest ih =>
    rw [cleanupLoop]
    split
    · exact ⟨rfl, rfl⟩
    · obtain ⟨hclock, -, hclosed⟩ := release_kept ledger snapshot.serial
      exact ⟨(ih _).1.trans hclock, (ih _).2.trans hclosed⟩

theorem releaseAll_kept (snapshots : List (Snapshot α)) (ledger : Ledger α) :
    (snapshots.foldl (fun ledger snapshot ↦ ledger.release snapshot.serial) ledger).lastClockValue =
      ledger.lastClockValue := by
  induction snapshots generalizing ledger with
  | nil => rfl
  | cons snapshot rest ih => exact (ih _).trans (release_kept ledger snapshot.serial).1

theorem cleanupLoop_snapshots (now : ℕ) (ledger : Ledger α)
    (h : (ledger.snapshots.map Snapshot.serial).Nodup) :
    (cleanupLoop now ledger.snapshots ledger).snapshots =
      ledger.snapshots.dropWhile fun snapshot ↦ decide (snapshot.expiresAt ≤ now) := by
  generalize hsnapshots : ledger.snapshots = snapshots
  induction snapshots generalizing ledger with
  | nil => exact hsnapshots
  | cons snapshot rest ih =>
    rw [hsnapshots] at h
    obtain ⟨hfirst, hrest⟩ := List.nodup_cons.mp h
    rw [cleanupLoop]
    split
    · next hlive =>
      rw [hsnapshots, List.dropWhile_cons_of_neg (by simpa using hlive)]
    · next hexpired =>
      have hreleased : (ledger.release snapshot.serial).snapshots = rest := by
        rw [release_snapshots, hsnapshots, List.filter_cons_of_neg (by simp),
          List.filter_eq_self.mpr]
        intro other hother
        have hne : other.serial ≠ snapshot.serial := fun heq ↦
          hfirst (heq ▸ mem_map_of_mem hother)
        simpa using hne
      rw [List.dropWhile_cons_of_pos (by simpa using hexpired)]
      exact ih (ledger.release snapshot.serial) (hreleased.symm ▸ hrest) hreleased

theorem expiresAt_cleanupAt (h : Balanced ports ledger) (now : ℕ) :
    ∀ snapshot ∈ (ledger.cleanupAt now).snapshots, now < snapshot.expiresAt := by
  rw [cleanupAt, cleanupLoop_snapshots now ledger h.serials]
  have hfifo := h.fifo
  generalize ledger.snapshots = snapshots at hfifo
  induction snapshots with
  | nil => simp
  | cons snapshot rest ih =>
    obtain ⟨hfirst, hrest⟩ := List.pairwise_cons.mp hfifo
    by_cases hexpired : snapshot.expiresAt ≤ now
    · rw [List.dropWhile_cons_of_pos (by simpa using hexpired)]
      exact ih hrest
    · rw [List.dropWhile_cons_of_neg (by simpa using hexpired)]
      refine List.forall_mem_cons.mpr ⟨by omega, fun other hother ↦ ?_⟩
      have := hfirst other hother
      omega

end Cleanup

section Calls

variable {ledger : Ledger α} {timer : Bool}

theorem moves_schedule (clock : Option ℕ) :
    Moves ports ledger (ledger.scheduleIdleCleanup timer clock).2 := by
  unfold scheduleIdleCleanup
  split
  · exact .refl
  · cases clock with
    | none => exact .refl
    | some value => exact .single (.observe (le_max_left _ _))

theorem schedule_ok {clock : Option ℕ} {answer : Except ReadPaginationError Unit}
    (h : ledger.scheduleIdleCleanup timer clock = (answer, after)) : Moves ports ledger after := by
  have := @moves_schedule α ports ledger timer clock
  rwa [h] at this

theorem generateToken_fresh {left attempt : ℕ}
    (h : ledger.generateToken ports left attempt = .ok token) :
    token ∉ ledger.cursorIndex.map CursorBinding.token := by
  induction left generalizing attempt with
  | zero => cases h
  | succ left ih =>
    rw [generateToken] at h
    split at h
    · cases h
    · split at h
      · next hfresh =>
        cases h
        intro hmem
        obtain ⟨binding, hbinding, rfl⟩ := mem_map.mp hmem
        have := List.all_eq_true.mp hfresh.2 binding hbinding
        simp at this
      · exact ih h

variable {snapshot : Snapshot α} {offset : ℕ}

theorem moves_cursorFor (hlive : snapshot.serial ∈ ledger.snapshots.map Snapshot.serial) :
    Moves ports ledger (ledger.cursorFor ports snapshot offset).2 := by
  unfold cursorFor
  split
  · exact .refl
  · split
    · exact .refl
    · split
      · exact .refl
      · next htoken => exact .single (.bind hlive (generateToken_fresh htoken))

theorem moves_pageAt {limit : ℕ} (hlive : snapshot.serial ∈ ledger.snapshots.map Snapshot.serial) :
    Moves ports ledger (ledger.pageAt ports snapshot offset limit).2 := by
  unfold pageAt
  dsimp only
  split
  · have hcursor := @moves_cursorFor α ports ledger snapshot
      (offset + ((snapshot.items.drop offset).take limit).length) hlive
    split
    · next heq =>
      rw [heq] at hcursor
      exact hcursor
    · next heq =>
      rw [heq] at hcursor
      exact hcursor
  · exact .refl

theorem admitSnapshot_spec {now limit : ℕ} {url : String} {input : ContextualInput α}
    (h : ledger.admitSnapshot ports now limit url input = .ok (some snapshot)) :
    snapshot.serial = ledger.admitted + 1 ∧ snapshot.cursors = [] ∧
      snapshot.expiresAt = now + ports.options.cursorTtlMs ∧
      ledger.retainedSnapshotBytes + snapshot.retainedBytes ≤
        ports.options.retainedSnapshotByteCapacity ∧
      ledger.retainedSnapshotNodes + snapshot.retainedNodes ≤
        ports.options.retainedSnapshotNodeCapacity ∧
      (ledger.snapshots.length : ℤ) + ledger.retainedCursorPositions + 1 +
        snapshot.reservedCursorPositions ≤ ports.options.retainedStateCapacity := by
  unfold admitSnapshot at h
  dsimp only at h
  rw [Except.bind_eq_ok] at h
  obtain ⟨⟨contextBytes, contextNodes⟩, -, h⟩ := h
  rw [check_bind_eq_ok, Except.bind_eq_ok] at h
  obtain ⟨-, ⟨bytes, nodes⟩, -, h⟩ := h
  rw [check_bind_eq_ok] at h
  obtain ⟨⟨hbytes, hnodes⟩, h⟩ := h
  split at h
  · cases h
  · next hlarger =>
    rw [check_bind_eq_ok, check_bind_eq_ok, check_bind_eq_ok] at h
    obtain ⟨-, hresizable, hstate, h⟩ := h
    have hlimit : decide (limit < input.items.length) = true := decide_eq_true (by omega)
    rw [hlimit, Bool.true_and] at hbytes hnodes
    split at h
    · next hmode =>
      rw [Except.bind_eq_ok] at h
      obtain ⟨cursorKey, -, h⟩ := h
      cases h
      rw [if_pos hmode] at hstate
      obtain ⟨hsharedBytes, hsharedNodes⟩ := hresizable hmode
      exact ⟨rfl, rfl, rfl, hsharedBytes, hsharedNodes, hstate⟩
    · next hmode =>
      cases h
      rw [if_neg hmode] at hstate
      rw [if_pos (by simpa using hmode)] at hbytes hnodes
      refine ⟨rfl, rfl, rfl, ?_, ?_, hstate⟩
      · push_cast
        omega
      · push_cast
        omega

theorem live_register (snapshot : Snapshot α) :
    snapshot.serial ∈ (ledger.register snapshot).snapshots.map Snapshot.serial := by
  simp [register]

theorem moves_refuse {error : ReadPaginationError} {clock : Option ℕ} :
    Moves ports ledger (ledger.refuse error timer clock).2 := by
  unfold refuse
  split
  · next hschedule => exact schedule_ok hschedule
  · next hschedule => exact schedule_ok hschedule

theorem moves_openSnapshot {limit : ℕ} {url : String} {input : ContextualInput α}
    {clock again : Option ℕ} :
    Moves ports ledger
      (ledger.openSnapshot ports ledger.lastClockValue limit url input timer clock again).2 := by
  unfold openSnapshot
  split
  · exact .refl
  · exact .refl
  · next snapshot hadmitted =>
    obtain ⟨hserial, hcursors, hexpiry, hbytes, hnodes, hstate⟩ := admitSnapshot_spec hadmitted
    have hregister : Move ports ledger (ledger.register snapshot) :=
      .register hserial hcursors hexpiry hbytes hnodes hstate
    have hpage := @moves_pageAt α ports (ledger.register snapshot) snapshot 0 limit
      (live_register snapshot)
    have hrollback (registered : Ledger α) (moves : Moves ports ledger registered)
        (error : ReadPaginationError) (clock : Option ℕ) : Moves ports ledger
          ((registered.release snapshot.serial).refuse error timer clock).2 :=
      (moves.tail (.release snapshot.serial)).trans moves_refuse
    split
    · next heq =>
      rw [heq] at hpage
      exact hrollback _ (.head hregister hpage) _ again
    · next heq =>
      rw [heq] at hpage
      split
      · next hschedule => exact .head hregister (hpage.trans (schedule_ok hschedule))
      · next hschedule =>
        exact hrollback _ (.head hregister (hpage.trans (schedule_ok hschedule))) _ again

theorem moves_entered {clock : Option ℕ}
    {body : ℕ → Ledger α → Except ReadPaginationError (ReadPage α) × Ledger α}
    (hbody : ∀ now (observed : Ledger α), observed.lastClockValue = now →
      Moves ports observed (body now observed).2) :
    Moves ports ledger (ledger.entered clock body).2 := by
  unfold entered
  split
  · exact .refl
  · split
    · exact .refl
    · exact .head (.observe (le_max_left _ _)) (hbody _ _ rfl)

theorem moves_enterEpoch (scopeEpoch : String) : Moves ports ledger (ledger.enterEpoch scopeEpoch) ∧
      (ledger.enterEpoch scopeEpoch).lastClockValue = ledger.lastClockValue := by
  unfold enterEpoch
  dsimp only
  split
  · exact ⟨.single (.status (some scopeEpoch) ledger.closed ledger.turn), rfl⟩
  · exact ⟨(moves_releaseAll ledger.snapshots ledger).tail (.status (some scopeEpoch) _ _),
      releaseAll_kept ledger.snapshots ledger⟩

theorem moves_firstPage {clock later again : Option ℕ} {input : ContextualInput α} :
    Moves ports ledger (ledger.firstPage ports timer clock later again input).2 := by
  refine moves_entered fun now observed hnow ↦ ?_
  have hcleanup : Moves ports observed (observed.cleanupAt now) := moves_cleanupLoop now _ _
  have hkept : (observed.cleanupAt now).lastClockValue = now :=
    (cleanupLoop_kept now observed.snapshots observed).1.trans hnow
  dsimp only
  split
  · exact hcleanup
  · next limit url _ =>
    obtain ⟨hepoch, hclock⟩ := @moves_enterEpoch α ports (observed.cleanupAt now) input.scopeEpoch
    have hopen := @moves_openSnapshot α ports
      ((observed.cleanupAt now).enterEpoch input.scopeEpoch) timer limit url input later again
    rw [hclock, hkept] at hopen
    exact (hcleanup.trans hepoch).trans hopen

theorem live_lookup {found : Snapshot α × ℕ} (h : ledger.lookup ports token = some found) :
    found.1.serial ∈ ledger.snapshots.map Snapshot.serial := by
  unfold lookup at h
  split at h
  · obtain ⟨snapshot, hsnapshot, hfound⟩ := List.exists_of_findSome?_eq_some h
    obtain ⟨offset, -, rfl⟩ := Option.map_eq_some_iff.mp hfound
    exact mem_map_of_mem hsnapshot
  · obtain ⟨binding, -, h⟩ := Option.bind_eq_some_iff.mp h
    obtain ⟨snapshot, hsnapshot, h⟩ := Option.bind_eq_some_iff.mp h
    cases h
    exact mem_map_of_mem (List.mem_of_find?_eq_some hsnapshot)

theorem moves_serve {input : ReadContinuationInput}
    {clock : Option ℕ} (hlive : snapshot.serial ∈ ledger.snapshots.map Snapshot.serial) :
    Moves ports ledger (ledger.serve ports snapshot offset input timer clock).2 := by
  unfold serve
  split
  · exact .refl
  · next limit _ =>
    have hpage := @moves_pageAt α ports ledger snapshot offset limit hlive
    split
    · next heq =>
      rw [heq] at hpage
      exact hpage
    · next heq =>
      rw [heq] at hpage
      split
      · next hschedule => exact hpage.trans (schedule_ok hschedule)
      · next hschedule => exact hpage.trans (schedule_ok hschedule)

theorem moves_continuePage {clock later : Option ℕ} {input : ReadContinuationInput} :
    Moves ports ledger (ledger.continuePage ports timer clock later input).2 := by
  refine moves_entered fun now observed _ ↦ ?_
  have hcleanup : Moves ports observed (observed.cleanupAt now) := moves_cleanupLoop now _ _
  dsimp only
  split
  · next direct _ => exact .head (.release direct.1.serial) moves_refuse
  · split
    · exact hcleanup
    · next snapshot offset hfound =>
      split
      · exact hcleanup
      · split
        · exact hcleanup.trans (.head (.release snapshot.serial) moves_refuse)
        · exact hcleanup.trans (moves_serve (live_lookup hfound))

theorem moves_call (next : LedgerCall α) : Moves ports ledger (ledger.call ports timer next) := by
  have hafter (after : Ledger α) (moves : Moves ports ledger after) :
      Moves ports ledger { after with turn := ledger.turn + 1 } :=
    moves.tail (.status after.activeScopeEpoch after.closed (ledger.turn + 1))
  apply hafter
  cases next with
  | firstPage clock later again input => exact moves_firstPage
  | continuePage clock later input => exact moves_continuePage
  | cleanupExpired clock later =>
    change Moves ports ledger (ledger.cleanupExpired timer clock later)
    unfold cleanupExpired
    split
    · exact .refl
    · split
      · exact .refl
      · exact .head (.observe (le_max_left _ _))
          ((moves_cleanupLoop _ _ _).trans (moves_schedule later))
  | releaseUnissuedPage serial later =>
    change Moves ports ledger (ledger.releaseUnissuedPage ports serial timer later)
    unfold releaseUnissuedPage
    split
    · exact .head (.release serial) (moves_schedule later)
    · exact .refl
  | close =>
    change Moves ports ledger ledger.close
    unfold close
    split
    · exact .refl
    · exact .head (.status none true ledger.turn) (moves_releaseAll _ _)

end Calls

section Reached

theorem balanced_created : Balanced ports (Ledger.created α) where
  bytes := rfl
  nodes := rfl
  positions := rfl
  byteCapacity := Int.natCast_nonneg _
  nodeCapacity := Int.natCast_nonneg _
  stateCapacity := Int.natCast_nonneg _
  index binding := by simp [Ledger.created, Engine.created]
  tokens := List.nodup_nil
  serials := List.nodup_nil
  admitted := nofun
  fifo := .nil
  lifetime := nofun

variable {ledger : Ledger α} {timer : Bool}

theorem Reachable.balanced (h : Reachable ports timer ledger) : Balanced ports ledger := by
  induction h with
  | created => exact balanced_created
  | call _ next ih => exact (moves_call next).balanced ih

/-- In every reachable state the accounts of bytes, nodes and cursor positions are the sums over the
live snapshots and within their capacities, the index has exactly the cursors of the snapshots, and
a cleanup leaves no snapshot whose expiry has come. -/
theorem accounts_exact (ports : Ports α) (timer : Bool) (ledger : Ledger α)
    (h : Reachable ports timer ledger) :
    (ledger.retainedSnapshotBytes = (ledger.snapshots.map fun s ↦ (s.retainedBytes : ℤ)).sum ∧
      ledger.retainedSnapshotNodes = (ledger.snapshots.map fun s ↦ (s.retainedNodes : ℤ)).sum ∧
      ledger.retainedCursorPositions =
        (ledger.snapshots.map fun s ↦ (s.reservedCursorPositions : ℤ)).sum) ∧
    (ledger.retainedSnapshotBytes ≤ ports.options.retainedSnapshotByteCapacity ∧
      ledger.retainedSnapshotNodes ≤ ports.options.retainedSnapshotNodeCapacity ∧
      (ledger.snapshots.length : ℤ) + ledger.retainedCursorPositions ≤
        ports.options.retainedStateCapacity) ∧
    ((ledger.cursorIndex.map CursorBinding.token).Nodup ∧
      ∀ binding : CursorBinding, binding ∈ ledger.cursorIndex ↔
        ∃ snapshot ∈ ledger.snapshots, snapshot.serial = binding.serial ∧
          (binding.offset, binding.token) ∈ snapshot.cursors) ∧
    ∀ now, ∀ snapshot ∈ (ledger.cleanupAt now).snapshots, now < snapshot.expiresAt := by
  have hbalanced := h.balanced
  have hcast (weight : Snapshot α → ℕ) : (((ledger.snapshots.map weight).sum : ℕ) : ℤ) =
      (ledger.snapshots.map fun s ↦ (weight s : ℤ)).sum := by
    induction ledger.snapshots with
    | nil => rfl
    | cons snapshot rest ih =>
      rw [List.map_cons, List.sum_cons, List.map_cons, List.sum_cons, ← ih]
      push_cast
      rfl
  refine ⟨⟨?_, ?_, ?_⟩, ⟨hbalanced.byteCapacity, hbalanced.nodeCapacity, hbalanced.stateCapacity⟩,
    ⟨hbalanced.tokens, hbalanced.index⟩, expiresAt_cleanupAt hbalanced⟩
  · rw [hbalanced.bytes, ← hcast]
    rfl
  · rw [hbalanced.nodes, ← hcast]
    rfl
  · rw [hbalanced.positions, ← hcast]
    rfl

/-- A first page of two items, of which the second is retained behind a cursor. -/
def pairAdmission : LedgerCall ℕ := .firstPage (some 5) none none
  { items := [7, 9], limit := none, authorizationView := "view", scopeEpoch := "epoch"
    projection := "beads", continuationUrl := "/beads", context := some (0, 0) }

theorem accounts_exact_pair :
    ((Ledger.created ℕ).call singlePorts false pairAdmission).retainedSnapshotBytes = 2 ∧
      ((Ledger.created ℕ).call singlePorts false pairAdmission).retainedSnapshotBytes =
        (((Ledger.created ℕ).call singlePorts false pairAdmission).snapshots.map
          fun s ↦ (s.retainedBytes : ℤ)).sum :=
  ⟨rfl, (accounts_exact singlePorts false _ (.call .created pairAdmission)).1.1⟩

end Reached

end Ledger

end Bdp.Pagination
