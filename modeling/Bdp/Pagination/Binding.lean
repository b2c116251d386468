import Bdp.Pagination.Engine

/-!
# What a cursor is bound to

A cursor that was issued for an offset of a snapshot is never bound to another offset or to another
snapshot: tokens are drawn once, and the identities of resizable snapshots are counted. The
invariant is kept by the small steps that every call is made of.
-/

namespace Bdp.Pagination

open Transaction (isTokenChar)
open Relation

variable {α : Type} {ports : Ports α} {engine after later : Engine α}
  {snapshot other : Snapshot α} {offset : ℕ} {token : List Char}

section Cursors

theorem digitValue_digitChar {digit : ℕ} (h : digit < 36) :
    digitValue (digitChar digit) = digit := by
  revert digit
  decide

theorem readOffset_offsetText (offset : ℕ) : readOffset (offsetText offset) = offset := by
  have digits : ((Nat.digits 36 offset).map digitChar).map digitValue = Nat.digits 36 offset := by
    rw [List.map_map]
    refine (List.map_congr_left fun digit member ↦ ?_).trans (List.map_id _)
    exact digitValue_digitChar (Nat.digits_lt_base (by decide) member)
  rw [readOffset, offsetText, List.reverse_reverse, digits, Nat.ofDigits_digits]

theorem resizedCursor_injective {candidate candidate' : List Char} {sequence sequence' offset' : ℕ}
    (h : resizedCursor ports candidate sequence offset =
      resizedCursor ports candidate' sequence' offset') (bound : sequence < 281474976710656)
    (bound' : sequence' < 281474976710656) :
    sequence = sequence' ∧ offset = offset' := by
  unfold resizedCursor at h
  obtain ⟨identities, rest⟩ := List.append_inj h
    ((ports.length_identity sequence).trans (ports.length_identity sequence').symm)
  have texts := List.append_inj' (List.cons.inj rest).2 (by
    rw [List.length_cons, List.length_cons, ports.length_tag, ports.length_tag])
  refine ⟨ports.identity_injective bound bound' identities, ?_⟩
  rw [← readOffset_offsetText offset, texts.1, readOffset_offsetText]

/-- A cursor was issued for an offset of a snapshot. -/
def Issued (ports : Ports α) (snapshot : Snapshot α) (offset : ℕ) (token : List Char) : Prop :=
  if ports.options.resizable then
    (∃ candidate, snapshot.cursorKey = some candidate ∧
      token = resizedCursor ports candidate snapshot.serial offset) ∧
      0 < offset ∧ offset < snapshot.items.length
  else (offset, token) ∈ snapshot.cursors

theorem issued_of_offsetOf (h : snapshot.offsetOf ports token = some offset) :
    Issued ports snapshot offset token := by
  unfold Snapshot.offsetOf at h
  unfold Issued
  split at h
  next resizable =>
    rw [if_pos resizable]
    unfold Snapshot.resizedOffset at h
    split at h
    next candidate identity raw supplied key split =>
      dsimp only at h
      split at h
      next named =>
        cases h
        obtain ⟨same, positive, inside, text, tag⟩ := named
        refine ⟨⟨candidate, key, ?_⟩, positive, inside⟩
        unfold splitResized at split
        dsimp only at split
        split at split
        next formed =>
          cases split
          rw [resizedCursor, text, ← same, ← tag]
          exact formed.1
        next => cases split
      next => cases h
    next => cases h
  next fixed =>
    rw [if_neg fixed]
    obtain ⟨cursor, found, same⟩ := Option.map_eq_some_iff.mp h
    have named := List.find?_some found
    rw [beq_iff_eq] at named
    have inside := List.mem_of_find?_eq_some found
    rwa [← same, ← named]

section

variable (h : engine.lookup ports token = some (snapshot, offset))
include h

theorem lookup_named :
    snapshot ∈ engine.snapshots ∧ snapshot.offsetOf ports token = some offset := by
  unfold Engine.lookup at h
  obtain ⟨found, inside, same⟩ := List.exists_of_findSome?_eq_some h
  obtain ⟨place, named, pair⟩ := Option.map_eq_some_iff.mp same
  cases pair
  exact ⟨inside, named⟩

theorem lookup_issued : snapshot ∈ engine.snapshots ∧ Issued ports snapshot offset token := by
  obtain ⟨inside, named⟩ := lookup_named h
  exact ⟨inside, issued_of_offsetOf named⟩

end

theorem exists_lookup (inside : snapshot ∈ engine.snapshots)
    (named : snapshot.offsetOf ports token = some offset) :
    ∃ found place, engine.lookup ports token = some (found, place) := by
  cases looked : engine.lookup ports token with
  | some found => exact ⟨found.1, found.2, rfl⟩
  | none =>
    rw [Engine.lookup, List.findSome?_eq_none_iff] at looked
    have := looked snapshot inside
    rw [named] at this
    cases this

end Cursors

section Invariant

def Minted (ports : Ports α) (turn : ℕ) (token : List Char) : Prop :=
  ∃ attempt, ports.entropy turn attempt = some token

/-- Resizable snapshots have a key, and a counter of six bytes. -/
structure Snapshot.Keyed (ports : Ports α) (snapshot : Snapshot α) : Prop where
  key : snapshot.cursorKey.isSome = ports.options.resizable
  bound : ports.options.resizable = true → snapshot.serial < 281474976710656

/-- What holds of the snapshots between calls, and within the call of a turn. -/
structure Engine.Sound (ports : Ports α) (turn : ℕ) (engine : Engine α) : Prop where
  counted : ∀ snapshot ∈ engine.snapshots, snapshot.serial ≤ engine.admitted
  ascending : engine.snapshots.Pairwise fun left right ↦ left.serial < right.serial
  minted : ∀ snapshot ∈ engine.snapshots, ∀ cursor ∈ snapshot.cursors,
    ∃ drawn < turn, Minted ports drawn cursor.2
  unique : ∀ left ∈ engine.snapshots, ∀ right ∈ engine.snapshots, ∀ cursor ∈ left.cursors,
    ∀ cursor' ∈ right.cursors, cursor.2 = cursor'.2 → left.serial = right.serial ∧ cursor = cursor'
  offsets : ∀ snapshot ∈ engine.snapshots, ∀ cursor ∈ snapshot.cursors,
    0 < cursor.1 ∧ cursor.1 < snapshot.items.length
  epochs : ∀ snapshot ∈ engine.snapshots, engine.activeScopeEpoch = some snapshot.scopeEpoch
  positive : ∀ snapshot ∈ engine.snapshots, 0 < snapshot.limit
  keyed : ∀ snapshot ∈ engine.snapshots, snapshot.Keyed ports

variable {turn : ℕ}

theorem Engine.Sound.same (sound : engine.Sound ports turn)
    (inside : snapshot ∈ engine.snapshots) (inside' : other ∈ engine.snapshots)
    (serial : snapshot.serial = other.serial) : snapshot = other := by
  have distinct : (engine.snapshots.map Snapshot.serial).Nodup :=
    List.pairwise_map.mpr (sound.ascending.imp fun before ↦ Nat.ne_of_lt before)
  exact List.inj_on_of_nodup_map distinct inside inside' serial

theorem Engine.Sound.issued_unique {place : ℕ} (sound : engine.Sound ports turn)
    (inside : snapshot ∈ engine.snapshots) (inside' : other ∈ engine.snapshots)
    (issued : Issued ports snapshot offset token) (issued' : Issued ports other place token) :
    snapshot = other ∧ offset = place := by
  unfold Issued at issued issued'
  split at issued
  next resizable =>
    rw [if_pos resizable] at issued'
    obtain ⟨⟨_, _, named⟩, _⟩ := issued
    obtain ⟨⟨_, _, named'⟩, _⟩ := issued'
    obtain ⟨serial, offsets⟩ := resizedCursor_injective (named.symm.trans named')
      ((sound.keyed snapshot inside).bound resizable) ((sound.keyed other inside').bound resizable)
    exact ⟨sound.same inside inside' serial, offsets⟩
  next fixed =>
    rw [if_neg fixed] at issued'
    obtain ⟨serial, cursors⟩ := sound.unique snapshot inside other inside' _ issued _ issued' rfl
    exact ⟨sound.same inside inside' serial, (Prod.mk.inj cursors).1⟩

/-- A small step of the call of a turn. -/
inductive Small (ports : Ports α) (turn : ℕ) : Engine α → Engine α → Prop where
  /-- The clock advances, or the authority is closed. -/
  | control {engine : Engine α} (closed : Bool) (now : ℕ) :
    Small ports turn engine { engine with closed, lastClockValue := now }
  /-- Some snapshots are released. -/
  | drop {engine : Engine α} (kept : List (Snapshot α)) (sublist : kept.Sublist engine.snapshots) :
    Small ports turn engine { engine with snapshots := kept }
  /-- The active epoch changes when no snapshot is left. -/
  | epoch {engine : Engine α} (active : Option String)
    (spares : ∀ snapshot ∈ engine.snapshots, active = some snapshot.scopeEpoch) :
    Small ports turn engine { engine with activeScopeEpoch := active }
  /-- A snapshot without cursors is admitted. -/
  | add {engine : Engine α} (snapshot : Snapshot α) (serial : snapshot.serial = engine.admitted + 1)
    (empty : snapshot.cursors = []) (epoch : engine.activeScopeEpoch = some snapshot.scopeEpoch)
    (positive : 0 < snapshot.limit)
    (keyed : snapshot.Keyed ports) :
    Small ports turn engine { engine with snapshots := engine.snapshots ++ [snapshot]
                                          admitted := engine.admitted + 1 }
  /-- A drawn token is bound to an offset. -/
  | grow {engine : Engine α} (snapshot : Snapshot α) (inside : snapshot ∈ engine.snapshots)
    (offset : ℕ) (token : List Char) (drawn : Minted ports turn token)
    (free : ∀ other ∈ engine.snapshots, ∀ cursor ∈ other.cursors, cursor.2 ≠ token)
    (range : 0 < offset ∧ offset < snapshot.items.length) :
    Small ports turn engine
      (engine.update { snapshot with cursors := snapshot.cursors ++ [(offset, token)] })

def Snapshot.SameAs (snapshot other : Snapshot α) : Prop :=
  other = { snapshot with cursors := other.cursors }

theorem Snapshot.SameAs.trans {third : Snapshot α} (h : snapshot.SameAs other)
    (h' : other.SameAs third) : snapshot.SameAs third := by
  unfold SameAs at h h' ⊢
  rw [h', h]

theorem mem_update {grown : Snapshot α} (h : other ∈ (engine.update grown).snapshots) :
    other = grown ∨ other ∈ engine.snapshots := by
  obtain ⟨old, inside, same⟩ := List.mem_map.mp h
  split at same
  · exact .inl same.symm
  · exact .inr (same ▸ inside)

theorem update_serials (engine : Engine α) (grown : Snapshot α) :
    (engine.update grown).snapshots.map Snapshot.serial = engine.snapshots.map Snapshot.serial := by
  rw [Engine.update, List.map_map]
  apply List.map_congr_left
  intro old _
  rw [Function.comp_apply]
  split
  next same => exact same.symm
  next => rfl

theorem Engine.Sound.small (sound : engine.Sound ports (turn + 1))
    (step : Small ports turn engine after) : after.Sound ports (turn + 1) := by
  cases step with
  | control closed now => exact { sound with }
  | drop kept sublist =>
    have inside {snapshot : Snapshot α} (h : snapshot ∈ kept) : snapshot ∈ engine.snapshots :=
      sublist.subset h
    exact
      { counted := fun snapshot h ↦ sound.counted snapshot (inside h)
        ascending := sound.ascending.sublist sublist
        minted := fun snapshot h ↦ sound.minted snapshot (inside h)
        unique := fun left h right h' ↦ sound.unique left (inside h) right (inside h')
        offsets := fun snapshot h ↦ sound.offsets snapshot (inside h)
        epochs := fun snapshot h ↦ sound.epochs snapshot (inside h)
        positive := fun snapshot h ↦ sound.positive snapshot (inside h)
        keyed := fun snapshot h ↦ sound.keyed snapshot (inside h) }
  | epoch active spares => exact { sound with epochs := spares }
  | add snapshot serial empty epoch positive keyed =>
    have split {other : Snapshot α} (h : other ∈ engine.snapshots ++ [snapshot]) :
        other ∈ engine.snapshots ∨ other = snapshot :=
      (List.mem_append.mp h).imp id List.mem_singleton.mp
    have bare {cursor : ℕ × List Char} (h : cursor ∈ snapshot.cursors) : False := by
      rw [empty] at h
      cases h
    constructor
    · intro other h
      cases split h with
      | inl old => exact Nat.le_succ_of_le (sound.counted other old)
      | inr new => exact Nat.le_of_eq (new ▸ serial)
    · rw [List.pairwise_append]
      refine ⟨sound.ascending, List.pairwise_singleton _ _, ?_⟩
      intro old inside last member
      rw [List.mem_singleton.mp member, serial]
      exact Nat.lt_succ_of_le (sound.counted old inside)
    · intro other h cursor held
      cases split h with
      | inl old => exact sound.minted other old cursor held
      | inr new => exact absurd (new ▸ held) bare
    · intro left h right h' cursor held cursor' held' same
      cases split h with
      | inr new => exact absurd (new ▸ held) bare
      | inl old =>
        cases split h' with
        | inr new => exact absurd (new ▸ held') bare
        | inl old' => exact sound.unique left old right old' cursor held cursor' held' same
    · intro other h cursor held
      cases split h with
      | inl old => exact sound.offsets other old cursor held
      | inr new => exact absurd (new ▸ held) bare
    · intro other h
      cases split h with
      | inl old => exact sound.epochs other old
      | inr new => exact new ▸ epoch
    · intro other h
      cases split h with
      | inl old => exact sound.positive other old
      | inr new => exact new ▸ positive
    · intro other h
      cases split h with
      | inl old => exact sound.keyed other old
      | inr new => exact new ▸ keyed
  | grow snapshot inside offset token drawn free range =>
    -- A cursor of the updated engine is an old one of a snapshot of that serial, or the new one.
    have old {other : Snapshot α} (h : other ∈ (engine.update
        { snapshot with cursors := snapshot.cursors ++ [(offset, token)] }).snapshots) :
        ∃ before ∈ engine.snapshots, before.SameAs other ∧ ∀ cursor ∈ other.cursors,
          cursor ∈ before.cursors ∨ before = snapshot ∧ cursor = (offset, token) := by
      cases mem_update h with
      | inr same => exact ⟨other, same, rfl, fun cursor held ↦ .inl held⟩
      | inl new =>
        subst new
        refine ⟨snapshot, inside, rfl, fun cursor held ↦ ?_⟩
        exact (List.mem_append.mp held).imp id fun last ↦ ⟨rfl, List.mem_singleton.mp last⟩
    constructor
    · intro other h
      obtain ⟨before, held, same, _⟩ := old h
      rw [same]
      exact sound.counted before held
    · have serials := List.pairwise_map.mpr sound.ascending
      rw [← update_serials engine
        { snapshot with cursors := snapshot.cursors ++ [(offset, token)] }] at serials
      exact List.pairwise_map.mp serials
    · intro other h cursor held
      obtain ⟨before, before_in, _, cursors⟩ := old h
      cases cursors cursor held with
      | inl earlier => exact sound.minted before before_in cursor earlier
      | inr new =>
        rw [new.2]
        exact ⟨turn, Nat.lt_succ_self turn, drawn⟩
    · intro left h right h' cursor held cursor' held' same
      obtain ⟨before, before_in, before_same, cursors⟩ := old h
      obtain ⟨before', before_in', before_same', cursors'⟩ := old h'
      rw [before_same, before_same']
      cases cursors cursor held with
      | inl earlier =>
        cases cursors' cursor' held' with
        | inl earlier' =>
          exact sound.unique before before_in before' before_in' cursor earlier cursor' earlier'
            same
        | inr new' =>
          rw [new'.2] at same
          exact absurd same (free before before_in cursor earlier)
      | inr new =>
        cases cursors' cursor' held' with
        | inl earlier' =>
          rw [new.2] at same
          exact absurd same.symm (free before' before_in' cursor' earlier')
        | inr new' =>
          refine ⟨?_, new.2.trans new'.2.symm⟩
          dsimp only
          rw [new.1, new'.1]
    · intro other h cursor held
      obtain ⟨before, before_in, same, cursors⟩ := old h
      rw [same]
      cases cursors cursor held with
      | inl earlier => exact sound.offsets before before_in cursor earlier
      | inr new =>
        rw [new.2]
        dsimp only
        rw [new.1]
        exact range
    · intro other h
      obtain ⟨before, held, same, _⟩ := old h
      rw [same]
      exact sound.epochs before held
    · intro other h
      obtain ⟨before, held, same, _⟩ := old h
      rw [same]
      exact sound.positive before held
    · intro other h
      obtain ⟨before, held, same, _⟩ := old h
      have keyed := sound.keyed before held
      rw [same]
      exact ⟨keyed.key, keyed.bound⟩

end Invariant

end Bdp.Pagination
