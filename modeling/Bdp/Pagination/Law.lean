import Bdp.Pagination.Survival

/-!
# The law of traversals

Whatever is called in whatever order, a page and the pages read behind it are the items frozen at
the first page, and a cursor is served as it was issued.
-/

namespace Bdp.Pagination

open Transaction (isTokenChar)

variable {α : Type} {ports : Ports α} {engine : Engine α}

section Law

/-- What one who reads pages names. -/
structure Audience where
  authorizationView : String
  scopeEpoch : String
  projection : String
  deriving DecidableEq

def Snapshot.audience (snapshot : Snapshot α) : Audience :=
  ⟨snapshot.authorizationView, snapshot.scopeEpoch, snapshot.projection⟩

def ReadFirstPageInput.audience (input : ReadFirstPageInput α) : Audience :=
  ⟨input.authorizationView, input.scopeEpoch, input.projection⟩

def ReadContinuationInput.audience (input : ReadContinuationInput) : Audience :=
  ⟨input.authorizationView, input.scopeEpoch, input.projection⟩

/-- A cursor is held for an offset of some items until a time. -/
def Held (ports : Ports α) (engine : Engine α) (token : List Char) (items : List α) (offset : ℕ)
    (audience : Audience) (expiresAt : ℕ) : Prop :=
  ∃ snapshot ∈ engine.snapshots, Issued ports snapshot offset token ∧ snapshot.items = items ∧
    snapshot.audience = audience ∧ snapshot.expiresAt = expiresAt

/-- The law of the traversals that go through a state of the authority. -/
structure TraversalLaw (ports : Ports α) (engine : Engine α) : Prop where
  /-- The first page and the pages read behind it, with any limits and any calls in between, are the
  items of the first page. -/
  whole : ∀ clock input page, (engine.call ports (.firstPage clock input)).1 = some (.ok page) →
    (page.next = none → page.items = input.items) ∧ ∀ next, page.next = some next →
      ∀ rest, Reads ports (engine.call ports (.firstPage clock input)).2 next.cursor rest →
        page.items ++ rest = input.items
  /-- The cursor of a first page is held for whoever asked for the page. -/
  issued : ∀ clock input page, (engine.call ports (.firstPage clock input)).1 = some (.ok page) →
    ∀ next, page.next = some next → ∃ value, clock = some value ∧
      Held ports (engine.call ports (.firstPage clock input)).2 next.cursor input.items
        page.items.length input.audience (engine.now value + ports.options.cursorTtlMs)
  /-- A held cursor is served, at any later time, only to its audience and before its expiry. It is
  served the items at its offset, and the cursor of the next page is held for the same audience. -/
  guarded : ∀ token items offset audience expiresAt,
    Held ports engine token items offset audience expiresAt →
    ∀ later, Run ports engine later → ∀ clock input page, input.token = token →
      (later.call ports (.continuePage clock input)).1 = some (.ok page) →
      input.audience = audience ∧ (∃ value, clock = some value ∧ later.now value < expiresAt) ∧
        (∃ count, page.items = (items.drop offset).take count ∧
          ∀ limit ∈ input.limit, count = limit) ∧
        ∀ next, page.next = some next → Held ports
          (later.call ports (.continuePage clock input)).2 next.cursor items
          (offset + page.items.length) audience expiresAt
  /-- Reading a cursor again with the same limit returns the same items. -/
  again : ∀ token items offset audience expiresAt,
    Held ports engine token items offset audience expiresAt →
    ∀ later later', Run ports engine later → Run ports engine later' →
      ∀ clock clock' input input' page page', input.token = token → input'.token = token →
        input.limit = input'.limit →
        (later.call ports (.continuePage clock input)).1 = some (.ok page) →
        (later'.call ports (.continuePage clock' input')).1 = some (.ok page') →
        page.items = page'.items
  /-- A cursor is served before its expiry, unless its snapshot was released or no token can be
  drawn for the next page. The items of an array are less than `2 ^ 32`. -/
  served : ∀ snapshot ∈ engine.snapshots, snapshot.items.length < 2 ^ 32 → ∀ offset token,
    Issued ports snapshot offset token → ∀ later, SparingRun ports snapshot engine later →
      later.closed = false → ∀ value, later.now value < snapshot.expiresAt →
      ∀ input, Continues ports snapshot token input →
        (∃ page, (later.call ports (.continuePage (some value) input)).1 = some (.ok page)) ∨
          ports.options.resizable = false ∧ ∃ error,
            (later.call ports (.continuePage (some value) input)).1 = some (.error error) ∧
              error.code = .tokenGenerationFailed

variable {page : ReadPage α} {clock : Option ℕ}

section

variable (ready : engine.Ready ports)
include ready

variable {input : ReadFirstPageInput α}

section

variable (read : (engine.call ports (.firstPage clock input)).1 = some (.ok page))
include read

theorem whole_of_ready :
    (page.next = none → page.items = input.items) ∧ ∀ next, page.next = some next →
      ∀ rest, Reads ports (engine.call ports (.firstPage clock input)).2 next.cursor rest →
        page.items ++ rest = input.items := by
  cases (firstPage_steps ready.mono rfl).2 page (Option.some.inj read) with
  | inl all =>
    rw [all]
    exact ⟨fun _ ↦ rfl, fun _ goes ↦ nomatch goes⟩
  | inr rest =>
    obtain ⟨_, _, grown, opened⟩ := rest
    obtain ⟨next, goes, issued⟩ := opened.next
    refine ⟨fun ended ↦ absurd (ended.symm.trans goes) (Option.some_ne_none next).symm, ?_⟩
    intro next' goes' rest reads
    cases Option.some.inj (goes.symm.trans goes')
    have length : page.items.length = grown.limit := by
      rw [opened.page_items, List.length_take]
      exact min_eq_left opened.limit.le
    have behind := reads_items reads (ready.call _) opened.held issued
    rw [behind, opened.items, length, opened.page_items, List.take_append_drop]

theorem issued_of_ready {next : Continuation} (goes : page.next = some next) :
    ∃ value, clock = some value ∧ Held ports (engine.call ports (.firstPage clock input)).2
      next.cursor input.items page.items.length input.audience
      (engine.now value + ports.options.cursorTtlMs) := by
  cases (firstPage_steps ready.mono rfl).2 page (Option.some.inj read) with
  | inl all =>
    rw [all] at goes
    cases goes
  | inr rest =>
    obtain ⟨value, time, grown, opened⟩ := rest
    obtain ⟨next', goes', issued⟩ := opened.next
    cases Option.some.inj (goes.symm.trans goes')
    refine ⟨value, time, grown, opened.held, issued, opened.items, ?_, opened.expires⟩
    rw [Snapshot.audience, opened.view, opened.epoch, opened.projection]
    rfl

end

theorem guarded_of_ready {snapshot : Snapshot α} {offset : ℕ}
    {token : List Char} (inside : snapshot ∈ engine.snapshots)
    (issued : Issued ports snapshot offset token) {later : Engine α}
    (run : Run ports engine later) {input : ReadContinuationInput} (cursor : input.token = token)
    (read : (later.call ports (.continuePage clock input)).1 = some (.ok page)) :
    input.audience = snapshot.audience ∧
      (∃ value, clock = some value ∧ later.now value < snapshot.expiresAt) ∧
      page.items = (snapshot.items.drop offset).take (input.limit.getD snapshot.limit) ∧
      ∀ next, page.next = some next → Held ports
        (later.call ports (.continuePage clock input)).2 next.cursor snapshot.items
        (offset + page.items.length) snapshot.audience snapshot.expiresAt := by
  obtain ⟨value, time, early, view, epoch, projection, held, grown, _, same, kept, spec⟩ :=
    served_later ready run inside issued cursor read
  have items : held.items = snapshot.items := by rw [same]
  refine ⟨?_, ⟨value, time, early⟩, items ▸ spec.items, fun next goes ↦ ?_⟩
  · rw [ReadContinuationInput.audience, Snapshot.audience, view, epoch, projection]
  · obtain ⟨_, next_issued⟩ := spec.more next goes
    have same' := same.trans spec.same
    refine ⟨grown, kept, next_issued, ?_, ?_, ?_⟩
    · rw [same']
    · rw [same']
      rfl
    · rw [same']

end

/-- The law holds in every state that calls reach. -/
theorem traversal_law (run : Run ports (Engine.created α) engine) : TraversalLaw ports engine := by
  have ready := ready_created.run run
  constructor
  case whole =>
    intro clock input page read
    exact whole_of_ready ready read
  case issued =>
    intro clock input page read next goes
    exact issued_of_ready ready read goes
  case guarded =>
    rintro token items offset audience expiresAt ⟨snapshot, inside, issued, rfl, rfl, rfl⟩
    intro later run clock input page cursor read
    obtain ⟨names, time, served, onward⟩ := guarded_of_ready ready inside issued run cursor read
    refine ⟨names, time, ⟨_, served, fun limit chosen ↦ ?_⟩, onward⟩
    rw [Option.mem_def.mp chosen, Option.getD_some]
  case again =>
    rintro token items offset audience expiresAt ⟨snapshot, inside, issued, -, -, -⟩
    intro later later' run run' clock clock' input input' page page' cursor cursor' limits read
      read'
    obtain ⟨_, _, first, _⟩ := guarded_of_ready ready inside issued run cursor read
    obtain ⟨_, _, second, _⟩ := guarded_of_ready ready inside issued run' cursor' read'
    rw [first, second, limits]
  case served =>
    intro snapshot inside bound offset token issued later sparing opened value early input continues
    have bounded : snapshot.items.length ≤ 36 ^ 7 := bound.le.trans (by decide)
    exact served_of_sparing ready inside issued bounded sparing opened early continues

def identityChar (digit : ℕ) : Char :=
  if digit < 36 then digitChar digit
  else if digit < 62 then Char.ofNat (29 + digit)
  else if digit = 62 then '-' else '_'

def identityValue (letter : Char) : ℕ :=
  if letter = '-' then 62 else if letter = '_' then 63
  else if letter.isUpper then letter.toNat - 29 else digitValue letter

variable {digit : ℕ}

theorem identityValue_identityChar (h : digit < 64) :
    identityValue (identityChar digit) = digit := by
  revert digit
  decide

theorem isTokenChar_identityChar (h : digit < 64) : isTokenChar (identityChar digit) = true := by
  revert digit
  decide

def identityText (sequence : ℕ) : List Char :=
  (List.range 8).map fun place ↦ identityChar (sequence / 64 ^ place % 64)

theorem identityText_injective {sequence sequence' : ℕ} (bound : sequence < 281474976710656)
    (bound' : sequence' < 281474976710656) (h : identityText sequence = identityText sequence') :
    sequence = sequence' := by
  have digits (place : ℕ) (inside : place < 8) :
      sequence / 64 ^ place % 64 = sequence' / 64 ^ place % 64 := by
    have same := List.map_inj_left.mp h place (List.mem_range.mpr inside)
    have values := congrArg identityValue same
    rwa [identityValue_identityChar (Nat.mod_lt _ (by decide)),
      identityValue_identityChar (Nat.mod_lt _ (by decide))] at values
  have := digits 0 (by decide)
  have := digits 1 (by decide)
  have := digits 2 (by decide)
  have := digits 3 (by decide)
  have := digits 4 (by decide)
  have := digits 5 (by decide)
  have := digits 6 (by decide)
  have := digits 7 (by decide)
  omega

/-- Fixed pages of one item, with a token of its own for each call. -/
def singlePorts : Ports ℕ where
  options :=
    { resizable := false, defaultPageItems := 1, maxPageItems := 2, cursorTtlMs := 10
      retainedStateCapacity := 8, maxRetainedCursorPositionsPerSnapshot := 4
      retainedSnapshotByteCapacity := 64, retainedSnapshotNodeCapacity := 64
      maxOpaqueTokenLength := 64, tokenGenerationAttempts := 4, defaultPageItems_pos := Nat.one_pos
      defaultPageItems_le := by decide, cursorTtlMs_pos := by decide }
  entropy turn _ := some (List.replicate (turn + 1) 'a')
  entropy_injective h h' := by
    have lengths := congrArg List.length (Option.some.inj (h.trans h'.symm))
    rw [List.length_replicate, List.length_replicate] at lengths
    omega
  identity := identityText
  identity_injective := identityText_injective
  length_identity _ := by rw [identityText, List.length_map, List.length_range]
  plain_identity sequence letter inside := by
    obtain ⟨place, _, same⟩ := List.mem_map.mp inside
    rw [← same]
    exact isTokenChar_identityChar (Nat.mod_lt _ (by decide))
  tag _ _ _ := List.replicate 22 'A'
  length_tag _ _ _ := List.length_replicate
  plain_tag _ _ _ letter inside := by
    rw [List.eq_of_mem_replicate inside]
    decide
  weigh items := some (items.length, items.length)
  validateContinuationUrl url := some url

def pairRequest : Call ℕ := .firstPage (some 5)
  { items := [7, 9], limit := none, authorizationView := "view", scopeEpoch := "epoch"
    projection := "beads", continuationUrl := "/beads" }

/-- The second page, behind the token of the first call. -/
def pairContinuation : Call ℕ := .continuePage (some 6)
  { limit := none, token := ['a'], authorizationView := "view", scopeEpoch := "epoch"
    projection := "beads" }

theorem traversal_law_pair :
    TraversalLaw singlePorts ((Engine.created ℕ).call singlePorts pairRequest).2 ∧
      ((Engine.created ℕ).call singlePorts pairRequest).1 =
        some (.ok ⟨[7], some ⟨"/beads", ['a'], none⟩⟩) ∧
      (((Engine.created ℕ).call singlePorts pairRequest).2.call singlePorts pairContinuation).1 =
        some (.ok ⟨[9], none⟩) :=
  ⟨traversal_law (.called pairRequest .refl), rfl, rfl⟩

end Law

end Bdp.Pagination
