import Bdp.Evaluator.SnapshotLaw

/-!
# Snapshots over runs

A snapshot is read page by page while the owner goes on: Resources change, other snapshots are
captured, and snapshots are expired. Its pages show the rows of its capture up to its expiry, and
each of its tokens says that it has expired from then on.
-/

namespace Bdp.Evaluator.Snapshot

open Relation
open Recovery (ResourceKind)
open Transaction (TransactionReadContext maxSafeInteger stripPrefix splitUnderscore readDecimal)
open JsonParts
open Bdp.Except (bind_eq_ok ok_bind)

section Expiry

variable (ports : SnapshotPorts)

/-- The disposition of a snapshot that has expired. -/
def spent (id : String) (d : Disposition) : Disposition :=
  sealDisposition ports id { d with expired := true }

/-- Expire a snapshot: its detail is deleted, its identity stays issued. -/
def SnapshotTables.expireOne (context : TransactionReadContext) (tables : SnapshotTables)
    (id : String) : Except SnapshotError SnapshotTables := do
  check (isIdentity id = true) (.integrity "expiry identity")
  let found ← tables.disposition ports context id
  let d ← require found (.integrity "missing disposition")
  pure
    { tables with
      snapshots := tables.snapshots.map fun row ↦
        (row.1, if row.1 = id then spent ports id d else row.2)
      records := tables.records.filter fun row ↦ row.snapshot != id
      pages := tables.pages.filter fun row ↦ row.1 != id }

def SnapshotTables.expire (tables : SnapshotTables) (now : ℤ) (context : TransactionReadContext) :
    Except SnapshotError SnapshotTables := do
  let _ ← tables.ledgerBounds
  let candidates := tables.snapshots.filter fun row ↦ !row.2.expired && decide (row.2.expires < now)
  check (candidates.length ≤ issuedHandles) (.integrity "expiry ledger bound")
  (candidates.map Prod.fst).foldlM (SnapshotTables.expireOne ports context) tables

end Expiry

section Tokens

/-- The ordinal in `/^sp_(0|[1-9][0-9]{0,3})_([A-Za-z0-9_-]{43})$/`, of at most 52 letters. -/
def tokenOrdinal (token : String) : Option ℕ := do
  let rest ← stripPrefix "sp_".toList token.toList
  let ordinal ← readDecimal (splitUnderscore rest).1
  if token.length ≤ 52 ∧ ordinal < 10000 ∧ (splitUnderscore rest).2.length = 43 ∧
      (splitUnderscore rest).2.all isPlain = true then
    some ordinal
  else none

def Disposition.pagesOf (d : Disposition) : ResourceKind → ℕ
  | .bead => d.pageCounts.1
  | .link => d.pageCounts.2

variable (ports : SnapshotPorts) (config : GraphConfiguration) (plane : ReadPlane)
  (member : MemberContext)

/-- The page behind a token. The token is recognized before the view and the expiry are; what
`resolve` checks in front of these has then passed. -/
def SnapshotTables.readPage (tables : SnapshotTables) (id : String) (kind : ResourceKind)
    (token : String) (now : ℤ) (context : TransactionReadContext) :
    Except SnapshotError SnapshotPage := do
  check (isIdentity id = true) (.failure .resourceNotFound none)
  let found ← tables.disposition ports context id
  let d ← require found (.failure .resourceNotFound none)
  let ordinal ← require (tokenOrdinal token) (.failure .resourceNotFound none)
  check (ordinal < d.pagesOf kind ∧ token = pageToken ports d.seed id kind ordinal)
    (.failure .resourceNotFound none)
  let resolved ← tables.resolve ports id now context
  tables.page ports config plane member id resolved.2 kind (some token)

end Tokens

/-- What the owner does with the tables, with no expiry after an instant. -/
inductive SnapshotStep (ports : SnapshotPorts) (latest : ℤ) : SnapshotTables → SnapshotTables → Prop
  | changed {tables : SnapshotTables} (graph : Graph) (visible : Bool) :
      SnapshotStep ports latest tables { tables with graph, visible }
  | expired {tables after : SnapshotTables} {now : ℤ} {context : TransactionReadContext}
      (early : now ≤ latest) (expired : tables.expire ports now context = .ok after) :
      SnapshotStep ports latest tables after
  | captured {tables after : SnapshotTables} {now : ℤ} {context : TransactionReadContext}
      {config : GraphConfiguration} {plane : ReadPlane} {member : MemberContext} {id seed : String}
      {manifest : SnapshotManifest} (drawn : Drawn ports tables id seed)
      (captured : tables.capture ports config plane member now context id seed =
        .ok (manifest, after)) : SnapshotStep ports latest tables after

abbrev SnapshotRun (ports : SnapshotPorts) (latest : ℤ) :
    SnapshotTables → SnapshotTables → Prop := ReflTransGen (SnapshotStep ports latest)

variable {ports : SnapshotPorts} {config : GraphConfiguration} {plane : ReadPlane}
  {member : MemberContext} {tables after later : SnapshotTables} {prepared : Prepared}
  {context reader : TransactionReadContext} {now time latest : ℤ} {id seed : String}
  {kind : ResourceKind} {d : Disposition} {manifest : SnapshotManifest}

section Steps

/-- The same rows of a snapshot. -/
structure SameRows (id : String) (tables later : SnapshotTables) : Prop where
  issued : later.snapshots.lookup id = tables.snapshots.lookup id
  records : ∀ kind, later.recordsOf id kind = tables.recordsOf id kind
  pages : later.pages.filter (fun row ↦ row.1 == id) = tables.pages.filter fun row ↦ row.1 == id

theorem SameRows.trans (same : SameRows id tables after) (next : SameRows id after later) :
    SameRows id tables later :=
  ⟨next.issued.trans same.issued, fun kind ↦ (next.records kind).trans (same.records kind),
    next.pages.trans same.pages⟩

theorem SameRows.readPage_eq (same : SameRows id tables later) (token : String) :
    later.readPage ports config plane member id kind token time reader =
      tables.readPage ports config plane member id kind token time reader := by
  simp only [SnapshotTables.readPage, SnapshotTables.resolve, SnapshotTables.disposition,
    SnapshotTables.plan, SnapshotTables.page, same.issued, same.records, same.pages]

theorem lookup_map {β : Type} (change : String → β → β) (rows : List (String × β)) :
    (rows.map fun row ↦ (row.1, change row.1 row.2)).lookup id =
      (rows.lookup id).map (change id) := by
  induction rows with
  | nil => rfl
  | cons row rows ih =>
    rw [List.map_cons, List.lookup_cons, List.lookup_cons, ih]
    cases same : id == row.1 with
    | true => rw [← eq_of_beq same, Option.map_some]
    | false => rfl

section

variable (issued : tables.snapshots.lookup id = some d)
include issued

theorem expireOne_spec {other : String} (h : tables.expireOne ports context other = .ok after) :
    after.snapshots.map Prod.fst = tables.snapshots.map Prod.fst ∧
      (other ≠ id → SameRows id tables after) ∧
      (other = id → after.snapshots.lookup id = some (spent ports id d)) := by
  unfold SnapshotTables.expireOne at h
  rw [check_bind_eq_ok, bind_eq_ok] at h
  obtain ⟨-, found, read, h⟩ := h
  rw [bind_eq_ok] at h
  obtain ⟨e, required, h⟩ := h
  rw [Except.pure_eq_ok_iff] at h
  rw [require_eq_ok] at required
  subst h required
  have replaced := @lookup_map id _ (fun name old ↦ if name = other then spent ports other e else old)
    tables.snapshots
  rw [issued, Option.map_some] at replaced
  refine ⟨?_, fun ne ↦ ⟨?_, fun kind ↦ ?_, ?_⟩, ?_⟩
  · rw [List.map_map]
    rfl
  · rw [replaced, if_neg ne.symm, issued]
  · rw [SnapshotTables.recordsOf, List.filter_filter]
    apply List.filter_congr
    intro row _
    by_cases same : row.snapshot = id <;> simp [same, ne.symm]
  · rw [List.filter_filter]
    apply List.filter_congr
    intro row _
    by_cases same : row.1 = id <;> simp [same, ne.symm]
  · rintro rfl
    rw [SnapshotTables.disposition, issued] at read
    dsimp only at read
    rw [bind_eq_ok] at read
    obtain ⟨-, -, read⟩ := read
    cases read
    rw [replaced, if_pos rfl]

theorem foldlM_expireOne {ids : List String}
    (h : ids.foldlM (SnapshotTables.expireOne ports context) tables = .ok after) :
    after.snapshots.map Prod.fst = tables.snapshots.map Prod.fst ∧ (SameRows id tables after ∨
        id ∈ ids ∧ after.snapshots.lookup id = some (spent ports id d)) := by
  induction ids generalizing tables d with
  | nil =>
    cases h
    exact ⟨rfl, .inl ⟨rfl, fun _ ↦ rfl, rfl⟩⟩
  | cons other ids ih =>
    rw [List.foldlM_cons, bind_eq_ok] at h
    obtain ⟨next, one, rest⟩ := h
    obtain ⟨names, apart, here⟩ := expireOne_spec issued one
    by_cases same : other = id
    · -- A second expiry of the snapshot would write the same disposition.
      have closed := here same
      obtain ⟨names', kept | ⟨-, again⟩⟩ := ih closed rest
      · exact ⟨names'.trans names, .inr ⟨by simp [same], kept.issued.trans closed⟩⟩
      · exact ⟨names'.trans names, .inr ⟨by simp [same], again⟩⟩
    · have kept := apart same
      obtain ⟨names', kept' | ⟨inside, closed⟩⟩ := ih (kept.issued.trans issued) rest
      · exact ⟨names'.trans names, .inl (kept.trans kept')⟩
      · exact ⟨names'.trans names, .inr ⟨List.mem_cons_of_mem _ inside, closed⟩⟩

end

theorem capture_written (drawn : Drawn ports tables id seed)
    (h : tables.capture ports config plane member now context id seed = .ok (manifest, after)) :
    ∃ prepared, tables.prepare ports config plane member id seed now context = .ok prepared ∧
      bytes (dispositionText (prepared.disposition ports id seed now context)) +
        bytes id.toList ≤ dispositionBytes ∧
      after = prepared.written ports tables id seed
        (prepared.disposition ports id seed now context) := by
  unfold SnapshotTables.capture SnapshotTables.captureWith at h
  rw [Option.getD_some] at h
  dsimp only at h
  rw [bind_eq_ok] at h
  obtain ⟨prepared, prepare, h⟩ := h
  rw [check_bind_eq_ok] at h
  obtain ⟨bound, h⟩ := h
  rw [Option.isSome_some, if_pos rfl, retain_eq_ok drawn (prepare_made prepare), ok_bind,
    bind_eq_ok] at h
  obtain ⟨written, -, h⟩ := h
  cases h
  exact ⟨prepared, prepare, bound, rfl⟩

theorem sameRows_written {other otherSeed : String} {e : Disposition}
    (issued : tables.snapshots.lookup id = some d) (ne : other ≠ id) :
    SameRows id tables (prepared.written ports tables other otherSeed e) := by
  constructor
  · rw [Prepared.written, List.lookup_append, issued]
    rfl
  · intro kind
    have none : ((prepared.recordRows other).filter fun row ↦
        row.snapshot == id && row.kind == kind) = [] := by
      apply List.filter_eq_nil_iff.mpr
      intro row held
      simp [snapshot_recordRows held, ne]
    rw [SnapshotTables.recordsOf, Prepared.written, List.filter_append, none, List.append_nil]
    rfl
  · have none : (((prepared.ranges ports other otherSeed).map fun range ↦ (other, range)).filter
        fun row ↦ row.1 == id) = [] := by
      simp [List.filter_map, Function.comp_def, ne]
    rw [Prepared.written, List.filter_append, none, List.append_nil]

theorem Drawn.unique_written (drawn : Drawn ports tables id seed)
    (unique : (tables.snapshots.map Prod.fst).Nodup) :
    ((prepared.written ports tables id seed d).snapshots.map Prod.fst).Nodup := by
  rw [Prepared.written, List.map_append, List.map_singleton, ← List.concat_eq_append]
  exact unique.concat drawn.fresh

/-- What steps leave of an issued snapshot: its rows, unless it was live and was expired after its
time; its disposition then says so. -/
def Leaves (ports : SnapshotPorts) (latest : ℤ) (id : String) (d : Disposition)
    (tables later : SnapshotTables) : Prop :=
  (later.snapshots.map Prod.fst).Nodup ∧ (SameRows id tables later ∨
    d.expired = false ∧ d.expires < latest ∧ later.snapshots.lookup id = some (spent ports id d))

theorem SnapshotStep.leaves (step : SnapshotStep ports latest tables later)
    (unique : (tables.snapshots.map Prod.fst).Nodup)
    (issued : tables.snapshots.lookup id = some d) : Leaves ports latest id d tables later := by
  cases step with
  | changed graph visible => exact ⟨unique, .inl ⟨rfl, fun _ ↦ rfl, rfl⟩⟩
  | expired early expired =>
    unfold SnapshotTables.expire at expired
    rw [bind_eq_ok] at expired
    obtain ⟨-, -, expired⟩ := expired
    rw [check_bind_eq_ok] at expired
    obtain ⟨names, kept | ⟨inside, closed⟩⟩ := foldlM_expireOne issued expired.2
    · exact ⟨names ▸ unique, .inl kept⟩
    · obtain ⟨row, candidate, rfl⟩ := List.mem_map.mp inside
      obtain ⟨held, old⟩ := List.mem_filter.mp candidate
      -- Identities are unique, so that the candidate is the snapshot itself.
      have same : row.2 = d := by
        obtain ⟨front, back, split, ahead⟩ := List.lookup_eq_some_iff.mp issued
        have found : (row.1, d) ∈ tables.snapshots := by simp [split]
        exact congrArg Prod.snd (List.inj_on_of_nodup_map unique held found rfl)
      rw [same, Bool.and_eq_true, decide_eq_true_iff] at old
      exact ⟨names ▸ unique, .inr ⟨by simpa using old.1, old.2.trans_le early, closed⟩⟩
  | captured drawn captured =>
    obtain ⟨prepared, -, -, rfl⟩ := capture_written drawn captured
    refine ⟨drawn.unique_written unique, .inl (sameRows_written issued ?_)⟩
    rintro rfl
    rw [lookup_of_not_mem drawn.fresh] at issued
    cases issued

end Steps

section Runs

theorem SnapshotRun.leaves (run : SnapshotRun ports latest tables later)
    (unique : (tables.snapshots.map Prod.fst).Nodup)
    (issued : tables.snapshots.lookup id = some d) : Leaves ports latest id d tables later := by
  induction run with
  | refl => exact ⟨unique, .inl ⟨rfl, fun _ ↦ rfl, rfl⟩⟩
  | tail _ step ih =>
    obtain ⟨unique, kept | ⟨live, late, closed⟩⟩ := ih
    · obtain ⟨unique, same | gone⟩ := step.leaves unique (kept.issued.trans issued)
      · exact ⟨unique, .inl (kept.trans same)⟩
      · exact ⟨unique, .inr gone⟩
    · obtain ⟨unique, same | ⟨again, -⟩⟩ := step.leaves unique closed
      · exact ⟨unique, .inr ⟨live, late, same.issued.trans closed⟩⟩
      · cases again

end Runs

section Pages

variable {α : Type} {cuts : List PageCut} {cut : PageCut} {ordinal start stop : ℕ}

theorem Chained.flatMap_slice (chain : Chained ordinal start cuts stop)
    (ordered : ∀ cut ∈ cuts, cut.start ≤ cut.stop) (items : List α) :
    start ≤ stop ∧ (cuts.flatMap fun cut ↦ cut.slice items) =
      (items.drop start).take (stop - start) := by
  induction cuts generalizing ordinal start with
  | nil =>
    obtain rfl : start = stop := chain
    exact ⟨le_rfl, by simp⟩
  | cons first cuts ih =>
    obtain ⟨-, rfl, behind⟩ := chain
    obtain ⟨above, rest⟩ := ih behind fun cut held ↦ ordered cut (List.mem_cons_of_mem _ held)
    have below := ordered first List.mem_cons_self
    refine ⟨below.trans above, ?_⟩
    have width : stop - first.start = first.stop - first.start + (stop - first.stop) := by omega
    have middle : first.start + (first.stop - first.start) = first.stop := by omega
    rw [List.flatMap_cons, rest, PageCut.slice, width, List.take_add, List.drop_drop, middle]

theorem tokenOrdinal_pageToken (small : ordinal < 10000) :
    tokenOrdinal (pageToken ports seed id kind ordinal) = some ordinal := by
  have width := toDigits_le_four small
  have length : (pageToken ports seed id kind ordinal).toList.length =
      (Nat.toDigits 10 ordinal).length + 47 := length_pageToken
  have plain : (ports.tag seed (arrayText [stringText "hmac-sha256-ordinal-1", stringText id,
      stringText (kindText kind), numberText ordinal])).all isPlain = true :=
    List.all_eq_true.mpr (ports.plain_tag _ _)
  rw [String.length_toList] at length
  rw [tokenOrdinal, length]
  simp only [pageToken, String.toList_ofList, Transaction.stripPrefix_append,
    Transaction.splitUnderscore_append Nat.underscore_not_in_toDigits,
    Transaction.readDecimal_toDigits, Option.bind_eq_bind, Option.bind_some]
  rw [if_pos ⟨by omega, small, ports.length_tag _ _, plain⟩]

end Pages

section Reading

/-- A later observation in the epoch and under the view of another. -/
structure Follows (context reader : TransactionReadContext) : Prop where
  epoch : reader.scopeEpoch = context.scopeEpoch
  view : reader.authorizationView = context.authorizationView
  position : context.scopePosition ≤ reader.scopePosition

theorem checkDisposition_follows (follows : Follows context reader)
    (h : checkDisposition ports context id d = .ok ()) :
    checkDisposition ports reader id d = .ok () := by
  unfold checkDisposition at h ⊢
  simp only [check_bind_eq_ok] at h ⊢
  obtain ⟨bound, sealed, secret, pages, context_kept, position, rest⟩ := h
  rw [follows.epoch, follows.view]
  exact ⟨bound, sealed, secret, pages, context_kept,
    ⟨position.1, position.2.trans follows.position⟩, rest⟩

theorem checkDisposition_spent (live : d.expired = false)
    (h : checkDisposition ports context id d = .ok ()) :
    checkDisposition ports context id (spent ports id d) = .ok () := by
  unfold checkDisposition at h ⊢
  simp only [check_bind_eq_ok] at h ⊢
  obtain ⟨bound, sealed, rest⟩ := h
  refine ⟨?_, rfl, rest⟩
  have marked : bytes (boolText true) ≤ bytes (boolText d.expired) := by
    rw [live]
    decide
  have binding : bytes (stringText d.binding) = 66 := by
    rw [sealed]
    exact bytes_hex64 (ports.isHex64_hash _)
  have binding' : bytes (stringText (spent ports id d).binding) = 66 :=
    bytes_hex64 (ports.isHex64_hash _)
  refine le_trans (Nat.add_le_add_right ?_ _) bound
  simp only [dispositionText, unsignedMembers, bytes_objectText, List.cons_append, List.nil_append,
    List.map_cons, List.map_nil, List.sum_cons, List.sum_nil, bytes_memberText, binding, binding',
    List.length_cons, List.length_nil]
  simp only [spent, sealDisposition]
  omega

theorem readPage_issued {ordinal : ℕ} (issued : tables.snapshots.lookup id = some d)
    (checked : checkDisposition ports reader id d = .ok ()) (identity : isIdentity id = true)
    (drawn : d.seed = seed) (inside : ordinal < d.pagesOf kind) (small : ordinal < 10000) :
    tables.readPage ports config plane member id kind (pageToken ports seed id kind ordinal) time
      reader = (do
        check (d.view = reader.authorizationView) (.failure .foreignView none)
        check (d.expired = false ∧ time ≤ d.expires) (.failure .cursorExpired none)
        let ranges ← tables.plan ports id d
        tables.page ports config plane member id ranges kind
          (some (pageToken ports seed id kind ordinal))) := by
  unfold SnapshotTables.readPage SnapshotTables.resolve SnapshotTables.disposition
  rw [check_of identity, ok_bind, issued]
  dsimp only
  rw [checked, ok_bind, Except.pure_eq_ok, ok_bind, require_some, ok_bind,
    tokenOrdinal_pageToken small, require_some, ok_bind, check_of ⟨inside, drawn ▸ rfl⟩]
  simp only [ok_bind, require_some]
  by_cases view : d.view = reader.authorizationView
  · by_cases live : d.expired = false ∧ time ≤ d.expires
    · rw [check_of view, check_of live]
      cases tables.plan ports id d <;> rfl
    · rw [check_of view, check_of_not live]
      rfl
  · rw [check_of_not view]
    rfl

variable {cut : PageCut}

theorem ordinal_inside (made : prepared.Made ports config plane member tables id seed)
    (inside : cut ∈ prepared.cuts kind) :
    cut.ordinal < (prepared.disposition ports id seed now context).pagesOf kind ∧
      cut.ordinal < 10000 := by
  obtain ⟨index, bound, found⟩ := List.getElem_of_mem inside
  have ordinal := (made.chain kind).ordinal_eq (found ▸ List.getElem?_eq_getElem bound)
  have pages : (prepared.disposition ports id seed now context).pagesOf kind =
      (prepared.cuts kind).length := by
    cases kind <;> rfl
  have few := cuts_length_le made kind
  have part : (stream kind prepared.captured).length ≤ prepared.captured.length :=
    List.length_filter_le _ _
  have limit := made.count
  unfold resourcesLimit at limit
  omega

end Reading

section Law

/-- The tokens that a snapshot has issued for the pages of a kind, in their order. -/
def SnapshotTables.issuedTokens (tables : SnapshotTables) (id : String) (kind : ResourceKind) :
    List String :=
  (ofKind kind ((tables.pages.filter fun row ↦ row.1 == id).map Prod.snd)).map PageRange.token

def SnapshotManifest.first (manifest : SnapshotManifest) : ResourceKind → SnapshotPage
  | .bead => manifest.beads
  | .link => manifest.links

/-- The pages of a kind, as a capture leaves them. -/
def servedPages (ports : SnapshotPorts) (config : GraphConfiguration) (prepared : Prepared)
    (id seed : String) (kind : ResourceKind) : List SnapshotPage :=
  (prepared.cuts kind).map (servedPage ports config id seed kind prepared)

theorem prepare_read (h : tables.prepare ports config plane member id seed now context =
    .ok prepared) :
    readRecords ports config plane member tables.rows 0 = .ok prepared.captured := by
  unfold SnapshotTables.prepare at h
  simp only [bind_eq_ok, Except.pure_eq_ok_iff] at h
  obtain ⟨-, -, -, -, -, -, -, -, -, -, -, -, captured, read, -, -, -, -, -, -, -, -, -, -, rfl⟩ := h
  exact read

section

variable (made : prepared.Made ports config plane member tables id seed)
include made

theorem servedPages_items :
    (servedPages ports config prepared id seed kind).flatMap SnapshotPage.items =
      (stream kind prepared.captured).map Captured.value := by
  obtain ⟨-, joined⟩ := (made.chain kind).flatMap_slice (fun cut held ↦ (made.each kind cut held).ordered)
    ((stream kind prepared.captured).map Captured.value)
  rw [servedPages, List.flatMap_map]
  refine joined.trans ?_
  rw [List.drop_zero, bodiesOf, List.length_map]
  exact List.take_of_length_le (by rw [List.length_map]; exact le_rfl)

theorem issuedTokens_written (drawn : Drawn ports tables id seed) :
    (prepared.written ports tables id seed d).issuedTokens id kind =
      (prepared.cuts kind).map fun cut ↦ pageToken ports seed id kind cut.ordinal := by
  have same : ((prepared.ranges ports id seed).map fun range ↦ (id, range)).map Prod.snd =
      prepared.ranges ports id seed := by
    rw [List.map_map]
    exact List.map_id _
  rw [SnapshotTables.issuedTokens, pages_written drawn made, same, ofKind_ranges, List.map_map]
  rfl

theorem servedPages_next {index : ℕ} {page : SnapshotPage}
    (held : (servedPages ports config prepared id seed kind)[index]? = some page) :
    page.next = ((prepared.cuts kind).map fun cut ↦
      pageToken ports seed id kind cut.ordinal)[index + 1]?.map fun token ↦
        transactionSnapshotUrl config.scope.href id (some (kind, token)) := by
  rw [servedPages, List.getElem?_map, Option.map_eq_some_iff] at held
  obtain ⟨cut, inside, rfl⟩ := held
  have ordinal := (made.chain kind).ordinal_eq inside
  rw [Nat.zero_add] at ordinal
  rw [servedPage, nextRange, ordinal, List.getElem?_map, Option.map_map, Option.map_map]
  rfl

end

theorem manifest_first (drawn : Drawn ports tables id seed)
    (position : context.scopePosition ≤ maxSafeInteger)
    (instant : 0 ≤ now ∧ now ≤ 8640000000000000 - Transaction.day)
    (prepare : tables.prepare ports config plane member id seed now context = .ok prepared)
    (bound : bytes (dispositionText (prepared.disposition ports id seed now context)) +
      bytes id.toList ≤ dispositionBytes)
    (captured : tables.capture ports config plane member now context id seed =
      .ok (manifest, after)) (kind : ResourceKind) :
    (servedPages ports config prepared id seed kind).head? = some (manifest.first kind) := by
  have made := prepare_made prepare
  obtain ⟨bead, first_bead⟩ := exists_first made .bead
  obtain ⟨link, first_link⟩ := exists_first made .link
  have prepared_eq := capture_prepared drawn position instant prepare bound first_bead first_link
  rw [prepared_eq.2, check_bind_eq_ok] at captured
  obtain ⟨-, captured⟩ := captured
  cases captured
  rw [servedPages, List.head?_map, List.head?_eq_getElem?]
  cases kind with
  | bead =>
    rw [first_bead.1]
    rfl
  | link =>
    rw [first_link.1]
    rfl

/-- What a capture promises for every later run: the tokens that it issued lead through pages that
hold every record it read once and in order, from the page of the manifest on and up to the expiry
of the snapshot; after it every token says so. -/
def Isolated (ports : SnapshotPorts) (config : GraphConfiguration) (plane : ReadPlane)
    (member : MemberContext) (tables : SnapshotTables) (now : ℤ) (context : TransactionReadContext)
    (id : String) (manifest : SnapshotManifest) (after : SnapshotTables) : Prop :=
  ∃ rows, readRecords ports config plane member tables.rows 0 = .ok rows ∧
    ∀ kind, ∃ pages : List SnapshotPage,
      pages.head? = some (manifest.first kind) ∧
      pages.flatMap SnapshotPage.items = (stream kind rows).map Captured.value ∧
      (∀ index page, pages[index]? = some page →
        page.next = (after.issuedTokens id kind)[index + 1]?.map fun token ↦
          transactionSnapshotUrl config.scope.href id (some (kind, token))) ∧
      ∀ latest later, SnapshotRun ports latest after later → ∀ time reader,
        Follows context reader →
        (latest ≤ now + lifetimeMs → time ≤ now + lifetimeMs →
          (after.issuedTokens id kind).mapM (fun token ↦
            later.readPage ports config plane member id kind token time reader) = .ok pages) ∧
        (now + lifetimeMs < time → ∀ token ∈ after.issuedTokens id kind,
          later.readPage ports config plane member id kind token time reader =
            .error (.failure .cursorExpired none))

/-- A snapshot is isolated from every later run, in which resources change, other snapshots are
captured and snapshots are expired. -/
theorem snapshot_isolated (unique : (tables.snapshots.map Prod.fst).Nodup)
    (drawn : Drawn ports tables id seed) (position : context.scopePosition ≤ maxSafeInteger)
    (instant : 0 ≤ now ∧ now ≤ 8640000000000000 - Transaction.day)
    (captured : tables.capture ports config plane member now context id seed =
      .ok (manifest, after)) :
    Isolated ports config plane member tables now context id manifest after := by
  obtain ⟨prepared, prepare, bound, written⟩ := capture_written drawn captured
  have made := prepare_made prepare
  have first := manifest_first drawn position instant prepare bound captured
  have inside {kind : ResourceKind} {cut : PageCut} (held : cut ∈ prepared.cuts kind) :
      cut.ordinal < (prepared.disposition ports id seed now context).pagesOf kind ∧
        cut.ordinal < 10000 := ordinal_inside made held
  have checked := checkDisposition_eq_ok drawn made position instant rfl bound
  have issued : (prepared.written ports tables id seed (prepared.disposition ports id seed now
      context)).snapshots.lookup id = some (prepared.disposition ports id seed now context) :=
    disposition_written drawn
  have plan := plan_eq_ok drawn made (rfl : prepared.disposition ports id seed now context = _)
  have seed_eq : (prepared.disposition ports id seed now context).seed = seed := rfl
  have view : (prepared.disposition ports id seed now context).view =
    context.authorizationView := rfl
  have live : (prepared.disposition ports id seed now context).expired = false := rfl
  have expires : (prepared.disposition ports id seed now context).expires = now + lifetimeMs := rfl
  generalize prepared.disposition ports id seed now context = d at *
  refine ⟨prepared.captured, prepare_read prepare, fun kind ↦ ?_⟩
  have tokens : after.issuedTokens id kind =
      (prepared.cuts kind).map fun cut ↦ pageToken ports seed id kind cut.ordinal :=
    written ▸ issuedTokens_written made drawn
  rw [tokens]
  refine ⟨servedPages ports config prepared id seed kind, first kind, servedPages_items made,
    ?_, ?_⟩
  · intro index page held
    exact servedPages_next made held
  intro latest later run time reader follows
  have checked' := checkDisposition_follows follows checked
  have shown : d.view = reader.authorizationView := view.trans follows.view.symm
  rw [← written] at issued plan
  have unique' : (after.snapshots.map Prod.fst).Nodup := written ▸ drawn.unique_written unique
  rw [← expires]
  obtain ⟨-, kept | ⟨-, late, closed⟩⟩ := SnapshotRun.leaves run unique' issued
  · refine ⟨fun _ early ↦ ?_, fun past token named ↦ ?_⟩
    · rw [List.mapM_map, servedPages]
      refine mapM_ok fun cut held ↦ ?_
      obtain ⟨below, small⟩ := inside held
      rw [Function.comp_apply, kept.readPage_eq, readPage_issued issued checked' drawn.identity
        seed_eq below small, check_of shown, ok_bind, check_of ⟨live, early⟩, ok_bind,
        plan, ok_bind, written]
      exact page_written drawn made held (pickRange_token (made.chain kind) held)
    · obtain ⟨cut, held, rfl⟩ := List.mem_map.mp named
      obtain ⟨below, small⟩ := inside held
      have passed : ¬ (d.expired = false ∧ time ≤ d.expires) := fun h ↦ absurd past (not_lt.mpr h.2)
      rw [kept.readPage_eq, readPage_issued issued checked' drawn.identity seed_eq below small,
        check_of shown, ok_bind, check_of_not passed]
      rfl
  · refine ⟨fun early _ ↦ absurd (late.trans_le early) (lt_irrefl _), fun _ token named ↦ ?_⟩
    obtain ⟨cut, held, rfl⟩ := List.mem_map.mp named
    obtain ⟨below, small⟩ := inside held
    have passed : ¬ ((spent ports id d).expired = false ∧ time ≤ (spent ports id d).expires) :=
      fun h ↦ by cases h.1
    have shown' : (spent ports id d).view = reader.authorizationView := shown
    rw [readPage_issued closed (checkDisposition_spent live checked') drawn.identity seed_eq below
      small, check_of shown', ok_bind, check_of_not passed]
    rfl

/-- Next to the first capture; the second one issues a page of Beads and a page of Links. -/
theorem snapshot_isolated_note :
    ∃ manifest after, heldTables.capture samplePorts (sampleConfiguration .transaction) samplePlane
        sampleContext 0 sampleMoment sampleIdentity witnessSeed = .ok (manifest, after) ∧
      (∀ kind, (after.issuedTokens sampleIdentity kind).length = 1) ∧
      Isolated samplePorts (sampleConfiguration .transaction) samplePlane sampleContext heldTables 0
        sampleMoment sampleIdentity manifest after := by
  have issued : (heldTables.capture samplePorts (sampleConfiguration .transaction) samplePlane
      sampleContext 0 sampleMoment sampleIdentity witnessSeed).toOption.any (fun captured ↦
        (captured.2.issuedTokens sampleIdentity .bead).length = 1 ∧
          (captured.2.issuedTokens sampleIdentity .link).length = 1) = true := by decide +kernel
  cases captured : heldTables.capture samplePorts (sampleConfiguration .transaction) samplePlane
      sampleContext 0 sampleMoment sampleIdentity witnessSeed with
  | error error =>
    rw [captured] at issued
    cases issued
  | ok value =>
    rw [captured] at issued
    obtain ⟨hbead, hlink⟩ := of_decide_eq_true issued
    have unique : (heldTables.snapshots.map Prod.fst).Nodup := List.nodup_singleton _
    exact ⟨_, _, rfl, fun kind ↦ by cases kind <;> assumption,
      snapshot_isolated unique drawn_sample (by decide) (by decide) captured⟩

end Law

end Bdp.Evaluator.Snapshot
