import Bdp.Evaluator.SnapshotRows
import Bdp.Transaction.Receipts

/-!
# What a capture writes

A preparation that succeeds leaves two chains of pages. Its rows are written under a fresh identity,
the disposition and the plan that are read back pass their checks, and every page is served within
its bound.
-/

namespace Bdp.Evaluator.Snapshot

open Recovery (ResourceKind)
open Transaction (TransactionReadContext maxSafeInteger)
open JsonParts
open Bdp.Except (bind_eq_ok ok_bind)
open List (map_cons length_nil length_map nil_append mem_map pairwise_map)

variable {ports : SnapshotPorts} {config : GraphConfiguration} {plane : ReadPlane}
  {member : MemberContext} {tables : SnapshotTables} {prepared : Prepared}
  {context : TransactionReadContext} {now : ℤ} {id seed : String} {kind : ResourceKind}

section Chains

variable {frames : ℕ → ℕ} {bodies : List (List Char)} {ordinal start stop : ℕ}
  {cuts : List PageCut} {cut : PageCut}

theorem Chained.ordinal_eq (chain : Chained ordinal start cuts stop) {index : ℕ}
    (inside : cuts[index]? = some cut) : cut.ordinal = ordinal + index := by
  induction cuts generalizing ordinal start index with
  | nil => cases inside
  | cons first cuts ih =>
    obtain ⟨same, _, behind⟩ := chain
    cases index with
    | zero =>
      cases inside
      exact same
    | succ index =>
      have := ih behind inside
      omega

theorem Chained.find?_ordinal (chain : Chained ordinal start cuts stop) (index : ℕ) :
    (cuts.map (PageCut.range ports id seed kind)).find? (fun range ↦ range.ordinal == ordinal + index) =
      cuts[index]?.map (PageCut.range ports id seed kind) := by
  induction cuts generalizing ordinal start index with
  | nil => rfl
  | cons first cuts ih =>
    obtain ⟨same, _, behind⟩ := chain
    cases index with
    | zero =>
      rw [map_cons, List.find?_cons_of_pos (by simp [PageCut.range, same])]
      rfl
    | succ index =>
      rw [map_cons, List.find?_cons_of_neg (by simp [PageCut.range, same])]
      have later : ordinal + (index + 1) = ordinal + 1 + index := by omega
      rw [later, ih behind]
      rfl

theorem Chained.length_le (chain : Chained 0 0 cuts bodies.length)
    (each : ∀ cut ∈ cuts, cut.Fits ports frames bodies) : cuts.length ≤ max 1 bodies.length := by
  by_cases none : bodies.length = 0
  · by_contra more
    have second : 1 < cuts.length := by omega
    have inside : cuts[1]? = some cuts[1] := List.getElem?_eq_getElem second
    have one := chain.ordinal_eq inside
    have fits := each cuts[1] (List.getElem_mem second)
    cases fits.filled with
    | inl filled =>
      have := fits.bounded
      omega
    | inr first => omega
  · have filled : ∀ cut ∈ cuts, cut.start < cut.stop := by
      intro cut inside
      have := (each cut inside).filled
      tauto
    have reach : ∀ {cuts : List PageCut} {ordinal start stop : ℕ},
        Chained ordinal start cuts stop → (∀ cut ∈ cuts, cut.start < cut.stop) →
        start + cuts.length ≤ stop := by
      intro cuts
      induction cuts with
      | nil =>
        intro ordinal start stop chain _
        rw [length_nil]
        exact Nat.le_of_eq chain
      | cons first cuts ih =>
        intro ordinal start stop chain filled
        obtain ⟨_, same, behind⟩ := chain
        have := filled first List.mem_cons_self
        have := ih behind fun cut inside ↦ filled cut (List.mem_cons_of_mem _ inside)
        rw [List.length_cons]
        omega
    have := reach chain filled
    omega

theorem PageCut.Fits.bytes_le (fits : cut.Fits ports frames bodies) : cut.bytes ≤ pageBytes := by
  by_cases filled : cut.start < cut.stop
  · have := fits.fits filled
    omega
  · have empty : cut.stop - cut.start = 0 := by omega
    rw [fits.total, PageCut.slice, empty, List.take_zero]
    exact Nat.zero_le _

theorem checkRanges_eq_ok (chain : Chained ordinal start cuts stop)
    (each : ∀ cut ∈ cuts, cut.Fits ports frames bodies) :
    checkRanges ports seed id kind bodies.length ordinal start
      (cuts.map (PageCut.range ports id seed kind)) = .ok stop := by
  induction cuts generalizing ordinal start with
  | nil => exact congrArg Except.ok chain
  | cons first cuts ih =>
    obtain ⟨same_ordinal, same_start, behind⟩ := chain
    have fits := each first List.mem_cons_self
    have filled := fits.filled
    have hex : isHex64 first.digest = true := by
      rw [fits.digest]
      exact ports.isHex64_hash _
    rw [map_cons, checkRanges, check_bind_eq_ok]
    refine ⟨⟨same_ordinal, same_start, fits.ordered, fits.items, ?_⟩, ?_⟩
    · rw [same_ordinal] at filled
      exact filled
    · rw [check_bind_eq_ok]
      refine ⟨⟨?_, fits.bytes_le, hex⟩, ih behind fun cut inside ↦
        each cut (List.mem_cons_of_mem _ inside)⟩
      rw [PageCut.range, same_ordinal]

end Chains

variable {other : String}

section Made

def Prepared.cuts (prepared : Prepared) : ResourceKind → List PageCut
  | .bead => prepared.beads
  | .link => prepared.links

def bodiesOf (kind : ResourceKind) (captured : List Captured) : List (List Char) :=
  (stream kind captured).map Captured.body

/-- What a preparation that succeeds has checked. -/
structure Prepared.Made (ports : SnapshotPorts) (config : GraphConfiguration) (plane : ReadPlane)
    (member : MemberContext) (tables : SnapshotTables) (id seed : String) (prepared : Prepared) :
    Prop where
  distinct : (prepared.captured.map Captured.localId).Nodup
  read : ∀ row ∈ prepared.captured, row.Read ports config plane member
  count : prepared.captured.length ≤ resourcesLimit
  size : (prepared.captured.map fun row ↦ bytes row.body).sum ≤ recordBytes
  recordsKept : ∀ row ∈ tables.records, tables.retains row.snapshot = true
  pagesKept : ∀ row ∈ tables.pages, tables.retains row.1 = true
  chain : ∀ kind, Chained 0 0 (prepared.cuts kind) (bodiesOf kind prepared.captured).length
  each : ∀ kind, ∀ cut ∈ prepared.cuts kind,
    cut.Fits ports (framing ports config id seed kind) (bodiesOf kind prepared.captured)
  total : ∀ kind, ((prepared.cuts kind).map PageCut.bytes).sum =
    ((bodiesOf kind prepared.captured).map bytes).sum
  some_page : ∀ kind, prepared.cuts kind ≠ []

theorem rows_distinct (tables : SnapshotTables) : (tables.rows.map Prod.fst).Nodup := by
  rw [SnapshotTables.rows]
  split
  · exact Table.toList_keys_nodup _
  · exact List.nodup_nil

theorem cutStream_chained {captured : List Captured} {cuts : List PageCut}
    (h : cutStream ports config id seed kind captured = .ok cuts) :
    Chained 0 0 cuts (bodiesOf kind captured).length ∧
      (∀ cut ∈ cuts, cut.Fits ports (framing ports config id seed kind) (bodiesOf kind captured)) ∧
      (cuts.map PageCut.bytes).sum = ((bodiesOf kind captured).map bytes).sum ∧ cuts ≠ [] := by
  have inside : 0 < (bodiesOf kind captured).length ∨
      0 = 0 ∧ (bodiesOf kind captured).length = 0 := by omega
  have chained := cutPages_chained inside (fun _ ↦ rfl) h
  rwa [List.drop_zero] at chained

theorem prepare_made (h : tables.prepare ports config plane member id seed now context =
    .ok prepared) : prepared.Made ports config plane member tables id seed := by
  unfold SnapshotTables.prepare at h
  rw [bind_eq_ok] at h
  obtain ⟨issued, bounds, h⟩ := h
  unfold SnapshotTables.ledgerBounds at bounds
  rw [check_bind_eq_ok, check_bind_eq_ok, check_bind_eq_ok] at bounds
  obtain ⟨_, records_kept, pages_kept, _⟩ := bounds
  rw [check_bind_eq_ok, bind_eq_ok] at h
  obtain ⟨_, live, _, h⟩ := h
  dsimp only at h
  rw [check_bind_eq_ok, check_bind_eq_ok, check_bind_eq_ok, bind_eq_ok] at h
  obtain ⟨few, _, _, captured, read, h⟩ := h
  rw [bind_eq_ok] at h
  obtain ⟨outgoing, _, h⟩ := h
  rw [bind_eq_ok] at h
  obtain ⟨⟨⟩, _, h⟩ := h
  rw [check_bind_eq_ok, bind_eq_ok] at h
  obtain ⟨_, beads, bead_cut, h⟩ := h
  rw [bind_eq_ok] at h
  obtain ⟨links, link_cut, h⟩ := h
  rw [Except.pure_eq_ok_iff] at h
  subst h
  obtain ⟨ids, each, size⟩ := readRecords_read (Nat.zero_le _) read
  have counted := congrArg List.length ids
  rw [length_map, length_map] at counted
  have beads_chained := cutStream_chained bead_cut
  have links_chained := cutStream_chained link_cut
  exact
    { distinct := by
        dsimp only
        rw [ids]
        exact rows_distinct tables
      read := each
      count := by
        dsimp only
        omega
      size := by
        dsimp only
        omega
      recordsKept := records_kept
      pagesKept := pages_kept
      chain := fun kind ↦ by
        cases kind
        · exact beads_chained.1
        · exact links_chained.1
      each := fun kind ↦ by
        cases kind
        · exact beads_chained.2.1
        · exact links_chained.2.1
      total := fun kind ↦ by
        cases kind
        · exact beads_chained.2.2.1
        · exact links_chained.2.2.1
      some_page := fun kind ↦ by
        cases kind
        · exact beads_chained.2.2.2
        · exact links_chained.2.2.2 }

theorem isIdentity_witnessId : isIdentity witnessId = true := by decide

theorem isHex64_witnessSeed : isHex64 witnessSeed = true := by decide

variable {otherSeed : String}

theorem prepare_eq (h : isIdentity id = true) (h' : isIdentity other = true) :
    tables.prepare ports config plane member id seed now context =
      tables.prepare ports config plane member other otherSeed now context := by
  have cut (kind : ResourceKind) (captured : List Captured) :
      cutStream ports config id seed kind captured =
        cutStream ports config other otherSeed kind captured := by
    rw [cutStream, cutStream, framing_eq h h']
  simp only [SnapshotTables.prepare, cut]

theorem bytes_disposition (h : isHex64 seed = true) (h' : isHex64 otherSeed = true) :
    bytes (dispositionText (prepared.disposition ports id seed now context)) =
      bytes (dispositionText (prepared.disposition ports other otherSeed now context)) := by
  simp only [Prepared.disposition, sealDisposition, sealBinding, dispositionText, unsignedMembers,
    bytes_objectText, List.cons_append, nil_append, map_cons, List.map_nil,
    bytes_memberText, bytes_hex64 h, bytes_hex64 h', bytes_hex64 (ports.isHex64_hash _),
    List.length_cons, length_nil]

end Made

section Served

variable {cut : PageCut}

def nextRange (ports : SnapshotPorts) (id seed : String) (kind : ResourceKind) (prepared : Prepared)
    (cut : PageCut) : Option PageRange :=
  (prepared.cuts kind)[cut.ordinal + 1]?.map (PageCut.range ports id seed kind)

def servedPage (ports : SnapshotPorts) (config : GraphConfiguration) (id seed : String)
    (kind : ResourceKind) (prepared : Prepared) (cut : PageCut) : SnapshotPage :=
  { items := cut.slice ((stream kind prepared.captured).map Captured.value)
    next := (nextRange ports id seed kind prepared cut).map fun range ↦
      transactionSnapshotUrl config.scope.href id (some (kind, range.token)) }

theorem PageCut.slice_map {α β : Type} (f : α → β) (items : List α) :
    cut.slice (items.map f) = (cut.slice items).map f := by
  rw [slice, slice, List.map_take, List.map_drop]

section

variable (identity : isIdentity id = true)
include identity

section

variable (made : prepared.Made ports config plane member tables id seed)
include made

theorem bytes_next_le :
    bytes (nextText (servedPage ports config id seed kind prepared cut).next) + 20 ≤
      framing ports config id seed kind cut.ordinal := by
  rw [framing, bytes_pageText, servedPage, nextText]
  dsimp only
  cases found : nextRange ports id seed kind prepared cut with
  | none =>
    have absent : bytes "null".toList = 4 := by decide
    rw [Option.map_none, nextText, absent, bytes_pageUrl _ identity plain_pageToken]
    omega
  | some range =>
    obtain ⟨behind, held, same⟩ := Option.map_eq_some_iff.mp found
    have ordinal := (made.chain kind).ordinal_eq held
    rw [Nat.zero_add] at ordinal
    rw [Option.map_some, nextText, ← same, PageCut.range, ordinal]
    simp only [List.map_nil, List.sum_nil, length_nil]
    omega

theorem bytes_servedPage_le (inside : cut ∈ prepared.cuts kind) :
    bytes (pageText ports (servedPage ports config id seed kind prepared cut)) ≤ pageBytes := by
  have fits := made.each kind cut inside
  have next := @bytes_next_le ports config plane member tables prepared id seed kind cut identity made
  have bounded : cut.stop ≤ ((stream kind prepared.captured).map Captured.value).length := by
    have := fits.bounded
    rwa [bodiesOf, length_map, ← length_map (f := Captured.value)] at this
  have texts : (stream kind prepared.captured).map (fun row ↦ bytes (ports.text row.value)) =
      (bodiesOf kind prepared.captured).map bytes := by
    rw [bodiesOf, List.map_map]
    apply List.map_congr_left
    intro row held
    rw [Function.comp_apply, (made.read row (List.mem_of_mem_filter held)).text]
  have size : ((servedPage ports config id seed kind prepared cut).items.map fun item ↦
      bytes (ports.text item)).sum = cut.bytes := by
    rw [servedPage, fits.total, ← PageCut.slice_map, ← PageCut.slice_map, ← texts, List.map_map]
    rfl
  have length : (servedPage ports config id seed kind prepared cut).items.length =
      cut.stop - cut.start := PageCut.slice_length bounded
  rw [bytes_pageText, size, length]
  by_cases filled : cut.start < cut.stop
  · have := fits.fits filled
    omega
  · -- The page of an empty stream has no successor.
    have empty : bodiesOf kind prepared.captured = [] := by
      have := fits.filled
      rw [← List.length_eq_zero_iff]
      omega
    have none_total : cut.bytes = 0 := by
      rw [fits.total, empty, PageCut.slice, List.drop_nil, List.take_nil]
      rfl
    have few := (made.chain kind).length_le (made.each kind)
    rw [empty, length_nil] at few
    have last : nextRange ports id seed kind prepared cut = none := by
      rw [nextRange, List.getElem?_eq_none (by omega), Option.map_none]
    have absent : bytes "null".toList = 4 := by decide
    rw [servedPage, last, Option.map_none, nextText, absent, none_total]
    unfold pageBytes
    omega

theorem pageOf_eq_ok (inside : cut ∈ prepared.cuts kind) :
    pageOf ports config id kind (cut.slice ((stream kind prepared.captured).map Captured.value))
      (nextRange ports id seed kind prepared cut) =
      .ok (servedPage ports config id seed kind prepared cut) := by
  have bound := bytes_servedPage_le identity made inside
  rw [servedPage] at bound
  rw [pageOf, check_of bound]
  rfl

end

end

theorem ofKind_ranges : ofKind kind (prepared.ranges ports id seed) =
    (prepared.cuts kind).map (PageCut.range ports id seed kind) := by
  have all (kind : ResourceKind) (cuts : List PageCut) :
      ofKind kind (cuts.map (PageCut.range ports id seed kind)) =
        cuts.map (PageCut.range ports id seed kind) := by
    apply List.filter_eq_self.mpr
    intro range held
    obtain ⟨cut, _, same⟩ := mem_map.mp held
    rw [← same]
    exact beq_self_eq_true kind
  have none (kind other : ResourceKind) (apart : other ≠ kind) (cuts : List PageCut) :
      ofKind kind (cuts.map (PageCut.range ports id seed other)) = [] := by
    apply List.filter_eq_nil_iff.mpr
    intro range held
    obtain ⟨cut, _, same⟩ := mem_map.mp held
    rw [← same]
    simpa [PageCut.range] using apart
  have split (left right : List PageRange) :
      ofKind kind (left ++ right) = ofKind kind left ++ ofKind kind right := List.filter_append _ _
  rw [Prepared.ranges, split]
  cases kind with
  | bead => rw [all, none _ _ (by decide), List.append_nil, Prepared.cuts]
  | link => rw [all, none _ _ (by decide), nil_append, Prepared.cuts]

theorem exists_first (made : prepared.Made ports config plane member tables id seed)
    (kind : ResourceKind) : ∃ cut, (prepared.cuts kind)[0]? = some cut ∧ cut.ordinal = 0 ∧
      cut ∈ prepared.cuts kind := by
  have pages := List.length_pos_iff.mpr (made.some_page kind)
  have inside : (prepared.cuts kind)[0]? = some (prepared.cuts kind)[0] :=
    List.getElem?_eq_getElem pages
  exact ⟨_, inside, (made.chain kind).ordinal_eq inside, List.getElem_mem pages⟩

theorem firstPage_eq_ok (identity : isIdentity id = true)
    (made : prepared.Made ports config plane member tables id seed) (first : PageCut)
    (held : (prepared.cuts kind)[0]? = some first) (zero : first.ordinal = 0)
    (inside : first ∈ prepared.cuts kind) :
    firstPage ports config id kind prepared.captured (prepared.ranges ports id seed) =
      .ok (servedPage ports config id seed kind prepared first) := by
  have here := @Chained.find?_ordinal ports id seed kind _ _ _ _ (made.chain kind) 0
  have next := @Chained.find?_ordinal ports id seed kind _ _ _ _ (made.chain kind) 1
  rw [Nat.zero_add] at here next
  rw [firstPage, ofKind_ranges, here, next, held, Option.map_some, require_some, ok_bind]
  dsimp only [PageCut.range]
  have served := pageOf_eq_ok identity made inside
  rw [nextRange, zero, Nat.zero_add, PageCut.slice_map] at served
  exact served

end Served

variable {row : SnapshotRecord}

section Written

variable {cut : PageCut} {d : Disposition}

theorem pageToken_ordinal {kind other : ResourceKind} {ordinal place : ℕ}
    (h : pageToken ports seed id kind ordinal = pageToken ports seed id other place) :
    ordinal = place := by
  have letters := congrArg String.toList h
  simp only [pageToken, String.toList_ofList] at letters
  have digits := List.append_cancel_left letters
  have split := congrArg (fun text ↦ (Transaction.splitUnderscore text).1) digits
  rw [Transaction.splitUnderscore_append Nat.underscore_not_in_toDigits,
    Transaction.splitUnderscore_append Nat.underscore_not_in_toDigits] at split
  have read := congrArg (fun text ↦ Nat.ofDigitChars 10 text 0) split
  simpa [Nat.ofDigitChars_ten_toDigits] using read

/-- What is drawn for a capture has the form of an identity and of a seed, and neither the identity
nor a tag was drawn before. -/
structure Drawn (ports : SnapshotPorts) (tables : SnapshotTables) (id seed : String) : Prop where
  identity : isIdentity id = true
  secret : isHex64 seed = true
  fresh : id ∉ tables.snapshots.map Prod.fst
  tokens : ∀ row ∈ tables.pages, ∀ kind ordinal,
    row.2.token ≠ pageToken ports seed id kind ordinal
  streams : ∀ ordinal, pageToken ports seed id .bead ordinal ≠ pageToken ports seed id .link ordinal

theorem lookup_of_not_mem {rows : List (String × Disposition)} (h : id ∉ rows.map Prod.fst) :
    rows.lookup id = none := by
  rw [List.lookup_eq_none_iff]
  intro row held
  rw [bne_iff_ne]
  intro same
  exact h (mem_map.mpr ⟨row, held, same.symm⟩)

theorem retains_ne (h : id ∉ tables.snapshots.map Prod.fst)
    (kept : tables.retains other = true) : other ≠ id := by
  rintro rfl
  rw [SnapshotTables.retains, lookup_of_not_mem h] at kept
  cases kept

def Prepared.recordRows (prepared : Prepared) (id : String) : List SnapshotRecord :=
  Snapshot.recordRows id .bead prepared.captured ++ Snapshot.recordRows id .link prepared.captured

def Prepared.written (ports : SnapshotPorts) (tables : SnapshotTables) (prepared : Prepared)
    (id seed : String) (d : Disposition) : SnapshotTables :=
  { tables with
    records := tables.records ++ prepared.recordRows id
    pages := tables.pages ++ (prepared.ranges ports id seed).map fun range ↦ (id, range)
    snapshots := tables.snapshots ++ [(id, d)] }

theorem snapshot_recordRows (h : row ∈ prepared.recordRows id) : row.snapshot = id := by
  cases List.mem_append.mp h with
  | inl bead => exact (mem_recordRows bead).choose_spec.2.1
  | inr link => exact (mem_recordRows link).choose_spec.2.1

theorem recordRows_apart (made : prepared.Made ports config plane member tables id seed) :
    (prepared.recordRows id).Pairwise Apart := by
  have distinct : prepared.captured.Pairwise fun left right ↦ left.value.id ≠ right.value.id := by
    have ids := pairwise_map.mp made.distinct
    apply ids.imp_of_mem
    intro left right left_held right_held apart same
    have path := (made.read left left_held).path
    rw [same, (made.read right right_held).path] at path
    exact apart (Option.some.inj path).symm
  have one (kind : ResourceKind) : (recordRows id kind prepared.captured).Pairwise Apart := by
    have ids := distinct.filter fun row ↦ row.kind == kind
    rw [recordRows, pairwise_map, List.pairwise_iff_getElem]
    intro first second first_bound second_bound before _
    rw [List.length_zipIdx] at first_bound second_bound
    have apart := List.pairwise_iff_getElem.mp ids first second first_bound second_bound before
    simp only [List.getElem_zipIdx]
    refine ⟨?_, apart⟩
    intro same
    have := (Prod.mk.inj same).2
    omega
  rw [Prepared.recordRows, List.pairwise_append]
  refine ⟨one .bead, one .link, ?_⟩
  intro left left_held right right_held _
  obtain ⟨bead, bead_held, _, left_kind, left_id, _⟩ := mem_recordRows left_held
  obtain ⟨link, link_held, _, right_kind, right_id, _⟩ := mem_recordRows right_held
  refine ⟨?_, ?_⟩
  · rw [left_kind, right_kind]
    intro same
    cases (Prod.mk.inj same).1
  · rw [left_id, right_id]
    intro same
    obtain ⟨bead_in, bead_kind⟩ := List.mem_filter.mp bead_held
    obtain ⟨link_in, link_kind⟩ := List.mem_filter.mp link_held
    have nodup : (prepared.captured.map fun row ↦ row.value.id).Nodup := pairwise_map.mpr distinct
    have equal : bead = link := List.inj_on_of_nodup_map nodup bead_in link_in same
    rw [equal] at bead_kind
    rw [beq_iff_eq] at bead_kind link_kind
    rw [bead_kind] at link_kind
    cases link_kind

theorem ranges_apart (drawn : Drawn ports tables id seed)
    (made : prepared.Made ports config plane member tables id seed) :
    ((prepared.ranges ports id seed).map fun range ↦ (id, range)).Pairwise PagesApart := by
  have one (kind : ResourceKind) :
      ((prepared.cuts kind).map (PageCut.range ports id seed kind)).Pairwise fun left right ↦
        PagesApart (id, left) (id, right) := by
    rw [pairwise_map, List.pairwise_iff_getElem]
    intro first second first_bound second_bound before
    have left := (made.chain kind).ordinal_eq (List.getElem?_eq_getElem first_bound)
    have right := (made.chain kind).ordinal_eq (List.getElem?_eq_getElem second_bound)
    refine ⟨?_, fun _ ↦ ?_⟩
    · intro same
      have := pageToken_ordinal same
      omega
    · intro same
      have := (Prod.mk.inj same).2
      dsimp only [PageCut.range] at this
      omega
  rw [pairwise_map, Prepared.ranges, List.pairwise_append]
  refine ⟨one .bead, one .link, ?_⟩
  intro left left_held right right_held
  obtain ⟨bead, _, left_range⟩ := mem_map.mp left_held
  obtain ⟨link, _, right_range⟩ := mem_map.mp right_held
  rw [← left_range, ← right_range]
  refine ⟨?_, fun _ ↦ ?_⟩
  · intro same
    dsimp only [PageCut.range] at same
    have ordinal := pageToken_ordinal same
    rw [ordinal] at same
    exact drawn.streams _ same
  · intro same
    cases (Prod.mk.inj same).1

theorem retain_eq_ok (drawn : Drawn ports tables id seed)
    (made : prepared.Made ports config plane member tables id seed) :
    tables.retain ports id seed prepared d = .ok (prepared.written ports tables id seed d) := by
  have free_records : ∀ other ∈ tables.records, ∀ row ∈ prepared.recordRows id, Apart other row := by
    intro other held row inside same
    have ne := retains_ne drawn.fresh (made.recordsKept other held)
    exact absurd (same.trans (snapshot_recordRows inside)) ne
  have free_pages : ∀ other ∈ tables.pages,
      ∀ row ∈ (prepared.ranges ports id seed).map fun range ↦ (id, range), PagesApart other row := by
    intro other held row inside
    obtain ⟨range, range_held, same⟩ := mem_map.mp inside
    have ne := retains_ne drawn.fresh (made.pagesKept other held)
    refine ⟨?_, ?_⟩
    · rw [← same]
      cases List.mem_append.mp range_held with
      | inl bead =>
        obtain ⟨cut, _, from_cut⟩ := mem_map.mp bead
        rw [← from_cut]
        exact drawn.tokens other held _ _
      | inr link =>
        obtain ⟨cut, _, from_cut⟩ := mem_map.mp link
        rw [← from_cut]
        exact drawn.tokens other held _ _
    · rw [← same]
      exact fun equal ↦ absurd equal ne
  unfold SnapshotTables.retain
  have records := foldlM_insertRecord free_records (recordRows_apart made)
  rw [Prepared.recordRows] at records
  have pages := @foldlM_insertPage _ { tables with records := tables.records ++
    (Snapshot.recordRows id .bead prepared.captured ++
      Snapshot.recordRows id .link prepared.captured) } free_pages (ranges_apart drawn made)
  rw [records, ok_bind, pages, ok_bind, SnapshotTables.insertSnapshot, check_of drawn.fresh]
  rfl

end Written

section Reading

variable {cut : PageCut} {d : Disposition}

theorem disposition_written (drawn : Drawn ports tables id seed) :
    (prepared.written ports tables id seed d).snapshots.lookup id = some d := by
  rw [Prepared.written, List.lookup_append, lookup_of_not_mem drawn.fresh, List.lookup_cons,
    beq_self_eq_true]
  rfl

variable (captured : List Captured)

theorem stream_length :
    (stream .bead captured).length + (stream .link captured).length = captured.length := by
  induction captured with
  | nil => rfl
  | cons row captured ih =>
    cases kind : row.kind <;> simp [stream, kind] at ih ⊢ <;> omega

theorem stream_sum (size : Captured → ℕ) :
    ((stream .bead captured).map size).sum + ((stream .link captured).map size).sum =
      (captured.map size).sum := by
  induction captured with
  | nil => rfl
  | cons row captured ih =>
    cases kind : row.kind <;> simp [stream, kind] at ih ⊢ <;> omega

theorem recordsOf_written (drawn : Drawn ports tables id seed)
    (made : prepared.Made ports config plane member tables id seed) :
    (prepared.written ports tables id seed d).recordsOf id kind =
      recordRows id kind prepared.captured := by
  have old : (tables.records.filter fun row ↦ row.snapshot == id && row.kind == kind) = [] := by
    apply List.filter_eq_nil_iff.mpr
    intro row held
    have ne := retains_ne drawn.fresh (made.recordsKept row held)
    simp [ne]
  have all (kind : ResourceKind) : ((recordRows id kind prepared.captured).filter fun row ↦
      row.snapshot == id && row.kind == kind) = recordRows id kind prepared.captured := by
    apply List.filter_eq_self.mpr
    intro row held
    obtain ⟨_, _, snapshot, same, _⟩ := mem_recordRows held
    simp [snapshot, same]
  have none (kind other : ResourceKind) (apart : other ≠ kind) :
      ((recordRows id other prepared.captured).filter fun row ↦
        row.snapshot == id && row.kind == kind) = [] := by
    apply List.filter_eq_nil_iff.mpr
    intro row held
    obtain ⟨_, _, _, same, _⟩ := mem_recordRows held
    simp [same, apart]
  rw [SnapshotTables.recordsOf, Prepared.written, Prepared.recordRows]
  dsimp only
  rw [List.filter_append, List.filter_append, old, nil_append]
  cases kind with
  | bead => rw [all, none _ _ (by decide), List.append_nil]
  | link => rw [all, none _ _ (by decide), nil_append]

theorem pages_written (drawn : Drawn ports tables id seed)
    (made : prepared.Made ports config plane member tables id seed) :
    (prepared.written ports tables id seed d).pages.filter (fun row ↦ row.1 == id) =
      (prepared.ranges ports id seed).map fun range ↦ (id, range) := by
  have old : (tables.pages.filter fun row ↦ row.1 == id) = [] := by
    apply List.filter_eq_nil_iff.mpr
    intro row held
    have ne := retains_ne drawn.fresh (made.pagesKept row held)
    simp [ne]
  rw [Prepared.written]
  dsimp only
  rw [List.filter_append, old, nil_append]
  apply List.filter_eq_self.mpr
  intro row held
  obtain ⟨_, _, same⟩ := mem_map.mp held
  simp [← same]

section

variable (made : prepared.Made ports config plane member tables id seed)
include made

theorem ranges_ordered :
    ((prepared.ranges ports id seed).map fun range ↦ (id, range)).Pairwise PageBefore := by
  have one (kind : ResourceKind) :
      ((prepared.cuts kind).map (PageCut.range ports id seed kind)).Pairwise fun left right ↦
        PageBefore (id, left) (id, right) := by
    rw [pairwise_map, List.pairwise_iff_getElem]
    intro first second first_bound second_bound before
    have left := (made.chain kind).ordinal_eq (List.getElem?_eq_getElem first_bound)
    have right := (made.chain kind).ordinal_eq (List.getElem?_eq_getElem second_bound)
    refine .inr ⟨rfl, ?_⟩
    dsimp only [PageCut.range]
    omega
  rw [pairwise_map, Prepared.ranges, List.pairwise_append]
  refine ⟨one .bead, one .link, ?_⟩
  intro left left_held right right_held
  obtain ⟨_, _, left_range⟩ := mem_map.mp left_held
  obtain ⟨_, _, right_range⟩ := mem_map.mp right_held
  rw [← left_range, ← right_range]
  exact .inl ⟨rfl, rfl⟩

theorem cuts_length_le (kind : ResourceKind) :
    (prepared.cuts kind).length ≤ max 1 (stream kind prepared.captured).length := by
  have few := (made.chain kind).length_le (made.each kind)
  rwa [bodiesOf, length_map] at few

theorem checkStream_eq_ok (same : d.seed = seed) :
    checkStream ports d id kind (prepared.cuts kind).length (stream kind prepared.captured).length
      (prepared.ranges ports id seed) = .ok () := by
  have ranges := @checkRanges_eq_ok ports id seed kind _ _ _ _ _ _ (made.chain kind) (made.each kind)
  rw [bodiesOf, length_map] at ranges
  rw [checkStream, ofKind_ranges, check_bind_eq_ok, same]
  refine ⟨length_map _, ?_⟩
  rw [ranges, ok_bind, check_of rfl]

theorem ranges_bytes : ((prepared.ranges ports id seed).map PageRange.bytes).sum =
      (prepared.captured.map fun row ↦ bytes row.body).sum := by
  have one (kind : ResourceKind) : ((prepared.cuts kind).map (PageCut.range ports id seed kind) |>.map
      PageRange.bytes).sum = ((stream kind prepared.captured).map fun row ↦ bytes row.body).sum := by
    have total := made.total kind
    rw [bodiesOf, List.map_map] at total
    rw [List.map_map]
    exact total
  have beads := one .bead
  have links := one .link
  dsimp only [Prepared.cuts] at beads links
  rw [Prepared.ranges, List.map_append, List.sum_append, beads, links, stream_sum]

end

theorem toDigits_le_four {number : ℕ} (h : number < 10000) : (Nat.toDigits 10 number).length ≤ 4 := by
  rw [Nat.length_toDigits_le_iff (by decide) (by decide)]
  exact h

theorem plan_eq_ok (drawn : Drawn ports tables id seed)
    (made : prepared.Made ports config plane member tables id seed)
    (same : d = prepared.disposition ports id seed now context) :
    (prepared.written ports tables id seed d).plan ports id d =
      .ok (prepared.ranges ports id seed) := by
  have counted := stream_length prepared.captured
  have limit := made.count
  have beads := cuts_length_le made .bead
  have links := cuts_length_le made .link
  have sorted : (((prepared.ranges ports id seed).map fun range ↦ (id, range)).insertionSort
      PageBefore).map Prod.snd = prepared.ranges ports id seed := by
    rw [(ranges_ordered made).insertionSort_eq, List.map_map]
    exact List.map_id _
  have few : ((prepared.ranges ports id seed).map fun range ↦ (id, range)).length ≤
      resourcesLimit + 2 := by
    rw [length_map, Prepared.ranges, List.length_append, length_map, length_map]
    dsimp only [Prepared.cuts] at beads links
    omega
  have narrow : ∀ row ∈ (prepared.ranges ports id seed).map fun range ↦ (id, range),
      bytes row.2.token.toList ≤ 52 ∧ bytes row.2.digest.toList ≤ 64 := by
    have one (kind : ResourceKind) (cut : PageCut) (held : cut ∈ prepared.cuts kind) :
        bytes (cut.range ports id seed kind).token.toList ≤ 52 ∧
          bytes (cut.range ports id seed kind).digest.toList ≤ 64 := by
      obtain ⟨index, bound, found⟩ := List.getElem_of_mem held
      have ordinal := (made.chain kind).ordinal_eq (found ▸ List.getElem?_eq_getElem bound)
      have total := cuts_length_le made kind
      have part : (stream kind prepared.captured).length ≤ prepared.captured.length :=
        List.length_filter_le _ _
      have digits : (Nat.toDigits 10 cut.ordinal).length ≤ 4 := by
        apply toDigits_le_four
        unfold resourcesLimit at limit
        omega
      dsimp only [PageCut.range]
      rw [bytes_plain plain_pageToken, length_pageToken, (made.each kind cut held).digest,
        bytes_plain (plain_hex64 (ports.isHex64_hash _)), length_hex64 (ports.isHex64_hash _)]
      omega
    intro row held
    obtain ⟨range, range_held, same⟩ := mem_map.mp held
    rw [← same]
    cases List.mem_append.mp range_held with
    | inl bead =>
      obtain ⟨cut, cut_held, from_cut⟩ := mem_map.mp bead
      exact from_cut ▸ one .bead cut cut_held
    | inr link =>
      obtain ⟨cut, cut_held, from_cut⟩ := mem_map.mp link
      exact from_cut ▸ one .link cut cut_held
  have lengths (kind : ResourceKind) : (recordRows id kind prepared.captured).length =
      (stream kind prepared.captured).length := by
    rw [recordRows, length_map, List.length_zipIdx]
  have sizes (kind : ResourceKind) : ((recordRows id kind prepared.captured).map fun row ↦
      bytes row.body).sum = ((stream kind prepared.captured).map fun row ↦ bytes row.body).sum := by
    have bodies := congrArg (List.map bytes) (@map_body_recordRows id kind prepared.captured)
    rw [List.map_map, List.map_map] at bodies
    exact congrArg List.sum bodies
  have seed_same : d.seed = seed := by
    rw [same]
    rfl
  have bead_stream := @checkStream_eq_ok ports config plane member tables prepared id seed .bead d
    made seed_same
  have link_stream := @checkStream_eq_ok ports config plane member tables prepared id seed .link d
    made seed_same
  unfold SnapshotTables.plan
  rw [pages_written drawn made]
  dsimp only
  rw [check_bind_eq_ok]
  refine ⟨⟨few, narrow⟩, ?_⟩
  rw [sorted, check_bind_eq_ok]
  refine ⟨by rw [same]; rfl, ?_⟩
  have counts : d.counts = ((stream .bead prepared.captured).length,
      (stream .link prepared.captured).length) := by
    rw [same]
    rfl
  have page_counts : d.pageCounts = (prepared.beads.length, prepared.links.length) := by
    rw [same]
    rfl
  have total : d.bytes = (prepared.captured.map fun row ↦ bytes row.body).sum := by
    rw [same]
    rfl
  rw [counts, page_counts]
  dsimp only [Prepared.cuts] at bead_stream link_stream ⊢
  rw [bead_stream, ok_bind, link_stream, ok_bind, check_bind_eq_ok]
  refine ⟨by rw [ranges_bytes made, total], ?_⟩
  rw [check_bind_eq_ok]
  refine ⟨by rw [recordsOf_written drawn made, recordsOf_written drawn made, lengths, lengths]
             exact ⟨rfl, rfl⟩, ?_⟩
  rw [check_bind_eq_ok]
  refine ⟨?_, rfl⟩
  rw [recordsOf_written drawn made, recordsOf_written drawn made, List.map_append, List.sum_append,
    sizes, sizes, stream_sum, total]

theorem slice_range (cut : PageCut) {count : ℕ} (bounded : cut.stop ≤ count) :
    cut.slice (List.range count) = List.range' cut.start (cut.stop - cut.start) := by
  apply List.ext_getElem
  · rw [PageCut.slice, List.length_take, List.length_drop, List.length_range, List.length_range']
    omega
  · intro index _ _
    simp [PageCut.slice]

theorem reread_row (made : prepared.Made ports config plane member tables id seed)
    (held : row ∈ recordRows id kind prepared.captured) :
    reread config plane member row = .ok row.value := by
  obtain ⟨source, inside, snapshot, same_kind, same_id, body, value⟩ := mem_recordRows held
  obtain ⟨captured, kinds⟩ := List.mem_filter.mp inside
  obtain ⟨_, _, ordinal, _, _, _⟩ := row
  dsimp only at snapshot same_kind same_id body value
  rw [snapshot, same_kind, same_id, body, value, ← beq_iff_eq.mp kinds]
  exact reread_eq_ok (made.read source captured)

theorem page_written (drawn : Drawn ports tables id seed)
    (made : prepared.Made ports config plane member tables id seed)
    (inside : cut ∈ prepared.cuts kind) {token : Option String}
    (found : pickRange ((prepared.cuts kind).map (PageCut.range ports id seed kind)) token =
      some (cut.range ports id seed kind)) :
    (prepared.written ports tables id seed d).page ports config plane member id
      (prepared.ranges ports id seed) kind token =
      .ok (servedPage ports config id seed kind prepared cut) := by
  have fits := made.each kind cut inside
  have bounded : cut.stop ≤ (stream kind prepared.captured).length := by
    have := fits.bounded
    rwa [bodiesOf, length_map] at this
  have between : (recordRows id kind prepared.captured).filter
      (cut.range ports id seed kind).holds = cut.slice (recordRows id kind prepared.captured) :=
    filter_recordRows cut.start cut.stop
  have ordinals : (cut.slice (recordRows id kind prepared.captured)).map SnapshotRecord.ordinal =
      List.range' cut.start (cut.stop - cut.start) := by
    rw [← PageCut.slice_map, map_ordinal_recordRows, slice_range cut bounded]
  have sorted : (cut.slice (recordRows id kind prepared.captured)).insertionSort OrdinalBefore =
      cut.slice (recordRows id kind prepared.captured) := by
    apply List.Pairwise.insertionSort_eq
    have ascending : (List.range' cut.start (cut.stop - cut.start)).Pairwise (· < ·) :=
      List.pairwise_lt_range'
    rw [← ordinals, pairwise_map] at ascending
    exact ascending.imp Nat.le_of_lt
  have slice_mem {row : SnapshotRecord}
      (held : row ∈ cut.slice (recordRows id kind prepared.captured)) :
      row ∈ recordRows id kind prepared.captured :=
    List.mem_of_mem_drop (List.mem_of_mem_take held)
  have sizes : ∀ row ∈ cut.slice (recordRows id kind prepared.captured),
      bytes row.body ≤ representationBytes ∧ bytes row.id.toList ≤ representationBytes := by
    intro row held
    obtain ⟨source, source_held, _, _, same_id, body, _⟩ := mem_recordRows (slice_mem held)
    have read := made.read source (List.mem_of_mem_filter source_held)
    have size := read.size
    have name := ports.text_id source.value
    rw [← read.text] at name
    rw [body, same_id]
    exact ⟨size, name.trans size⟩
  have values : (cut.slice (recordRows id kind prepared.captured)).mapM
      (reread config plane member) =
      .ok (cut.slice ((stream kind prepared.captured).map Captured.value)) := by
    rw [mapM_ok fun row held ↦ reread_row made (slice_mem held), ← PageCut.slice_map,
      map_value_recordRows]
  have digest : ports.hash (joinLines ((cut.slice (recordRows id kind prepared.captured)).map
      SnapshotRecord.body)) = cut.digest := by
    rw [← PageCut.slice_map, map_body_recordRows, fits.digest, bodiesOf]
  have next : ((prepared.cuts kind).map (PageCut.range ports id seed kind))[cut.ordinal + 1]? =
      nextRange ports id seed kind prepared cut := by
    rw [List.getElem?_map, nextRange]
  unfold SnapshotTables.page
  rw [ofKind_ranges, recordsOf_written drawn made]
  dsimp only
  rw [found, require_some, ok_bind, between, sorted, check_bind_eq_ok]
  refine ⟨⟨ordinals, sizes⟩, ?_⟩
  rw [values, ok_bind, check_bind_eq_ok]
  refine ⟨digest, ?_⟩
  have served := pageOf_eq_ok drawn.identity made inside
  rw [← next] at served
  exact served

theorem pickRange_token {ordinal start stop : ℕ} {cuts : List PageCut}
    (chain : Chained ordinal start cuts stop) (inside : cut ∈ cuts) :
    pickRange (cuts.map (PageCut.range ports id seed kind))
      (some (pageToken ports seed id kind cut.ordinal)) = some (cut.range ports id seed kind) := by
  rw [pickRange]
  induction cuts generalizing ordinal start with
  | nil => cases inside
  | cons first cuts ih =>
    obtain ⟨same, _, behind⟩ := chain
    cases List.mem_cons.mp inside with
    | inl here =>
      rw [map_cons, List.find?_cons_of_pos (by simp [PageCut.range, here]), here]
    | inr later =>
      obtain ⟨index, bound, found⟩ := List.getElem_of_mem later
      have place := behind.ordinal_eq (found ▸ List.getElem?_eq_getElem bound)
      have other : ¬ ((first.range ports id seed kind).token ==
          pageToken ports seed id kind cut.ordinal) = true := by
        intro equal
        have := pageToken_ordinal (beq_iff_eq.mp equal)
        omega
      rw [map_cons, List.find?_cons]
      split
      next found => exact absurd found other
      next => exact ih behind later

theorem checkDisposition_eq_ok (drawn : Drawn ports tables id seed)
    (made : prepared.Made ports config plane member tables id seed)
    (position : context.scopePosition ≤ maxSafeInteger)
    (instant : 0 ≤ now ∧ now ≤ 8640000000000000 - Transaction.day)
    (same : d = prepared.disposition ports id seed now context)
    (bound : bytes (dispositionText d) + bytes id.toList ≤ dispositionBytes) :
    checkDisposition ports context id d = .ok () := by
  have counted := stream_length prepared.captured
  have limit := made.count
  have pages (kind : ResourceKind) : 1 ≤ (prepared.cuts kind).length ∧
      (prepared.cuts kind).length ≤ max 1 (stream kind prepared.captured).length ∧
      (prepared.cuts kind).length ≤ resourcesLimit := by
    have some_page := List.length_pos_iff.mpr (made.some_page kind)
    have few := cuts_length_le made kind
    have part : (stream kind prepared.captured).length ≤ prepared.captured.length :=
      List.length_filter_le _ _
    unfold resourcesLimit at limit ⊢
    omega
  have beads := pages .bead
  have links := pages .link
  dsimp only [Prepared.cuts] at beads links
  have safe : ((0 ≤ now ∧ now ≤ maxSafeInteger) ∧
      (-maxSafeInteger ≤ now + lifetimeMs ∧ now + lifetimeMs ≤ maxSafeInteger) ∧
      now + lifetimeMs = now + lifetimeMs) := by
    unfold Transaction.day at instant
    unfold lifetimeMs maxSafeInteger
    omega
  have sealed : d.binding = sealBinding ports id d := by
    rw [same]
    rfl
  have counts : d.counts = ((stream .bead prepared.captured).length,
      (stream .link prepared.captured).length) := by
    rw [same]
    rfl
  have page_counts : d.pageCounts = (prepared.beads.length, prepared.links.length) := by
    rw [same]
    rfl
  unfold checkDisposition
  rw [check_bind_eq_ok, check_bind_eq_ok, check_bind_eq_ok, check_bind_eq_ok, check_bind_eq_ok,
    check_bind_eq_ok, check_bind_eq_ok, check_bind_eq_ok, check_bind_eq_ok, counts, page_counts]
  refine ⟨bound, sealed, ?_, ⟨⟨beads.1, beads.2.2⟩, links.1, links.2.2⟩, ?_, ?_, ?_,
    counted.trans_le limit, ?_, check_of ⟨beads.2.1, links.2.1⟩⟩
  · rw [same]
    exact drawn.secret
  · rw [same]
    exact ⟨rfl, .inl rfl⟩
  · rw [same]
    exact ⟨position, le_rfl⟩
  · rw [same]
    exact safe
  · rw [same]
    exact ⟨made.size, ports.isHex64_hash _⟩

end Reading

end Bdp.Evaluator.Snapshot
