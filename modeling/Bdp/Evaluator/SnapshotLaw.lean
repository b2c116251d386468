import Bdp.Evaluator.GraphLaw
import Bdp.Evaluator.ReadAddress
import Bdp.Evaluator.SnapshotWritten

/-!
# Preflight and capture

A preflight fails with an error exactly when a capture of the same state at the same time fails with
it, and what a capture stores stays within its bounds.
-/

namespace Bdp.Evaluator.Snapshot

open Recovery (ResourceKind)
open Transaction (TransactionReadContext maxSafeInteger)
open JsonParts
open Bdp.Except (ok_bind)

variable {ports : SnapshotPorts} {config : GraphConfiguration} {plane : ReadPlane}
  {member : MemberContext} {tables : SnapshotTables} {prepared : Prepared}
  {context : TransactionReadContext} {now : ℤ} {id seed : String} {kind : ResourceKind}

section Law

theorem bytes_servedPage_eq {other otherSeed : String} (identity : isIdentity id = true)
    (identity' : isIdentity other = true) (cut : PageCut) :
    bytes (pageText ports (servedPage ports config id seed kind prepared cut)) =
      bytes (pageText ports (servedPage ports config other otherSeed kind prepared cut)) := by
  rw [bytes_pageText, bytes_pageText]
  have next : bytes (nextText (servedPage ports config id seed kind prepared cut).next) =
      bytes (nextText (servedPage ports config other otherSeed kind prepared cut).next) := by
    rw [servedPage, servedPage, nextRange, nextRange]
    dsimp only
    cases (prepared.cuts kind)[cut.ordinal + 1]? with
    | none => rfl
    | some behind =>
      simp only [Option.map_some, nextText, PageCut.range]
      rw [bytes_pageUrl _ identity plain_pageToken, bytes_pageUrl _ identity' plain_pageToken,
        length_pageToken, length_pageToken]
  rw [next]
  rfl

/-- The manifest of a capture under an identity. -/
def capturedManifest (ports : SnapshotPorts) (config : GraphConfiguration) (prepared : Prepared)
    (context : TransactionReadContext) (now : ℤ) (id seed : String) (bead link : PageCut) :
    SnapshotManifest :=
  manifestOf ports config id (prepared.disposition ports id seed now context) context
    (servedPage ports config id seed .bead prepared bead)
    (servedPage ports config id seed .link prepared link)

theorem bytes_capturedManifest {other otherSeed : String} (identity : isIdentity id = true)
    (identity' : isIdentity other = true) (bead link : PageCut) :
    bytes (manifestText ports (capturedManifest ports config prepared context now id seed bead link)) =
      bytes (manifestText ports
        (capturedManifest ports config prepared context now other otherSeed bead link)) := by
  have beads := @bytes_servedPage_eq ports config prepared id seed .bead other otherSeed identity
    identity' bead
  have links := @bytes_servedPage_eq ports config prepared id seed .link other otherSeed identity
    identity' link
  simp only [capturedManifest, manifestOf, manifestText, bytes_objectText, List.map_cons,
    List.map_nil, bytes_memberText, bytes_snapshotUrl _ identity, bytes_snapshotUrl _ identity',
    beads, links, Prepared.disposition, sealDisposition, List.length_cons, List.length_nil]

theorem preflight_prepared
    (prepare : tables.prepare ports config plane member witnessId witnessSeed now context =
      .ok prepared)
    (bound : bytes (dispositionText (prepared.disposition ports witnessId witnessSeed now context)) +
      bytes witnessId.toList ≤ dispositionBytes) {bead link : PageCut}
    (first_bead : (prepared.cuts .bead)[0]? = some bead ∧ bead.ordinal = 0 ∧
      bead ∈ prepared.cuts .bead)
    (first_link : (prepared.cuts .link)[0]? = some link ∧ link.ordinal = 0 ∧
      link ∈ prepared.cuts .link) :
    tables.preflight ports config plane member now context = check (bytes (manifestText ports
        (capturedManifest ports config prepared context now witnessId witnessSeed bead link)) ≤
          manifestBytes) (.integrity "serialized manifest bound") := by
  have made := prepare_made prepare
  have beads := firstPage_eq_ok isIdentity_witnessId made bead first_bead.1 first_bead.2.1
    first_bead.2.2
  have links := firstPage_eq_ok isIdentity_witnessId made link first_link.1 first_link.2.1
    first_link.2.2
  unfold SnapshotTables.preflight SnapshotTables.captureWith
  rw [Option.getD_none]
  dsimp only
  rw [prepare, ok_bind]
  rw [check_of bound, ok_bind, Option.isSome_none, if_neg Bool.false_ne_true, beads,
    ok_bind, links, ok_bind, manifestValue]
  unfold check capturedManifest
  split <;> rfl

theorem capture_prepared (drawn : Drawn ports tables id seed)
    (position : context.scopePosition ≤ maxSafeInteger)
    (instant : 0 ≤ now ∧ now ≤ 8640000000000000 - Transaction.day)
    (prepare : tables.prepare ports config plane member id seed now context = .ok prepared)
    (bound : bytes (dispositionText (prepared.disposition ports id seed now context)) +
      bytes id.toList ≤ dispositionBytes) {bead link : PageCut}
    (first_bead : (prepared.cuts .bead)[0]? = some bead ∧ bead.ordinal = 0 ∧
      bead ∈ prepared.cuts .bead)
    (first_link : (prepared.cuts .link)[0]? = some link ∧ link.ordinal = 0 ∧
      link ∈ prepared.cuts .link) :
    (prepared.written ports tables id seed (prepared.disposition ports id seed now context)).resolve
        ports id now context =
      .ok (prepared.disposition ports id seed now context, prepared.ranges ports id seed) ∧
    tables.capture ports config plane member now context id seed = (do
      check (bytes (manifestText ports
        (capturedManifest ports config prepared context now id seed bead link)) ≤ manifestBytes)
        (.integrity "serialized manifest bound")
      pure (capturedManifest ports config prepared context now id seed bead link,
        prepared.written ports tables id seed
          (prepared.disposition ports id seed now context))) := by
  have made := prepare_made prepare
  have checked := checkDisposition_eq_ok drawn made position instant rfl bound
  have plan := plan_eq_ok drawn made (rfl : prepared.disposition ports id seed now context = _)
  have resolved : (prepared.written ports tables id seed
      (prepared.disposition ports id seed now context)).resolve ports id now context =
      .ok (prepared.disposition ports id seed now context, prepared.ranges ports id seed) := by
    have live : (prepared.disposition ports id seed now context).expired = false ∧
        now ≤ (prepared.disposition ports id seed now context).expires := by
      refine ⟨rfl, ?_⟩
      change now ≤ now + lifetimeMs
      unfold lifetimeMs
      omega
    have view : (prepared.disposition ports id seed now context).view =
        context.authorizationView := rfl
    unfold SnapshotTables.resolve SnapshotTables.disposition
    rw [check_of drawn.identity, ok_bind, disposition_written drawn]
    dsimp only
    rw [checked, ok_bind, Except.pure_eq_ok, ok_bind, require_some, ok_bind,
      check_of view, ok_bind, check_of live, ok_bind, plan]
    rfl
  refine ⟨resolved, ?_⟩
  have first_range {kind : ResourceKind} {cut : PageCut} (held : (prepared.cuts kind)[0]? = some cut) :
      pickRange ((prepared.cuts kind).map (PageCut.range ports id seed kind)) none =
        some (cut.range ports id seed kind) := by
    rw [pickRange, List.head?_eq_getElem?, List.getElem?_map, held]
    rfl
  have beads := page_written drawn made first_bead.2.2 (first_range first_bead.1)
    (d := prepared.disposition ports id seed now context)
  have links := page_written drawn made first_link.2.2 (first_range first_link.1)
    (d := prepared.disposition ports id seed now context)
  unfold SnapshotTables.capture SnapshotTables.captureWith
  rw [Option.getD_some]
  dsimp only
  rw [prepare, ok_bind]
  rw [check_of bound, ok_bind, Option.isSome_some, if_pos rfl, retain_eq_ok drawn made,
    ok_bind, SnapshotTables.manifest, resolved, ok_bind]
  dsimp only
  rw [beads, ok_bind, links, ok_bind, manifestValue]
  unfold check capturedManifest
  split <;> rfl

/-- A capture of a state at a time, compared with the preflight. -/
structure PreflightLaw (ports : SnapshotPorts) (config : GraphConfiguration) (plane : ReadPlane)
    (member : MemberContext) (tables : SnapshotTables) (now : ℤ) (context : TransactionReadContext)
    (id seed : String) : Prop where
  /-- Both fail with the same errors. -/
  errors : ∀ error, tables.preflight ports config plane member now context = .error error ↔
    tables.capture ports config plane member now context id seed = .error error
  /-- The manifest and every page that was stored keep their bounds. -/
  bounds : ∀ manifest after,
    tables.capture ports config plane member now context id seed = .ok (manifest, after) →
      bytes (manifestText ports manifest) ≤ manifestBytes ∧
      ∃ d ranges, after.resolve ports id now context = .ok (d, ranges) ∧
        after.pages = tables.pages ++ ranges.map (fun range ↦ (id, range)) ∧
        ∀ range ∈ ranges, ∃ page,
          after.page ports config plane member id ranges range.kind (some range.token) = .ok page ∧
          bytes (pageText ports page) ≤ pageBytes

/-- A preflight fails with a code exactly when a capture of the same state at the same time fails
with it; what a capture stores keeps its bounds. -/
theorem preflight_capture (drawn : Drawn ports tables id seed)
    (position : context.scopePosition ≤ maxSafeInteger)
    (instant : 0 ≤ now ∧ now ≤ 8640000000000000 - Transaction.day) :
    PreflightLaw ports config plane member tables now context id seed := by
  have same := @prepare_eq ports config plane member tables context now id seed witnessId witnessSeed
    drawn.identity isIdentity_witnessId
  cases prepared_eq : tables.prepare ports config plane member id seed now context with
  | error error =>
    have capture : tables.capture ports config plane member now context id seed = .error error := by
      unfold SnapshotTables.capture SnapshotTables.captureWith
      rw [Option.getD_some]
      dsimp only
      rw [prepared_eq]
      rfl
    have preflight : tables.preflight ports config plane member now context = .error error := by
      unfold SnapshotTables.preflight SnapshotTables.captureWith
      rw [Option.getD_none]
      dsimp only
      rw [← same, prepared_eq]
      rfl
    constructor
    · intro other
      rw [capture, preflight, Except.error.injEq, Except.error.injEq]
    · intro manifest after h
      rw [capture] at h
      cases h
  | ok prepared =>
    have made := prepare_made prepared_eq
    have witness := same.symm.trans prepared_eq
    have sizes : bytes (dispositionText (prepared.disposition ports id seed now context)) +
        bytes id.toList =
        bytes (dispositionText (prepared.disposition ports witnessId witnessSeed now context)) +
          bytes witnessId.toList := by
      rw [bytes_plain (plain_identity drawn.identity), length_identity drawn.identity,
        bytes_plain (plain_identity isIdentity_witnessId), length_identity isIdentity_witnessId,
        bytes_disposition drawn.secret isHex64_witnessSeed]
    by_cases bound : bytes (dispositionText (prepared.disposition ports id seed now context)) +
        bytes id.toList ≤ dispositionBytes
    · obtain ⟨bead, bead_first⟩ := exists_first made .bead
      obtain ⟨link, link_first⟩ := exists_first made .link
      have preflight := preflight_prepared witness (sizes ▸ bound) bead_first link_first
      obtain ⟨resolved, capture⟩ := capture_prepared drawn position instant prepared_eq bound
        bead_first link_first
      rw [bytes_capturedManifest isIdentity_witnessId drawn.identity] at preflight
      by_cases within : bytes (manifestText ports
          (capturedManifest ports config prepared context now id seed bead link)) ≤ manifestBytes
      · rw [check_of within] at preflight capture
        constructor
        · intro error
          rw [preflight, capture]
          constructor <;> exact fun h ↦ nomatch h
        · intro manifest after h
          rw [capture] at h
          cases h
          refine ⟨within, _, _, resolved, rfl, ?_⟩
          have served {kind : ResourceKind} {cut : PageCut} (inside : cut ∈ prepared.cuts kind) :
              ∃ page, (prepared.written ports tables id seed
                (prepared.disposition ports id seed now context)).page ports config plane member id
                (prepared.ranges ports id seed) kind
                (some (pageToken ports seed id kind cut.ordinal)) = .ok page ∧
                bytes (pageText ports page) ≤ pageBytes :=
            ⟨_, page_written drawn made inside (pickRange_token (made.chain kind) inside),
              bytes_servedPage_le drawn.identity made inside⟩
          intro range held
          cases List.mem_append.mp held with
          | inl bead_held =>
            obtain ⟨cut, inside, from_cut⟩ := List.mem_map.mp bead_held
            rw [← from_cut]
            exact @served .bead cut inside
          | inr link_held =>
            obtain ⟨cut, inside, from_cut⟩ := List.mem_map.mp link_held
            rw [← from_cut]
            exact @served .link cut inside
      · rw [check_of_not within] at preflight capture
        constructor
        · intro error
          rw [preflight, capture, Except.error_bind, Except.error.injEq, Except.error.injEq]
        · intro manifest after h
          rw [capture] at h
          cases h
    · have bound' : ¬ bytes (dispositionText
          (prepared.disposition ports witnessId witnessSeed now context)) +
          bytes witnessId.toList ≤ dispositionBytes := sizes ▸ bound
      have capture : tables.capture ports config plane member now context id seed =
          .error (.integrity "disposition bound") := by
        unfold SnapshotTables.capture SnapshotTables.captureWith
        rw [Option.getD_some]
        dsimp only
        rw [prepared_eq, Except.ok_bind]
        rw [check_of_not bound]
        rfl
      have preflight : tables.preflight ports config plane member now context =
          .error (.integrity "disposition bound") := by
        unfold SnapshotTables.preflight SnapshotTables.captureWith
        rw [Option.getD_none]
        dsimp only
        rw [witness, Except.ok_bind]
        rw [check_of_not bound']
        rfl
      constructor
      · intro other
        rw [capture, preflight, Except.error.injEq, Except.error.injEq]
      · intro manifest after h
        rw [capture] at h
        cases h

/-- The text of the note `a`; other records are written as their identity. -/
def noteText (record : ResourceRecord) : List Char :=
  if record = .bead (sampleNote "a" 0) then
    objectText [("id", stringText "https://h/a"), ("type", stringText "note"),
      ("revision", stringText "r"), ("properties", objectText []), ("metadata", objectText [])]
  else record.id.toList

/-- Ports whose tags tell the streams of an identity and the first identity apart. -/
def samplePorts : SnapshotPorts where
  text := noteText
  text_id record := by
    unfold noteText
    split
    next same =>
      rw [same]
      decide +kernel
    next => exact le_rfl
  bodyJson row := noteText row.body
  hash _ := String.ofList (List.replicate 64 'a')
  isHex64_hash _ := by decide
  tag _ text := (if text[26]? = some '1' then '1' else '2') ::
    List.replicate 42 (if text[65]? = some 'b' then 'b' else 'l')
  length_tag _ _ := by simp
  plain_tag _ text letter inside := by
    obtain rfl | inside := List.mem_cons.mp inside
    · split <;> decide
    · rw [List.eq_of_mem_replicate inside]
      split <;> decide
  checkpoint :=
    { digest := fun _ ↦ List.replicate 43 'a'
      length_digest := fun _ ↦ List.length_replicate
      alphabet := fun _ letter inside ↦ by
        rw [List.eq_of_mem_replicate inside]
        decide }
  isoText _ := "1970-01-01T00:05:00.000Z"

def sampleMoment : TransactionReadContext :=
  { scopeEpoch := "epoch", authorizationView := "view", scopePosition := 2 }

def firstIdentity : String := "11111111-1111-1111-1111-111111111111"

def heldDisposition : Disposition :=
  { epoch := "epoch", view := "view", position := 2, created := 0, expires := 300000
    expired := false, counts := (1, 1), bytes := 90, plan := samplePorts.hash []
    seed := witnessSeed, pageCounts := (1, 1), binding := samplePorts.hash [] }

def heldRecord (kind : ResourceKind) (record : ResourceRecord) : SnapshotRecord :=
  { snapshot := firstIdentity, kind, ordinal := 0, id := record.id, body := noteText record
    value := record }

def heldPage (kind : ResourceKind) (bytes : ℕ) (token : String) : String × PageRange :=
  (firstIdentity,
    { kind, ordinal := 0, token, start := 0, stop := 1, bytes, digest := samplePorts.hash [] })

/-- The tables that hold an earlier capture of the cited note. -/
def heldTables : SnapshotTables :=
  { graph := citedNote, visible := true, snapshots := [(firstIdentity, heldDisposition)]
    records := [heldRecord .bead (.bead (sampleNote "a" 0)),
      heldRecord .link (.link (sampleCite "l" 2))]
    pages := [heldPage .bead 79 "sp_0_1bbbbbbbbbbbbbbbbbbbbbbbbbbbbbbbbbbbbbbbbbb",
      heldPage .link 11 "sp_0_1llllllllllllllllllllllllllllllllllllllllll"] }

def sampleIdentity : String := "22222222-2222-2222-2222-222222222222"

theorem tag_sample (seed : String) (kind : ResourceKind) (ordinal : ℕ) :
    samplePorts.tag seed (arrayText [stringText "hmac-sha256-ordinal-1", stringText sampleIdentity,
      stringText (kindText kind), numberText ordinal]) =
      '2' :: List.replicate 42 (if kind = .bead then 'b' else 'l') := by
  cases kind <;> rfl

theorem heldTables_tags : ∀ row ∈ heldTables.pages, '2' ∉ row.2.token.toList := by decide +kernel

theorem drawn_sample : Drawn samplePorts heldTables sampleIdentity witnessSeed where
  identity := by decide
  secret := isHex64_witnessSeed
  fresh := by decide
  tokens row held kind ordinal same := by
    apply heldTables_tags row held
    rw [same, pageToken, tag_sample]
    simp
  streams ordinal same := by
    have letters := congrArg String.toList same
    simp only [pageToken, String.toList_ofList, tag_sample] at letters
    have tags := List.append_cancel_left (List.append_cancel_left letters)
    revert tags
    decide

/-- Next to the first capture, of a note and its citation. -/
theorem preflight_capture_note :
    heldTables.snapshots.map Prod.fst = [firstIdentity] ∧
    PreflightLaw samplePorts (sampleConfiguration .transaction) samplePlane sampleContext heldTables
      0 sampleMoment sampleIdentity witnessSeed ∧
    (heldTables.preflight samplePorts (sampleConfiguration .transaction) samplePlane sampleContext 0
      sampleMoment).isOk = true :=
  ⟨rfl, preflight_capture drawn_sample (by decide) (by decide), by decide +kernel⟩

end Law

end Bdp.Evaluator.Snapshot
