import Bdp.Readiness.PagedReads

/-!
# What readiness answers

A Scope holds Beads and Links; a server lists them in pages and orders of its own. Readiness gives
the listed Beads that are open and blocked by closed Beads only, in the order of their ranks.
-/

namespace Bdp.Readiness

open Bdp.Except (ok_bind)
open List (mem_map mem_filter mem_filterMap)

/-- What a Scope holds: the Beads that it lists, others that can be read, and the Links. -/
structure Holdings where
  scope : Text
  listed : List Facts
  others : List Facts
  links : List LinkRecord

variable {id : Text}

namespace Holdings

variable (holdings : Holdings) (blockingLinkType : Text)

def beads : List Facts := holdings.listed ++ holdings.others

/-- An identity names one Bead, and Beads are of the Scope. -/
structure Valid : Prop where
  ids : (holdings.beads.map Facts.id).Nodup
  inScope : ∀ bead ∈ holdings.beads, holdings.scope.isPrefixOf bead.id = true

def outbound (bead : Text) : List LinkRecord :=
  holdings.links.filter fun link ↦ referenceUri link.source = bead

def blocking (bead : Text) : List LinkRecord :=
  (holdings.outbound bead).filter fun link ↦ link.type = blockingLinkType

def bead? (id : Text) : Option Facts := holdings.beads.find? fun bead ↦ bead.id = id

/-- The Beads that the blocking ones of some Links target, in the order of these Links. -/
def blockers (links : List LinkRecord) : List Facts :=
  (links.filter fun link ↦ link.type = blockingLinkType).filterMap fun link ↦
    holdings.bead? (referenceUri link.target)

/-- An open Bead, all of whose outbound blocking Links target closed Beads of the Scope. -/
def Ready (bead : Facts) : Prop :=
  readPropertyString bead "status" = some "open" ∧
    ∀ link ∈ holdings.blocking blockingLinkType bead.id, ∃ blocker ∈ holdings.beads,
      blocker.id = referenceUri link.target ∧ readPropertyString blocker "status" = some "closed"

instance : DecidablePred (holdings.Ready blockingLinkType) := fun bead ↦
  inferInstanceAs (Decidable (readPropertyString bead "status" = some "open" ∧
    ∀ link ∈ holdings.blocking blockingLinkType bead.id, ∃ blocker ∈ holdings.beads,
      blocker.id = referenceUri link.target ∧ readPropertyString blocker "status" = some "closed"))

/-- The blocking targets of the Scope that are not listed. -/
def unlisted : List Text :=
  ((holdings.listed.flatMap fun bead ↦ (holdings.blocking blockingLinkType bead.id).map fun link ↦
    referenceUri link.target).filter fun id ↦ holdings.scope.isPrefixOf id ∧
      id ∉ holdings.listed.map Facts.id).dedup

variable {holdings}

theorem Valid.eq_of_id (valid : holdings.Valid) {left right : Facts}
    (hleft : left ∈ holdings.beads) (hright : right ∈ holdings.beads) (h : left.id = right.id) :
    left = right := List.inj_on_of_nodup_map valid.ids hleft hright h

theorem Valid.bead?_eq_some (valid : holdings.Valid) {bead : Facts} :
    holdings.bead? id = some bead ↔ bead ∈ holdings.beads ∧ bead.id = id := by
  constructor
  · intro h
    have hid := List.find?_some (p := fun bead : Facts ↦ decide (bead.id = id)) h
    exact ⟨List.mem_of_find?_eq_some h, of_decide_eq_true hid⟩
  · rintro ⟨hmem, hid⟩
    have hsome : (holdings.bead? id).isSome :=
      List.find?_isSome.mpr ⟨bead, hmem, decide_eq_true hid⟩
    obtain ⟨found, hfound⟩ := Option.isSome_iff_exists.mp hsome
    have hfoundMem := List.mem_of_find?_eq_some hfound
    have hfoundId := List.find?_some (p := fun bead : Facts ↦ decide (bead.id = id)) hfound
    rw [hfound, valid.eq_of_id hfoundMem hmem ((of_decide_eq_true hfoundId).trans hid.symm)]

end Holdings

section Distinct

variable {ids acc : List Text}

theorem distinct_nodup (ids : List Text) (hacc : acc.Nodup) :
    (ids.foldl (fun ids id ↦ if id ∈ ids then ids else ids ++ [id]) acc).Nodup := by
  induction ids generalizing acc with
  | nil => exact hacc
  | cons id ids ih =>
    rw [List.foldl_cons]
    split
    · exact ih hacc
    · next hnew =>
      refine ih (List.nodup_append.mpr ⟨hacc, List.nodup_singleton id, ?_⟩)
      rintro other hother _ hid rfl
      exact hnew (List.mem_singleton.mp hid ▸ hother)

theorem mem_distinct : id ∈ ids.foldl (fun ids id ↦ if id ∈ ids then ids else ids ++ [id]) acc ↔
      id ∈ acc ∨ id ∈ ids := by
  induction ids generalizing acc with
  | nil => simp
  | cons first ids ih =>
    rw [List.foldl_cons, ih, List.mem_cons]
    split
    · next hmem =>
      constructor
      · exact Or.imp_right Or.inr
      · rintro (hacc | rfl | hids)
        exacts [.inl hacc, .inl hmem, .inr hids]
    · rw [List.mem_append, List.mem_singleton, or_assoc]

end Distinct

/-- A client that serves what the Scope holds, in pages and orders of its own and within the
bounds of one traversal. -/
structure Serving (client : Client) (holdings : Holdings) (blockingLinkType : Text) where
  order : List BeadRecord
  pages : ℕ
  linkOrder : Text → List LinkRecord
  linkPages : Text → ℕ
  fetched : Text → Option BeadRecord
  discover : client.discover = .ok holdings.scope
  beads : Serves client.beads none order pages
  listed : (order.map fun bead ↦ bead.toFacts).Perm holdings.listed
  links : ∀ bead ∈ holdings.listed,
    Serves (client.beadLinks bead.id) none (linkOrder bead.id) (linkPages bead.id)
  outbound : ∀ bead ∈ holdings.listed, (linkOrder bead.id).Perm (holdings.outbound bead.id)
  found : ∀ id ∈ holdings.unlisted blockingLinkType, ∀ bead, fetched id = some bead →
    client.bead id = .ok bead ∧ bead.id = id ∧ bead.toFacts ∈ holdings.others
  missing : ∀ id ∈ holdings.unlisted blockingLinkType, fetched id = none →
    (∃ detail, client.bead id = .error ⟨"resource-not-found", detail⟩) ∧
      ∀ bead ∈ holdings.beads, bead.id ≠ id
  requests : pages + (holdings.listed.map fun bead ↦ linkPages bead.id).sum +
    (holdings.unlisted blockingLinkType).length ≤ maximumReadinessRequests
  items : holdings.listed.length +
    (holdings.listed.map fun bead ↦ (linkOrder bead.id).length).sum +
    ((holdings.unlisted blockingLinkType).filterMap fetched).length ≤ maximumReadinessItems

namespace Serving

variable {client : Client} {holdings : Holdings} {blockingLinkType : Text}
  (serving : Serving client holdings blockingLinkType)

def attach (bead : BeadRecord) : BeadRecord :=
  { bead with links := some (serving.linkOrder bead.id) }

theorem mem_listed {bead : BeadRecord} (h : bead ∈ serving.order) :
    bead.toFacts ∈ holdings.listed :=
  serving.listed.mem_iff.mp (List.mem_map_of_mem h)

variable {budget : ReadinessTraversalBudget} {before : List BeadRecord}

theorem foldlM_readLinks {beads : List BeadRecord} (hbeads : ∀ bead ∈ beads, bead ∈ serving.order)
    (hrequests : (beads.map fun bead ↦ serving.linkPages bead.id).sum ≤ budget.remainingRequests)
    (hitems : (beads.map fun bead ↦ (serving.linkOrder bead.id).length).sum ≤
      budget.remainingItems) :
    beads.foldlM (readLinks client) (before, budget) = .ok (before ++ beads.map serving.attach,
        ⟨budget.remainingItems - (beads.map fun bead ↦ (serving.linkOrder bead.id).length).sum,
          budget.remainingRequests - (beads.map fun bead ↦ serving.linkPages bead.id).sum⟩) := by
  induction beads generalizing before budget with
  | nil => simp [pure, Except.pure]
  | cons bead beads ih =>
    obtain ⟨hbead, hrest⟩ := List.forall_mem_cons.mp hbeads
    rw [List.map_cons, List.sum_cons] at hrequests hitems
    have hserves := serving.links bead.toFacts (serving.mem_listed hbead)
    have hlinks : readAllIncidentLinks client bead.id budget =
        .ok (serving.linkOrder bead.id, ⟨budget.remainingItems -
          (serving.linkOrder bead.id).length, budget.remainingRequests -
            serving.linkPages bead.id⟩) := by
      have hpages : serving.linkPages bead.id ≤ maximumReadinessPages := by
        have hmem : serving.linkPages bead.id ≤
            (holdings.listed.map fun bead ↦ serving.linkPages bead.id).sum :=
          List.single_le_sum (fun _ _ ↦ Nat.zero_le _) _
            (List.mem_map_of_mem (serving.mem_listed hbead))
        have hbound := serving.requests
        have heq : maximumReadinessPages = maximumReadinessRequests := rfl
        omega
      exact readPages_of_serves hserves hpages (by omega) (by omega) nofun
    have hread : readLinks client (before, budget) bead =
        .ok (before ++ [serving.attach bead], ⟨budget.remainingItems -
          (serving.linkOrder bead.id).length, budget.remainingRequests -
            serving.linkPages bead.id⟩) := by
      rw [readLinks, hlinks]
      rfl
    rw [List.foldlM_cons, hread, ok_bind, ih hrest (by simp only; omega)
      (by simp only; omega)]
    simp [Nat.sub_sub]

theorem foldlM_readBlocker {ids : List Text}
    (hids : ∀ id ∈ ids, id ∈ holdings.unlisted blockingLinkType)
    (hrequests : ids.length ≤ budget.remainingRequests)
    (hitems : (ids.filterMap serving.fetched).length ≤ budget.remainingItems) :
    ∃ rest, ids.foldlM (readBlocker client) (before, budget) =
      .ok (before ++ ids.filterMap serving.fetched, rest) := by
  induction ids generalizing before budget with
  | nil => exact ⟨budget, by simp [pure, Except.pure]⟩
  | cons id ids ih =>
    obtain ⟨hid, hrest⟩ := List.forall_mem_cons.mp hids
    rw [List.length_cons] at hrequests
    have hcharge : consumeTraversalRequest budget =
        .ok ⟨budget.remainingItems, budget.remainingRequests - 1⟩ :=
      consumeTraversalRequest_of (by omega)
    cases hfetched : serving.fetched id with
    | none =>
      obtain ⟨⟨detail, hproblem⟩, _⟩ := serving.missing id hid hfetched
      have hread : readBlocker client (before, budget) id =
          .ok (before, ⟨budget.remainingItems, budget.remainingRequests - 1⟩) := by
        rw [readBlocker, hcharge, ok_bind, hproblem]
        rfl
      rw [List.filterMap_cons_none hfetched] at hitems ⊢
      rw [List.foldlM_cons, hread, ok_bind]
      exact ih hrest (by simp only; omega) hitems
    | some bead =>
      have hbead := (serving.found id hid bead hfetched).1
      rw [List.filterMap_cons_some hfetched, List.length_cons] at hitems
      have hread : readBlocker client (before, budget) id =
          .ok (before ++ [bead], ⟨budget.remainingItems - 1, budget.remainingRequests - 1⟩) := by
        rw [readBlocker, hcharge, ok_bind, hbead]
        simp only
        rw [consumeTraversalItems_of (by simp only; omega)]
        rfl
      rw [List.filterMap_cons_some hfetched, List.foldlM_cons, hread, ok_bind]
      obtain ⟨rest, hrun⟩ : ∃ rest, ids.foldlM (readBlocker client)
          (before ++ [bead], ⟨budget.remainingItems - 1, budget.remainingRequests - 1⟩) =
            .ok (before ++ [bead] ++ ids.filterMap serving.fetched, rest) :=
        ih hrest (by simp only; omega) (by simp only; omega)
      exact ⟨rest, by rw [hrun, List.append_assoc]; rfl⟩

theorem mem_order {facts : Facts} (h : facts ∈ holdings.listed) :
    ∃ bead ∈ serving.order, bead.toFacts = facts :=
  mem_map.mp (serving.listed.mem_iff.mpr h)

theorem mem_linkOrder {bead : Facts} (h : bead ∈ holdings.listed) {link : LinkRecord} :
    link ∈ serving.linkOrder bead.id ∧ link.type = blockingLinkType ↔
      link ∈ holdings.blocking blockingLinkType bead.id := by
  rw [(serving.outbound bead h).mem_iff, Holdings.blocking, mem_filter, decide_eq_true_iff]

theorem known_iff : (id ∈ (serving.order.map serving.attach).map fun known ↦ known.id) ↔
      id ∈ holdings.listed.map Facts.id := by
  rw [List.map_map, ← (serving.listed.map Facts.id).mem_iff, List.map_map]
  rfl

theorem missingBlockerIds_perm :
    (missingBlockerIds blockingLinkType holdings.scope (serving.order.map serving.attach)).Perm
      (holdings.unlisted blockingLinkType) := by
  refine (List.perm_ext_iff_of_nodup (distinct_nodup _ List.nodup_nil)
    (List.nodup_dedup _)).mpr fun id ↦ ?_
  rw [mem_distinct, List.mem_dedup, mem_filter]
  simp only [List.not_mem_nil, false_or, List.mem_flatMap, mem_map, mem_filterMap,
    decide_eq_true_eq]
  constructor
  · rintro ⟨_, ⟨bead, hbead, rfl⟩, link, hlink, hid⟩
    split at hid
    next hcond =>
      obtain ⟨htype, hscope, hunknown⟩ := hcond
      obtain rfl := Option.some.inj hid
      have hlisted := serving.mem_listed hbead
      have hblocking := (serving.mem_linkOrder hlisted).mp ⟨hlink, htype⟩
      refine ⟨⟨bead.toFacts, hlisted, link, hblocking, rfl⟩, hscope, ?_⟩
      exact fun hmem ↦ hunknown (serving.known_iff.mpr (mem_map.mpr hmem))
    next => cases hid
  · rintro ⟨⟨facts, hlisted, link, hlink, rfl⟩, hscope, hunlisted⟩
    obtain ⟨bead, hbead, rfl⟩ := serving.mem_order hlisted
    obtain ⟨hmem, htype⟩ := (serving.mem_linkOrder hlisted).mpr hlink
    refine ⟨_, ⟨bead, hbead, rfl⟩, link, hmem, if_pos ⟨htype, hscope, ?_⟩⟩
    exact fun hknown ↦ hunlisted (mem_map.mp (serving.known_iff.mp hknown))

/-- The records among which readiness is decided. -/
def records : List BeadRecord :=
  serving.order.map serving.attach ++ (missingBlockerIds blockingLinkType holdings.scope
    (serving.order.map serving.attach)).filterMap serving.fetched

theorem readyBeadsFromClient_eq : readyBeadsFromClient client blockingLinkType =
    .ok ((readyBeadsFromRecords blockingLinkType serving.records).filter fun ready ↦
      ready.bead.id ∈ serving.order.map fun bead ↦ bead.id) := by
  have hperm := serving.missingBlockerIds_perm
  have hfetched := (hperm.filterMap serving.fetched).length_eq
  have hlength := hperm.length_eq
  have hrequests := serving.requests
  have hitems := serving.items
  have horder : serving.order.length = holdings.listed.length := by
    rw [← serving.listed.length_eq, List.length_map]
  have hpageSum : (serving.order.map fun bead ↦ serving.linkPages bead.id).sum =
      (holdings.listed.map fun bead ↦ serving.linkPages bead.id).sum := by
    rw [← (serving.listed.map _).sum_eq, List.map_map]
    rfl
  have hlinkSum : (serving.order.map fun bead ↦ (serving.linkOrder bead.id).length).sum =
      (holdings.listed.map fun bead ↦ (serving.linkOrder bead.id).length).sum := by
    rw [← (serving.listed.map _).sum_eq, List.map_map]
    rfl
  have hall : readAllBeads client ⟨maximumReadinessItems, maximumReadinessRequests⟩ =
      .ok (serving.order, ⟨maximumReadinessItems - serving.order.length,
        maximumReadinessRequests - serving.pages⟩) := by
    have heq : maximumReadinessPages = maximumReadinessRequests := rfl
    exact readPages_of_serves serving.beads (by omega) (by simp only; omega) (by simp only; omega)
      nofun
  have hlinks : serving.order.foldlM (readLinks client) ([], ⟨maximumReadinessItems -
      serving.order.length, maximumReadinessRequests - serving.pages⟩) =
      .ok ([] ++ serving.order.map serving.attach, ⟨maximumReadinessItems - serving.order.length -
          (serving.order.map fun bead ↦ (serving.linkOrder bead.id).length).sum,
        maximumReadinessRequests - serving.pages -
          (serving.order.map fun bead ↦ serving.linkPages bead.id).sum⟩) :=
    serving.foldlM_readLinks (fun _ h ↦ h) (by simp only; omega) (by simp only; omega)
  rw [List.nil_append] at hlinks
  obtain ⟨rest, hblockers⟩ : ∃ rest, (missingBlockerIds blockingLinkType holdings.scope
      (serving.order.map serving.attach)).foldlM (readBlocker client)
        (serving.order.map serving.attach, ⟨maximumReadinessItems - serving.order.length -
            (serving.order.map fun bead ↦ (serving.linkOrder bead.id).length).sum,
          maximumReadinessRequests - serving.pages -
            (serving.order.map fun bead ↦ serving.linkPages bead.id).sum⟩) =
      .ok (serving.records, rest) :=
    serving.foldlM_readBlocker (fun id hid ↦ hperm.mem_iff.mp hid) (by simp only; omega)
      (by simp only; omega)
  rw [readyBeadsFromClient, serving.discover, ok_bind, hall, ok_bind]
  simp only [hlinks, hblockers, ok_bind]
  rfl

variable {record : BeadRecord}

theorem beadById_eq_some {records : List BeadRecord}
    (h : beadById records id = some record) : record ∈ records ∧ record.id = id := by
  have hid := List.find?_some (p := fun bead : BeadRecord ↦ decide (bead.id = id)) h
  exact ⟨List.mem_reverse.mp (List.mem_of_find?_eq_some h), of_decide_eq_true hid⟩

theorem mem_records (h : record ∈ serving.records) : record.toFacts ∈ holdings.beads := by
  obtain h | h := List.mem_append.mp h
  · obtain ⟨bead, hbead, rfl⟩ := mem_map.mp h
    have hlisted := serving.mem_listed hbead
    exact List.mem_append_left _ hlisted
  · obtain ⟨id, hid, hfetched⟩ := mem_filterMap.mp h
    have hunlisted := serving.missingBlockerIds_perm.mem_iff.mp hid
    exact List.mem_append_right _ (serving.found id hunlisted record hfetched).2.2

variable {bead : BeadRecord} {link : LinkRecord}

theorem exists_record (valid : holdings.Valid) (hbead : bead ∈ serving.order)
    (hlink : link ∈ holdings.blocking blockingLinkType bead.id) {blocker : Facts}
    (hblocker : blocker ∈ holdings.beads) (hid : blocker.id = referenceUri link.target) :
    ∃ record ∈ serving.records, record.id = referenceUri link.target := by
  by_cases hlisted : referenceUri link.target ∈ holdings.listed.map Facts.id
  · obtain ⟨facts, hfacts, hfactsId⟩ := mem_map.mp hlisted
    obtain ⟨known, hknown, rfl⟩ := serving.mem_order hfacts
    exact ⟨serving.attach known, List.mem_append_left _ (List.mem_map_of_mem hknown), hfactsId⟩
  · have hbeadListed := serving.mem_listed hbead
    have hscope : holdings.scope.isPrefixOf (referenceUri link.target) = true :=
      hid ▸ valid.inScope blocker hblocker
    have htarget : referenceUri link.target ∈ holdings.listed.flatMap fun bead ↦
        (holdings.blocking blockingLinkType bead.id).map fun link ↦ referenceUri link.target :=
      List.mem_flatMap.mpr ⟨bead.toFacts, hbeadListed, List.mem_map_of_mem hlink⟩
    have hunlisted : referenceUri link.target ∈ holdings.unlisted blockingLinkType :=
      List.mem_dedup.mpr (mem_filter.mpr ⟨htarget, decide_eq_true ⟨hscope, hlisted⟩⟩)
    cases hfetched : serving.fetched (referenceUri link.target) with
    | none => exact absurd hid ((serving.missing _ hunlisted hfetched).2 blocker hblocker)
    | some record =>
      have hmissing := serving.missingBlockerIds_perm.mem_iff.mpr hunlisted
      refine ⟨record, List.mem_append_right _ ?_, (serving.found _ hunlisted _ hfetched).2.1⟩
      exact mem_filterMap.mpr ⟨_, hmissing, hfetched⟩

theorem beadById_records (valid : holdings.Valid) (hbead : bead ∈ serving.order)
    (hlink : link ∈ holdings.blocking blockingLinkType bead.id) :
    (beadById serving.records (referenceUri link.target)).map (fun record ↦ record.toFacts) =
      holdings.bead? (referenceUri link.target) := by
  cases hfound : beadById serving.records (referenceUri link.target) with
  | some record =>
    obtain ⟨hmem, hid⟩ := beadById_eq_some hfound
    exact (valid.bead?_eq_some.mpr ⟨serving.mem_records hmem, hid⟩).symm
  | none =>
    cases hblocker : holdings.bead? (referenceUri link.target) with
    | none => rfl
    | some blocker =>
      obtain ⟨hmem, hid⟩ := valid.bead?_eq_some.mp hblocker
      obtain ⟨record, hrecord, hrecordId⟩ := serving.exists_record valid hbead hlink hmem hid
      have hnone := List.find?_eq_none.mp hfound record (List.mem_reverse.mpr hrecord)
      exact absurd (decide_eq_true hrecordId) hnone

theorem blockingLinks_attach_perm (hbead : bead ∈ serving.order) :
    (blockingLinks blockingLinkType (serving.attach bead)).Perm
      (holdings.blocking blockingLinkType bead.id) := by
  have hperm := (serving.outbound bead.toFacts (serving.mem_listed hbead)).filter fun link ↦
    decide (link.type = blockingLinkType ∧ referenceUri link.source = bead.id)
  refine hperm.trans ?_
  rw [Holdings.blocking, List.filter_congr]
  intro link hlink
  have hsource : referenceUri link.source = bead.id := of_decide_eq_true (mem_filter.mp hlink).2
  simp [hsource]

/-- The blockers that are resolved for a listed Bead. -/
def resolved (bead : BeadRecord) : List BeadRecord :=
  (blockingLinks blockingLinkType (serving.attach bead)).filterMap fun link ↦
    beadById serving.records (referenceUri link.target)

theorem resolved_eq (valid : holdings.Valid) (hbead : bead ∈ serving.order) :
    ((serving.resolved bead).map fun record ↦ record.toFacts) =
      holdings.blockers blockingLinkType (serving.linkOrder bead.id) := by
  have hperm := serving.outbound bead.toFacts (serving.mem_listed hbead)
  have hlinks : blockingLinks blockingLinkType (serving.attach bead) =
      (serving.linkOrder bead.id).filter fun link ↦ link.type = blockingLinkType := by
    refine List.filter_congr fun link hlink ↦ ?_
    have hsource : referenceUri link.source = bead.id :=
      of_decide_eq_true (mem_filter.mp (hperm.mem_iff.mp hlink)).2
    exact decide_eq_decide.mpr (and_iff_left hsource)
  have hblocking := serving.blockingLinks_attach_perm hbead
  rw [resolved, List.map_filterMap, List.filterMap_congr fun link hlink ↦
    serving.beadById_records valid hbead (hblocking.mem_iff.mp hlink), hlinks]
  rfl

theorem readyBead_attach (valid : holdings.Valid) (hbead : bead ∈ serving.order) :
    readyBead blockingLinkType serving.records (serving.attach bead) =
      if holdings.Ready blockingLinkType bead.toFacts then
        some ⟨serving.attach bead, serving.resolved bead⟩ else none := by
  have hmem : ∀ link, link ∈ blockingLinks blockingLinkType (serving.attach bead) ↔
      link ∈ holdings.blocking blockingLinkType bead.id := fun link ↦
    (serving.blockingLinks_attach_perm hbead).mem_iff
  refine if_congr ?_ rfl rfl
  rw [List.filterMap_length_eq_length, isReadyBead, Bool.and_eq_true, decide_eq_true_iff,
    List.all_eq_true]
  constructor
  · rintro ⟨hsome, hopen, hclosed⟩
    refine ⟨hopen, fun link hlink ↦ ?_⟩
    have hlink' := (hmem link).mpr hlink
    obtain ⟨record, hrecord⟩ := Option.isSome_iff_exists.mp (hsome link hlink')
    obtain ⟨hrecordMem, hid⟩ := beadById_eq_some hrecord
    have hstatus := hclosed record (mem_filterMap.mpr ⟨link, hlink', hrecord⟩)
    exact ⟨record.toFacts, serving.mem_records hrecordMem, hid, of_decide_eq_true hstatus⟩
  · rintro ⟨hopen, hblockers⟩
    have hresolved : ∀ link ∈ blockingLinks blockingLinkType (serving.attach bead),
        ∃ record, beadById serving.records (referenceUri link.target) = some record ∧
          readPropertyString record.toFacts "status" = some "closed" := by
      intro link hlink
      have hlink' := (hmem link).mp hlink
      obtain ⟨blocker, hblocker, hid, hstatus⟩ := hblockers link hlink'
      have hfound := serving.beadById_records valid hbead hlink'
      rw [valid.bead?_eq_some.mpr ⟨hblocker, hid⟩] at hfound
      obtain ⟨record, hrecord, rfl⟩ := Option.map_eq_some_iff.mp hfound
      exact ⟨record, hrecord, hstatus⟩
    refine ⟨fun link hlink ↦ ?_, hopen, fun record hrecord ↦ ?_⟩
    · obtain ⟨record, hrecord, _⟩ := hresolved link hlink
      exact Option.isSome_iff_exists.mpr ⟨record, hrecord⟩
    · obtain ⟨link, hlink, hfound⟩ := mem_filterMap.mp hrecord
      obtain ⟨found, hrecord', hstatus⟩ := hresolved link hlink
      rw [hfound] at hrecord'
      exact decide_eq_true (Option.some.inj hrecord' ▸ hstatus)

theorem candidates (valid : holdings.Valid) :
    (serving.records.filterMap (readyBead blockingLinkType serving.records)).filter
        (fun ready ↦ ready.bead.id ∈ serving.order.map fun bead ↦ bead.id) =
      (serving.order.filter fun bead ↦ holdings.Ready blockingLinkType bead.toFacts).map
        fun bead ↦ ⟨serving.attach bead, serving.resolved bead⟩ := by
  have hfetched : ∀ record ∈ (missingBlockerIds blockingLinkType holdings.scope
      (serving.order.map serving.attach)).filterMap serving.fetched,
      record.id ∉ serving.order.map fun bead ↦ bead.id := by
    intro record hrecord hknown
    obtain ⟨id, hid, hfetched⟩ := mem_filterMap.mp hrecord
    have hunlisted := serving.missingBlockerIds_perm.mem_iff.mp hid
    have hrecordId := (serving.found id hunlisted record hfetched).2.1
    have hnot := (mem_filter.mp (List.mem_dedup.mp hunlisted)).2
    obtain ⟨_, hnot⟩ := of_decide_eq_true hnot
    obtain ⟨bead, hbead, hbeadId⟩ := mem_map.mp hknown
    exact hnot (mem_map.mpr ⟨bead.toFacts, serving.mem_listed hbead, hbeadId.trans hrecordId⟩)
  have hlisted : ∀ bead ∈ serving.order,
      readyBead blockingLinkType serving.records (serving.attach bead) = if
        holdings.Ready blockingLinkType bead.toFacts then
          some ⟨serving.attach bead, serving.resolved bead⟩ else none :=
    fun bead hbead ↦ serving.readyBead_attach valid hbead
  have hid : ∀ record ready,
      readyBead blockingLinkType serving.records record = some ready → ready.bead = record := by
    intro record ready hready
    rw [readyBead] at hready
    split at hready
    · exact (Option.some.inj hready) ▸ rfl
    · cases hready
  have hrest : (((missingBlockerIds blockingLinkType holdings.scope
      (serving.order.map serving.attach)).filterMap serving.fetched).filterMap
        (readyBead blockingLinkType serving.records)).filter
          (fun ready ↦ ready.bead.id ∈ serving.order.map fun bead ↦ bead.id) = [] := by
    refine List.filter_eq_nil_iff.mpr fun ready hready hknown ↦ ?_
    obtain ⟨record, hrecord, hentry⟩ := mem_filterMap.mp hready
    rw [hid record ready hentry] at hknown
    exact hfetched record hrecord (of_decide_eq_true hknown)
  have hfirst : (serving.order.map serving.attach).filterMap
      (readyBead blockingLinkType serving.records) =
        (serving.order.filter fun bead ↦ holdings.Ready blockingLinkType bead.toFacts).map
          fun bead ↦ ⟨serving.attach bead, serving.resolved bead⟩ := by
    rw [List.filterMap_map, ← List.filterMap_eq_map, List.filterMap_filter]
    refine List.filterMap_congr fun bead hbead ↦ (hlisted bead hbead).trans ?_
    simp
  have hkept : ((serving.order.filter fun bead ↦
      holdings.Ready blockingLinkType bead.toFacts).map fun bead ↦
        (⟨serving.attach bead, serving.resolved bead⟩ : ReadyBead)).filter
          (fun ready ↦ ready.bead.id ∈ serving.order.map fun bead ↦ bead.id) =
      (serving.order.filter fun bead ↦ holdings.Ready blockingLinkType bead.toFacts).map
        fun bead ↦ ⟨serving.attach bead, serving.resolved bead⟩ := by
    refine List.filter_eq_self.mpr fun ready hready ↦ ?_
    obtain ⟨bead, hbead, rfl⟩ := mem_map.mp hready
    have hmem := List.mem_of_mem_filter hbead
    exact decide_eq_true (mem_map.mpr ⟨bead, hmem, rfl⟩)
  have hsplit : serving.records.filterMap (readyBead blockingLinkType serving.records) =
      (serving.order.map serving.attach).filterMap (readyBead blockingLinkType serving.records) ++
        ((missingBlockerIds blockingLinkType holdings.scope
          (serving.order.map serving.attach)).filterMap serving.fetched).filterMap
            (readyBead blockingLinkType serving.records) := List.filterMap_append
  rw [hsplit, List.filter_append, hrest, List.append_nil, hfirst, hkept]

end Serving

section Exact

variable {client : Client} {holdings : Holdings} {blockingLinkType : Text}

/-- Readiness answers the ready Beads among those that are listed, each once and in the order of
their ranks, whatever the pages and the orders in which they are served. Each comes with its Links
and with the Beads that its blocking Links target, both in the order in which its Links are
served. -/
theorem readyBeadsFromClient_exact (valid : holdings.Valid)
    (serving : Serving client holdings blockingLinkType) :
    ∃ result, readyBeadsFromClient client blockingLinkType = .ok result ∧
      (result.map fun ready ↦ ready.bead.toFacts) =
        (holdings.listed.filter fun bead ↦
          holdings.Ready blockingLinkType bead).insertionSort Precedes ∧
      ∀ ready ∈ result,
        (serving.linkOrder ready.bead.id).Perm (holdings.outbound ready.bead.id) ∧
        ready.bead.links = some (serving.linkOrder ready.bead.id) ∧
        (ready.blockers.map fun blocker ↦ blocker.toFacts) =
          holdings.blockers blockingLinkType (serving.linkOrder ready.bead.id) := by
  have hperm : ((readyBeadsFromRecords blockingLinkType serving.records).filter fun ready ↦
      ready.bead.id ∈ serving.order.map fun bead ↦ bead.id).Perm
        ((serving.order.filter fun bead ↦ holdings.Ready blockingLinkType bead.toFacts).map
          fun bead ↦ ⟨serving.attach bead, serving.resolved bead⟩) := by
    rw [← serving.candidates valid]
    exact (List.perm_insertionSort _ _).filter _
  refine ⟨_, serving.readyBeadsFromClient_eq, ?_, fun ready hready ↦ ?_⟩
  · have hfacts : ((serving.order.filter fun bead ↦
        holdings.Ready blockingLinkType bead.toFacts).map fun bead ↦
          (⟨serving.attach bead, serving.resolved bead⟩ : ReadyBead)).map
            (fun ready ↦ ready.bead.toFacts) =
        (serving.order.map fun bead ↦ bead.toFacts).filter fun bead ↦
          holdings.Ready blockingLinkType bead := by
      rw [List.map_map, List.filter_map]
      rfl
    have hlisted := (hperm.map fun ready ↦ ready.bead.toFacts).trans
      ((List.Perm.of_eq hfacts).trans (serving.listed.filter _))
    have hmem : ∀ facts ∈ holdings.listed.filter fun bead ↦ holdings.Ready blockingLinkType bead,
        facts ∈ holdings.beads := fun facts hfacts ↦
      List.mem_append_left _ (List.mem_of_mem_filter hfacts)
    have hsorted : (((readyBeadsFromRecords blockingLinkType serving.records).filter fun ready ↦
        ready.bead.id ∈ serving.order.map fun bead ↦ bead.id).map fun ready ↦
          ready.bead.toFacts).Pairwise Precedes :=
      List.pairwise_map.mpr (((List.pairwise_insertionSort SortsBefore _).filter _).imp fun h ↦
        sortsBefore_iff.mp h)
    refine List.Perm.eq_of_pairwise ?_ hsorted (List.pairwise_insertionSort Precedes _)
      (hlisted.trans (List.perm_insertionSort Precedes _).symm)
    intro left right hleft hright hle hge
    have hleft' := hmem left (hlisted.mem_iff.mp hleft)
    have hright' := hmem right ((List.perm_insertionSort _ _).mem_iff.mp hright)
    exact valid.eq_of_id hleft' hright' (rank_injective_id (le_antisymm hle hge))
  · obtain ⟨bead, hbead, rfl⟩ := List.mem_map.mp (hperm.mem_iff.mp hready)
    have hmem := List.mem_of_mem_filter hbead
    have houtbound := serving.outbound bead.toFacts (serving.mem_listed hmem)
    exact ⟨houtbound, rfl, serving.resolved_eq valid hmem⟩

end Exact

section Served

def servedScope : Text := ascii ['s', '/']

def servedType : Text := ascii ['t']

def servedId (letter : Char) : Text := servedScope ++ ascii [letter]

def servedBead (letter : Char) (status : String) : BeadRecord :=
  ⟨⟨servedId letter, [("status", .string status)]⟩, none⟩

def servedLink (letter : Char) : LinkRecord :=
  ⟨ascii ['l', letter], servedType, ⟨servedId 'a', none⟩, ⟨servedId letter, none⟩⟩

def servedBeads : List BeadRecord :=
  [servedBead 'a' "open", servedBead 'b' "closed", servedBead 'c' "closed"]

def servedHoldings : Holdings :=
  ⟨servedScope, servedBeads.map fun bead ↦ bead.toFacts, [], [servedLink 'b', servedLink 'c']⟩

/-- A server with two pages of Beads that lists Links in an order of its own. -/
def servedClient (links : List LinkRecord) : Client where
  discover := .ok servedScope
  beads continuation := match continuation with
    | none => .ok ⟨servedBeads.take 2, some (ascii ['n'])⟩
    | some _ => .ok ⟨servedBeads.drop 2, none⟩
  beadLinks bead _ := .ok ⟨links.filter fun link ↦ referenceUri link.source = bead, none⟩
  bead _ := .error ⟨"resource-not-found", ""⟩

theorem servedHoldings_valid : servedHoldings.Valid := ⟨by decide, by decide⟩

theorem servedHoldings_unlisted : servedHoldings.unlisted servedType = [] := by decide

def servedServing (links : List LinkRecord) (h : links.Perm servedHoldings.links) :
    Serving (servedClient links) servedHoldings servedType where
  order := servedBeads
  pages := 2
  linkOrder bead := links.filter fun link ↦ referenceUri link.source = bead
  linkPages _ := 1
  fetched _ := none
  discover := rfl
  beads := show Serves _ none (servedBeads.take 2 ++ servedBeads.drop 2) (1 + 1) from
    .more rfl (.last rfl)
  listed := .refl _
  links _ _ := .last rfl
  outbound _ _ := h.filter _
  found _ _ _ hfound := nomatch hfound
  missing id hid := by
    rw [servedHoldings_unlisted] at hid
    cases hid
  requests := by
    rw [servedHoldings_unlisted]
    decide
  items := by
    have hlength : ∀ bead, (links.filter fun link ↦ referenceUri link.source = bead).length ≤ 2 :=
      fun bead ↦ (List.length_filter_le _ _).trans h.length_eq.le
    have ha := hlength (servedId 'a')
    have hb := hlength (servedId 'b')
    have hc := hlength (servedId 'c')
    rw [servedHoldings_unlisted]
    change 3 + ([_, _, _] : List ℕ).sum + 0 ≤ 100000
    simp only [List.sum_cons, List.sum_nil]
    have hsum : ∀ x y z : ℕ, x ≤ 2 → y ≤ 2 → z ≤ 2 → 3 + (x + (y + (z + 0))) + 0 ≤ 100000 := by
      intro x y z hx hy hz
      omega
    exact hsum _ _ _ ha hb hc

theorem readyBeadsFromClient_exact_served :
    ∃ result, readyBeadsFromClient (servedClient [servedLink 'c', servedLink 'b']) servedType =
        .ok result ∧
      (result.map fun ready ↦ ready.bead.toFacts) =
        (servedHoldings.listed.filter fun bead ↦
          servedHoldings.Ready servedType bead).insertionSort Precedes ∧
      ∀ ready ∈ result,
        ([servedLink 'c', servedLink 'b'].filter fun link ↦
          referenceUri link.source = ready.bead.id).Perm (servedHoldings.outbound ready.bead.id) ∧
        ready.bead.links = some ([servedLink 'c', servedLink 'b'].filter fun link ↦
          referenceUri link.source = ready.bead.id) ∧
        (ready.blockers.map fun blocker ↦ blocker.toFacts) =
          servedHoldings.blockers servedType ([servedLink 'c', servedLink 'b'].filter fun link ↦
            referenceUri link.source = ready.bead.id) :=
  readyBeadsFromClient_exact servedHoldings_valid
    (servedServing [servedLink 'c', servedLink 'b'] (.swap _ _ _))

/-- The order in which the Links are served shows in the blockers of a ready Bead. -/
theorem readyBeadsFromClient_shows_order :
    ∃ (holdings : Holdings) (client client' : Client) (blockingLinkType : Text),
      holdings.Valid ∧ Nonempty (Serving client holdings blockingLinkType) ∧
      Nonempty (Serving client' holdings blockingLinkType) ∧
      readyBeadsFromClient client blockingLinkType ≠
        readyBeadsFromClient client' blockingLinkType := by
  refine ⟨servedHoldings, servedClient [servedLink 'b', servedLink 'c'],
    servedClient [servedLink 'c', servedLink 'b'], servedType, servedHoldings_valid,
    ⟨servedServing _ (.refl _)⟩, ⟨servedServing _ (.swap _ _ _)⟩, fun h ↦ ?_⟩
  have hblockers := congrArg (fun answer : Except ReadProblem (List ReadyBead) ↦
    answer.toOption.map fun result ↦ result.map fun ready ↦
      ready.blockers.map fun blocker ↦ blocker.id) h
  revert hblockers
  decide +kernel

end Served

end Bdp.Readiness
