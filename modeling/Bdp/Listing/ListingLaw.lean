import Bdp.Listing.ItemTraversal

/-!
# What a listing delivers

Every turn of a listing over a frozen collection extends what was delivered by the items that
follow, up to the limit. So a run delivers a prefix and reports where to resume, provided that the
continuations that the server issues can be resized.
-/

namespace Bdp.Listing

variable {α : Type} {options : Options} {environment : Environment α} {server : FrozenServer α}
  {start : ℕ} {delivery : Delivery α} {next : Option Url}

section Writing

theorem writeItems_eq (accepts : ℕ → Bool) (delivered : List α) (returned : ℕ) (items : List α) :
    ∃ count ≤ items.length, (writeItems accepts delivered returned items).1 =
        ⟨delivered ++ items.take count, some ⟨returned + count, none⟩⟩ ∧
      ((writeItems accepts delivered returned items).2 = true → count = items.length) := by
  induction items generalizing delivered returned with
  | nil => exact ⟨0, le_rfl, by simp [writeItems], fun _ ↦ rfl⟩
  | cons item items ih =>
    rw [writeItems]
    split
    · obtain ⟨count, hcount, hwritten, hall⟩ := ih (delivered ++ [item]) (returned + 1)
      refine ⟨count + 1, Nat.succ_le_succ hcount, ?_, fun h ↦ congrArg (· + 1) (hall h)⟩
      rw [hwritten, List.append_assoc, List.take_succ_cons, Nat.add_right_comm, Nat.add_assoc]
      rfl
    · exact ⟨0, Nat.zero_le _, by simp, nofun⟩

theorem writeItems_accepted (delivered : List α) (returned : ℕ) (items : List α) :
    (writeItems (fun _ ↦ true) delivered returned items).2 = true := by
  induction items generalizing delivered returned with
  | nil => rfl
  | cons item items ih => exact ih _ _

end Writing

/-- What holds of a delivery at any time: it is a prefix of what follows the start, and a stream
counts it and can be resumed behind it if at all. -/
structure Sound (server : FrozenServer α) (start : ℕ) (delivery : Delivery α) : Prop where
  delivered : delivery.delivered <+: server.items.drop start
  returned : ∀ stream ∈ delivery.stream, stream.returned = delivery.delivered.length
  boundary : ∀ stream ∈ delivery.stream, ∀ next, stream.next = some next →
    server.Boundary next (start + delivery.delivered.length)

/-- What holds before a turn: the continuation stands behind the delivery, the stream is open if
something was written, and the limit is not reached. -/
structure Standing (server : FrozenServer α) (options : Options) (start : ℕ)
    (next : Option Url) (delivery : Delivery α) : Prop extends Sound server start delivery where
  source : server.Start next (start + delivery.delivered.length)
  closed : delivery.stream = none → options.jsonl = true → delivery.delivered = []
  buffered : options.jsonl = false → delivery.stream = none
  budget : options.limit = 0 ∨ delivery.delivered.length < options.limit

/-- What a turn does that does not fail: it delivers a page that begins behind the delivery. -/
structure Turned (server : FrozenServer α) (options : Options) (start : ℕ) (next : Option Url)
    (delivery : Delivery α) (later : Delivery α) (issued : Option Url) : Prop where
  size : 1 ≤ requestSize options delivery.delivered.length
  page : ∃ page, page = server.answer (next.map selection)
      (some (requestSize options delivery.delivered.length)) ∧
    server.PageAt (start + delivery.delivered.length)
      (requestSize options delivery.delivered.length) page ∧
    later.delivered = delivery.delivered ++ page.items ∧ issued = page.next
  streamed : options.jsonl = true → later.stream = some ⟨later.delivered.length, some issued⟩
  buffered : options.jsonl = false → later.stream = none

variable {delivered : List α}
variable {terminal : FailureTerminal}

section Turns

variable {returned : ℕ}

theorem Sound.inside
    (h : delivered <+: server.items.drop start) (hreturned : returned = delivered.length) :
    Sound server start ⟨delivered, some ⟨returned, none⟩⟩ where
  delivered := h
  returned stream hstream := by
    obtain rfl := Option.some.inj hstream
    exact hreturned
  boundary stream hstream next hnext := by
    obtain rfl := Option.some.inj hstream
    cases hnext

theorem Standing.returned_eq (h : Standing server options start next delivery) :
    delivery.returned = delivery.delivered.length := by
  unfold Delivery.returned
  split
  · next stream hstream => exact h.returned stream hstream
  · rfl

theorem Turned.returned_eq {later : Delivery α} {issued : Option Url}
    (h : Turned server options start next delivery later issued) :
    later.returned = later.delivered.length := by
  unfold Delivery.returned
  cases hjsonl : options.jsonl with
  | true => rw [h.streamed hjsonl]
  | false => rw [h.buffered hjsonl]

theorem requestSize_pos (hpage : 1 ≤ options.pageSize)
    (hbudget : options.limit = 0 ∨ returned < options.limit) :
    1 ≤ requestSize options returned := by
  unfold requestSize
  split <;> omega

theorem request_served (hserves : server.Serves)
    (hresizable : ∀ url, server.Issued url → Resizable url) {position size : ℕ}
    (hstart : server.Start next position) (hsize : 1 ≤ size) :
    ∃ sent, request next size = .ok sent ∧
      server.serve sent = server.answer (next.map selection) (some size) ∧
      server.PageAt position size (server.answer (next.map selection) (some size)) := by
  cases next with
  | none =>
    obtain rfl : position = 0 := hstart
    exact ⟨.first size, rfl, rfl, hserves.page none 0 size rfl hsize⟩
  | some url =>
    obtain ⟨hissued, hplace⟩ := hstart
    obtain ⟨resized, hresized, hselection, hlimit⟩ :=
      resizePage_of_resizable (hresizable url hissued) size
    refine ⟨.issued resized, ?_, ?_, hserves.page (some (selection url)) position size hplace hsize⟩
    · rw [request, hresized]
      rfl
    · rw [FrozenServer.serve, hselection, hlimit]
      rfl

theorem PageAt_extends {page : Page α} {size : ℕ}
    (hdelivered : delivery.delivered <+: server.items.drop start)
    (hpage : server.PageAt (start + delivery.delivered.length) size page) (count : ℕ) :
    delivery.delivered ++ page.items.take count <+: server.items.drop start := by
  obtain ⟨rest, hrest⟩ := hdelivered
  have hdrop : server.items.drop (start + delivery.delivered.length) = rest := by
    rw [← List.drop_drop, ← hrest, List.drop_left]
  have htake : page.items.take count <+: rest := by
    have hitems := hpage.items
    rw [hdrop] at hitems
    have hfirst : page.items.take count <+: page.items := List.take_prefix _ _
    have hpage : page.items <+: rest := by
      rw [hitems]
      exact List.take_prefix _ _
    exact hfirst.trans hpage
  rw [← hrest]
  exact (List.prefix_append_right_inj _).mpr htake

theorem turn_spec (hserves : server.Serves)
    (hresizable : ∀ url, server.Issued url → Resizable url) (hpage : 1 ≤ options.pageSize)
    (hanswers : server.Answers environment)
    (h : Standing server options start next delivery) (count : ℕ) :
    match turn options environment count next delivery with
    | .error later => Sound server start later
    | .ok (later, issued) => Turned server options start next delivery later issued := by
  have hsize := requestSize_pos hpage h.budget
  obtain ⟨sent, hsent, hserved, hat⟩ := request_served hserves hresizable h.source hsize
  rw [turn, h.returned_eq, hsent]
  simp only
  cases hfetch : environment.fetch count sent with
  | error problem => exact h.toSound
  | ok page =>
    obtain rfl : page = server.answer (next.map selection)
        (some (requestSize options delivery.delivered.length)) :=
      (hanswers count sent page hfetch).trans hserved
    simp only
    rw [if_neg (Nat.not_lt.mpr hat.fits), deliver]
    cases hjsonl : options.jsonl with
    | false =>
      rw [if_neg (by decide)]
      exact ⟨hsize, ⟨_, rfl, hat, rfl, rfl⟩, fun h' ↦ absurd (hjsonl.symm.trans h') (by decide),
        h.buffered⟩
    | true =>
      rw [if_pos rfl]
      have helim : delivery.stream.elim 0 Stream.returned = delivery.delivered.length := by
        cases hstream : delivery.stream with
        | none => rw [h.closed hstream hjsonl]; rfl
        | some stream => exact h.returned stream hstream
      by_cases hheader : delivery.stream.isNone = true ∧ ¬ environment.header = true
      · rw [if_pos hheader]
        have hnone := Option.isNone_iff_eq_none.mp hheader.1
        have hempty := h.closed hnone hjsonl
        exact .inside h.delivered (by rw [hempty]; rfl)
      rw [if_neg hheader]
      obtain ⟨count, hcount, hwritten, hall⟩ := writeItems_eq environment.item
        delivery.delivered (delivery.stream.elim 0 Stream.returned)
        (server.answer (next.map selection)
          (some (requestSize options delivery.delivered.length))).items
      cases hresult : writeItems environment.item delivery.delivered
        (delivery.stream.elim 0 Stream.returned) (server.answer (next.map selection)
          (some (requestSize options delivery.delivered.length))).items with
      | mk written accepted =>
        rw [hresult] at hwritten hall
        obtain rfl := hwritten
        cases accepted with
        | false =>
          refine .inside (PageAt_extends h.delivered hat count) ?_
          rw [List.length_append, List.length_take, Nat.min_eq_left hcount, helim]
        | true =>
          obtain rfl := hall rfl
          rw [List.take_length, helim]
          refine ⟨hsize, ⟨_, rfl, hat, rfl, rfl⟩, fun _ ↦ ?_, fun h' ↦
            absurd (hjsonl.symm.trans h') (by decide)⟩
          simp

theorem turn_healthy (hserves : server.Serves)
    (hresizable : ∀ url, server.Issued url → Resizable url) (hpage : 1 ≤ options.pageSize)
    (h : Standing server options start next delivery) (count : ℕ) :
    ∃ result, turn options server.healthy count next delivery = .ok result := by
  have hsize := requestSize_pos hpage h.budget
  obtain ⟨sent, hsent, hserved, hat⟩ := request_served hserves hresizable h.source hsize
  rw [turn, h.returned_eq, hsent]
  have hfetch : server.healthy.fetch count sent = .ok (server.answer (next.map selection)
      (some (requestSize options delivery.delivered.length))) := congrArg Except.ok hserved
  simp only [hfetch]
  rw [if_neg (Nat.not_lt.mpr hat.fits), deliver]
  split
  · rw [if_neg (by simp [FrozenServer.healthy])]
    have hall : (writeItems server.healthy.item delivery.delivered
        (delivery.stream.elim 0 Stream.returned) (server.answer (next.map selection)
          (some (requestSize options delivery.delivered.length))).items).2 = true :=
      writeItems_accepted _ _ _
    cases hresult : writeItems server.healthy.item delivery.delivered
        (delivery.stream.elim 0 Stream.returned) (server.answer (next.map selection)
          (some (requestSize options delivery.delivered.length))).items with
    | mk written accepted =>
      rw [hresult] at hall
      obtain rfl : accepted = true := hall
      exact ⟨_, rfl⟩
  · exact ⟨_, rfl⟩

variable {later : Delivery α} {issued : Option Url}

section

variable (h : Turned server options start next delivery later issued)
include h

theorem Turned.boundary : server.Boundary issued (start + later.delivered.length) := by
  obtain ⟨page, hanswer, hat, hlater, rfl⟩ := h.page
  have hnext := hat.next
  rw [hlater, List.length_append, ← Nat.add_assoc]
  cases hissued : page.next with
  | none =>
    rw [hissued] at hnext
    exact hnext
  | some url =>
    rw [hissued] at hnext
    exact ⟨⟨_, _, h.size, hanswer ▸ hissued⟩, hnext.2⟩

theorem Turned.isNone_iff :
    issued.isNone = true ↔ start + later.delivered.length = server.items.length := by
  obtain ⟨page, _, hat, hlater, rfl⟩ := h.page
  have hnext := hat.next
  rw [hlater, List.length_append, ← Nat.add_assoc]
  cases hissued : page.next with
  | none =>
    rw [hissued] at hnext
    exact iff_of_true rfl hnext
  | some url =>
    rw [hissued] at hnext
    exact iff_of_false nofun hnext.1.ne

section

variable (hstanding : Standing server options start next delivery)
include hstanding

theorem Turned.sound : Sound server start later := by
  have hboundary := h.boundary
  obtain ⟨page, _, hat, hlater, _⟩ := h.page
  refine ⟨?_, fun stream hstream ↦ ?_, fun stream hstream last hlast ↦ ?_⟩
  · rw [hlater, ← List.take_length (l := page.items)]
    exact PageAt_extends hstanding.delivered hat _
  · cases hjsonl : options.jsonl with
    | true =>
      rw [h.streamed hjsonl] at hstream
      obtain rfl := Option.some.inj hstream
      rfl
    | false => rw [h.buffered hjsonl] at hstream; cases hstream
  · cases hjsonl : options.jsonl with
    | true =>
      rw [h.streamed hjsonl] at hstream
      obtain rfl := Option.some.inj hstream
      obtain rfl := Option.some.inj hlast
      exact hboundary
    | false => rw [h.buffered hjsonl] at hstream; cases hstream

theorem Turned.within : options.limit = 0 ∨ later.delivered.length ≤ options.limit := by
  obtain ⟨page, _, hat, hlater, _⟩ := h.page
  refine hstanding.budget.imp_right fun hbudget ↦ ?_
  have hfits := hat.fits
  have hlimit : ¬ options.limit = 0 := by omega
  rw [requestSize, if_neg hlimit] at hfits
  rw [hlater, List.length_append]
  omega

theorem Turned.standing (hstop : stopReason options later issued = .page) :
    Standing server options start issued later := by
  have hboundary := h.boundary
  rw [stopReason] at hstop
  split at hstop
  · cases hstop
  next hissued =>
  split at hstop
  · cases hstop
  next hlimit =>
  refine ⟨h.sound hstanding, ?_, fun hnone hjsonl ↦ ?_, h.buffered, ?_⟩
  · cases issued with
    | none => exact absurd rfl hissued
    | some url => exact hboundary
  · rw [h.streamed hjsonl] at hnone
    cases hnone
  · rw [h.returned_eq] at hlimit
    omega

theorem Turned.expected (hstop : stopReason options later issued ≠ .page ∨ issued = none) :
    later.delivered = server.expected start options.limit := by
  have htaken := List.prefix_iff_eq_take.mp (h.sound hstanding).delivered
  have hlength := (h.sound hstanding).delivered.length_le
  rw [List.length_drop] at hlength
  have hwithin := h.within hstanding
  have hend := h.isNone_iff
  rw [FrozenServer.expected]
  by_cases hissued : issued = none
  · have hall := hend.mp (Option.isNone_iff_eq_none.mpr hissued)
    have hwhole : later.delivered = server.items.drop start := by
      rw [htaken, List.take_of_length_le]
      rw [List.length_drop]
      omega
    split
    · exact hwhole
    · next hlimit =>
      rw [List.take_of_length_le, hwhole]
      rw [← hwhole]
      omega
  · obtain hstop | hstop := hstop
    · rw [stopReason, if_neg hissued] at hstop
      split at hstop
      · next hlimit =>
        rw [h.returned_eq] at hlimit
        have hlimit' : later.delivered.length = options.limit := by omega
        rw [if_neg (by omega), htaken, hlimit']
      · exact absurd rfl hstop
    · exact absurd hstop hissued

end

end

theorem Sound.failure (h : Sound server start delivery)
    (hfail : fail delivery = .failure delivered (some terminal)) :
    delivered <+: server.items.drop start ∧ terminal.returned = delivered.length ∧
      ∀ next, terminal.continuation = some next →
        server.Boundary next (start + delivered.length) := by
  rw [fail, Outcome.failure.injEq] at hfail
  obtain ⟨rfl, hterminal⟩ := hfail
  obtain ⟨stream, hstream, rfl⟩ := Option.map_eq_some_iff.mp hterminal
  exact ⟨h.delivered, h.returned stream hstream, h.boundary stream hstream⟩

end Turns

section Runs

theorem traverse_delivers (hserves : server.Serves)
    (hresizable : ∀ url, server.Issued url → Resizable url) (hpage : 1 ≤ options.pageSize)
    (hunpaged : options.unpaged = true) (h : Standing server options start next delivery)
    (count : ℕ) :
    ∃ fuel completion last, traverse options server.healthy fuel count next delivery =
        some (.success (server.expected start options.limit) completion last) ∧
      completion.returned = (server.expected start options.limit).length ∧
      (completion.exhausted = true ↔
        start + (server.expected start options.limit).length = server.items.length) ∧
      server.Boundary last (start + (server.expected start options.limit).length) := by
  -- the induction is on the chain of the continuations, which is not endless
  generalize hsource : next.map selection = source
  induction source using hserves.progress.induction generalizing next delivery count with
  | _ source ih =>
  have hanswers : server.Answers server.healthy := fun _ _ _ hfetch ↦ (Except.ok.inj hfetch).symm
  obtain ⟨⟨later, issued⟩, hturn⟩ := turn_healthy hserves hresizable hpage h count
  have hturned := turn_spec hserves hresizable hpage hanswers h count
  rw [hturn] at hturned
  by_cases hstop : stopReason options later issued ≠ .page ∨ issued = none
  · have hexpected := hturned.expected h hstop
    refine ⟨1, ⟨later.returned, issued.isNone, stopReason options later issued⟩, issued, ?_, ?_, ?_,
      ?_⟩
    · have hstop' : stopReason options later issued ≠ .page ∨ options.unpaged = false ∨
          issued = none := hstop.imp_right Or.inr
      rw [traverse, hturn]
      simp only
      rw [if_pos hstop', finish, if_neg (by simp [FrozenServer.healthy]), hexpected]
    · exact hturned.returned_eq.trans (congrArg List.length hexpected)
    · rw [← hexpected]
      exact hturned.isNone_iff
    · rw [← hexpected]
      exact hturned.boundary
  · have hstop' := not_or.mp hstop
    have hlater := hturned.standing h (not_not.mp hstop'.1)
    cases hissued : issued with
    | none => exact absurd hissued hstop'.2
    | some url =>
      rw [hissued] at hlater hturn
      obtain ⟨page, hanswer, _, _, hnext⟩ := hturned.page
      have hbelow : ∃ limit url', 1 ≤ limit ∧ (server.answer source (some limit)).next =
          some url' ∧ some (selection url) = some (selection url') :=
        ⟨_, url, hturned.size, by rw [← hsource, ← hanswer, ← hnext, hissued], rfl⟩
      obtain ⟨fuel, completion, last, hrun, hrest⟩ := ih _ hbelow hlater (count + 1) rfl
      refine ⟨fuel + 1, completion, last, ?_, hrest⟩
      rw [traverse, hturn]
      simp only
      rw [if_neg, hrun]
      rintro (hpage' | hpaged | hnone)
      · rw [hissued] at hstop'
        exact hstop'.1 hpage'
      · rw [hunpaged] at hpaged
        cases hpaged
      · cases hnone

theorem traverse_failure (hserves : server.Serves)
    (hresizable : ∀ url, server.Issued url → Resizable url) (hpage : 1 ≤ options.pageSize)
    (hanswers : server.Answers environment) {fuel count : ℕ}
    (h : Standing server options start next delivery)
    (hrun : traverse options environment fuel count next delivery =
      some (.failure delivered (some terminal))) :
    delivered <+: server.items.drop start ∧ terminal.returned = delivered.length ∧
      ∀ last, terminal.continuation = some last →
        server.Boundary last (start + delivered.length) := by
  induction fuel generalizing count next delivery with
  | zero => cases hrun
  | succ fuel ih =>
    have hturned := turn_spec hserves hresizable hpage hanswers h count
    rw [traverse] at hrun
    cases hturn : turn options environment count next delivery with
    | error later =>
      rw [hturn] at hturned hrun
      exact hturned.failure (Option.some.inj hrun)
    | ok result =>
      obtain ⟨later, issued⟩ := result
      rw [hturn] at hturned hrun
      simp only at hrun
      split at hrun
      · have hfinish := Option.some.inj hrun
        rw [finish] at hfinish
        split at hfinish
        · exact (hturned.sound h).failure hfinish
        · cases hfinish
      · next hstop =>
        exact ih (hturned.standing h (not_not.mp (not_or.mp hstop).1)) hrun

/-- If every issued continuation can be resized, a listing delivers a prefix that can be resumed. -/
theorem listing_resumable (server : FrozenServer α) (hserves : server.Serves)
    (hresizable : ∀ url, server.Issued url → Resizable url) : server.ResumablePrefix := by
  intro next start hstart options hpage hunpaged
  have hstanding : Standing server options start next .empty := by
    refine ⟨⟨⟨_, rfl⟩, nofun, nofun⟩, hstart, fun _ _ ↦ rfl, fun _ ↦ rfl, ?_⟩
    exact (Nat.eq_zero_or_pos options.limit).imp_right id
  refine ⟨traverse_delivers hserves hresizable hpage hunpaged hstanding 0, ?_⟩
  intro _ environment hanswers fuel delivered terminal hrun
  exact traverse_failure hserves hresizable hpage hanswers hstanding hrun

end Runs

section Served

/-- A server of four items that issues one URL for each place. -/
def servedServer (issue : ℕ → Url) : FrozenServer ℕ where
  items := [0, 1, 2, 3]
  answer source limit :=
    let position := (source.elim (some 0) fun source ↦
      [1, 2, 3].find? fun place ↦ selection (issue place) = source).getD 4
    let count := min (limit.getD 1) (4 - position)
    ⟨(([0, 1, 2, 3] : List ℕ).drop position).take count,
      if position + count = 4 then none else some (issue (position + count))⟩
  place source := [1, 2, 3].find? fun place ↦ selection (issue place) = source

variable {issue : ℕ → Url}
variable {source : Option Selection}
variable {place : ℕ}

theorem servedServer_answer (h : (servedServer issue).position source = some place) (limit : ℕ) :
    place < 4 ∧ (servedServer issue).answer source (some limit) =
      ⟨((servedServer issue).items.drop place).take (min limit (4 - place)),
        if place + min limit (4 - place) = 4 then none
        else some (issue (place + min limit (4 - place)))⟩ := by
  cases source with
  | none =>
    obtain rfl := Option.some.inj h
    exact ⟨by decide, rfl⟩
  | some source =>
    have hfound : ([1, 2, 3].find? fun place ↦ selection (issue place) = source) = some place := h
    have hmem := List.mem_of_find?_eq_some hfound
    refine ⟨?_, ?_⟩
    · simp only [List.mem_cons, List.not_mem_nil, or_false] at hmem
      omega
    · simp only [servedServer, Option.elim_some, hfound, Option.getD_some]

variable {url : Url}

theorem servedServer_next {limit : ℕ}
    (h : (servedServer issue).position source = some place) (hlimit : 1 ≤ limit)
    (hnext : ((servedServer issue).answer source (some limit)).next = some url) :
    place + min limit (4 - place) ∈ [1, 2, 3] ∧ url = issue (place + min limit (4 - place)) := by
  obtain ⟨hplace, hanswer⟩ := servedServer_answer h limit
  rw [hanswer] at hnext
  simp only at hnext
  split at hnext
  · cases hnext
  · next hmore =>
    have hbounds : 1 ≤ place + min limit (4 - place) ∧ place + min limit (4 - place) ≤ 3 := by
      omega
    refine ⟨?_, (Option.some.inj hnext).symm⟩
    simp only [List.mem_cons, List.not_mem_nil, or_false]
    omega

theorem servedServer_lost (limit : Option ℕ) (h : (servedServer issue).position source = none) :
    ((servedServer issue).answer source limit).next = none := by
  cases source with
  | none => cases h
  | some source =>
    have hnone : ([1, 2, 3].find? fun place ↦ selection (issue place) = source) = none := h
    simp only [servedServer, Option.elim_some, hnone, Option.getD_none]
    exact if_pos (by omega)

theorem servedServer_issued (h : (servedServer issue).Issued url) :
    ∃ place ∈ [1, 2, 3], url = issue place := by
  obtain ⟨source, limit, hlimit, hnext⟩ := h
  cases hposition : (servedServer issue).position source with
  | none =>
    rw [servedServer_lost _ hposition] at hnext
    cases hnext
  | some place => exact ⟨_, servedServer_next hposition hlimit hnext⟩

theorem servedServer_serves
    (h : ∀ place ∈ [1, 2, 3], (servedServer issue).place (selection (issue place)) = some place) :
    (servedServer issue).Serves where
  page source place limit hposition hlimit := by
    obtain ⟨hplace, hanswer⟩ := servedServer_answer hposition limit
    have hlength : (((servedServer issue).items.drop place).take
        (min limit (4 - place))).length = min limit (4 - place) := by
      rw [List.length_take, List.length_drop]
      exact Nat.min_eq_left (Nat.min_le_right _ _)
    rw [hanswer]
    refine ⟨?_, ?_, ?_⟩
    · rw [hlength]
      exact Nat.min_le_left _ _
    · rw [hlength]
    · simp only [hlength]
      split
      · next hnone =>
        split at hnone
        · next hend => exact hend
        · cases hnone
      · next url hurl =>
        have hnext := servedServer_next hposition hlimit (by rw [hanswer]; exact hurl)
        obtain ⟨hmem, rfl⟩ := hnext
        refine ⟨?_, h _ hmem⟩
        have hfour : (servedServer issue).items.length = 4 := rfl
        simp only [List.mem_cons, List.not_mem_nil, or_false] at hmem
        omega
  progress := by
    refine Subrelation.wf ?_
      (measure fun source ↦ 4 - ((servedServer issue).position source).getD 4).wf
    rintro later earlier ⟨limit, url, hlimit, hnext, rfl⟩
    cases hposition : (servedServer issue).position earlier with
    | none =>
      rw [servedServer_lost _ hposition] at hnext
      cases hnext
    | some place =>
      obtain ⟨hplace, _⟩ := servedServer_answer hposition limit
      obtain ⟨hmem, rfl⟩ := servedServer_next hposition hlimit hnext
      have hlater : (servedServer issue).position (some (selection
          (issue (place + min limit (4 - place))))) = some (place + min limit (4 - place)) :=
        h _ hmem
      change 4 - (((servedServer issue).position _).getD 4) <
        4 - (((servedServer issue).position earlier).getD 4)
      rw [hlater, hposition, Option.getD_some, Option.getD_some]
      omega

def servedCollection : Url := "https://h/s/bdp/beads".toList

/-- An issued URL with an opaque query: `?c1`. -/
def plainUrl (place : ℕ) : Url := servedCollection ++ '?' :: 'c' :: Nat.toDigits 10 place

theorem listing_resumable_plain : (servedServer plainUrl).ResumablePrefix :=
  listing_resumable (servedServer plainUrl)
    (servedServer_serves (by decide +kernel)) fun url hissued ↦ by
      obtain ⟨place, hplace, rfl⟩ := servedServer_issued hissued
      have hnone : ∀ place ∈ [1, 2, 3], limitParameters (plainUrl place) = [] := by decide +kernel
      exact .unlimited servedCollection ('c' :: Nat.toDigits 10 place) rfl (by decide) nofun
        (hnone place hplace)

/-- An issued URL whose cursor holds what looks like a limit: `?cursor=?limit=1&limit=1`. -/
def nestedUrl (place : ℕ) : Url :=
  servedCollection ++ "?cursor=?limit=".toList ++ Nat.toDigits 10 place ++ "&limit=1".toList

/-- Resizing such a URL changes its cursor, and an item is delivered twice instead of the next. -/
theorem listing_not_resumable : ∃ server : FrozenServer ℕ, server.Serves ∧
    ¬ server.ResumablePrefix := by
  refine ⟨servedServer nestedUrl, servedServer_serves (by decide +kernel), fun h ↦ ?_⟩
  obtain ⟨⟨fuel, completion, last, hrun, _⟩, _⟩ := h none 0 rfl ⟨1, 3, true, false⟩ le_rfl rfl
  have hrepeated : traverse ⟨1, 3, true, false⟩ (servedServer nestedUrl).healthy 3 0 none .empty =
      some (.success [0, 1, 1] ⟨3, false, .limit⟩ (some (nestedUrl 2))) := by decide +kernel
  have hleft := traverse_add _ _ 3 hrun
  have hright := traverse_add _ _ fuel hrepeated
  rw [Nat.add_comm 3 fuel, hleft] at hright
  have hdelivered := Outcome.success.inj (Option.some.inj hright)
  exact absurd hdelivered.1 (by decide +kernel)

end Served

end Bdp.Listing
