import Bdp.Library.Pages
import Bdp.Retained.Counted
import Bdp.Retained.EventLog
import Bdp.Retained.GraphInvariant

/-!
# Following event pages

A reader follows the cursors of its pages while the owner serves any other requests in between.
The log only grows at its end and a saved cursor is never changed, so every page continues exactly
where the page before it stopped.
-/

namespace Bdp.Retained

open Option (bind_some map_some getD_some)

variable {config : StoreConfiguration} {store result : Store}
variable {after : ℕ}

section Matching

/-- The matching events of a window of positions, in position order. -/
def Store.matching (store : Store) (subject : String) (after through : ℕ) : List EventRow :=
  window EventRow.position (store.matchesSubject subject) after through store.eventsInOrder

theorem pageRows_eq (store : Store) (subject : String) (window : ℕ × ℕ) (limit : ℕ) :
    store.pageRows subject window limit =
      (store.matching subject window.1 window.2).take (limit + 1) := rfl

theorem scannedPosition_eq (rows : List EventRow) (limit through : ℕ) :
    scannedPosition rows limit through = pageEnd EventRow.position rows limit through := rfl

section

variable (h : LogInvariant config store)
include h

theorem LogInvariant.matching_eq (subject : String)
    (after through : ℕ) : store.matching subject after through =
      window EventRow.position (store.matchesSubject subject) after through store.events := by
  rw [Store.matching, h.eventsInOrder_eq]

theorem LogInvariant.matching_ascending (subject : String)
    (after through : ℕ) : (store.matching subject after through).Pairwise fun left right ↦
      left.position < right.position := by
  rw [h.matching_eq]
  exact window_ascending h.ascending

theorem LogInvariant.matching_join (subject : String)
    {middle through : ℕ} (hfirst : after ≤ middle) (hsecond : middle ≤ through) :
    store.matching subject after middle ++ store.matching subject middle through =
      store.matching subject after through := by
  rw [h.matching_eq, h.matching_eq, h.matching_eq]
  exact window_join h.ascending hfirst hsecond

end

end Matching

variable {token : String}
variable {time : ℕ}

section Continuation

/-- Every saved cursor was drawn, and its window lies in the log. -/
structure CursorInvariant (config : StoreConfiguration) (store : Store) : Prop where
  drawn : ∀ token ∈ store.cursors, ∃ index < store.draws.cursor,
    token = config.uuids.uuid .cursor index
  window : ∀ (token : String) (row : CursorRow), store.cursors[token]? = some row →
    row.afterPosition ≤ row.throughPosition ∧ row.throughPosition ≤ store.events.length

/-- Everything that a reader of the log relies on stays as it was. -/
structure Continues (store later : Store) : Prop where
  events : ∃ more, later.events = store.events ++ more
  matching : ∀ (subject : String), ∀ row ∈ store.events,
    later.matchesSubject subject row = store.matchesSubject subject row
  cursors : ∀ (token : String) (row : CursorRow), store.cursors[token]? = some row →
    later.cursors[token]? = some row
  identities : IdentitiesKept store later

theorem Continues.refl (store : Store) : Continues store store :=
  ⟨⟨[], by simp⟩, fun _ _ _ ↦ rfl, fun _ _ h ↦ h, fun _ _ h ↦ h⟩

theorem Continues.trans {first second third : Store} (h : Continues first second)
    (h' : Continues second third) : Continues first third := by
  obtain ⟨more, hmore⟩ := h.events
  obtain ⟨rest, hrest⟩ := h'.events
  refine ⟨⟨more ++ rest, by rw [hrest, hmore, List.append_assoc]⟩, fun subject row hrow ↦ ?_,
    fun token row hrow ↦ h'.cursors token row (h.cursors token row hrow),
    fun id kind hid ↦ h'.identities id kind (h.identities id kind hid)⟩
  rw [h'.matching subject row (by rw [hmore]; exact List.mem_append_left _ hrow),
    h.matching subject row hrow]

/-- What a store keeps for its readers. -/
structure ReadInvariant (config : StoreConfiguration) (store : Store) : Prop where
  log : LogInvariant config store
  cursors : CursorInvariant config store
  graph : GraphInvariant config store

theorem cursorInvariant_empty : CursorInvariant config (Store.empty config) where
  drawn _ h := by simp [Store.empty] at h
  window _ _ h := by simp [Store.empty] at h

variable {facts : List PublishedFact}

theorem Published.matchesSubject (h : LogInvariant config store)
    (hpublished : Published config store result facts) (subject : String) {row : EventRow}
    (hrow : row ∈ store.events) :
    result.matchesSubject subject row = store.matchesSubject subject row := by
  have hnew : ((publishedIncidence (store.head + 1) facts).any fun entry ↦
      entry.1 == row.position && entry.2 == subject) = false := by
    rw [List.any_eq_false]
    intro entry hentry
    have hbounds := mem_publishedIncidence hentry
    have hposition := h.mem_position hrow
    rw [h.head_eq] at hbounds
    have hne : entry.1 ≠ row.position := by omega
    simp [hne]
  rw [Store.matchesSubject, Store.matchesSubject, hpublished.incidence, List.any_append, hnew,
    Bool.or_false]

variable {row : CursorRow}

theorem lookup_withCursor : (store.withCursor config row time).cursors[token]? =
      if config.uuids.uuid .cursor store.draws.cursor = token then
        some { row with expires := time + MINIMUM_CURSOR_LIFETIME_SECONDS * 1000 }
      else store.cursors[token]? := Table.lookup_insert

section

variable (h : CursorInvariant config store)
include h

theorem CursorInvariant.save (hwindow : row.afterPosition ≤ row.throughPosition ∧
      row.throughPosition ≤ store.events.length) :
    CursorInvariant config (store.withCursor config row time) where
  drawn token htoken := by
    rcases Table.mem_insert.mp htoken with rfl | htoken
    · exact ⟨store.draws.cursor, Nat.lt_succ_self _, rfl⟩
    · obtain ⟨index, hindex, rfl⟩ := h.drawn token htoken
      exact ⟨index, Nat.lt_succ_of_lt hindex, rfl⟩
  window token found hfound := by
    rw [lookup_withCursor] at hfound
    split at hfound
    · rw [← Option.some.inj hfound]
      exact hwindow
    · exact h.window token found hfound

theorem CursorInvariant.fresh {index : ℕ}
    (hindex : store.draws.cursor ≤ index) : config.uuids.uuid .cursor index ∉ store.cursors := by
  intro hmem
  obtain ⟨other, hother, heq⟩ := h.drawn _ hmem
  have hsame := (config.uuids.uuid_inj).mp heq
  omega

theorem CursorInvariant.save_continues (row : CursorRow)
    (time : ℕ) : Continues store (store.withCursor config row time) where
  events := ⟨[], by simp [Store.withCursor]⟩
  matching _ _ _ := rfl
  cursors token found hfound := by
    rw [lookup_withCursor, if_neg, hfound]
    rintro rfl
    exact h.fresh le_rfl (Table.mem_of_lookup hfound)
  identities _ _ hid := hid

theorem CursorInvariant.congr
    (hcursors : result.cursors = store.cursors) (hdraws : store.draws.Le result.draws)
    (hpublished : Published config store result facts) : CursorInvariant config result where
  drawn token htoken := by
    rw [hcursors] at htoken
    obtain ⟨index, hindex, heq⟩ := h.drawn token htoken
    exact ⟨index, hindex.trans_le hdraws.cursor, heq⟩
  window token row hrow := by
    rw [hcursors] at hrow
    have hwindow := h.window token row hrow
    refine ⟨hwindow.1, hwindow.2.trans ?_⟩
    rw [hpublished.events, List.length_append]
    exact Nat.le_add_right _ _

end

theorem Step.cursors_eq (h : Step config store result) : result.cursors = store.cursors ∨
      ∃ principal source subject selection clock page rows,
        store.eventPage config principal source subject selection clock =
          .ok (result, page, rows) := by
  cases h with
  | same => exact Or.inl rfl
  | paged principal source subject selection clock result page rows read =>
    exact Or.inr ⟨principal, source, subject, selection, clock, page, rows, read⟩
  | decided principal key captured context middle outcome fresh captures guards effect capacity =>
    exact Or.inl effect.sameDecisions.cursors
  | refusedBatch => exact Or.inl rfl
  | acceptedBatch => exact Or.inl rfl

end Continuation

variable {later : Owner}

section Pages

variable {principal source subject : String} {selection : EventSelection} {clock : ℕ → ℕ}
  {page : EventPage} {rows : List EventRow} {span : ℕ × ℕ}

/-- Where a selection starts: at a position of the log, or where its cursor stands. -/
def Store.startPosition (store : Store) (selection : EventSelection) : ℕ :=
  match selection.after with
  | none => if selection.start = some .now then store.head else 0
  | some token => (store.cursors[token]?.map CursorRow.afterPosition).getD 0

/-- Where the window of a selection ends: at the head, or where a page was cut before. -/
def Store.endPosition (store : Store) (selection : EventSelection) : ℕ :=
  match selection.after.bind fun token ↦ store.cursors[token]? with
  | some cursor => if cursor.mode = .next then cursor.throughPosition else store.head
  | none => store.head

/-- A selection whose cursor, if it has one, is a cursor of the reader that has not expired. -/
def Store.Usable (store : Store) (principal source subject : String) (selection : EventSelection)
    (time : ℕ) : Prop :=
  ∀ token ∈ selection.after, time ≤ MAX_TIME ∧ ∃ cursor, store.cursors[token]? = some cursor ∧
    cursor.principal = principal ∧ cursor.source = source ∧ cursor.subject = subject ∧
    cursor.pageLimit = selection.limit ∧ time < cursor.expires

theorem eventWindow_eq_ok : store.eventWindow principal source subject selection time = .ok span ↔
      store.Usable principal source subject selection time ∧
        span = (store.startPosition selection, store.endPosition selection) := by
  unfold Store.eventWindow Store.Usable Store.startPosition Store.endPosition
  cases hafter : selection.after with
  | none => simp [eq_comm]
  | some token =>
    cases hcursor : store.cursors[token]? with
    | none => simp [hcursor]
    | some cursor =>
      simp only [Option.mem_def, Option.some.injEq, forall_eq', bind_some, hcursor,
        map_some, getD_some, exists_eq_left']
      rw [check_bind_eq_ok, Except.bind_eq_ok]
      constructor
      · rintro ⟨hview, instant, hnow, hwindow⟩
        obtain ⟨htime, rfl⟩ := now_eq_ok.mp hnow
        rw [check_bind_eq_ok, Except.pure_eq_ok_iff] at hwindow
        exact ⟨⟨htime, hview.1, hview.2.1, hview.2.2.1, hview.2.2.2, hwindow.1⟩, hwindow.2⟩
      · rintro ⟨⟨htime, hprincipal, hsource, hsubject, hlimit, hexpires⟩, hwindow⟩
        refine ⟨⟨hprincipal, hsource, hsubject, hlimit⟩, time, now_eq_ok.mpr ⟨htime, rfl⟩, ?_⟩
        rw [check_bind_eq_ok, Except.pure_eq_ok_iff]
        exact ⟨hexpires, hwindow⟩

theorem ReadInvariant.window_le (h : ReadInvariant config store) (selection : EventSelection) :
    store.startPosition selection ≤ store.endPosition selection ∧
      store.endPosition selection ≤ store.events.length := by
  have hhead := h.log.head_eq
  unfold Store.startPosition Store.endPosition
  cases selection.after with
  | none =>
    dsimp only [Option.bind_none]
    split <;> omega
  | some token =>
    cases hcursor : store.cursors[token]? with
    | none =>
      simp only [bind_some, hcursor, Option.map_none, Option.getD_none]
      omega
    | some cursor =>
      have hwindow := h.cursors.window token cursor hcursor
      simp only [bind_some, hcursor, map_some, getD_some]
      split <;> omega

/-- What a page that was read holds and saves. -/
structure PageSpec (config : StoreConfiguration) (store result : Store)
    (principal source subject : String) (selection : EventSelection) (clock : ℕ → ℕ)
    (page : EventPage) (scanned : ℕ) : Prop where
  events : page.events = (store.matching subject (store.startPosition selection) scanned).map
    fun row ↦ underSource source row.fact.toJson
  start_le : store.startPosition selection ≤ scanned
  le_end : scanned ≤ store.endPosition selection
  complete : page.next = none → scanned = store.endPosition selection
  full : page.next ≠ none → page.events.length = selection.limit
  resume : result.cursors[page.cursor]? = some
    { pageCursor principal source subject selection.limit scanned (store.endPosition selection)
        .resume with expires := clock 1 + MINIMUM_CURSOR_LIFETIME_SECONDS * 1000 }
  next : ∀ token ∈ page.next, result.cursors[token]? = some
    { pageCursor principal source subject selection.limit scanned (store.endPosition selection)
        .next with expires := clock 2 + MINIMUM_CURSOR_LIFETIME_SECONDS * 1000 }

variable {through : ℕ}

theorem ReadInvariant.save_page (h : ReadInvariant config store) {scanned : ℕ}
    (hscanned : scanned ≤ through) (hthrough : through ≤ store.events.length) (limit : ℕ)
    (more : Bool) : CursorInvariant config (store.withPageCursors config principal source subject
        limit scanned through more clock) ∧
      Continues store (store.withPageCursors config principal source subject limit scanned through
        more clock) := by
  have hresumed : CursorInvariant config (store.withCursor config (pageCursor principal source
      subject limit scanned through .resume) (clock 1)) := h.cursors.save ⟨hscanned, hthrough⟩
  have hcontinues := h.cursors.save_continues (pageCursor principal source subject limit scanned
    through .resume) (clock 1)
  unfold Store.withPageCursors
  cases more with
  | false => exact ⟨hresumed, hcontinues⟩
  | true =>
    exact ⟨hresumed.save ⟨hscanned, hthrough⟩, hcontinues.trans (hresumed.save_continues _ _)⟩

theorem lookup_withPageCursors_resume (limit scanned through : ℕ) (more : Bool) :
    (store.withPageCursors config principal source subject limit scanned through more clock).cursors[
        config.uuids.uuid .cursor store.draws.cursor]? =
      some { pageCursor principal source subject limit scanned through .resume with
        expires := clock 1 + MINIMUM_CURSOR_LIFETIME_SECONDS * 1000 } := by
  unfold Store.withPageCursors
  cases more with
  | false => exact lookup_withCursor.trans (if_pos rfl)
  | true =>
    dsimp only
    rw [if_pos rfl, lookup_withCursor, if_neg]
    · exact lookup_withCursor.trans (if_pos rfl)
    · intro heq
      have hsame := config.uuids.uuid_inj.mp heq
      simp [Store.withCursor] at hsame

theorem lookup_withPageCursors_next (limit scanned through : ℕ) :
    (store.withPageCursors config principal source subject limit scanned through true clock).cursors[
        config.uuids.uuid .cursor (store.draws.cursor + 1)]? =
      some { pageCursor principal source subject limit scanned through .next with
        expires := clock 2 + MINIMUM_CURSOR_LIFETIME_SECONDS * 1000 } :=
  lookup_withCursor.trans (if_pos rfl)

theorem ReadPage.spec (hinvariant : ReadInvariant config store)
    (h : ReadPage config store result principal source subject selection clock page rows span) :
    ∃ scanned, PageSpec config store result principal source subject selection clock page scanned ∧
      CursorInvariant config result ∧ Continues store result := by
  obtain ⟨-, rfl⟩ := eventWindow_eq_ok.mp h.window_eq
  obtain ⟨hstart, hend⟩ := hinvariant.window_le selection
  have hrows : store.pageRows subject (store.startPosition selection, store.endPosition selection)
      selection.limit = (window EventRow.position (store.matchesSubject subject)
        (store.startPosition selection) (store.endPosition selection) store.events).take
          (selection.limit + 1) := by
    rw [pageRows_eq, hinvariant.log.matching_eq]
  obtain ⟨hpage, hle, hscanned⟩ := page_eq_window hinvariant.log.ascending selection.limit_pos
    hstart hrows
  rw [← scannedPosition_eq, ← hinvariant.log.matching_eq] at hpage
  rw [← scannedPosition_eq] at hle hscanned
  have hevents := h.events_eq
  rw [h.rows_eq, hpage] at hevents
  have hsaved : ∀ more, CursorInvariant config (store.withPageCursors config principal source
      subject selection.limit _ _ more clock) ∧ _ :=
    hinvariant.save_page hscanned hend selection.limit
  refine ⟨_, ⟨hevents, hle, hscanned, fun hnext ↦ ?_, fun hnext ↦ ?_, ?_, fun token htoken ↦ ?_⟩,
    ?_, ?_⟩
  · rw [h.next_eq] at hnext
    unfold scannedPosition
    split at hnext
    · cases hnext
    · next hmore => rw [if_neg hmore]
  · rw [h.next_eq] at hnext
    split at hnext
    · next hmore =>
      rw [h.events_eq, h.rows_eq, List.length_map, List.length_take,
        Nat.min_eq_left (Nat.le_of_lt hmore)]
    · exact absurd rfl hnext
  · rw [h.cursor_eq, h.result_eq]
    exact lookup_withPageCursors_resume _ _ _ _
  · rw [h.next_eq] at htoken
    split at htoken
    · next hmore =>
      rw [← Option.some.inj htoken, h.result_eq, decide_eq_true hmore]
      exact lookup_withPageCursors_next _ _ _
    · cases htoken
  · rw [h.result_eq]
    exact (hsaved _).1
  · rw [h.result_eq]
    exact (hsaved _).2

theorem ReadInvariant.step (h : ReadInvariant config store) (hstep : Step config store result) :
    ReadInvariant config result ∧ Continues store result := by
  obtain ⟨facts, hpublished⟩ := hstep.published
  have hlog := h.log.published hpublished
  have hgraph := h.graph.step hstep
  rcases hstep.cursors_eq with hcursors | ⟨principal, source, subject, selection, clock, page, rows,
    hread⟩
  · have hkept : ∀ (token : String) (row : CursorRow), store.cursors[token]? = some row →
        result.cursors[token]? = some row := by
      intro token row hrow
      rw [hcursors, hrow]
    exact ⟨⟨hlog, h.cursors.congr hcursors hstep.draws_le hpublished, hgraph⟩,
      ⟨_, hpublished.events⟩, fun subject row hrow ↦ hpublished.matchesSubject h.log subject hrow,
      hkept, hstep.identitiesKept h.graph⟩
  · obtain ⟨span, hpage⟩ := eventPage_eq_ok hread
    obtain ⟨scanned, -, hcursors, hcontinues⟩ := hpage.spec h
    exact ⟨⟨hlog, hcursors, hgraph⟩, hcontinues⟩

variable {owner : Owner}

theorem readInvariant_of_reachable (h : owner.Reachable config) :
    ReadInvariant config owner.store :=
  h.invariant ⟨logInvariant_empty, cursorInvariant_empty, graphInvariant_empty⟩
    fun _ _ hinvariant hstep ↦ (hinvariant.step hstep).1

theorem Owner.Run.continues (h : owner.Reachable config)
    (run : Owner.Run config owner later) : Continues owner.store later.store := by
  have hboth : ReadInvariant config later.store ∧ Continues owner.store later.store := by
    refine run.invariant (P := fun store ↦ ReadInvariant config store ∧
      Continues owner.store store) ⟨readInvariant_of_reachable h, .refl _⟩ ?_
    intro store result hstore hstep
    have hnext := hstore.1.step hstep
    exact ⟨hnext.1, hstore.2.trans hnext.2⟩
  exact hboth.2

theorem Owner.Run.trans {first second third : Owner} (h : Owner.Run config first second)
    (h' : Owner.Run config second third) : Owner.Run config first third := by
  induction h' with
  | refl => exact h
  | served request clock _ ih => exact ih.served request clock
  | reopened _ ih => exact ih.reopened

theorem Continues.matching_eq {later : Store} (h : Continues store later)
    (hstore : LogInvariant config store) (hlater : LogInvariant config later) (subject : String)
    (hthrough : through ≤ store.events.length) :
    later.matching subject after through = store.matching subject after through := by
  obtain ⟨more, hmore⟩ := h.events
  have habove : ∀ row ∈ more, through < row.position := by
    intro row hrow
    have hpositions := hlater.positions
    rw [hmore, List.map_append, hstore.positions, List.length_append,
      ← range'_append_of_eq (Nat.add_comm store.events.length 1)] at hpositions
    have htail := List.append_cancel_left hpositions
    have hmem : row.position ∈ more.map EventRow.position := List.mem_map_of_mem hrow
    rw [htail, List.mem_range'_1] at hmem
    omega
  calc later.matching subject after through
      = window EventRow.position (later.matchesSubject subject) after through later.events :=
        hlater.matching_eq subject after through
    _ = window EventRow.position (later.matchesSubject subject) after through store.events := by
        rw [hmore, window_append_of_lt habove]
    _ = window EventRow.position (store.matchesSubject subject) after through store.events :=
        window_congr (h.matching subject)
    _ = store.matching subject after through := (hstore.matching_eq subject after through).symm

end Pages

section Following

def pageRequest (config : StoreConfiguration) (principal source subject : String)
    (selection : EventSelection) : Request config := .events principal source subject selection

/-- A reader that has read a first page from `start` and followed cursors since then, with any
requests served in between: the owner, its last page, and everything delivered so far. -/
inductive Follow (config : StoreConfiguration) (principal source subject : String) (limit start : ℕ) :
    Owner → EventPage → List Json → Prop where
  | started (owner : Owner) (selection : EventSelection) (clock : ℕ → ℕ) (page : EventPage)
      (reachable : owner.Reachable config) (limit_eq : selection.limit = limit)
      (start_eq : owner.store.startPosition selection = start)
      (reply : (owner.serve (pageRequest config principal source subject selection) clock).2 =
        .page page) :
      Follow config principal source subject limit start
        (owner.serve (pageRequest config principal source subject selection) clock).1 page
        page.events
  | continued {owner later : Owner} {page next : EventPage} {delivered : List Json}
      (token : String) (selection : EventSelection) (clock : ℕ → ℕ)
      (follow : Follow config principal source subject limit start owner page delivered)
      (run : Owner.Run config owner later) (limit_eq : selection.limit = limit)
      (after_eq : selection.after = some token)
      (token_eq : token = page.cursor ∨ page.next = some token)
      (reply : (later.serve (pageRequest config principal source subject selection) clock).2 =
        .page next) :
      Follow config principal source subject limit start
        (later.serve (pageRequest config principal source subject selection) clock).1 next
        (delivered ++ next.events)

variable {principal source subject : String} {limit start : ℕ}

theorem serve_pageRequest (owner : Owner) (selection : EventSelection) (clock : ℕ → ℕ) :
    owner.serve (pageRequest config principal source subject selection) clock =
      owner.transaction ((pageRequest config principal source subject selection).decide clock) := by
  have hdecides : ¬ ((pageRequest config principal source subject selection).decides = true ∧
      (pageRequest config principal source subject selection).principal = "") := by
    simp [pageRequest, Request.decides]
  rw [Owner.serve, if_neg hdecides]

variable {owner : Owner} {page : EventPage} {selection : EventSelection} {clock : ℕ → ℕ}

theorem serve_page_eq :
    (owner.serve (pageRequest config principal source subject selection) clock).2 = .page page ↔
      owner.fenced = false ∧ ∃ result rows,
        owner.store.eventPage config principal source subject selection clock =
          .ok (result, page, rows) ∧
        (owner.serve (pageRequest config principal source subject selection) clock).1 =
          { owner with store := result } := by
  rw [serve_pageRequest, Owner.transaction, pageRequest]
  cases hfenced : owner.fenced with
  | true => simp
  | false =>
    cases hread : owner.store.eventPage config principal source subject selection clock with
    | error failure => simp [Request.decide, hread]
    | ok read =>
      obtain ⟨result, read, rows⟩ := read
      simp [Request.decide, hread, eq_comm]

/-- What a reader has when it has followed cursors to a page. -/
structure Reader (config : StoreConfiguration) (principal source subject : String)
    (limit start : ℕ) (owner : Owner) (page : EventPage) (delivered : List Json)
    (scanned through : ℕ) : Prop where
  reachable : owner.Reachable config
  subject_known : subject = "" ∨ subject ∈ owner.store.identities
  delivered_eq : delivered = (owner.store.matching subject start scanned).map
    fun row ↦ underSource source row.fact.toJson
  start_le : start ≤ scanned
  scanned_le : scanned ≤ through
  through_le : through ≤ owner.store.events.length
  complete : page.next = none → scanned = through
  resume : ∃ expires, owner.store.cursors[page.cursor]? = some
    { pageCursor principal source subject limit scanned through .resume with expires }
  next : ∀ token ∈ page.next, ∃ expires, owner.store.cursors[token]? = some
    { pageCursor principal source subject limit scanned through .next with expires }

variable {delivered : List Json}

theorem Reader.read (reachable : owner.Reachable config)
    (hstart : start ≤ owner.store.startPosition selection)
    (hdelivered : delivered = (owner.store.matching subject start
      (owner.store.startPosition selection)).map fun row ↦ underSource source row.fact.toJson)
    (reply : (owner.serve (pageRequest config principal source subject selection) clock).2 =
      .page page) :
    ∃ scanned, owner.store.startPosition selection ≤ scanned ∧
      (page.next ≠ none → page.events.length = selection.limit) ∧
      Reader config principal source subject selection.limit start
        (owner.serve (pageRequest config principal source subject selection) clock).1 page
        (delivered ++ page.events) scanned (owner.store.endPosition selection) := by
  obtain ⟨-, result, rows, hread, howner⟩ := serve_page_eq.mp reply
  have hinvariant := readInvariant_of_reachable reachable
  obtain ⟨span, hpage⟩ := eventPage_eq_ok hread
  obtain ⟨scanned, hspec, hcursors, hcontinues⟩ := hpage.spec hinvariant
  have hreachable := Owner.Run.served (pageRequest config principal source subject selection)
    clock reachable
  have hresult := readInvariant_of_reachable hreachable
  rw [howner] at hreachable hresult ⊢
  have hend := (hinvariant.window_le selection).2
  obtain ⟨more, hmore⟩ := hcontinues.events
  refine ⟨scanned, hspec.start_le, hspec.full, hreachable, ?_, ?_, hstart.trans hspec.start_le,
    hspec.le_end, ?_, hspec.complete, ⟨_, hspec.resume⟩, fun token htoken ↦
      ⟨_, hspec.next token htoken⟩⟩
  · refine hpage.subject_known.imp_right fun hsubject ↦ ?_
    obtain ⟨kind, hkind⟩ := Table.mem_iff_exists.mp hsubject
    exact Table.mem_of_lookup (hcontinues.identities subject kind hkind)
  · rw [hspec.events, hdelivered, ← List.map_append,
      hinvariant.log.matching_join subject hstart hspec.start_le,
      hcontinues.matching_eq hinvariant.log hresult.log subject (hspec.le_end.trans hend)]
  · dsimp only
    rw [hmore, List.length_append]
    exact hend.trans (Nat.le_add_right _ _)

variable {through scanned : ℕ}

section

variable (h : Reader config principal source subject limit start owner page delivered scanned through)
include h

theorem Reader.run (run : Owner.Run config owner later) :
    Reader config principal source subject limit start later page delivered scanned through := by
  have hcontinues := run.continues h.reachable
  have hreachable : later.Reachable config := Owner.Run.trans h.reachable run
  obtain ⟨more, hmore⟩ := hcontinues.events
  refine ⟨hreachable, ?_, ?_, h.start_le, h.scanned_le, ?_, h.complete, ?_, ?_⟩
  · refine h.subject_known.imp_right fun hsubject ↦ ?_
    obtain ⟨kind, hkind⟩ := Table.mem_iff_exists.mp hsubject
    exact Table.mem_of_lookup (hcontinues.identities subject kind hkind)
  · rw [h.delivered_eq, hcontinues.matching_eq (logInvariant_of_reachable h.reachable)
      (logInvariant_of_reachable hreachable) subject (h.scanned_le.trans h.through_le)]
  · rw [hmore, List.length_append]
    exact h.through_le.trans (Nat.le_add_right _ _)
  · obtain ⟨expires, hresume⟩ := h.resume
    exact ⟨expires, hcontinues.cursors _ _ hresume⟩
  · intro token htoken
    obtain ⟨expires, hnext⟩ := h.next token htoken
    exact ⟨expires, hcontinues.cursors _ _ hnext⟩

theorem Reader.cursor (htoken : token = page.cursor ∨ page.next = some token) :
    ∃ mode expires, owner.store.cursors[token]? = some
      { pageCursor principal source subject limit scanned through mode with expires } ∧
        (token = page.cursor → mode = .resume) := by
  rcases htoken with rfl | htoken
  · obtain ⟨expires, hresume⟩ := h.resume
    exact ⟨.resume, expires, hresume, fun _ ↦ rfl⟩
  · obtain ⟨expires, hnext⟩ := h.next token htoken
    refine ⟨.next, expires, hnext, fun heq ↦ ?_⟩
    obtain ⟨expires', hresume⟩ := h.resume
    rw [← heq, hnext] at hresume
    cases Option.some.inj hresume

theorem Reader.window (hafter : selection.after = some token)
    (htoken : token = page.cursor ∨ page.next = some token) :
    owner.store.startPosition selection = scanned ∧
      (owner.store.endPosition selection = owner.store.head ∨
        (token ≠ page.cursor ∧ owner.store.endPosition selection = through)) := by
  obtain ⟨mode, expires, hcursor, hmode⟩ := h.cursor htoken
  unfold Store.startPosition Store.endPosition
  simp only [hafter, bind_some, hcursor, map_some, getD_some]
  refine ⟨rfl, ?_⟩
  cases mode with
  | resume => exact Or.inl rfl
  | next =>
    refine Or.inr ⟨fun heq ↦ ?_, rfl⟩
    cases hmode heq

end

theorem Follow.reader
    (h : Follow config principal source subject limit start owner page delivered) :
    ∃ scanned through,
      Reader config principal source subject limit start owner page delivered scanned through := by
  induction h with
  | started owner selection clock page reachable limit_eq start_eq reply =>
    have hself : ([] : List Json) = (owner.store.matching subject start
        (owner.store.startPosition selection)).map
          fun row ↦ underSource source row.fact.toJson := by
      rw [start_eq, Store.matching, window_self, List.map_nil]
    obtain ⟨scanned, -, -, hreader⟩ := Reader.read reachable (Nat.le_of_eq start_eq.symm) hself reply
    rw [limit_eq] at hreader
    exact ⟨_, _, hreader⟩
  | continued token selection clock follow run limit_eq after_eq token_eq reply ih =>
    obtain ⟨scanned, through, hreader⟩ := ih
    have hlater := hreader.run run
    have hstart := (hlater.window after_eq token_eq).1
    have hdelivered := hlater.delivered_eq
    rw [← hstart] at hdelivered
    obtain ⟨next, -, -, hnext⟩ := Reader.read hlater.reachable
      (by rw [hstart]; exact hlater.start_le) hdelivered reply
    rw [limit_eq] at hnext
    exact ⟨_, _, hnext⟩

theorem LogInvariant.boundary_ok (h : LogInvariant config store) {position : ℕ}
    (hposition : position ≤ store.events.length) : ∃ token, store.boundary position = .ok token := by
  have hmem : position ∈ store.boundaries.map Prod.fst := by
    rw [h.boundaries, List.mem_range'_1]
    omega
  obtain ⟨entry, hentry, rfl⟩ := List.mem_map.mp hmem
  cases hlookup : store.boundaries.lookup entry.1 with
  | none => exact absurd (List.lookup_eq_none_iff.mp hlookup entry hentry) (by simp)
  | some token => exact ⟨token, by rw [Store.boundary, hlookup, require_some]⟩

theorem ReadInvariant.eventPage_ok
    (h : ReadInvariant config store) (hsubject : subject = "" ∨ subject ∈ store.identities)
    (husable : store.Usable principal source subject selection (clock 0))
    (hclock : ∀ reading, clock reading ≤ MAX_TIME) :
    ∃ result page rows, store.eventPage config principal source subject selection clock =
      .ok (result, page, rows) := by
  obtain ⟨hwindow, hend⟩ := h.window_le selection
  have hresumed (row : CursorRow) : store.saveCursor config row (clock 1) =
      .ok (_, store.withCursor config row (clock 1)) :=
    saveCursor_eq_ok.mpr ⟨hclock 1, h.cursors.fresh le_rfl, rfl, rfl⟩
  have hcut (first row : CursorRow) : config.uuids.uuid .cursor (store.draws.cursor + 1) ∉
      (store.withCursor config first (clock 1)).cursors := by
    intro hmem
    rcases Table.mem_insert.mp hmem with heq | hmem
    · have hsame := config.uuids.uuid_inj.mp heq
      omega
    · exact h.cursors.fresh (Nat.le_succ _) hmem
  have hnext (first row : CursorRow) (more : Bool) : ∃ next last,
      (store.withCursor config first (clock 1)).saveNextCursor config more row (clock 2) =
        .ok (next, last) ∧ last.boundaries = store.boundaries := by
    unfold Store.saveNextCursor
    cases more with
    | false => exact ⟨none, _, rfl, rfl⟩
    | true =>
      refine ⟨some (config.uuids.uuid .cursor (store.draws.cursor + 1)),
        (store.withCursor config first (clock 1)).withCursor config row (clock 2), ?_, rfl⟩
      rw [if_pos rfl, saveCursor_eq_ok.mpr ⟨hclock 2, hcut first row, rfl, rfl⟩]
      rfl
  unfold Store.eventPage
  rw [check_of (by simpa using hsubject), Except.ok_bind, eventWindow_eq_ok.mpr ⟨husable, rfl⟩,
    Except.ok_bind]
  dsimp only
  rw [hresumed, Except.ok_bind]
  dsimp only
  obtain ⟨next, last, hlast, hboundaries⟩ := hnext _ _ _
  obtain ⟨first, hfirst⟩ := h.log.boundary_ok (Nat.zero_le _)
  obtain ⟨final, hfinal⟩ := h.log.boundary_ok hend
  have hfirst' : last.boundary 0 = .ok first := by rwa [Store.boundary, hboundaries]
  have hfinal' : last.boundary (store.endPosition selection) = .ok final := by
    rwa [Store.boundary, hboundaries]
  rw [hlast, Except.ok_bind]
  dsimp only
  rw [hfirst', Except.ok_bind, hfinal', Except.ok_bind]
  exact ⟨_, _, _, rfl⟩

theorem Reader.next_page
    (h : Reader config principal source subject limit start owner page delivered scanned through)
    (hopen : owner.fenced = false) (hlimit : selection.limit = limit)
    (hafter : selection.after = some token) (htoken : token = page.cursor ∨ page.next = some token)
    (hclock : ∀ reading, clock reading ≤ MAX_TIME)
    (hexpires : ∀ cursor, owner.store.cursors[token]? = some cursor → clock 0 < cursor.expires) :
    ∃ next, (owner.serve (pageRequest config principal source subject selection) clock).2 =
      .page next := by
  have hinvariant := readInvariant_of_reachable h.reachable
  have husable : owner.store.Usable principal source subject selection (clock 0) := by
    intro other hother
    rw [hafter, Option.mem_def, Option.some.injEq] at hother
    subst hother
    obtain ⟨mode, expires, hcursor, -⟩ := h.cursor htoken
    exact ⟨hclock 0, _, hcursor, rfl, rfl, rfl, hlimit.symm, hexpires _ hcursor⟩
  obtain ⟨result, next, rows, hread⟩ := hinvariant.eventPage_ok h.subject_known husable hclock
  refine ⟨next, serve_page_eq.mpr ⟨hopen, result, rows, hread, ?_⟩⟩
  rw [serve_pageRequest, Owner.transaction, if_neg (by simp [hopen])]
  simp [pageRequest, Request.decide, hread]

/-- Following the cursors of event pages, with any requests served between two reads. What has been
delivered is, in position order and each once, every matching event above the start up to the
position that was scanned; a page without a next cursor has scanned its whole window. Every cursor
that is used before it expires delivers the next page from exactly there on, and each page that was
cut is full, so a reader that keeps on following misses nothing up to the head. -/
theorem follow_exactly_once {owner : Owner} {page : EventPage} {delivered : List Json}
    (h : Follow config principal source subject limit start owner page delivered) :
    ∃ scanned through, start ≤ scanned ∧ scanned ≤ through ∧ through ≤ owner.store.head ∧
      (page.next = none → scanned = through) ∧
      delivered = ((owner.store.matching subject start scanned).map
        fun row ↦ underSource source row.fact.toJson) ∧
      ((owner.store.matching subject start scanned).Pairwise fun left right ↦
        left.position < right.position) ∧
      ∀ later token selection clock, Owner.Run config owner later → later.fenced = false →
        selection.limit = limit → selection.after = some token →
        (token = page.cursor ∨ page.next = some token) →
        (∀ reading, clock reading ≤ MAX_TIME) →
        (∀ cursor, later.store.cursors[token]? = some cursor → clock 0 < cursor.expires) →
        ∃ next scanned', scanned ≤ scanned' ∧
          (later.serve (pageRequest config principal source subject selection) clock).2 =
            .page next ∧
          next.events = ((later.store.matching subject scanned scanned').map
            fun row ↦ underSource source row.fact.toJson) ∧
          (next.next ≠ none → next.events.length = limit ∧ 0 < limit) ∧
          (next.next = none → scanned' = later.store.head ∨
            (token ≠ page.cursor ∧ scanned' = through)) := by
  obtain ⟨scanned, through, hreader⟩ := h.reader
  have hlog := logInvariant_of_reachable hreader.reachable
  refine ⟨scanned, through, hreader.start_le, hreader.scanned_le,
    by rw [hlog.head_eq]; exact hreader.through_le, hreader.complete, hreader.delivered_eq,
    hlog.matching_ascending subject start scanned, ?_⟩
  intro later token selection clock run hopen hlimit hafter htoken hclock hexpires
  have hlater := hreader.run run
  obtain ⟨next, hreply⟩ := hlater.next_page hopen hlimit hafter htoken hclock hexpires
  obtain ⟨hstart, hend⟩ := hlater.window hafter htoken
  -- the page itself is read with an empty past, from where the reader stands
  have hself : ([] : List Json) = (later.store.matching subject
      (later.store.startPosition selection) (later.store.startPosition selection)).map
        fun row ↦ underSource source row.fact.toJson := by
    rw [Store.matching, window_self, List.map_nil]
  obtain ⟨scanned', hscanned, hfull, hnext⟩ := Reader.read hlater.reachable le_rfl hself hreply
  obtain ⟨-, result, rows, hread, howner⟩ := serve_page_eq.mp hreply
  have hresult : LogInvariant config result := by
    have hlog := logInvariant_of_reachable hnext.reachable
    rwa [howner] at hlog
  have hinvariant := readInvariant_of_reachable hlater.reachable
  obtain ⟨span, hpage⟩ := eventPage_eq_ok hread
  obtain ⟨-, -, -, hcontinues⟩ := hpage.spec hinvariant
  have hevents := hnext.delivered_eq
  rw [howner, List.nil_append] at hevents
  dsimp only at hevents
  rw [hcontinues.matching_eq hinvariant.log hresult subject
    (hnext.scanned_le.trans (hinvariant.window_le selection).2), hstart] at hevents
  refine ⟨next, scanned', by omega, hreply, hevents, fun hcut ↦ ?_, fun hdone ↦ ?_⟩
  · rw [hfull hcut, hlimit, ← hlimit]
    exact ⟨rfl, selection.limit_pos⟩
  · rw [hnext.complete hdone]
    exact hend

theorem exists_follow (selection : EventSelection) (clock : ℕ → ℕ)
    (reachable : owner.Reachable config) (hopen : owner.fenced = false)
    (hstart : selection.after = none ∧ selection.start ≠ some .now)
    (hclock : ∀ reading, clock reading ≤ MAX_TIME) :
    ∃ later page, Follow config principal source "" selection.limit 0 later page page.events := by
  have hposition : owner.store.startPosition selection = 0 := by
    simp [Store.startPosition, hstart]
  have husable : owner.store.Usable principal source "" selection (clock 0) := by
    intro token htoken
    simp [hstart.1] at htoken
  obtain ⟨result, page, rows, hread⟩ :=
    (readInvariant_of_reachable reachable).eventPage_ok (Or.inl rfl) husable hclock
  refine ⟨_, page, .started owner selection clock page reachable rfl hposition ?_⟩
  refine serve_page_eq.mpr ⟨hopen, result, rows, hread, ?_⟩
  rw [serve_pageRequest, Owner.transaction, if_neg (by simp [hopen])]
  simp [pageRequest, Request.decide, hread]

/-- A selection of the whole log by pages of one event. -/
def wholeLog : EventSelection :=
  { start := some .retained, after := none, limit := 1, exclusive := Or.inr rfl
    limit_pos := by decide, limit_le := by decide }

def behindCursor (token : String) : EventSelection :=
  { start := none, after := some token, limit := 1, exclusive := Or.inl rfl
    limit_pos := by decide, limit_le := by decide }

def Reply.page? : Reply → Option EventPage
  | Reply.page found => some found
  | _ => none

theorem reply_of_page? {reply : Reply} (h : reply.page? = some page) : reply = .page page := by
  cases reply with
  | page found => rw [Option.some.inj h]
  | response stored => cases h
  | failed failure => cases h

/-- The first page of the log of a Bead and a Link. -/
def firstRead : Owner × Reply :=
  linkedOwner.serve (pageRequest (countedConfiguration .historical) "p" "https://h/e" "" wholeLog)
    fun _ ↦ 2

def secondRead : Owner × Reply :=
  firstRead.1.serve (pageRequest (countedConfiguration .historical) "p" "https://h/e" ""
    (behindCursor "c1")) fun _ ↦ 3

/-- The two pages hold one event each, and together the whole log. -/
theorem follow_exactly_once_linked : ∃ first second,
    firstRead.2 = .page first ∧ first.next = some "c1" ∧ first.events.length = 1 ∧
      secondRead.2 = .page second ∧ second.next = none ∧ second.events.length = 1 ∧
      ∃ scanned, first.events ++ second.events = (secondRead.1.store.matching "" 0 scanned).map
        fun row ↦ underSource "https://h/e" row.fact.toJson := by
  obtain ⟨hfirst, hsecond⟩ : (firstRead.2.page?.map fun page ↦ (page.next, page.events.length)) =
        some (some "c1", 1) ∧
      (secondRead.2.page?.map fun page ↦ (page.next, page.events.length)) = some (none, 1) := by
    decide +kernel
  obtain ⟨first, hpage, hnext⟩ := Option.map_eq_some_iff.mp hfirst
  obtain ⟨second, hpage', hnext'⟩ := Option.map_eq_some_iff.mp hsecond
  obtain ⟨hnext, hlength⟩ := Prod.mk.inj hnext
  obtain ⟨hnext', hlength'⟩ := Prod.mk.inj hnext'
  have hfollow : Follow (countedConfiguration .historical) "p" "https://h/e" "" 1 0 secondRead.1
      second (first.events ++ second.events) :=
    .continued "c1" (behindCursor "c1") (fun _ ↦ 3)
      (.started linkedOwner wholeLog (fun _ ↦ 2) first linkedOwner_reachable rfl rfl
        (reply_of_page? hpage)) .refl rfl rfl (.inr hnext) (reply_of_page? hpage')
  obtain ⟨scanned, -, -, -, -, -, hdelivered, -⟩ := follow_exactly_once hfollow
  exact ⟨first, second, reply_of_page? hpage, hnext, hlength, reply_of_page? hpage', hnext',
    hlength', scanned, hdelivered⟩

end Following

end Bdp.Retained
