import Bdp.Retained.Store

/-!
# Event pages

Reading the event log by pages. A page holds the first matching events of a window of positions;
its resume cursor continues after the scanned part, and a page that was cut has a next cursor that
also keeps the end of the window.
-/

namespace Bdp.Retained

open Bdp.Except (bind_eq_ok)

variable (config : StoreConfiguration)

def MINIMUM_CURSOR_LIFETIME_SECONDS : ℕ := 300

def MAXIMUM_PAGE_SIZE : ℕ := 100

inductive EventStart where
  | retained
  | now
  deriving DecidableEq, Repr

/-- A parsed selection; a start and a cursor exclude each other. -/
structure EventSelection where
  start : Option EventStart
  after : Option String
  limit : ℕ
  exclusive : start = none ∨ after = none
  limit_pos : 0 < limit
  limit_le : limit ≤ MAXIMUM_PAGE_SIZE

structure EventPage where
  /-- The bodies of the selected events under the source of the request. -/
  events : List Json
  /-- The boundaries of the covered positions: start and end of the window. -/
  start : String
  through : String
  cursor : String
  next : Option String
  deriving DecidableEq

def foreignView : Problem := problem "foreign-view" 409 "after-state-change"

def cursorExpired : Problem := problem "cursor-expired" 410 "after-state-change"

namespace Store

variable (store : Store)

def boundary (position : ℕ) : Except Failure String :=
  require (store.boundaries.lookup position) (.internal "missing coverage boundary")

/-- Insert a cursor under a drawn token, expiring after the minimum lifetime. -/
def saveCursor (row : CursorRow) (time : ℕ) : Except Failure (String × Store) := do
  let token := config.uuids.uuid .cursor store.draws.cursor
  let instant ← now time
  check (token ∉ store.cursors) (.database "cursors")
  pure (token, { store with
    cursors := store.cursors.insert token
      { row with expires := instant + MINIMUM_CURSOR_LIFETIME_SECONDS * 1000 }
    draws := { store.draws with cursor := store.draws.cursor + 1 } })

/-- A cut page also saves a cursor that keeps the end of its window. -/
def saveNextCursor (more : Bool) (row : CursorRow) (time : ℕ) :
    Except Failure (Option String × Store) :=
  if more then do
    let (token, store) ← store.saveCursor config row time
    pure (some token, store)
  else pure (none, store)

/-- The subject filter: the whole log, the events of a subject, and those it is incident to. -/
def matchesSubject (subject : String) (row : EventRow) : Bool :=
  subject == "" || row.subject == subject ||
    store.incidence.any fun entry ↦ entry.1 == row.position && entry.2 == subject

def eventsInOrder : List EventRow :=
  store.events.insertionSort fun left right ↦ left.position ≤ right.position

/-- The first matching rows of a window of positions. -/
def selectRows (subject : String) (after through count : ℕ) : List EventRow :=
  (store.eventsInOrder.filter fun row ↦
    decide (after < row.position) && decide (row.position ≤ through) &&
      store.matchesSubject subject row).take count

/-- The window of a selection: from its start, or from where its cursor stands. -/
def eventWindow (principal source subject : String) (selection : EventSelection) (time : ℕ) :
    Except Failure (ℕ × ℕ) :=
  match selection.after with
  | none => pure (if selection.start = some .now then store.head else 0, store.head)
  | some token =>
    match store.cursors[token]? with
    | none => .error (.request foreignView)
    | some cursor => do
      check (cursor.principal = principal ∧ cursor.source = source ∧ cursor.subject = subject ∧
        cursor.pageLimit = selection.limit) (.request foreignView)
      let instant ← now time
      check (instant < cursor.expires) (.request cursorExpired)
      pure (cursor.afterPosition,
        if cursor.mode = .next then cursor.throughPosition else store.head)

end Store

/-- The body of an event under the source of the request. -/
def underSource (source : String) (body : Json) : Json :=
  match body with
  | .object members => .object (spread members [("source", .string source)])
  | other => other

/-- The rows a page is cut from: one more than its limit, to see whether there are more. -/
def Store.pageRows (store : Store) (subject : String) (window : ℕ × ℕ) (limit : ℕ) :
    List EventRow :=
  store.selectRows subject window.1 window.2 (limit + 1)

def scannedPosition (rows : List EventRow) (limit through : ℕ) : ℕ :=
  if limit < rows.length then ((rows.take limit).getLast?.map EventRow.position).getD 0
  else through

def pageCursor (principal source subject : String) (limit scanned through : ℕ) (mode : CursorMode) :
    CursorRow :=
  { principal, source, subject, afterPosition := scanned, throughPosition := through
    pageLimit := limit, mode, expires := 0 }

/-- One page; the clock is read for the expiry of the cursor and for each cursor saved. -/
def Store.eventPage (principal source subject : String) (selection : EventSelection)
    (clock : ℕ → ℕ) (store : Store) : Except Failure (Store × EventPage × List EventRow) := do
  check (subject = "" ∨ store.isIdentity subject) (.request resourceNotFound)
  let window ← store.eventWindow principal source subject selection (clock 0)
  let rows := store.pageRows subject window selection.limit
  let more := decide (selection.limit < rows.length)
  let selected := rows.take selection.limit
  let row := pageCursor principal source subject selection.limit
    (scannedPosition rows selection.limit window.2) window.2
  let (cursor, store) ← store.saveCursor config (row .resume) (clock 1)
  let (next, store) ← store.saveNextCursor config more (row .next) (clock 2)
  let start ← store.boundary 0
  let through ← store.boundary window.2
  pure (store,
    { events := selected.map fun row ↦ underSource source row.fact.toJson
      start, through, cursor, next }, selected)

section Inversion

variable {config} {store result : Store}

/-- A saved cursor: its row under a drawn token, with the expiry of the clock reading. -/
def Store.withCursor (config : StoreConfiguration) (store : Store) (row : CursorRow) (time : ℕ) :
    Store :=
  { store with
    cursors := store.cursors.insert (config.uuids.uuid .cursor store.draws.cursor)
      { row with expires := time + MINIMUM_CURSOR_LIFETIME_SECONDS * 1000 }
    draws := { store.draws with cursor := store.draws.cursor + 1 } }

theorem saveCursor_eq_ok {row : CursorRow} {time : ℕ} {token : String} :
    store.saveCursor config row time = .ok (token, result) ↔
      time ≤ MAX_TIME ∧ config.uuids.uuid .cursor store.draws.cursor ∉ store.cursors ∧
        token = config.uuids.uuid .cursor store.draws.cursor ∧
        result = store.withCursor config row time := by
  unfold Store.saveCursor
  rw [bind_eq_ok]
  constructor
  · rintro ⟨instant, hnow, h⟩
    obtain ⟨htime, rfl⟩ := now_eq_ok.mp hnow
    rw [check_bind_eq_ok, Except.pure_eq_ok_iff, Prod.mk.injEq] at h
    exact ⟨htime, h⟩
  · rintro ⟨htime, h⟩
    refine ⟨time, now_eq_ok.mpr ⟨htime, rfl⟩, ?_⟩
    rw [check_bind_eq_ok, Except.pure_eq_ok_iff, Prod.mk.injEq]
    exact h

/-- The cursors that a page leaves in the store. -/
def Store.withPageCursors (config : StoreConfiguration) (store : Store)
    (principal source subject : String) (limit scanned through : ℕ) (more : Bool)
    (clock : ℕ → ℕ) : Store :=
  let resumed := store.withCursor config
    (pageCursor principal source subject limit scanned through .resume) (clock 1)
  if more then resumed.withCursor config
    (pageCursor principal source subject limit scanned through .next) (clock 2)
  else resumed

/-- What a page that was read says about the store. -/
structure ReadPage (config : StoreConfiguration) (store result : Store)
    (principal source subject : String) (selection : EventSelection) (clock : ℕ → ℕ)
    (page : EventPage) (rows : List EventRow) (window : ℕ × ℕ) : Prop where
  subject_known : subject = "" ∨ subject ∈ store.identities
  window_eq : store.eventWindow principal source subject selection (clock 0) = .ok window
  rows_eq : rows = (store.pageRows subject window selection.limit).take selection.limit
  cursor_eq : page.cursor = config.uuids.uuid .cursor store.draws.cursor
  next_eq : page.next = if selection.limit < (store.pageRows subject window selection.limit).length
    then some (config.uuids.uuid .cursor (store.draws.cursor + 1)) else none
  events_eq : page.events = rows.map fun row ↦ underSource source row.fact.toJson
  result_eq : result = store.withPageCursors config principal source subject selection.limit
    (scannedPosition (store.pageRows subject window selection.limit) selection.limit window.2)
    window.2 (decide (selection.limit < (store.pageRows subject window selection.limit).length))
    clock

variable {selection : EventSelection} {rows : List EventRow} {principal subject source : String}
  {page : EventPage} {clock : ℕ → ℕ}

theorem eventPage_eq_ok (h : store.eventPage config principal source subject selection clock =
      .ok (result, page, rows)) :
    ∃ window, ReadPage config store result principal source subject selection clock page rows
      window := by
  unfold Store.eventPage at h
  rw [check_bind_eq_ok, bind_eq_ok] at h
  obtain ⟨hsubject, window, hwindow, h⟩ := h
  refine ⟨window, ?_⟩
  rw [bind_eq_ok] at h
  obtain ⟨⟨cursor, resumed⟩, hresume, h⟩ := h
  obtain ⟨-, -, rfl, rfl⟩ := saveCursor_eq_ok.mp hresume
  rw [bind_eq_ok] at h
  obtain ⟨⟨next, finished⟩, hnext, h⟩ := h
  rw [bind_eq_ok] at h
  obtain ⟨start, -, h⟩ := h
  rw [bind_eq_ok] at h
  obtain ⟨through, -, h⟩ := h
  obtain ⟨rfl, hpage⟩ := Prod.mk.inj (Except.ok.inj h)
  obtain ⟨rfl, rfl⟩ := Prod.mk.inj hpage
  refine ⟨hsubject, hwindow, rfl, rfl, ?_, rfl, ?_⟩ <;> unfold Store.saveNextCursor at hnext <;>
    split at hnext
  · next hmore =>
    obtain ⟨⟨token, cut⟩, hcut, hnext⟩ := bind_eq_ok.mp hnext
    obtain ⟨rfl, rfl⟩ := Prod.mk.inj (Except.ok.inj hnext)
    rw [if_pos (of_decide_eq_true hmore)]
    exact congrArg some (saveCursor_eq_ok.mp hcut).2.2.1
  · next hmore =>
    obtain ⟨rfl, rfl⟩ := Prod.mk.inj (Except.ok.inj hnext)
    rw [if_neg (by simpa using hmore)]
  · next hmore =>
    obtain ⟨⟨token, cut⟩, hcut, hnext⟩ := bind_eq_ok.mp hnext
    obtain ⟨rfl, rfl⟩ := Prod.mk.inj (Except.ok.inj hnext)
    rw [Store.withPageCursors, if_pos hmore]
    exact (saveCursor_eq_ok.mp hcut).2.2.2
  · next hmore =>
    obtain ⟨rfl, rfl⟩ := Prod.mk.inj (Except.ok.inj hnext)
    rw [Store.withPageCursors, if_neg hmore]

theorem ReadPage.only_cursors {window : ℕ × ℕ}
    (h : ReadPage config store result principal source subject selection clock page rows window) :
    ∃ cursors draws, result = { store with cursors, draws } := by
  rw [h.result_eq, Store.withPageCursors]
  split
  · exact ⟨_, _, rfl⟩
  · exact ⟨_, _, rfl⟩

end Inversion

end Bdp.Retained
