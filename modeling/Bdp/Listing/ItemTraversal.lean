import Bdp.Listing.ResizePage

/-!
# Traversal of a collection

Pages of a collection are fetched by issued continuations and delivered: buffered, or written to a
stream item by item. A stream knows how many items it has written and, outside a page, where the
delivery can be resumed. The answers and the acceptance of every write come from an environment.
-/

namespace Bdp.Listing

/-- The options of a listing; a limit of zero is no limit. -/
structure Options where
  pageSize : ℕ
  limit : ℕ
  unpaged : Bool
  jsonl : Bool

structure Page (α : Type) where
  items : List α
  next : Option Url

inductive Request where
  | first (limit : ℕ)
  | issued (url : Url)

/-- What the traversal meets: the answer to a request of a turn, and whether the header, the items
by their number and the terminal record are accepted. A raw stream has no header to refuse. -/
structure Environment (α : Type) where
  fetch : ℕ → Request → Except String (Page α)
  header : Bool
  item : ℕ → Bool
  terminal : Bool

/-- A stream; inside a page it has no place to resume at. -/
structure Stream where
  returned : ℕ
  next : Option (Option Url)

/-- What has been delivered, and the stream once it is open. -/
structure Delivery (α : Type) where
  delivered : List α
  stream : Option Stream

inductive StopReason where
  | exhausted
  | page
  | limit
  deriving DecidableEq

structure Completion where
  returned : ℕ
  exhausted : Bool
  stopReason : StopReason
  deriving DecidableEq

/-- The terminal record of a failed stream. -/
structure FailureTerminal where
  returned : ℕ
  exhausted : Option Bool
  continuation : Option (Option Url)
  deriving DecidableEq

inductive Outcome (α : Type) where
  | success (delivered : List α) (completion : Completion) (continuation : Option Url)
  | failure (delivered : List α) (terminal : Option FailureTerminal)
  deriving DecidableEq

section Traversal

variable {α : Type} (options : Options) (environment : Environment α)

def Delivery.empty : Delivery α := ⟨[], none⟩

/-- `stream?.returned ?? items.length`. -/
def Delivery.returned (delivery : Delivery α) : ℕ :=
  match delivery.stream with
  | some stream => stream.returned
  | none => delivery.delivered.length

def requestSize (returned : ℕ) : ℕ :=
  if options.limit = 0 then options.pageSize else min options.pageSize (options.limit - returned)

/-- The request of a turn: the first page, or the issued continuation resized. -/
def request (next : Option Url) (size : ℕ) : Except String Request :=
  match next with
  | none => .ok (.first size)
  | some issued => (resizePage issued size).map .issued

/-- Writing the items of a page one by one; false when a write is refused. -/
def writeItems (accepts : ℕ → Bool) (delivered : List α) (returned : ℕ) :
    List α → Delivery α × Bool
  | [] => (⟨delivered, some ⟨returned, none⟩⟩, true)
  | item :: rest =>
    if accepts returned then writeItems accepts (delivered ++ [item]) (returned + 1) rest
    else (⟨delivered, some ⟨returned, none⟩⟩, false)

/-- The delivery of a page; it is left as it stands when a write is refused. -/
def deliver (delivery : Delivery α) (page : Page α) : Except (Delivery α) (Delivery α) :=
  if options.jsonl then
    if delivery.stream.isNone ∧ ¬ environment.header then
      .error { delivery with stream := some ⟨0, none⟩ }
    else
      match writeItems environment.item delivery.delivered
          (delivery.stream.elim 0 Stream.returned) page.items with
      | (written, false) => .error written
      | (written, true) =>
        .ok { written with stream := written.stream.map fun stream ↦
          { stream with next := some page.next } }
  else .ok { delivery with delivered := delivery.delivered ++ page.items }

/-- One turn of the loop: a request, its answer, and the delivery of the page. -/
def turn (count : ℕ) (next : Option Url) (delivery : Delivery α) :
    Except (Delivery α) (Delivery α × Option Url) :=
  let size := requestSize options delivery.returned
  match request next size with
  | .error _ => .error delivery
  | .ok request =>
    match environment.fetch count request with
    | .error _ => .error delivery
    | .ok page =>
      if size < page.items.length then .error delivery
      else (deliver options environment delivery page).map fun delivery ↦ (delivery, page.next)

def stopReason (delivery : Delivery α) (next : Option Url) : StopReason :=
  if next = none then .exhausted
  else if 0 < options.limit ∧ options.limit ≤ delivery.returned then .limit
  else .page

/-- The terminal record of a failure; before the stream is open there is none. -/
def fail (delivery : Delivery α) : Outcome α :=
  .failure delivery.delivered (delivery.stream.map fun stream ↦
    ⟨stream.returned, stream.next.map Option.isNone, stream.next⟩)

/-- The end of the traversal; a stream ends with a terminal record. -/
def finish (delivery : Delivery α) (next : Option Url) : Outcome α :=
  if options.jsonl ∧ ¬ environment.terminal then fail delivery
  else .success delivery.delivered
    ⟨delivery.returned, next.isNone, stopReason options delivery next⟩ next

def traverse : ℕ → ℕ → Option Url → Delivery α → Option (Outcome α)
  | 0, _, _, _ => none
  | fuel + 1, count, next, delivery =>
    match turn options environment count next delivery with
    | .error delivery => some (fail delivery)
    | .ok (delivery, next) =>
      if stopReason options delivery next ≠ .page ∨ options.unpaged = false ∨ next = none then
        some (finish options environment delivery next)
      else traverse fuel (count + 1) next delivery

theorem traverse_add {fuel count : ℕ} {next : Option Url} {delivery : Delivery α}
    {outcome : Outcome α} (more : ℕ)
    (h : traverse options environment fuel count next delivery = some outcome) :
    traverse options environment (fuel + more) count next delivery = some outcome := by
  induction fuel generalizing count next delivery with
  | zero => cases h
  | succ fuel ih =>
    rw [Nat.add_right_comm, traverse]
    rw [traverse] at h
    cases hturn : turn options environment count next delivery with
    | error failed => rw [hturn] at h; exact h
    | ok result =>
      rw [hturn] at h
      simp only at h ⊢
      split at h
      · next hstop => rw [if_pos hstop]; exact h
      · next hstop => rw [if_neg hstop]; exact ih h

end Traversal

section Server

variable {α : Type}

/-- A server of a frozen collection. It answers by what a URL selects and by the limit; the place of
an issued selection is how many items lie before it. -/
structure FrozenServer (α : Type) where
  items : List α
  answer : Option Selection → Option ℕ → Page α
  place : Selection → Option ℕ

namespace FrozenServer

variable (server : FrozenServer α)

def serve : Request → Page α
  | .first limit => server.answer none (some limit)
  | .issued url => server.answer (some (selection url)) (limitOf url)

/-- Where a source stands: the first request at the beginning. -/
def position : Option Selection → Option ℕ
  | none => some 0
  | some source => server.place source

/-- A continuation that the server issues when a limit is asked for. -/
def Issued (url : Url) : Prop :=
  ∃ source limit, 1 ≤ limit ∧ (server.answer source (some limit)).next = some url

/-- A continuation at a position of the collection; none stands at the end. -/
def Boundary (next : Option Url) (position : ℕ) : Prop :=
  match next with
  | none => position = server.items.length
  | some url => server.Issued url ∧ server.place (selection url) = some position

/-- Where a run may start: at the beginning, or at an issued continuation. -/
def Start (next : Option Url) (position : ℕ) : Prop :=
  match next with
  | none => position = 0
  | some url => server.Issued url ∧ server.place (selection url) = some position

/-- A page that begins at a position: at most so many of the items there, and a continuation that
stands behind them, absent exactly at the end. -/
structure PageAt (position limit : ℕ) (page : Page α) : Prop where
  fits : page.items.length ≤ limit
  items : page.items = (server.items.drop position).take page.items.length
  next : match page.next with
    | none => position + page.items.length = server.items.length
    | some url => position + page.items.length < server.items.length ∧
        server.place (selection url) = some (position + page.items.length)

/-- Serving a frozen collection: every request at a position with a limit is answered by a page
there, and no chain of continuations is endless. -/
structure Serves : Prop where
  page : ∀ source position limit, server.position source = some position → 1 ≤ limit →
    server.PageAt position limit (server.answer source (some limit))
  progress : WellFounded fun later earlier : Option Selection ↦ ∃ limit url, 1 ≤ limit ∧
    (server.answer earlier (some limit)).next = some url ∧ later = some (selection url)

/-- The environment in which nothing fails. -/
def healthy : Environment α where
  fetch _ request := .ok (server.serve request)
  header := true
  item _ := true
  terminal := true

/-- An environment whose answers are failures or those of the server. -/
def Answers (environment : Environment α) : Prop :=
  ∀ count request page, environment.fetch count request = .ok page → page = server.serve request

/-- What a run with a limit should deliver from a position. -/
def expected (position limit : ℕ) : List α :=
  if limit = 0 then server.items.drop position else (server.items.drop position).take limit

/-- Listing delivers a prefix that can be resumed. From the beginning or an issued continuation,
every unpaged run ends and delivers what it should; it is exhausted exactly when nothing remains,
and what it reports is a continuation behind the last item. A failed stream reports a continuation
only if that stands behind the last item written. A reported continuation is a start again. -/
def ResumablePrefix : Prop :=
  ∀ start position, server.Start start position → ∀ options : Options,
    1 ≤ options.pageSize → options.unpaged = true →
    (∃ fuel completion next, traverse options server.healthy fuel 0 start .empty =
        some (.success (server.expected position options.limit) completion next) ∧
      completion.returned = (server.expected position options.limit).length ∧
      (completion.exhausted = true ↔
        position + (server.expected position options.limit).length = server.items.length) ∧
      server.Boundary next (position + (server.expected position options.limit).length)) ∧
    (options.jsonl = true → ∀ environment, server.Answers environment →
      ∀ fuel delivered terminal,
        traverse options environment fuel 0 start .empty =
          some (.failure delivered (some terminal)) →
        delivered <+: server.items.drop position ∧ terminal.returned = delivered.length ∧
        ∀ next, terminal.continuation = some next →
          server.Boundary next (position + delivered.length))

end FrozenServer

end Server

end Bdp.Listing
