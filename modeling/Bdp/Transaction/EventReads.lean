import Bdp.Transaction.EventFeed

/-!
# Scans and pages of events

A scan takes the events of one group at a time, a finite read those of many groups. Both take events
off the front of what remains behind their resume point, whatever is committed between two of their
steps, and so they agree whenever they end at one head.
-/

namespace Bdp.Transaction

open Bdp.Except (bind_eq_ok)
open List (append_nil append_assoc map_append)

variable {config : StoreConfiguration} {source : TransactionEventSource}

/-- The point behind which a cursor resumes. -/
def resumePoint (after : Option String) : ℕ × Option ℕ :=
  match after.bind parseTransactionEventCursor with
  | none => (1, none)
  | some cursor => (cursor.position, some cursor.ordinal)

/-- A resume point that no group above the head can lie behind. -/
def Within (head «at» : ℕ) (ordinal : Option ℕ) : Prop :=
  «at» ≤ head ∨ «at» = head + 1 ∧ ordinal = none

variable {ordinal : Option ℕ}

theorem Within.mono {head later position : ℕ} (le : head ≤ later)
    (within : Within head position ordinal) : Within later position ordinal := by
  cases within with
  | inl covered => exact Or.inl (covered.trans le)
  | inr next =>
    cases Nat.eq_or_lt_of_le le with
    | inl same => exact Or.inr (same ▸ next)
    | inr less => exact Or.inl (by omega)

namespace TransactionStore

variable {store : TransactionStore} {context : TransactionReadContext}

/-- What a source still shows in a store behind a resume point. -/
def upcoming (config : StoreConfiguration) (store : TransactionStore)
    (source : TransactionEventSource) («at» : ℕ) (ordinal : Option ℕ) : List PositionedEvent :=
  remaining config store.readContext source store.authorization.allVisible «at» ordinal
    store.persisted.groups

/-- The rows of a store stand in the order of their positions, up to its position. -/
structure Ordered (store : TransactionStore) : Prop where
  ascending : store.persisted.groups.Pairwise fun left right ↦ left.position < right.position
  bounded : ∀ row ∈ store.persisted.groups, row.position ≤ store.persisted.position

theorem GroupsInvariant.ordered (invariant : GroupsInvariant config store.persisted) :
    store.Ordered := by
  refine ⟨?_, ?_⟩
  · apply List.pairwise_map.mp
    rw [invariant.positions]
    exact List.pairwise_lt_range'
  · intro row member
    have inside := List.mem_map_of_mem (f := GroupRow.position) member
    rw [invariant.positions, List.mem_range'_1] at inside
    omega

variable {filled fill : PageFill} {complete : Bool}

theorem fillPage_spec {maximumBytes : ℕ} {events : List TransactionEvent}
    (h : fillPage config source maximumBytes fill events = .ok (filled, complete)) :
    ∃ taken rest, events = taken ++ rest ∧ filled.events = fill.events ++ taken ∧
      (complete = true → rest = []) ∧ (complete = false → filled.events ≠ []) := by
  induction events generalizing fill with
  | nil =>
    cases h
    exact ⟨[], [], rfl, (append_nil _).symm, fun _ ↦ rfl, nofun⟩
  | cons event events ih =>
    unfold fillPage at h
    dsimp only at h
    generalize fill.bytes + (if fill.events = [] then 0 else 1) + config.eventBytes event = bytes at h
    split at h
    · rw [check_bind_eq_ok] at h
      obtain ⟨some_event, done⟩ := h
      cases done
      exact ⟨[], event :: events, rfl, (append_nil _).symm, nofun, fun _ ↦ some_event⟩
    · obtain ⟨taken, rest, split, same, ends⟩ := ih h
      refine ⟨event :: taken, rest, ?_, ?_, ends⟩
      · rw [split, List.cons_append]
      · rw [same, append_assoc, List.singleton_append]

variable {position : ℕ}

theorem retainedGroup_eq_ok (ordered : store.Ordered) {found : Option GroupRow}
    (h : store.retainedGroup config position store.persisted.position = .ok found) :
    store.persisted.groups.find? (fun row ↦ decide (position ≤ row.position)) = found := by
  have same : store.persisted.groups.find? (fun row ↦
      decide (position ≤ row.position ∧ row.position ≤ store.persisted.position)) =
      store.persisted.groups.find? (fun row ↦ decide (position ≤ row.position)) := by
    apply List.find?_congr
    intro row member
    rw [decide_eq_decide]
    exact and_iff_left (ordered.bounded row member)
  unfold retainedGroup at h
  rw [same] at h
  split at h
  next absent =>
    cases h
    exact absent
  next row present =>
    rw [check_bind_eq_ok] at h
    cases h.2
    exact present

variable {cursor : Option (EventCursor × String)}
variable {row : GroupRow}

theorem eventProjection_eq_ok {projected : List TransactionEvent}
    (h : store.eventProjection config context source cursor row = .ok projected) :
    projected = groupEvents config context source store.authorization.allVisible row ∧
      ∀ entry ∈ cursor, row.position = entry.1.position ∧ projected ≠ [] := by
  unfold eventProjection at h
  rw [bind_eq_ok] at h
  obtain ⟨events, projecting, h⟩ := h
  have shown : events = groupEvents config context source store.authorization.allVisible row := by
    unfold groupEvents
    rw [projecting]
  cases cursor with
  | none =>
    cases h
    exact ⟨shown, fun _ member ↦ nomatch member⟩
  | some entry =>
    dsimp only at h
    rw [check_bind_eq_ok] at h
    obtain ⟨⟨position, named⟩, done⟩ := h
    cases done
    refine ⟨shown, ?_⟩
    intro other member
    cases member
    refine ⟨position, ?_⟩
    intro empty
    rw [empty] at named
    cases named

theorem visible_of_groupEvents {visible : Bool}
    (h : groupEvents config context source visible row ≠ []) : visible = true := by
  obtain ⟨event, member⟩ := List.exists_mem_of_ne_nil _ h
  exact (groupEvents_ordered.2 event member).1

theorem readGroups_spec (ordered : store.Ordered) {count : ℕ}
    (reach : store.persisted.position < position + count)
    (matched : ∀ entry ∈ cursor, entry.1.position = position)
    (h : store.readGroups config store.readContext source count position cursor fill =
      .ok (filled, complete)) :
    (∃ taken rest, store.upcoming config source position (cursor.map fun entry ↦ entry.1.ordinal) =
        taken ++ rest ∧ filled.events = fill.events ++ taken.map Prod.snd ∧
        (complete = true → rest = []) ∧ (complete = false → filled.events ≠ [])) ∧
      (cursor ≠ none → store.authorization.allVisible = true ∧
        position ≤ store.persisted.position) := by
  induction count generalizing position cursor fill with
  | zero =>
    unfold readGroups at h
    rw [check_bind_eq_ok] at h
    obtain ⟨absent, done⟩ := h
    cases done
    refine ⟨⟨[], [], ?_, (append_nil _).symm, fun _ ↦ rfl, nofun⟩,
      fun present ↦ absurd absent present⟩
    apply remaining_of_lt
    intro row member
    exact (ordered.bounded row member).trans_lt reach
  | succ count ih =>
    unfold readGroups at h
    rw [bind_eq_ok] at h
    obtain ⟨found, finding, h⟩ := h
    have located := retainedGroup_eq_ok ordered finding
    cases found with
    | none => cases h
    | some row =>
      dsimp only at h
      rw [check_bind_eq_ok, bind_eq_ok] at h
      obtain ⟨placed, projected, projecting, h⟩ := h
      obtain ⟨same, named⟩ := eventProjection_eq_ok projecting
      have here : row.position = position := by
        cases cursor with
        | none => exact placed.resolve_left fun present ↦ present rfl
        | some entry => exact (named entry rfl).1.trans (matched entry rfl)
      have inside : position ≤ store.persisted.position := by
        rw [← here]
        exact ordered.bounded row (List.mem_of_find?_eq_some located)
      have seen : cursor ≠ none → store.authorization.allVisible = true := by
        intro present
        obtain ⟨entry, given⟩ := Option.ne_none_iff_exists'.mp present
        exact visible_of_groupEvents (same ▸ (named entry given).2)
      rw [bind_eq_ok] at h
      obtain ⟨⟨between, whole⟩, filling, h⟩ := h
      obtain ⟨taken, left, split, between_events, whole_left, cut⟩ := fillPage_spec filling
      have step : store.upcoming config source position
          (cursor.map fun entry ↦ entry.1.ordinal) =
          (taken ++ left).map (fun event ↦ (position, event)) ++
            store.upcoming config source (position + 1) none := by
        rw [← split, same]
        exact remaining_step ordered.ascending located here
      have events (shown : List TransactionEvent) :
          (shown.map fun event ↦ (position, event)).map Prod.snd = shown := by
        rw [List.map_map]
        exact List.map_id _
      refine ⟨?_, fun present ↦ ⟨seen present, inside⟩⟩
      dsimp only at h
      cases whole with
      | false =>
        cases h
        refine ⟨taken.map fun event ↦ (position, event), left.map (fun event ↦ (position, event)) ++
            store.upcoming config source (position + 1) none, ?_, ?_, nofun, cut⟩
        · rw [step, map_append, append_assoc]
        · rw [events]
          exact between_events
      | true =>
        rw [if_pos rfl] at h
        rw [here] at h
        obtain ⟨⟨more, rest, others, same_events, ends, some_event⟩, _⟩ :=
          ih (by omega) (fun _ member ↦ absurd member (Option.not_mem_none _)) h
        refine ⟨taken.map (fun event ↦ (position, event)) ++ more, rest, ?_, ?_, ends, some_event⟩
        · rw [step, whole_left rfl, append_nil, append_assoc]
          exact congrArg _ others
        · rw [same_events, between_events, map_append, events, append_assoc]

theorem requestCursor_eq_ok {after : Option String}
    (h : requestCursor config context source after = .ok cursor) :
    resumePoint after = ((cursor.map fun entry ↦ entry.1.position).getD 1,
        cursor.map fun entry ↦ entry.1.ordinal) ∧
      (after ≠ none → cursor ≠ none) := by
  unfold requestCursor at h
  split at h
  · cases h
    exact ⟨rfl, fun present ↦ absurd rfl present⟩
  next id =>
    rw [bind_eq_ok] at h
    obtain ⟨parsed, parsing, h⟩ := h
    rw [check_bind_eq_ok, check_bind_eq_ok, check_bind_eq_ok] at h
    obtain ⟨_, _, _, done⟩ := h
    cases done
    refine ⟨?_, fun _ ↦ Option.some_ne_none _⟩
    unfold resumePoint
    rw [Option.bind_some, require_eq_ok.mp parsing]
    rfl

/-- What a found page holds. -/
structure PageRead (config : StoreConfiguration) (store : TransactionStore)
    (source : TransactionEventSource) (after : Option String) (page : EventPage)
    (taken rest : List PositionedEvent) : Prop where
  events : page.events = taken.map Prod.snd
  split : store.upcoming config source (resumePoint after).1 (resumePoint after).2 = taken ++ rest
  complete : page.next = none → rest = []
  next : ∀ id ∈ page.next, ∃ front last, taken = front ++ [last] ∧ id = last.2.id
  within : Within store.persisted.position (resumePoint after).1 (resumePoint after).2
  visible : after ≠ none → store.authorization.allVisible = true

variable {supplied : SuppliedMinimum}

theorem readEvents_spec (ordered : store.Ordered) {after : Option String} {page : EventPage}
    (h : store.readEvents config source after supplied = .ok (.found page context)) :
    ∃ taken rest, PageRead config store source after page taken rest := by
  have h := (entered_eq_ok.mp h).2
  split at h
  · cases h
  · split at h
    · cases h
    · rw [bind_eq_ok] at h
      obtain ⟨_, _, h⟩ := h
      rw [bind_eq_ok] at h
      obtain ⟨cursor, requested, h⟩ := h
      rw [bind_eq_ok] at h
      obtain ⟨⟨filled, complete⟩, reading, done⟩ := h
      obtain ⟨point, given⟩ := requestCursor_eq_ok requested
      have matched : ∀ entry ∈ cursor,
          entry.1.position = (cursor.map fun entry ↦ entry.1.position).getD 1 := by
        intro entry member
        rw [Option.mem_def.mp member]
        rfl
      obtain ⟨⟨taken, rest, split, events, ends, some_event⟩, named⟩ :=
        readGroups_spec ordered (by dsimp only [readContext]; omega) matched reading
      rw [List.nil_append] at events
      cases done
      have first : (resumePoint after).1 = (cursor.map fun entry ↦ entry.1.position).getD 1 :=
        congrArg Prod.fst point
      have behind : (resumePoint after).2 = cursor.map fun entry ↦ entry.1.ordinal :=
        congrArg Prod.snd point
      refine ⟨taken, rest, events, ?_, ?_, ?_, ?_, ?_⟩
      · rw [first, behind]
        exact split
      · intro last
        cases complete with
        | true => exact ends rfl
        | false =>
          have missing := some_event rfl
          dsimp only at last
          rw [if_neg Bool.false_ne_true, Option.map_eq_none_iff, List.getLast?_eq_none_iff] at last
          exact absurd last missing
      · intro id member
        cases complete with
        | true => cases member
        | false =>
          dsimp only at member
          rw [if_neg Bool.false_ne_true, events, List.getLast?_map, Option.map_map] at member
          obtain ⟨last, ending, same⟩ := Option.map_eq_some_iff.mp (Option.mem_def.mp member)
          obtain ⟨front, whole⟩ := List.getLast?_eq_some_iff.mp ending
          exact ⟨front, last, whole, same.symm⟩
      · rw [first, behind]
        cases cursor with
        | none =>
          cases Nat.eq_zero_or_pos store.persisted.position with
          | inl zero => exact Or.inr ⟨by rw [zero]; rfl, rfl⟩
          | inr some_group => exact Or.inl some_group
        | some entry => exact Or.inl (named (Option.some_ne_none _)).2
      · exact fun present ↦ (named (given present)).1

/-- What a packet holds, and where its scan stands. -/
structure PacketRead (config : StoreConfiguration) (store : TransactionStore)
    (source : TransactionEventSource) («at» : ℕ) (ordinal : Option ℕ)
    (packet : TransactionEventPacket) (taken : List PositionedEvent) : Prop where
  events : packet.events = taken.map Prod.snd
  split : store.upcoming config source «at» ordinal =
    taken ++ store.upcoming config source packet.scan.at packet.scan.ordinal
  sameSource : packet.scan.source = source
  context : packet.scan.context = store.readContext
  head : packet.scan.head = store.persisted.position
  start : Within store.persisted.position «at» ordinal
  within : Within store.persisted.position packet.scan.at packet.scan.ordinal
  caughtUp : packet.caughtUp = true →
    store.upcoming config source packet.scan.at packet.scan.ordinal = []

theorem eventPacket_spec (ordered : store.Ordered) {state : TransactionEventScan}
    {packet : TransactionEventPacket}
    (start : cursor = none → Within store.persisted.position state.at state.ordinal)
    (h : store.eventPacket config state store.readContext cursor = .ok packet) :
    (∃ taken, PacketRead config store state.source state.at state.ordinal packet taken) ∧
      (cursor ≠ none → store.authorization.allVisible = true) := by
  have ended {position : ℕ} {ordinal : Option ℕ} (past : store.persisted.position < position) :
      store.upcoming config state.source position ordinal = [] := by
    apply remaining_of_lt
    intro row member
    exact (ordered.bounded row member).trans_lt past
  unfold eventPacket at h
  dsimp only [readContext] at h
  split at h
  next past =>
    rw [check_bind_eq_ok] at h
    obtain ⟨absent, done⟩ := h
    cases done
    exact ⟨⟨[], rfl, rfl, rfl, rfl, rfl, start absent, start absent, fun _ ↦ ended past⟩,
      fun present ↦ absurd absent present⟩
  next here =>
    have inside : state.at ≤ store.persisted.position := Nat.le_of_not_lt here
    rw [bind_eq_ok] at h
    obtain ⟨found, finding, h⟩ := h
    rw [bind_eq_ok] at h
    obtain ⟨row, present, h⟩ := h
    have located := retainedGroup_eq_ok ordered finding
    rw [require_eq_ok.mp present] at located
    rw [check_bind_eq_ok, bind_eq_ok] at h
    obtain ⟨placed, projected, projecting, h⟩ := h
    rw [bind_eq_ok] at h
    obtain ⟨⟨filled, complete⟩, filling, done⟩ := h
    obtain ⟨same, named⟩ := eventProjection_eq_ok projecting
    have seen : cursor ≠ none → store.authorization.allVisible = true := by
      intro present
      obtain ⟨entry, given⟩ := Option.ne_none_iff_exists'.mp present
      exact visible_of_groupEvents (same ▸ (named entry given).2)
    refine ⟨?_, seen⟩
    obtain ⟨taken, left, split, events, whole, cut⟩ := fillPage_spec filling
    rw [List.nil_append] at events
    have step : store.upcoming config state.source state.at state.ordinal =
        (taken ++ left).map (fun event ↦ (state.at, event)) ++
          store.upcoming config state.source (state.at + 1) none := by
      rw [← split, same]
      exact remaining_step ordered.ascending located placed
    have shown : (taken.map fun event ↦ (state.at, event)).map Prod.snd = taken := by
      rw [List.map_map]
      exact List.map_id _
    have unread {packet : TransactionEventPacket} (caught : packet.caughtUp = true)
        (same : packet.caughtUp = decide (store.persisted.position < packet.scan.at)) :
        store.upcoming config state.source packet.scan.at packet.scan.ordinal = [] := by
      rw [same] at caught
      exact ended (of_decide_eq_true caught)
    refine ⟨taken.map fun event ↦ (state.at, event), ?_⟩
    cases complete with
    | true =>
      cases done
      refine ⟨events.trans shown.symm, ?_, rfl, rfl, rfl, Or.inl inside, ?_, ?_⟩
      · rw [step, whole rfl, append_nil]
        rfl
      · change Within store.persisted.position (state.at + 1) none
        cases Nat.eq_or_lt_of_le inside with
        | inl last => exact Or.inr ⟨congrArg (· + 1) last, rfl⟩
        | inr before => exact Or.inl before
      · exact fun caught ↦ unread caught rfl
    | false =>
      have some_event := events ▸ cut rfl
      have ending := List.getLast?_eq_some_getLast some_event
      obtain ⟨front, last⟩ := List.getLast?_eq_some_iff.mp ending
      generalize taken.getLast some_event = final at ending last
      have follows : store.upcoming config state.source state.at state.ordinal =
          front.map (fun event ↦ (state.at, event)) ++ (state.at, final) ::
            (left.map (fun event ↦ (state.at, event)) ++
              store.upcoming config state.source (state.at + 1) none) := by
        rw [step, last]
        simp
      have rest : store.upcoming config state.source state.at (some final.ordinal) =
          left.map (fun event ↦ (state.at, event)) ++
            store.upcoming config state.source (state.at + 1) none :=
        remaining_of_split ordered.ascending follows
      have reached : filled.events.getLast?.map TransactionEvent.ordinal = some final.ordinal := by
        rw [events, ending]
        rfl
      cases done
      refine ⟨events.trans shown.symm, ?_, rfl, rfl, rfl, Or.inl inside, Or.inl inside, ?_⟩
      · dsimp only [if_neg Bool.false_ne_true]
        rw [if_neg Bool.false_ne_true]
        dsimp only
        rw [reached, rest, step, map_append, append_assoc]
      · exact fun caught ↦ unread caught rfl

theorem beginEventScan_spec (ordered : store.Ordered) {after : Option String}
    {invalidReconnect : Bool} {packet : TransactionEventPacket}
    (h : store.beginEventScan config source after supplied invalidReconnect =
      .ok (.found packet context)) :
    (∃ taken, PacketRead config store source (resumePoint after).1 (resumePoint after).2 packet
      taken) ∧ (after ≠ none → store.authorization.allVisible = true) := by
  have h := (entered_eq_ok.mp h).2
  split at h
  · cases h
  · split at h
    · cases h
    · rw [bind_eq_ok] at h
      obtain ⟨_, _, h⟩ := h
      rw [check_bind_eq_ok, bind_eq_ok] at h
      obtain ⟨_, cursor, requested, h⟩ := h
      rw [bind_eq_ok] at h
      obtain ⟨found, reading, done⟩ := h
      cases done
      obtain ⟨point, given⟩ := requestCursor_eq_ok requested
      have first : (resumePoint after).1 = (cursor.map fun entry ↦ entry.1.position).getD 1 :=
        congrArg Prod.fst point
      have behind : (resumePoint after).2 = cursor.map fun entry ↦ entry.1.ordinal :=
        congrArg Prod.snd point
      rw [first, behind]
      have start : cursor = none → Within store.persisted.position
          ((cursor.map fun entry ↦ entry.1.position).getD 1)
          (cursor.map fun entry ↦ entry.1.ordinal) := by
        intro absent
        rw [absent]
        cases Nat.eq_zero_or_pos store.persisted.position with
        | inl zero => exact Or.inr ⟨by rw [zero]; rfl, rfl⟩
        | inr some_group => exact Or.inl some_group
      obtain ⟨read, seen⟩ := eventPacket_spec ordered start reading
      exact ⟨read, fun present ↦ seen (given present)⟩

section Growth

variable {start later : TransactionStore} {epoch : String} {history before more : List Execution}

theorem run_ordered (run : Run config (created epoch) history store) : store.Ordered :=
  GroupsInvariant.ordered (GroupsInvariant.run run).1

theorem upcoming_grow (source : TransactionEventSource)
    (run : Run config (created epoch) history store)
    (onward : Run config store more later) (same : later.authorization = store.authorization) :
    ∃ grown, ∀ position ordinal, Within store.persisted.position position ordinal →
      later.upcoming config source position ordinal =
        store.upcoming config source position ordinal ++ grown := by
  obtain ⟨fresh, groups⟩ := run.groups_grow onward
  obtain ⟨invariant, held, _⟩ := GroupsInvariant.run run
  obtain ⟨grown, kept, _⟩ := GroupsInvariant.run (run.trans onward)
  have ordered := run_ordered run
  have rows := run_ordered (run.trans onward)
  have behind : ∀ row ∈ fresh, store.persisted.position < row.position := by
    intro row member
    have positive : 1 ≤ row.position := by
      have inside := List.mem_map_of_mem (f := GroupRow.position)
        (groups ▸ List.mem_append_right store.persisted.groups member)
      rw [grown.positions, List.mem_range'_1] at inside
      exact inside.1
    by_contra covered
    have old : row.position ∈ store.persisted.groups.map GroupRow.position := by
      rw [invariant.positions, List.mem_range'_1]
      omega
    obtain ⟨other, present, same⟩ := List.mem_map.mp old
    have ascending := rows.ascending
    rw [groups] at ascending
    have less := (List.pairwise_append.mp ascending).2.2 other present row member
    omega
  have shown : groupEvents config later.readContext source later.authorization.allVisible =
      groupEvents config store.readContext source store.authorization.allVisible := by
    rw [same]
    apply groupEvents_congr
    · exact kept.trans held.symm
    · exact congrArg TransactionAuthorization.authorizationView same
  have projected (rows : List GroupRow) :
      projection config later.readContext source later.authorization.allVisible rows =
        projection config store.readContext source store.authorization.allVisible rows := by
    unfold projection
    rw [shown]
  refine ⟨projection config store.readContext source store.authorization.allVisible fresh, ?_⟩
  intro position ordinal within
  have last : remaining config store.readContext source store.authorization.allVisible position
      ordinal fresh = projection config store.readContext source store.authorization.allVisible
        fresh := by
    apply remaining_of_gt
    intro row member
    have less := behind row member
    cases within with
    | inl covered => exact Or.inl (covered.trans_lt less)
    | inr next =>
      obtain ⟨head, ready⟩ := next
      exact Or.inr ⟨by omega, ready⟩
  calc
    later.upcoming config source position ordinal =
        remaining config store.readContext source store.authorization.allVisible position ordinal
          (store.persisted.groups ++ fresh) := by
      unfold upcoming remaining
      rw [projected, groups]
    _ = _ := by
      rw [remaining_append, last]
      rfl

/-- The identity of an event resumes behind it: a later state that still shows events shows there
what was left, and what was committed. -/
theorem upcoming_resume {front rest : List PositionedEvent}
    {last : PositionedEvent} (run : Run config (created epoch) history store)
    (onward : Run config store more later) (seen : later.authorization.allVisible = true)
    (within : Within store.persisted.position position ordinal)
    (whole : store.upcoming config source position ordinal = front ++ last :: rest) :
    later.authorization = store.authorization ∧
      later.upcoming config source position ordinal = front ++ [last] ++
        later.upcoming config source (resumePoint (some last.2.id)).1
          (resumePoint (some last.2.id)).2 := by
  have member : last ∈ projection config store.readContext source store.authorization.allVisible
      store.persisted.groups := by
    have inside : last ∈ store.upcoming config source position ordinal := by
      rw [whole]
      exact List.mem_append_right _ List.mem_cons_self
    exact List.mem_of_mem_filter inside
  obtain ⟨shows, rendered⟩ := rendered_of_mem member
  have point : resumePoint (some last.2.id) = (last.1, some last.2.ordinal) := by
    unfold resumePoint
    rw [rendered.id, Option.bind_some,
      parse_renderEventId _ _ _ rendered.pos rendered.safe rendered.ordinal]
  have bounded : last.1 ≤ store.persisted.position := by
    obtain ⟨row, inside, here, _⟩ := mem_projection member
    rw [here]
    exact (run_ordered run).bounded row inside
  have same : later.authorization = store.authorization :=
    ((granted_run (run.trans onward)).1.eq_initial seen).trans
      ((granted_run run).1.eq_initial shows).symm
  obtain ⟨grown, grows⟩ := upcoming_grow source run onward same
  have behind : store.upcoming config source last.1 (some last.2.ordinal) = rest :=
    remaining_of_split (run_ordered run).ascending whole
  refine ⟨same, ?_⟩
  calc
    later.upcoming config source position ordinal =
        store.upcoming config source position ordinal ++ grown := grows _ _ within
    _ = front ++ [last] ++ (rest ++ grown) := by
      rw [whole, append_assoc, append_assoc, List.singleton_append, List.cons_append]
    _ = front ++ [last] ++ later.upcoming config source last.1 (some last.2.ordinal) := by
      rw [grows _ _ (Or.inl bounded), behind]
    _ = _ := by rw [point]

end Growth

section Traces

/-- A scan and the packets that it has shown; commits may land between two of its steps. -/
inductive ScanTrace (config : StoreConfiguration) (source : TransactionEventSource)
    (after : Option String) (start : TransactionStore) :
    TransactionStore → TransactionEventPacket → List TransactionEvent → Prop where
  | begun {supplied : SuppliedMinimum} {invalidReconnect : Bool} {packet : TransactionEventPacket}
      {context : TransactionReadContext}
      (first : start.beginEventScan config source after supplied invalidReconnect =
        .ok (.found packet context)) :
      ScanTrace config source after start start packet packet.events
  | advanced {store later : TransactionStore} {packet next : TransactionEventPacket}
      {shown : List TransactionEvent} {history : List Execution}
      (scanned : ScanTrace config source after start store packet shown)
      (run : Run config store history later)
      (step : later.advanceEventScan config packet.scan = .ok next) :
      ScanTrace config source after start later next (shown ++ next.events)

/-- A finite read and the pages that it has shown; each page starts behind the one before. -/
inductive PageTrace (config : StoreConfiguration) (source : TransactionEventSource)
    (after : Option String) (start : TransactionStore) :
    TransactionStore → EventPage → List TransactionEvent → Prop where
  | first {supplied : SuppliedMinimum} {page : EventPage} {context : TransactionReadContext}
      (read : start.readEvents config source after supplied = .ok (.found page context)) :
      PageTrace config source after start start page page.events
  | followed {store later : TransactionStore} {page next : EventPage}
      {shown : List TransactionEvent} {history : List Execution} {supplied : SuppliedMinimum}
      {context : TransactionReadContext} {id : String}
      (paged : PageTrace config source after start store page shown)
      (run : Run config store history later) (more : page.next = some id)
      (read : later.readEvents config source (some id) supplied = .ok (.found next context)) :
      PageTrace config source after start later next (shown ++ next.events)

variable {start : TransactionStore} {epoch : String} {history : List Execution}
variable {after : Option String} {packet : TransactionEventPacket} {page : EventPage}
variable {shown : List TransactionEvent}

/-- Where a scan stands that has shown some events. -/
structure ScanStands (config : StoreConfiguration) (source : TransactionEventSource)
    (after : Option String) (start store : TransactionStore) (packet : TransactionEventPacket)
    (taken : List PositionedEvent) : Prop where
  run : ∃ more, Run config start more store
  authorization : store.authorization = start.authorization
  split : store.upcoming config source (resumePoint after).1 (resumePoint after).2 =
    taken ++ store.upcoming config source packet.scan.at packet.scan.ordinal
  sameSource : packet.scan.source = source
  context : packet.scan.context = store.readContext
  head : packet.scan.head = store.persisted.position
  start : Within store.persisted.position (resumePoint after).1 (resumePoint after).2
  within : Within store.persisted.position packet.scan.at packet.scan.ordinal
  caughtUp : packet.caughtUp = true →
    store.upcoming config source packet.scan.at packet.scan.ordinal = []

theorem ScanTrace.stands (fresh : ∀ turn draw, config.uuid turn draw ≠ INITIAL_TRANSACTION_VIEW)
    (reached : Run config (created epoch) history start)
    (trace : ScanTrace config source after start store packet shown) :
    ∃ taken, shown = taken.map Prod.snd ∧
      ScanStands config source after start store packet taken := by
  induction trace with
  | begun first =>
    obtain ⟨⟨taken, read⟩, _⟩ := beginEventScan_spec (run_ordered reached) first
    exact ⟨taken, read.events,
      { run := ⟨[], .refl⟩, authorization := rfl, split := read.split
        sameSource := read.sameSource, context := read.context, head := read.head
        start := read.start, within := read.within, caughtUp := read.caughtUp }⟩
  | @advanced store later packet next shown more scanned run step ih =>
    obtain ⟨taken, listed, stands⟩ := ih
    obtain ⟨earlier, before⟩ := stands.run
    have here := reached.trans before
    have there := here.trans run
    have step := (entered_eq_ok.mp step).2
    rw [check_bind_eq_ok, check_bind_eq_ok] at step
    obtain ⟨_, ⟨_, view, regressed⟩, packeting⟩ := step
    rw [stands.head] at regressed
    rw [stands.context] at view
    have same : later.authorization = store.authorization :=
      (granted_run there).1.eq_of_view fresh (granted_run here).1 view
    obtain ⟨grown, grows⟩ := upcoming_grow source here run same
    obtain ⟨⟨more_taken, read⟩, _⟩ := eventPacket_spec (run_ordered there)
      (fun _ ↦ stands.within.mono regressed) packeting
    rw [stands.sameSource] at read
    refine ⟨taken ++ more_taken, ?_, ?_⟩
    · rw [map_append, listed, read.events]
    · refine
        { run := ⟨_, before.trans run⟩, authorization := same.trans stands.authorization
          split := ?_, sameSource := read.sameSource, context := read.context, head := read.head
          start := stands.start.mono regressed, within := read.within, caughtUp := read.caughtUp }
      calc
        later.upcoming config source (resumePoint after).1 (resumePoint after).2 =
            store.upcoming config source (resumePoint after).1 (resumePoint after).2 ++ grown :=
          grows _ _ stands.start
        _ = taken ++ (store.upcoming config source packet.scan.at packet.scan.ordinal ++ grown) := by
          rw [stands.split, append_assoc]
        _ = taken ++ later.upcoming config source packet.scan.at packet.scan.ordinal := by
          rw [grows _ _ stands.within]
        _ = _ := by rw [read.split, append_assoc]

/-- Where a finite read stands that has shown some events. -/
structure PageStands (config : StoreConfiguration) (source : TransactionEventSource)
    (after : Option String) (start store : TransactionStore) (page : EventPage)
    (taken rest : List PositionedEvent) : Prop where
  run : ∃ more, Run config start more store
  authorization : store.authorization = start.authorization
  split : store.upcoming config source (resumePoint after).1 (resumePoint after).2 = taken ++ rest
  complete : page.next = none → rest = []
  next : ∀ id ∈ page.next, ∃ front last, taken = front ++ [last] ∧ id = last.2.id
  start : Within store.persisted.position (resumePoint after).1 (resumePoint after).2

theorem Run.position_le {more : List Execution} {later : TransactionStore}
    (reached : Run config (created epoch) history store) (onward : Run config store more later) :
    store.persisted.position ≤ later.persisted.position := by
  obtain ⟨fresh, groups⟩ := reached.groups_grow onward
  have lengths := congrArg List.length groups
  obtain ⟨invariant, _⟩ := GroupsInvariant.run reached
  obtain ⟨grown, _⟩ := GroupsInvariant.run (reached.trans onward)
  have before := congrArg List.length invariant.positions
  have behind := congrArg List.length grown.positions
  rw [List.length_map, List.length_range'] at before behind
  rw [List.length_append] at lengths
  omega

section

variable (reached : Run config (created epoch) history start)
include reached

theorem PageTrace.stands (trace : PageTrace config source after start store page shown) :
    ∃ taken rest, shown = taken.map Prod.snd ∧
      PageStands config source after start store page taken rest := by
  induction trace with
  | first read =>
    obtain ⟨taken, rest, read⟩ := readEvents_spec (run_ordered reached) read
    exact ⟨taken, rest, read.events,
      { run := ⟨[], .refl⟩, authorization := rfl, split := read.split, complete := read.complete
        next := read.next, start := read.within }⟩
  | @followed store later page next shown more supplied context id paged run again read ih =>
    obtain ⟨taken, rest, listed, stands⟩ := ih
    obtain ⟨earlier, before⟩ := stands.run
    have here := reached.trans before
    have there := here.trans run
    obtain ⟨front, last, ending, named⟩ := stands.next id again
    obtain ⟨more_taken, left, found⟩ := readEvents_spec (run_ordered there) read
    have whole : store.upcoming config source (resumePoint after).1 (resumePoint after).2 =
        front ++ last :: rest := by
      rw [stands.split, ending, append_assoc, List.singleton_append]
    obtain ⟨same, resumed⟩ := upcoming_resume here run (found.visible (Option.some_ne_none _))
      stands.start whole
    rw [← named, found.split] at resumed
    have le := here.position_le run
    refine ⟨taken ++ more_taken, left, ?_, ?_⟩
    · rw [map_append, listed, found.events]
    · refine
        { run := ⟨_, before.trans run⟩, authorization := same.trans stands.authorization
          split := ?_, complete := found.complete, next := ?_, start := stands.start.mono le }
      · rw [resumed, ending, append_assoc, append_assoc, append_assoc]
      · intro other last
        obtain ⟨front, final, ends, same⟩ := found.next other last
        exact ⟨taken ++ front, final, by rw [ends, append_assoc], same⟩

theorem ScanTrace.visible
    (trace : ScanTrace config source after start store packet shown) (given : after ≠ none) :
    start.authorization.allVisible = true := by
  induction trace with
  | begun first => exact (beginEventScan_spec (run_ordered reached) first).2 given
  | advanced _ _ _ ih => exact ih

theorem PageTrace.visible
    (trace : PageTrace config source after start store page shown) (given : after ≠ none) :
    start.authorization.allVisible = true := by
  induction trace with
  | first read =>
    obtain ⟨_, _, found⟩ := readEvents_spec (run_ordered reached) read
    exact found.visible given
  | followed _ _ _ _ ih => exact ih

end

end Traces

/-- The law of the event reads that start in a store. -/
structure EventReadsLaw (config : StoreConfiguration) (start : TransactionStore) : Prop where
  /-- A scan that has caught up has shown what its source projects behind its cursor. -/
  scanned : ∀ source after store packet shown,
    ScanTrace config source after start store packet shown → packet.caughtUp = true →
      packet.scan.head = store.persisted.position ∧ shown =
        (store.upcoming config source (resumePoint after).1 (resumePoint after).2).map Prod.snd
  /-- So has a finite read with its last page. -/
  paged : ∀ source after store page shown, PageTrace config source after start store page shown →
    page.next = none → shown =
      (store.upcoming config source (resumePoint after).1 (resumePoint after).2).map Prod.snd
  /-- Each event of a projection stands once, in the order of positions and ordinals. -/
  once : ∀ source after store more, Run config start more store →
    (store.upcoming config source (resumePoint after).1 (resumePoint after).2).Pairwise
      fun left right ↦ eventKey left < eventKey right
  /-- On one run, both end at one head with the same events. -/
  agree : ∀ source after scanned packet shown paged page listed later first second,
    ScanTrace config source after start scanned packet shown → packet.caughtUp = true →
    PageTrace config source after start paged page listed → page.next = none →
    Run config scanned first later → Run config paged second later →
    packet.scan.head = paged.persisted.position → shown = listed

/-- Scans and finite reads of a source agree, whatever is committed between their steps. -/
theorem event_reads_law
    (fresh : ∀ turn draw, config.uuid turn draw ≠ INITIAL_TRANSACTION_VIEW)
    {history : List Execution} (reachable : Reachable config history store) :
    EventReadsLaw config store := by
  obtain ⟨epoch, reached⟩ := reachable
  have scanned {source : TransactionEventSource} {after : Option String}
      {later : TransactionStore} {packet : TransactionEventPacket} {shown : List TransactionEvent}
      (trace : ScanTrace config source after store later packet shown)
      (caught : packet.caughtUp = true) : shown =
        (later.upcoming config source (resumePoint after).1 (resumePoint after).2).map Prod.snd := by
    obtain ⟨taken, listed, stands⟩ := trace.stands fresh reached
    rw [listed, stands.split, stands.caughtUp caught, List.append_nil]
  have paged {source : TransactionEventSource} {after : Option String}
      {later : TransactionStore} {page : EventPage} {shown : List TransactionEvent}
      (trace : PageTrace config source after store later page shown)
      (complete : page.next = none) : shown =
        (later.upcoming config source (resumePoint after).1 (resumePoint after).2).map Prod.snd := by
    obtain ⟨taken, rest, listed, stands⟩ := trace.stands reached
    rw [listed, stands.split, stands.complete complete, List.append_nil]
  refine ⟨?_, ?_, ?_, ?_⟩
  · intro source after later packet shown trace caught
    obtain ⟨_, _, stands⟩ := trace.stands fresh reached
    exact ⟨stands.head, scanned trace caught⟩
  · intro source after later page shown trace complete
    exact paged trace complete
  · intro source after later more run
    exact (projection_ascending (run_ordered (reached.trans run)).ascending).filter _
  · intro source after left packet shown right page listed later first second scanning caught paging
      complete left_run right_run head
    obtain ⟨_, _, left_stands⟩ := scanning.stands fresh reached
    obtain ⟨_, _, _, right_stands⟩ := paging.stands reached
    obtain ⟨_, left_before⟩ := left_stands.run
    obtain ⟨_, right_before⟩ := right_stands.run
    have left_reached := reached.trans left_before
    have right_reached := reached.trans right_before
    obtain ⟨left_invariant, left_epoch, _⟩ := GroupsInvariant.run left_reached
    obtain ⟨right_invariant, right_epoch, _⟩ := GroupsInvariant.run right_reached
    obtain ⟨left_more, left_groups⟩ := left_reached.groups_grow left_run
    obtain ⟨right_more, right_groups⟩ := right_reached.groups_grow right_run
    have position : left.persisted.position = right.persisted.position :=
      left_stands.head.symm.trans head
    have lengths : left.persisted.groups.length = right.persisted.groups.length := by
      have left_length := congrArg List.length left_invariant.positions
      have right_length := congrArg List.length right_invariant.positions
      rw [List.length_map, List.length_range'] at left_length right_length
      omega
    have groups : left.persisted.groups = right.persisted.groups :=
      (List.append_inj (left_groups.symm.trans right_groups) lengths).1
    have authorization : left.authorization = right.authorization :=
      left_stands.authorization.trans right_stands.authorization.symm
    rw [scanned scanning caught, paged paging complete]
    unfold upcoming readContext
    rw [groups, authorization, position, left_epoch, right_epoch]

theorem beadConfiguration_fresh (turn draw : ℕ) :
    beadConfiguration.uuid turn draw ≠ INITIAL_TRANSACTION_VIEW := by
  intro same
  have letter : 'd' ∈ (beadConfiguration.uuid turn draw).toList := by
    rw [same]
    decide
  dsimp only [beadConfiguration, plainConfiguration] at letter
  rw [String.toList_ofList] at letter
  exact absurd (List.eq_of_mem_replicate letter) (by decide)

def beadEvents : TransactionEventSource :=
  { url := "https://example.test/events/", subject := none }

/-- Event reads of a store whose event collection shows one event. -/
theorem event_reads_law_created :
    EventReadsLaw beadConfiguration beadCreated ∧
      (beadCreated.upcoming beadConfiguration beadEvents (resumePoint none).1
        (resumePoint none).2).length = 1 := by
  obtain ⟨_, reachable⟩ := beadCreated_reachable
  exact ⟨event_reads_law beadConfiguration_fresh reachable, by decide +kernel⟩

end TransactionStore

end Bdp.Transaction
