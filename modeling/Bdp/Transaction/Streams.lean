import Bdp.Library.Pump
import Bdp.Transaction.EventReads

/-!
# Live streams

A change stream pulls one group at a time behind a checkpoint, an event stream one packet at a time
of a scan. Whatever the sink does and whatever is committed meanwhile, the frames that are written
are the first ones behind the start, and the identity of the last of them resumes at the rest.
-/

namespace Bdp.Transaction

open Relation
open Bdp.Except (bind_eq_ok ok_bind)

variable {config : StoreConfiguration} {clock : Clock} {turn : ℕ}

section Positions

variable {state after : Traced}

theorem Transition.position_safe (h : state.persisted.position ≤ maxSafeInteger)
    (step : Transition config clock turn state after) :
    after.persisted.position ≤ maxSafeInteger := by
  cases step.effects_cases with
  | inl quiet =>
    rw [quiet.2.position]
    exact h
  | inr executing =>
    obtain ⟨executed, _, effects⟩ := executing
    rw [effects.position]
    cases executed.cases_effected with
    | inl failed =>
      rw [failed.2.2.position]
      exact h
    | inr completed =>
      cases completed with
      | inl quiet =>
        obtain ⟨_, _, _, _, _, same⟩ := quiet
        rw [same]
        exact h
      | inr announced =>
        obtain ⟨_, _, _, _, _, same⟩ := announced
        rw [same]
        exact executed.bounded

end Positions

def changePacket (page : TransactionChangefeedPage) : Packet TransactionChangeGroup String :=
  { items := page.groups
    continuation := (page.groups.getLast?.map TransactionChangeGroup.checkpoint).getD page.after
    caughtUp := page.groups.isEmpty }

def eventPacket (packet : TransactionEventPacket) : Packet TransactionEvent TransactionEventScan :=
  { items := packet.events, continuation := packet.scan, caughtUp := packet.caughtUp }

/-- The position behind which a checkpoint resumes. -/
def cursorPosition (after : String) : ℕ :=
  match parseCheckpoint after with
  | some (some checkpoint) => checkpoint.position
  | _ => 0

variable {position : ℕ}

theorem cursorPosition_transactionCheckpoint {context : TransactionReadContext}
    (safe : position ≤ maxSafeInteger) :
    cursorPosition (transactionCheckpoint config.tags config.scope context position) = position := by
  unfold cursorPosition
  cases position with
  | zero => rfl
  | succ position => rw [parse_transactionCheckpoint _ _ _ (Nat.succ_pos position) safe]

/-- A group of the changefeed shows a stored one as one of some states observes it. -/
def Shows (config : StoreConfiguration) (seen : TransactionStore → Prop)
    (group : TransactionChangeGroup) (row : GroupRow) : Prop :=
  ∃ observer, seen observer ∧ projectTransactionChangeGroup config.tags config.scope
    observer.readContext row.position observer.authorization.allVisible row.body = .ok group

def TransactionChangeGroup.authorizationView : TransactionChangeGroup → String
  | .visible _ authorizationView _ _ _ _ _ _ => authorizationView
  | .advance _ authorizationView _ _ _ => authorizationView

theorem projectTransactionChangeGroup_eq_ok {context : TransactionReadContext}
    {visible : Bool} {group : TransactionGroup} {shown : TransactionChangeGroup}
    (h : projectTransactionChangeGroup config.tags config.scope context position visible group =
      .ok shown) :
    shown.checkpoint = transactionCheckpoint config.tags config.scope context position ∧
      shown.position = group.position ∧
      shown.authorizationView = context.authorizationView := by
  unfold projectTransactionChangeGroup at h
  rw [check_bind_eq_ok, check_bind_eq_ok, bind_eq_ok] at h
  obtain ⟨_, _, events, projecting, h⟩ := h
  cases visible with
  | false =>
    cases h
    exact ⟨rfl, rfl, rfl⟩
  | true =>
    cases h
    refine ⟨rfl, rfl, ?_⟩
    unfold projectTransactionEventGroup at projecting
    rw [bind_eq_ok] at projecting
    obtain ⟨_, checked, _⟩ := projecting
    exact (check_eq_ok.mp checked).2.1

variable {supplied : SuppliedMinimum}

namespace TransactionStore

variable {store start later : TransactionStore} {epoch : String} {history : List Execution}

theorem position_safe (run : Run config (created epoch) history store) :
    store.persisted.position ≤ maxSafeInteger := by
  induction run with
  | refl => exact Nat.zero_le _
  | @called store history faults clock request before ih =>
    have entered : Enters config clock store.turn _ store _ :=
      call_enters (KeyInvariant.run before).unique faults request
    obtain ⟨draw, steps⟩ := entered.reaches history
    have kept {state after : Traced} (h : state.persisted.position ≤ maxSafeInteger)
        (steps : ReflTransGen (Transition config clock store.turn) state after) :
        after.persisted.position ≤ maxSafeInteger := by
      induction steps with
      | refl => exact h
      | tail _ step ih => exact step.position_safe ih
    exact kept ih steps

section Changes

variable {after : String} {context : TransactionReadContext} {page : TransactionChangefeedPage}

theorem checkpointPosition_eq_ok (h : checkpointPosition config context after = .ok position) :
    position = cursorPosition after := by
  unfold checkpointPosition at h
  unfold cursorPosition
  rw [bind_eq_ok] at h
  obtain ⟨parsed, parsing, h⟩ := h
  rw [require_eq_ok.mp parsing]
  cases parsed with
  | none =>
    cases h
    rfl
  | some checkpoint =>
    dsimp only at h
    rw [check_bind_eq_ok, check_bind_eq_ok] at h
    cases h.2.2
    rfl

theorem readChanges_spec (invariant : GroupsInvariant config store.persisted)
    (h : store.readChanges config after supplied = .ok (.found page context)) :
    page.after = after ∧
      (page.next = none → store.persisted.position = cursorPosition after + page.groups.length) ∧
      ((page.groups = [] ∧ store.persisted.position = cursorPosition after) ∨
        ∃ row group, page.groups = [group] ∧
          store.persisted.groups[cursorPosition after]? = some row ∧
          row.position = cursorPosition after + 1 ∧
          projectTransactionChangeGroup config.tags config.scope store.readContext row.position
            store.authorization.allVisible row.body = .ok group) := by
  have ordered := GroupsInvariant.ordered invariant
  have h := (entered_eq_ok.mp h).2
  split at h
  · cases h
  · rw [bind_eq_ok] at h
    obtain ⟨position, resumed, h⟩ := h
    have same := checkpointPosition_eq_ok resumed
    rw [check_bind_eq_ok, check_bind_eq_ok, bind_eq_ok] at h
    obtain ⟨inside, _, _, _, h⟩ := h
    rw [bind_eq_ok] at h
    obtain ⟨found, finding, h⟩ := h
    have located := retainedGroup_eq_ok ordered finding
    cases found with
    | none =>
      dsimp only at h
      rw [check_bind_eq_ok] at h
      obtain ⟨head, done⟩ := h
      cases done
      have reached : store.persisted.position = cursorPosition after :=
        same ▸ Nat.le_antisymm head inside
      exact ⟨rfl, fun _ ↦ reached, Or.inl ⟨rfl, reached⟩⟩
    | some row =>
      dsimp only at h
      rw [check_bind_eq_ok, bind_eq_ok] at h
      obtain ⟨placed, group, projecting, h⟩ := h
      rw [check_bind_eq_ok] at h
      obtain ⟨_, done⟩ := h
      cases done
      have bounded := ordered.bounded row (List.mem_of_find?_eq_some located)
      refine ⟨rfl, ?_, Or.inr ⟨row, group, rfl, ?_, same ▸ placed, projecting⟩⟩
      · intro last
        dsimp only at last
        split at last
        · cases last
        next head =>
          have head : ¬ row.position < store.persisted.position := head
          change store.persisted.position = cursorPosition after + 1
          omega
      obtain ⟨index, bound, here⟩ := List.getElem_of_mem (List.mem_of_find?_eq_some located)
      have stands := congrArg (fun positions ↦ positions[index]?) invariant.positions
      rw [List.getElem?_map, List.getElem?_eq_getElem bound, here, Option.map_some] at stands
      have counted : index < store.persisted.position := by
        have lengths := congrArg List.length invariant.positions
        rw [List.length_map, List.length_range'] at lengths
        omega
      rw [List.getElem?_range' counted] at stands
      have index_eq : index = cursorPosition after := by
        have value := Option.some.inj stands
        omega
      rw [← index_eq, List.getElem?_eq_getElem bound, here]

end Changes

end TransactionStore

open TransactionStore

section Timelines

/-- The states of a store that the turns of a stream read, in the order of one run. -/
structure Timeline (config : StoreConfiguration) (stores : ℕ → TransactionStore) : Prop where
  reachable : ∃ history, Reachable config history (stores 0)
  onward : ∀ turn, ∃ more, Run config (stores turn) more (stores (turn + 1))

variable {stores others : ℕ → TransactionStore}

theorem Timeline.grows (timeline : Timeline config stores) {first last : ℕ} (le : first ≤ last) :
    ∃ more, Run config (stores first) more (stores last) := by
  induction last, le using Nat.le_induction with
  | base => exact ⟨[], .refl⟩
  | succ last _ ih =>
    obtain ⟨_, before⟩ := ih
    obtain ⟨_, step⟩ := timeline.onward last
    exact ⟨_, before.trans step⟩

theorem Timeline.run (timeline : Timeline config stores) (turn : ℕ) :
    ∃ epoch history, Run config (created epoch) history (stores turn) := by
  obtain ⟨_, epoch, reached⟩ := timeline.reachable
  obtain ⟨_, onward⟩ := timeline.grows (Nat.zero_le turn)
  exact ⟨epoch, _, reached.trans onward⟩

end Timelines

section ChangeStreams

def nextChanges (config : StoreConfiguration) (stores : ℕ → TransactionStore) (turn : ℕ)
    (after : String) : Except ReadFailure (Packet TransactionChangeGroup String) :=
  match (stores (turn + 1)).readChanges config after .absent with
  | .ok (.found page _) => .ok (changePacket page)
  | .ok _ => .error (.internal "changefeed stream lost serving entry")
  | .error failure => .error failure

def pumpTransactionChanges (config : StoreConfiguration) (stores : ℕ → TransactionStore)
    (turns : ℕ → PumpTurn) (fuel : ℕ) (page : TransactionChangefeedPage) :
    List TransactionChangeGroup :=
  pump (nextChanges config stores) turns fuel 0 (changePacket page)

/-- Groups of the changefeed are those of a store behind a position, one by one, as some states
observe them. -/
def Delivered (config : StoreConfiguration) (seen : TransactionStore → Prop)
    (store : TransactionStore) (start : ℕ) (groups : List TransactionChangeGroup) : Prop :=
  ∀ index group, groups[index]? = some group →
    ∃ row, store.persisted.groups[start + index]? = some row ∧ row.position = start + index + 1 ∧
      Shows config seen group row

def ReadBy (stores : ℕ → TransactionStore) (turn : ℕ) (observer : TransactionStore) : Prop :=
  ∃ earlier ≤ turn, stores earlier = observer

variable {stores : ℕ → TransactionStore} {store later : TransactionStore} {start : ℕ}
variable {seen others : TransactionStore → Prop}
variable {groups more : List TransactionChangeGroup} {epoch : String} {history : List Execution}
variable {added : List Execution}

section

variable (h : Delivered config seen store start groups)
include h

theorem Delivered.mono (all : ∀ observer, seen observer → others observer) :
    Delivered config others store start groups := by
  intro index group found
  obtain ⟨row, here, position, observer, observed, shows⟩ := h index group found
  exact ⟨row, here, position, observer, all observer observed, shows⟩

theorem Delivered.initial (part : more <+: groups) : Delivered config seen store start more := by
  intro index group found
  apply h
  obtain ⟨rest, same⟩ := part
  rw [← same, List.getElem?_append_left (List.getElem?_eq_some_iff.mp found).1]
  exact found

theorem Delivered.grow (run : Run config (created epoch) history store)
    (onward : Run config store added later) : Delivered config seen later start groups := by
  obtain ⟨fresh, same⟩ := run.groups_grow onward
  intro index group found
  obtain ⟨row, here, rest⟩ := h index group found
  refine ⟨row, ?_, rest⟩
  rw [same, List.getElem?_append_left (List.getElem?_eq_some_iff.mp here).1]
  exact here

theorem Delivered.append (following : Delivered config seen store (start + groups.length) more) :
    Delivered config seen store start (groups ++ more) := by
  intro index group found
  by_cases inside : index < groups.length
  · rw [List.getElem?_append_left inside] at found
    exact h index group found
  · have beyond : groups.length ≤ index := Nat.le_of_not_lt inside
    rw [List.getElem?_append_right beyond] at found
    obtain ⟨row, here, position, shows⟩ := following _ group found
    have index_eq : start + groups.length + (index - groups.length) = start + index := by omega
    rw [index_eq] at here position
    exact ⟨row, here, position, shows⟩

end

variable {page : TransactionChangefeedPage} {after : String}

theorem changePacket_spec {context : TransactionReadContext}
    (run : Run config (created epoch) history store)
    (h : store.readChanges config after supplied = .ok (.found page context)) :
    Delivered config (· = store) store (cursorPosition after) (changePacket page).items ∧
      cursorPosition (changePacket page).continuation =
        cursorPosition after + (changePacket page).items.length ∧
      ((changePacket page).caughtUp = true → (changePacket page).items = [] ∧
        store.persisted.position = cursorPosition after) := by
  have invariant := (GroupsInvariant.run run).1
  obtain ⟨same_after, _, cases_page⟩ := readChanges_spec invariant h
  unfold changePacket
  cases cases_page with
  | inl ended =>
    obtain ⟨empty, head⟩ := ended
    rw [empty, same_after]
    refine ⟨?_, rfl, fun _ ↦ ⟨rfl, head⟩⟩
    intro index group found
    rw [List.getElem?_nil] at found
    cases found
  | inr found =>
    obtain ⟨row, group, single, here, position, projecting⟩ := found
    obtain ⟨checkpoint, _, _⟩ := projectTransactionChangeGroup_eq_ok projecting
    have safe : row.position ≤ maxSafeInteger :=
      ((GroupsInvariant.ordered invariant).bounded row (List.mem_of_getElem? here)).trans
        (position_safe run)
    rw [single]
    refine ⟨?_, ?_, nofun⟩
    · intro index shown found
      have first : index = 0 := by
        have bound := (List.getElem?_eq_some_iff.mp found).1
        exact Nat.lt_one_iff.mp bound
      subst first
      cases found
      exact ⟨row, here, position, store, rfl, projecting⟩
    · change cursorPosition group.checkpoint = cursorPosition after + 1
      rw [checkpoint, cursorPosition_transactionCheckpoint safe, position]

theorem pulled_changes (timeline : Timeline config stores)
    {context : TransactionReadContext} {turn : ℕ} {packet : Packet TransactionChangeGroup String}
    (first : (stores 0).readChanges config after supplied = .ok (.found page context))
    (pulled : Pulled (nextChanges config stores) (changePacket page) turn packet groups) :
    Delivered config (ReadBy stores turn) (stores turn) (cursorPosition after) groups ∧
      cursorPosition packet.continuation = cursorPosition after + groups.length ∧
      (packet.caughtUp = true →
        (stores turn).persisted.position = cursorPosition after + groups.length) := by
  induction pulled with
  | initial =>
    obtain ⟨epoch, history, run⟩ := timeline.run 0
    obtain ⟨delivered, continuation, caught⟩ := changePacket_spec run first
    refine ⟨delivered.mono fun observer same ↦ ⟨0, le_rfl, same.symm⟩, continuation, ?_⟩
    intro ended
    obtain ⟨empty, head⟩ := caught ended
    rw [empty, head]
    rfl
  | @next turn packet following items pulled step ih =>
    obtain ⟨delivered, continuation, _⟩ := ih
    obtain ⟨epoch, history, run⟩ := timeline.run turn
    obtain ⟨more, onward⟩ := timeline.onward turn
    unfold nextChanges at step
    split at step
    next page context read =>
      cases step
      obtain ⟨added, continued, caught⟩ := changePacket_spec (run.trans onward) read
      rw [continuation] at added continued caught
      have before := (delivered.grow run onward).mono fun observer read ↦
        (have ⟨earlier, bound, same⟩ := read
        ⟨earlier, bound.trans (Nat.le_succ turn), same⟩ : ReadBy stores (turn + 1) observer)
      have last := added.mono fun observer same ↦
        (⟨turn + 1, le_rfl, same.symm⟩ : ReadBy stores (turn + 1) observer)
      refine ⟨before.append last, ?_, ?_⟩
      · rw [continued, List.length_append]
        omega
      · intro ended
        obtain ⟨empty, head⟩ := caught ended
        rw [head, empty, List.append_nil]
    all_goals cases step

theorem Delivered.resumes (h : Delivered config seen store start (groups ++ [group]))
    (run : Run config (created epoch) history store) (onward : Run config store added later) :
    cursorPosition group.checkpoint = start + (groups.length + 1) ∧
      (later.authorization.authorizationView = group.authorizationView →
        checkpointPosition config later.readContext group.checkpoint =
          .ok (cursorPosition group.checkpoint)) := by
  obtain ⟨row, here, position, observer, _, projecting⟩ := h groups.length group (by simp)
  generalize observer.readContext = context at projecting
  obtain ⟨checkpoint, _, view⟩ := projectTransactionChangeGroup_eq_ok projecting
  obtain ⟨invariant, held, _⟩ := GroupsInvariant.run run
  obtain ⟨_, kept, _⟩ := GroupsInvariant.run (run.trans onward)
  have member := List.mem_of_getElem? here
  have safe : row.position ≤ maxSafeInteger :=
    ((GroupsInvariant.ordered invariant).bounded row member).trans (position_safe run)
  have point : cursorPosition group.checkpoint = row.position := by
    rw [checkpoint, cursorPosition_transactionCheckpoint safe]
  refine ⟨by omega, ?_⟩
  intro same
  have observed : context.scopeEpoch = later.persisted.epoch := by
    unfold projectTransactionChangeGroup at projecting
    rw [check_bind_eq_ok, check_bind_eq_ok, bind_eq_ok] at projecting
    obtain ⟨_, _, _, events, _⟩ := projecting
    unfold projectTransactionEventGroup at events
    rw [bind_eq_ok] at events
    obtain ⟨_, checked, _⟩ := events
    have epochs := (check_eq_ok.mp checked).1
    rw [← epochs, (invariant.framed row member).scopeEpoch, held, kept]
  have epochs : config.tags.digest ["epoch", config.scope, context.scopeEpoch] =
      config.tags.digest ["epoch", config.scope, later.readContext.scopeEpoch] := by
    rw [observed]
    rfl
  have views : config.tags.digest
        ["view", config.scope, context.scopeEpoch, context.authorizationView] =
      config.tags.digest ["view", config.scope, later.readContext.scopeEpoch,
        later.readContext.authorizationView] := by
    rw [observed, ← view, ← same]
    rfl
  unfold checkpointPosition
  rw [point, checkpoint, parse_transactionCheckpoint _ _ _ (by omega) safe, require_some, ok_bind]
  exact check_bind_eq_ok.mpr ⟨epochs, check_bind_eq_ok.mpr ⟨views, rfl⟩⟩

/-- The law of the change streams whose turns read some states of a store. -/
structure ChangeStreamLaw (config : StoreConfiguration) (stores : ℕ → TransactionStore) : Prop where
  /-- A stream from now starts at the position of its admission. -/
  now : ∀ earlier more after, (∃ history, Reachable config history earlier) →
    Run config earlier more (stores 0) → earlier.captureChangesStart config = .ok after →
      cursorPosition after = earlier.persisted.position
  /-- The frames are the first groups behind the start, each once and without a gap. -/
  delivered : ∀ after supplied page context turns fuel,
    (stores 0).readChanges config after supplied = .ok (.found page context) →
      Delivered config (ReadBy stores fuel) (stores fuel) (cursorPosition after)
        (pumpTransactionChanges config stores turns fuel page)
  /-- The identity of the last frame is a checkpoint behind it, which the readers accept. -/
  accepted : ∀ after supplied page context turns fuel front last,
    (stores 0).readChanges config after supplied = .ok (.found page context) →
    pumpTransactionChanges config stores turns fuel page = front ++ [last] →
      cursorPosition last.checkpoint = cursorPosition after + (front.length + 1) ∧
        ∀ more later, Run config (stores fuel) more later →
          later.authorization.authorizationView = last.authorizationView →
            checkpointPosition config later.readContext last.checkpoint =
              .ok (cursorPosition last.checkpoint)
  /-- A finite read behind it adds the rest, and all of it once it has caught up. -/
  read : ∀ after supplied page context turns fuel front last,
    (stores 0).readChanges config after supplied = .ok (.found page context) →
    pumpTransactionChanges config stores turns fuel page = front ++ [last] →
    ∀ others again first minimum more, Timeline config others →
      Run config (stores fuel) more (others 0) →
      (others 0).readChanges config last.checkpoint minimum = .ok (.found first again) →
      ∀ turn packet groups,
        Pulled (nextChanges config others) (changePacket first) turn packet groups →
          Delivered config (fun observer ↦ ReadBy stores fuel observer ∨ ReadBy others turn observer)
              (others turn) (cursorPosition after) (front ++ [last] ++ groups) ∧
            (packet.caughtUp = true → (others turn).persisted.position =
              cursorPosition after + (front ++ [last] ++ groups).length)
  /-- A new stream behind it adds the rest. -/
  resumed : ∀ after supplied page context turns fuel front last,
    (stores 0).readChanges config after supplied = .ok (.found page context) →
    pumpTransactionChanges config stores turns fuel page = front ++ [last] →
    ∀ others again first minimum more, Timeline config others →
      Run config (stores fuel) more (others 0) →
      (others 0).readChanges config last.checkpoint minimum = .ok (.found first again) →
      ∀ again_turns again_fuel, Delivered config
        (fun observer ↦ ReadBy stores fuel observer ∨ ReadBy others again_fuel observer)
        (others again_fuel) (cursorPosition after)
        (front ++ [last] ++ pumpTransactionChanges config others again_turns again_fuel first)

theorem change_stream_law (timeline : Timeline config stores) : ChangeStreamLaw config stores := by
  have delivered {after : String} {supplied : SuppliedMinimum} {page : TransactionChangefeedPage}
      {context : TransactionReadContext} {stores : ℕ → TransactionStore}
      (timeline : Timeline config stores) (turns : ℕ → PumpTurn) (fuel : ℕ)
      (first : (stores 0).readChanges config after supplied = .ok (.found page context)) :
      Delivered config (ReadBy stores fuel) (stores fuel) (cursorPosition after)
        (pumpTransactionChanges config stores turns fuel page) := by
    obtain ⟨last, held, items, bound, pulled, part⟩ :=
      @pump_delivers _ _ _ _ (changePacket page) (changePacket page) turns fuel 0 []
        (.initial : Pulled (nextChanges config stores) _ 0 _ _)
    rw [List.nil_append, Nat.zero_add] at *
    obtain ⟨epoch, history, run⟩ := timeline.run last
    obtain ⟨more, onward⟩ := timeline.grows bound
    have read := ((pulled_changes timeline first pulled).1.grow run onward).initial part
    apply read.mono
    intro observer observed
    obtain ⟨earlier, before, same⟩ := observed
    exact ⟨earlier, before.trans bound, same⟩
  have grown {after : String} {supplied : SuppliedMinimum} {page : TransactionChangefeedPage}
      {context : TransactionReadContext} {turns : ℕ → PumpTurn} {fuel : ℕ}
      {front : List TransactionChangeGroup} {last : TransactionChangeGroup}
      (first : (stores 0).readChanges config after supplied = .ok (.found page context))
      (frames : pumpTransactionChanges config stores turns fuel page = front ++ [last])
      {others : ℕ → TransactionStore} {more : List Execution} (second : Timeline config others)
      (onward : Run config (stores fuel) more (others 0)) (turn : ℕ) :
      Delivered config (ReadBy stores fuel) (others turn) (cursorPosition after) (front ++ [last]) ∧
        cursorPosition last.checkpoint = cursorPosition after + (front ++ [last]).length := by
    obtain ⟨epoch, history, run⟩ := timeline.run fuel
    obtain ⟨_, continued⟩ := second.grows (Nat.zero_le turn)
    have written := delivered timeline turns fuel first
    rw [frames] at written
    refine ⟨written.grow run (onward.trans continued), ?_⟩
    rw [(written.resumes run onward).1, List.length_append]
    rfl
  refine ⟨?_, ?_, ?_, ?_, ?_⟩
  · intro earlier more after reachable run captured
    obtain ⟨_, epoch, reached⟩ := reachable
    have captured := (entered_eq_ok.mp captured).2
    cases captured
    exact cursorPosition_transactionCheckpoint (position_safe reached)
  · intro after supplied page context turns fuel first
    exact delivered timeline turns fuel first
  · intro after supplied page context turns fuel front last first frames
    obtain ⟨epoch, history, run⟩ := timeline.run fuel
    have written := delivered timeline turns fuel first
    rw [frames] at written
    refine ⟨(written.resumes run .refl).1, ?_⟩
    intro more later onward
    exact (written.resumes run onward).2
  · intro after supplied page context turns fuel front last first frames others again restarted
      minimum more second onward reading turn packet groups pulled
    obtain ⟨written, point⟩ := grown first frames second onward turn
    obtain ⟨added, _, caught⟩ := pulled_changes second reading pulled
    rw [point] at added caught
    refine ⟨(written.mono fun _ ↦ Or.inl).append (added.mono fun _ ↦ Or.inr), ?_⟩
    intro ended
    rw [caught ended, Nat.add_assoc, ← List.length_append]
  · intro after supplied page context turns fuel front last first frames others again restarted
      minimum more second onward reading again_turns again_fuel
    obtain ⟨written, point⟩ := grown first frames second onward again_fuel
    have added := delivered second again_turns again_fuel reading
    rw [point] at added
    exact (written.mono fun _ ↦ Or.inl).append (added.mono fun _ ↦ Or.inr)

end ChangeStreams

section EventStreams

def nextEvents (config : StoreConfiguration) (stores : ℕ → TransactionStore) (turn : ℕ)
    (scan : TransactionEventScan) :
    Except ReadFailure (Packet TransactionEvent TransactionEventScan) :=
  match (stores (turn + 1)).advanceEventScan config scan with
  | .ok packet => .ok (eventPacket packet)
  | .error failure => .error failure

def pumpTransactionEvents (config : StoreConfiguration) (stores : ℕ → TransactionStore)
    (turns : ℕ → PumpTurn) (fuel : ℕ) (packet : TransactionEventPacket) : List TransactionEvent :=
  pump (nextEvents config stores) turns fuel 0 (eventPacket packet)

variable {stores : ℕ → TransactionStore} {source : TransactionEventSource}
variable {context : TransactionReadContext}
variable {packet : TransactionEventPacket} {invalidReconnect : Bool} {after : Option String}

theorem pulled_events (timeline : Timeline config stores) {turn : ℕ}
    {held : Packet TransactionEvent TransactionEventScan} {shown : List TransactionEvent}
    (first : (stores 0).beginEventScan config source after supplied invalidReconnect =
      .ok (.found packet context))
    (pulled : Pulled (nextEvents config stores) (eventPacket packet) turn held shown) :
    ∃ found, held = eventPacket found ∧
      ScanTrace config source after (stores 0) (stores turn) found shown := by
  induction pulled with
  | initial => exact ⟨packet, rfl, .begun first⟩
  | @next turn held following items pulled step ih =>
    obtain ⟨found, same, trace⟩ := ih
    obtain ⟨more, onward⟩ := timeline.onward turn
    subst same
    unfold nextEvents at step
    split at step
    next packet advanced =>
      cases step
      exact ⟨packet, rfl, .advanced trace onward advanced⟩
    next => cases step

theorem pumpTransactionEvents_spec
    (fresh : ∀ turn draw, config.uuid turn draw ≠ INITIAL_TRANSACTION_VIEW)
    (timeline : Timeline config stores) (turns : ℕ → PumpTurn) (fuel : ℕ)
    (first : (stores 0).beginEventScan config source after supplied invalidReconnect =
      .ok (.found packet context)) :
    ∃ last taken rest, last ≤ fuel ∧ (stores last).authorization = (stores 0).authorization ∧
      Within (stores last).persisted.position (resumePoint after).1 (resumePoint after).2 ∧
      pumpTransactionEvents config stores turns fuel packet = taken.map Prod.snd ∧
      (stores last).upcoming config source (resumePoint after).1 (resumePoint after).2 =
        taken ++ rest := by
  obtain ⟨last, held, items, bound, pulled, part⟩ :=
    @pump_delivers _ _ _ _ (eventPacket packet) (eventPacket packet) turns fuel 0 []
      (.initial : Pulled (nextEvents config stores) _ 0 _ _)
  rw [List.nil_append, Nat.zero_add] at *
  obtain ⟨found, _, trace⟩ := pulled_events timeline first pulled
  obtain ⟨epoch, history, reached⟩ := timeline.run 0
  obtain ⟨taken, listed, stands⟩ := trace.stands fresh reached
  obtain ⟨tail, whole⟩ := part
  obtain ⟨front, back, same, left, _⟩ := List.map_eq_append_iff.mp (listed.symm.trans whole.symm)
  refine ⟨last, front,
    back ++ (stores last).upcoming config source found.scan.at found.scan.ordinal, bound,
    stands.authorization, stands.start, left.symm, ?_⟩
  rw [stands.split, same, List.append_assoc]

/-- The law of the event streams whose turns read some states of a store. -/
structure EventStreamLaw (config : StoreConfiguration) (stores : ℕ → TransactionStore) : Prop where
  /-- The frames are the first matching events behind the start, each once and without a gap. -/
  delivered : ∀ source after supplied invalidReconnect packet context turns fuel,
    (stores 0).beginEventScan config source after supplied invalidReconnect =
      .ok (.found packet context) →
    ∃ last taken rest, last ≤ fuel ∧
      pumpTransactionEvents config stores turns fuel packet = taken.map Prod.snd ∧
      (stores last).upcoming config source (resumePoint after).1 (resumePoint after).2 =
        taken ++ rest ∧
      (taken ++ rest).Pairwise fun left right ↦ eventKey left < eventKey right
  /-- The identity of the last frame is a cursor that the readers accept. -/
  accepted : ∀ source after supplied invalidReconnect packet context turns fuel front last,
    (stores 0).beginEventScan config source after supplied invalidReconnect =
      .ok (.found packet context) →
    pumpTransactionEvents config stores turns fuel packet = front ++ [last] →
    ∀ more later, Run config (stores fuel) more later →
      later.authorization = (stores 0).authorization →
      ∃ cursor row, row ∈ later.persisted.groups ∧ row.position = cursor.position ∧
        requestCursor config later.readContext source (some last.id) =
          .ok (some (cursor, last.id)) ∧
        ∃ projected, later.eventProjection config later.readContext source
          (some (cursor, last.id)) row = .ok projected
  /-- A new scan behind it adds the rest, and all of it once it has caught up. -/
  scanned : ∀ source after supplied invalidReconnect packet context turns fuel front last,
    (stores 0).beginEventScan config source after supplied invalidReconnect =
      .ok (.found packet context) →
    pumpTransactionEvents config stores turns fuel packet = front ++ [last] →
    ∀ more restart store found shown, Run config (stores fuel) more restart →
      ScanTrace config source (some last.id) restart store found shown →
      front ++ [last] ++ shown <+: (store.upcoming config source (resumePoint after).1
          (resumePoint after).2).map Prod.snd ∧
        (found.caughtUp = true → front ++ [last] ++ shown =
          (store.upcoming config source (resumePoint after).1 (resumePoint after).2).map Prod.snd)
  /-- A finite read behind it adds the rest, and all of it with its last page. -/
  paged : ∀ source after supplied invalidReconnect packet context turns fuel front last,
    (stores 0).beginEventScan config source after supplied invalidReconnect =
      .ok (.found packet context) →
    pumpTransactionEvents config stores turns fuel packet = front ++ [last] →
    ∀ more restart store page shown, Run config (stores fuel) more restart →
      PageTrace config source (some last.id) restart store page shown →
      front ++ [last] ++ shown <+: (store.upcoming config source (resumePoint after).1
          (resumePoint after).2).map Prod.snd ∧
        (page.next = none → front ++ [last] ++ shown =
          (store.upcoming config source (resumePoint after).1 (resumePoint after).2).map Prod.snd)

theorem eventProjection_of_mem {store : TransactionStore}
    {cursor : EventCursor} {row : GroupRow} {event : TransactionEvent}
    (shown : event ∈ groupEvents config context source store.authorization.allVisible row)
    (position : row.position = cursor.position) (ordinal : event.ordinal = cursor.ordinal) :
    ∃ projected, store.eventProjection config context source (some (cursor, event.id)) row =
      .ok projected := by
  unfold groupEvents at shown
  split at shown
  next events projecting =>
    refine ⟨events, ?_⟩
    have named : events.any (fun other ↦ other.ordinal == cursor.ordinal && other.id == event.id) =
        true := by
      apply List.any_eq_true.mpr
      exact ⟨event, shown, by rw [ordinal, beq_self_eq_true, beq_self_eq_true, Bool.and_true]⟩
    unfold eventProjection
    rw [projecting, ok_bind]
    exact check_bind_eq_ok.mpr ⟨⟨position, named⟩, rfl⟩
  next => exact absurd shown List.not_mem_nil

theorem event_stream_law (fresh : ∀ turn draw, config.uuid turn draw ≠ INITIAL_TRANSACTION_VIEW)
    (timeline : Timeline config stores) : EventStreamLaw config stores := by
  obtain ⟨_, epoch, reached⟩ := timeline.reachable
  -- The state of the last pull, with what is left behind the last frame.
  have stood {after : Option String} {supplied : SuppliedMinimum} {invalidReconnect : Bool}
      {packet : TransactionEventPacket} {context : TransactionReadContext}
      {source : TransactionEventSource} {turns : ℕ → PumpTurn} {fuel : ℕ}
      {front : List TransactionEvent} {last : TransactionEvent}
      (first : (stores 0).beginEventScan config source after supplied invalidReconnect =
        .ok (.found packet context))
      (frames : pumpTransactionEvents config stores turns fuel packet = front ++ [last]) :
      ∃ turn before final rest, turn ≤ fuel ∧
        (stores turn).authorization = (stores 0).authorization ∧
        Within (stores turn).persisted.position (resumePoint after).1 (resumePoint after).2 ∧
        (stores turn).upcoming config source (resumePoint after).1 (resumePoint after).2 =
          before ++ final :: rest ∧
        front = before.map Prod.snd ∧ last = final.2 := by
    obtain ⟨turn, taken, rest, bound, same, within, written, split⟩ :=
      pumpTransactionEvents_spec fresh timeline turns fuel first
    obtain ⟨before, ending, listed, left, single⟩ :=
      List.map_eq_append_iff.mp (written.symm.trans frames)
    obtain ⟨final, ended, identity⟩ := List.map_eq_singleton_iff.mp single
    rw [listed, ended, List.append_assoc, List.singleton_append] at split
    exact ⟨turn, before, final, rest, bound, same, within, split, left.symm, identity.symm⟩
  -- What a later state shows behind the start, once it shows events.
  have continued {after : Option String} {supplied : SuppliedMinimum} {invalidReconnect : Bool}
      {packet : TransactionEventPacket} {context : TransactionReadContext}
      {source : TransactionEventSource} {turns : ℕ → PumpTurn} {fuel : ℕ}
      {front : List TransactionEvent} {last : TransactionEvent}
      (first : (stores 0).beginEventScan config source after supplied invalidReconnect =
        .ok (.found packet context))
      (frames : pumpTransactionEvents config stores turns fuel packet = front ++ [last])
      {later : TransactionStore} {more : List Execution} (onward : Run config (stores fuel) more later)
      (seen : later.authorization.allVisible = true) :
      (later.upcoming config source (resumePoint after).1 (resumePoint after).2).map Prod.snd =
        front ++ [last] ++ (later.upcoming config source (resumePoint (some last.id)).1
          (resumePoint (some last.id)).2).map Prod.snd := by
    obtain ⟨turn, before, final, rest, bound, same, within, whole, listed, identity⟩ :=
      stood first frames
    obtain ⟨_, run⟩ := timeline.grows (Nat.zero_le turn)
    obtain ⟨_, grows⟩ := timeline.grows bound
    obtain ⟨_, resumed⟩ :=
      upcoming_resume (reached.trans run) (grows.trans onward) seen within whole
    rw [listed, identity, resumed, List.map_append, List.map_append]
    rfl
  refine ⟨?_, ?_, ?_, ?_⟩
  · intro source after supplied invalidReconnect packet context turns fuel first
    obtain ⟨last, taken, rest, bound, _, _, written, split⟩ :=
      pumpTransactionEvents_spec fresh timeline turns fuel first
    refine ⟨last, taken, rest, bound, written, split, ?_⟩
    obtain ⟨epoch, history, run⟩ := timeline.run last
    rw [← split]
    exact (projection_ascending (run_ordered run).ascending).filter _
  · intro source after supplied invalidReconnect packet context turns fuel front last first frames
      more later onward same
    obtain ⟨turn, before, final, rest, bound, kept, within, whole, listed, identity⟩ :=
      stood first frames
    obtain ⟨_, run⟩ := timeline.grows (Nat.zero_le turn)
    obtain ⟨_, grows⟩ := timeline.grows bound
    have here := reached.trans run
    obtain ⟨_, held, _⟩ := GroupsInvariant.run here
    obtain ⟨_, observed, _⟩ := GroupsInvariant.run (here.trans (grows.trans onward))
    obtain ⟨_, groups⟩ := here.groups_grow (grows.trans onward)
    have member : final ∈ projection config (stores turn).readContext source
        (stores turn).authorization.allVisible (stores turn).persisted.groups := by
      have inside : final ∈ (stores turn).upcoming config source (resumePoint after).1
          (resumePoint after).2 := by
        rw [whole]
        exact List.mem_append_right _ List.mem_cons_self
      exact List.mem_of_mem_filter inside
    obtain ⟨_, rendered⟩ := rendered_of_mem member
    obtain ⟨row, inside, position, shown⟩ := mem_projection member
    have view : (stores turn).authorization = later.authorization := kept.trans same.symm
    have shows : groupEvents config (stores turn).readContext source
        (stores turn).authorization.allVisible =
          groupEvents config later.readContext source later.authorization.allVisible := by
      rw [view]
      apply groupEvents_congr
      · exact held.trans observed.symm
      · exact congrArg TransactionAuthorization.authorizationView view
    rw [shows] at shown
    have id : last.id = renderEventId config.tags (stores turn).readContext source.url final.1
        final.2.ordinal := by
      rw [identity]
      exact rendered.id
    refine ⟨{ position := final.1, ordinal := final.2.ordinal
              epoch := config.tags.digest ["epoch", (stores turn).readContext.scopeEpoch]
              view := config.tags.digest ["view", (stores turn).readContext.authorizationView]
              source := config.tags.digest ["source", source.url] }, row, ?_, position.symm, ?_, ?_⟩
    · rw [groups]
      exact List.mem_append_left _ inside
    · have epochs : (stores turn).readContext.scopeEpoch = later.readContext.scopeEpoch :=
        held.trans observed.symm
      have views : (stores turn).readContext.authorizationView =
          later.readContext.authorizationView :=
        congrArg TransactionAuthorization.authorizationView view
      unfold requestCursor
      dsimp only
      rw [id, parse_renderEventId _ _ _ rendered.pos rendered.safe rendered.ordinal, require_some,
        ok_bind]
      exact check_bind_eq_ok.mpr ⟨by rw [epochs], check_bind_eq_ok.mpr ⟨by rw [views],
        check_bind_eq_ok.mpr ⟨rfl, rfl⟩⟩⟩
    · rw [identity]
      exact eventProjection_of_mem shown position.symm rfl
  · intro source after supplied invalidReconnect packet context turns fuel front last first frames
      more restart store found shown onward trace
    obtain ⟨_, at_fuel⟩ := timeline.grows (Nat.zero_le fuel)
    have restarted := (reached.trans at_fuel).trans onward
    obtain ⟨taken, listed, stands⟩ := trace.stands fresh restarted
    obtain ⟨_, within_trace⟩ := stands.run
    have seen : store.authorization.allVisible = true := by
      rw [stands.authorization]
      exact trace.visible restarted (Option.some_ne_none _)
    have whole := continued first frames (onward.trans within_trace) seen
    rw [stands.split, List.map_append, ← List.append_assoc, ← listed] at whole
    rw [whole]
    refine ⟨List.prefix_append _ _, ?_⟩
    intro caught
    rw [stands.caughtUp caught, List.map_nil, List.append_nil]
  · intro source after supplied invalidReconnect packet context turns fuel front last first frames
      more restart store page shown onward trace
    obtain ⟨_, at_fuel⟩ := timeline.grows (Nat.zero_le fuel)
    have restarted := (reached.trans at_fuel).trans onward
    obtain ⟨taken, rest, listed, stands⟩ := trace.stands restarted
    obtain ⟨_, within_trace⟩ := stands.run
    have seen : store.authorization.allVisible = true := by
      rw [stands.authorization]
      exact trace.visible restarted (Option.some_ne_none _)
    have whole := continued first frames (onward.trans within_trace) seen
    rw [stands.split, List.map_append, ← List.append_assoc, ← listed] at whole
    rw [whole]
    refine ⟨List.prefix_append _ _, ?_⟩
    intro complete
    rw [stands.complete complete, List.map_nil, List.append_nil]

end EventStreams

/-- Streams deliver exactly once, over every timeline of a store. -/
theorem streams_deliver (fresh : ∀ turn draw, config.uuid turn draw ≠ INITIAL_TRANSACTION_VIEW)
    {stores : ℕ → TransactionStore} (timeline : Timeline config stores) :
    ChangeStreamLaw config stores ∧ EventStreamLaw config stores :=
  ⟨change_stream_law timeline, event_stream_law fresh timeline⟩

/-- The first transaction commits behind the first page of a stream. -/
def beadStores (turn : ℕ) : TransactionStore :=
  if turn = 0 then beadAdmitted (created "epoch") "alice" else beadCreated

theorem beadStores_timeline : Timeline beadConfiguration beadStores where
  reachable := by
    rw [beadStores, if_pos rfl, ← beadAdmitted_eq]
    exact ⟨_, "epoch", Run.called _ _ _ .refl⟩
  onward turn := by
    cases turn with
    | zero => exact beadExecuted_run 0 .refl
    | succ turn => exact ⟨[], .refl⟩

/-- Everything is written; the wait behind the second packet is aborted. -/
def writtenTurn (turn : ℕ) : PumpTurn :=
  { aborted := false, sink := fun _ ↦ .drained, heartbeat := none
    interrupted := fun _ ↦ decide (turn = 1) }

/-- The frames of a change stream from genesis. -/
def changeFrames : List TransactionChangeGroup :=
  match (beadStores 0).readChanges beadConfiguration genesis .absent with
  | .ok (.found page _) => pumpTransactionChanges beadConfiguration beadStores writtenTurn 2 page
  | _ => []

/-- The frames of an event stream from its start. -/
def eventFrames : List TransactionEvent :=
  match (beadStores 0).beginEventScan beadConfiguration beadEvents none .absent false with
  | .ok (.found packet _) => pumpTransactionEvents beadConfiguration beadStores writtenTurn 2 packet
  | _ => []

/-- The identity of the frame of the change stream. -/
def behindFrame : String := (changeFrames.head?.map TransactionChangeGroup.checkpoint).getD ""

/-- Whether a read finds that nothing is left. -/
def caughtUp (read : Except ReadFailure (ReadOutcome TransactionChangefeedPage)) : Bool :=
  match read with
  | .ok (.found page _) => page.groups.isEmpty && page.next.isNone
  | _ => false

theorem caughtUp_of_position
    (position : checkpointPosition beadConfiguration beadCreated.readContext behindFrame = .ok 1) :
    caughtUp (beadCreated.readChanges beadConfiguration behindFrame .absent) = true := by
  unfold readChanges
  dsimp only
  rw [position]
  decide +kernel

theorem caughtUp_created (law : ChangeStreamLaw beadConfiguration beadStores) :
    caughtUp (beadCreated.readChanges beadConfiguration behindFrame .absent) = true := by
  have one : changeFrames.length = 1 := by decide +kernel
  have views : changeFrames.map TransactionChangeGroup.authorizationView =
      [beadCreated.authorization.authorizationView] := by decide +kernel
  obtain ⟨last, single⟩ := List.length_eq_one_iff.mp one
  rw [single] at views
  have named : last.checkpoint = behindFrame := by
    rw [behindFrame, single]
    rfl
  unfold changeFrames at single
  split at single
  next page context read =>
    obtain ⟨ahead, accepted⟩ := law.accepted _ _ _ _ _ _ [] last read single
    have position := accepted [] beadCreated .refl (List.cons.inj views).1.symm
    have first : cursorPosition genesis = 0 := rfl
    rw [ahead, first, named] at position
    exact caughtUp_of_position position
  next => cases single

/-- Streams that start before the transaction write its frame, and a read behind that frame has
caught up. -/
theorem streams_deliver_created :
    (ChangeStreamLaw beadConfiguration beadStores ∧ EventStreamLaw beadConfiguration beadStores) ∧
      changeFrames.length = 1 ∧ eventFrames.length = 1 ∧
      caughtUp (beadCreated.readChanges beadConfiguration behindFrame .absent) = true := by
  have law := streams_deliver beadConfiguration_fresh beadStores_timeline
  exact ⟨law, by decide +kernel, by decide +kernel, caughtUp_created law.1⟩

end Bdp.Transaction
