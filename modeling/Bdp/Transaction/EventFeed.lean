import Bdp.Library.Resume
import Bdp.Transaction.Authorization

/-!
# The projection of a source

The events that a source shows of a list of groups, in the order of their positions and ordinals. A
resume point cuts the projection; what remains of it is read group by group.
-/

namespace Bdp.Transaction

variable {config : StoreConfiguration} {context : TransactionReadContext}
variable {source : TransactionEventSource} {visible : Bool} {row : GroupRow}

section Projection

variable (config : StoreConfiguration) (context : TransactionReadContext)
variable (source : TransactionEventSource) (visible : Bool)

/-- The events that a source shows of one group; none of a group that it cannot project. -/
def groupEvents (row : GroupRow) : List TransactionEvent :=
  match projectTransactionEventGroup config.tags config.scope context source row.position visible
    row.body with
  | .ok events => events
  | .error _ => []

/-- An event with the position of its group. -/
abbrev PositionedEvent := ℕ × TransactionEvent

/-- The events that a source shows of some groups, in order. -/
def projection (groups : List GroupRow) : List PositionedEvent :=
  groups.flatMap fun row ↦
    (groupEvents config context source visible row).map fun event ↦ (row.position, event)

end Projection

def eventKey (entry : PositionedEvent) : ℕ ×ₗ ℕ := toLex (entry.1, entry.2.ordinal)

/-- Whether an event stands behind a resume point: in a later group, or behind its ordinal. -/
def ahead («at» : ℕ) (ordinal : Option ℕ) (entry : PositionedEvent) : Bool :=
  decide («at» < entry.1) || (decide (entry.1 = «at») && !TransactionStore.behind ordinal entry.2)

section Remaining

variable (config : StoreConfiguration) (context : TransactionReadContext)
variable (source : TransactionEventSource) (visible : Bool)

/-- What a source still shows behind a resume point. -/
def remaining («at» : ℕ) (ordinal : Option ℕ) (groups : List GroupRow) : List PositionedEvent :=
  (projection config context source visible groups).filter (ahead «at» ordinal)

end Remaining

section Group

/-- The rendered form of an event of a group. -/
structure Rendered (config : StoreConfiguration) (context : TransactionReadContext)
    (source : TransactionEventSource) (position : ℕ) (event : TransactionEvent) : Prop where
  id : event.id = renderEventId config.tags context source.url position event.ordinal
  pos : 1 ≤ position
  safe : position ≤ maxSafeInteger
  ordinal : event.ordinal ≤ maxSafeInteger

variable {group : TransactionGroup}
variable {facts : EndpointFacts}

theorem projectEvent_eq_ok {entry : TransactionEvent × ℕ} {shown : List TransactionEvent}
    (h : projectEvent config.tags config.scope context source visible group facts entry = .ok shown) :
    shown = [] ∨ visible = true ∧ ∃ event, shown = [event] ∧ event.ordinal = entry.2 ∧
      Rendered config context source group.checkpoint event := by
  unfold projectEvent at h
  rw [Except.bind_eq_ok] at h
  obtain ⟨_, framed, h⟩ := h
  obtain ⟨ordinal, _, _⟩ := check_eq_ok.mp framed
  cases visible with
  | false =>
    cases h
    exact Or.inl rfl
  | true =>
    have showing {inclusion : Except ReadFailure Bool}
        (h : (inclusion >>= fun included ↦
          if included = true then
            renderTransactionEvent config.tags context source.url group.checkpoint entry.1 >>=
              fun rendered ↦ pure [rendered]
          else pure []) = .ok shown) :
        shown = [] ∨ true = true ∧ ∃ event, shown = [event] ∧ event.ordinal = entry.2 ∧
          Rendered config context source group.checkpoint event := by
      rw [Except.bind_eq_ok] at h
      obtain ⟨included, _, h⟩ := h
      split at h
      · rw [Except.bind_eq_ok] at h
        obtain ⟨rendered, rendering, done⟩ := h
        unfold renderTransactionEvent at rendering
        rw [check_bind_eq_ok] at rendering
        obtain ⟨⟨pos, safe, bounded⟩, same⟩ := rendering
        cases done
        cases same
        exact Or.inr ⟨rfl, _, rfl, ordinal, ⟨rfl, pos, safe, bounded⟩⟩
      · cases h
        exact Or.inl rfl
    dsimp only [if_true] at h
    rw [if_pos rfl] at h
    split at h
    · exact showing h
    · exact showing h

variable {events : List TransactionEvent}

theorem projectEvents_ordered {index : ℕ} {shown : List (List TransactionEvent)}
    (h : List.Forall₂ (fun entry result ↦ projectEvent config.tags config.scope context source visible
      group facts entry = .ok result) (events.zipIdx index) shown) :
    (shown.flatten.Pairwise fun left right ↦ left.ordinal < right.ordinal) ∧
      ∀ event ∈ shown.flatten, index ≤ event.ordinal ∧ visible = true ∧
        Rendered config context source group.checkpoint event := by
  induction events generalizing index shown with
  | nil =>
    cases h
    exact ⟨List.Pairwise.nil, fun _ member ↦ absurd member List.not_mem_nil⟩
  | cons first events ih =>
    rw [List.zipIdx_cons] at h
    cases h with
    | @cons _ result _ shown projected others =>
      obtain ⟨ordered, framed⟩ := ih others
      rw [List.flatten_cons]
      cases projectEvent_eq_ok projected with
      | inl hidden =>
        rw [hidden, List.nil_append]
        refine ⟨ordered, ?_⟩
        intro event member
        obtain ⟨low, rest⟩ := framed event member
        exact ⟨by omega, rest⟩
      | inr showing =>
        obtain ⟨seen, event, same, ordinal, rendered⟩ := showing
        dsimp only at ordinal
        rw [same, List.singleton_append]
        refine ⟨List.pairwise_cons.mpr ⟨?_, ordered⟩, ?_⟩
        · intro later member
          obtain ⟨low, _⟩ := framed later member
          omega
        · intro other member
          cases List.mem_cons.mp member with
          | inl first => exact first ▸ ⟨le_of_eq ordinal.symm, seen, rendered⟩
          | inr later =>
            obtain ⟨low, rest⟩ := framed other later
            exact ⟨by omega, rest⟩

theorem projectTransactionEventGroup_ordered {position : ℕ}
    (h : projectTransactionEventGroup config.tags config.scope context source position visible group =
      .ok events) :
    (events.Pairwise fun left right ↦ left.ordinal < right.ordinal) ∧
      ∀ event ∈ events, visible = true ∧ Rendered config context source position event := by
  unfold projectTransactionEventGroup at h
  rw [Except.bind_eq_ok] at h
  obtain ⟨_, checked, h⟩ := h
  obtain ⟨_, _, same, checkpoint, _⟩ := check_eq_ok.mp checked
  rw [Except.bind_eq_ok] at h
  obtain ⟨facts, _, h⟩ := h
  rw [Except.bind_eq_ok] at h
  obtain ⟨shown, mapped, done⟩ := h
  cases done
  obtain ⟨ordered, framed⟩ := projectEvents_ordered (mapM_eq_ok.mp mapped)
  rw [checkpoint, same] at framed
  exact ⟨ordered, fun event member ↦ (framed event member).2⟩

theorem groupEvents_ordered :
    ((groupEvents config context source visible row).Pairwise fun left right ↦
        left.ordinal < right.ordinal) ∧
      ∀ event ∈ groupEvents config context source visible row,
        visible = true ∧ Rendered config context source row.position event := by
  unfold groupEvents
  split
  next events projected => exact projectTransactionEventGroup_ordered projected
  next => exact ⟨List.Pairwise.nil, fun _ member ↦ absurd member List.not_mem_nil⟩

theorem groupEvents_congr {other : TransactionReadContext}
    (epoch : context.scopeEpoch = other.scopeEpoch)
    (view : context.authorizationView = other.authorizationView) :
    groupEvents config context source visible = groupEvents config other source visible := by
  cases context
  cases other
  dsimp only at epoch view
  subst epoch view
  rfl

end Group

section Groups

variable {groups more earlier later : List GroupRow} {position : ℕ} {ordinal : Option ℕ}

theorem projection_append : projection config context source visible (groups ++ more) =
    projection config context source visible groups ++
      projection config context source visible more := List.flatMap_append

theorem projection_cons : projection config context source visible (row :: groups) =
    (groupEvents config context source visible row).map (fun event ↦ (row.position, event)) ++
      projection config context source visible groups := List.flatMap_cons

variable {entry : PositionedEvent}

section

variable (h : entry ∈ projection config context source visible groups)
include h

theorem mem_projection : ∃ row ∈ groups, entry.1 = row.position ∧
      entry.2 ∈ groupEvents config context source visible row := by
  obtain ⟨row, inside, member⟩ := List.mem_flatMap.mp h
  obtain ⟨event, shown, same⟩ := List.mem_map.mp member
  subst same
  exact ⟨row, inside, rfl, shown⟩

theorem rendered_of_mem : visible = true ∧ Rendered config context source entry.1 entry.2 := by
  obtain ⟨row, _, position, shown⟩ := mem_projection h
  rw [position]
  exact groupEvents_ordered.2 _ shown

end

theorem projection_ascending
    (ordered : groups.Pairwise fun left right ↦ left.position < right.position) :
    (projection config context source visible groups).Pairwise fun left right ↦
      eventKey left < eventKey right := by
  induction groups with
  | nil => exact List.Pairwise.nil
  | cons row groups ih =>
    obtain ⟨first, rest⟩ := List.pairwise_cons.mp ordered
    rw [projection_cons]
    apply List.pairwise_append.mpr
    refine ⟨?_, ih rest, ?_⟩
    · apply List.pairwise_map.mpr
      apply groupEvents_ordered.1.imp
      intro left right less
      exact Prod.Lex.toLex_lt_toLex.mpr (Or.inr ⟨rfl, less⟩)
    · intro left member right following
      obtain ⟨event, _, same⟩ := List.mem_map.mp member
      obtain ⟨other, inside, position, _⟩ := mem_projection following
      subst same
      apply Prod.Lex.toLex_lt_toLex.mpr
      exact Or.inl (position ▸ first other inside)

theorem ahead_cuts : CutsBelow eventKey (ahead position ordinal) := by
  intro left right kept less
  have less := Prod.Lex.toLex_lt_toLex.mp less
  unfold ahead TransactionStore.behind at *
  cases ordinal with
  | none =>
    simp only [Option.any_none, Bool.not_false, Bool.and_true, Bool.or_eq_true,
      decide_eq_true_eq] at kept ⊢
    omega
  | some ordinal =>
    simp only [Option.any_some, Bool.or_eq_true, Bool.and_eq_true, decide_eq_true_eq,
      Bool.not_eq_true', decide_eq_false_iff_not] at kept ⊢
    omega

theorem above_eq_remaining (entry : PositionedEvent) :
    above eventKey (eventKey entry) (projection config context source visible groups) =
      remaining config context source visible entry.1 (some entry.2.ordinal) groups := by
  apply List.filter_congr
  intro other _
  unfold ahead TransactionStore.behind
  rw [Bool.eq_iff_iff]
  simp only [eventKey, Prod.Lex.toLex_lt_toLex, Option.any_some, Bool.or_eq_true,
    Bool.and_eq_true, decide_eq_true_eq, Bool.not_eq_true', decide_eq_false_iff_not]
  omega

theorem remaining_of_split {front rest : List PositionedEvent} {last : PositionedEvent}
    (ordered : groups.Pairwise fun left right ↦ left.position < right.position)
    (split : remaining config context source visible position ordinal groups =
      front ++ last :: rest) :
    remaining config context source visible last.1 (some last.2.ordinal) groups = rest := by
  rw [← above_eq_remaining]
  exact (rest_eq_above ahead_cuts (projection_ascending ordered) split).symm

theorem remaining_append : remaining config context source visible position ordinal (groups ++ more) =
    remaining config context source visible position ordinal groups ++
      remaining config context source visible position ordinal more := by
  unfold remaining
  rw [projection_append, List.filter_append]

theorem remaining_of_lt (before : ∀ row ∈ groups, row.position < position) :
    remaining config context source visible position ordinal groups = [] := by
  apply List.filter_eq_nil_iff.mpr
  intro entry member
  obtain ⟨row, inside, same, _⟩ := mem_projection member
  have less := before row inside
  unfold ahead
  rw [decide_eq_false (by omega), decide_eq_false (by omega)]
  exact Bool.false_ne_true

theorem remaining_of_gt (behind : ∀ row ∈ groups, position < row.position ∨
    position ≤ row.position ∧ ordinal = none) :
    remaining config context source visible position ordinal groups =
      projection config context source visible groups := by
  apply List.filter_eq_self.mpr
  intro entry member
  obtain ⟨row, inside, same, _⟩ := mem_projection member
  unfold ahead
  cases behind row inside with
  | inl later => rw [decide_eq_true (by omega), Bool.true_or]
  | inr from_start =>
    obtain ⟨le, start⟩ := from_start
    rw [start]
    by_cases equal : entry.1 = position
    · rw [decide_eq_true equal, TransactionStore.behind, Option.any_none, Bool.not_false,
        Bool.and_true, Bool.or_true]
    · have later : position < entry.1 := by omega
      rw [decide_eq_true later, Bool.true_or]

theorem remaining_step (ordered : groups.Pairwise fun left right ↦ left.position < right.position)
    (found : groups.find? (fun row ↦ decide (position ≤ row.position)) = some row)
    (here : row.position = position) :
    remaining config context source visible position ordinal groups =
      ((groupEvents config context source visible row).filter fun event ↦
          !TransactionStore.behind ordinal event).map (fun event ↦ (position, event)) ++
        remaining config context source visible (position + 1) none groups := by
  obtain ⟨_, earlier, later, split, before⟩ := List.find?_eq_some_iff_append.mp found
  subst split
  obtain ⟨_, second, _⟩ := List.pairwise_append.mp ordered
  obtain ⟨follows, _⟩ := List.pairwise_cons.mp second
  have less : ∀ other ∈ earlier, other.position < position := by
    intro other member
    have away := before other member
    simpa using away
  have gone {ordinal : Option ℕ} {from_position : ℕ} (le : position ≤ from_position) :
      remaining config context source visible from_position ordinal earlier = [] :=
    remaining_of_lt fun other member ↦ (less other member).trans_le le
  have single {from_position : ℕ} {ordinal : Option ℕ} :
      remaining config context source visible from_position ordinal (row :: later) =
        ((groupEvents config context source visible row).map fun event ↦
          (row.position, event)).filter (ahead from_position ordinal) ++
          remaining config context source visible from_position ordinal later := by
    unfold remaining
    rw [projection_cons, List.filter_append]
  have own : ((groupEvents config context source visible row).map fun event ↦
      (row.position, event)).filter (ahead position ordinal) =
      ((groupEvents config context source visible row).filter fun event ↦
          !TransactionStore.behind ordinal event).map fun event ↦ (position, event) := by
    rw [List.filter_map, here]
    congr 1
    apply List.filter_congr
    intro event _
    simp [ahead]
  have passed : ((groupEvents config context source visible row).map fun event ↦
      (row.position, event)).filter (ahead (position + 1) none) = [] := by
    apply List.filter_eq_nil_iff.mpr
    intro entry member
    obtain ⟨event, _, same⟩ := List.mem_map.mp member
    subst same
    simp [ahead, here]
  have follows : ∀ other ∈ later, position < other.position := here ▸ follows
  calc
    remaining config context source visible position ordinal (earlier ++ row :: later) =
        remaining config context source visible position ordinal (row :: later) := by
      rw [remaining_append, gone le_rfl, List.nil_append]
    _ = ((groupEvents config context source visible row).filter fun event ↦
          !TransactionStore.behind ordinal event).map (fun event ↦ (position, event)) ++
        projection config context source visible later := by
      rw [single, own, remaining_of_gt fun other member ↦ Or.inl (follows other member)]
    _ = _ := by
      rw [remaining_append, gone (Nat.le_succ position), List.nil_append, single, passed,
        List.nil_append, remaining_of_gt fun other member ↦ Or.inr ⟨follows other member, rfl⟩]

end Groups

end Bdp.Transaction
