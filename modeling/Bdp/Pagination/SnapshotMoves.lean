import Bdp.Library.Checked
import Bdp.Pagination.SnapshotTree

/-!
# The moves of the walk

A job that does not fail finishes a copy, assigns a value that is settled, or enters an object not
seen before.
-/

namespace Bdp.Pagination

open CodeUnits
open Bdp.Except (bind_eq_ok)

namespace SnapshotBudget

def spendBytes (budget : SnapshotBudget) (amount : ℕ) : SnapshotBudget :=
  { budget with
    remainingBytes := budget.remainingBytes - amount
    retainedBytes := budget.retainedBytes + amount }

def spendNodes (budget : SnapshotBudget) (amount : ℕ) : SnapshotBudget :=
  { budget with
    remainingNodes := budget.remainingNodes - amount
    retainedNodes := budget.retainedNodes + amount }

variable {budget after : SnapshotBudget}
variable {amount : ℕ}

theorem consumeBytes_eq_ok : budget.consumeBytes amount = .ok after ↔
      amount ≤ budget.remainingBytes ∧ after = budget.spendBytes amount := by
  unfold consumeBytes
  split
  · simp only [reduceCtorEq, false_iff]
    omega
  · simp only [Except.ok.injEq, spendBytes]
    constructor
    · intro h
      exact ⟨by omega, h.symm⟩
    · intro h
      exact h.2.symm

theorem consumeNodes_eq_ok : budget.consumeNodes amount = .ok after ↔
      amount ≤ budget.remainingNodes ∧ after = budget.spendNodes amount := by
  unfold consumeNodes
  split
  · simp only [reduceCtorEq, false_iff]
    omega
  · simp only [Except.ok.injEq, spendNodes]
    constructor
    · intro h
      exact ⟨by omega, h.symm⟩
    · intro h
      exact h.2.symm

theorem spendBytes_spendBytes (amount further : ℕ) :
    (budget.spendBytes amount).spendBytes further = budget.spendBytes (amount + further) := by
  simp only [spendBytes, Nat.sub_sub, Nat.add_assoc]

theorem spendBytes_zero : budget.spendBytes 0 = budget := rfl

theorem consumeEach_eq_ok {amounts : List ℕ} : budget.consumeEach amounts = .ok after ↔
      amounts.sum ≤ budget.remainingBytes ∧ after = budget.spendBytes amounts.sum := by
  induction amounts generalizing budget with
  | nil =>
    rw [consumeEach, List.foldlM_nil]
    simp only [pure, Except.pure, Except.ok.injEq, List.sum_nil, Nat.zero_le, true_and,
      spendBytes_zero]
    exact eq_comm
  | cons amount amounts ih =>
    rw [consumeEach, List.foldlM_cons, List.sum_cons, bind_eq_ok]
    constructor
    · rintro ⟨spent, hspent, hrest⟩
      obtain ⟨hle, rfl⟩ := consumeBytes_eq_ok.mp hspent
      obtain ⟨hmore, rfl⟩ := (@ih (budget.spendBytes amount)).mp hrest
      simp only [spendBytes] at hmore
      exact ⟨by omega, spendBytes_spendBytes amount amounts.sum⟩
    · rintro ⟨hle, rfl⟩
      refine ⟨_, consumeBytes_eq_ok.mpr ⟨by omega, rfl⟩, (@ih (budget.spendBytes amount)).mpr ?_⟩
      refine ⟨?_, (spendBytes_spendBytes amount amounts.sum).symm⟩
      simp only [spendBytes]
      omega

end SnapshotBudget

variable {α : Type}
variable {source : JsObject α} {address : α}

namespace JsObject

def entryJobs (source : JsObject α) (address : α) (keys : List Text) : List (SnapshotJob α) :=
  keys.map fun key ↦ .value (source.valueAt key) (.entry address key)

/-- The bytes that entering an object takes. -/
def entryCharges (source : JsObject α) (keys : List Text) : ℕ :=
  (keys.map fun key ↦ (source.keyCharges key).sum).sum

theorem pushEntries_eq_ok {keys : List Text} {budget : SnapshotBudget} {jobs : List (SnapshotJob α)}
    {pushed : SnapshotBudget × List (SnapshotJob α)} :
    source.pushEntries address keys budget jobs = .ok pushed ↔
      (∀ key ∈ keys, source.property key = some (.data (source.valueAt key))) ∧
        source.entryCharges keys ≤ budget.remainingBytes ∧
        pushed = (budget.spendBytes (source.entryCharges keys),
          source.entryJobs address keys ++ jobs) := by
  induction keys generalizing pushed with
  | nil =>
    simp [pushEntries, entryCharges, entryJobs, SnapshotBudget.spendBytes_zero, eq_comm]
  | cons key keys ih =>
    rw [pushEntries, entryCharges, List.map_cons, List.sum_cons, ← entryCharges,
      List.forall_mem_cons, Nat.add_comm, bind_eq_ok]
    constructor
    · rintro ⟨rest, hrest, hpushed⟩
      obtain ⟨hdata, hroom, rfl⟩ := ih.mp hrest
      obtain ⟨spent, hspent, hpushed⟩ := bind_eq_ok.mp hpushed
      obtain ⟨hmore, rfl⟩ := SnapshotBudget.consumeEach_eq_ok.mp hspent
      rw [SnapshotBudget.spendBytes_spendBytes] at hpushed
      simp only [SnapshotBudget.spendBytes] at hmore
      split at hpushed
      · next value hvalue =>
        obtain rfl := Except.ok.inj hpushed
        refine ⟨⟨by simp only [valueAt, hvalue], hdata⟩, by omega, ?_⟩
        simp only [entryJobs, valueAt, hvalue, List.map_cons, List.cons_append]
      · cases hpushed
      · cases hpushed
    · rintro ⟨⟨hkey, hdata⟩, hroom, rfl⟩
      refine ⟨_, ih.mpr ⟨hdata, by omega, rfl⟩, bind_eq_ok.mpr ⟨_,
        SnapshotBudget.consumeEach_eq_ok.mpr ⟨?_, rfl⟩, ?_⟩⟩
      · simp only [SnapshotBudget.spendBytes]
        omega
      · rw [hkey, SnapshotBudget.spendBytes_spendBytes]
        rfl

end JsObject

variable [DecidableEq α]

namespace Walk

section Assign

variable (walk : Walk α) (slot : Slot α) (value : Value α)

@[simp] theorem assign_budget : (walk.assign slot value).budget = walk.budget := by
  cases slot <;> rfl

@[simp] theorem assign_states : (walk.assign slot value).states = walk.states := by
  cases slot <;> rfl

@[simp] theorem assign_jobs : (walk.assign slot value).jobs = walk.jobs := by
  cases slot <;> rfl

end Assign

/-- The walk with a new object: marked, with an empty copy and the jobs of its entries. -/
def opened (walk : Walk α) (address : α) (source : JsObject α) : Walk α :=
  { walk.setState address .visiting with
    budget := (walk.budget.spendNodes source.keys.length).spendBytes
      (source.bracketBytes + source.entryCharges source.entryKeys)
    copies := Function.update walk.copies address (some ⟨source.emptyCopy, false⟩)
    jobs := source.entryJobs address source.entryKeys ++ .finish address :: walk.jobs }

variable {after : Walk α}

theorem enter_eq_ok {walk : Walk α} {slot : Slot α} (hproxy : source.isProxy = false) :
    walk.enter address source slot = .ok after ↔
      source.Plain ∧ source.keys.length ≤ walk.budget.remainingNodes ∧
        source.bracketBytes + source.entryCharges source.entryKeys ≤ walk.budget.remainingBytes ∧
        after = (walk.opened address source).assign slot (.object address) := by
  unfold enter
  by_cases hprototype : source.plainPrototype = false
  · simp only [hprototype, if_true, reduceCtorEq, false_iff]
    rintro ⟨hplain, -⟩
    exact absurd hplain.prototype (by simp [hprototype])
  rw [if_neg hprototype]
  by_cases hsymbols : source.symbols.any id = true
  · simp only [hsymbols, if_true, reduceCtorEq, false_iff]
    rintro ⟨hplain, -⟩
    exact absurd hplain.symbols (by simp [hsymbols])
  rw [if_neg hsymbols]
  by_cases hlength : source.isArray = true ∧ walk.budget.remainingNodes < source.length
  · simp only [hlength, and_self, if_true, reduceCtorEq, false_iff]
    rintro ⟨hplain, hnodes, -⟩
    have := hplain.dense hlength.1
    omega
  rw [if_neg hlength]
  by_cases hkeys : walk.budget.remainingNodes < source.keys.length
  · simp only [hkeys, if_true, reduceCtorEq, false_iff]
    rintro ⟨-, hnodes, -⟩
    omega
  have hopened : { ({ walk.setState address .visiting with
        budget := walk.budget.spendNodes source.keys.length
        copies := Function.update walk.copies address (some ⟨source.emptyCopy, false⟩) }.assign
          slot (.object address)) with
      budget := (walk.budget.spendNodes source.keys.length).spendBytes
        (source.bracketBytes + source.entryCharges source.entryKeys)
      jobs := source.entryJobs address source.entryKeys ++ .finish address :: walk.jobs } =
      (walk.opened address source).assign slot (.object address) := by
    cases slot <;> rfl
  rw [if_neg hkeys, bind_eq_ok]
  constructor
  · rintro ⟨nodes, hcharged, h⟩
    obtain ⟨hnodes, rfl⟩ := SnapshotBudget.consumeNodes_eq_ok.mp hcharged
    dsimp only at h
    split at h
    · cases h
    next hdense =>
    obtain ⟨bracketed, hbracket, h⟩ := bind_eq_ok.mp h
    obtain ⟨hroom, rfl⟩ := SnapshotBudget.consumeBytes_eq_ok.mp hbracket
    obtain ⟨pushed, hpushed, h⟩ := bind_eq_ok.mp h
    obtain ⟨hdata, hmore, rfl⟩ := JsObject.pushEntries_eq_ok.mp hpushed
    simp only [SnapshotBudget.spendBytes_spendBytes, hopened, Except.ok.injEq] at h
    simp only [SnapshotBudget.spendBytes, SnapshotBudget.spendNodes] at hroom hmore
    exact ⟨⟨hproxy, Bool.eq_true_of_not_eq_false hprototype, Bool.eq_false_of_not_eq_true hsymbols,
      fun harray ↦ Classical.byContradiction fun h ↦ hdense ⟨harray, h⟩, hdata⟩, hnodes, by omega, h.symm⟩
  · rintro ⟨hplain, hnodes, hroom, rfl⟩
    refine ⟨_, SnapshotBudget.consumeNodes_eq_ok.mpr ⟨hnodes, rfl⟩, ?_⟩
    dsimp only
    rw [if_neg fun h ↦ h.2 (hplain.dense h.1), bind_eq_ok]
    refine ⟨_, SnapshotBudget.consumeBytes_eq_ok.mpr ⟨?_, rfl⟩, bind_eq_ok.mpr ⟨_,
      JsObject.pushEntries_eq_ok.mpr ⟨hplain.data, ?_, rfl⟩, ?_⟩⟩
    · exact (Nat.le_add_right _ _).trans hroom
    · simp only [SnapshotBudget.spendBytes, SnapshotBudget.spendNodes]
      omega
    · simp only [SnapshotBudget.spendBytes_spendBytes, hopened]

variable (heap : α → JsObject α)

/-- A job that does not fail, taken from the stack of a walk. -/
inductive Moves (walk : Walk α) : SnapshotJob α → Walk α → Prop
  | finish (input : α) : Moves walk (.finish input) ((walk.freeze input).setState input .done)
  | primitive (value : Primitive) (slot : Slot α)
      (room : value.charges.sum ≤ walk.budget.remainingBytes) :
      Moves walk (.value (.primitive value) slot)
        ({ walk with budget := walk.budget.spendBytes value.charges.sum }.assign slot
          (.primitive value))
  | shared (address : α) (slot : Slot α) (noProxy : (heap address).isProxy = false)
      (done : walk.states address = some .done) (copied : walk.copies address ≠ none) :
      Moves walk (.value (.object address) slot) (walk.assign slot (.object address))
  | enter (address : α) (slot : Slot α) (fresh : walk.states address = none)
      (plain : (heap address).Plain)
      (nodes : (heap address).keys.length ≤ walk.budget.remainingNodes)
      (bytes : (heap address).bracketBytes + (heap address).entryCharges (heap address).entryKeys ≤
        walk.budget.remainingBytes) :
      Moves walk (.value (.object address) slot)
        ((walk.opened address (heap address)).assign slot (.object address))

variable {heap}

theorem step_eq_ok {walk : Walk α} {job : SnapshotJob α} :
    step heap walk job = .ok after ↔ Moves heap walk job after := by
  constructor
  · intro h
    cases job with
    | finish input =>
      obtain rfl := Except.ok.inj h
      exact .finish input
    | value input slot =>
      cases input with
      | primitive value =>
        rw [step] at h
        cases hspent : walk.budget.consumeEach value.charges with
        | error failure => simp [hspent, bind, Except.bind] at h
        | ok spent =>
          obtain ⟨hroom, rfl⟩ := SnapshotBudget.consumeEach_eq_ok.mp hspent
          simp only [hspent, bind, Except.bind, Except.ok.injEq] at h
          subst h
          exact .primitive value slot hroom
      | nonFinite => cases h
      | nonJson => cases h
      | object address =>
        rw [step] at h
        split at h
        · cases h
        next hproxy =>
        replace hproxy := Bool.eq_false_of_not_eq_true hproxy
        split at h
        · cases h
        · next hdone =>
          split at h
          · cases h
          · next copy hcopy =>
            obtain rfl := Except.ok.inj h
            exact .shared address slot hproxy hdone (by simp [hcopy])
        · next hfresh =>
          obtain ⟨hplain, hnodes, hbytes, rfl⟩ := (enter_eq_ok hproxy).mp h
          exact .enter address slot hfresh hplain hnodes hbytes
  · intro h
    cases h with
    | finish input => rfl
    | primitive value slot room =>
      rw [step, SnapshotBudget.consumeEach_eq_ok.mpr ⟨room, rfl⟩]
      rfl
    | shared address slot noProxy done copied =>
      obtain ⟨copy, hcopy⟩ := Option.ne_none_iff_exists'.mp copied
      simp only [step, noProxy, done, hcopy, Bool.false_eq_true, if_false]
    | enter address slot fresh plain nodes bytes =>
      simp only [step, plain.isProxy, fresh, Bool.false_eq_true, if_false]
      exact (enter_eq_ok plain.isProxy).mpr ⟨plain, nodes, bytes, rfl⟩

end Walk

end Bdp.Pagination
