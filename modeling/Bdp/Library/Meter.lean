import Mathlib
import Bdp.Library.Checked

/-!
# Metered computations

A computation charges named counters while it works. With limits a charge that would pass its limit
is refused and ends the computation. A computation that touches its counters by charges alone
succeeds under limits exactly when it succeeds without them and its last readings keep them.
-/

namespace Bdp

/-- Computations with counters named by `κ`; the limits are fixed for a run, or absent. -/
abbrev Metered (κ ε : Type) := ReaderT (Option (κ → ℕ)) (StateT (κ → ℕ) (Except ε))

namespace Metered

variable {κ ε α β σ : Type} [DecidableEq κ]

/-- Run a computation under optional limits, from given readings. -/
def runUnder (program : Metered κ ε α) (limits : Option (κ → ℕ)) (counts : κ → ℕ) :
    Except ε (α × (κ → ℕ)) := program limits counts

/-- A checked computation that charges nothing. -/
def lift (computation : Except ε α) : Metered κ ε α := fun _ counts ↦
  computation.map fun value ↦ (value, counts)

/-- Add to one counter. -/
def spend (key : κ) (amount : ℕ) (counts : κ → ℕ) : κ → ℕ :=
  Function.update counts key (counts key + amount)

/-- Count one unit, unless the counter already stands at its limit. -/
def charge (key : κ) (refusal : ε) : Metered κ ε Unit := fun limits counts ↦
  if ∃ limit ∈ limits, limit key ≤ counts key then .error refusal
  else .ok ((), spend key 1 counts)

/-- Raise a counter to a level, unless the level is above its limit. -/
def raise (key : κ) (level : ℕ) (refusal : ε) : Metered κ ε Unit := fun limits counts ↦
  if ∃ limit ∈ limits, limit key < level then .error refusal
  else .ok ((), Function.update counts key (max (counts key) level))

variable {next : α → Metered κ ε β} {first : Metered κ ε α}
variable {computation : Except ε α}
variable (value : α)

section Rules

variable {limits : Option (κ → ℕ)} {counts after : κ → ℕ}

omit [DecidableEq κ] in
@[simp]
theorem runUnder_pure :
    runUnder (pure value : Metered κ ε α) limits counts = .ok (value, counts) := rfl

omit [DecidableEq κ] in
theorem runUnder_bind (first : Metered κ ε α) (next : α → Metered κ ε β) :
    runUnder (first >>= next) limits counts =
      runUnder first limits counts >>= fun result ↦ runUnder (next result.1) limits result.2 := rfl

omit [DecidableEq κ] in
theorem runUnder_bind_eq_ok {result : β} :
    runUnder (first >>= next) limits counts = .ok (result, after) ↔
      ∃ value middle, runUnder first limits counts = .ok (value, middle) ∧
        runUnder (next value) limits middle = .ok (result, after) := by
  rw [runUnder_bind, Except.bind_eq_ok]
  exact Prod.exists

omit [DecidableEq κ] in
theorem runUnder_lift (computation : Except ε α) : runUnder (lift computation) limits counts =
      computation.map fun value ↦ (value, counts) := rfl

omit [DecidableEq κ] in
theorem runUnder_lift_eq_ok {value : α} :
    runUnder (lift computation) limits counts = .ok (value, after) ↔
      computation = .ok value ∧ after = counts := by
  rw [runUnder_lift]
  cases computation with
  | ok found => simp [Except.map, eq_comm]
  | error error => simp [Except.map]

theorem runUnder_charge (key : κ) (refusal : ε) : runUnder (charge key refusal) limits counts =
      if ∃ limit ∈ limits, limit key ≤ counts key then .error refusal
      else .ok ((), spend key 1 counts) := rfl

theorem runUnder_raise (key : κ) (level : ℕ) (refusal : ε) :
    runUnder (raise key level refusal) limits counts =
      if ∃ limit ∈ limits, limit key < level then .error refusal
      else .ok ((), Function.update counts key (max (counts key) level)) := rfl

theorem runUnder_charge_none (key : κ) (refusal : ε) : runUnder (charge key refusal) none counts =
      .ok ((), spend key 1 counts) := by
  rw [runUnder_charge, if_neg]
  rintro ⟨limit, hlimit, -⟩
  exact nomatch hlimit

theorem runUnder_raise_none (key : κ) (level : ℕ) (refusal : ε) :
    runUnder (raise key level refusal) none counts =
      .ok ((), Function.update counts key (max (counts key) level)) := by
  rw [runUnder_raise, if_neg]
  rintro ⟨limit, hlimit, -⟩
  exact nomatch hlimit

end Rules

variable {body : α → Metered κ ε PUnit}
variable {step : σ → α → Metered κ ε σ}

section Lawful

/-- Readings never fall, and limits do nothing but refuse what would end above them. -/
structure Lawful (program : Metered κ ε α) : Prop where
  grows : ∀ {counts after : κ → ℕ} {value : α},
    runUnder program none counts = .ok (value, after) → counts ≤ after
  within : ∀ {limit counts after : κ → ℕ} {value : α}, counts ≤ limit →
    (runUnder program (some limit) counts = .ok (value, after) ↔
      runUnder program none counts = .ok (value, after) ∧ after ≤ limit)

omit [DecidableEq κ] in
theorem lawful_lift (computation : Except ε α) : Lawful (lift computation : Metered κ ε α) where
  grows h := (runUnder_lift_eq_ok.mp h).2.ge
  within hcounts := by
    rw [runUnder_lift_eq_ok, runUnder_lift_eq_ok]
    constructor
    · rintro ⟨h, rfl⟩
      exact ⟨⟨h, rfl⟩, hcounts⟩
    · exact fun h ↦ h.1

omit [DecidableEq κ] in
theorem lawful_pure : Lawful (pure value : Metered κ ε α) := lawful_lift (.ok value)

omit [DecidableEq κ] in
theorem Lawful.bind (hfirst : Lawful first)
    (hnext : ∀ value, Lawful (next value)) : Lawful (first >>= next) where
  grows h := by
    obtain ⟨value, middle, hvalue, hresult⟩ := runUnder_bind_eq_ok.mp h
    exact (hfirst.grows hvalue).trans ((hnext value).grows hresult)
  within hcounts := by
    rw [runUnder_bind_eq_ok, runUnder_bind_eq_ok]
    constructor
    · rintro ⟨value, middle, hvalue, hresult⟩
      obtain ⟨hfree, hmiddle⟩ := (hfirst.within hcounts).mp hvalue
      obtain ⟨hrest, hafter⟩ := ((hnext value).within hmiddle).mp hresult
      exact ⟨⟨value, middle, hfree, hrest⟩, hafter⟩
    · rintro ⟨⟨value, middle, hvalue, hresult⟩, hafter⟩
      have hmiddle := ((hnext value).grows hresult).trans hafter
      exact ⟨value, middle, (hfirst.within hcounts).mpr ⟨hvalue, hmiddle⟩,
        ((hnext value).within hmiddle).mpr ⟨hresult, hafter⟩⟩

theorem lawful_charge (key : κ) (refusal : ε) : Lawful (charge key refusal) where
  grows h := by
    rw [runUnder_charge_none] at h
    cases h
    exact le_update_iff.mpr ⟨Nat.le_succ _, fun _ _ ↦ le_rfl⟩
  within {limit counts after value} hcounts := by
    rw [runUnder_charge_none]
    by_cases hfull : limit key ≤ counts key
    · have hrun : runUnder (charge key refusal) (some limit) counts = .error refusal :=
        if_pos ⟨limit, rfl, hfull⟩
      rw [hrun]
      refine ⟨nofun, fun ⟨h, hafter⟩ ↦ ?_⟩
      cases h
      have := (update_le_iff.mp hafter).1
      omega
    · have hrun : runUnder (charge key refusal) (some limit) counts =
          .ok ((), spend key 1 counts) :=
        if_neg fun ⟨_, hlimit, h⟩ ↦ hfull (Option.mem_some_iff.mp hlimit ▸ h)
      rw [hrun]
      refine ⟨fun h ↦ ⟨h, ?_⟩, And.left⟩
      cases h
      exact update_le_iff.mpr ⟨by omega, fun other _ ↦ hcounts other⟩

theorem lawful_raise (key : κ) (level : ℕ) (refusal : ε) : Lawful (raise key level refusal) where
  grows h := by
    rw [runUnder_raise_none] at h
    cases h
    exact le_update_iff.mpr ⟨Nat.le_max_left _ _, fun _ _ ↦ le_rfl⟩
  within {limit counts after value} hcounts := by
    rw [runUnder_raise_none]
    by_cases habove : limit key < level
    · have hrun : runUnder (raise key level refusal) (some limit) counts = .error refusal :=
        if_pos ⟨limit, rfl, habove⟩
      rw [hrun]
      refine ⟨nofun, fun ⟨h, hafter⟩ ↦ ?_⟩
      cases h
      have := (update_le_iff.mp hafter).1
      omega
    · have hrun : runUnder (raise key level refusal) (some limit) counts =
          .ok ((), Function.update counts key (max (counts key) level)) :=
        if_neg fun ⟨_, hlimit, h⟩ ↦ habove (Option.mem_some_iff.mp hlimit ▸ h)
      rw [hrun]
      refine ⟨fun h ↦ ⟨h, ?_⟩, And.left⟩
      cases h
      exact update_le_iff.mpr
        ⟨max_le (hcounts key) (not_lt.mp habove), fun other _ ↦ hcounts other⟩

omit [DecidableEq κ] in
theorem lawful_foldlM
    (hstep : ∀ state item, Lawful (step state item)) (items : List α) (start : σ) :
    Lawful (items.foldlM step start) := by
  induction items generalizing start with
  | nil => exact lawful_pure start
  | cons item items ih =>
    rw [List.foldlM_cons]
    exact (hstep start item).bind ih

omit [DecidableEq κ] in
theorem lawful_forM (hbody : ∀ item, Lawful (body item))
    (items : List α) : Lawful (forM items body) := by
  induction items with
  | nil => exact lawful_pure _
  | cons item items ih =>
    rw [List.forM_cons]
    exact (hbody item).bind fun _ ↦ ih

omit [DecidableEq κ] in
/-- A lawful computation under limits is the free one, kept when its readings stay within. -/
theorem Lawful.runUnder_some {program : Metered κ ε α} (h : Lawful program) {limit : κ → ℕ}
    {result : α × (κ → ℕ)} :
    runUnder program (some limit) 0 = .ok result ↔
      runUnder program none 0 = .ok result ∧ result.2 ≤ limit :=
  h.within fun _ ↦ Nat.zero_le _

end Lawful

variable {key : κ}

section Errors

variable {P : ε → Prop} {limits : Option (κ → ℕ)} {counts after : κ → ℕ}

/-- Every error of a computation, under whatever limits, satisfies `P`. -/
def Raises (P : ε → Prop) (program : Metered κ ε α) : Prop :=
  ∀ limits counts, ErrorsIn P (runUnder program limits counts)

omit [DecidableEq κ] in
theorem raises_pure : Raises P (pure value : Metered κ ε α) :=
  fun _ _ ↦ errorsIn_ok _

omit [DecidableEq κ] in
theorem raises_lift (h : ErrorsIn P computation) : Raises P (lift computation : Metered κ ε α) :=
  fun _ _ ↦ errorsIn_map h

omit [DecidableEq κ] in
theorem Raises.bind (hfirst : Raises P first)
    (hnext : ∀ value, Raises P (next value)) : Raises P (first >>= next) :=
  fun limits counts ↦ errorsIn_bind (hfirst limits counts)
    fun result _ ↦ hnext result.1 limits result.2

variable {refusal : ε}

theorem raises_charge (h : P refusal) : Raises P (charge key refusal) := by
  intro limits counts
  rw [runUnder_charge]
  split
  · exact errorsIn_error h
  · exact errorsIn_ok _

theorem raises_raise {level : ℕ} (h : P refusal) : Raises P (raise key level refusal) := by
  intro limits counts
  rw [runUnder_raise]
  split
  · exact errorsIn_error h
  · exact errorsIn_ok _

omit [DecidableEq κ] in
theorem raises_foldlM
    (hstep : ∀ state item, Raises P (step state item)) (items : List α) (start : σ) :
    Raises P (items.foldlM step start) := by
  induction items generalizing start with
  | nil => exact raises_pure start
  | cons item items ih =>
    rw [List.foldlM_cons]
    exact (hstep start item).bind ih

omit [DecidableEq κ] in
theorem raises_forM (hbody : ∀ item, Raises P (body item))
    (items : List α) : Raises P (forM items body) := by
  induction items with
  | nil => exact raises_pure _
  | cons item items ih =>
    rw [List.forM_cons]
    exact (hbody item).bind fun _ ↦ ih

end Errors

section Spending

variable {counts after : κ → ℕ}

@[simp]
theorem spend_self (key : κ) (amount : ℕ) : spend key amount counts key = counts key + amount :=
  Function.update_self ..

theorem spend_of_ne {other : κ} (h : other ≠ key) (amount : ℕ) :
    spend key amount counts other = counts other := Function.update_of_ne h ..

@[simp]
theorem spend_zero (key : κ) : spend key 0 counts = counts := Function.update_eq_self key counts

theorem spend_spend (key : κ) (first second : ℕ) :
    spend key second (spend key first counts) = spend key (first + second) counts := by
  funext other
  by_cases h : other = key
  · subst h
    simp only [spend_self]
    omega
  · simp only [spend_of_ne h]

/-- A loop whose body charges one counter charges the sum; it passes when every body does. -/
theorem runUnder_forM_none {Passes : α → Prop} {cost : α → ℕ}
    (hbody : ∀ item counts after, runUnder (body item) none counts = .ok ((), after) ↔
      Passes item ∧ after = spend key (cost item) counts) (items : List α) :
    runUnder (forM items body) none counts = .ok ((), after) ↔
      (∀ item ∈ items, Passes item) ∧ after = spend key (items.map cost).sum counts := by
  induction items generalizing counts with
  | nil =>
    rw [List.forM_nil, runUnder_pure]
    simp [eq_comm]
  | cons item items ih =>
    rw [List.forM_cons, runUnder_bind_eq_ok]
    constructor
    · rintro ⟨value, middle, hitem, hrest⟩
      obtain ⟨hpasses, rfl⟩ := (hbody item _ _).mp hitem
      obtain ⟨hall, rfl⟩ := ih.mp hrest
      refine ⟨List.forall_mem_cons.mpr ⟨hpasses, hall⟩, ?_⟩
      rw [spend_spend, List.map_cons, List.sum_cons]
    · rintro ⟨hall, rfl⟩
      refine ⟨(), _, (hbody item _ _).mpr ⟨hall item List.mem_cons_self, rfl⟩, ih.mpr ⟨?_, ?_⟩⟩
      · exact fun other hother ↦ hall other (List.mem_cons_of_mem _ hother)
      · rw [spend_spend, List.map_cons, List.sum_cons]

end Spending

end Metered

end Bdp
