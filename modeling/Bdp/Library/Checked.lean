import Mathlib.Data.List.Forall2
import Mathlib.Data.List.Induction

/-!
# Checked computations

Fallible computations that either return a value or stop with one error. A replay is a monadic
left fold over its log; its rules say that a successful fold splits at every point of the log and
carries every property that each successful step carries.
-/

namespace Bdp

variable {ε α β σ : Type}

/-- Stop with the message unless the condition holds. -/
def check (condition : Prop) [Decidable condition] (message : ε) : Except ε Unit :=
  if condition then .ok () else .error message

variable {message : ε} {condition : Prop}

@[simp]
theorem check_eq_ok [Decidable condition] {value : Unit} :
    check condition message = .ok value ↔ condition := by
  unfold check
  split <;> simp_all

theorem check_of [Decidable condition] (h : condition) :
    check condition message = .ok () := if_pos h

theorem check_of_not [Decidable condition] (h : ¬ condition) :
    check condition message = .error message := if_neg h

/-- Read an optional value, or stop with the message. -/
def require (value : Option α) (message : ε) : Except ε α :=
  match value with
  | some found => .ok found
  | none => .error message

variable {found : α}

@[simp]
theorem require_eq_ok {value : Option α} :
    require value message = .ok found ↔ value = some found := by
  cases value <;> simp [require]

@[simp]
theorem require_some : require (some found) message = .ok found := rfl

variable {first : Except ε α} {result : β}

namespace Except

variable {next : α → Except ε β}

theorem bind_eq_ok :
    (first >>= next) = .ok result ↔ ∃ value, first = .ok value ∧ next value = .ok result := by
  cases first with
  | error message => simp [bind, Except.bind]
  | ok value => simp [bind, Except.bind]

variable {value : α}

@[simp]
theorem ok_bind : ((.ok value : Except ε α) >>= next) = next value := rfl

@[simp]
theorem error_bind : ((.error message : Except ε α) >>= next) = .error message := rfl

@[simp]
theorem pure_eq_ok : (pure value : Except ε α) = .ok value := rfl

theorem pure_eq_ok_iff {result : α} : (pure value : Except ε α) = .ok result ↔ result = value := by
  rw [pure_eq_ok, Except.ok.injEq, eq_comm]

end Except

/-- A checked computation succeeds when the condition holds and the rest succeeds. -/
theorem check_bind_eq_ok [Decidable condition] {next : Unit → Except ε β} :
    (check condition message >>= next) = .ok result ↔ condition ∧ next () = .ok result := by
  rw [Except.bind_eq_ok]
  constructor
  · rintro ⟨_, hcheck, hnext⟩
    exact ⟨check_eq_ok.mp hcheck, hnext⟩
  · rintro ⟨hcondition, hnext⟩
    exact ⟨(), check_of hcondition, hnext⟩

variable {items log : List α} {f : α → Except ε β}

section Errors

/-- Every error of the computation satisfies the property. -/
def ErrorsIn (P : ε → Prop) (computation : Except ε α) : Prop :=
  ∀ message, computation = .error message → P message

variable {P : ε → Prop}

theorem errorsIn_ok (value : α) : ErrorsIn P (.ok value) := fun _ h ↦ nomatch h

theorem errorsIn_error (h : P message) : ErrorsIn P (.error message : Except ε α) := by
  intro other hother
  rwa [← Except.error.inj hother]

theorem errorsIn_bind {next : α → Except ε β} (hfirst : ErrorsIn P first)
    (hnext : ∀ value, first = .ok value → ErrorsIn P (next value)) :
    ErrorsIn P (first >>= next) := by
  cases first with
  | error message => exact errorsIn_error (hfirst message rfl)
  | ok value => exact hnext value rfl

theorem errorsIn_check [Decidable condition] (h : P message) :
    ErrorsIn P (check condition message) := by
  unfold check
  split
  · exact errorsIn_ok _
  · exact errorsIn_error h

theorem errorsIn_require {value : Option α} (h : P message) :
    ErrorsIn P (require value message) := by
  cases value
  · exact errorsIn_error h
  · exact errorsIn_ok _

theorem errorsIn_foldlM {step : σ → α → Except ε σ} {start : σ}
    (h : ∀ entry ∈ log, ∀ state, ErrorsIn P (step state entry)) :
    ErrorsIn P (log.foldlM step start) := by
  induction log generalizing start with
  | nil => exact errorsIn_ok _
  | cons entry log ih =>
    rw [List.foldlM_cons]
    exact errorsIn_bind (h entry List.mem_cons_self start) fun _ _ ↦
      ih fun other hother ↦ h other (List.mem_cons_of_mem _ hother)

theorem errorsIn_mapM (h : ∀ item, ErrorsIn P (f item)) : ErrorsIn P (items.mapM f) := by
  induction items with
  | nil => exact errorsIn_ok _
  | cons item items ih =>
    rw [List.mapM_cons]
    exact errorsIn_bind (h item) fun _ _ ↦ errorsIn_bind ih fun _ _ ↦ errorsIn_ok _

theorem errorsIn_forM {f : α → Except ε PUnit}
    (h : ∀ item, ErrorsIn P (f item)) : ErrorsIn P (items.forM f) := by
  induction items with
  | nil => exact errorsIn_ok _
  | cons item items ih => exact errorsIn_bind (h item) fun _ _ ↦ ih

theorem errorsIn_map {f : α → β} {computation : Except ε α}
    (h : ErrorsIn P computation) : ErrorsIn P (computation.map f) := by
  cases computation with
  | ok value => exact errorsIn_ok _
  | error message => exact errorsIn_error (h message rfl)

end Errors

/-- A list is mapped successfully when every item is. -/
theorem mapM_eq_ok {results : List β} :
    items.mapM f = .ok results ↔ List.Forall₂ (fun item result ↦ f item = .ok result) items results := by
  induction items generalizing results with
  | nil => simp [eq_comm]
  | cons item items ih =>
    rw [List.mapM_cons, Except.bind_eq_ok]
    constructor
    · rintro ⟨first, hfirst, h⟩
      rw [Except.bind_eq_ok] at h
      obtain ⟨rest, hrest, h⟩ := h
      obtain rfl := Except.ok.inj h
      exact .cons hfirst (ih.mp hrest)
    · intro h
      cases h with
      | cons hfirst hrest => exact ⟨_, hfirst, by rw [ih.mpr hrest]; rfl⟩

theorem mapM_ok {g : α → β}
    (h : ∀ item ∈ items, f item = .ok (g item)) : items.mapM f = .ok (items.map g) := by
  refine mapM_eq_ok.mpr ?_
  induction items with
  | nil => exact .nil
  | cons item items ih =>
    exact .cons (h item List.mem_cons_self) (ih fun other hother ↦
      h other (List.mem_cons_of_mem _ hother))

/-- Every item passes a check that all of them pass. -/
theorem forM_eq_ok {f : α → Except ε Unit}
    (h : items.forM f = .ok ()) : ∀ item ∈ items, f item = .ok () := by
  induction items with
  | nil => exact fun _ hitem ↦ nomatch hitem
  | cons first items ih =>
    obtain ⟨_, hfirst, hrest⟩ := Except.bind_eq_ok.mp h
    intro item hitem
    obtain rfl | hitem := List.mem_cons.mp hitem
    · exact hfirst
    · exact ih hrest item hitem

theorem forM_ok {f : α → Except ε Unit}
    (h : ∀ item ∈ items, f item = .ok ()) : items.forM f = .ok () := by
  induction items with
  | nil => rfl
  | cons item items ih =>
    change (f item >>= fun _ ↦ items.forM f) = .ok ()
    rw [h item List.mem_cons_self, Except.ok_bind]
    exact ih fun other hother ↦ h other (List.mem_cons_of_mem _ hother)

section Replay

variable {step : σ → α → Except ε σ}
variable {start last : σ}

/-- A replay of a longer log continues the replay of its prefix. -/
theorem replay_append {more : List α} : (log ++ more).foldlM step start = .ok last ↔
      ∃ middle, log.foldlM step start = .ok middle ∧ more.foldlM step middle = .ok last := by
  rw [List.foldlM_append, Except.bind_eq_ok]

theorem replay_concat {entry : α} : (log ++ [entry]).foldlM step start = .ok last ↔
      ∃ middle, log.foldlM step start = .ok middle ∧ step middle entry = .ok last := by
  rw [replay_append]
  simp [List.foldlM, Except.bind_eq_ok]

/-- Whatever each accepted entry preserves, an accepted log preserves. -/
theorem replay_induction (P : List α → σ → Prop)
    (hreplay : log.foldlM step start = .ok last) (hstart : P [] start)
    (hstep : ∀ before entry middle next, P before middle → step middle entry = .ok next →
      P (before ++ [entry]) next) : P log last := by
  induction log using List.reverseRecOn generalizing last with
  | nil =>
    cases hreplay
    exact hstart
  | append_singleton log entry ih =>
    obtain ⟨middle, hlog, hentry⟩ := replay_concat.mp hreplay
    exact hstep log entry middle last (ih hlog) hentry

end Replay

end Bdp
