import Bdp.Retained.EditMemory

/-!
# Property Changes in memory

The resource evaluator edits a document with a copy and a traversal of its own: containers are
copied from a stack of pending ones, and each change walks from the root to the parent of its last
token and writes there. Step by step this makes the edits of `object-edits`.
-/

namespace Bdp.Evaluator

open Retained
open Bdp.Except (ok_bind)

section Copy

def isContainer : Json → Bool
  | .array _ | .object _ => true
  | _ => false

def behind (value : Json) (address : ℕ) : ℕ := if isContainer value then address + 1 else address

mutual

/-- Fill the container of a value at an address. The containers below it are made before any of them
is filled, and the one that was pushed last is taken first. -/
def fill : Json → ℕ → ℕ → Stored × ℕ
  | .array items, address, next =>
    let (filled, last) := fillItems items next (items.foldl (fun next item ↦ behind item next) next)
    (.array address filled, last)
  | .object members, address, next =>
    let (filled, last) := fillMembers members next
      (members.foldl (fun next entry ↦ behind entry.2 next) next)
    (.object address filled, last)
  | .null, _, next => (.null, next)
  | .bool value, _, next => (.bool value, next)
  | .number value, _, next => (.number value, next)
  | .string value, _, next => (.string value, next)

def fillItems : List Json → ℕ → ℕ → List Stored × ℕ
  | [], _, next => ([], next)
  | item :: items, address, next =>
    let (others, middle) := fillItems items (behind item address) next
    let (filled, last) := fill item address middle
    (filled :: others, last)

def fillMembers : JsonObject → ℕ → ℕ → List (String × Stored) × ℕ
  | [], _, next => ([], next)
  | (name, value) :: members, address, next =>
    let (others, middle) := fillMembers members (behind value address) next
    let (filled, last) := fill value address middle
    ((name, filled) :: others, last)

end

mutual

theorem contents_fill : (value : Json) → (address next : ℕ) →
    contents (fill value address next).1 = value
  | .array items, _, _ => by
    rw [fill, contents, contents_fillItems]
  | .object members, _, _ => by
    rw [fill, contents, contents_fillMembers]
  | .null, _, _ => rfl
  | .bool _, _, _ => rfl
  | .number _, _, _ => rfl
  | .string _, _, _ => rfl

theorem contents_fillItems : (items : List Json) → (address next : ℕ) →
    itemContents (fillItems items address next).1 = items
  | [], _, _ => rfl
  | item :: items, _, _ => by
    rw [fillItems, itemContents, contents_fill, contents_fillItems]

theorem contents_fillMembers : (members : JsonObject) → (address next : ℕ) →
    memberContents (fillMembers members address next).1 = members
  | [], _, _ => rfl
  | (name, value) :: members, _, _ => by
    rw [fillMembers, memberContents, contents_fill, contents_fillMembers]

end

theorem le_behind (value : Json) (address : ℕ) : address ≤ behind value address := by
  unfold behind
  split <;> omega

theorem le_foldl_behind {α : Type} (value : α → Json) (entries : List α) (next : ℕ) :
    next ≤ entries.foldl (fun next entry ↦ behind (value entry) next) next := by
  induction entries generalizing next with
  | nil => exact le_rfl
  | cons entry entries ih => exact (le_behind (value entry) next).trans (ih _)

variable {start : ℕ}

mutual

theorem from_fill : (value : Json) → (address next : ℕ) → start ≤ address → start ≤ next →
    From start (fill value address next).1 ∧ next ≤ (fill value address next).2
  | .array items, address, next, h, hnext => by
    have hmade := le_foldl_behind id items next
    obtain ⟨hitems, hlast⟩ := from_fillItems items next _ hnext (hnext.trans hmade)
    exact ⟨from_array.mpr ⟨h, hitems⟩, hmade.trans hlast⟩
  | .object members, address, next, h, hnext => by
    have hmade := le_foldl_behind Prod.snd members next
    obtain ⟨hmembers, hlast⟩ := from_fillMembers members next _ hnext (hnext.trans hmade)
    exact ⟨from_object.mpr ⟨h, hmembers⟩, hmade.trans hlast⟩
  | .null, _, next, _, _ => ⟨fun _ hmem ↦ absurd hmem List.not_mem_nil, le_refl next⟩
  | .bool _, _, next, _, _ => ⟨fun _ hmem ↦ absurd hmem List.not_mem_nil, le_refl next⟩
  | .number _, _, next, _, _ => ⟨fun _ hmem ↦ absurd hmem List.not_mem_nil, le_refl next⟩
  | .string _, _, next, _, _ => ⟨fun _ hmem ↦ absurd hmem List.not_mem_nil, le_refl next⟩

theorem from_fillItems : (items : List Json) → (address next : ℕ) → start ≤ address →
    start ≤ next → (∀ item ∈ (fillItems items address next).1, From start item) ∧
      next ≤ (fillItems items address next).2
  | [], _, next, _, _ => ⟨fun _ hmem ↦ absurd hmem List.not_mem_nil, le_refl next⟩
  | item :: items, address, next, h, hnext => by
    obtain ⟨hitems, hmiddle⟩ := from_fillItems items _ next (h.trans (le_behind item address)) hnext
    obtain ⟨hitem, hlast⟩ := from_fill item address _ h (hnext.trans hmiddle)
    exact ⟨List.forall_mem_cons.mpr ⟨hitem, hitems⟩, hmiddle.trans hlast⟩

theorem from_fillMembers : (members : JsonObject) → (address next : ℕ) → start ≤ address →
    start ≤ next → (∀ entry ∈ (fillMembers members address next).1, From start entry.2) ∧
      next ≤ (fillMembers members address next).2
  | [], _, next, _, _ => ⟨fun _ hmem ↦ absurd hmem List.not_mem_nil, le_refl next⟩
  | (_, value) :: members, address, next, h, hnext => by
    obtain ⟨hmembers, hmiddle⟩ :=
      from_fillMembers members _ next (h.trans (le_behind value address)) hnext
    obtain ⟨hvalue, hlast⟩ := from_fill value address _ h (hnext.trans hmiddle)
    exact ⟨List.forall_mem_cons.mpr ⟨hvalue, hmembers⟩, hmiddle.trans hlast⟩

end

/-- `copy` of the resource evaluator. -/
def copy (value : Json) (memory : Memory) : Stored × Memory :=
  let (filled, next) := fill value memory.next (behind value memory.next)
  (filled, { memory with next })

def propertyCopy : Copier where
  copy := copy
  contents_copy value memory := contents_fill value memory.next (behind value memory.next)
  fresh value memory := by
    have hbehind := le_behind value memory.next
    obtain ⟨hfrom, hlast⟩ := from_fill value memory.next _ le_rfl hbehind
    exact ⟨hfrom, hbehind.trans hlast, fun _ hmem ↦ .inl hmem⟩

end Copy

section Changes

/-- `parent[token]` of a container that has such an own property, for an array an index. -/
def ownProperty (token : String) : Stored → Option Stored
  | .array _ items => (arrayIndex token).bind fun index ↦ items[index]?
  | .object _ members => members.lookup token
  | _ => none

/-- The parent once its child has been written. -/
def withChild (token : String) (child : Stored) : Stored → Stored
  | .array address items => .array address (items.set ((arrayIndex token).getD 0) child)
  | .object address members => .object address (members.map fun entry ↦
      if entry.1 = token then (token, child) else entry)
  | other => other

/-- One round of the loop down to the parent, and what the document becomes when that is written. -/
def descendOnce (place : Option Stored × (Stored → Stored)) (token : String) :
    Except EditRefusal (Option Stored × (Stored → Stored)) := do
  let parent ← require place.1 .parent
  let child ← require (ownProperty token parent) .parent
  pure (some child, fun written ↦ place.2 (withChild token written parent))

/-- The write at the parent of the last token. -/
def changeParent (change : ObjectEdit) (key : String) (parent : Stored) (memory : Memory) :
    Except EditRefusal (Stored × Memory) :=
  match parent with
  | .array address items => do
    let index ← require (if key = "-" ∧ change.isAdd then some items.length else arrayIndex key)
      EditRefusal.index
    check (index < 2 ^ 53 ∧ index ≤ items.length ∧ (change.isAdd ∨ index ≠ items.length))
      EditRefusal.index
    match change with
    | .add _ value =>
      let (copied, memory) := copy value memory
      pure (.array address (items.insertIdx index copied), wrote address memory)
    | .remove _ => pure (.array address (items.eraseIdx index), wrote address memory)
    | .replace _ value =>
      let (copied, memory) := copy value memory
      pure (.array address (items.set index copied), wrote address memory)
  | .object address members => do
    check (change.isAdd ∨ (members.lookup key).isSome) EditRefusal.target
    match change.value with
    | none =>
      pure (.object address (members.filter fun entry ↦ entry.1 ≠ key), wrote address memory)
    | some value =>
      let (copied, memory) := copy value memory
      pure (.object address (defineStored members key copied), wrote address memory)
  | _ => .error .target

/-- One change; an empty path replaces or removes the whole document. -/
def changeIn (state : Option Stored × Memory) (change : ObjectEdit) :
    Except EditRefusal (Option Stored × Memory) :=
  let (result, memory) := state
  match change.tokens.getLast? with
  | none => do
    check (change.isAdd ∨ result.isSome) .target
    match change.value with
    | none => pure (none, memory)
    | some value =>
      let (copied, memory) := copy value memory
      pure (some copied, memory)
  | some key => do
    let (parent, rebuild) ← change.tokens.dropLast.foldlM descendOnce (result, id)
    let parent ← require parent .target
    let (written, memory) ← changeParent change key parent memory
    pure (some (rebuild written), memory)

theorem changeParent_eq (change : ObjectEdit) (key : String) (parent : Stored) (memory : Memory) :
    changeParent change key parent memory = editMemberIn propertyCopy change key memory parent := by
  cases parent <;> cases change <;> rfl

theorem ownProperty_eq (token : String) (parent : Stored) :
    descendIn token parent =
      (ownProperty token parent).map fun child ↦
        (child, fun written ↦ withChild token written parent) := by
  cases parent with
  | array address items =>
    rw [descendIn, ownProperty]
    cases hindex : arrayIndex token with
    | none => rfl
    | some index =>
      simp only [withChild, hindex, Option.bind_eq_bind, Option.bind_some, Option.getD_some]
      cases items[index]? <;> rfl
  | object address members =>
    rw [descendIn, ownProperty]
    cases hlookup : members.lookup token with
    | none => rfl
    | some child =>
      have hany : (members.any fun entry ↦ entry.1 = token) = true :=
        List.any_eq_true.mpr ⟨_, storedMem_of_lookup hlookup, decide_eq_true rfl⟩
      simp only [Option.bind_eq_bind, Option.bind_some, Option.map_some, withChild, defineStored,
        hany, if_true]
      rfl
  | null => rfl
  | bool value => rfl
  | number value => rfl
  | string value => rfl

theorem walk_eq (change : ObjectEdit) (key : String) (memory : Memory) (tokens : List String)
    (parent : Stored) (rebuild : Stored → Stored) :
    (do
      let (parent, rebuild) ← tokens.foldlM descendOnce (some parent, rebuild)
      let parent ← require parent .target
      let (written, memory) ← changeParent change key parent memory
      pure (some (rebuild written), memory)) =
      (editIn propertyCopy change (tokens ++ [key]) parent memory).map fun edited ↦
        (some (rebuild edited.1), edited.2) := by
  induction tokens generalizing parent rebuild with
  | nil =>
    rw [List.foldlM_nil, Except.pure_eq_ok, ok_bind]
    simp only [require_some, ok_bind]
    rw [changeParent_eq]
    change _ = (editMemberIn propertyCopy change key memory parent).map _
    cases editMemberIn propertyCopy change key memory parent <;> rfl
  | cons token tokens ih =>
    rw [List.foldlM_cons, List.cons_append, editIn.eq_3 _ _ _ _ _ _ (by simp), ownProperty_eq,
      descendOnce, require_some, ok_bind]
    cases ownProperty token parent with
    | none => rfl
    | some child =>
      rw [require_some, ok_bind, Except.pure_eq_ok, ok_bind, ih, Option.map_some, require_some,
        ok_bind]
      change _ = Except.map _ (do
        let (written, memory) ← editIn propertyCopy change (tokens ++ [key]) child memory
        Except.ok (withChild token written parent, memory))
      cases editIn propertyCopy change (tokens ++ [key]) child memory <;> rfl

theorem changeIn_eq (state : Option Stored × Memory) (change : ObjectEdit) :
    changeIn state change = applyEditIn propertyCopy state change := by
  obtain ⟨result, memory⟩ := state
  unfold changeIn applyEditIn
  dsimp only
  rcases List.eq_nil_or_concat change.tokens with htokens | ⟨tokens, key, htokens⟩
  · rw [htokens]
    cases result with
    | none => cases change <;> rfl
    | some root => cases change <;> rfl
  · rw [List.concat_eq_append] at htokens
    rw [htokens, List.getLast?_concat, List.dropLast_concat]
    cases result with
    | none =>
      cases tokens with
      | nil => rfl
      | cons token tokens =>
        rw [List.cons_append]
        cases tokens <;> rfl
    | some root =>
      simp only
      rw [walk_eq]
      cases tokens with
      | nil => rfl
      | cons token tokens =>
        rw [List.cons_append]
        cases tokens <;> rfl

end Changes

end Bdp.Evaluator
