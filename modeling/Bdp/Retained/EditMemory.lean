import Bdp.Retained.PatchReference

/-!
# Object edits in memory

The edits of a change as both implementations make them: the document is copied, and each edit
writes one container of the copy. A container keeps its address while its contents change, so what
an edit may disturb is the list of the addresses that it writes. Every one of them belongs to a
container that the call has made itself.
-/

namespace Bdp.Retained

/-- A value in memory; arrays and objects have addresses. -/
inductive Stored where
  | null
  | bool (value : Bool)
  | number (value : ℚ)
  | string (value : String)
  | array (address : ℕ) (items : List Stored)
  | object (address : ℕ) (members : List (String × Stored))

section Values

mutual

def contents : Stored → Json
  | .null => .null
  | .bool value => .bool value
  | .number value => .number value
  | .string value => .string value
  | .array _ items => .array (itemContents items)
  | .object _ members => .object (memberContents members)

def itemContents : List Stored → List Json
  | [] => []
  | item :: items => contents item :: itemContents items

def memberContents : List (String × Stored) → JsonObject
  | [] => []
  | (name, value) :: members => (name, contents value) :: memberContents members

end

mutual

def addresses : Stored → List ℕ
  | .array address items => address :: itemAddresses items
  | .object address members => address :: memberAddresses members
  | _ => []

def itemAddresses : List Stored → List ℕ
  | [] => []
  | item :: items => addresses item ++ itemAddresses items

def memberAddresses : List (String × Stored) → List ℕ
  | [] => []
  | (_, value) :: members => addresses value ++ memberAddresses members

end

mutual

/-- A copy of a tree in containers from an address on, and the address behind them. -/
def place : Json → ℕ → Stored × ℕ
  | .array items, next =>
    let (placed, last) := placeItems items (next + 1)
    (.array next placed, last)
  | .object members, next =>
    let (placed, last) := placeMembers members (next + 1)
    (.object next placed, last)
  | .null, next => (.null, next)
  | .bool value, next => (.bool value, next)
  | .number value, next => (.number value, next)
  | .string value, next => (.string value, next)

def placeItems : List Json → ℕ → List Stored × ℕ
  | [], next => ([], next)
  | item :: items, next =>
    let (placed, middle) := place item next
    let (others, last) := placeItems items middle
    (placed :: others, last)

def placeMembers : JsonObject → ℕ → List (String × Stored) × ℕ
  | [], next => ([], next)
  | (name, value) :: members, next =>
    let (placed, middle) := place value next
    let (others, last) := placeMembers members middle
    ((name, placed) :: others, last)

end

end Values

/-- The first free address, and the containers written so far. -/
structure Memory where
  next : ℕ
  written : List ℕ

/-- Every container of the value has an address from the start on. -/
def From (start : ℕ) (value : Stored) : Prop := ∀ address ∈ addresses value, start ≤ address

/-- A step took addresses from the next one on, and wrote no container before the start. -/
structure Confined (start : ℕ) (before after : Memory) : Prop where
  next : before.next ≤ after.next
  written : ∀ address ∈ after.written, address ∈ before.written ∨ start ≤ address

/-- A way to copy values into containers of their own. -/
structure Copier where
  copy : Json → Memory → Stored × Memory
  contents_copy : ∀ value memory, contents (copy value memory).1 = value
  fresh : ∀ value memory, From memory.next (copy value memory).1 ∧
    Confined memory.next memory (copy value memory).2

attribute [simp] Copier.contents_copy

section Edits

variable (copier : Copier)

inductive EditRefusal where
  | parent
  | target
  | index
  deriving DecidableEq, Repr

/-- `Object.defineProperty` of a container. -/
def defineStored (members : List (String × Stored)) (name : String) (value : Stored) :
    List (String × Stored) :=
  if members.any fun entry ↦ entry.1 = name then
    members.map fun entry ↦ if entry.1 = name then (name, value) else entry
  else
    members.takeWhile (fun entry ↦ !enumeratesBefore name entry.1) ++ (name, value) ::
      members.dropWhile (fun entry ↦ !enumeratesBefore name entry.1)

def wrote (address : ℕ) (memory : Memory) : Memory :=
  { memory with written := memory.written ++ [address] }

/-- The edit of one container at its last reference token. -/
def editMemberIn (edit : ObjectEdit) (name : String) (memory : Memory) :
    Stored → Except EditRefusal (Stored × Memory)
  | .array address items => do
    let index ← require
      (if name = "-" ∧ edit.isAdd then some items.length else arrayIndex name) EditRefusal.index
    check (index < 2 ^ 53 ∧ index ≤ items.length ∧ (edit.isAdd ∨ index ≠ items.length))
      EditRefusal.index
    match edit with
    | .add _ value =>
      let (copied, memory) := copier.copy value memory
      pure (.array address (items.insertIdx index copied), wrote address memory)
    | .replace _ value =>
      let (copied, memory) := copier.copy value memory
      pure (.array address (items.set index copied), wrote address memory)
    | .remove _ => pure (.array address (items.eraseIdx index), wrote address memory)
  | .object address members => do
    check (edit.isAdd ∨ (members.lookup name).isSome) EditRefusal.target
    match edit with
    | .remove _ =>
      pure (.object address (members.filter fun entry ↦ entry.1 ≠ name), wrote address memory)
    | .add _ value =>
      let (copied, memory) := copier.copy value memory
      pure (.object address (defineStored members name copied), wrote address memory)
    | .replace _ value =>
      let (copied, memory) := copier.copy value memory
      pure (.object address (defineStored members name copied), wrote address memory)
  | _ => .error .target

/-- The child an edit walks down to, and the same parent around what the child becomes. -/
def descendIn (token : String) : Stored → Option (Stored × (Stored → Stored))
  | .array address items => do
    let index ← arrayIndex token
    let child ← items[index]?
    pure (child, fun changed ↦ .array address (items.set index changed))
  | .object address members => do
    let child ← members.lookup token
    pure (child, fun changed ↦ .object address (defineStored members token changed))
  | _ => none

/-- Walk the reference tokens down and edit the container of the last one. -/
def editIn (edit : ObjectEdit) : List String → Stored → Memory →
    Except EditRefusal (Stored × Memory)
  | [], _, _ => .error .target
  | [name], parent, memory => editMemberIn copier edit name memory parent
  | token :: tokens, parent, memory => do
    let (child, rebuild) ← require (descendIn token parent) EditRefusal.parent
    let (changed, memory) ← editIn edit tokens child memory
    pure (rebuild changed, memory)

def replaceRoot (edit : ObjectEdit) (memory : Memory) : Option Stored × Memory :=
  match edit.value with
  | none => (none, memory)
  | some value =>
    let (copied, memory) := copier.copy value memory
    (some copied, memory)

def applyEditIn (state : Option Stored × Memory) (edit : ObjectEdit) :
    Except EditRefusal (Option Stored × Memory) :=
  match edit.tokens, state with
  | [], (none, memory) =>
    if edit.isAdd then .ok (replaceRoot copier edit memory) else .error .target
  | [], (some _, memory) => .ok (replaceRoot copier edit memory)
  | [_], (none, _) => .error .target
  | _ :: _ :: _, (none, _) => .error .parent
  | tokens, (some root, memory) =>
    (editIn copier edit tokens root memory).map fun edited ↦ (some edited.1, edited.2)

/-- The edits of a change on a copy of the document; a refusal names the pointer of its edit. -/
def editDocument (before : Stored) (changes : ObjectChange) (memory : Memory) :
    Except (EditRefusal × String) (Option Stored × Memory) :=
  let (copied, memory) := copier.copy (contents before) memory
  changes.foldlM (fun state edit ↦ (applyEditIn copier state edit).mapError fun refusal ↦
    (refusal, edit.path)) (some copied, memory)

end Edits

def EditRefusal.patchText : EditRefusal → String
  | .parent => "patch parent does not exist"
  | .target => "patch target does not exist"
  | .index => "patch array index does not exist"

section Contents

variable {copier : Copier}

variable (items : List Stored)

theorem itemContents_eq_map : itemContents items = items.map contents := by
  induction items with
  | nil => rfl
  | cons item items ih => rw [itemContents, ih, List.map_cons]

variable (members : List (String × Stored))

theorem memberContents_eq_map :
    memberContents members = members.map fun entry ↦ (entry.1, contents entry.2) := by
  induction members with
  | nil => rfl
  | cons entry members ih =>
    obtain ⟨name, value⟩ := entry
    rw [memberContents, ih, List.map_cons]

mutual

theorem contents_place : (value : Json) → (next : ℕ) → contents (place value next).1 = value
  | .array items, next => by
    rw [place, contents, contents_placeItems]
  | .object members, next => by
    rw [place, contents, contents_placeMembers]
  | .null, _ => rfl
  | .bool _, _ => rfl
  | .number _, _ => rfl
  | .string _, _ => rfl

theorem contents_placeItems : (items : List Json) → (next : ℕ) →
    itemContents (placeItems items next).1 = items
  | [], _ => rfl
  | item :: items, next => by
    rw [placeItems, itemContents, contents_place, contents_placeItems]

theorem contents_placeMembers : (members : JsonObject) → (next : ℕ) →
    memberContents (placeMembers members next).1 = members
  | [], _ => rfl
  | (name, value) :: members, next => by
    rw [placeMembers, memberContents, contents_place, contents_placeMembers]

end

theorem contents_getElem? (index : ℕ) :
    (itemContents items)[index]? = items[index]?.map contents := by
  rw [itemContents_eq_map, List.getElem?_map]

variable (name : String)

theorem lookup_memberContents :
    (memberContents members).lookup name = (members.lookup name).map contents := by
  induction members with
  | nil => rfl
  | cons entry members ih =>
    obtain ⟨other, value⟩ := entry
    rw [memberContents, List.lookup_cons, List.lookup_cons, ih]
    split <;> rfl

variable (p : String → Bool)

theorem takeWhile_contents (members : List (String × Stored)) :
    (memberContents members).takeWhile (fun entry ↦ p entry.1) =
      memberContents (members.takeWhile fun entry ↦ p entry.1) := by
  rw [memberContents_eq_map, memberContents_eq_map, List.takeWhile_map]
  rfl

theorem dropWhile_contents (members : List (String × Stored)) :
    (memberContents members).dropWhile (fun entry ↦ p entry.1) =
      memberContents (members.dropWhile fun entry ↦ p entry.1) := by
  rw [memberContents_eq_map, memberContents_eq_map, List.dropWhile_map]
  rfl

theorem contents_defineStored (value : Stored) : memberContents (defineStored members name value) =
      defineMember (memberContents members) name (contents value) := by
  have hany : ((memberContents members).any fun entry ↦ entry.1 = name) =
      members.any fun entry ↦ entry.1 = name := by
    rw [memberContents_eq_map, List.any_map]
    rfl
  unfold defineStored defineMember
  rw [hany]
  split
  · rw [memberContents_eq_map, memberContents_eq_map, List.map_map, List.map_map]
    apply List.map_congr_left
    intro entry _
    simp only [Function.comp_apply]
    split <;> rfl
  · rw [takeWhile_contents fun other ↦ !enumeratesBefore name other,
      dropWhile_contents fun other ↦ !enumeratesBefore name other, memberContents_eq_map,
      List.map_append, List.map_cons, ← memberContents_eq_map, ← memberContents_eq_map]

def outcome (result : Except EditRefusal (Stored × Memory)) : Except String Json :=
  (result.map fun edited ↦ contents edited.1).mapError EditRefusal.patchText

theorem outcome_bind {α : Type} (first : Except EditRefusal α)
    (next : α → Except EditRefusal (Stored × Memory)) :
    outcome (first >>= next) =
      first.mapError EditRefusal.patchText >>= fun value ↦ outcome (next value) := by
  cases first <;> rfl

theorem mapError_require {α : Type} (value : Option α) (refusal : EditRefusal) :
    (require value refusal).mapError EditRefusal.patchText = require value refusal.patchText := by
  cases value <;> rfl

theorem mapError_check (condition : Prop) [Decidable condition] (refusal : EditRefusal) :
    (check condition refusal).mapError EditRefusal.patchText =
      check condition refusal.patchText := by
  unfold check
  split <;> rfl

variable (edit : ObjectEdit)

theorem editMemberIn_outcome (name : String) (memory : Memory) (parent : Stored) :
    outcome (editMemberIn copier edit name memory parent) =
      editMember edit name (contents parent) := by
  cases parent with
  | array address items =>
    unfold editMemberIn editMember
    rw [contents, outcome_bind, mapError_require, itemContents_eq_map]
    dsimp only
    rw [List.length_map]
    congr 1
    funext index
    rw [outcome_bind, mapError_check]
    congr 1
    funext _
    cases edit with
    | add path value =>
      refine congrArg (Except.ok ∘ JsonValue.array) ?_
      rw [itemContents_eq_map, List.map_insertIdx, Copier.contents_copy]
    | replace path value =>
      refine congrArg (Except.ok ∘ JsonValue.array) ?_
      rw [itemContents_eq_map, List.map_set, Copier.contents_copy]
    | remove path =>
      refine congrArg (Except.ok ∘ JsonValue.array) ?_
      rw [itemContents_eq_map, List.eraseIdx_map]
  | object address members =>
    unfold editMemberIn editMember
    rw [contents, outcome_bind, mapError_check]
    dsimp only
    rw [lookup_memberContents, Option.isSome_map]
    congr 1
    funext _
    cases edit with
    | add path value =>
      refine congrArg (Except.ok ∘ JsonValue.object) ?_
      rw [contents_defineStored, Copier.contents_copy]
    | replace path value =>
      refine congrArg (Except.ok ∘ JsonValue.object) ?_
      rw [contents_defineStored, Copier.contents_copy]
    | remove path =>
      refine congrArg (Except.ok ∘ JsonValue.object) ?_
      rw [memberContents_eq_map, memberContents_eq_map, deleteMember, List.filter_map]
      rfl
  | null => rfl
  | bool value => rfl
  | number value => rfl
  | string value => rfl

theorem descend_contents (token : String) (parent : Stored) : match descendIn token parent with
    | none => descend token (contents parent) = none
    | some (child, rebuild) => ∃ replace, descend token (contents parent) =
        some (contents child, replace) ∧ ∀ changed, contents (rebuild changed) =
          replace (contents changed) := by
  cases parent with
  | array address items =>
    rw [contents, descend_array, descendIn]
    cases arrayIndex token with
    | none => rfl
    | some index =>
      simp only [Option.bind_eq_bind, Option.bind_some, contents_getElem?]
      cases items[index]? with
      | none => rfl
      | some child =>
        refine ⟨_, rfl, fun changed ↦ ?_⟩
        rw [contents, itemContents_eq_map, itemContents_eq_map, List.map_set]
  | object address members =>
    rw [contents, descend_object, descendIn, lookup_memberContents]
    simp only [Option.bind_eq_bind]
    cases members.lookup token with
    | none => rfl
    | some child =>
      refine ⟨_, rfl, fun changed ↦ ?_⟩
      rw [contents, contents_defineStored]
  | null => rfl
  | bool value => rfl
  | number value => rfl
  | string value => rfl

theorem editIn_outcome (tokens : List String) (parent : Stored) (memory : Memory) :
    outcome (editIn copier edit tokens parent memory) = editAt edit tokens (contents parent) := by
  induction tokens generalizing parent memory with
  | nil => rfl
  | cons token tokens ih =>
    cases tokens with
    | nil => exact editMemberIn_outcome edit token memory parent
    | cons next tokens =>
      rw [editIn.eq_3 _ _ _ _ _ _ (by simp), editAt.eq_3 _ _ _ _ (by simp), outcome_bind,
        mapError_require]
      have hdescend := descend_contents token parent
      cases hchild : descendIn token parent with
      | none =>
        rw [hchild] at hdescend
        rw [hdescend]
        rfl
      | some found =>
        obtain ⟨child, rebuild⟩ := found
        rw [hchild] at hdescend
        obtain ⟨replace, hdescend, hrebuild⟩ := hdescend
        rw [hdescend, require_some, require_some, Except.ok_bind, Except.ok_bind]
        dsimp only
        rw [← ih child memory]
        cases editIn copier edit (next :: tokens) child memory with
        | error refusal => rfl
        | ok changed => exact congrArg Except.ok (hrebuild changed.1)

/-- An outcome for the whole document, without its memory. -/
def documentOutcome (path : String) (result : Except EditRefusal (Option Stored × Memory)) :
    Except ObjectEditFailure (Option Json) :=
  (result.map fun state ↦ state.1.map contents).mapError fun refusal ↦
    { message := refusal.patchText, pointer := path }

variable (copier) in
theorem applyEditIn_outcome (state : Option Stored × Memory) (edit : ObjectEdit) :
    documentOutcome edit.path (applyEditIn copier state edit) =
      applyEdit (state.1.map contents) edit := by
  have hroot (memory : Memory) : (replaceRoot copier edit memory).1.map contents = edit.value := by
    unfold replaceRoot
    cases edit.value with
    | none => rfl
    | some value => exact congrArg some (copier.contents_copy value memory)
  obtain ⟨document, memory⟩ := state
  unfold applyEditIn applyEdit
  cases document with
  | none =>
    match edit.tokens with
    | [] =>
      by_cases hadd : edit.isAdd = true
      · simp only [hadd, if_true, Option.map_none]
        exact congrArg Except.ok (hroot memory)
      · simp only [hadd, Option.map_none]
        rfl
    | [_] => rfl
    | _ :: _ :: _ => rfl
  | some root =>
    cases htokens : edit.tokens with
    | nil => exact congrArg Except.ok (hroot memory)
    | cons token tokens =>
      simp only [Option.map_some]
      rw [← editIn_outcome edit (token :: tokens) root memory]
      cases editIn copier edit (token :: tokens) root memory <;> rfl

end Contents

section Ownership

variable {start : ℕ}
variable {address : ℕ}
variable {items : List Stored}

theorem from_array : From start (.array address items) ↔
      start ≤ address ∧ ∀ item ∈ items, From start item := by
  have hitems : (∀ other ∈ itemAddresses items, start ≤ other) ↔
      ∀ item ∈ items, From start item := by
    induction items with
    | nil => simp [itemAddresses]
    | cons item items ih =>
      rw [itemAddresses, List.forall_mem_append, ih, List.forall_mem_cons]
      rfl
  unfold From
  rw [addresses, List.forall_mem_cons, hitems]
  rfl

variable {members : List (String × Stored)}

theorem from_object : From start (.object address members) ↔
      start ≤ address ∧ ∀ entry ∈ members, From start entry.2 := by
  have hmembers : (∀ other ∈ memberAddresses members, start ≤ other) ↔
      ∀ entry ∈ members, From start entry.2 := by
    induction members with
    | nil => simp [memberAddresses]
    | cons entry members ih =>
      obtain ⟨name, value⟩ := entry
      rw [memberAddresses, List.forall_mem_append, ih, List.forall_mem_cons]
      rfl
  unfold From
  rw [addresses, List.forall_mem_cons, hmembers]
  rfl

mutual

theorem from_place : (value : Json) → (next : ℕ) → start ≤ next →
    From start (place value next).1 ∧ next ≤ (place value next).2
  | .array items, next, h => by
    obtain ⟨hitems, hnext⟩ := from_placeItems items (next + 1) (h.trans (Nat.le_succ next))
    exact ⟨from_array.mpr ⟨h, hitems⟩, (Nat.le_succ next).trans hnext⟩
  | .object members, next, h => by
    obtain ⟨hmembers, hnext⟩ := from_placeMembers members (next + 1) (h.trans (Nat.le_succ next))
    exact ⟨from_object.mpr ⟨h, hmembers⟩, (Nat.le_succ next).trans hnext⟩
  | .null, next, _ => ⟨fun _ hmem ↦ absurd hmem List.not_mem_nil, le_refl next⟩
  | .bool _, next, _ => ⟨fun _ hmem ↦ absurd hmem List.not_mem_nil, le_refl next⟩
  | .number _, next, _ => ⟨fun _ hmem ↦ absurd hmem List.not_mem_nil, le_refl next⟩
  | .string _, next, _ => ⟨fun _ hmem ↦ absurd hmem List.not_mem_nil, le_refl next⟩

theorem from_placeItems : (items : List Json) → (next : ℕ) → start ≤ next →
    (∀ item ∈ (placeItems items next).1, From start item) ∧ next ≤ (placeItems items next).2
  | [], next, _ => ⟨fun _ hmem ↦ absurd hmem List.not_mem_nil, le_refl next⟩
  | item :: items, next, h => by
    obtain ⟨hitem, hmiddle⟩ := from_place item next h
    obtain ⟨hitems, hlast⟩ := from_placeItems items (place item next).2 (h.trans hmiddle)
    exact ⟨List.forall_mem_cons.mpr ⟨hitem, hitems⟩, hmiddle.trans hlast⟩

theorem from_placeMembers : (members : JsonObject) → (next : ℕ) → start ≤ next →
    (∀ entry ∈ (placeMembers members next).1, From start entry.2) ∧
      next ≤ (placeMembers members next).2
  | [], next, _ => ⟨fun _ hmem ↦ absurd hmem List.not_mem_nil, le_refl next⟩
  | (_, value) :: members, next, h => by
    obtain ⟨hvalue, hmiddle⟩ := from_place value next h
    obtain ⟨hmembers, hlast⟩ := from_placeMembers members (place value next).2 (h.trans hmiddle)
    exact ⟨List.forall_mem_cons.mpr ⟨hvalue, hmembers⟩, hmiddle.trans hlast⟩

end

theorem Confined.trans {first second third : Memory} (h : Confined start first second)
    (h' : Confined start second third) : Confined start first third := by
  refine ⟨h.next.trans h'.next, fun address hmem ↦ ?_⟩
  obtain hmem | hstart := h'.written address hmem
  · exact h.written address hmem
  · exact .inr hstart

theorem confined_wrote (h : start ≤ address) (memory : Memory) :
    Confined start memory (wrote address memory) := by
  refine ⟨le_refl _, fun other hmem ↦ ?_⟩
  obtain hmem | hmem := List.mem_append.mp hmem
  · exact .inl hmem
  · exact .inr (List.mem_singleton.mp hmem ▸ h)

variable {memory : Memory}

/-- `JSON.parse(stringifyJsonValue(value))`. -/
def jsonCopy : Copier where
  copy value memory :=
    ((place value memory.next).1, { memory with next := (place value memory.next).2 })
  contents_copy value memory := contents_place value memory.next
  fresh value memory :=
    ⟨(from_place value memory.next le_rfl).1, (from_place value memory.next le_rfl).2,
      fun _ hmem ↦ .inl hmem⟩

variable {copier : Copier}

theorem Copier.confined (value : Json) (h : start ≤ memory.next) :
    From start (copier.copy value memory).1 ∧
      Confined start memory (copier.copy value memory).2 := by
  obtain ⟨hfrom, hconfined⟩ := copier.fresh value memory
  refine ⟨fun address hmem ↦ h.trans (hfrom address hmem), hconfined.next, fun address hmem ↦ ?_⟩
  exact (hconfined.written address hmem).imp_right h.trans

variable {value : Stored} {name : String}

theorem from_defineStored (h : From start (.object address members)) (hvalue : From start value) :
    From start (.object address (defineStored members name value)) := by
  rw [from_object] at h ⊢
  refine ⟨h.1, fun entry hentry ↦ ?_⟩
  unfold defineStored at hentry
  split at hentry
  · obtain ⟨old, hold, rfl⟩ := List.mem_map.mp hentry
    split
    · exact hvalue
    · exact h.2 old hold
  · obtain hentry | hentry := List.mem_append.mp hentry
    · exact h.2 entry (List.takeWhile_subset _ hentry)
    · obtain rfl | hentry := List.mem_cons.mp hentry
      · exact hvalue
      · exact h.2 entry ((List.dropWhile_suffix _).subset hentry)

theorem from_set {index : ℕ} (h : From start (.array address items)) (hvalue : From start value) :
    From start (.array address (items.set index value)) := by
  rw [from_array] at h ⊢
  refine ⟨h.1, fun item hitem ↦ ?_⟩
  obtain hitem | rfl := List.mem_or_eq_of_mem_set hitem
  · exact h.2 item hitem
  · exact hvalue

variable {edit : ObjectEdit} {parent : Stored}
variable {result : Stored} {after : Memory}

theorem editMemberIn_confined (h : From start parent) (hnext : start ≤ memory.next)
    (hedit : editMemberIn copier edit name memory parent = .ok (result, after)) :
    From start result ∧ Confined start memory after := by
  cases parent with
  | array address items =>
    have haddress := (from_array.mp h).1
    obtain ⟨index, -, hedit⟩ := Except.bind_eq_ok.mp hedit
    obtain ⟨-, -, hedit⟩ := Except.bind_eq_ok.mp hedit
    cases edit with
    | add path value =>
      obtain ⟨hcopied, hconfined⟩ := copier.confined value hnext
      obtain ⟨rfl, rfl⟩ := Prod.mk.inj (Except.ok.inj hedit)
      refine ⟨?_, hconfined.trans (confined_wrote haddress _)⟩
      rw [from_array] at h ⊢
      refine ⟨haddress, fun item hitem ↦ ?_⟩
      obtain rfl | hitem := List.eq_or_mem_of_mem_insertIdx hitem
      · exact hcopied
      · exact h.2 item hitem
    | replace path value =>
      obtain ⟨hcopied, hconfined⟩ := copier.confined value hnext
      obtain ⟨rfl, rfl⟩ := Prod.mk.inj (Except.ok.inj hedit)
      exact ⟨from_set h hcopied, hconfined.trans (confined_wrote haddress _)⟩
    | remove path =>
      obtain ⟨rfl, rfl⟩ := Prod.mk.inj (Except.ok.inj hedit)
      refine ⟨?_, confined_wrote haddress memory⟩
      rw [from_array] at h ⊢
      exact ⟨haddress, fun item hitem ↦ h.2 item (List.mem_of_mem_eraseIdx hitem)⟩
  | object address members =>
    have haddress := (from_object.mp h).1
    obtain ⟨-, -, hedit⟩ := Except.bind_eq_ok.mp hedit
    cases edit with
    | add path value =>
      obtain ⟨hcopied, hconfined⟩ := copier.confined value hnext
      obtain ⟨rfl, rfl⟩ := Prod.mk.inj (Except.ok.inj hedit)
      exact ⟨from_defineStored h hcopied, hconfined.trans (confined_wrote haddress _)⟩
    | replace path value =>
      obtain ⟨hcopied, hconfined⟩ := copier.confined value hnext
      obtain ⟨rfl, rfl⟩ := Prod.mk.inj (Except.ok.inj hedit)
      exact ⟨from_defineStored h hcopied, hconfined.trans (confined_wrote haddress _)⟩
    | remove path =>
      obtain ⟨rfl, rfl⟩ := Prod.mk.inj (Except.ok.inj hedit)
      refine ⟨?_, confined_wrote haddress memory⟩
      rw [from_object] at h ⊢
      exact ⟨haddress, fun entry hentry ↦ h.2 entry (List.mem_of_mem_filter hentry)⟩
  | null => cases hedit
  | bool value => cases hedit
  | number value => cases hedit
  | string value => cases hedit

theorem storedMem_of_lookup (h : members.lookup name = some value) : (name, value) ∈ members := by
  obtain ⟨front, back, hsplit, -⟩ := List.lookup_eq_some_iff.mp h
  rw [hsplit]
  simp

theorem descendIn_from {token : String} {child : Stored} {rebuild : Stored → Stored}
    (h : From start parent) (hdescend : descendIn token parent = some (child, rebuild)) :
    From start child ∧ ∀ changed, From start changed → From start (rebuild changed) := by
  cases parent with
  | array address items =>
    obtain ⟨index, -, hdescend⟩ := Option.bind_eq_some_iff.mp hdescend
    obtain ⟨found, hfound, hdescend⟩ := Option.bind_eq_some_iff.mp hdescend
    obtain ⟨rfl, rfl⟩ := Prod.mk.inj (Option.some.inj hdescend)
    exact ⟨(from_array.mp h).2 _ (List.mem_of_getElem? hfound), fun changed hchanged ↦
      from_set h hchanged⟩
  | object address members =>
    obtain ⟨found, hfound, hdescend⟩ := Option.bind_eq_some_iff.mp hdescend
    obtain ⟨rfl, rfl⟩ := Prod.mk.inj (Option.some.inj hdescend)
    exact ⟨(from_object.mp h).2 _ (storedMem_of_lookup hfound), fun changed hchanged ↦
      from_defineStored h hchanged⟩
  | null => cases hdescend
  | bool value => cases hdescend
  | number value => cases hdescend
  | string value => cases hdescend

theorem editIn_confined {tokens : List String} (h : From start parent) (hnext : start ≤ memory.next)
    (hedit : editIn copier edit tokens parent memory = .ok (result, after)) :
    From start result ∧ Confined start memory after := by
  induction tokens generalizing parent result memory after with
  | nil => cases hedit
  | cons token tokens ih =>
    cases tokens with
    | nil => exact editMemberIn_confined h hnext hedit
    | cons next tokens =>
      obtain ⟨⟨child, rebuild⟩, hdescend, hedit⟩ := Except.bind_eq_ok.mp hedit
      obtain ⟨⟨changed, later⟩, hchanged, hedit⟩ := Except.bind_eq_ok.mp hedit
      obtain ⟨rfl, rfl⟩ := Prod.mk.inj (Except.ok.inj hedit)
      obtain ⟨hchild, hrebuild⟩ := descendIn_from h (require_eq_ok.mp hdescend)
      obtain ⟨hfrom, hconfined⟩ := ih hchild hnext hchanged
      exact ⟨hrebuild changed hfrom, hconfined⟩

/-- A document whose containers the call has made, in a memory where it writes no others. -/
def OwnsDocument (start : ℕ) (memory : Memory) (state : Option Stored × Memory) : Prop :=
  (∀ value, state.1 = some value → From start value) ∧ Confined start memory state.2

theorem ownsDocument_replaceRoot {later : Memory} (edit : ObjectEdit)
    (hnext : start ≤ later.next) (h : Confined start memory later) :
    OwnsDocument start memory (replaceRoot copier edit later) := by
  unfold replaceRoot
  cases edit.value with
  | none => exact ⟨fun _ hvalue ↦ (nomatch hvalue), h⟩
  | some value =>
    obtain ⟨hcopied, hconfined⟩ := copier.confined value hnext
    exact ⟨fun _ hvalue ↦ Option.some.inj hvalue ▸ hcopied, h.trans hconfined⟩

variable {state : Option Stored × Memory}

theorem OwnsDocument.applyEditIn {result : Option Stored × Memory}
    (h : OwnsDocument start memory state) (hnext : start ≤ memory.next)
    (hedit : applyEditIn copier state edit = .ok result) : OwnsDocument start memory result := by
  obtain ⟨hdocument, hconfined⟩ := h
  have hlater := hnext.trans hconfined.next
  unfold Retained.applyEditIn at hedit
  split at hedit
  · split at hedit
    · obtain rfl := Except.ok.inj hedit
      exact ownsDocument_replaceRoot edit hlater hconfined
    · cases hedit
  · obtain rfl := Except.ok.inj hedit
    exact ownsDocument_replaceRoot edit hlater hconfined
  · cases hedit
  · cases hedit
  · next root later _ =>
    cases hroot : editIn copier edit edit.tokens root later with
    | error refusal =>
      rw [hroot] at hedit
      cases hedit
    | ok edited =>
      rw [hroot] at hedit
      obtain rfl := Except.ok.inj hedit
      obtain ⟨hfrom, hwritten⟩ := editIn_confined (hdocument root rfl) hlater hroot
      exact ⟨fun _ hvalue ↦ Option.some.inj hvalue ▸ hfrom, hconfined.trans hwritten⟩

theorem foldlM_applyEditIn (changes : ObjectChange) (h : OwnsDocument start memory state)
    (hnext : start ≤ memory.next) :
    match changes.foldlM (fun state edit ↦ (applyEditIn copier state edit).mapError fun refusal ↦
      (refusal, edit.path)) state with
    | .ok result => changes.foldlM applyEdit (state.1.map contents) =
        .ok (result.1.map contents) ∧ OwnsDocument start memory result
    | .error (refusal, pointer) => changes.foldlM applyEdit (state.1.map contents) =
        .error { message := refusal.patchText, pointer } := by
  induction changes generalizing state with
  | nil => exact ⟨rfl, h⟩
  | cons edit changes ih =>
    have houtcome := applyEditIn_outcome copier state edit
    rw [List.foldlM_cons, List.foldlM_cons, ← houtcome]
    cases hedit : applyEditIn copier state edit with
    | error refusal => rfl
    | ok next => exact ih (h.applyEditIn hnext hedit)

variable (copier) in
theorem editDocument_spec (before : Stored) (changes : ObjectChange) (memory : Memory) :
    match editDocument copier before changes memory with
    | .ok result => changes.foldlM applyEdit (some (contents before)) =
        .ok (result.1.map contents) ∧ OwnsDocument memory.next memory result
    | .error (refusal, pointer) => changes.foldlM applyEdit (some (contents before)) =
        .error { message := refusal.patchText, pointer } := by
  obtain ⟨hcopied, hconfined⟩ := copier.confined (contents before) (le_refl memory.next)
  have howns : OwnsDocument memory.next memory
      (some (copier.copy (contents before) memory).1, (copier.copy (contents before) memory).2) :=
    ⟨fun _ hvalue ↦ Option.some.inj hvalue ▸ hcopied, hconfined⟩
  have hrun := @foldlM_applyEditIn _ _ copier _ changes howns (le_refl _)
  simp only [Option.map_some, Copier.contents_copy] at hrun
  exact hrun

/-- The containers that a call wrote or returns were not there before it. -/
structure Untouched (before after : Memory) (result : Stored) : Prop where
  written : ∀ address ∈ after.written, address ∈ before.written ∨ before.next ≤ address
  result : From before.next result

/-- `applyObjectChange` of `object-edits`; the object that it returns is one more copy. -/
def applyObjectChangeIn (before : Stored) (changes : ObjectChange) (memory : Memory) :
    Except ObjectEditFailure (Stored × Memory) :=
  match editDocument jsonCopy before changes memory with
  | .error (refusal, pointer) => .error { message := refusal.patchText, pointer }
  | .ok (some (.object address members), memory) =>
    .ok (jsonCopy.copy (contents (.object address members)) memory)
  | .ok _ => .error { message := "resulting document must be an object", pointer := "" }

/-- `applyObjectChange` in memory answers what the edits make of the contents, and touches no
container that was there before. -/
theorem applyObjectChangeIn_spec (address : ℕ) (members : List (String × Stored))
    (changes : ObjectChange) (memory : Memory) :
    match applyObjectChangeIn (.object address members) changes memory with
    | .ok (result, after) => (∃ object, contents result = .object object ∧
        applyObjectChange (memberContents members) changes = .ok object) ∧
        Untouched memory after result
    | .error failure => applyObjectChange (memberContents members) changes = .error failure := by
  have hspec := editDocument_spec jsonCopy (.object address members) changes memory
  unfold applyObjectChangeIn applyObjectChange
  rw [contents] at hspec
  cases hedit : editDocument jsonCopy (.object address members) changes memory with
  | error problem =>
    obtain ⟨refusal, pointer⟩ := problem
    rw [hedit] at hspec
    simp only at hspec ⊢
    rw [hspec]
    rfl
  | ok state =>
    rw [hedit] at hspec
    obtain ⟨hfold, howns⟩ := hspec
    rw [hfold]
    match state with
    | (some (.object edited members), later) =>
      obtain ⟨hcopied, hconfined⟩ := jsonCopy.confined
        (contents (.object edited members)) howns.2.next
      refine ⟨⟨memberContents members, ?_, rfl⟩, ?_, hcopied⟩
      · exact jsonCopy.contents_copy (.object (memberContents members)) later
      · exact (howns.2.trans hconfined).written
    | (none, _) => rfl
    | (some .null, _) => rfl
    | (some (.bool _), _) => rfl
    | (some (.number _), _) => rfl
    | (some (.string _), _) => rfl
    | (some (.array _ _), _) => rfl

end Ownership

end Bdp.Retained
