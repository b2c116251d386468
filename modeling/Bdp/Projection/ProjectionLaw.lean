import Bdp.Library.Grouping
import Bdp.Projection.CanonicalProjection

/-!
# What a projection keeps

Kept locations are described by a predicate on paths in the original, and the copy of a value by it
is a plain recursion. The tasks of the projection make exactly this copy for the locations that the
masks select, and these are told from the pointers alone.
-/

namespace Bdp.Projection

open JsonPatch (index?)
open Retained (arrayIndex)

variable {N : Type}

section Keeping

mutual

/-- The copy of a value with only the entries whose paths are kept. Arrays are compacted. -/
def keepWhere (kept : List String → Bool) : JsonValue N → JsonValue N
  | .array items => .array (keepItems kept 0 items)
  | .object members => .object (keepMembers kept members)
  | scalar => scalar

def keepItems (kept : List String → Bool) (index : ℕ) : List (JsonValue N) → List (JsonValue N)
  | [] => []
  | item :: items =>
    if kept [index.repr] then
      keepWhere (fun path ↦ kept (index.repr :: path)) item :: keepItems kept (index + 1) items
    else keepItems kept (index + 1) items

def keepMembers (kept : List String → Bool) :
    List (String × JsonValue N) → List (String × JsonValue N)
  | [] => []
  | (name, value) :: members =>
    if kept [name] then
      (name, keepWhere (fun path ↦ kept (name :: path)) value) :: keepMembers kept members
    else keepMembers kept members

end

@[elab_as_elim]
theorem value_induct {motive : JsonValue N → Prop} (null : motive .null)
    (bool : ∀ value, motive (.bool value)) (number : ∀ value, motive (.number value))
    (string : ∀ value, motive (.string value))
    (array : ∀ items, (∀ item ∈ items, motive item) → motive (.array items))
    (object : ∀ members, (∀ member ∈ members, motive member.2) → motive (.object members))
    (value : JsonValue N) : motive value := by
  refine @JsonValue.rec N motive (fun items ↦ ∀ item ∈ items, motive item)
    (fun members ↦ ∀ member ∈ members, motive member.2) (fun member ↦ motive member.2)
    null bool number string array object ?_ ?_ ?_ ?_ ?_ value
  · exact nofun
  · exact fun item items hitem hitems ↦ List.forall_mem_cons.mpr ⟨hitem, hitems⟩
  · exact nofun
  · exact fun member members hmember hmembers ↦ List.forall_mem_cons.mpr ⟨hmember, hmembers⟩
  · exact fun name value hvalue ↦ hvalue

theorem keepWhere_congr {kept others : List String → Bool} (value : JsonValue N)
    (h : ∀ path ≠ [], kept path = others path) : keepWhere kept value = keepWhere others value := by
  induction value using value_induct generalizing kept others with
  | null => rfl
  | bool value => rfl
  | number value => rfl
  | string value => rfl
  | array items ih =>
    have hitems : ∀ index, keepItems kept index items = keepItems others index items := by
      induction items with
      | nil => exact fun _ ↦ rfl
      | cons item items ihitems =>
        intro index
        have hitem : keepWhere (fun path ↦ kept (index.repr :: path)) item =
            keepWhere (fun path ↦ others (index.repr :: path)) item :=
          ih item List.mem_cons_self fun path _ ↦ h _ (List.cons_ne_nil _ _)
        have hrest :=
          ihitems (fun other hother ↦ ih other (List.mem_cons_of_mem _ hother)) (index + 1)
        rw [keepItems, keepItems, h _ (List.cons_ne_nil _ _), hitem, hrest]
    rw [keepWhere, keepWhere, hitems]
  | object members ih =>
    have hmembers : keepMembers kept members = keepMembers others members := by
      induction members with
      | nil => rfl
      | cons member members ihmembers =>
        have hmember : keepWhere (fun path ↦ kept (member.1 :: path)) member.2 =
            keepWhere (fun path ↦ others (member.1 :: path)) member.2 :=
          ih member List.mem_cons_self fun path _ ↦ h _ (List.cons_ne_nil _ _)
        have hrest := ihmembers fun other hother ↦ ih other (List.mem_cons_of_mem _ hother)
        rw [keepMembers, keepMembers, h _ (List.cons_ne_nil _ _), hmember, hrest]
    rw [keepWhere, keepWhere, hmembers]

end Keeping

section Selection

/-- Whether the masks at a node select a path below it, entry by entry. -/
def selects (include? omit? : Option MaskNode) (whole : Bool) : List String → Bool
  | [] => true
  | key :: path =>
    let selected := include?.bind fun mask ↦ mask.child key
    let whole := whole || selected.any MaskNode.whole
    let excluded := omit?.bind fun mask ↦ mask.child key
    if (whole = false ∧ selected.isNone) ∨ excluded.any MaskNode.whole then false
    else selects selected excluded whole path

theorem selects_eq {include? omit? : Option MaskNode} {whole : Bool} {path : List String}
    (hinclude : include?.any MaskNode.whole = true → whole = true)
    (homit : omit?.any MaskNode.whole = false) :
    selects include? omit? whole path =
      ((decide (path = []) || whole || include?.any fun mask ↦ mask.reaches path) &&
        !omit?.any fun mask ↦ mask.covers path) := by
  induction path generalizing include? omit? whole with
  | nil =>
    have hcovers : (omit?.any fun mask ↦ mask.covers []) = false := homit
    rw [hcovers]
    rfl
  | cons key path ih =>
    rw [selects]
    generalize hselected : (include?.bind fun mask ↦ mask.child key) = selected
    generalize hexcluded : (omit?.bind fun mask ↦ mask.child key) = excluded
    have hreaches : (include?.any fun mask ↦ mask.reaches (key :: path)) =
        (include?.any MaskNode.whole || selected.any fun mask ↦ mask.reaches path) := by
      subst hselected
      cases include? <;> rfl
    have hcovers : (omit?.any fun mask ↦ mask.covers (key :: path)) =
        excluded.any fun mask ↦ mask.covers path := by
      subst hexcluded
      cases omit? with
      | none => rfl
      | some mask =>
        have hwhole : mask.whole = false := homit
        rw [Option.any_some, MaskNode.covers, hwhole, Bool.false_or]
        rfl
    rw [hreaches, hcovers, decide_eq_false (List.cons_ne_nil key path), Bool.false_or]
    by_cases hdropped : excluded.any MaskNode.whole = true
    · -- everything at and under the entry is omitted
      have hall : (excluded.any fun mask ↦ mask.covers path) = true := by
        obtain ⟨mask, hmask, hwhole⟩ := (Option.any_eq_true _ _).mp hdropped
        exact (Option.any_eq_true _ _).mpr ⟨mask, hmask, MaskNode.covers_of_whole hwhole⟩
      rw [if_pos (.inr hdropped), hall, Bool.not_true, Bool.and_false]
    have hkept := Bool.eq_false_iff.mpr hdropped
    by_cases hnone : (whole || selected.any MaskNode.whole) = false ∧ selected.isNone
    · -- the entry is neither selected nor below a whole node
      rw [if_pos (.inl hnone)]
      obtain ⟨hwhole, hselected⟩ := hnone
      obtain ⟨hwhole, -⟩ := Bool.or_eq_false_iff.mp hwhole
      have hinner : include?.any MaskNode.whole = false :=
        Bool.eq_false_iff.mpr fun h ↦ absurd (hinclude h) (by rw [hwhole]; exact Bool.false_ne_true)
      rw [Option.isNone_iff_eq_none.mp hselected, hwhole, hinner]
      rfl
    rw [if_neg (not_or.mpr ⟨hnone, hdropped⟩), ih (fun h ↦ by rw [h, Bool.or_true]) hkept]
    congr 1
    cases whole with
    | true => simp
    | false =>
      have hinner : include?.any MaskNode.whole = false :=
        Bool.eq_false_iff.mpr fun h ↦ by cases hinclude h
      rw [hinner, Bool.false_or, Bool.false_or, Bool.false_or]
      cases selected with
      | none => exact absurd ⟨rfl, rfl⟩ hnone
      | some mask =>
        simp only [Option.any_some]
        cases path with
        | nil => rfl
        | cons next path =>
          rw [decide_eq_false (List.cons_ne_nil next path), Bool.false_or]
          cases hwhole : mask.whole with
          | true => rw [Bool.true_or, MaskNode.reaches_of_whole hwhole]
          | false => rfl

end Selection

section Run

/-- The entries of a container under the keys that the loop goes through. -/
def entries : JsonValue N → List (String × JsonValue N)
  | .array items => items.zipIdx.map fun entry ↦ (entry.2.repr, entry.1)
  | .object members => members
  | _ => []

theorem keys_eq (value : JsonValue N) : keys value = (entries value).map Prod.fst := by
  cases value with
  | array items =>
    have hsnd : (List.range items.length) = items.zipIdx.map Prod.snd := by
      rw [List.zipIdx_map_snd, List.range_eq_range']
    rw [keys, entries, hsnd, List.map_map, List.map_map]
    rfl
  | object members => rfl
  | null => rfl
  | bool value => rfl
  | number value => rfl
  | string value => rfl

variable {value : JsonValue N}
variable {entry : String × JsonValue N}

theorem child_entries (hunique : value.uniqueNames = true) (h : entry ∈ entries value) :
    child value entry.1 = some entry.2 := by
  cases value with
  | array items =>
    obtain ⟨⟨item, index⟩, hmem, rfl⟩ := List.mem_map.mp h
    have hindex : arrayIndex index.repr = some index := by
      rw [Retained.arrayIndex_eq, JsonPatch.index?_eq_some]
    rw [child, hindex]
    exact List.mk_mem_zipIdx_iff_getElem?.mp hmem
  | object members =>
    rw [JsonValue.uniqueNames, Bool.and_eq_true, decide_eq_true_eq] at hunique
    exact Grouping.lookup_of_mem_nodup hunique.1 h
  | null => cases h
  | bool value => cases h
  | number value => cases h
  | string value => cases h

variable {include? omit? : Option MaskNode} {whole : Bool} {place : String → Place}

def visitOf (include? omit? : Option MaskNode) (whole : Bool) (place : String → Place)
    (entry : String × JsonValue N) : Option (Task N) :=
  let selected := include?.bind fun mask ↦ mask.child entry.1
  let whole := whole || selected.any MaskNode.whole
  let excluded := omit?.bind fun mask ↦ mask.child entry.1
  if (whole = false ∧ selected.isNone) ∨ excluded.any MaskNode.whole then none
  else some (.visit ⟨entry.2, selected, excluded, whole, place entry.1⟩)

theorem entryTasks_eq (hunique : value.uniqueNames = true) (outer : Place) :
    entryTasks ⟨value, include?, omit?, whole, outer⟩ place =
      (entries value).filterMap (visitOf include? omit? whole place) := by
  rw [entryTasks, keys_eq, List.filterMap_map]
  refine List.filterMap_congr fun entry hentry ↦ ?_
  rw [Function.comp_apply, entryTask, visitOf, child_entries hunique hentry]
  rfl

/-- What an entry adds to the container that is being filled. -/
def addEntry (kept : List String → Bool) (place : String → Place) (container : Container N)
    (entry : String × JsonValue N) : Container N :=
  if kept [entry.1] then
    container.put (place entry.1) (keepWhere (fun path ↦ kept (entry.1 :: path)) entry.2)
  else container

theorem uniqueNames_entry (h : value.uniqueNames = true) (hentry : entry ∈ entries value) :
    entry.2.uniqueNames = true := by
  cases value with
  | array items =>
    obtain ⟨⟨item, index⟩, hmem, rfl⟩ := List.mem_map.mp hentry
    exact JsonValue.itemsUniqueNames_eq_true.mp h item (List.fst_mem_of_mem_zipIdx hmem)
  | object members =>
    rw [JsonValue.uniqueNames, Bool.and_eq_true] at h
    exact JsonValue.membersUniqueNames_eq_true.mp h.2 entry hentry
  | null => cases hentry
  | bool value => cases hentry
  | number value => cases hentry
  | string value => cases hentry

variable (items : List (JsonValue N))

theorem put_array (kept : List String → Bool) (start : ℕ) (done : List (JsonValue N)) :
    ((items.zipIdx start).map fun entry ↦ (entry.2.repr, entry.1)).foldl
        (addEntry kept fun _ ↦ .item) (.array done) =
      .array (done ++ keepItems kept start items) := by
  induction items generalizing start done with
  | nil => simp [keepItems]
  | cons item items ih =>
    rw [List.zipIdx_cons, List.map_cons, List.foldl_cons, addEntry, keepItems]
    split
    · rw [Container.put, ih, List.append_assoc, List.singleton_append]
    · exact ih _ _

variable (members : List (String × JsonValue N))

theorem put_object (kept : List String → Bool) (done : List (String × JsonValue N)) :
    members.foldl (addEntry kept .member) (.object done) =
      .object (done ++ keepMembers kept members) := by
  induction members generalizing done with
  | nil => simp [keepMembers]
  | cons member members ih =>
    rw [List.foldl_cons, addEntry, keepMembers]
    split
    · rw [Container.put, ih, List.append_assoc, List.singleton_append]
    · exact ih _

theorem putBelow_waiting {found : String × JsonValue N → Option (Task N)}
    (hfound : ∀ entry task, found entry = some task → ∃ visit, task = .visit visit)
    (waiting : List (String × JsonValue N)) (position : Place) (value : JsonValue N)
    (container : Container N) (outer : Place) (tasks : List (Task N)) :
    putBelow position value (waiting.filterMap found ++ .freeze container outer :: tasks) =
      waiting.filterMap found ++ .freeze (container.put position value) outer :: tasks := by
  induction waiting with
  | nil => rfl
  | cons entry waiting ih =>
    rw [List.filterMap_cons]
    cases htask : found entry with
    | none => exact ih
    | some task =>
      obtain ⟨visit, rfl⟩ := hfound entry task htask
      exact congrArg (Task.visit visit :: ·) ih

theorem visitOf_visit (entry : String × JsonValue N) (task : Task N)
    (h : visitOf include? omit? whole place entry = some task) : ∃ visit, task = .visit visit := by
  simp only [visitOf] at h
  split at h
  · cases h
  · cases h
    exact ⟨_, rfl⟩

/-- The turns of a visit end with the copy of its value put in its place. -/
def Copies (value : JsonValue N) : Prop :=
  ∀ (include? omit? : Option MaskNode) (whole : Bool) (position : Place) (tasks : List (Task N))
    (result : Option (JsonValue N)),
  ∃ needed ≤ turns value, ∀ more,
    drain (more + needed) ⟨.visit ⟨value, include?, omit?, whole, position⟩ :: tasks, result⟩ =
      drain more (Pending.put position (keepWhere (selects include? omit? whole) value)
        ⟨tasks, result⟩)

theorem copies_entries (include? omit? : Option MaskNode) (whole : Bool) {place : String → Place}
    (hplace : ∀ key, place key ≠ .result) (waiting : List (String × JsonValue N))
    (hcopies : ∀ entry ∈ waiting, Copies entry.2) (container : Container N) (outer : Place)
    (tasks : List (Task N)) (result : Option (JsonValue N)) :
    ∃ needed ≤ (waiting.map fun entry ↦ turns entry.2).sum, ∀ more,
      drain (more + needed)
        ⟨waiting.filterMap (visitOf include? omit? whole place) ++ .freeze container outer :: tasks,
          result⟩ =
        drain more
          ⟨.freeze (waiting.foldl (addEntry (selects include? omit? whole) place) container)
            outer :: tasks, result⟩ := by
  induction waiting generalizing container with
  | nil => exact ⟨0, le_rfl, fun _ ↦ rfl⟩
  | cons entry waiting ih =>
    obtain ⟨hentry, hwaiting⟩ := List.forall_mem_cons.mp hcopies
    rw [List.map_cons, List.sum_cons, List.filterMap_cons, List.foldl_cons]
    by_cases hdropped : ((whole || (include?.bind fun mask ↦ mask.child entry.1).any
          MaskNode.whole) = false ∧ (include?.bind fun mask ↦ mask.child entry.1).isNone) ∨
        (omit?.bind fun mask ↦ mask.child entry.1).any MaskNode.whole
    · have hnone : visitOf include? omit? whole place entry = none := if_pos hdropped
      have hkept : selects include? omit? whole [entry.1] = false := if_pos hdropped
      have hadd : addEntry (selects include? omit? whole) place container entry = container :=
        if_neg (by rw [hkept]; exact Bool.false_ne_true)
      obtain ⟨needed, hle, hrun⟩ := ih hwaiting container
      rw [hnone, hadd]
      exact ⟨needed, hle.trans (Nat.le_add_left _ _), hrun⟩
    · have hsome : visitOf include? omit? whole place entry = some (.visit ⟨entry.2,
          include?.bind fun mask ↦ mask.child entry.1, omit?.bind fun mask ↦ mask.child entry.1,
          whole || (include?.bind fun mask ↦ mask.child entry.1).any MaskNode.whole,
          place entry.1⟩) := if_neg hdropped
      have hkept : selects include? omit? whole [entry.1] = true := if_neg hdropped
      have hbelow : (fun path ↦ selects include? omit? whole (entry.1 :: path)) =
          selects (include?.bind fun mask ↦ mask.child entry.1)
            (omit?.bind fun mask ↦ mask.child entry.1)
            (whole || (include?.bind fun mask ↦ mask.child entry.1).any MaskNode.whole) :=
        funext fun path ↦ if_neg hdropped
      have hadd : addEntry (selects include? omit? whole) place container entry = container.put
          (place entry.1) (keepWhere (selects (include?.bind fun mask ↦ mask.child entry.1)
            (omit?.bind fun mask ↦ mask.child entry.1)
            (whole || (include?.bind fun mask ↦ mask.child entry.1).any MaskNode.whole))
            entry.2) := by
        rw [addEntry, if_pos hkept, hbelow]
      obtain ⟨first, hfirst, hcopy⟩ := hentry (include?.bind fun mask ↦ mask.child entry.1)
        (omit?.bind fun mask ↦ mask.child entry.1)
        (whole || (include?.bind fun mask ↦ mask.child entry.1).any MaskNode.whole) (place entry.1)
        (waiting.filterMap (visitOf include? omit? whole place) ++ .freeze container outer :: tasks)
        result
      obtain ⟨needed, hle, hrun⟩ := ih hwaiting
        (addEntry (selects include? omit? whole) place container entry)
      refine ⟨needed + first, by omega, fun more ↦ ?_⟩
      rw [hsome, ← Nat.add_assoc, List.cons_append, hcopy, ← hrun more, hadd]
      congr 1
      unfold Pending.put
      split
      · next hresult => exact absurd hresult (hplace _)
      · rw [putBelow_waiting visitOf_visit]

theorem itemsTurns_eq (start : ℕ) :
    itemsTurns items = (((items.zipIdx start).map fun entry ↦ (entry.2.repr, entry.1)).map
      fun entry ↦ turns entry.2).sum := by
  induction items generalizing start with
  | nil => rfl
  | cons item items ih =>
    rw [itemsTurns, List.zipIdx_cons, List.map_cons, List.map_cons, List.sum_cons, ← ih]

theorem membersTurns_eq : membersTurns members = (members.map fun entry ↦ turns entry.2).sum := by
  induction members with
  | nil => rfl
  | cons member members ih => rw [membersTurns, List.map_cons, List.sum_cons, ih]

theorem copies (value : JsonValue N) (hunique : value.uniqueNames = true) : Copies value := by
  induction value using value_induct with
  | null => exact fun _ _ _ _ _ _ ↦ ⟨1, le_rfl, fun _ ↦ rfl⟩
  | bool value => exact fun _ _ _ _ _ _ ↦ ⟨1, le_rfl, fun _ ↦ rfl⟩
  | number value => exact fun _ _ _ _ _ _ ↦ ⟨1, le_rfl, fun _ ↦ rfl⟩
  | string value => exact fun _ _ _ _ _ _ ↦ ⟨1, le_rfl, fun _ ↦ rfl⟩
  | array items ih =>
    intro include? omit? whole position tasks result
    have hentries : ∀ entry ∈ entries (.array items), Copies entry.2 := by
      intro entry hentry
      have hmem : entry.2 ∈ items := by
        obtain ⟨⟨item, index⟩, hmem, rfl⟩ := List.mem_map.mp hentry
        exact List.fst_mem_of_mem_zipIdx hmem
      exact ih entry.2 hmem (uniqueNames_entry hunique hentry)
    obtain ⟨needed, hle, hrun⟩ := copies_entries include? omit? whole
      (fun _ ↦ (nofun : Place.item ≠ .result)) (entries (.array items)) hentries (.array [])
      position tasks result
    rw [entries, ← itemsTurns_eq] at hle
    refine ⟨1 + needed + 1, by rw [turns]; omega, fun more ↦ ?_⟩
    calc drain (more + (1 + needed + 1)) _
        = drain (more + 1 + needed) ⟨entryTasks ⟨.array items, include?, omit?, whole, position⟩
            (fun _ ↦ .item) ++ .freeze (.array []) position :: tasks, result⟩ := by
          rw [← Nat.add_assoc, ← Nat.add_assoc]
          rfl
      _ = drain (more + 1) ⟨.freeze (.array (keepItems (selects include? omit? whole) 0 items))
            position :: tasks, result⟩ := by
          rw [entryTasks_eq hunique, hrun, entries, put_array, List.nil_append]
      _ = _ := rfl
  | object members ih =>
    intro include? omit? whole position tasks result
    have hentries : ∀ entry ∈ entries (.object members), Copies entry.2 :=
      fun entry hentry ↦ ih entry hentry (uniqueNames_entry hunique hentry)
    obtain ⟨needed, hle, hrun⟩ := copies_entries include? omit? whole
      (fun name ↦ (nofun : Place.member name ≠ .result)) (entries (.object members)) hentries
      (.object []) position tasks result
    rw [entries, ← membersTurns_eq] at hle
    refine ⟨1 + needed + 1, by rw [turns]; omega, fun more ↦ ?_⟩
    calc drain (more + (1 + needed + 1)) _
        = drain (more + 1 + needed) ⟨entryTasks ⟨.object members, include?, omit?, whole, position⟩
            .member ++ .freeze (.object []) position :: tasks, result⟩ := by
          rw [← Nat.add_assoc, ← Nat.add_assoc]
          rfl
      _ = drain (more + 1) ⟨.freeze (.object (keepMembers (selects include? omit? whole) members))
            position :: tasks, result⟩ := by
          rw [entryTasks_eq hunique, hrun, entries, put_object, List.nil_append]
      _ = _ := rfl

end Run

section Pointers

variable {original : JsonValue N} {includes others : Option (List (List String))}
  {omits : List (List String)} {path : List String}

/-- A location is kept when an included pointer that exists is at, above or under it, and no omitted
pointer is at or above it. -/
def Kept (original : JsonValue N) (includes : Option (List (List String)))
    (omits : List (List String)) (path : List String) : Prop :=
  (∀ pointers ∈ includes, ∃ included ∈ pointers, (locate original included).isSome ∧
    (included <+: path ∨ path <+: included)) ∧
  ∀ omitted ∈ omits, ¬ omitted <+: path

instance : DecidablePred (Kept original includes omits) := fun path ↦
  match includes with
  | none => decidable_of_iff (∀ omitted ∈ omits, ¬ omitted <+: path) (by simp [Kept])
  | some pointers => decidable_of_iff
      ((∃ included ∈ pointers, (locate original included).isSome ∧
        (included <+: path ∨ path <+: included)) ∧ ∀ omitted ∈ omits, ¬ omitted <+: path)
      (by simp [Kept])

/-- Two lists of pointers with the same topmost ones. -/
def SameCoverage (pointers others : List (List String)) : Prop :=
  (∀ pointer ∈ pointers, ∃ other ∈ others, other <+: pointer) ∧
    ∀ other ∈ others, ∃ pointer ∈ pointers, pointer <+: other

theorem SameCoverage.symm {pointers others : List (List String)}
    (h : SameCoverage pointers others) : SameCoverage others pointers := ⟨h.2, h.1⟩

theorem locate_of_prefix {value : JsonValue N} {above : List String} (habove : above <+: path)
    (h : (locate value path).isSome) : (locate value above).isSome := by
  induction above generalizing value path with
  | nil => rfl
  | cons key above ih =>
    obtain ⟨rest, rfl⟩ := habove
    rw [List.cons_append, locate] at h
    obtain ⟨found, hfound⟩ := Option.isSome_iff_exists.mp h
    obtain ⟨entry, hentry, hlocated⟩ := Option.bind_eq_some_iff.mp hfound
    rw [locate, hentry]
    exact ih (List.prefix_append above rest) (Option.isSome_iff_exists.mpr ⟨found, hlocated⟩)

theorem Kept.of_sameCoverage {omits' : List (List String)}
    (h : Kept original includes omits path) (hincludes : Option.Rel SameCoverage includes others)
    (homits : SameCoverage omits omits') : Kept original others omits' path := by
  constructor
  · rintro pointers' hothers
    cases hincludes with
    | none => cases hothers
    | some hcoverage =>
      cases hothers
      obtain ⟨included, hmem, hexists, hrelated⟩ := h.1 _ rfl
      obtain ⟨topmost, htopmost, habove⟩ := hcoverage.1 included hmem
      refine ⟨topmost, htopmost, locate_of_prefix habove hexists, ?_⟩
      obtain hunder | hover := hrelated
      · exact .inl (habove.trans hunder)
      · exact List.prefix_or_prefix_of_prefix habove hover
  · intro omitted homitted hunder
    obtain ⟨topmost, htopmost, habove⟩ := homits.2 omitted homitted
    exact h.2 topmost htopmost (habove.trans hunder)

theorem selects_masks (homits : omits.any List.isEmpty = false) (hpath : path ≠ []) :
    selects (some (includeMask original includes)) (some (omits.foldl MaskNode.insert .empty))
        (includeMask original includes).whole path =
      decide (Kept original includes omits path) := by
  have hwhole : (omits.foldl MaskNode.insert .empty).whole = false := by
    have hcovers : (omits.foldl MaskNode.insert .empty).covers [] = omits.any List.isEmpty := by
      rw [MaskNode.covers_foldl, MaskNode.covers_empty, Bool.false_or]
      congr 1
      funext omitted
      cases omitted <;> rfl
    exact hcovers.trans homits
  have homitted : (some (omits.foldl MaskNode.insert .empty)).any MaskNode.whole = false := hwhole
  have hincluded : (some (includeMask original includes)).any MaskNode.whole = true →
      (includeMask original includes).whole = true := fun h ↦ h
  rw [selects_eq hincluded homitted, decide_eq_false hpath, Bool.false_or, Option.any_some,
    Option.any_some, MaskNode.covers_foldl, MaskNode.covers_empty, Bool.false_or]
  have hreaches : ((includeMask original includes).whole ||
      (includeMask original includes).reaches path) = true ↔
      ∀ pointers ∈ includes, ∃ included ∈ pointers, (locate original included).isSome ∧
        (included <+: path ∨ path <+: included) := by
    cases includes with
    | none => exact ⟨fun _ ↦ nofun, fun _ ↦ rfl⟩
    | some pointers =>
      have habsorbed : ((includeMask original (some pointers)).whole ||
          (includeMask original (some pointers)).reaches path) =
          (includeMask original (some pointers)).reaches path := by
        cases hmask : (includeMask original (some pointers)).whole with
        | true => rw [MaskNode.reaches_of_whole hmask, Bool.or_true]
        | false => rw [Bool.false_or]
      rw [habsorbed, includeMask, MaskNode.reaches_foldl, MaskNode.reaches_empty,
        decide_eq_false hpath, Bool.false_or]
      simp [exists?]
  rw [Bool.eq_iff_iff, Bool.and_eq_true, hreaches, decide_eq_true_eq, Kept]
  simp

end Pointers

theorem project_eq (value : Properties N) (masks : CanonicalPropertiesMasks) :
    projectCanonicalProperties value masks = (decodedMasks masks).map fun decoded ↦ some (keepWhere
        (fun path ↦ decide (Kept (.object value.members) decoded.1 decoded.2 path))
        (.object value.members)) := by
  rw [projectCanonicalProperties]
  cases hdecoded : decodedMasks masks with
  | error message => rfl
  | ok decoded =>
    obtain ⟨includes, omits⟩ := decoded
    have homits : omits.any List.isEmpty = false := by
      rw [decodedMasks, Except.bind_eq_ok] at hdecoded
      obtain ⟨_, -, hdecoded⟩ := hdecoded
      obtain ⟨_, -, hdecoded⟩ := Except.bind_eq_ok.mp hdecoded
      obtain ⟨hnonempty, hdecoded⟩ := check_bind_eq_ok.mp hdecoded
      cases hdecoded
      exact hnonempty
    obtain ⟨needed, hle, hrun⟩ := copies (.object value.members) value.unique
      (some (includeMask (.object value.members) includes))
      (some (omits.foldl MaskNode.insert .empty))
      (includeMask (.object value.members) includes).whole .result [] none
    have hturns : turns (.object value.members) + 1 =
        (turns (.object value.members) - needed + 1) + needed := by omega
    rw [Except.ok_bind]
    simp only [Except.map, hturns, hrun]
    rw [keepWhere_congr (.object value.members) fun path hpath ↦ selects_masks homits hpath]
    rfl

/-- A projection keeps exactly the locations that are kept by the pointers, and depends on nothing
else about the two lists. -/
theorem projectCanonicalProperties_keeps (value : Properties N) (masks : CanonicalPropertiesMasks) :
    projectCanonicalProperties value masks =
      (decodedMasks masks).map (fun decoded ↦ some (keepWhere
        (fun path ↦ decide (Kept (.object value.members) decoded.1 decoded.2 path))
        (.object value.members))) ∧
    ∀ others includes omits includes' omits', decodedMasks masks = .ok (includes, omits) →
      decodedMasks others = .ok (includes', omits') →
      Option.Rel SameCoverage includes includes' → SameCoverage omits omits' →
      projectCanonicalProperties value others = projectCanonicalProperties value masks := by
  refine ⟨project_eq value masks, ?_⟩
  intro others includes omits includes' omits' hmasks hothers hincludes homits
  rw [project_eq, project_eq, hmasks, hothers]
  have hsame : ∀ path, decide (Kept (.object value.members) includes' omits' path) =
      decide (Kept (.object value.members) includes omits path) := by
    intro path
    refine decide_eq_decide.mpr ⟨fun h ↦ h.of_sameCoverage ?_ homits.symm,
      fun h ↦ h.of_sameCoverage hincludes homits⟩
    cases hincludes with
    | none => exact .none
    | some hcoverage => exact .some hcoverage.symm
  simp only [Except.map, hsame]

end Bdp.Projection
