import Mathlib

/-!
# Grouping by a key

Items put one after another into the group of their key. A group that is listed already takes the
item at its end, and a new one is listed last. Keys are listed once, and the group of a key holds
exactly the items of that key, in their order. Sorted groups of items with distinct names are
determined by what they hold.
-/

namespace Bdp.Grouping

variable {α κ : Type} [DecidableEq κ] (key : α → κ)

/-- Put an item into the group of its key. -/
def put (groups : List (κ × List α)) (item : α) : List (κ × List α) :=
  if groups.any fun group ↦ group.1 == key item then
    groups.map fun group ↦ if group.1 == key item then (group.1, group.2 ++ [item]) else group
  else groups ++ [(key item, [item])]

variable {key} {groups : List (κ × List α)} {item : α} {items : List α} {name : κ} {members : List α}

theorem any_key_iff : (groups.any fun group ↦ group.1 == name) = true ↔
    name ∈ groups.map Prod.fst := by
  rw [List.any_eq_true, List.mem_map]
  simp only [beq_iff_eq]

theorem map_fst_put : (put key groups item).map Prod.fst =
    if key item ∈ groups.map Prod.fst then groups.map Prod.fst
    else groups.map Prod.fst ++ [key item] := by
  unfold put
  by_cases hmem : key item ∈ groups.map Prod.fst
  · rw [if_pos (any_key_iff.mpr hmem), if_pos hmem, List.map_map]
    refine List.map_congr_left fun group _ ↦ ?_
    rw [Function.comp_apply]
    split <;> rfl
  · rw [if_neg (any_key_iff.not.mpr hmem), if_neg hmem, List.map_append]
    rfl

theorem mem_put (h : (name, members) ∈ put key groups item) :
    name = key item ∧ (∃ before, (name, before) ∈ groups ∧ members = before ++ [item]) ∨
      name = key item ∧ key item ∉ groups.map Prod.fst ∧ members = [item] ∨
      name ≠ key item ∧ (name, members) ∈ groups := by
  unfold put at h
  split at h
  · obtain ⟨group, hgroup, heq⟩ := List.mem_map.mp h
    split at heq
    next hname =>
      obtain ⟨rfl, rfl⟩ := Prod.mk.inj heq
      exact .inl ⟨eq_of_beq hname, group.2, hgroup, rfl⟩
    next hname =>
      subst heq
      exact .inr (.inr ⟨fun heq ↦ hname (beq_iff_eq.mpr heq), hgroup⟩)
  next hany =>
    have hnew : key item ∉ groups.map Prod.fst := any_key_iff.not.mp hany
    obtain hold | hlast := List.mem_append.mp h
    · refine .inr (.inr ⟨?_, hold⟩)
      rintro rfl
      exact hnew (List.mem_map.mpr ⟨_, hold, rfl⟩)
    · obtain ⟨rfl, rfl⟩ := Prod.mk.inj (List.mem_singleton.mp hlast)
      exact .inr (.inl ⟨rfl, hnew, rfl⟩)

/-- Grouping lists the keys that were listed before and those of the items. -/
theorem mem_keys_foldl : name ∈ (items.foldl (put key) groups).map Prod.fst ↔
    name ∈ groups.map Prod.fst ∨ ∃ item ∈ items, key item = name := by
  induction items generalizing groups with
  | nil => simp
  | cons item items ih =>
    rw [List.foldl_cons, ih, map_fst_put]
    split
    next hmem =>
      constructor
      · rintro (h | ⟨other, hother, hkey⟩)
        · exact .inl h
        · exact .inr ⟨other, List.mem_cons_of_mem _ hother, hkey⟩
      · rintro (h | ⟨other, hother, hkey⟩)
        · exact .inl h
        · obtain rfl | hother := List.mem_cons.mp hother
          · exact .inl (hkey ▸ hmem)
          · exact .inr ⟨other, hother, hkey⟩
    next =>
      rw [List.mem_append, List.mem_singleton]
      constructor
      · rintro ((h | rfl) | ⟨other, hother, hkey⟩)
        · exact .inl h
        · exact .inr ⟨item, List.mem_cons_self, rfl⟩
        · exact .inr ⟨other, List.mem_cons_of_mem _ hother, hkey⟩
      · rintro (h | ⟨other, hother, hkey⟩)
        · exact .inl (.inl h)
        · obtain rfl | hother := List.mem_cons.mp hother
          · exact .inl (.inr hkey.symm)
          · exact .inr ⟨other, hother, hkey⟩

theorem nodup_keys_foldl (h : (groups.map Prod.fst).Nodup) :
    ((items.foldl (put key) groups).map Prod.fst).Nodup := by
  induction items generalizing groups with
  | nil => exact h
  | cons item items ih =>
    refine ih ?_
    rw [map_fst_put]
    split
    next => exact h
    next hnew =>
      rw [List.nodup_append]
      refine ⟨h, List.nodup_singleton _, ?_⟩
      rintro other hother _ hlast rfl
      exact hnew (List.mem_singleton.mp hlast ▸ hother)

/-- Empty groups, once each, take exactly the items of their key. -/
theorem mem_foldl_group (hempty : ∀ group ∈ groups, group.2 = [])
    (h : (name, members) ∈ items.foldl (put key) groups) :
    members = items.filter fun item ↦ key item = name := by
  induction items using List.reverseRecOn generalizing members with
  | nil => exact hempty _ h
  | append_singleton items item ih =>
    rw [List.foldl_append, List.foldl_cons, List.foldl_nil] at h
    rw [List.filter_append]
    obtain ⟨rfl, before, hbefore, rfl⟩ | ⟨rfl, hnew, rfl⟩ | ⟨hne, hold⟩ := mem_put h
    · rw [ih hbefore]
      simp
    · have hnone : items.filter (fun other ↦ key other = key item) = [] := by
        rw [List.filter_eq_nil_iff]
        intro other hother hkey
        exact hnew (mem_keys_foldl.mpr (.inr ⟨other, hother, of_decide_eq_true hkey⟩))
      rw [hnone]
      simp
    · rw [ih hold]
      simp [Ne.symm hne]

section Sorting

variable {ι : Type} [LinearOrder ι] (rank : α → ι)

/-- Sort items by rank. -/
def sortBy (items : List α) : List α :=
  items.insertionSort fun left right ↦ rank left ≤ rank right

variable {rank}

theorem mem_sortBy : item ∈ sortBy rank items ↔ item ∈ items := List.mem_insertionSort _

/-- Items of distinct ranks are sorted strictly. -/
theorem sortBy_strict (h : (items.map rank).Nodup) :
    (sortBy rank items).Pairwise fun left right ↦ rank left < rank right := by
  have hsorted : (sortBy rank items).Pairwise fun left right ↦ rank left ≤ rank right := by
    have htotal : Std.Total fun left right : α ↦ rank left ≤ rank right :=
      ⟨fun left right ↦ le_total (rank left) (rank right)⟩
    have htrans : IsTrans α fun left right ↦ rank left ≤ rank right := ⟨fun _ _ _ ↦ le_trans⟩
    exact List.pairwise_insertionSort _ items
  have hnodup : ((sortBy rank items).map rank).Nodup :=
    ((List.perm_insertionSort _ items).map rank).nodup_iff.mpr h
  rw [List.nodup_iff_pairwise_ne, List.pairwise_map] at hnodup
  exact hsorted.imp₂ (fun _ _ hle hne ↦ lt_of_le_of_ne hle hne) hnodup

/-- A strictly sorted list is the sorted form of every list with the same items, each once. -/
theorem eq_sortBy {sorted items : List ι} (hsorted : sorted.Pairwise (· < ·))
    (hnodup : items.Nodup) (hmem : ∀ item, item ∈ sorted ↔ item ∈ items) :
    sorted = sortBy (fun item ↦ item) items := by
  have hstrict : (sortBy (fun item ↦ item) items).Pairwise (· < ·) := by
    refine sortBy_strict ?_
    rwa [List.map_id']
  have hperm : sorted.Perm (sortBy (fun item ↦ item) items) := by
    refine (List.perm_ext_iff_of_nodup (hsorted.imp ne_of_lt) (hstrict.imp ne_of_lt)).mpr ?_
    intro item
    rw [hmem, mem_sortBy]
  refine hperm.eq_of_pairwise ?_ hsorted hstrict
  intro first second _ _ hlt hgt
  exact absurd hgt (lt_asymm hlt)

end Sorting

section Picking

variable {α β κ : Type}

/-- The value of a key that is listed once. -/
theorem lookup_of_mem_nodup [BEq κ] [LawfulBEq κ] {entries : List (κ × β)} {key : κ} {value : β}
    (hnodup : (entries.map Prod.fst).Nodup) (hmem : (key, value) ∈ entries) :
    entries.lookup key = some value := by
  induction entries with
  | nil => cases hmem
  | cons entry entries ih =>
    obtain ⟨hnew, hnodup⟩ := List.nodup_cons.mp hnodup
    rw [List.lookup_cons]
    obtain rfl | hmem := List.mem_cons.mp hmem
    · simp
    · have hne : ¬ key == entry.1 := by
        intro heq
        exact hnew (List.mem_map.mpr ⟨_, hmem, eq_of_beq heq⟩)
      simp only [hne]
      exact ih hnodup hmem

/-- What is picked of distinct items is distinct. -/
theorem sublist_filterMap {pick : α → Option β} {name : α → κ} {name' : β → κ}
    (h : ∀ item picked, pick item = some picked → name' picked = name item) (items : List α) :
    ((items.filterMap pick).map name').Sublist (items.map name) := by
  induction items with
  | nil => exact .slnil
  | cons item items ih =>
    cases hpick : pick item with
    | none =>
      rw [List.filterMap_cons_none hpick]
      exact ih.cons _
    | some picked =>
      rw [List.filterMap_cons_some hpick, List.map_cons, List.map_cons, h item picked hpick]
      exact ih.cons_cons _

end Picking

end Bdp.Grouping
