import Bdp.Conformance.TypeConformance

/-!
# The work of the conformance walk

Every part of the index is a lawful metered computation, and every turn of the walk leaves less to
do: a frame has parents left to look at, and a Type that was not yet met has all of its parents.
-/

namespace Bdp.Conformance

open Metered
open List (map_cons sum_cons)

variable {byId : ById} {walk after : Walk} {frame : Frame} {below : List Frame}
  {limits : Option (Counter → ℕ)} {counts readings : Counter → ℕ}

variable (descriptors : List TypeDescriptor)

section Lawful

theorem lawful_push (id : String) : Lawful (push byId id walk) :=
  (lawful_raise _ _ _).bind fun _ ↦ lawful_pure _

theorem lawful_descend (parent : String) : Lawful (descend byId frame below parent walk) := by
  refine (lawful_lift _).bind fun _ ↦ ?_
  split
  · exact lawful_pure _
  · exact lawful_push parent

theorem lawful_addEffective (result : List String) (effective : String) :
    Lawful (addEffective result effective) := by
  refine (lawful_charge _ _).bind fun _ ↦ ?_
  split
  · exact lawful_pure _
  · exact (lawful_charge _ _).bind fun _ ↦ lawful_pure _

theorem lawful_inherit (effectiveTypes : String → Option (List String)) (result : List String)
    (parent : String) : Lawful (inherit effectiveTypes result parent) :=
  (lawful_lift _).bind fun inherited ↦ lawful_foldlM lawful_addEffective inherited result

theorem lawful_complete : Lawful (complete frame below walk) :=
  (lawful_raise _ _ _).bind fun _ ↦ (lawful_charge _ _).bind fun _ ↦
    (lawful_foldlM (lawful_inherit _) _ _).bind fun _ ↦ lawful_pure _

theorem lawful_turn : Lawful (turn byId frame below walk) := by
  unfold turn
  split
  · exact lawful_descend _
  · exact lawful_complete

theorem lawful_drain (turns : ℕ) (walk : Walk) : Lawful (drain byId turns walk) := by
  induction turns generalizing walk with
  | zero =>
    unfold drain
    split
    · exact lawful_pure _
    · exact lawful_lift _
  | succ turns ih =>
    unfold drain
    split
    · exact lawful_pure _
    · exact lawful_turn.bind ih

theorem lawful_visitRoot (walk : Walk) (id : String) : Lawful (visitRoot byId walk id) := by
  unfold visitRoot
  split
  · exact lawful_pure _
  · exact (lawful_push id).bind (lawful_drain _)

theorem lawful_buildIndex : Lawful (buildIndex descriptors) := by
  refine (lawful_foldlM (fun byId descriptor ↦ ?_) _ _).bind fun byId ↦
    (lawful_forM (fun descriptor ↦ lawful_forM (fun parentId ↦ ?_) _) _).bind fun _ ↦
      lawful_foldlM lawful_visitRoot _ _
  · exact (lawful_lift _).bind fun _ ↦ (lawful_charge _ _).bind fun _ ↦ lawful_pure _
  · exact (lawful_charge _ _).bind fun _ ↦ (lawful_lift _).bind fun _ ↦ lawful_lift _

end Lawful

section Weight

def Frame.weight (frame : Frame) : ℕ := 2 * (frame.parents.length - frame.next) + 1

/-- The installed Types that the walk has not met. -/
def Walk.pending (byId : ById) (walk : Walk) : Finset String :=
  (byId.map TypeDescriptor.id).toFinset.filter fun id ↦
    id ∉ walk.visiting ∧ walk.effectiveTypes id = none

/-- What is left to do for the frames and for the Types not yet met. -/
def Walk.weight (byId : ById) (walk : Walk) : ℕ :=
  (walk.frames.map Frame.weight).sum +
    ∑ id ∈ walk.pending byId, (2 * (byId.parents id).length + 2)

variable {id : String}

theorem parents_of_not_mem (h : id ∉ byId.map TypeDescriptor.id) : byId.parents id = [] := by
  have hnone : byId.get id = none := by
    refine List.find?_eq_none.mpr fun descriptor hmem heq ↦ h ?_
    exact List.mem_map.mpr ⟨descriptor, hmem, of_decide_eq_true heq⟩
  rw [ById.parents, hnone]
  rfl

theorem weight_push (hnew : id ∉ walk.visiting) (hopen : walk.effectiveTypes id = none)
    (h : runUnder (push byId id walk) limits counts = .ok (after, readings)) :
    after.weight byId ≤ walk.weight byId + 1 := by
  obtain ⟨_, _, -, hafter⟩ := runUnder_bind_eq_ok.mp h
  obtain rfl := (Prod.mk.inj (Except.ok.inj hafter)).1
  have hpending : (walk.enter byId id).pending byId = (walk.pending byId).erase id := by
    ext other
    simp only [Walk.pending, Walk.enter, Finset.mem_filter, Finset.mem_insert, Finset.mem_erase,
      not_or]
    tauto
  rw [Walk.weight, hpending]
  simp only [Walk.weight, Walk.enter, map_cons, sum_cons, Frame.weight, Nat.sub_zero]
  by_cases hinstalled : id ∈ byId.map TypeDescriptor.id
  · have hmem : id ∈ walk.pending byId :=
      Finset.mem_filter.mpr ⟨List.mem_toFinset.mpr hinstalled, hnew, hopen⟩
    have := Finset.add_sum_erase (walk.pending byId)
      (fun id ↦ 2 * (byId.parents id).length + 2) hmem
    omega
  · have hle := Finset.sum_le_sum_of_subset (f := fun id ↦ 2 * (byId.parents id).length + 2)
      ((walk.pending byId).erase_subset id)
    rw [parents_of_not_mem hinstalled, List.length_nil]
    omega

theorem weight_complete
    (h : runUnder (complete frame below walk) limits counts = .ok (after, readings))
    (hframes : walk.frames = frame :: below) : after.weight byId < walk.weight byId := by
  obtain ⟨_, _, -, h⟩ := runUnder_bind_eq_ok.mp h
  obtain ⟨_, _, -, h⟩ := runUnder_bind_eq_ok.mp h
  obtain ⟨result, _, -, h⟩ := runUnder_bind_eq_ok.mp h
  obtain rfl := (Prod.mk.inj (Except.ok.inj h)).1
  have hpending : (walk.settle frame below result (depthOf walk.depths frame.parents)).pending byId
      ⊆ walk.pending byId := by
    intro other hother
    obtain ⟨hinstalled, hvisiting, hopen⟩ := Finset.mem_filter.mp hother
    have hne : other ≠ frame.id := by
      rintro rfl
      exact nomatch (Function.update_self ..).symm.trans hopen
    have hopen := (Function.update_of_ne hne ..).symm.trans hopen
    exact Finset.mem_filter.mpr
      ⟨hinstalled, fun hmem ↦ hvisiting (Finset.mem_erase.mpr ⟨hne, hmem⟩), hopen⟩
  have hle := Finset.sum_le_sum_of_subset (f := fun id ↦ 2 * (byId.parents id).length + 2) hpending
  simp only [Walk.weight, hframes, map_cons, sum_cons, Frame.weight]
  change (below.map Frame.weight).sum + _ < _
  omega

theorem weight_descend {parent : String} (hparent : frame.parents[frame.next]? = some parent)
    (h : runUnder (descend byId frame below parent walk) limits counts = .ok (after, readings))
    (hframes : walk.frames = frame :: below) : after.weight byId < walk.weight byId := by
  obtain ⟨_, _, hcheck, h⟩ := runUnder_bind_eq_ok.mp h
  have hnew := check_eq_ok.mp (runUnder_lift_eq_ok.mp hcheck).1
  have hlt : frame.next < frame.parents.length := (List.getElem?_eq_some_iff.mp hparent).1
  have hadvanced : (walk.advance frame below).weight byId + 2 = walk.weight byId := by
    have hpending : (walk.advance frame below).pending byId = walk.pending byId := rfl
    rw [Walk.weight, hpending]
    simp only [Walk.weight, Walk.advance, hframes, map_cons, sum_cons, Frame.weight]
    omega
  split at h
  · obtain rfl := (Prod.mk.inj (Except.ok.inj h)).1
    omega
  · next hopen =>
    have hle : after.weight byId ≤ (walk.advance frame below).weight byId + 1 :=
      weight_push hnew (Option.not_isSome_iff_eq_none.mp hopen) h
    omega

theorem weight_turn
    (h : runUnder (turn byId frame below walk) limits counts = .ok (after, readings))
    (hframes : walk.frames = frame :: below) : after.weight byId < walk.weight byId := by
  unfold turn at h
  split at h
  · next hparent => exact weight_descend hparent h hframes
  · exact weight_complete h hframes

theorem weight_pos (h : walk.frames = frame :: below) : 0 < walk.weight byId := by
  simp only [Walk.weight, h, map_cons, sum_cons, Frame.weight]
  omega

theorem sum_toFinset_le (ids : List String) (weight : String → ℕ) :
    ∑ id ∈ ids.toFinset, weight id ≤ (ids.map weight).sum := by
  induction ids with
  | nil => exact le_rfl
  | cons first ids ih =>
    rw [List.toFinset_cons, map_cons, sum_cons]
    by_cases h : first ∈ ids.toFinset
    · rw [Finset.insert_eq_of_mem h]
      omega
    · rw [Finset.sum_insert h]
      omega

theorem weight_root (hframes : walk.frames = []) (hnew : id ∉ walk.visiting)
    (hopen : walk.effectiveTypes id = none)
    (h : runUnder (push byId id walk) limits counts = .ok (after, readings)) :
    after.weight byId ≤ turnBound byId := by
  refine (weight_push hnew hopen h).trans (Nat.succ_le_succ ?_)
  simp only [Walk.weight, hframes, List.map_nil, List.sum_nil, Nat.zero_add]
  calc ∑ id ∈ walk.pending byId, (2 * (byId.parents id).length + 2)
      ≤ ∑ id ∈ (byId.map TypeDescriptor.id).toFinset, (2 * (byId.parents id).length + 2) :=
        Finset.sum_le_sum_of_subset (Finset.filter_subset _ _)
    _ ≤ ((byId.map TypeDescriptor.id).map fun id ↦ 2 * (byId.parents id).length + 2).sum :=
        sum_toFinset_le _ _
    _ = _ := by rw [List.map_map]; rfl

end Weight

variable {turns : ℕ}

section Stacked

/-- Only Types with a frame are being visited. -/
def Walk.Stacked (walk : Walk) : Prop := ∀ id ∈ walk.visiting, id ∈ walk.frames.map Frame.id

section

variable (hstacked : walk.Stacked)
include hstacked

theorem stacked_push {id : String}
    (h : runUnder (push byId id walk) limits counts = .ok (after, readings)) : after.Stacked := by
  obtain ⟨_, _, -, h⟩ := runUnder_bind_eq_ok.mp h
  obtain rfl := (Prod.mk.inj (Except.ok.inj h)).1
  intro other hother
  obtain rfl | hother := Finset.mem_insert.mp hother
  · exact List.mem_cons_self
  · exact List.mem_cons_of_mem _ (hstacked other hother)

theorem stacked_turn (hframes : walk.frames = frame :: below)
    (h : runUnder (turn byId frame below walk) limits counts = .ok (after, readings)) :
    after.Stacked := by
  have hvisited : ∀ id ∈ walk.visiting, id = frame.id ∨ id ∈ below.map Frame.id := by
    intro id hid
    have hmem := hstacked id hid
    rw [hframes, map_cons] at hmem
    exact List.mem_cons.mp hmem
  unfold turn at h
  split at h
  · obtain ⟨_, _, -, h⟩ := runUnder_bind_eq_ok.mp h
    have hadvanced : (walk.advance frame below).Stacked := fun id hid ↦
      List.mem_cons.mpr (hvisited id hid)
    split at h
    · obtain rfl := (Prod.mk.inj (Except.ok.inj h)).1
      exact hadvanced
    · exact stacked_push hadvanced h
  · obtain ⟨_, _, -, h⟩ := runUnder_bind_eq_ok.mp h
    obtain ⟨_, _, -, h⟩ := runUnder_bind_eq_ok.mp h
    obtain ⟨result, _, -, h⟩ := runUnder_bind_eq_ok.mp h
    obtain rfl := (Prod.mk.inj (Except.ok.inj h)).1
    intro id hid
    obtain ⟨hne, hid⟩ := Finset.mem_erase.mp hid
    exact (hvisited id hid).resolve_left hne

theorem stacked_drain (h : runUnder (drain byId turns walk) limits counts = .ok (after, readings)) :
    after.Stacked ∧ after.frames = [] := by
  induction turns generalizing walk counts with
  | zero =>
    unfold drain at h
    split at h
    · next hframes =>
      obtain rfl := (Prod.mk.inj (Except.ok.inj h)).1
      exact ⟨hstacked, hframes⟩
    · exact nomatch h
  | succ turns ih =>
    unfold drain at h
    split at h
    · next hframes =>
      obtain rfl := (Prod.mk.inj (Except.ok.inj h)).1
      exact ⟨hstacked, hframes⟩
    · next hframes =>
      obtain ⟨middle, _, hturn, hrest⟩ := runUnder_bind_eq_ok.mp h
      exact ih (stacked_turn hstacked hframes hturn) hrest

end

def Walk.Resting (walk : Walk) : Prop := walk.Stacked ∧ walk.frames = []

theorem Walk.Resting.not_visiting (h : walk.Resting) (id : String) : id ∉ walk.visiting := by
  intro hid
  have hmem := h.1 id hid
  rw [h.2] at hmem
  cases hmem

theorem resting_empty : Walk.empty.Resting := ⟨nofun, rfl⟩

theorem resting_visitRoot {id : String} (hresting : walk.Resting)
    (h : runUnder (visitRoot byId walk id) limits counts = .ok (after, readings)) :
    after.Resting := by
  unfold visitRoot at h
  split at h
  · obtain rfl := (Prod.mk.inj (Except.ok.inj h)).1
    exact hresting
  · obtain ⟨middle, _, hpush, hdrain⟩ := runUnder_bind_eq_ok.mp h
    exact stacked_drain (stacked_push hresting.1 hpush) hdrain

end Stacked

section Finishes

def Genuine (failure : Failure) : Prop := failure ≠ .unfinished

theorem genuine_push (id : String) : Raises Genuine (push byId id walk) :=
  (raises_raise nofun).bind fun _ ↦ raises_pure _

theorem genuine_turn : Raises Genuine (turn byId frame below walk) := by
  unfold turn
  split
  · refine (raises_lift (errorsIn_check nofun)).bind fun _ ↦ ?_
    split
    · exact raises_pure _
    · exact genuine_push _
  · refine (raises_raise nofun).bind fun _ ↦ (raises_charge nofun).bind fun _ ↦
      (raises_foldlM (fun result parent ↦ ?_) _ _).bind fun _ ↦ raises_pure _
    refine (raises_lift (errorsIn_require nofun)).bind fun inherited ↦
      raises_foldlM (fun result effective ↦ ?_) _ _
    refine (raises_charge nofun).bind fun _ ↦ ?_
    split
    · exact raises_pure _
    · exact (raises_charge nofun).bind fun _ ↦ raises_pure _

theorem genuine_drain (h : walk.weight byId ≤ turns) :
    ErrorsIn Genuine (runUnder (drain byId turns walk) limits counts) := by
  induction turns generalizing walk counts with
  | zero =>
    unfold drain
    split
    · exact errorsIn_ok _
    · next hframes => exact absurd (weight_pos hframes) (not_lt.mpr h)
  | succ turns ih =>
    unfold drain
    split
    · exact errorsIn_ok _
    · next hframes =>
      refine errorsIn_bind (genuine_turn limits counts) fun result hturn ↦ ih ?_
      exact Nat.le_of_lt_succ ((weight_turn hturn hframes).trans_le h)

theorem genuine_visitRoot {id : String} (hresting : walk.Resting) :
    ErrorsIn Genuine (runUnder (visitRoot byId walk id) limits counts) := by
  unfold visitRoot
  split
  · exact errorsIn_ok _
  · next hopen =>
    refine errorsIn_bind (genuine_push id limits counts) fun result hpush ↦ genuine_drain ?_
    exact weight_root hresting.2 (hresting.not_visiting id)
      (Option.not_isSome_iff_eq_none.mp hopen) hpush

theorem genuine_visitRoots {ids : List String} (hresting : walk.Resting) :
    ErrorsIn Genuine (runUnder (ids.foldlM (visitRoot byId) walk) limits counts) := by
  induction ids generalizing walk counts with
  | nil => exact errorsIn_ok _
  | cons id ids ih =>
    rw [List.foldlM_cons]
    exact errorsIn_bind (genuine_visitRoot hresting) fun result hroot ↦
      ih (resting_visitRoot hresting hroot)

theorem genuine_createTypeConformanceIndex (inputLimits : Option (Counter → ℚ)) :
    ErrorsIn Genuine (createTypeConformanceIndex descriptors inputLimits) := by
  refine errorsIn_bind ?_ fun limits _ ↦ errorsIn_bind ?_ fun _ _ ↦ errorsIn_ok _
  · cases inputLimits with
    | none => exact errorsIn_ok _
    | some inputLimits =>
      exact errorsIn_map (errorsIn_bind (errorsIn_forM fun key ↦ errorsIn_check nofun)
        fun _ _ ↦ errorsIn_ok _)
  · refine errorsIn_bind ?_ fun byId _ ↦ errorsIn_bind ?_ fun _ _ ↦ genuine_visitRoots resting_empty
    · refine raises_foldlM (fun byId descriptor ↦ ?_) _ _ limits 0
      exact (raises_lift (errorsIn_check nofun)).bind fun _ ↦ (raises_charge nofun).bind fun _ ↦
        raises_pure _
    · refine raises_forM (fun descriptor ↦ raises_forM (fun parentId ↦ ?_) _) _ _ _
      exact (raises_charge nofun).bind fun _ ↦ (raises_lift (errorsIn_require nofun)).bind fun _ ↦
        raises_lift (errorsIn_check nofun)

end Finishes

end Bdp.Conformance
