import Bdp.Conformance.ConformanceWalk

/-!
# The law of the type conformance index

The index exists exactly for a sound installation: distinct identities, parents that are installed
and of the same kind, and no cycle. Its sets are the reflexive and transitive closure of the
declared parents, and its statistics are those of the installation, in whatever order it is given.
-/

namespace Bdp.Conformance

open Metered Relation

variable {descriptors reordered : List TypeDescriptor} {byId : ById}
  {counts readings : Counter → ℕ}

def ConformsTo (descriptors : List TypeDescriptor) (id parent : String) : Prop :=
  ∃ descriptor ∈ descriptors, descriptor.id = id ∧ parent ∈ descriptor.conformsTo

/-- What an installation has to satisfy. -/
structure SoundInstallation (descriptors : List TypeDescriptor) : Prop where
  unique : (descriptors.map TypeDescriptor.id).Nodup
  parents : ∀ descriptor ∈ descriptors, ∀ parentId ∈ descriptor.conformsTo,
    ∃ parent ∈ descriptors, parent.id = parentId ∧ parent.describes = descriptor.describes
  acyclic : ∀ id, ¬ TransGen (ConformsTo descriptors) id id

variable {parentId parent : String}

section Descriptors

variable {descriptor : TypeDescriptor}

theorem get_of_mem (hunique : (byId.map TypeDescriptor.id).Nodup)
    (h : descriptor ∈ byId) : byId.get descriptor.id = some descriptor := by
  induction byId with
  | nil => cases h
  | cons first byId ih =>
    obtain ⟨hfirst, hunique⟩ := List.nodup_cons.mp hunique
    obtain rfl | h := List.mem_cons.mp h
    · exact List.find?_cons_of_pos (decide_eq_true rfl)
    · have hne : first.id ≠ descriptor.id := fun heq ↦
        hfirst (heq ▸ List.mem_map_of_mem h)
      exact (List.find?_cons_of_neg (by simpa using hne)).trans (ih hunique h)

variable {id : String}

theorem get_eq_some_iff (hunique : (byId.map TypeDescriptor.id).Nodup) :
    byId.get id = some descriptor ↔ descriptor ∈ byId ∧ descriptor.id = id := by
  constructor
  · intro h
    have hfound := List.find?_some h
    exact ⟨List.mem_of_find?_eq_some h, by simpa using hfound⟩
  · rintro ⟨hmem, rfl⟩
    exact get_of_mem hunique hmem

theorem get_eq_none_iff : byId.get id = none ↔ id ∉ byId.map TypeDescriptor.id := by
  rw [ById.get, List.find?_eq_none, List.mem_map]
  simp only [decide_eq_true_eq, not_exists, not_and]

theorem declares_iff (hunique : (byId.map TypeDescriptor.id).Nodup) :
    Declares byId id parent ↔ ConformsTo byId id parent := by
  rw [Declares, ById.parents, ConformsTo]
  cases hget : byId.get id with
  | none =>
    rw [get_eq_none_iff] at hget
    refine ⟨fun h ↦ (by cases h), ?_⟩
    rintro ⟨descriptor, hmem, rfl, -⟩
    exact absurd (List.mem_map_of_mem hmem) hget
  | some found =>
    obtain ⟨hmem, hid⟩ := (get_eq_some_iff hunique).mp hget
    refine ⟨fun h ↦ ⟨found, hmem, hid, h⟩, ?_⟩
    rintro ⟨descriptor, hdescriptor, rfl, hparent⟩
    obtain rfl := Option.some.inj (hget.symm.trans (get_of_mem hunique hdescriptor))
    exact hparent

theorem declares_eq (hunique : (byId.map TypeDescriptor.id).Nodup) :
    Declares byId = ConformsTo byId :=
  funext fun _ ↦ funext fun _ ↦ propext (declares_iff hunique)

theorem run_addDescriptors {indexed : ById} (hunique : (indexed.map TypeDescriptor.id).Nodup) :
    runUnder (descriptors.foldlM addDescriptor indexed) none counts = .ok (byId, readings) ↔
      ((indexed ++ descriptors).map TypeDescriptor.id).Nodup ∧ byId = indexed ++ descriptors ∧
        readings = spend .nodes descriptors.length counts := by
  induction descriptors generalizing indexed counts with
  | nil =>
    rw [List.foldlM_nil, runUnder_pure, List.append_nil]
    simp [hunique, eq_comm]
  | cons descriptor descriptors ih =>
    have happend : indexed ++ descriptor :: descriptors =
        (indexed ++ [descriptor]) ++ descriptors := List.append_cons ..
    have hconcat : ((indexed ++ [descriptor]).map TypeDescriptor.id).Nodup ↔
        indexed.get descriptor.id = none := by
      rw [get_eq_none_iff, List.map_append, List.map_singleton, ← List.concat_eq_append,
        List.nodup_concat]
      exact ⟨And.left, fun h ↦ ⟨h, hunique⟩⟩
    rw [List.foldlM_cons, runUnder_bind, addDescriptor, runUnder_bind, runUnder_lift]
    by_cases hnew : indexed.get descriptor.id = none
    · rw [check_of hnew]
      change runUnder (descriptors.foldlM addDescriptor (indexed ++ [descriptor])) none
        (spend .nodes 1 counts) = _ ↔ _
      rw [ih (hconcat.mpr hnew), spend_spend, ← happend, List.length_cons, Nat.add_comm 1]
    · rw [check_of_not hnew]
      refine ⟨fun h ↦ (by cases h), fun h ↦ absurd ?_ hnew⟩
      refine hconcat.mp ((List.Sublist.map _ ?_).nodup h.1)
      rw [happend]
      exact List.sublist_append_left _ _

theorem run_checkParent :
    runUnder (checkParent byId descriptor parentId) none counts = .ok ((), readings) ↔
      (∃ parent, byId.get parentId = some parent ∧ parent.describes = descriptor.describes) ∧
        readings = spend .edges 1 counts := by
  rw [checkParent, runUnder_bind, charge, runUnder_charge_none, Except.ok_bind, runUnder_bind_eq_ok]
  constructor
  · rintro ⟨parent, middle, hparent, hkind⟩
    obtain ⟨hparent, hmiddle⟩ := runUnder_lift_eq_ok.mp hparent
    obtain ⟨hkind, hreadings⟩ := runUnder_lift_eq_ok.mp hkind
    exact ⟨⟨parent, require_eq_ok.mp hparent, check_eq_ok.mp hkind⟩, hreadings.trans hmiddle⟩
  · rintro ⟨⟨parent, hparent, hkind⟩, rfl⟩
    exact ⟨parent, _, runUnder_lift_eq_ok.mpr ⟨require_eq_ok.mpr hparent, rfl⟩,
      runUnder_lift_eq_ok.mpr ⟨check_of hkind, rfl⟩⟩

theorem run_checkParents : runUnder (forM descriptors fun descriptor ↦
        forM descriptor.conformsTo fun parentId ↦ checkParent byId descriptor parentId)
      none counts = .ok ((), readings) ↔
      (∀ descriptor ∈ descriptors, ∀ parentId ∈ descriptor.conformsTo,
        ∃ parent, byId.get parentId = some parent ∧ parent.describes = descriptor.describes) ∧
      readings = spend .edges
        (descriptors.map fun descriptor ↦ descriptor.conformsTo.length).sum counts := by
  refine runUnder_forM_none (fun descriptor counts readings ↦ ?_) descriptors
  have hcost : descriptor.conformsTo.length = (descriptor.conformsTo.map fun _ ↦ 1).sum := by simp
  rw [hcost]
  exact runUnder_forM_none (fun _ _ _ ↦ run_checkParent) descriptor.conformsTo

end Descriptors

section Law

theorem explored_empty (base : Counter → ℕ) (hbase : base .memberships = 0 ∧
    base .unionAttempts = 0 ∧ base .depth = 0) : Explored byId base none Walk.empty base := by
  have hdone : Walk.empty.done byId = ∅ := Finset.filter_false_of_mem fun _ _ ↦ nofun
  obtain ⟨hmemberships, hattempts, hdepth⟩ := hbase
  constructor
  case visiting => exact fun id ↦ Iff.rfl
  case distinct => exact List.nodup_nil
  case stack => trivial
  case settled => exact nofun
  case memberships => rw [hmemberships, hdone, Finset.sum_empty]
  case unionAttempts => rw [hattempts, hdone, Finset.sum_empty]
  case depth =>
    rw [hdepth]
    exact ⟨[], List.IsChain.nil, nofun, rfl⟩
  case nodes => rfl
  case edges => rfl

/-- The statistics of an installation. -/
structure Statistics (descriptors : List TypeDescriptor) (statistics : Counter → ℕ) : Prop where
  nodes : statistics .nodes = descriptors.length
  edges : statistics .edges =
    (descriptors.map fun descriptor ↦ descriptor.conformsTo.length).sum
  depth : IsGreatest (Ancestry.pathsWithin (ConformsTo descriptors)
    (· ∈ descriptors.map TypeDescriptor.id)) (statistics .depth)
  memberships : statistics .memberships = (descriptors.map fun descriptor ↦
    {other | ReflTransGen (ConformsTo descriptors) descriptor.id other}.ncard).sum
  unionAttempts : statistics .unionAttempts = (descriptors.map fun descriptor ↦
    (descriptor.conformsTo.map fun parent ↦
      {other | ReflTransGen (ConformsTo descriptors) parent other}.ncard).sum).sum

variable {base : Counter → ℕ} {walk : Walk}

theorem Explored.found (h : Explored descriptors base none walk counts) (hframes : walk.frames = [])
    (hmet : ∀ id ∈ descriptors.map TypeDescriptor.id, walk.Met id) :
    ∀ id ∈ descriptors.map TypeDescriptor.id, ∃ set, walk.effectiveTypes id = some set ∧
      Settled descriptors walk counts id set := by
  intro id hid
  obtain hvisiting | hsome := hmet id hid
  · have hmem := (h.visiting id).mp hvisiting
    rw [hframes] at hmem
    cases hmem
  · obtain ⟨set, hset⟩ := Option.isSome_iff_exists.mp hsome
    exact ⟨set, hset, h.settled id set hset⟩

section

variable (hunique : (descriptors.map TypeDescriptor.id).Nodup)
include hunique

theorem parents_of_mem {descriptor : TypeDescriptor} (h : descriptor ∈ descriptors) :
    ById.parents descriptors descriptor.id = descriptor.conformsTo := by
  rw [ById.parents, get_of_mem hunique h]
  rfl

theorem sum_done (hall : ∀ id ∈ descriptors.map TypeDescriptor.id, (walk.effectiveTypes id).isSome)
    (measure : String → ℕ) :
    ∑ id ∈ walk.done descriptors, measure id =
      (descriptors.map fun descriptor ↦ measure descriptor.id).sum := by
  have hdone : walk.done descriptors = (descriptors.map TypeDescriptor.id).toFinset :=
    Finset.filter_true_of_mem fun id hid ↦ hall id (List.mem_toFinset.mp hid)
  rw [hdone, List.sum_toFinset _ hunique, List.map_map]
  rfl

theorem Explored.statistics (h : Explored descriptors base none walk counts)
    (hfound : ∀ id ∈ descriptors.map TypeDescriptor.id, ∃ set, walk.effectiveTypes id = some set ∧
      Settled descriptors walk counts id set) (hnodes : base .nodes = descriptors.length)
    (hedges : base .edges = (descriptors.map fun descriptor ↦ descriptor.conformsTo.length).sum) :
    Statistics descriptors counts := by
  have hall : ∀ id ∈ descriptors.map TypeDescriptor.id, (walk.effectiveTypes id).isSome := by
    intro id hid
    obtain ⟨set, hset, -⟩ := hfound id hid
    rw [hset]
    rfl
  have hdeclares := declares_eq hunique
  constructor
  case nodes => exact h.nodes.trans hnodes
  case edges => exact h.edges.trans hedges
  case depth =>
    rw [← hdeclares]
    refine ⟨h.depth, ?_⟩
    rintro count ⟨path, hchain, hinstalled, rfl⟩
    cases path with
    | nil => exact Nat.zero_le _
    | cons id path =>
      obtain ⟨set, -, hsettled⟩ := hfound id (hinstalled id List.mem_cons_self)
      obtain ⟨depth, -, hdeepest, hle⟩ := hsettled.deepest
      exact (hdeepest.2 ⟨path, hchain, rfl⟩).trans hle
  case memberships =>
    rw [h.memberships, sum_done hunique hall, ← hdeclares]
    rfl
  case unionAttempts =>
    rw [h.unionAttempts, sum_done hunique hall, ← hdeclares]
    congr 1
    refine List.map_congr_left fun descriptor hdescriptor ↦ ?_
    rw [parents_of_mem hunique hdescriptor]
    rfl

end

theorem mem_ids_of_conformsTo {id : String} (h : ConformsTo descriptors id parent) :
    id ∈ descriptors.map TypeDescriptor.id := by
  obtain ⟨descriptor, hmem, rfl, -⟩ := h
  exact List.mem_map_of_mem hmem

theorem acyclic_of_found (hunique : (descriptors.map TypeDescriptor.id).Nodup)
    (hfound : ∀ id ∈ descriptors.map TypeDescriptor.id, ∃ set, walk.effectiveTypes id = some set ∧
      Settled descriptors walk counts id set) (id : String) :
    ¬ TransGen (ConformsTo descriptors) id id := by
  intro hcycle
  obtain ⟨parent, hparent, -⟩ := TransGen.head'_iff.mp hcycle
  obtain ⟨set, -, hsettled⟩ := hfound id (mem_ids_of_conformsTo hparent)
  obtain ⟨depth, -, hdeepest, -⟩ := hsettled.deepest
  rw [← declares_eq hunique] at hcycle
  exact hdeepest.not_cycle hcycle

variable {statistics : Counter → ℕ}

theorem includes_iff (hunique : (descriptors.map TypeDescriptor.id).Nodup)
    (h : Explored descriptors base none walk counts)
    (hfound : ∀ id ∈ descriptors.map TypeDescriptor.id, ∃ set, walk.effectiveTypes id = some set ∧
      Settled descriptors walk counts id set) (declaredType requiredType : String) :
    (TypeConformanceIndex.mk walk.effectiveTypes statistics).includes declaredType requiredType ↔
      declaredType = requiredType ∨
        TransGen (ConformsTo descriptors) declaredType requiredType := by
  rw [TypeConformanceIndex.includes, Bool.or_eq_true, decide_eq_true_eq, Option.any_eq_true,
    ← declares_eq hunique]
  constructor
  · rintro (heq | ⟨set, hset, hmem⟩)
    · exact .inl heq
    · have hreach :=
        ((h.settled declaredType set hset).mem requiredType).mp (of_decide_eq_true hmem)
      exact (reflTransGen_iff_eq_or_transGen.mp hreach).imp_left Eq.symm
  · rintro (heq | hreach)
    · exact .inl heq
    · obtain ⟨parent, hparent, -⟩ := TransGen.head'_iff.mp hreach
      rw [declares_iff hunique] at hparent
      obtain ⟨set, hset, hsettled⟩ := hfound declaredType (mem_ids_of_conformsTo hparent)
      have hmem := (hsettled.mem requiredType).mpr hreach.to_reflTransGen
      exact .inr ⟨set, hset, decide_eq_true hmem⟩

theorem run_buildIndex : runUnder (buildIndex descriptors) none 0 = .ok (walk, counts) ↔
      (descriptors.map TypeDescriptor.id).Nodup ∧
      (∀ descriptor ∈ descriptors, ∀ parentId ∈ descriptor.conformsTo, ∃ parent,
        ById.get descriptors parentId = some parent ∧ parent.describes = descriptor.describes) ∧
      runUnder ((descriptors.map TypeDescriptor.id).foldlM (visitRoot descriptors) Walk.empty) none
        (spend .edges (descriptors.map fun descriptor ↦ descriptor.conformsTo.length).sum
          (spend .nodes descriptors.length 0)) = .ok (walk, counts) := by
  have hnil : (([] : ById).map TypeDescriptor.id).Nodup := List.nodup_nil
  rw [buildIndex, runUnder_bind_eq_ok]
  constructor
  · rintro ⟨byId, indexed, hindexed, h⟩
    obtain ⟨hunique, rfl, rfl⟩ := (run_addDescriptors hnil).mp hindexed
    obtain ⟨_, checked, hchecked, h⟩ := runUnder_bind_eq_ok.mp h
    obtain ⟨hparents, rfl⟩ := run_checkParents.mp hchecked
    exact ⟨hunique, hparents, h⟩
  · rintro ⟨hunique, hparents, h⟩
    refine ⟨descriptors, _, (run_addDescriptors hnil).mpr ⟨hunique, rfl, rfl⟩, ?_⟩
    exact runUnder_bind_eq_ok.mpr ⟨(), _, run_checkParents.mpr ⟨hparents, rfl⟩, h⟩

theorem run_visitRoots (hunique : (descriptors.map TypeDescriptor.id).Nodup)
    (hparents : ∀ descriptor ∈ descriptors, ∀ parentId ∈ descriptor.conformsTo, ∃ parent,
      ById.get descriptors parentId = some parent ∧ parent.describes = descriptor.describes)
    (hbase : base .memberships = 0 ∧ base .unionAttempts = 0 ∧ base .depth = 0) :
    (∃ walk counts, runUnder ((descriptors.map TypeDescriptor.id).foldlM (visitRoot descriptors)
        Walk.empty) none base = .ok (walk, counts) ∧
      Explored descriptors base none walk counts ∧
      ∀ id ∈ descriptors.map TypeDescriptor.id, ∃ set, walk.effectiveTypes id = some set ∧
        Settled descriptors walk counts id set) ∨
    (∃ failure, runUnder ((descriptors.map TypeDescriptor.id).foldlM (visitRoot descriptors)
        Walk.empty) none base = .error failure) ∧
      ∃ node, TransGen (ConformsTo descriptors) node node := by
  have hpresent : ParentsInstalled descriptors := by
    intro id parentId hdeclares
    obtain ⟨descriptor, hmem, -, hparent⟩ := (declares_iff hunique).mp hdeclares
    obtain ⟨parent, hget, -⟩ := hparents descriptor hmem parentId hparent
    obtain ⟨hinstalled, rfl⟩ := (get_eq_some_iff hunique).mp hget
    exact List.mem_map_of_mem hinstalled
  obtain ⟨walk, counts, hrun, hexplored, hframes, hmet, -⟩ | ⟨node, hrun, hcycle⟩ :=
    (explored_empty base hbase).visitRoots hpresent rfl fun _ hid ↦ hid
  · exact .inl ⟨walk, counts, hrun, hexplored, hexplored.found hframes hmet⟩
  · refine .inr ⟨⟨_, hrun⟩, node, ?_⟩
    rwa [← declares_eq hunique]

theorem base_counters (nodes edges : ℕ) :
    spend .edges edges (spend .nodes nodes (0 : Counter → ℕ)) .memberships = 0 ∧
    spend .edges edges (spend .nodes nodes (0 : Counter → ℕ)) .unionAttempts = 0 ∧
    spend .edges edges (spend .nodes nodes (0 : Counter → ℕ)) .depth = 0 := ⟨rfl, rfl, rfl⟩

variable {index : TypeConformanceIndex}

theorem create_none_eq_ok : createTypeConformanceIndex descriptors none = .ok index ↔
      ∃ walk counts, runUnder (buildIndex descriptors) none 0 = .ok (walk, counts) ∧
        index = ⟨walk.effectiveTypes, counts⟩ := by
  have hcreate : createTypeConformanceIndex descriptors none =
      runUnder (buildIndex descriptors) none 0 >>= fun result ↦
        .ok ⟨result.1.effectiveTypes, result.2⟩ := rfl
  rw [hcreate, Except.bind_eq_ok]
  simp only [Prod.exists, Except.ok.injEq, eq_comm]

theorem parents_get_iff (hunique : (descriptors.map TypeDescriptor.id).Nodup) {kind : Describes} :
    (∃ parent, ById.get descriptors parentId = some parent ∧ parent.describes = kind) ↔
      ∃ parent ∈ descriptors, parent.id = parentId ∧ parent.describes = kind := by
  simp only [get_eq_some_iff hunique, and_assoc]

theorem create_of_sound (h : SoundInstallation descriptors) :
    ∃ index, createTypeConformanceIndex descriptors none = .ok index := by
  have hparents : ∀ descriptor ∈ descriptors, ∀ parentId ∈ descriptor.conformsTo, ∃ parent,
      ById.get descriptors parentId = some parent ∧ parent.describes = descriptor.describes :=
    fun descriptor hmem parentId hparent ↦
      (parents_get_iff h.unique).mpr (h.parents descriptor hmem parentId hparent)
  obtain ⟨walk, counts, hrun, -⟩ | ⟨-, node, hcycle⟩ :=
    run_visitRoots h.unique hparents (base_counters descriptors.length _)
  · exact ⟨_, create_none_eq_ok.mpr
      ⟨walk, counts, run_buildIndex.mpr ⟨h.unique, hparents, hrun⟩, rfl⟩⟩
  · exact absurd hcycle (h.acyclic node)

theorem create_sound (h : createTypeConformanceIndex descriptors none = .ok index) :
    SoundInstallation descriptors ∧ Statistics descriptors index.statistics ∧
      ∀ declaredType requiredType, index.includes declaredType requiredType ↔
        declaredType = requiredType ∨
          TransGen (ConformsTo descriptors) declaredType requiredType := by
  obtain ⟨walk, counts, hrun, rfl⟩ := create_none_eq_ok.mp h
  obtain ⟨hunique, hparents, hwalk⟩ := run_buildIndex.mp hrun
  have hbase := base_counters descriptors.length
    (descriptors.map fun descriptor ↦ descriptor.conformsTo.length).sum
  obtain ⟨walk', counts', hrun', hexplored, hfound⟩ | ⟨⟨failure, hrun'⟩, -⟩ :=
    run_visitRoots hunique hparents hbase
  · cases hwalk.symm.trans hrun'
    refine ⟨⟨hunique, ?_, acyclic_of_found hunique hfound⟩, ?_,
      includes_iff hunique hexplored hfound⟩
    · exact fun descriptor hmem parentId hparent ↦
        (parents_get_iff hunique).mp (hparents descriptor hmem parentId hparent)
    · exact hexplored.statistics hunique hfound (Nat.zero_add _) (Nat.zero_add _)
  · cases hwalk.symm.trans hrun'

theorem Statistics.unique {others : Counter → ℕ} (h : Statistics descriptors statistics)
    (h' : Statistics descriptors others) : statistics = others := by
  funext key
  cases key with
  | nodes => exact h.nodes.trans h'.nodes.symm
  | edges => exact h.edges.trans h'.edges.symm
  | depth => exact h.depth.unique h'.depth
  | memberships => exact h.memberships.trans h'.memberships.symm
  | unionAttempts => exact h.unionAttempts.trans h'.unionAttempts.symm

theorem conformsTo_perm (h : descriptors.Perm reordered) :
    ConformsTo reordered = ConformsTo descriptors := by
  funext id parent
  simp only [ConformsTo, h.mem_iff]

theorem SoundInstallation.perm (h : SoundInstallation descriptors)
    (hperm : descriptors.Perm reordered) : SoundInstallation reordered where
  unique := (hperm.map _).nodup_iff.mp h.unique
  parents descriptor hmem parentId hparent := by
    obtain ⟨parent, hinstalled, hfound⟩ :=
      h.parents descriptor (hperm.mem_iff.mpr hmem) parentId hparent
    exact ⟨parent, hperm.mem_iff.mp hinstalled, hfound⟩
  acyclic := by
    rw [conformsTo_perm hperm]
    exact h.acyclic

theorem Statistics.perm (h : Statistics reordered statistics)
    (hperm : descriptors.Perm reordered) : Statistics descriptors statistics := by
  have hrelation := conformsTo_perm hperm
  constructor
  case nodes => exact h.nodes.trans hperm.length_eq.symm
  case edges => exact h.edges.trans (hperm.map _).sum_eq.symm
  case depth =>
    have hids : (· ∈ reordered.map TypeDescriptor.id) = (· ∈ descriptors.map TypeDescriptor.id) :=
      funext fun id ↦ propext (hperm.map _).mem_iff.symm
    have hdepth := h.depth
    rwa [hrelation, hids] at hdepth
  case memberships =>
    have hmemberships := h.memberships
    rw [hrelation] at hmemberships
    exact hmemberships.trans (hperm.map _).sum_eq.symm
  case unionAttempts =>
    have hattempts := h.unionAttempts
    rw [hrelation] at hattempts
    exact hattempts.trans (hperm.map _).sum_eq.symm

variable {limits : Counter → ℚ}

theorem checkLimits_of_valid (h : ∀ key, ValidLimit (limits key)) :
    checkLimits limits = .ok fun key ↦ (limits key).num.toNat := by
  have hall : forM Counter.keys (fun key ↦ check (ValidLimit (limits key))
      (Failure.invalidLimit key)) = .ok () := forM_ok fun key _ ↦ check_of (h key)
  rw [checkLimits, hall]
  rfl

theorem le_limit_iff {limit : ℚ} (h : ValidLimit limit) (count : ℕ) :
    count ≤ limit.num.toNat ↔ (count : ℚ) ≤ limit := by
  have hlimit : ((limit.num.toNat : ℕ) : ℚ) = limit := by
    calc ((limit.num.toNat : ℕ) : ℚ) = ((limit.num.toNat : ℤ) : ℚ) := (Int.cast_natCast _).symm
      _ = (limit.num : ℚ) := by rw [Int.toNat_of_nonneg h.2.1]
      _ = limit := Rat.coe_int_num_of_den_eq_one h.1
  conv_rhs => rw [← hlimit]
  exact Nat.cast_le.symm

theorem create_limited (hvalid : ∀ key, ValidLimit (limits key)) :
    createTypeConformanceIndex descriptors (some limits) = .ok index ↔
      createTypeConformanceIndex descriptors none = .ok index ∧
        ∀ key, (index.statistics key : ℚ) ≤ limits key := by
  have hcreate : createTypeConformanceIndex descriptors (some limits) =
      runUnder (buildIndex descriptors) (some fun key ↦ (limits key).num.toNat) 0 >>= fun result ↦
        .ok ⟨result.1.effectiveTypes, result.2⟩ := by
    have hmap : (some limits).mapM checkLimits = .ok (some fun key ↦ (limits key).num.toNat) := by
      rw [Option.mapM_some, checkLimits_of_valid hvalid]
      rfl
    rw [createTypeConformanceIndex, hmap]
    rfl
  rw [hcreate, Except.bind_eq_ok, create_none_eq_ok]
  simp only [(lawful_buildIndex descriptors).runUnder_some]
  constructor
  · rintro ⟨⟨walk, counts⟩, ⟨hrun, hwithin⟩, hindex⟩
    cases hindex
    exact ⟨⟨walk, counts, hrun, rfl⟩, fun key ↦ (le_limit_iff (hvalid key) _).mp (hwithin key)⟩
  · rintro ⟨⟨walk, counts, hrun, rfl⟩, hwithin⟩
    exact ⟨(walk, counts), ⟨hrun, fun key ↦ (le_limit_iff (hvalid key) _).mpr (hwithin key)⟩, rfl⟩

/-- The index exists exactly for sound installations, decides conformance, measures the longest
parent path, and has statistics that depend neither on the order of the descriptors nor on limits:
these only refuse an index one of whose statistics is above its limit. -/
theorem createTypeConformanceIndex_characterized (descriptors : List TypeDescriptor) :
    ((∃ index, createTypeConformanceIndex descriptors none = .ok index) ↔
      SoundInstallation descriptors) ∧
    (∀ index, createTypeConformanceIndex descriptors none = .ok index →
      (∀ declaredType requiredType, index.includes declaredType requiredType ↔
        declaredType = requiredType ∨
          TransGen (ConformsTo descriptors) declaredType requiredType) ∧
      IsGreatest (Ancestry.pathsWithin (ConformsTo descriptors)
        (· ∈ descriptors.map TypeDescriptor.id)) (index.statistics .depth) ∧
      ∀ reordered, descriptors.Perm reordered →
        ∃ other, createTypeConformanceIndex reordered none = .ok other ∧
          other.statistics = index.statistics) ∧
    (∀ limits : Counter → ℚ, (∀ key, ValidLimit (limits key)) → ∀ index,
      createTypeConformanceIndex descriptors (some limits) = .ok index ↔
        createTypeConformanceIndex descriptors none = .ok index ∧
          ∀ key, (index.statistics key : ℚ) ≤ limits key) ∧
    ∀ limits, createTypeConformanceIndex descriptors limits ≠ .error .unfinished := by
  refine ⟨⟨fun ⟨index, h⟩ ↦ (create_sound h).1, create_of_sound⟩, fun index h ↦ ?_,
    fun limits hvalid index ↦ create_limited hvalid,
    fun limits h ↦ genuine_createTypeConformanceIndex descriptors limits .unfinished h rfl⟩
  obtain ⟨hsound, hstatistics, hincludes⟩ := create_sound h
  refine ⟨hincludes, hstatistics.depth, fun reordered hperm ↦ ?_⟩
  obtain ⟨other, hother⟩ := create_of_sound (hsound.perm hperm)
  exact ⟨other, hother, ((create_sound hother).2.1.perm hperm).unique hstatistics⟩

end Law

end Bdp.Conformance
