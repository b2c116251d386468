import Bdp.Pagination.SnapshotFrames

/-!
# The accounts of a snapshot

The walk accepts a value exactly when it unfolds to a JSON tree and fits the budget. It charges
every object once, so the retained bytes are those of the text exactly when no object occurs
twice.
-/

namespace Bdp.Pagination

open CodeUnits
open List (map_cons sum_cons mem_toFinset mem_cons_self mem_cons_of_mem)
open Function (update_of_ne)

section Copies

variable {α : Type}

/-- The copy of an object with the first of its entries. -/
def JsObject.copyOf (source : JsObject α) (defined : List Text) : JsObject α :=
  defined.foldl (fun copy key ↦ copy.define key (source.valueAt key)) source.emptyCopy

theorem JsObject.copyOf_concat (source : JsObject α) (defined : List Text) (key : Text) :
    source.copyOf (defined ++ [key]) = (source.copyOf defined).define key (source.valueAt key) :=
  List.foldl_append

theorem JsObject.copyOf_fields (source : JsObject α) (defined : List Text) :
    (source.copyOf defined).isProxy = false ∧
      (source.copyOf defined).prototype = source.emptyCopy.prototype ∧
      (source.copyOf defined).isArray = source.isArray ∧
      (source.copyOf defined).symbols = [] ∧
      (source.copyOf defined).length = source.emptyCopy.length ∧
      (source.copyOf defined).keys = defined ∧
      ∀ key ∈ defined,
        (source.copyOf defined).property key = some (.data (source.valueAt key)) := by
  induction defined using List.reverseRecOn with
  | nil => exact ⟨rfl, rfl, rfl, rfl, rfl, rfl, by simp⟩
  | append_singleton defined key ih =>
    obtain ⟨hproxy, hprototype, harray, hsymbols, hlength, hkeys, hproperty⟩ := ih
    rw [copyOf_concat]
    refine ⟨hproxy, hprototype, harray, hsymbols, hlength, congrArg (· ++ [key]) hkeys, ?_⟩
    intro other hother
    change Function.update _ _ _ _ = _
    by_cases hsame : other = key
    · rw [hsame, Function.update_self]
    · rw [update_of_ne hsame]
      exact hproperty other (by simpa [hsame] using hother)

variable {heap : α → JsObject α}

theorem JsObject.Plain.copyOf {source : JsObject α} (h : source.Plain) :
    (source.copyOf source.entryKeys).Plain ∧
      (source.copyOf source.entryKeys).entryKeys = source.entryKeys ∧
      ∀ key ∈ source.entryKeys,
        (source.copyOf source.entryKeys).valueAt key = source.valueAt key := by
  obtain ⟨hproxy, hprototype, harray, hsymbols, hlength, hkeys, hproperty⟩ :=
    source.copyOf_fields source.entryKeys
  have hentryKeys : (source.copyOf source.entryKeys).entryKeys = source.entryKeys := by
    rw [entryKeys, harray, hkeys, hlength]
    unfold entryKeys emptyCopy
    cases source.isArray <;> rfl
  have hvalue : ∀ key ∈ source.entryKeys,
      (source.copyOf source.entryKeys).valueAt key = source.valueAt key := by
    intro key hkey
    rw [valueAt, hproperty key hkey]
  refine ⟨⟨hproxy, ?_, by rw [hsymbols]; rfl, ?_, ?_⟩, hentryKeys, hvalue⟩
  · rw [plainPrototype, harray, hprototype]
    unfold emptyCopy
    cases source.isArray <;> rfl
  · intro hisArray
    rw [harray] at hisArray
    rw [hkeys, hlength, h.length_entryKeys, h.dense hisArray]
    simp [emptyCopy, hisArray]
  · intro key hkey
    rw [hentryKeys] at hkey
    rw [hproperty key hkey, hvalue key hkey]

def CopyUnfolds (heap : α → JsObject α) (occurrences : List α) : Shape α → Prop
  | .value input tree =>
    Unfolds (fun address ↦ (heap address).copyOf (heap address).entryKeys) (.value input tree)
      occurrences
  | .entries source keys members =>
    ∀ copy : JsObject α, (∀ key ∈ keys, copy.valueAt key = source.valueAt key) →
      Unfolds (fun address ↦ (heap address).copyOf (heap address).entryKeys)
        (.entries copy keys members) occurrences

theorem Unfolds.copied {shape : Shape α} {occurrences : List α}
    (h : Unfolds heap shape occurrences) : CopyUnfolds heap occurrences shape := by
  induction h with
  | primitive value => exact .primitive value
  | @object address members occurrences plain _ ih =>
    obtain ⟨hplain, hkeys, hvalues⟩ := plain.copyOf
    have hentries : Unfolds (fun address ↦ (heap address).copyOf (heap address).entryKeys)
        (.entries ((heap address).copyOf (heap address).entryKeys)
          ((heap address).copyOf (heap address).entryKeys).entryKeys members) occurrences := by
      rw [hkeys]
      exact ih _ hvalues
    have htree : ((heap address).copyOf (heap address).entryKeys).treeOf members =
        (heap address).treeOf members := by
      unfold JsObject.treeOf
      rw [((heap address).copyOf_fields _).2.2.1]
    have hobject := @Unfolds.object α
      (fun address ↦ (heap address).copyOf (heap address).entryKeys) address members occurrences
      hplain hentries
    rwa [htree] at hobject
  | nil source => exact fun copy _ ↦ .nil copy
  | @cons source key keys tree members occurrences others _ _ ihHead ihTail =>
    intro copy hvalues
    obtain ⟨hkey, hkeys⟩ := List.forall_mem_cons.mp hvalues
    refine .cons ?_ (ihTail copy hkeys)
    rw [hkey]
    exact ihHead

end Copies

section Sums

variable {α : Type} [DecidableEq α]

theorem sum_toFinset_le (weight : α → ℕ) (items : List α) :
    ∑ item ∈ items.toFinset, weight item ≤ (items.map weight).sum := by
  induction items with
  | nil => exact le_rfl
  | cons item items ih =>
    rw [List.toFinset_cons, map_cons, sum_cons]
    by_cases hmem : item ∈ items
    · rw [Finset.insert_eq_of_mem (mem_toFinset.mpr hmem)]
      omega
    · rw [Finset.sum_insert (mt mem_toFinset.mp hmem)]
      omega

theorem sum_toFinset_eq_iff (weight : α → ℕ) (items : List α) :
    ∑ item ∈ items.toFinset, weight item = (items.map weight).sum ↔
      ∀ item, 1 < items.count item → weight item = 0 := by
  induction items with
  | nil => simp
  | cons item items ih =>
    have hle := sum_toFinset_le weight items
    rw [List.toFinset_cons, map_cons, sum_cons]
    by_cases hmem : item ∈ items
    · rw [Finset.insert_eq_of_mem (mem_toFinset.mpr hmem)]
      have hcount : 0 < items.count item := List.count_pos_iff.mpr hmem
      constructor
      · intro heq other hother
        by_cases hsame : other = item
        · subst hsame
          omega
        · rw [List.count_cons_of_ne (Ne.symm hsame)] at hother
          exact ih.mp (by omega) other hother
      · intro hzero
        have hitem := hzero item (by rw [List.count_cons_self]; omega)
        rw [hitem, Nat.zero_add]
        refine ih.mpr fun other hother ↦ hzero other ?_
        exact lt_of_lt_of_le hother (List.count_le_count_cons)
    · rw [Finset.sum_insert (mt mem_toFinset.mp hmem), Nat.add_left_cancel_iff, ih]
      refine forall_congr' fun other ↦ ?_
      by_cases hsame : other = item
      · subst hsame
        simp [List.count_cons_self, List.count_eq_zero_of_not_mem hmem]
      · rw [List.count_cons_of_ne (Ne.symm hsame)]

end Sums

/-- The bytes that a job still takes, apart from the objects in it. -/
def SnapshotJob.ownBytes {α : Type} : SnapshotJob α → ℕ
  | .value input _ => input.ownBytes
  | .finish _ => 0

theorem JsObject.ownBytes_eq {α : Type} (source : JsObject α) (address : α) :
    source.ownBytes = source.bracketBytes + source.entryCharges source.entryKeys +
      ((source.entryJobs address source.entryKeys).map SnapshotJob.ownBytes).sum := by
  rw [ownBytes, entryCharges, entryJobs, List.map_map, List.sum_map_add, Nat.add_assoc]
  rfl

variable {α : Type} [DecidableEq α] {heap : α → JsObject α} {input : Value α}
  {byteCapacity nodeCapacity : ℕ}

variable {slot : Slot α}

section Accounts

/-- The budget of a walk that has marked some objects. -/
structure Accounts (heap : α → JsObject α) (input : Value α) (byteCapacity nodeCapacity : ℕ)
    (visited : Finset α) (states : α → Option SnapshotState) (budget : SnapshotBudget)
    (jobs : List (SnapshotJob α)) : Prop where
  marked : ∀ address, address ∈ visited ↔ states address ≠ none
  bytes : budget.retainedBytes + (jobs.map SnapshotJob.ownBytes).sum =
    input.ownBytes + ∑ address ∈ visited, (heap address).ownBytes
  nodes : budget.retainedNodes = 1 + ∑ address ∈ visited, (heap address).keys.length
  byteRoom : budget.remainingBytes + budget.retainedBytes = byteCapacity
  nodeRoom : budget.remainingNodes + budget.retainedNodes = nodeCapacity

variable {visited : Finset α} {states : α → Option SnapshotState} {budget : SnapshotBudget}
  {jobs : List (SnapshotJob α)}

omit [DecidableEq α] in
theorem Accounts.settle {value : Value α}
    (h : Accounts heap input byteCapacity nodeCapacity visited states budget
      (.value value slot :: jobs)) (hroom : value.ownBytes ≤ budget.remainingBytes) :
    Accounts heap input byteCapacity nodeCapacity visited states
      (budget.spendBytes value.ownBytes) jobs := by
  obtain ⟨hvisited, hbytes, hnodes, hbyteRoom, hnodeRoom⟩ := h
  rw [map_cons, sum_cons, SnapshotJob.ownBytes] at hbytes
  refine ⟨hvisited, ?_, hnodes, ?_, hnodeRoom⟩ <;> simp only [SnapshotBudget.spendBytes] <;> omega

theorem Accounts.finish {address : α}
    (h : Accounts heap input byteCapacity nodeCapacity visited states budget
      (.finish address :: jobs))
    (hmarked : states address ≠ none) :
    Accounts heap input byteCapacity nodeCapacity visited
      (Function.update states address (some .done)) budget jobs := by
  obtain ⟨hvisited, hbytes, hnodes, hbyteRoom, hnodeRoom⟩ := h
  rw [map_cons, sum_cons, SnapshotJob.ownBytes, Nat.zero_add] at hbytes
  refine ⟨fun other ↦ ?_, hbytes, hnodes, hbyteRoom, hnodeRoom⟩
  by_cases hsame : other = address
  · subst hsame
    simpa using (hvisited other).mpr hmarked
  · rw [update_of_ne hsame]
    exact hvisited other

theorem Accounts.enter {address : α}
    (h : Accounts heap input byteCapacity nodeCapacity visited states budget
      (.value (.object address) slot :: jobs)) (hfresh : states address = none)
    (hnodesRoom : (heap address).keys.length ≤ budget.remainingNodes)
    (hbytesRoom : (heap address).bracketBytes +
      (heap address).entryCharges (heap address).entryKeys ≤ budget.remainingBytes) :
    Accounts heap input byteCapacity nodeCapacity (insert address visited)
      (Function.update states address (some .visiting))
      ((budget.spendNodes (heap address).keys.length).spendBytes
        ((heap address).bracketBytes + (heap address).entryCharges (heap address).entryKeys))
      ((heap address).entryJobs address (heap address).entryKeys ++ .finish address :: jobs) := by
  obtain ⟨hvisited, hbytes, hnodes, hbyteRoom, hnodeRoom⟩ := h
  rw [map_cons, sum_cons, SnapshotJob.ownBytes] at hbytes
  have hnew : address ∉ visited := fun hmem ↦ (hvisited address).mp hmem hfresh
  have hown := (heap address).ownBytes_eq address
  have hobject : (Value.object address).ownBytes = 0 := rfl
  refine ⟨fun other ↦ ?_, ?_, ?_, ?_, ?_⟩
  · by_cases hsame : other = address
    · subst hsame
      simp
    · rw [update_of_ne hsame, Finset.mem_insert]
      simp only [hsame, false_or]
      exact hvisited other
  · rw [Finset.sum_insert hnew, List.map_append, List.sum_append, map_cons, sum_cons]
    simp only [SnapshotBudget.spendBytes, SnapshotBudget.spendNodes, SnapshotJob.ownBytes]
    omega
  · rw [Finset.sum_insert hnew]
    simp only [SnapshotBudget.spendBytes, SnapshotBudget.spendNodes]
    omega
  · simp only [SnapshotBudget.spendBytes, SnapshotBudget.spendNodes]
    omega
  · simp only [SnapshotBudget.spendBytes, SnapshotBudget.spendNodes]
    omega

end Accounts

section Copied

/-- The keys of an object whose jobs are still on the stack. -/
def pendingKeys (address : α) (jobs : List (SnapshotJob α)) : List Text :=
  jobs.filterMap fun job ↦
    match job with
    | .value _ (.entry output key) => if output = address then some key else none
    | _ => none

/-- The copies of a walk: every entry of a marked object is copied or on the stack. -/
structure Copied (heap : α → JsObject α) (input : Value α) (walk : Walk α) : Prop where
  slots : ∀ value output key, .value value (.entry output key) ∈ walk.jobs →
    walk.states output ≠ none ∧ value = (heap output).valueAt key
  copies : ∀ address, walk.states address ≠ none → ∃ defined,
    (heap address).entryKeys = defined ++ pendingKeys address walk.jobs ∧
      walk.copies address =
        some ⟨(heap address).copyOf defined, decide (walk.states address = some .done)⟩
  rootSlot : ∀ value, .value value .root ∈ walk.jobs → value = input
  root : walk.root = some input ∨ .value input .root ∈ walk.jobs

theorem pendingKeys_entryJobs_self (source : JsObject α) (address : α) (keys : List Text) :
    pendingKeys address (source.entryJobs address keys) = keys := by
  induction keys with
  | nil => rfl
  | cons key keys ih =>
    simp only [pendingKeys, JsObject.entryJobs, map_cons, List.filterMap_cons, if_true]
    exact congrArg (key :: ·) ih

variable {address : α}

theorem pendingKeys_entryJobs_of_ne (source : JsObject α) {other : α} (h : other ≠ address)
    (keys : List Text) : pendingKeys other (source.entryJobs address keys) = [] := by
  induction keys with
  | nil => rfl
  | cons key keys ih =>
    simp only [pendingKeys, JsObject.entryJobs, map_cons, List.filterMap_cons,
      if_neg (Ne.symm h)]
    exact ih

theorem pendingKeys_append (address : α) (jobs others : List (SnapshotJob α)) :
    pendingKeys address (jobs ++ others) = pendingKeys address jobs ++ pendingKeys address others :=
  List.filterMap_append

theorem pendingKeys_cons_self (value : Value α) (output : α) (key : Text)
    (jobs : List (SnapshotJob α)) :
    pendingKeys output (.value value (.entry output key) :: jobs) =
      key :: pendingKeys output jobs := by
  simp [pendingKeys]

theorem pendingKeys_cons_of_ne {output : α} (h : address ≠ output) (value : Value α)
    (key : Text) (jobs : List (SnapshotJob α)) :
    pendingKeys address (.value value (.entry output key) :: jobs) = pendingKeys address jobs := by
  simp [pendingKeys, Ne.symm h]

theorem Copied.pendingKeys_eq_nil {walk : Walk α} (h : Copied heap input walk)
    (hfresh : walk.states address = none) : pendingKeys address walk.jobs = [] := by
  refine List.filterMap_eq_nil_iff.mpr fun job hjob ↦ ?_
  cases job with
  | finish other => rfl
  | value value slot =>
    cases slot with
    | root => rfl
    | entry output key =>
      refine if_neg ?_
      rintro rfl
      exact (h.slots value output key hjob).1 hfresh

theorem Copied.assign {walk : Walk α} {value : Value α}
    (h : Copied heap input { walk with jobs := .value value slot :: walk.jobs }) :
    Copied heap input (walk.assign slot value) := by
  obtain ⟨hslots, hcopies, hrootSlot, hroot⟩ := h
  cases slot with
  | root =>
    obtain rfl := hrootSlot value mem_cons_self
    exact ⟨fun value output key hmem ↦ hslots value output key (mem_cons_of_mem _ hmem),
      hcopies, fun value hmem ↦ hrootSlot value (mem_cons_of_mem _ hmem), .inl rfl⟩
  | entry output key =>
    obtain ⟨hmarked, rfl⟩ := hslots value output key mem_cons_self
    refine ⟨fun value output key hmem ↦ hslots value output key (mem_cons_of_mem _ hmem), ?_,
      fun value hmem ↦ hrootSlot value (mem_cons_of_mem _ hmem), ?_⟩
    · intro address haddress
      obtain ⟨defined, hkeys, hcopy⟩ := hcopies address haddress
      by_cases hsame : address = output
      · subst hsame
        refine ⟨defined ++ [key], ?_, ?_⟩
        · rw [hkeys, pendingKeys_cons_self, List.append_assoc]
          rfl
        · change walk.copies address = _ at hcopy
          simp only [Walk.assign, if_true]
          rw [hcopy, Option.map_some, JsObject.copyOf_concat]
          rfl
      · refine ⟨defined, ?_, ?_⟩
        · rw [hkeys, pendingKeys_cons_of_ne hsame]
          rfl
        · simp only [Walk.assign, if_neg hsame]
          exact hcopy
    · exact hroot.imp_right fun hmem ↦ by simpa using hmem

theorem Copied.opened {walk : Walk α}
    (h : Copied heap input { walk with jobs := .value (.object address) slot :: walk.jobs })
    (hfresh : walk.states address = none) :
    Copied heap input { walk.opened address (heap address) with
      jobs := .value (.object address) slot :: (walk.opened address (heap address)).jobs } := by
  have hnone := h.pendingKeys_eq_nil hfresh
  obtain ⟨hslots, hcopies, hrootSlot, hroot⟩ := h
  have hold {job : SnapshotJob α}
      (hmem : job ∈ .value (.object address) slot :: (walk.opened address (heap address)).jobs) :
      (∃ key, job = .value ((heap address).valueAt key) (.entry address key)) ∨
        job = .finish address ∨ job ∈ .value (.object address) slot :: walk.jobs := by
    rcases List.mem_cons.mp hmem with rfl | hmem
    · exact .inr (.inr mem_cons_self)
    · rcases List.mem_append.mp hmem with hmem | hmem
      · obtain ⟨key, -, rfl⟩ := List.mem_map.mp hmem
        exact .inl ⟨key, rfl⟩
      · rcases List.mem_cons.mp hmem with rfl | hmem
        · exact .inr (.inl rfl)
        · exact .inr (.inr (mem_cons_of_mem _ hmem))
  have hpending (other : α) : pendingKeys other (.value (.object address) slot ::
          ((heap address).entryJobs address (heap address).entryKeys ++
            .finish address :: walk.jobs)) =
        pendingKeys other [.value (.object address) slot] ++
          (pendingKeys other ((heap address).entryJobs address (heap address).entryKeys) ++
            pendingKeys other walk.jobs) := by
    rw [← List.singleton_append, pendingKeys_append, pendingKeys_append]
    rfl
  have hsplit (other : α) : pendingKeys other (.value (.object address) slot :: walk.jobs) =
        pendingKeys other [.value (.object address) slot] ++ pendingKeys other walk.jobs := by
    rw [← List.singleton_append, pendingKeys_append]
  refine ⟨?_, ?_, ?_, ?_⟩
  · intro value output key hmem
    rcases hold hmem with ⟨key', hjob⟩ | hjob | hmem
    · obtain ⟨rfl, hslot⟩ := SnapshotJob.value.inj hjob
      obtain ⟨rfl, rfl⟩ := Slot.entry.inj hslot
      exact ⟨by simp [Walk.opened, Walk.setState], rfl⟩
    · cases hjob
    · obtain ⟨hstate, hvalue⟩ := hslots value output key hmem
      exact ⟨marked_update address .visiting hstate, hvalue⟩
  · intro other hother
    by_cases hsame : other = address
    · subst hsame
      change pendingKeys other (.value (.object other) slot :: walk.jobs) = [] at hnone
      rw [hsplit, List.append_eq_nil_iff] at hnone
      refine ⟨[], ?_, ?_⟩
      · change (heap other).entryKeys = [] ++ pendingKeys other (.value (.object other) slot ::
          ((heap other).entryJobs other (heap other).entryKeys ++ .finish other :: walk.jobs))
        rw [hpending, hnone.1, hnone.2, pendingKeys_entryJobs_self]
        simp
      · simp [Walk.opened, Walk.setState, JsObject.copyOf]
    · have hstate : walk.states other ≠ none := by
        simpa [Walk.opened, Walk.setState, update_of_ne hsame] using hother
      obtain ⟨defined, hkeys, hcopy⟩ := hcopies other hstate
      refine ⟨defined, ?_, ?_⟩
      · rw [hkeys]
        change defined ++ pendingKeys other (.value (.object address) slot :: walk.jobs) =
          defined ++ pendingKeys other (.value (.object address) slot ::
            ((heap address).entryJobs address (heap address).entryKeys ++
              .finish address :: walk.jobs))
        rw [hpending, hsplit, pendingKeys_entryJobs_of_ne _ hsame, List.nil_append]
      · simp only [Walk.opened, Walk.setState, update_of_ne hsame]
        exact hcopy
  · intro value hmem
    rcases hold hmem with ⟨key', hjob⟩ | hjob | hmem
    · cases (SnapshotJob.value.inj hjob).2
    · cases hjob
    · exact hrootSlot value hmem
  · refine hroot.imp_right fun hmem ↦ ?_
    rcases List.mem_cons.mp hmem with hjob | hmem
    · rw [hjob]
      exact mem_cons_self
    · exact mem_cons_of_mem _ (List.mem_append_right _ (mem_cons_of_mem _ hmem))

theorem Copied.finish {walk : Walk α}
    (h : Copied heap input { walk with jobs := .finish address :: walk.jobs })
    (hmarked : walk.states address ≠ none) :
    Copied heap input ((walk.freeze address).setState address .done) := by
  obtain ⟨hslots, hcopies, hrootSlot, hroot⟩ := h
  refine ⟨?_, ?_, ?_, ?_⟩
  · intro value output key hmem
    obtain ⟨hstate, hvalue⟩ := hslots value output key (mem_cons_of_mem _ hmem)
    exact ⟨marked_update address .done hstate, hvalue⟩
  · intro other hother
    by_cases hsame : other = address
    · subst hsame
      obtain ⟨defined, hkeys, hcopy⟩ := hcopies other hmarked
      refine ⟨defined, hkeys, ?_⟩
      change walk.copies other = _ at hcopy
      simp [Walk.setState, Walk.freeze, hcopy]
    · have hstate : walk.states other ≠ none := by
        simpa [Walk.setState, Walk.freeze, update_of_ne hsame] using hother
      obtain ⟨defined, hkeys, hcopy⟩ := hcopies other hstate
      refine ⟨defined, hkeys, ?_⟩
      change walk.copies other = _ at hcopy
      simp only [Walk.setState, Walk.freeze, if_neg hsame, update_of_ne hsame]
      exact hcopy
  · intro value hmem
    exact hrootSlot value (mem_cons_of_mem _ hmem)
  · refine hroot.imp_right fun hmem ↦ ?_
    have : SnapshotJob.value input .root ∈ walk.jobs := by simpa using hmem
    exact this

end Copied

section Runs

/-- What holds between the jobs of a walk. -/
structure Invariant (heap : α → JsObject α) (input : Value α) (byteCapacity nodeCapacity : ℕ)
    (walk : Walk α) : Prop where
  accounts : ∃ visited, Accounts heap input byteCapacity nodeCapacity visited walk.states
    walk.budget walk.jobs
  framed : Framed heap input walk.states walk.jobs
  copied : Copied heap input walk

variable {job : SnapshotJob α} {after : Walk α}

theorem Invariant.moves {walk : Walk α}
    (h : Invariant heap input byteCapacity nodeCapacity { walk with jobs := job :: walk.jobs })
    (hmoves : Walk.Moves heap walk job after) :
    Invariant heap input byteCapacity nodeCapacity after := by
  obtain ⟨⟨visited, haccounts⟩, hframed, hcopied⟩ := h
  cases hmoves with
  | finish address =>
    have hmarked : walk.states address ≠ none := (hframed.frame [] address walk.jobs rfl).1
    exact ⟨⟨visited, haccounts.finish hmarked⟩, hframed.finish, hcopied.finish hmarked⟩
  | primitive value slot room =>
    refine ⟨⟨visited, ?_⟩, ?_, ?_⟩
    · rw [Walk.assign_states, Walk.assign_budget, Walk.assign_jobs]
      exact haccounts.settle room
    · rw [Walk.assign_states, Walk.assign_jobs]
      exact hframed.settle trivial
    · refine Copied.assign ?_
      exact ⟨hcopied.slots, hcopied.copies, hcopied.rootSlot, hcopied.root⟩
  | shared address slot noProxy done copied =>
    refine ⟨⟨visited, ?_⟩, ?_, hcopied.assign⟩
    · rw [Walk.assign_states, Walk.assign_budget, Walk.assign_jobs]
      exact haccounts.settle (Nat.zero_le _)
    · rw [Walk.assign_states, Walk.assign_jobs]
      exact hframed.settle done
  | enter address slot fresh plain nodes bytes =>
    refine ⟨⟨insert address visited, ?_⟩, ?_, (hcopied.opened fresh).assign⟩
    · rw [Walk.assign_states, Walk.assign_budget, Walk.assign_jobs]
      exact haccounts.enter fresh nodes bytes
    · rw [Walk.assign_states, Walk.assign_jobs]
      exact hframed.enter fresh plain

theorem Reached.moves {walk : Walk α} {occurrences : List α}
    (h : Reached heap occurrences walk.states (job :: walk.jobs))
    (hframed : Framed heap input walk.states (job :: walk.jobs))
    (hmoves : Walk.Moves heap walk job after) :
    Reached heap occurrences after.states after.jobs := by
  cases hmoves with
  | finish address =>
    have hmarked : walk.states address ≠ none := (hframed.frame [] address walk.jobs rfl).1
    refine h.pop fun other hother ↦ ?_
    by_cases hsame : other = address
    · exact hsame ▸ h.visited address hmarked
    · refine h.visited other ?_
      simpa [Walk.setState, Walk.freeze, update_of_ne hsame] using hother
  | primitive value slot room =>
    rw [Walk.assign_states, Walk.assign_jobs]
    exact h.pop h.visited
  | shared address slot noProxy done copied =>
    rw [Walk.assign_states, Walk.assign_jobs]
    exact h.pop h.visited
  | enter address slot fresh plain nodes bytes =>
    rw [Walk.assign_states, Walk.assign_jobs]
    exact h.enter

/-- What a job may still cost: an object takes a job for each of its keys and one to finish. -/
def SnapshotJob.weight : SnapshotJob α → ℕ
  | .value _ _ => 2
  | .finish _ => 1

/-- A bound of the jobs that a walk still takes. -/
def Walk.measure (walk : Walk α) : ℕ :=
  2 * walk.budget.remainingNodes + (walk.jobs.map SnapshotJob.weight).sum

theorem Walk.Moves.measure_lt {walk : Walk α} (h : Walk.Moves heap walk job after) :
    after.measure < { walk with jobs := job :: walk.jobs }.measure := by
  unfold Walk.measure
  rw [map_cons, sum_cons]
  cases h with
  | finish address =>
    simp only [Walk.setState, Walk.freeze, SnapshotJob.weight]
    omega
  | primitive value slot room =>
    rw [Walk.assign_budget, Walk.assign_jobs]
    simp only [SnapshotBudget.spendBytes, SnapshotJob.weight]
    omega
  | shared address slot noProxy done copied =>
    rw [Walk.assign_budget, Walk.assign_jobs]
    simp only [SnapshotJob.weight]
    omega
  | enter address slot fresh plain nodes bytes =>
    have hjobs (keys : List Text) :
        (((heap address).entryJobs address keys).map SnapshotJob.weight).sum = 2 * keys.length := by
      rw [JsObject.entryJobs, List.map_map]
      simp [Function.comp_def, SnapshotJob.weight, Nat.mul_comm]
    rw [Walk.assign_budget, Walk.assign_jobs, Walk.opened, List.map_append, List.sum_append, hjobs,
      plain.length_entryKeys, map_cons, sum_cons]
    simp only [SnapshotBudget.spendBytes, SnapshotBudget.spendNodes, SnapshotJob.weight]
    omega

theorem Walk.run_ok {keeps : Walk α → Prop}
    (hmoves : ∀ (walk after : Walk α) job, keeps { walk with jobs := job :: walk.jobs } →
      Walk.Moves heap walk job after → keeps after)
    {fuel : ℕ} {walk final : Walk α} (hfuel : walk.measure ≤ fuel) (h : keeps walk)
    (hrun : Walk.run heap fuel walk = .ok final) : keeps final ∧ final.jobs = [] := by
  induction fuel generalizing walk with
  | zero =>
    obtain rfl := Except.ok.inj hrun
    refine ⟨h, ?_⟩
    cases hjobs : walk.jobs with
    | nil => rfl
    | cons job jobs =>
      rw [Walk.measure, hjobs, map_cons, sum_cons] at hfuel
      cases job <;> simp [SnapshotJob.weight] at hfuel
  | succ fuel ih =>
    rw [Walk.run] at hrun
    cases hjobs : walk.jobs with
    | nil =>
      simp only [hjobs, Except.ok.injEq] at hrun
      subst hrun
      exact ⟨h, hjobs⟩
    | cons job jobs =>
      simp only [hjobs] at hrun
      cases hstep : Walk.step heap { walk with jobs } job with
      | error failure =>
        rw [hstep] at hrun
        cases hrun
      | ok after =>
        rw [hstep] at hrun
        have hmove := Walk.step_eq_ok.mp hstep
        have hwalk : { walk with jobs := job :: jobs } = walk := by rw [← hjobs]
        have hless := hmove.measure_lt
        refine ih ?_ (hmoves { walk with jobs } after job ?_ hmove) hrun
        · have : after.measure < walk.measure := by rwa [← hwalk]
          omega
        · change keeps { walk with jobs := job :: jobs }
          rwa [hwalk]

theorem Walk.run_exists {keeps : Walk α → Prop}
    (hmoves : ∀ (walk after : Walk α) job, keeps { walk with jobs := job :: walk.jobs } →
      Walk.Moves heap walk job after → keeps after)
    (hmove : ∀ (walk : Walk α) job, keeps { walk with jobs := job :: walk.jobs } →
      ∃ after, Walk.Moves heap walk job after)
    (fuel : ℕ) {walk : Walk α} (h : keeps walk) : ∃ final, Walk.run heap fuel walk = .ok final := by
  induction fuel generalizing walk with
  | zero => exact ⟨walk, rfl⟩
  | succ fuel ih =>
    rw [Walk.run]
    cases hjobs : walk.jobs with
    | nil => exact ⟨walk, rfl⟩
    | cons job jobs =>
      have hwalk : { walk with jobs := job :: jobs } = walk := by rw [← hjobs]
      have hkeeps : keeps { { walk with jobs } with jobs := job :: jobs } := by
        change keeps { walk with jobs := job :: jobs }
        rwa [hwalk]
      obtain ⟨after, hafter⟩ := hmove { walk with jobs } job hkeeps
      obtain ⟨final, hfinal⟩ := ih (hmoves { walk with jobs } after job hkeeps hafter)
      refine ⟨final, ?_⟩
      simp only [Walk.step_eq_ok.mpr hafter]
      exact hfinal

end Runs

section Result

/-- The bytes of an input with every object counted once. -/
def countedBytes (heap : α → JsObject α) (input : Value α) (occurrences : List α) : ℕ :=
  input.ownBytes + ∑ address ∈ occurrences.toFinset, (heap address).ownBytes

/-- The nodes of an input with every object counted once. -/
def countedNodes (heap : α → JsObject α) (occurrences : List α) : ℕ :=
  1 + ∑ address ∈ occurrences.toFinset, (heap address).keys.length

def Walk.begun (input : Value α) (byteCapacity nodeCapacity : ℕ) : Walk α :=
  { Walk.start input byteCapacity nodeCapacity with
    budget := ⟨byteCapacity, nodeCapacity - 1, 0, 1⟩ }

theorem snapshotWalk_eq {byteCapacity nodeCapacity : ℕ} (h : 1 ≤ nodeCapacity) :
    snapshotWalk heap input byteCapacity nodeCapacity =
      Walk.run heap (2 * nodeCapacity) (Walk.begun input byteCapacity nodeCapacity) := by
  rw [snapshotWalk, SnapshotBudget.consumeNodes_eq_ok.mpr ⟨h, rfl⟩]
  rfl

omit [DecidableEq α] in
theorem not_finish_mem_root {above below : List (SnapshotJob α)} {address : α}
    (h : [SnapshotJob.value input .root] = above ++ .finish address :: below) : False := by
  have hmem : SnapshotJob.finish address ∈ [SnapshotJob.value input .root] :=
    h ▸ List.mem_append_right above mem_cons_self
  simp at hmem

theorem invariant_begun (h : 1 ≤ nodeCapacity) : Invariant heap input byteCapacity nodeCapacity
      (Walk.begun input byteCapacity nodeCapacity) where
  accounts := by
    refine ⟨∅, by simp [Walk.begun, Walk.start], ?_, ?_, ?_, ?_⟩
    · simp [Walk.begun, Walk.start, SnapshotJob.ownBytes]
    · simp [Walk.begun]
    · simp [Walk.begun]
    · simp only [Walk.begun]
      omega
  framed := by
    refine ⟨.inl ⟨.root, mem_cons_self⟩, ?_, ?_, ?_⟩
    · intro above address below hjobs
      exact (not_finish_mem_root hjobs).elim
    · simp [Walk.begun, Walk.start]
    · simp [Walk.begun, Walk.start]
  copied := by
    refine ⟨by simp [Walk.begun, Walk.start], by simp [Walk.begun, Walk.start], ?_,
      .inr mem_cons_self⟩
    simp [Walk.begun, Walk.start]

variable {occurrences : List α}

omit [DecidableEq α] in
theorem reached_begun {tree : JsonTree Primitive}
    (h : Unfolds heap (.value input tree) occurrences) :
    Reached heap occurrences (Walk.begun input byteCapacity nodeCapacity).states
      (Walk.begun input byteCapacity nodeCapacity).jobs := by
  refine ⟨by simp [Walk.begun, Walk.start], ?_, ?_⟩
  · intro value slot hmem
    obtain ⟨rfl, -⟩ := SnapshotJob.value.inj (List.mem_singleton.mp hmem)
    exact ⟨tree, occurrences, h, fun _ ↦ id⟩
  · intro above address below hjobs
    exact (not_finish_mem_root hjobs).elim

omit [DecidableEq α] in
theorem measure_begun (h : 1 ≤ nodeCapacity) :
    (Walk.begun input byteCapacity nodeCapacity).measure ≤ 2 * nodeCapacity := by
  simp only [Walk.measure, Walk.begun, Walk.start, map_cons, List.map_nil, sum_cons,
    List.sum_nil, SnapshotJob.weight]
  omega

theorem Reached.exists_moves {walk : Walk α} {job : SnapshotJob α}
    (h : Reached heap occurrences walk.states (job :: walk.jobs))
    (hinvariant : Invariant heap input byteCapacity nodeCapacity
      { walk with jobs := job :: walk.jobs })
    (hbytes : countedBytes heap input occurrences ≤ byteCapacity)
    (hnodes : countedNodes heap occurrences ≤ nodeCapacity) :
    ∃ after, Walk.Moves heap walk job after := by
  obtain ⟨⟨visited, haccounts⟩, hframed, hcopied⟩ := hinvariant
  have hsubset : visited ⊆ occurrences.toFinset := by
    intro address hmem
    exact mem_toFinset.mpr (h.visited address ((haccounts.marked address).mp hmem))
  obtain ⟨hmarked, hcharged, hcounted, hbyteRoom, hnodeRoom⟩ := haccounts
  simp only [map_cons, sum_cons] at hcharged hcounted hbyteRoom hnodeRoom
  unfold countedBytes at hbytes
  unfold countedNodes at hnodes
  cases job with
  | finish address => exact ⟨_, .finish address⟩
  | value value slot =>
    obtain ⟨tree, inner, hunfolds, hinner⟩ := h.unfolds value slot mem_cons_self
    cases hunfolds with
    | primitive value =>
      have hsum := Finset.sum_le_sum_of_subset (f := fun address ↦ (heap address).ownBytes) hsubset
      refine ⟨_, .primitive value slot ?_⟩
      have hvalue : (SnapshotJob.value (.primitive value) slot).ownBytes = value.charges.sum := rfl
      omega
    | @object address members inner plain entries =>
      have hstate : walk.states address ≠ some .visiting := h.not_visiting hframed
      cases hstates : walk.states address with
      | none =>
        have hnew : address ∉ visited := fun hmem ↦ (hmarked address).mp hmem hstates
        have hsubset' : insert address visited ⊆ occurrences.toFinset := by
          refine Finset.insert_subset (mem_toFinset.mpr ?_) hsubset
          exact hinner address mem_cons_self
        have hbytesSum :=
          Finset.sum_le_sum_of_subset (f := fun address ↦ (heap address).ownBytes) hsubset'
        have hnodesSum :=
          Finset.sum_le_sum_of_subset (f := fun address ↦ (heap address).keys.length) hsubset'
        rw [Finset.sum_insert hnew] at hbytesSum hnodesSum
        have hown := (heap address).ownBytes_eq address
        refine ⟨_, .enter address slot hstates plain ?_ ?_⟩
        · omega
        · omega
      | some state =>
        cases state with
        | visiting => exact absurd hstates hstate
        | done =>
          obtain ⟨defined, -, hcopy⟩ := hcopied.copies address (by simp [hstates])
          refine ⟨_, .shared address slot plain.isProxy hstates ?_⟩
          simp only at hcopy
          simp [hcopy]

/-- The walk of an input: when it does not fail, the input unfolds, each of its objects has a
complete and frozen copy, and the budget has counted each of them once. -/
theorem snapshotWalk_ok {walk : Walk α}
    (h : snapshotWalk heap input byteCapacity nodeCapacity = .ok walk) :
    ∃ tree occurrences, Unfolds heap (.value input tree) occurrences ∧
      (∀ address ∈ occurrences, walk.copies address =
        some ⟨(heap address).copyOf (heap address).entryKeys, true⟩) ∧
      walk.root = some input ∧
      walk.budget.retainedBytes = countedBytes heap input occurrences ∧
      walk.budget.retainedNodes = countedNodes heap occurrences ∧
      countedBytes heap input occurrences ≤ byteCapacity ∧
      countedNodes heap occurrences ≤ nodeCapacity := by
  have hpositive : 1 ≤ nodeCapacity := by
    by_contra hzero
    obtain rfl : nodeCapacity = 0 := by omega
    cases h
  rw [snapshotWalk_eq hpositive] at h
  obtain ⟨hinvariant, hjobs⟩ := @Walk.run_ok α _ heap
    (Invariant heap input byteCapacity nodeCapacity)
    (fun walk after job hkeeps hmoves ↦ hkeeps.moves hmoves)
    _ _ _ (measure_begun hpositive) (invariant_begun hpositive) h
  have hframed := hinvariant.framed
  rw [hjobs] at hframed
  obtain ⟨tree, occurrences, hunfolds, hdone⟩ := hframed.unfolds
  obtain ⟨⟨-, hreached⟩, -⟩ := @Walk.run_ok α _ heap
    (fun walk ↦ Invariant heap input byteCapacity nodeCapacity walk ∧
      Reached heap occurrences walk.states walk.jobs)
    (fun walk after job hkeeps hmoves ↦
      ⟨hkeeps.1.moves hmoves, Reached.moves hkeeps.2 hkeeps.1.framed hmoves⟩)
    _ _ _ (measure_begun hpositive) ⟨invariant_begun hpositive, reached_begun hunfolds⟩ h
  obtain ⟨⟨visited, haccounts⟩, -, hcopied⟩ := hinvariant
  have hvisited : visited = occurrences.toFinset := by
    ext address
    rw [haccounts.marked address, mem_toFinset]
    exact ⟨hreached.visited address, fun hmem ↦ by simp [hdone address hmem]⟩
  obtain ⟨-, hbytes, hnodes, hbyteRoom, hnodeRoom⟩ := haccounts
  rw [hjobs, List.map_nil, List.sum_nil, Nat.add_zero, hvisited] at hbytes
  rw [hvisited] at hnodes
  refine ⟨tree, occurrences, hunfolds, ?_, ?_, hbytes, hnodes, ?_, ?_⟩
  · intro address hmem
    obtain ⟨defined, hkeys, hcopy⟩ := hcopied.copies address (by simp [hdone address hmem])
    rw [hjobs] at hkeys
    obtain rfl : (heap address).entryKeys = defined := by simpa [pendingKeys] using hkeys
    rw [hcopy, hdone address hmem]
    rfl
  · refine hcopied.root.resolve_right ?_
    simp [hjobs]
  · unfold countedBytes
    omega
  · unfold countedNodes
    omega

theorem snapshotWalk_exists {tree : JsonTree Primitive}
    (h : Unfolds heap (.value input tree) occurrences)
    (hbytes : countedBytes heap input occurrences ≤ byteCapacity)
    (hnodes : countedNodes heap occurrences ≤ nodeCapacity) :
    ∃ walk, snapshotWalk heap input byteCapacity nodeCapacity = .ok walk := by
  have hpositive : 1 ≤ nodeCapacity := (Nat.le_add_right 1 _).trans hnodes
  rw [snapshotWalk_eq hpositive]
  exact @Walk.run_exists α _ heap
    (fun walk ↦ Invariant heap input byteCapacity nodeCapacity walk ∧
      Reached heap occurrences walk.states walk.jobs)
    (fun walk after job hkeeps hmoves ↦
      ⟨hkeeps.1.moves hmoves, Reached.moves hkeeps.2 hkeeps.1.framed hmoves⟩)
    (fun walk job hkeeps ↦ Reached.exists_moves hkeeps.2 hkeeps.1 hbytes hnodes)
    _ _ ⟨invariant_begun hpositive, reached_begun h⟩

theorem snapshotJson_eq_ok {result : SnapshotValue α} :
    snapshotJson heap input byteCapacity nodeCapacity = .ok result ↔
      ∃ walk, snapshotWalk heap input byteCapacity nodeCapacity = .ok walk ∧ result =
          ⟨walk.root, walk.copies, walk.budget.retainedBytes, walk.budget.retainedNodes⟩ := by
  unfold snapshotJson
  cases snapshotWalk heap input byteCapacity nodeCapacity with
  | error failure => simp
  | ok walk => simp [eq_comm]

omit [DecidableEq α] in
theorem JsObject.ownBytes_pos (source : JsObject α) : 0 < source.ownBytes := by
  unfold ownBytes bracketBytes
  split <;> omega

/-- A value is accepted exactly when it is made of plain acyclic JSON values and fits the budget
with every object counted once. Its copy, whose objects go by the addresses of the originals, is
frozen and has the same tree. The retained bytes and nodes are those of the text and of the tree,
except that an object counts once for all its occurrences. -/
theorem snapshotJson_counts_once (heap : α → JsObject α) (input : Value α)
    (byteCapacity nodeCapacity : ℕ) :
    ((∃ result, snapshotJson heap input byteCapacity nodeCapacity = .ok result) ↔
      ∃ tree occurrences, Unfolds heap (.value input tree) occurrences ∧
        countedBytes heap input occurrences ≤ byteCapacity ∧
        countedNodes heap occurrences ≤ nodeCapacity) ∧
    ∀ result tree occurrences,
      snapshotJson heap input byteCapacity nodeCapacity = .ok result →
      Unfolds heap (.value input tree) occurrences →
        (∃ copied : α → JsObject α, result.value = some input ∧
          (∀ address ∈ occurrences, result.copies address = some ⟨copied address, true⟩) ∧
          Unfolds copied (.value input tree) occurrences) ∧
        result.retainedBytes = countedBytes heap input occurrences ∧
        result.retainedNodes = countedNodes heap occurrences ∧
        result.retainedBytes ≤ utf8Length (tree.text Primitive.text) ∧
        (result.retainedBytes = utf8Length (tree.text Primitive.text) ↔ occurrences.Nodup) ∧
        result.retainedNodes ≤ tree.valueCount ∧
        (result.retainedNodes = tree.valueCount ↔
          ∀ address, 1 < occurrences.count address → (heap address).keys = []) := by
  refine ⟨⟨?_, ?_⟩, ?_⟩
  · rintro ⟨result, hresult⟩
    obtain ⟨walk, hwalk, rfl⟩ := snapshotJson_eq_ok.mp hresult
    obtain ⟨tree, occurrences, hunfolds, -, -, -, -, hbytes, hnodes⟩ := snapshotWalk_ok hwalk
    exact ⟨tree, occurrences, hunfolds, hbytes, hnodes⟩
  · rintro ⟨tree, occurrences, hunfolds, hbytes, hnodes⟩
    obtain ⟨walk, hwalk⟩ := snapshotWalk_exists hunfolds hbytes hnodes
    exact ⟨_, snapshotJson_eq_ok.mpr ⟨walk, hwalk, rfl⟩⟩
  · intro result tree occurrences hresult hunfolds
    obtain ⟨walk, hwalk, rfl⟩ := snapshotJson_eq_ok.mp hresult
    obtain ⟨tree', others, hunfolds', hcopies, hroot, hbytes, hnodes, -, -⟩ := snapshotWalk_ok hwalk
    obtain ⟨rfl, rfl⟩ := hunfolds.determined tree' others hunfolds'
    obtain ⟨htext, hcount⟩ := hunfolds.accounted
    have hbytesLe := sum_toFinset_le (fun address ↦ (heap address).ownBytes) others
    have hnodesLe := sum_toFinset_le (fun address ↦ (heap address).keys.length) others
    refine ⟨⟨_, hroot, hcopies, hunfolds.copied⟩, hbytes, hnodes, ?_, ?_, ?_, ?_⟩
    · rw [hbytes, htext, countedBytes]
      exact Nat.add_le_add_left hbytesLe _
    · rw [hbytes, htext, countedBytes, Nat.add_left_cancel_iff, sum_toFinset_eq_iff,
        List.nodup_iff_count_le_one]
      refine forall_congr' fun address ↦ ?_
      have := (heap address).ownBytes_pos
      constructor
      · intro hzero
        by_contra htwice
        have := hzero (by omega)
        omega
      · intro hle htwice
        omega
    · rw [hnodes, hcount, countedNodes]
      exact Nat.add_le_add_left hnodesLe _
    · rw [hnodes, hcount, countedNodes, Nat.add_left_cancel_iff, sum_toFinset_eq_iff]
      simp only [List.length_eq_zero_iff]

end Result

section Shared

/-- An array that has the array `[null]` twice. -/
def twice : Bool → JsObject Bool
  | true =>
    { isProxy := false, prototype := .arrayPrototype, isArray := true, symbols := [], length := 2
      keys := [[48], [49]]
      property := fun key ↦
        if key = [48] ∨ key = [49] then some (.data (.object false)) else none }
  | false =>
    { isProxy := false, prototype := .arrayPrototype, isArray := true, symbols := [], length := 1
      keys := [[48]]
      property := fun key ↦ if key = [48] then some (.data (.primitive .null)) else none }

/-- The tree `[[null],[null]]`. -/
def twiceTree : JsonTree Primitive :=
  .array [.array [.leaf .null], .array [.leaf .null]]

theorem entryKeys_twice :
    (twice true).entryKeys = [[48], [49]] ∧ (twice false).entryKeys = [[48]] := by decide

theorem unfolds_twice : Unfolds twice (.value (.object true) twiceTree) [true, false, false] := by
  have hplain (address : Bool) : (twice address).Plain := by
    cases address
    · refine ⟨rfl, rfl, rfl, fun _ ↦ rfl, ?_⟩
      rw [entryKeys_twice.2]
      simp [twice, JsObject.valueAt]
    · refine ⟨rfl, rfl, rfl, fun _ ↦ rfl, ?_⟩
      rw [entryKeys_twice.1]
      simp [twice, JsObject.valueAt]
  have hinner : Unfolds twice (.value (.object false) (.array [.leaf .null])) [false] := by
    refine @Unfolds.object Bool twice false [([48], .leaf .null)] [] (hplain false) ?_
    rw [entryKeys_twice.2]
    exact @Unfolds.cons Bool twice (twice false) [48] [] _ _ [] [] (.primitive .null) (.nil _)
  refine @Unfolds.object Bool twice true
    [([48], .array [.leaf .null]), ([49], .array [.leaf .null])] [false, false] (hplain true) ?_
  rw [entryKeys_twice.1]
  exact @Unfolds.cons Bool twice (twice true) [48] [[49]] _ _ [false] [false] hinner
    (@Unfolds.cons Bool twice (twice true) [49] [] _ _ [false] [] hinner (.nil _))

/-- The second occurrence of an array is not counted: nine bytes are retained for a text of
fifteen, and four nodes for five values. With less room the same value is refused. -/
theorem snapshotJson_twice :
    (snapshotJson twice (.object true) 100 100).toOption.map
        (fun result ↦ (result.retainedBytes, result.retainedNodes)) = some (9, 4) ∧
      Unfolds twice (.value (.object true) twiceTree) [true, false, false] ∧
      utf8Length (twiceTree.text Primitive.text) = 15 ∧ twiceTree.valueCount = 5 ∧
      (snapshotJson twice (.object true) 8 4).isOk = false :=
  ⟨by decide, unfolds_twice, by decide, by decide, by decide⟩

/-- The array that has another one twice is accepted. -/
theorem snapshotJson_twice_accepted :
    ∃ result, snapshotJson twice (.object true) 9 4 = .ok result :=
  (snapshotJson_counts_once twice (.object true) 9 4).1.mpr
    ⟨twiceTree, [true, false, false], unfolds_twice, by decide, by decide⟩

end Shared

end Bdp.Pagination
