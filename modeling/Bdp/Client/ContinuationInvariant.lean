import Bdp.Client.Continuations

/-!
# Ownership of continuations

The invariant of the continuation registry over every run of its calls. A reservation and a
restoration only permute the live capabilities, a commit takes the consumed one out and adds the
issued one, and forgetting leaves a sublist. The laws of the traversals are therefore stated for the
list of live capabilities, up to its order.
-/

namespace Bdp.Client

open ContinuationRegistry
open List (map_cons mem_append mem_map)

variable {Scope : Type}

/-- Two capabilities are not both history traversals of one owner at one URL. -/
def Exclusive (left right : Capability Scope) : Prop :=
  ¬ (left.owner = right.owner ∧ left.url = right.url ∧
    isHistory left.context = true ∧ isHistory right.context = true)

/-- Two incident-Link traversals of one owner, URL and Bead go in one direction. -/
def SameDirection (left right : Capability Scope) : Prop :=
  ∀ bead direction direction', left.owner = right.owner → left.url = right.url →
    left.context = .beadLinks bead direction → right.context = .beadLinks bead direction' →
      direction = direction'

variable {right left : Capability Scope}

theorem Exclusive.symm (h : Exclusive left right) : Exclusive right left :=
  fun same ↦ h ⟨same.1.symm, same.2.1.symm, same.2.2.2, same.2.2.1⟩

theorem SameDirection.symm (h : SameDirection left right) : SameDirection right left :=
  fun bead direction direction' owner url first second ↦
    (h bead direction' direction owner.symm url.symm second first).symm

/-- The laws of the live capabilities and of everything issued so far. -/
structure Traversals (live : List (Capability Scope)) (histories : ℕ → Finset AbsoluteHttpUrl)
    (nextLineage : ℕ) (trace : List (Capability Scope)) : Prop where
  /-- A traversal holds one capability at a time. -/
  lineages : (live.map Capability.lineage).Nodup
  fresh : ∀ capability ∈ trace, capability.lineage < nextLineage
  issued : ∀ capability ∈ live, capability ∈ trace
  /-- The history of a live traversal is what has been issued to it. -/
  history : ∀ capability ∈ live, ∀ url, url ∈ histories capability.lineage ↔
    ∃ earlier ∈ trace, earlier.lineage = capability.lineage ∧ earlier.url = url
  /-- No URL is issued twice to one traversal. -/
  once : (trace.map fun capability ↦ (capability.lineage, capability.url)).Nodup
  exclusive : live.Pairwise Exclusive
  direction : live.Pairwise SameDirection

variable {history : Finset AbsoluteHttpUrl}

namespace Traversals

variable {live rest trace : List (Capability Scope)} {histories : ℕ → Finset AbsoluteHttpUrl}
variable {nextLineage : ℕ}

theorem empty : Traversals ([] : List (Capability Scope)) histories nextLineage [] := by
  constructor <;> simp

variable {capability : Capability Scope}

section

variable (h : Traversals live histories nextLineage trace)
include h

theorem perm (permuted : rest.Perm live) : Traversals rest histories nextLineage trace where
  lineages := (permuted.map Capability.lineage).nodup_iff.mpr h.lineages
  fresh := h.fresh
  issued := fun capability member ↦ h.issued capability (permuted.mem_iff.mp member)
  history := fun capability member ↦ h.history capability (permuted.mem_iff.mp member)
  once := h.once
  exclusive := (permuted.pairwise_iff fun h ↦ h.symm).mpr h.exclusive
  direction := (permuted.pairwise_iff fun h ↦ h.symm).mpr h.direction

theorem sublist (kept : rest.Sublist live) : Traversals rest histories nextLineage trace where
  lineages := (kept.map Capability.lineage).nodup h.lineages
  fresh := h.fresh
  issued := fun capability member ↦ h.issued capability (kept.subset member)
  history := fun capability member ↦ h.history capability (kept.subset member)
  once := h.once
  exclusive := h.exclusive.sublist kept
  direction := h.direction.sublist kept

theorem lineage_lt (member : capability ∈ live) : capability.lineage < nextLineage :=
  h.fresh capability (h.issued capability member)

end

theorem issue (h : Traversals rest histories nextLineage trace) {nextLineage' : ℕ}
    (absent : capability.lineage ∉ rest.map Capability.lineage)
    (le : nextLineage ≤ nextLineage') (lt : capability.lineage < nextLineage')
    (historyOf : ∀ url, url ∈ history ↔
      ∃ earlier ∈ trace, earlier.lineage = capability.lineage ∧ earlier.url = url)
    (new : capability.url ∉ history) (exclusive : ∀ other ∈ rest, Exclusive capability other)
    (direction : ∀ other ∈ rest, SameDirection capability other) :
    Traversals (capability :: rest)
      (Function.update histories capability.lineage (insert capability.url history))
      nextLineage' (trace ++ [capability]) where
  lineages := by
    rw [map_cons, List.nodup_cons]
    exact ⟨absent, h.lineages⟩
  fresh := by
    intro other member
    cases mem_append.mp member with
    | inl earlier => exact (h.fresh other earlier).trans_le le
    | inr last =>
      rw [List.mem_singleton.mp last]
      exact lt
  issued := by
    intro other member
    cases List.mem_cons.mp member with
    | inl same => simp [same]
    | inr old => exact List.mem_append_left _ (h.issued other old)
  history := by
    intro other member url
    cases List.mem_cons.mp member with
    | inl same =>
      subst same
      rw [Function.update_self, Finset.mem_insert, historyOf]
      simp only [mem_append, List.mem_singleton]
      grind
    | inr old =>
      have different : other.lineage ≠ capability.lineage :=
        fun same ↦ absent (same ▸ List.mem_map_of_mem old)
      rw [Function.update_of_ne different, h.history other old url]
      simp only [mem_append, List.mem_singleton]
      grind
  once := by
    rw [List.map_append, List.nodup_append]
    refine ⟨h.once, by simp, ?_⟩
    intro pair earlier last member same
    have issuedEarlier : capability.url ∈ history := by
      rw [historyOf]
      simp only [map_cons, List.map_nil, List.mem_singleton] at member
      simp only [mem_map] at earlier
      grind
    exact new issuedEarlier
  exclusive := List.pairwise_cons.mpr ⟨exclusive, h.exclusive⟩
  direction := List.pairwise_cons.mpr ⟨direction, h.direction⟩

end Traversals

/-- The sum of the sizes of the histories of the listed traversals. -/
def historyTotal (histories : ℕ → Finset AbsoluteHttpUrl) (live : List (Capability Scope)) : ℤ :=
  (live.map fun capability ↦ ((histories capability.lineage).card : ℤ)).sum

section

variable (histories : ℕ → Finset AbsoluteHttpUrl)
include histories

@[simp]
theorem historyTotal_cons (capability : Capability Scope) (live : List (Capability Scope)) :
    historyTotal histories (capability :: live) =
      (histories capability.lineage).card + historyTotal histories live := by
  simp [historyTotal]

theorem historyTotal_append (front back : List (Capability Scope)) :
    historyTotal histories (front ++ back) =
      historyTotal histories front + historyTotal histories back := by
  simp [historyTotal]

theorem historyTotal_perm {front back : List (Capability Scope)} (permuted : front.Perm back) :
    historyTotal histories front = historyTotal histories back :=
  (permuted.map _).sum_eq

theorem historyTotal_nonneg (live : List (Capability Scope)) : 0 ≤ historyTotal histories live := by
  apply List.sum_nonneg
  intro size member
  have h := mem_map.mp member
  grind

theorem historyTotal_update (lineage : ℕ)
    (history : Finset AbsoluteHttpUrl) {live : List (Capability Scope)}
    (absent : lineage ∉ live.map Capability.lineage) :
    historyTotal (Function.update histories lineage history) live =
      historyTotal histories live := by
  unfold historyTotal
  congr 1
  apply List.map_congr_left
  intro capability member
  have different : capability.lineage ≠ lineage :=
    fun same ↦ absent (same ▸ List.mem_map_of_mem member)
  rw [Function.update_of_ne different]

end

/-- What holds after every run: the counters are exact and bounded, and the traversals lawful. -/
structure Consistent [DecidableEq Scope] (registry : ContinuationRegistry Scope)
    (trace : List (Capability Scope)) : Prop where
  size_eq : registry.size = registry.entries.length + registry.leases.length
  size_le : registry.size ≤ MAXIMUM_CONTINUATION_CONTEXTS
  historySize_eq : registry.historySize = historyTotal registry.histories registry.live
  historySize_le : registry.historySize ≤ MAXIMUM_CONTINUATION_HISTORY_ENTRIES
  traversals : Traversals registry.live registry.histories registry.nextLineage trace

theorem ContinuationRegistry.length_live (registry : ContinuationRegistry Scope) :
    (registry.live.length : ℤ) = registry.entries.length + registry.leases.length := by
  simp [live]

theorem Consistent.moved [DecidableEq Scope] {registry moved : ContinuationRegistry Scope}
    {trace : List (Capability Scope)} (h : Consistent registry trace)
    (permuted : moved.live.Perm registry.live) (size : moved.size = registry.size)
    (historySize : moved.historySize = registry.historySize)
    (histories : moved.histories = registry.histories)
    (nextLineage : moved.nextLineage = registry.nextLineage) : Consistent moved trace where
  size_eq := by
    have lengths := permuted.length_eq
    have total := h.size_eq
    simp only [live, List.length_append, List.length_map] at lengths
    omega
  size_le := size ▸ h.size_le
  historySize_eq := by
    rw [historySize, histories, historyTotal_perm _ permuted]
    exact h.historySize_eq
  historySize_le := historySize ▸ h.historySize_le
  traversals := by
    rw [histories, nextLineage]
    exact h.traversals.perm permuted

variable {isMatch : ContinuationContext → Bool} {next : Option AbsoluteHttpUrl}
  {error : RegistryError}

namespace ContinuationRegistry

variable [DecidableEq Scope] {registry : ContinuationRegistry Scope}
variable {trace : List (Capability Scope)}
variable {owner : Option Scope} {url : AbsoluteHttpUrl}

theorem reserve_eq_some {lease : ContinuationLease Scope}
    (h : (registry.reserve url owner isMatch).2 = some lease) :
    lease.toCapability ∈ registry.entries ∧ lease.url = url ∧ lease.owner = owner ∧
      isMatch lease.context = true := by
  unfold reserve at h
  dsimp only at h
  split at h
  · cases h
  case h_2 entry found =>
    have member := List.mem_of_find?_eq_some found
    have wanted := List.find?_some found
    simp only [Bool.and_eq_true, beq_iff_eq] at wanted
    cases h
    exact ⟨member, wanted.1, wanted.2.1, wanted.2.2⟩

theorem perm_cons_eraseP {α : Type} {wanted : α → Bool} {entries : List α} {entry : α}
    (found : entries.find? wanted = some entry) :
    entries.Perm (entry :: entries.eraseP wanted) := by
  induction entries with
  | nil => cases found
  | cons head tail ih =>
    by_cases match_head : wanted head = true
    · rw [List.find?_cons_of_pos match_head] at found
      cases found
      rw [List.eraseP_cons_of_pos match_head]
    · rw [List.find?_cons_of_neg match_head] at found
      rw [List.eraseP_cons_of_neg match_head]
      exact ((ih found).cons head).trans (List.Perm.swap entry head _)

theorem live_reserve (registry : ContinuationRegistry Scope) (url : AbsoluteHttpUrl)
    (owner : Option Scope) (isMatch : ContinuationContext → Bool) :
    (registry.reserve url owner isMatch).1.live.Perm registry.live := by
  unfold reserve
  dsimp only
  split
  · exact List.Perm.refl _
  case h_2 entry found =>
    have taken := perm_cons_eraseP found
    simp only [live, List.map_append, map_cons, List.map_nil, ← List.append_assoc]
    exact (List.perm_append_singleton _ _).trans (taken.symm.append_right _)

theorem live_perm_erase {lease : ContinuationLease Scope} (active : lease ∈ registry.leases) :
    registry.live.Perm (lease.toCapability ::
      (registry.entries ++ (registry.leases.erase lease).map ContinuationLease.toCapability)) := by
  have taken := (List.perm_cons_erase active).map ContinuationLease.toCapability
  exact (taken.append_left registry.entries).trans List.perm_middle

theorem live_restore (registry : ContinuationRegistry Scope)
    (lease : Option (ContinuationLease Scope)) :
    (registry.restore lease).live.Perm registry.live := by
  cases lease with
  | none => exact List.Perm.refl _
  | some lease =>
    by_cases active : lease ∈ registry.leases
    · simp only [restore, if_pos active]
      apply List.Perm.trans _ (live_perm_erase active).symm
      simp only [live, List.append_assoc]
      exact List.perm_middle
    · simp only [restore, if_neg active]
      exact List.Perm.refl _

theorem check_eq_none {refused : Prop} [Decidable refused] {rest : Option RegistryError} :
    (if refused then some error else rest) = none ↔ ¬ refused ∧ rest = none := by
  split <;> simp [*]

variable {lease : Option (ContinuationLease Scope)} {context : ContinuationContext}

theorem accepted (h : registry.commitError lease next context owner = none) :
    (∀ used ∈ lease, used ∈ registry.leases ∧ used.context = context ∧ used.owner = owner ∧
      ∀ url ∈ next, url ≠ used.url ∧ url ∉ registry.histories used.lineage) ∧
    (∀ url ∈ next, registry.ambiguous url context owner = false ∧
      registry.conflicts lease url context owner = false) ∧
    registry.size - (if lease.isSome then 1 else 0) + (if next.isSome then 1 else 0) ≤
      MAXIMUM_CONTINUATION_CONTEXTS ∧
    registry.historySize - (if next.isNone then
        ((lease.map fun lease ↦ ((registry.histories lease.lineage).card : ℤ)).getD 0) else 0) +
        (if next.isSome then 1 else 0) ≤ MAXIMUM_CONTINUATION_HISTORY_ENTRIES := by
  simp only [commitError, check_eq_none] at h
  obtain ⟨active, same_context, same_owner, repeated, cycled, directions, histories, contexts,
    entries, _⟩ := h
  refine ⟨?_, ?_, not_lt.mp contexts, not_lt.mp entries⟩
  · intro used member
    cases member
    simp only [Option.any_some, decide_eq_true_eq, not_not] at active
    simp only [Option.any_some, Bool.not_eq_true', Bool.not_eq_false] at same_context
    simp only [Option.any_some, bne_iff_ne, ne_eq, not_not] at same_owner
    refine ⟨active, sameContinuationContext_iff.mp same_context, same_owner, ?_⟩
    intro url member
    cases member
    simp only [Option.any_some, beq_iff_eq] at repeated
    simp only [Option.any_some, decide_eq_true_eq] at cycled
    exact ⟨fun same ↦ repeated same.symm, cycled⟩
  · intro url member
    cases member
    exact ⟨by simpa using directions, by simpa using histories⟩

variable {other : Capability Scope}

theorem sameDirection_of_not_ambiguous
    (h : registry.ambiguous url context owner = false) (lineage : ℕ)
    (member : other ∈ registry.live) :
    SameDirection { url, context, owner, lineage } other := by
  intro bead direction direction' same_owner same_url first second
  have unambiguous : other.url = url → ambiguousDirection context owner other = false := by
    intro at_url
    simp only [ambiguous, Bool.or_eq_false_iff, List.any_eq_false, Bool.and_eq_true,
      beq_iff_eq] at h
    cases mem_append.mp member with
    | inl entry => exact Bool.eq_false_of_not_eq_true fun found ↦ h.1 other entry ⟨at_url, found⟩
    | inr leased =>
      have held := mem_map.mp leased
      grind
  have h' := unambiguous same_url.symm
  simp only at first same_owner
  simp only [ambiguousDirection, first, second, ← same_owner] at h'
  simp only [BEq.rfl, Bool.true_and, bne_eq_false_iff_eq] at h'
  exact h'.symm

theorem exclusive_of_not_conflicts
    (h : registry.conflicts lease url context owner = false) (lineage : ℕ)
    (member : other ∈ registry.entries ∨
      ∃ held ∈ registry.leases, some held ≠ lease ∧ held.toCapability = other) :
    Exclusive { url, context, owner, lineage } other := by
  intro same
  simp only [conflicts, same.2.2.1, Bool.true_and, Bool.or_eq_false_iff, List.any_eq_false,
    Bool.and_eq_true, beq_iff_eq, bne_iff_ne] at h
  cases member with
  | inl entry => exact h.1 other entry ⟨same.2.1.symm, same.1.symm, same.2.2.2⟩
  | inr held =>
    have h' := held
    grind

/-- The capabilities that remain live once the lease of a commit is consumed. -/
def remaining (registry : ContinuationRegistry Scope) (lease : Option (ContinuationLease Scope)) :
    List (Capability Scope) :=
  match lease with
  | none => registry.live
  | some lease =>
    registry.entries ++ (registry.leases.erase lease).map ContinuationLease.toCapability

theorem live_consume (registry : ContinuationRegistry Scope)
    (lease : Option (ContinuationLease Scope)) (next : Option AbsoluteHttpUrl) :
    (registry.consume lease next).live = registry.remaining lease := by
  cases lease <;> rfl

omit [DecidableEq Scope] in
theorem live_issue (registry : ContinuationRegistry Scope)
    (lease : Option (ContinuationLease Scope)) (url : AbsoluteHttpUrl)
    (context : ContinuationContext) (owner : Option Scope) :
    (registry.issue lease url context owner).live.Perm
      ({ url, context, owner
         lineage := (lease.map fun lease ↦ lease.lineage).getD registry.nextLineage } ::
        registry.live) := by
  simp only [live, issue, List.append_assoc]
  exact List.perm_middle

theorem remaining_sublist (registry : ContinuationRegistry Scope)
    (lease : Option (ContinuationLease Scope)) :
    (registry.remaining lease).Sublist registry.live := by
  cases lease with
  | none => exact List.Sublist.refl _
  | some lease => exact (List.erase_sublist.map _).append_left _

section

variable (active : ∀ used ∈ lease, used ∈ registry.leases)
include active

theorem length_remaining : (registry.live.length : ℤ) =
      (registry.remaining lease).length + (if lease.isSome then 1 else 0) := by
  cases lease with
  | none => simp [remaining]
  | some used =>
    have lengths := (live_perm_erase (active used rfl)).length_eq
    simp only [remaining, Option.isSome_some, if_true]
    rw [lengths, List.length_cons]
    simp

theorem historyTotal_remaining : historyTotal registry.histories registry.live =
      historyTotal registry.histories (registry.remaining lease) +
        (lease.map fun lease ↦ ((registry.histories lease.lineage).card : ℤ)).getD 0 := by
  cases lease with
  | none => simp [remaining]
  | some used =>
    rw [historyTotal_perm _ (live_perm_erase (active used rfl)), historyTotal_cons, add_comm]
    rfl

end

theorem mem_remaining
    (distinct : registry.leases.Nodup) (member : other ∈ registry.remaining lease) :
    other ∈ registry.entries ∨
      ∃ held ∈ registry.leases, some held ≠ lease ∧ held.toCapability = other := by
  cases lease with
  | none =>
    have h := member
    simp only [remaining, live, mem_append, mem_map] at h
    grind
  | some used =>
    have h := member
    simp only [remaining, mem_append, mem_map, distinct.mem_erase_iff] at h
    grind

omit [DecidableEq Scope] in
theorem leases_nodup {histories : ℕ → Finset AbsoluteHttpUrl} {nextLineage : ℕ}
    (h : Traversals registry.live histories nextLineage trace) : registry.leases.Nodup := by
  have lineages := h.lineages
  simp only [live, List.map_append, List.map_map, List.nodup_append] at lineages
  exact lineages.2.1.of_map

end ContinuationRegistry

namespace Consistent

variable [DecidableEq Scope] {registry : ContinuationRegistry Scope}
variable {trace : List (Capability Scope)}

section

variable (h : Consistent registry trace)
include h

theorem reserve (url : AbsoluteHttpUrl) (owner : Option Scope)
    (isMatch : ContinuationContext → Bool) :
    Consistent (registry.reserve url owner isMatch).1 trace := by
  apply h.moved (registry.live_reserve url owner isMatch)
  all_goals
    unfold ContinuationRegistry.reserve
    dsimp only
    split <;> rfl

theorem restore (lease : Option (ContinuationLease Scope)) :
    Consistent (registry.restore lease) trace := by
  apply h.moved (registry.live_restore lease)
  all_goals
    cases lease with
    | none => rfl
    | some lease =>
      simp only [ContinuationRegistry.restore]
      split <;> rfl

theorem clear : Consistent registry.clear trace where
  size_eq := rfl
  size_le := Int.zero_le_ofNat 1024
  historySize_eq := rfl
  historySize_le := Int.zero_le_ofNat 10000
  traversals := h.traversals.sublist (List.nil_sublist _)

end

variable {lease : Option (ContinuationLease Scope)}

section

variable (h : Consistent registry trace)
include h

theorem finish (active : ∀ used ∈ lease, used ∈ registry.leases) :
    Consistent (registry.consume lease none) trace := by
  have lengths := length_remaining active
  have totals := historyTotal_remaining active
  have size_eq := h.size_eq
  have historySize_eq := h.historySize_eq
  have size_le := h.size_le
  have historySize_le := h.historySize_le
  have size : (registry.consume lease none).size =
      registry.size - (if lease.isSome then 1 else 0) := by
    cases lease <;> simp [ContinuationRegistry.consume]
  have historySize : (registry.consume lease none).historySize = registry.historySize -
      (lease.map fun lease ↦ ((registry.histories lease.lineage).card : ℤ)).getD 0 := by
    cases lease <;> simp [ContinuationRegistry.consume]
  have histories : (registry.consume lease none).histories = registry.histories := by
    cases lease <;> rfl
  have nextLineage : (registry.consume lease none).nextLineage = registry.nextLineage := by
    cases lease <;> rfl
  rw [length_live] at lengths
  constructor
  · rw [← length_live, live_consume, size]
    omega
  · rw [size]
    split <;> omega
  · rw [live_consume, historySize, histories]
    omega
  · have nonneg : 0 ≤ (lease.map fun lease ↦
        ((registry.histories lease.lineage).card : ℤ)).getD 0 := by
      cases lease <;> simp
    rw [historySize]
    omega
  · rw [live_consume, histories, nextLineage]
    exact h.traversals.sublist (registry.remaining_sublist lease)

variable {url : AbsoluteHttpUrl}

theorem issue_laws
    (usable : ∀ used ∈ lease, used ∈ registry.leases ∧ url ∉ registry.histories used.lineage)
    {lineage : ℕ} (address : lineage = (lease.map fun lease ↦ lease.lineage).getD registry.nextLineage)
    (shared : history = if lease.isSome then registry.histories lineage else ∅) :
    lineage ∉ (registry.remaining lease).map Capability.lineage ∧
      lineage < (if lease.isSome then registry.nextLineage else registry.nextLineage + 1) ∧
      (∀ url, url ∈ history ↔ ∃ earlier ∈ trace, earlier.lineage = lineage ∧ earlier.url = url) ∧
      url ∉ history ∧
      (history.card : ℤ) =
        (lease.map fun lease ↦ ((registry.histories lease.lineage).card : ℤ)).getD 0 := by
  cases lease with
  | none =>
    simp only [Option.map_none, Option.getD_none] at address
    simp only [Option.isSome_none, Bool.false_eq_true, if_false] at shared
    subst address shared
    have fresh := h.traversals.fresh
    refine ⟨?_, Nat.lt_succ_self _, ?_, Finset.notMem_empty _, rfl⟩
    · intro found
      obtain ⟨other, member, same⟩ := mem_map.mp found
      have lt := h.traversals.lineage_lt member
      omega
    · intro url
      simp only [Finset.notMem_empty, false_iff, not_exists, not_and]
      intro earlier member same
      have lt := fresh earlier member
      omega
  | some used =>
    simp only [Option.map_some, Option.getD_some] at address
    simp only [Option.isSome_some, if_true] at shared
    subst address shared
    obtain ⟨active, new⟩ := usable used rfl
    have taken := live_perm_erase active
    have laws := h.traversals.perm taken.symm
    have lineages := laws.lineages
    rw [map_cons, List.nodup_cons] at lineages
    exact ⟨lineages.1, laws.lineage_lt List.mem_cons_self,
      laws.history used.toCapability List.mem_cons_self, new, rfl⟩

theorem advance {context : ContinuationContext} {owner : Option Scope}
    (allowed : registry.commitError lease (some url) context owner = none) :
    Consistent ((registry.consume lease (some url)).issue lease url context owner)
      (trace ++ [{ url, context, owner
                   lineage := (lease.map fun lease ↦ lease.lineage).getD registry.nextLineage }])
    := by
  obtain ⟨usable, unshared, contexts, entries⟩ := accepted allowed
  have active : ∀ used ∈ lease, used ∈ registry.leases := fun used member ↦ (usable used member).1
  obtain ⟨unambiguous, unowned⟩ := unshared url rfl
  have distinct := leases_nodup h.traversals
  have size_eq := h.size_eq
  have historySize_eq := h.historySize_eq
  have live := (registry.consume lease (some url)).live_issue lease url context owner
  have lengths := length_remaining active
  have totals := historyTotal_remaining active
  have rest := h.traversals.sublist (registry.remaining_sublist lease)
  rw [live_consume] at live
  have exclusive : ∀ lineage, ∀ other ∈ registry.remaining lease,
      Exclusive { url, context, owner, lineage } other :=
    fun lineage other member ↦
      exclusive_of_not_conflicts unowned lineage (mem_remaining distinct member)
  have direction : ∀ lineage, ∀ other ∈ registry.remaining lease,
      SameDirection { url, context, owner, lineage } other :=
    fun lineage other member ↦ sameDirection_of_not_ambiguous unambiguous lineage
      ((registry.remaining_sublist lease).subset member)
  generalize address : (lease.map fun lease ↦ lease.lineage).getD registry.nextLineage = lineage
  generalize shared : (if lease.isSome then registry.histories lineage else ∅) = history
  obtain ⟨absent, lt, historyOf, new, card⟩ := h.issue_laws
    (fun used member ↦ ⟨(usable used member).1, ((usable used member).2.2.2 url rfl).2⟩)
    address.symm shared.symm
  have le : registry.nextLineage ≤
      (if lease.isSome then registry.nextLineage else registry.nextLineage + 1) := by
    split <;> omega
  have laws := rest.issue absent le lt historyOf new (exclusive lineage) (direction lineage)
  have same_histories : (registry.consume lease (some url)).histories = registry.histories := by
    cases lease <;> rfl
  have same_lineage : (registry.consume lease (some url)).nextLineage = registry.nextLineage := by
    cases lease <;> rfl
  have size : (registry.consume lease (some url)).size =
      registry.size - (if lease.isSome then 1 else 0) := by
    cases lease <;> simp [consume]
  have historySize : (registry.consume lease (some url)).historySize = registry.historySize := by
    cases lease <;> simp [consume]
  rw [same_lineage, address] at live
  have issued_histories : ((registry.consume lease (some url)).issue lease url context owner).histories
      = Function.update registry.histories lineage (insert url history) := by
    simp only [issue, same_lineage, same_histories, address, shared]
  have issued_lineage :
      ((registry.consume lease (some url)).issue lease url context owner).nextLineage =
        (if lease.isSome then registry.nextLineage else registry.nextLineage + 1) := by
    simp only [issue, same_lineage]
  have issued_size : ((registry.consume lease (some url)).issue lease url context owner).size =
      registry.size - (if lease.isSome then 1 else 0) + 1 := by
    simp only [issue, size]
  have issued_historySize :
      ((registry.consume lease (some url)).issue lease url context owner).historySize =
        registry.historySize + 1 := by
    simp only [issue, historySize]
  rw [length_live] at lengths
  constructor
  · have length := live.length_eq
    rw [List.length_cons] at length
    rw [issued_size, ← length_live]
    omega
  · rw [issued_size]
    simpa using contexts
  · rw [issued_historySize, issued_histories, historyTotal_perm _ live, historyTotal_cons,
      Function.update_self, historyTotal_update _ _ _ absent, Finset.card_insert_of_notMem new]
    push_cast
    omega
  · rw [issued_historySize]
    simpa using entries
  · rw [issued_histories, issued_lineage]
    exact laws.perm live

theorem commit (lease : Option (ContinuationLease Scope))
    (next : Option AbsoluteHttpUrl) (context : ContinuationContext) (owner : Option Scope) :
    Consistent (registry.commit lease next context owner).1
      (trace ++ registry.issued (.commit lease next context owner)) := by
  cases allowed : registry.commitError lease next context owner with
  | some error =>
    have none_issued : registry.issued (.commit lease next context owner) = [] := by
      cases next <;> simp [issued, allowed]
    rw [none_issued, List.append_nil]
    simp only [ContinuationRegistry.commit, allowed]
    exact h
  | none =>
    cases next with
    | none =>
      simp only [ContinuationRegistry.commit, allowed, issued, List.append_nil]
      exact h.finish fun used member ↦ ((accepted allowed).1 used member).1
    | some url =>
      simp only [ContinuationRegistry.commit, allowed, issued, Option.isNone_none, if_true]
      exact h.advance allowed

theorem forgetAvailable (owner : Scope) : Consistent (registry.forgetAvailable owner) trace := by
  have split : (registry.entries.filter (fun entry ↦ entry.owner == some owner) ++
      registry.entries.filter fun entry ↦ entry.owner != some owner).Perm registry.entries :=
    List.filter_append_perm _ _
  have lengths := split.length_eq
  have totals := historyTotal_perm registry.histories split
  have size_eq := h.size_eq
  have size_le := h.size_le
  have historySize_eq := h.historySize_eq
  have historySize_le := h.historySize_le
  have nonneg := historyTotal_nonneg registry.histories
    (registry.entries.filter fun entry ↦ entry.owner == some owner)
  rw [List.length_append] at lengths
  rw [historyTotal_append] at totals
  simp only [live, historyTotal_append] at historySize_eq
  constructor
  · simp only [ContinuationRegistry.forgetAvailable]
    omega
  · simp only [ContinuationRegistry.forgetAvailable]
    omega
  · simp only [ContinuationRegistry.forgetAvailable, live, historyTotal_append]
    simp only [historyTotal] at *
    omega
  · simp only [ContinuationRegistry.forgetAvailable]
    simp only [historyTotal] at *
    omega
  · exact h.traversals.sublist (List.filter_sublist.append_right _)

theorem call (call : RegistryCall Scope) :
    Consistent (registry.call call) (trace ++ registry.issued call) := by
  cases call with
  | reserve url owner isMatch => simpa [issued, ContinuationRegistry.call] using h.reserve url owner isMatch
  | commit lease next context owner => exact h.commit lease next context owner
  | restore lease => simpa [issued, ContinuationRegistry.call] using h.restore lease
  | forgetAvailable owner => simpa [issued, ContinuationRegistry.call] using h.forgetAvailable owner
  | clear => simpa [issued, ContinuationRegistry.call] using h.clear

end

theorem of_run (run : Run registry trace) : Consistent registry trace := by
  induction run with
  | empty => exact ⟨rfl, Int.zero_le_ofNat 1024, rfl, Int.zero_le_ofNat 10000, Traversals.empty⟩
  | called call _ ih => exact ih.call call

end Consistent

variable [DecidableEq Scope]

theorem ContinuationRegistry.commit_throw {registry : ContinuationRegistry Scope}
    {lease : Option (ContinuationLease Scope)}
    {context : ContinuationContext} {owner : Option Scope}
    (h : (registry.commit lease next context owner).2 = some error) :
    (registry.commit lease next context owner).1 = registry := by
  unfold commit at h ⊢
  cases allowed : registry.commitError lease next context owner with
  | some error => rfl
  | none => cases next <;> simp [allowed] at h

theorem Consistent.reserved {registry : ContinuationRegistry Scope}
    {trace : List (Capability Scope)} (h : Consistent registry trace) {url : AbsoluteHttpUrl}
    {owner : Option Scope} {lease : ContinuationLease Scope}
    (taken : (registry.reserve url owner isMatch).2 = some lease) :
    lease.toCapability ∈ trace ∧ ∀ issued ∈ trace, issued.lineage = lease.lineage →
      issued.url = lease.url → issued.owner = owner := by
  obtain ⟨entry, _, same_owner, _⟩ := reserve_eq_some taken
  have member := h.traversals.issued lease.toCapability (List.mem_append_left _ entry)
  refine ⟨member, ?_⟩
  intro issued issued_member same_lineage same_url
  have same := List.inj_on_of_nodup_map h.traversals.once issued_member member
    (Prod.ext same_lineage same_url)
  rw [same, same_owner]

/-- Over every run of the registry: exact and bounded counters, lawful traversals, throwing commits
without effect, and reservations under the owner of the capability alone. -/
theorem continuation_ownership {registry : ContinuationRegistry Scope}
    {trace : List (Capability Scope)} (run : Run registry trace) :
    Consistent registry trace ∧
      (∀ lease next context owner error,
        (registry.commit lease next context owner).2 = some error →
          (registry.commit lease next context owner).1 = registry) ∧
      ∀ url owner isMatch lease, (registry.reserve url owner isMatch).2 = some lease →
        lease.toCapability ∈ trace ∧ lease.url = url ∧ lease.owner = owner ∧
          ∀ issued ∈ trace, issued.lineage = lease.lineage → issued.url = lease.url →
            issued.owner = owner := by
  have consistent := Consistent.of_run run
  refine ⟨consistent, fun _ _ _ _ _ ↦ commit_throw, ?_⟩
  intro url owner isMatch lease taken
  obtain ⟨_, same_url, same_owner, _⟩ := reserve_eq_some taken
  obtain ⟨member, unique⟩ := consistent.reserved taken
  exact ⟨member, same_url, same_owner, unique⟩

/-- A URL issued to an owner and then reserved. -/
theorem continuation_ownership_reserved :
    let registry := (empty : ContinuationRegistry ℕ).call
      (.commit none (some "https://h/next") (.collection .beads) (some 7))
    Consistent registry [⟨"https://h/next", .collection .beads, some 7, 0⟩] ∧
      (registry.reserve "https://h/next" (some 7) fun _ ↦ true).2.isSome = true ∧
      (registry.reserve "https://h/next" none fun _ ↦ true).2 = none :=
  ⟨(continuation_ownership (Run.called
      (.commit none (some "https://h/next") (.collection .beads) (some 7)) Run.empty)).1,
    by decide, by decide⟩

end Bdp.Client
