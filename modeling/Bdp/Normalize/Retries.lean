import Bdp.Normalize.Normalization

/-!
# Retries of transactions

The record keeps the target of every locator that a normalization has read, for each operation. A
second normalization with the record therefore repeats the first one, whatever the alias table has
become, and the retry of an admitted transaction never conflicts with the row of its key.
-/

namespace Bdp.Normalize

open CodeUnits Admission
open Bdp.Except (bind_eq_ok ok_bind)
open List (lookup_cons prefix_rfl foldlM_cons mem_map)

section Inputs

variable {α β : Type}

theorem lookup_mapValues (change : α → β) (members : List (Text × α)) (name : Text) :
    (members.map (Prod.map id change)).lookup name = (members.lookup name).map change := by
  induction members with
  | nil => rfl
  | cons member members ih =>
    obtain ⟨other, value⟩ := member
    rw [List.map_cons, Prod.map_apply, id, lookup_cons, lookup_cons, ih]
    cases name == other <;> rfl

variable {name : Text}
variable {other : Text}

theorem lookup_filter_ne {members : List (Text × α)} (h : name ≠ other) :
    (members.filter fun member ↦ member.1 ≠ other).lookup name = members.lookup name := by
  induction members with
  | nil => rfl
  | cons member members ih =>
    obtain ⟨key, value⟩ := member
    rw [List.filter_cons, lookup_cons]
    by_cases hkey : key = other
    · rw [if_neg (by simp [hkey]), ih, beq_eq_false_iff_ne.mpr (hkey ▸ h)]
    · rw [if_pos (by simp [hkey]), lookup_cons, ih]

theorem lookup_assign_ne {members : List (Text × JsonTree SemanticLeaf)}
    (h : name ≠ other) (value : JsonTree SemanticLeaf) :
    (assign members other value).lookup name = members.lookup name := by
  have hmap : (members.map fun member ↦ if member.1 = other then (other, value) else member).lookup
      name = members.lookup name := by
    induction members with
    | nil => rfl
    | cons member members ih =>
      obtain ⟨key, previous⟩ := member
      rw [List.map_cons, lookup_cons]
      by_cases hkey : key = other
      · rw [if_pos hkey, lookup_cons, ih, beq_eq_false_iff_ne.mpr h, hkey,
          beq_eq_false_iff_ne.mpr h]
      · rw [if_neg hkey, lookup_cons, ih]
  unfold assign
  split
  · exact hmap
  · rw [List.lookup_append]
    simp [List.lookup, beq_eq_false_iff_ne.mpr h]

theorem lookup_preparedInput (operation : Operation)
    (hproperties : name ≠ propertiesName) (hmetadata : name ≠ metadataName)
    (hprovenance : name ≠ revisionProvenanceName) :
    (preparedInput operation).lookup name =
      (operation.input.lookup name).map (JsonTree.map semanticLeaf) := by
  unfold preparedInput
  dsimp only
  split <;> split
  · rw [lookup_filter_ne hprovenance, lookup_assign_ne hmetadata, lookup_assign_ne hproperties,
      lookup_mapValues]
  · rw [lookup_assign_ne hmetadata, lookup_assign_ne hproperties, lookup_mapValues]
  · rw [lookup_filter_ne hprovenance, lookup_mapValues]
  · rw [lookup_mapValues]

theorem semanticString_map (value : Option (JsonTree JsonLeaf)) :
    semanticString (value.map (JsonTree.map semanticLeaf)) = stringOf value := by
  cases value with
  | none => rfl
  | some value =>
    cases value with
    | leaf value => cases value <;> rfl
    | array items => rfl
    | object members => rfl

theorem semanticUri_map (value : JsonTree JsonLeaf) :
    semanticUri (value.map semanticLeaf) = referenceUri value := by
  cases value with
  | leaf value => cases value <;> rfl
  | array items => rfl
  | object members =>
    rw [JsonTree.map, JsonTree.mapMembers_eq_map, semanticUri, referenceUri, lookup_mapValues,
      semanticString_map]

end Inputs

section Captures

variable {parse : UrlParser} {scope : Scope parse}
variable {target : Text → Except NormalizationError (Option Text)}
variable {locator : Text} {aliases after : List (Text × Option Text)}

/-- The targets are those of the captured aliases. -/
def Reads (target : Text → Except NormalizationError (Option Text))
    (aliases : List (Text × Option Text)) : Prop :=
  ∀ entry ∈ aliases, target entry.1 = .ok entry.2

variable {again : Text → Except NormalizationError (Option Text)}

section

variable (h : capture target locator aliases = .ok after)
include h

theorem capture_eq_ok : after = aliases ∨ aliases.lookup locator = none ∧
      ∃ found, target locator = .ok found ∧ after = aliases ++ [(locator, found)] := by
  unfold capture at h
  split at h
  · exact .inl (Except.ok.inj h).symm
  next hnew =>
    obtain ⟨found, hfound, h⟩ := bind_eq_ok.mp h
    exact .inr ⟨Option.not_isSome_iff_eq_none.mp hnew, found, hfound, (Except.ok.inj h).symm⟩

theorem capture_grows : aliases <+: after := by
  obtain rfl | ⟨-, found, -, rfl⟩ := capture_eq_ok h
  · exact prefix_rfl
  · exact List.prefix_append _ _

theorem capture_again (hreads : Reads again after) : capture again locator aliases = .ok after := by
  unfold capture at h ⊢
  split at h
  · next hold => rw [if_pos hold, h]
  · next hnew =>
    obtain ⟨found, -, h⟩ := bind_eq_ok.mp h
    obtain rfl := Except.ok.inj h
    have := hreads (locator, found) (by simp)
    rw [if_neg hnew, this]
    rfl

end

variable {around : Surroundings} {kind : OperationKind} {field uri : Text}
variable {value : JsonTree SemanticLeaf}

section

variable (h : normalizedUri scope around kind field uri aliases = .ok (value, after))
include h

theorem normalizedUri_cases : (after = aliases ∧ ∀ again,
      normalizedUri scope { around with target := again } kind field uri aliases =
        .ok (value, aliases)) ∨
    (field ∈ transactionAliasFields kind ∧
      scope.text ++ aliasRoot <+: canonicalReference scope uri ∧
      capture around.target (canonicalReference scope uri) aliases = .ok after ∧
      ∀ again, capture again (canonicalReference scope uri) aliases = .ok after →
        normalizedUri scope { around with target := again } kind field uri aliases =
          .ok (value, after)) := by
  unfold normalizedUri at h ⊢
  dsimp only at h ⊢
  split at h
  next binding hbinding =>
    obtain ⟨rfl, rfl⟩ := Prod.mk.inj (Except.ok.inj h)
    exact .inl ⟨rfl, fun _ ↦ by rw [hbinding]⟩
  next hbinding =>
    split at h
    next hslot =>
      obtain ⟨captured, hcaptured, h⟩ := bind_eq_ok.mp h
      obtain ⟨rfl, rfl⟩ := Prod.mk.inj (Except.ok.inj h)
      have hnamed := hslot
      simp only [Bool.and_eq_true, List.contains_iff_mem, List.isPrefixOf_iff_prefix] at hnamed
      refine .inr ⟨hnamed.1, hnamed.2, hcaptured, fun again hagain ↦ ?_⟩
      rw [hbinding]
      dsimp only
      rw [if_pos hslot, hagain]
      rfl
    next hslot =>
      split at h
      next hcreator =>
        split at h
        · cases h
        next creator hfound =>
          obtain ⟨rfl, rfl⟩ := Prod.mk.inj (Except.ok.inj h)
          refine .inl ⟨rfl, fun _ ↦ ?_⟩
          rw [hbinding]
          dsimp only
          rw [if_neg hslot, if_pos hcreator]
      next hcreator =>
        obtain ⟨rfl, rfl⟩ := Prod.mk.inj (Except.ok.inj h)
        refine .inl ⟨rfl, fun _ ↦ ?_⟩
        rw [hbinding]
        dsimp only
        rw [if_neg hslot, if_neg hcreator]

theorem normalizedUri_again : aliases <+: after ∧ ∀ again, Reads again after →
      normalizedUri scope { around with target := again } kind field uri aliases =
        .ok (value, after) := by
  obtain ⟨rfl, hsame⟩ | ⟨-, -, hcaptured, hsame⟩ := normalizedUri_cases h
  · exact ⟨prefix_rfl, fun again _ ↦ hsame again⟩
  · exact ⟨capture_grows hcaptured, fun again hreads ↦
      hsame again (capture_again hcaptured hreads)⟩

end

variable {slots next : Slots}

theorem normalizeSlot_absent (h : slots.input.lookup field = none) :
    normalizeSlot scope around kind slots field = .ok slots := by
  rw [normalizeSlot, h]

section

variable (h : normalizeSlot scope around kind slots field = .ok next)
include h

theorem normalizeSlot_cases : (next = slots ∧ slots.input.lookup field = none) ∨
    ∃ value uri normalized pinned, slots.input.lookup field = some value ∧
      semanticUri value = some uri ∧ next.input = assign slots.input field pinned ∧
      normalizedUri scope around kind field uri slots.aliases = .ok (normalized, next.aliases) ∧
      ∀ again, normalizedUri scope { around with target := again } kind field uri slots.aliases =
          .ok (normalized, next.aliases) →
        normalizeSlot scope { around with target := again } kind slots field = .ok next := by
  unfold normalizeSlot at h ⊢
  split at h
  next hnone => exact .inl ⟨(Except.ok.inj h).symm, hnone⟩
  next value hvalue =>
    split at h
    · cases h
    next uri huri =>
      obtain ⟨⟨normalized, aliases⟩, hnormalized, h⟩ := bind_eq_ok.mp h
      obtain ⟨identities, hidentities, h⟩ := bind_eq_ok.mp h
      obtain ⟨pinned, hpinned, h⟩ := bind_eq_ok.mp h
      obtain rfl := Except.ok.inj h
      refine .inr ⟨value, uri, normalized, pinned, hvalue, huri, rfl, hnormalized,
        fun again hagain ↦ ?_⟩
      simp only [hagain, ok_bind]
      rw [hidentities, ok_bind, hpinned]
      rfl

theorem normalizeSlot_again : slots.aliases <+: next.aliases ∧ ∀ again, Reads again next.aliases →
      normalizeSlot scope { around with target := again } kind slots field = .ok next := by
  obtain ⟨rfl, hnone⟩ | ⟨value, uri, normalized, pinned, -, -, -, hnormalized, hsame⟩ :=
    normalizeSlot_cases h
  · exact ⟨prefix_rfl, fun again _ ↦ normalizeSlot_absent hnone⟩
  · obtain ⟨hgrown, hagain⟩ := normalizedUri_again hnormalized
    exact ⟨hgrown, fun again hreads ↦ hsame again (hagain again hreads)⟩

end

variable {fields : List Text}

section

variable (h : fields.foldlM (normalizeSlot scope around kind) slots = .ok next)
include h

theorem normalizeSlots_grows : slots.aliases <+: next.aliases := by
  induction fields generalizing slots with
  | nil =>
    obtain rfl := Except.ok.inj h
    exact prefix_rfl
  | cons field fields ih =>
    rw [foldlM_cons] at h
    obtain ⟨middle, hmiddle, h⟩ := bind_eq_ok.mp h
    exact (normalizeSlot_again hmiddle).1.trans (ih h)

theorem normalizeSlots_again (hreads : Reads again next.aliases) :
    fields.foldlM (normalizeSlot scope { around with target := again } kind) slots = .ok next := by
  induction fields generalizing slots with
  | nil => exact h
  | cons field fields ih =>
    rw [foldlM_cons] at h ⊢
    obtain ⟨middle, hmiddle, h⟩ := bind_eq_ok.mp h
    have hmore : Reads again middle.aliases := fun entry hentry ↦
      hreads entry ((normalizeSlots_grows h).subset hentry)
    rw [(normalizeSlot_again hmiddle).2 again hmore, ok_bind]
    exact ih h

end

/-- What the loop keeps of the aliases that it captures, from at most `count` slots. -/
structure Captured (scope : Scope parse)
    (target : Text → Except NormalizationError (Option Text)) (count : ℕ)
    (aliases : List (Text × Option Text)) : Prop where
  bounded : aliases.length ≤ count
  distinct : (aliases.map Prod.fst).Nodup
  reads : Reads target aliases
  locators : ∀ entry ∈ aliases, witnessedReference scope .locator entry.1 = .ok entry.1

variable {count : ℕ}

section

variable (h : Captured scope target count aliases)
include h

theorem Captured.mono {more : ℕ} (hle : count ≤ more) : Captured scope target more aliases :=
  ⟨h.bounded.trans hle, h.distinct, h.reads, h.locators⟩

theorem Captured.capture (hlocator : witnessedReference scope .locator locator = .ok locator)
    (hcapture : Normalize.capture target locator aliases = .ok after) :
    Captured scope target (count + 1) after := by
  obtain rfl | ⟨hnew, found, hfound, rfl⟩ := capture_eq_ok hcapture
  · exact h.mono (Nat.le_succ _)
  · refine ⟨?_, ?_, ?_, ?_⟩
    · rw [List.length_append]
      exact Nat.succ_le_succ h.bounded
    · rw [List.map_append, List.map_singleton]
      apply List.nodup_append'.mpr
      refine ⟨h.distinct, List.nodup_singleton _, ?_⟩
      rw [List.disjoint_singleton]
      intro hmem
      obtain ⟨entry, hentry, hkey⟩ := mem_map.mp hmem
      have := List.lookup_eq_none_iff.mp hnew entry hentry
      simp [hkey] at this
    · intro entry hentry
      obtain hentry | hentry := List.mem_append.mp hentry
      · exact h.reads entry hentry
      · obtain rfl := List.mem_singleton.mp hentry
        exact hfound
    · intro entry hentry
      obtain hentry | hentry := List.mem_append.mp hentry
      · exact h.locators entry hentry
      · obtain rfl := List.mem_singleton.mp hentry
        exact hlocator

end

/-- A reference of an alias slot below the alias root names a locator. -/
def NamesLocator (scope : Scope parse) (kind : OperationKind) (field uri : Text) : Prop :=
  field ∈ transactionAliasFields kind → scope.text ++ aliasRoot <+: canonicalReference scope uri →
    witnessedReference scope .locator (canonicalReference scope uri) =
      .ok (canonicalReference scope uri)

theorem Captured.normalizedUri (h : Captured scope around.target count aliases)
    (hlocator : NamesLocator scope kind field uri)
    (hnormalized : Normalize.normalizedUri scope around kind field uri aliases =
      .ok (value, after)) :
    Captured scope around.target
      (count + if field ∈ transactionAliasFields kind then 1 else 0) after := by
  obtain ⟨rfl, -⟩ | ⟨hslot, hnamed, hcaptured, -⟩ := normalizedUri_cases hnormalized
  · exact h.mono (Nat.le_add_right _ _)
  · rw [if_pos hslot]
    exact h.capture (hlocator hslot hnamed) hcaptured

section

variable (h : Captured scope around.target count slots.aliases)
include h

theorem Captured.normalizeSlot
    (hlocator : ∀ value uri, slots.input.lookup field = some value → semanticUri value = some uri →
      NamesLocator scope kind field uri)
    (hslot : Normalize.normalizeSlot scope around kind slots field = .ok next) :
    Captured scope around.target
        (count + if field ∈ transactionAliasFields kind then 1 else 0) next.aliases ∧
      ∀ other ≠ field, next.input.lookup other = slots.input.lookup other := by
  obtain ⟨rfl, -⟩ | ⟨value, uri, normalized, pinned, hvalue, huri, hinput, hnormalized, -⟩ :=
    normalizeSlot_cases hslot
  · exact ⟨h.mono (Nat.le_add_right _ _), fun _ _ ↦ rfl⟩
  · refine ⟨h.normalizedUri (hlocator value uri hvalue huri) hnormalized, fun other hother ↦ ?_⟩
    rw [hinput, lookup_assign_ne hother]

theorem Captured.normalizeSlots {input : List (Text × JsonTree SemanticLeaf)}
    (hdistinct : fields.Nodup)
    (hinput : ∀ field ∈ fields, slots.input.lookup field = input.lookup field)
    (hlocator : ∀ field ∈ fields, ∀ value uri, input.lookup field = some value →
      semanticUri value = some uri → NamesLocator scope kind field uri)
    (hslots : fields.foldlM (Normalize.normalizeSlot scope around kind) slots = .ok next) :
    Captured scope around.target
      (count + fields.countP (· ∈ transactionAliasFields kind)) next.aliases := by
  induction fields generalizing slots count with
  | nil =>
    obtain rfl := Except.ok.inj hslots
    exact h
  | cons field fields ih =>
    rw [foldlM_cons] at hslots
    obtain ⟨middle, hmiddle, hslots⟩ := bind_eq_ok.mp hslots
    obtain ⟨hnew, hdistinct⟩ := List.nodup_cons.mp hdistinct
    obtain ⟨hcaptured, hkept⟩ := h.normalizeSlot
      (fun value uri hvalue ↦ hlocator field List.mem_cons_self value uri
        (hinput field List.mem_cons_self ▸ hvalue)) hmiddle
    have hrest := ih hcaptured hdistinct
      (fun other hother ↦ by
        rw [hkept other fun heq ↦ hnew (heq ▸ hother)]
        exact hinput other (List.mem_cons_of_mem _ hother))
      (fun other hother ↦ hlocator other (List.mem_cons_of_mem _ hother)) hslots
    apply hrest.mono
    rw [List.countP_cons]
    simp only [decide_eq_true_eq]
    omega

end

end Captures

section Operations

variable {parse : UrlParser} {scope : Scope parse}
variable {resolveAlias later : Text → Option Text} {previous : Option OperationWitnesses}
variable {kind : OperationKind} {field uri : Text} {operation : Operation}

theorem aliasTarget_resource {locator target : Text}
    (h : aliasTarget scope resolveAlias previous kind locator = .ok (some target)) :
    witnessedReference scope .resource target = .ok target := by
  unfold aliasTarget at h
  dsimp only at h
  split at h
  · cases h
  next found _ =>
    cases hwitnessed : witnessedReference scope .resource found with
    | error error =>
      rw [hwitnessed] at h
      cases h
    | ok other =>
      rw [hwitnessed] at h
      obtain rfl := Option.some.inj (Except.ok.inj h)
      obtain ⟨rfl, -⟩ := witnessedReference_eq_ok.mp hwitnessed
      exact hwitnessed

variable {witness : AliasWitness}

theorem find?_locator {aliases : List AliasWitness}
    (hdistinct : (aliases.map AliasWitness.locator).Nodup) (hmem : witness ∈ aliases) :
    (aliases.find? fun other ↦ other.locator == witness.locator) = some witness := by
  induction aliases with
  | nil => cases hmem
  | cons other aliases ih =>
    obtain ⟨hnew, hdistinct⟩ := List.nodup_cons.mp hdistinct
    obtain rfl | hmem := List.mem_cons.mp hmem
    · exact List.find?_cons_of_pos (beq_self_eq_true _)
    · have hne : other.locator ≠ witness.locator := fun heq ↦
        hnew (heq ▸ List.mem_map_of_mem hmem)
      rw [List.find?_cons_of_neg (by simpa using hne)]
      exact ih hdistinct hmem

theorem aliasTarget_recorded {witnesses : OperationWitnesses} (h : witnesses.Recorded scope)
    (hmem : witness ∈ witnesses.aliases) :
    aliasTarget scope later (some witnesses) witnesses.operation witness.locator =
      .ok witness.target := by
  rw [aliasTarget, if_pos rfl, find?_locator h.distinct hmem]
  dsimp only
  cases htarget : witness.target with
  | none => rfl
  | some target =>
    dsimp only
    rw [h.targets witness hmem target htarget]
    rfl

theorem namesLocator_of_preflight (standard : Standard scope)
    (hpreflight : preflightOperation scope operation = true) {value : JsonTree SemanticLeaf}
    (hvalue : (preparedInput operation).lookup field = some value)
    (huri : semanticUri value = some uri) : NamesLocator scope operation.operation field uri := by
  intro hfield hgrown
  have hslots : ∀ kind, ∀ field ∈ transactionAliasFields kind, field ∈ REFERENCE_FIELDS kind ∧
      field ≠ propertiesName ∧ field ≠ metadataName ∧ field ≠ revisionProvenanceName := by
    intro kind
    cases kind <;> decide
  obtain ⟨hreference, hproperties, hmetadata, hprovenance⟩ := hslots _ field hfield
  rw [lookup_preparedInput operation hproperties hmetadata hprovenance] at hvalue
  obtain ⟨original, horiginal, rfl⟩ := Option.map_eq_some_iff.mp hvalue
  rw [semanticUri_map] at huri
  have hchecked := List.all_eq_true.mp hpreflight field hreference
  rw [horiginal] at hchecked
  dsimp only at hchecked
  rw [huri] at hchecked
  obtain ⟨tail, htail⟩ := hgrown
  rw [List.append_assoc] at htail
  have hhead : (aliasRoot ++ tail).head? = some 97 := rfl
  obtain ⟨hurl, hpath⟩ := preflightReference_local standard hchecked htail.symm (by
    rw [hhead]
    decide)
  rw [← htail]
  apply witnessedReference_eq_ok.mpr
  exact ⟨rfl, _, rfl, hurl, hpath, fun _ ↦ List.prefix_append _ _, fun hroot ↦ by cases hroot⟩

variable {around : Surroundings} {normalized : NormalizedOperation}

theorem normalizeOperation_again (standard : Standard scope)
    (hpreflight : preflightOperation scope operation = true)
    (htarget : around.target = aliasTarget scope resolveAlias previous operation.operation)
    (h : normalizeOperation scope around operation = .ok normalized) :
    normalized.witnesses.Recorded scope ∧ ∀ later, normalizeOperation scope
      { around with
        target := aliasTarget scope later (some normalized.witnesses) operation.operation }
      operation = .ok normalized := by
  obtain ⟨slots, hslots, h⟩ := bind_eq_ok.mp h
  obtain rfl := Except.ok.inj h
  have hempty : Captured scope around.target 0 ([] : List (Text × Option Text)) :=
    ⟨le_rfl, List.nodup_nil, fun _ hentry ↦ absurd hentry List.not_mem_nil,
      fun _ hentry ↦ absurd hentry List.not_mem_nil⟩
  have hlocators : ∀ field ∈ referenceSlots, ∀ value uri,
      (preparedInput operation).lookup field = some value → semanticUri value = some uri →
        NamesLocator scope operation.operation field uri :=
    fun _ _ _ _ hvalue huri ↦ namesLocator_of_preflight standard hpreflight hvalue huri
  have hcaptured := hempty.normalizeSlots (by decide) (fun _ _ ↦ rfl) hlocators hslots
  have hcount : ∀ kind, 0 + referenceSlots.countP (· ∈ transactionAliasFields kind) ≤
      (transactionAliasFields kind).length := by
    intro kind
    cases kind <;> decide
  have hrecorded : OperationWitnesses.Recorded scope
      ⟨operation.operation, slots.aliases.map fun entry ↦ ⟨entry.1, entry.2⟩⟩ := by
    refine ⟨?_, ?_, ?_, ?_⟩
    · rw [List.length_map]
      exact hcaptured.bounded.trans (hcount operation.operation)
    · rw [List.map_map]
      exact hcaptured.distinct
    · intro witness hwitness
      obtain ⟨entry, hentry, rfl⟩ := mem_map.mp hwitness
      exact hcaptured.locators entry hentry
    · intro witness hwitness target hfound
      obtain ⟨entry, hentry, rfl⟩ := mem_map.mp hwitness
      have hread := hcaptured.reads entry hentry
      rw [htarget, show entry.2 = some target from hfound] at hread
      exact aliasTarget_resource hread
  refine ⟨hrecorded, fun later ↦ ?_⟩
  have hreads : Reads (aliasTarget scope later
      (some ⟨operation.operation, slots.aliases.map fun entry ↦ ⟨entry.1, entry.2⟩⟩)
      operation.operation) slots.aliases := fun entry hentry ↦
    aliasTarget_recorded hrecorded (List.mem_map_of_mem hentry)
  rw [normalizeOperation, normalizeSlots_again hslots hreads]
  rfl

theorem normalizeOperations_again (standard : Standard scope)
    {bindings : List (Text × ReferenceBinding)} {index : ℕ}
    {creators : List (Text × JsonTree SemanticLeaf)} {operations : List Operation}
    {normalized : List NormalizedOperation}
    (hpreflight : ∀ operation ∈ operations, preflightOperation scope operation = true)
    (h : normalizeOperations scope resolveAlias none bindings index creators operations =
      .ok normalized) :
    normalized.length = operations.length ∧
      (∀ member ∈ normalized, member.witnesses.Recorded scope) ∧
      ∀ later prior, prior.drop index = normalized.map NormalizedOperation.witnesses →
        normalizeOperations scope later (some prior) bindings index creators operations =
          .ok normalized := by
  induction operations generalizing index creators normalized with
  | nil =>
    obtain rfl := Except.ok.inj h
    exact ⟨rfl, by simp, fun _ _ _ ↦ rfl⟩
  | cons operation operations ih =>
    unfold normalizeOperations at h
    obtain ⟨first, hfirst, h⟩ := bind_eq_ok.mp h
    obtain ⟨bound, hbound, h⟩ := bind_eq_ok.mp h
    obtain ⟨rest, hrest, h⟩ := bind_eq_ok.mp h
    obtain rfl := Except.ok.inj h
    have htarget : (Surroundings.mk (aliasTarget scope resolveAlias none operation.operation) creators
        bindings (index == 0)).target = aliasTarget scope resolveAlias none operation.operation :=
      rfl
    obtain ⟨hrecorded, hagain⟩ :=
      normalizeOperation_again standard (hpreflight operation List.mem_cons_self) htarget hfirst
    obtain ⟨hlength, hothers, hrepeat⟩ :=
      ih (fun other hother ↦ hpreflight other (List.mem_cons_of_mem _ hother)) hrest
    refine ⟨by rw [List.length_cons, hlength, List.length_cons],
      List.forall_mem_cons.mpr ⟨hrecorded, hothers⟩, fun later prior hprior ↦ ?_⟩
    have hhead : prior[index]? = some first.witnesses := by
      have := congrArg (·[0]?) hprior
      simpa using this
    have htail : prior.drop (index + 1) = rest.map NormalizedOperation.witnesses := by
      rw [← List.tail_drop, hprior]
      rfl
    have hcurrent := hagain later
    unfold normalizeOperations
    simp only [Option.bind_some, hhead]
    rw [hcurrent, ok_bind, hbound, ok_bind, hrepeat later prior htail]
    rfl

end Operations

section Retries

variable {parse : UrlParser} {scope : Scope parse} {batch : PreparedTransaction scope}
variable {resolveAlias : Text → Option Text} {bindings : List (Text × ReferenceBinding)}

theorem normalizeTransaction_again (standard : Standard scope) {result : NormalizedTransaction}
    (hbound : batch.operations.length ≤ TRANSACTION_MAXIMUM_OPERATIONS)
    (h : normalizeTransaction batch resolveAlias none bindings = .ok result)
    (later : Text → Option Text) :
    normalizeTransaction batch later (some result.witnessesJson) bindings = .ok result := by
  unfold normalizeTransaction at h
  rw [priorWitnesses, ok_bind] at h
  obtain ⟨normalized, hnormalized, h⟩ := bind_eq_ok.mp h
  obtain ⟨identity, hidentity, h⟩ := bind_eq_ok.mp h
  obtain rfl := Except.ok.inj h
  obtain ⟨hlength, hrecorded, hagain⟩ :=
    normalizeOperations_again standard batch.preflighted hnormalized
  have hne : normalized.map NormalizedOperation.witnesses ≠ [] := by
    intro hnil
    apply batch.nonempty
    rw [← List.length_eq_zero_iff, ← hlength, List.map_eq_nil_iff.mp hnil]
    rfl
  have hmembers : ∀ witnesses ∈ normalized.map NormalizedOperation.witnesses,
      witnesses.Recorded scope := by
    intro witnesses hwitnesses
    obtain ⟨member, hmember, rfl⟩ := mem_map.mp hwitnesses
    exact hrecorded member hmember
  have hread := parseWitnesses_witnessesJson standard hmembers hne (by
    rw [List.length_map, hlength]
    exact hbound)
  have hprior : priorWitnesses scope
      (some (witnessesJson scope (normalized.map NormalizedOperation.witnesses))) =
      .ok (some (normalized.map NormalizedOperation.witnesses)) := by
    rw [priorWitnesses, hread]
    rfl
  unfold normalizeTransaction
  dsimp only
  rw [hprior, ok_bind, hagain later _ List.drop_zero, ok_bind, hidentity, ok_bind]
  rfl

/-- A transaction whose key was admitted normalizes to the identity of its row whenever it comes
again, whatever has become of the aliases, and its retry finds the row and never conflicts with
it. -/
theorem admitKey_retry (standard : Standard scope) {route : Route batch}
    {capacity pendingWins : Bool} {row : KeyRow}
    (h : admitKey batch route capacity resolveAlias bindings pendingWins none =
      .ok (.owned row)) (later : Text → Option Text) :
    (∃ again, normalizeTransaction batch later (some row.witnesses) bindings = .ok again ∧
        again.identity = row.identity) ∧
      ∀ (retry : Route batch) (capacity pendingWins pending : Bool),
        admitKey batch retry capacity later bindings pendingWins
          (some { row with pending := pending }) = .ok .existing := by
  have hadmitted : batch.operations.length ≤ TRANSACTION_MAXIMUM_OPERATIONS ∧
      ∃ normalized, normalizeTransaction batch resolveAlias none bindings = .ok normalized ∧
        row = ⟨normalized.identity, normalized.witnessesJson, true⟩ := by
    unfold admitKey at h
    obtain ⟨normalized, hnormalized, h⟩ := Except.bind_eq_ok.mp h
    cases route with
    | member single =>
      have hrow := KeyAdmission.owned.inj (Except.ok.inj h)
      exact ⟨by rw [single]; decide, normalized, hnormalized, hrow.symm⟩
    | request controls =>
      dsimp only at h
      split at h
      · cases h
      next hcount =>
        split at h
        · cases h
        · split at h
          · cases h
          · have hrow := KeyAdmission.owned.inj (Except.ok.inj h)
            exact ⟨(Nat.le_of_not_lt hcount).trans controls.bounded, normalized, hnormalized,
              hrow.symm⟩
  obtain ⟨hbound, normalized, hnormalized, rfl⟩ := hadmitted
  have hagain := normalizeTransaction_again standard hbound hnormalized later
  refine ⟨⟨normalized, hagain, rfl⟩, fun retry capacity pendingWins pending ↦ ?_⟩
  unfold admitKey
  dsimp only
  split
  · rfl
  · rw [hagain, Except.ok_bind, if_neg (by simp)]
    rfl

end Retries

section Sample

def sampleOrigin : Text := ascii "https://example.test".toList

def sampleParser : UrlParser := fun text ↦
  if (sampleOrigin ++ [47]).isPrefixOf text then
    some ⟨text, ascii "https:".toList, [], [], sampleOrigin, 47 :: text.drop 21, []⟩
  else none

theorem sampleParser_append (rest : Text) : sampleParser ((sampleOrigin ++ [47]) ++ rest) =
    some ⟨(sampleOrigin ++ [47]) ++ rest, ascii "https:".toList, [], [], sampleOrigin, 47 :: rest, []⟩ := by
  have hgrown : (sampleOrigin ++ [47]).isPrefixOf ((sampleOrigin ++ [47]) ++ rest) = true :=
    List.isPrefixOf_iff_prefix.mpr (List.prefix_append _ _)
  have hlength : (sampleOrigin ++ [47]).length = 21 := by decide
  rw [sampleParser, if_pos hgrown, ← hlength, List.drop_left]

def sampleScope : Scope sampleParser where
  text := sampleOrigin ++ [47]
  url := ⟨sampleOrigin ++ [47], ascii "https:".toList, [], [], sampleOrigin, [47], []⟩
  parsed := sampleParser_append []
  canonical := by decide +kernel

theorem sampleStandard : Standard sampleScope where
  serialized := rfl
  origin := ⟨104, ascii "ttps".toList, ascii "example.test".toList, by decide +kernel⟩
  scalar := by decide +kernel
  rooted := rfl
  below rest := ⟨_, sampleParser_append rest, rfl, rfl⟩
  appended _ := sampleParser_append _

/-- An update through the alias `alias/a`. -/
def sampleBatch : PreparedTransaction sampleScope where
  operations := [⟨.updateBead, [(beadName, stringTree (ascii "alias/a".toList))], none⟩]
  nonempty := List.cons_ne_nil _ _
  preflighted := by decide +kernel

def sampleTarget : Text := sampleScope.text ++ ascii "beads/a".toList

def sampleLocator : Text := sampleScope.text ++ ascii "alias/a".toList

theorem sampleTarget_witnessed :
    witnessedReference sampleScope .resource sampleTarget = .ok sampleTarget := by
  apply witnessedReference_eq_ok.mpr
  refine ⟨rfl, ascii "beads/a".toList, rfl, ?_, ?_, fun hroot ↦ (by cases hroot), fun _ ↦ ?_⟩
  · decide +kernel
  · decide +kernel
  · decide +kernel

/-- The identity of the sample, with its alias replaced by the target. -/
def sampleIdentity : JsonTree SemanticLeaf :=
  .object [(operationName, .leaf (.string OperationKind.updateBead.text)),
    (inputName, .object [(beadName, .leaf (.string sampleTarget))])]

theorem scalar_sampleTarget : ¬ HasLoneSurrogate sampleTarget :=
  scalarName_of_lt (by decide +kernel)

theorem sampleTarget_encoded : ∃ text,
    encodeSemanticValue (.leaf (.string sampleTarget)) = .ok text :=
  ⟨_, encodeSemanticValue_eq ⟨.leaf (.string sampleTarget), .leaf scalar_sampleTarget⟩⟩

theorem sampleIdentity_encoded : ∃ text, encodeSemanticValue (.array [sampleIdentity]) = .ok text := by
  have hnames : ScalarName operationName ∧ ScalarName inputName :=
    ⟨scalarName_of_lt (by decide), scalarName_of_lt (by decide)⟩
  have hbead : ScalarName beadName := scalarName_of_lt (by decide)
  have hinput : (JsonTree.object [(beadName, .leaf (.string sampleTarget))]).WellNamed ScalarName
      ScalarSemanticLeaf := by
    have hleaf : (JsonTree.leaf (SemanticLeaf.string sampleTarget)).WellNamed ScalarName
        ScalarSemanticLeaf := .leaf scalar_sampleTarget
    apply JsonTree.WellNamed.object
    · decide
    · simpa using hbead
    · simpa using hleaf
  have hkind : (JsonTree.leaf (.string OperationKind.updateBead.text)).WellNamed ScalarName
      ScalarSemanticLeaf :=
    .leaf (scalarName_of_lt OperationKind.updateBead.text_lt)
  have hidentity : sampleIdentity.WellNamed ScalarName ScalarSemanticLeaf := by
    apply JsonTree.WellNamed.object
    · decide
    · simpa using hnames
    · simpa using ⟨hkind, hinput⟩
  exact ⟨_, encodeSemanticValue_eq ⟨_, .array (by simpa using hidentity)⟩⟩

theorem sampleBatch_normalized : ∃ result, normalizeTransaction sampleBatch
    (fun _ ↦ some sampleTarget) none [] = .ok result := by
  obtain ⟨reference, hreference⟩ := sampleTarget_encoded
  obtain ⟨identity, hidentity⟩ := sampleIdentity_encoded
  have htarget : aliasTarget sampleScope (fun _ ↦ some sampleTarget) none .updateBead sampleLocator =
      .ok (some sampleTarget) := by
    rw [aliasTarget]
    dsimp only
    rw [sampleTarget_witnessed]
    rfl
  have hslots : referenceSlots.foldlM (normalizeSlot sampleScope
      ⟨aliasTarget sampleScope (fun _ ↦ some sampleTarget) none .updateBead, [], [], true⟩ .updateBead)
      ⟨[(beadName, .leaf (.string (ascii "alias/a".toList)))], [], []⟩ =
      .ok ⟨[(beadName, .leaf (.string sampleTarget))], [(sampleLocator, some sampleTarget)],
        [(beadName, reference)]⟩ := by
    have huri : normalizedUri sampleScope
        ⟨aliasTarget sampleScope (fun _ ↦ some sampleTarget) none .updateBead, [], [], true⟩
        .updateBead beadName (ascii "alias/a".toList) [] =
        .ok (.leaf (.string sampleTarget), [(sampleLocator, some sampleTarget)]) := by
      have hlocator : canonicalReference sampleScope (ascii "alias/a".toList) = sampleLocator := rfl
      have hslot : ((transactionAliasFields .updateBead).contains beadName &&
          (sampleScope.text ++ aliasRoot).isPrefixOf sampleLocator) = true := by
        decide +kernel
      rw [normalizedUri, hlocator]
      dsimp only [List.lookup]
      rw [if_pos rfl]
      dsimp only
      rw [if_pos hslot, capture, if_neg (by simp), htarget]
      simp
    have hbead : normalizeSlot sampleScope
        ⟨aliasTarget sampleScope (fun _ ↦ some sampleTarget) none .updateBead, [], [], true⟩ .updateBead
        ⟨[(beadName, .leaf (.string (ascii "alias/a".toList)))], [], []⟩ beadName =
        .ok ⟨[(beadName, .leaf (.string sampleTarget))], [(sampleLocator, some sampleTarget)],
          [(beadName, reference)]⟩ := by
      simp only [normalizeSlot, List.lookup_cons_self, semanticUri, huri, ok_bind, noteIdentity,
        hreference, if_true, Except.mapError, withReference, Except.pure_eq_ok]
      rfl
    rw [referenceSlots, foldlM_cons, normalizeSlot_absent rfl, ok_bind, foldlM_cons,
      normalizeSlot_absent rfl, ok_bind, foldlM_cons, normalizeSlot_absent rfl,
      ok_bind, foldlM_cons, hbead, ok_bind, foldlM_cons,
      normalizeSlot_absent rfl, ok_bind, foldlM_cons, normalizeSlot_absent rfl]
    rfl
  have hinput : preparedInput ⟨.updateBead, [(beadName, stringTree (ascii "alias/a".toList))], none⟩ =
      [(beadName, .leaf (.string (ascii "alias/a".toList)))] := rfl
  have hoperations : normalizeOperations sampleScope (fun _ ↦ some sampleTarget) none [] 0 []
      sampleBatch.operations = .ok [⟨sampleIdentity, ⟨.updateBead, [⟨sampleLocator, some sampleTarget⟩]⟩,
        [(beadName, reference)]⟩] := by
    simp only [sampleBatch, normalizeOperations, normalizeOperation, hinput, Option.bind_none,
      beq_self_eq_true, hslots, ok_bind, Except.pure_eq_ok, registerCreator]
    rfl
  refine ⟨⟨identity, witnessesJson sampleScope
    [⟨.updateBead, [⟨sampleLocator, some sampleTarget⟩]⟩], [(beadName, reference)]⟩, ?_⟩
  rw [normalizeTransaction, priorWitnesses, ok_bind, hoperations, ok_bind,
    List.map_singleton, hidentity]
  rfl

/-- The retry of the sample after its alias is gone. -/
theorem admitKey_retry_sample : ∃ row : KeyRow,
    admitKey sampleBatch (.request ⟨true, 32, le_rfl⟩) true (fun _ ↦ some sampleTarget) [] false none =
      .ok (.owned row) ∧
    (∃ again, normalizeTransaction sampleBatch (fun _ ↦ none) (some row.witnesses) [] = .ok again ∧
        again.identity = row.identity) ∧
      ∀ (retry : Route sampleBatch) (capacity pendingWins pending : Bool),
        admitKey sampleBatch retry capacity (fun _ ↦ none) [] pendingWins
          (some { row with pending := pending }) = .ok .existing := by
  obtain ⟨result, hresult⟩ := sampleBatch_normalized
  have hadmitted : admitKey sampleBatch (.request ⟨true, 32, le_rfl⟩) true
      (fun _ ↦ some sampleTarget) [] false none =
      .ok (.owned ⟨result.identity, result.witnessesJson, true⟩) := by
    rw [admitKey, hresult]
    rfl
  exact ⟨_, hadmitted, admitKey_retry sampleStandard hadmitted fun _ ↦ none⟩

end Sample

end Bdp.Normalize
