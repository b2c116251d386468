import Bdp.Library.Checked
import Bdp.Admission.Serialize
import Bdp.Normalize.CanonicalUrls

/-!
# Alias witnesses

What a transaction records of the aliases in its references: for every operation the locators that
it names and the targets that they had. The text of the record is read back strictly, and every
record of the right form is read back as it was written.
-/

namespace Bdp.Normalize

open CodeUnits Admission

section Definitions

inductive OperationKind where
  | createBead
  | updateBead
  | deleteBead
  | createLink
  | updateLink
  | deleteLink
  | putAlias
  | deleteAlias
  | updateWhere
  | deleteWhere
  deriving DecidableEq

namespace OperationKind

def all : List OperationKind :=
  [.createBead, .updateBead, .deleteBead, .createLink, .updateLink, .deleteLink, .putAlias,
    .deleteAlias, .updateWhere, .deleteWhere]

def text : OperationKind → Text
  | .createBead => ascii ['c', 'r', 'e', 'a', 't', 'e', 'B', 'e', 'a', 'd']
  | .updateBead => ascii ['u', 'p', 'd', 'a', 't', 'e', 'B', 'e', 'a', 'd']
  | .deleteBead => ascii ['d', 'e', 'l', 'e', 't', 'e', 'B', 'e', 'a', 'd']
  | .createLink => ascii ['c', 'r', 'e', 'a', 't', 'e', 'L', 'i', 'n', 'k']
  | .updateLink => ascii ['u', 'p', 'd', 'a', 't', 'e', 'L', 'i', 'n', 'k']
  | .deleteLink => ascii ['d', 'e', 'l', 'e', 't', 'e', 'L', 'i', 'n', 'k']
  | .putAlias => ascii ['p', 'u', 't', 'A', 'l', 'i', 'a', 's']
  | .deleteAlias => ascii ['d', 'e', 'l', 'e', 't', 'e', 'A', 'l', 'i', 'a', 's']
  | .updateWhere => ascii ['u', 'p', 'd', 'a', 't', 'e', 'W', 'h', 'e', 'r', 'e']
  | .deleteWhere => ascii ['d', 'e', 'l', 'e', 't', 'e', 'W', 'h', 'e', 'r', 'e']

def ofText (text : Text) : Option OperationKind := all.find? fun kind ↦ kind.text == text

variable (kind : OperationKind)

@[simp]
theorem ofText_text : ofText kind.text = some kind := by
  cases kind <;> decide

theorem text_lt : ∀ unit ∈ kind.text, unit < 0xd800 := by
  cases kind <;> decide

end OperationKind

/-- The names of the reference slots of operations. -/
def idName : Text := ascii ['i', 'd']
def sourceName : Text := ascii ['s', 'o', 'u', 'r', 'c', 'e']
def targetName : Text := ascii ['t', 'a', 'r', 'g', 'e', 't']
def beadName : Text := ascii ['b', 'e', 'a', 'd']
def linkName : Text := ascii ['l', 'i', 'n', 'k']
def aliasName : Text := ascii ['a', 'l', 'i', 'a', 's']

def formatName : Text := ascii ['f', 'o', 'r', 'm', 'a', 't']
def scopeName : Text := ascii ['s', 'c', 'o', 'p', 'e']
def operationsName : Text := ascii ['o', 'p', 'e', 'r', 'a', 't', 'i', 'o', 'n', 's']
def operationName : Text := ascii ['o', 'p', 'e', 'r', 'a', 't', 'i', 'o', 'n']
def aliasesName : Text := ascii ['a', 'l', 'i', 'a', 's', 'e', 's']
def locatorName : Text := ascii ['l', 'o', 'c', 'a', 't', 'o', 'r']

def TRANSACTION_MAXIMUM_OPERATIONS : ℕ := 32

/-- The slots of an operation in which an alias may stand. -/
def transactionAliasFields : OperationKind → List Text
  | .createLink => [sourceName, targetName]
  | .updateBead | .deleteBead => [beadName]
  | _ => []

structure AliasWitness where
  locator : Text
  target : Option Text
  deriving DecidableEq

structure OperationWitnesses where
  operation : OperationKind
  aliases : List AliasWitness
  deriving DecidableEq

/-- `transaction-alias-witnesses-1` -/
def witnessFormat : Text := ascii
  ['t', 'r', 'a', 'n', 's', 'a', 'c', 't', 'i', 'o', 'n', '-', 'a', 'l', 'i', 'a', 's', '-', 'w', 'i',
    't', 'n', 'e', 's', 's', 'e', 's', '-', '1']

/-- Errors of normalization; `protocol` stands for those of the checks of URLs and paths. -/
inductive NormalizationError where
  | syntaxError (error : JsonSyntaxError)
  | typeError (message : String)
  | protocol

/-- The namespace that a witnessed reference must be in. -/
inductive WitnessRoot where
  | locator
  | resource
  deriving DecidableEq

def aliasRoot : Text := ascii ['a', 'l', 'i', 'a', 's', '/']

def protocolRoot : Text := ascii ['b', 'd', 'p', '/']

variable {parse : UrlParser} (scope : Scope parse)

def witnessedReference (root : WitnessRoot) (value : Text) : Except NormalizationError Text :=
  if !scope.text.isPrefixOf value ||
      (root == .locator && !(scope.text ++ aliasRoot).isPrefixOf value) then
    .error (.typeError "invalid transaction alias witness reference")
  else if !parseCanonicalHttpUrl parse value then .error .protocol
  else
    let path := value.drop scope.text.length
    if !assertCanonicalPathSegments path then .error .protocol
    else if root == .resource && protocolRoot.isPrefixOf path then
      .error (.typeError "invalid transaction alias witness reference")
    else .ok value

def stringTree (value : Text) : JsonTree JsonLeaf := .leaf (.string value)

def AliasWitness.tree (witness : AliasWitness) : JsonTree JsonLeaf :=
  .object [(locatorName, stringTree witness.locator),
    (targetName, witness.target.elim (.leaf .null) stringTree)]

def OperationWitnesses.tree (witnesses : OperationWitnesses) : JsonTree JsonLeaf :=
  .object [(operationName, stringTree witnesses.operation.text),
    (aliasesName, .array (witnesses.aliases.map AliasWitness.tree))]

def witnessesTree (operations : List OperationWitnesses) : JsonTree JsonLeaf :=
  .object [(formatName, stringTree witnessFormat), (scopeName, stringTree scope.text),
    (operationsName, .array (operations.map OperationWitnesses.tree))]

/-- `JSON.stringify` of a record. -/
def witnessesJson (operations : List OperationWitnesses) : Text :=
  (witnessesTree scope operations).text losslessLeafText

def object : JsonTree JsonLeaf → Except NormalizationError (List (Text × JsonTree JsonLeaf))
  | .object members => .ok members
  | _ => .error (.typeError "expected object")

def stringOf : Option (JsonTree JsonLeaf) → Option Text
  | some (.leaf (.string value)) => some value
  | _ => none

/-- `witnessedReference` of a value that may be no string. -/
def witnessedValue (root : WitnessRoot) (value : Option (JsonTree JsonLeaf)) :
    Except NormalizationError Text :=
  match stringOf value with
  | none => .error (.typeError "invalid transaction alias witness reference")
  | some value => witnessedReference scope root value

def parseAlias (value : JsonTree JsonLeaf) : Except NormalizationError AliasWitness := do
  let members ← object value
  if members.length ≠ 2 then throw (.typeError "invalid transaction alias witness")
  let locator ← witnessedValue scope .locator (members.lookup locatorName)
  match members.lookup targetName with
  | some (.leaf .null) => pure ⟨locator, none⟩
  | target => do
    let target ← witnessedValue scope .resource target
    pure ⟨locator, some target⟩

def parseAliases : List Text → List (JsonTree JsonLeaf) →
    Except NormalizationError (List AliasWitness)
  | _, [] => pure []
  | seen, value :: values => do
    let witness ← parseAlias scope value
    if seen.contains witness.locator then
      throw (.typeError "duplicate transaction alias witness")
    let rest ← parseAliases (witness.locator :: seen) values
    pure (witness :: rest)

def parseOperationWitnesses (value : JsonTree JsonLeaf) :
    Except NormalizationError OperationWitnesses := do
  let entry ← object value
  match entry.length, entry.lookup aliasesName with
  | 2, some (.array aliases) => do
    match (stringOf (entry.lookup operationName)).bind OperationKind.ofText with
    | none => throw (.typeError "unsupported development transaction operation")
    | some operation => do
      if (transactionAliasFields operation).length < aliases.length then
        throw (.typeError "invalid transaction alias witness count")
      let aliases ← parseAliases scope [] aliases
      pure ⟨operation, aliases⟩
  | _, _ => throw (.typeError "invalid transaction operation witnesses")

def parseWitnesses (text : Text) : Except NormalizationError (List OperationWitnesses) := do
  let value ← (decodeJsonDocument text).mapError .syntaxError
  let data ← object value
  match data.lookup operationsName with
  | some (.array operations) =>
    if data.length ≠ 3 ∨ stringOf (data.lookup formatName) ≠ some witnessFormat ∨
        stringOf (data.lookup scopeName) ≠ some scope.text ∨ operations.length < 1 ∨
        TRANSACTION_MAXIMUM_OPERATIONS < operations.length then
      throw (.typeError "invalid transaction alias witness envelope")
    else operations.mapM (parseOperationWitnesses scope)
  | _ => throw (.typeError "invalid transaction alias witness envelope")

/-- A record of one operation that its reader accepts. -/
structure OperationWitnesses.Recorded (witnesses : OperationWitnesses) : Prop where
  bounded : witnesses.aliases.length ≤ (transactionAliasFields witnesses.operation).length
  distinct : (witnesses.aliases.map AliasWitness.locator).Nodup
  locators : ∀ witness ∈ witnesses.aliases,
    witnessedReference scope .locator witness.locator = .ok witness.locator
  targets : ∀ witness ∈ witnesses.aliases, ∀ target, witness.target = some target →
    witnessedReference scope .resource target = .ok target

end Definitions

section References

variable {parse : UrlParser} {scope : Scope parse} {root : WitnessRoot} {value other : Text}

theorem witnessedReference_eq_ok : witnessedReference scope root value = .ok other ↔
    other = value ∧ ∃ path, value = scope.text ++ path ∧ parseCanonicalHttpUrl parse value = true ∧
      assertCanonicalPathSegments path = true ∧ (root = .locator → aliasRoot <+: path) ∧
        (root = .resource → ¬ protocolRoot <+: path) := by
  constructor
  · intro h
    unfold witnessedReference at h
    split at h
    · cases h
    next hscope =>
      simp only [Bool.or_eq_true, Bool.and_eq_true, Bool.not_eq_true', beq_iff_eq, not_or, not_and,
        Bool.not_eq_false, List.isPrefixOf_iff_prefix] at hscope
      obtain ⟨⟨path, rfl⟩, hlocator⟩ := hscope
      simp only [List.drop_left, List.prefix_append_right_inj] at h hlocator
      split at h
      · cases h
      next hurl =>
        split at h
        · cases h
        next hpath =>
          split at h
          · cases h
          next hresource =>
            refine ⟨(Except.ok.inj h).symm, path, rfl, by simpa using hurl, by simpa using hpath,
              hlocator, fun hroot hreserved ↦ hresource ?_⟩
            simpa [hroot, List.isPrefixOf_iff_prefix] using hreserved
  · rintro ⟨rfl, path, rfl, hurl, hpath, hlocator, hresource⟩
    unfold witnessedReference
    rw [if_neg, if_neg (by simp [hurl])]
    · rw [List.drop_left, if_neg (by simp [hpath]), if_neg]
      simp only [Bool.and_eq_true, beq_iff_eq, List.isPrefixOf_iff_prefix, not_and]
      exact hresource
    · simp only [Bool.or_eq_true, Bool.and_eq_true, Bool.not_eq_true', beq_iff_eq, not_or, not_and,
        Bool.not_eq_false, List.isPrefixOf_iff_prefix, List.prefix_append_right_inj]
      exact ⟨List.prefix_append _ _, hlocator⟩

theorem witnessedReference_scalar (standard : Standard scope)
    (h : witnessedReference scope root value = .ok value) : ¬ HasLoneSurrogate value := by
  obtain ⟨-, path, rfl, -, hpath, -, -⟩ := witnessedReference_eq_ok.mp h
  apply not_hasLoneSurrogate_of_lt
  intro unit hunit
  obtain hunit | hunit := List.mem_append.mp hunit
  · have := standard.scalar unit hunit
    omega
  · have := (canonicalPath_plain hpath hunit).1
    omega

end References

section Records

variable {parse : UrlParser} {scope : Scope parse}

theorem AliasWitness.tree_enumerated (witness : AliasWitness) :
    witness.tree.enumerated = witness.tree := by
  have htarget : (witness.target.elim (.leaf .null) stringTree).enumerated =
      witness.target.elim (.leaf .null) stringTree := by
    cases witness.target <;> rfl
  have hnames : arrayIndex locatorName = none ∧ arrayIndex targetName = none := by decide
  simp only [tree, JsonTree.enumerated, JsonTree.enumeratedMembers, htarget, stringTree]
  rw [enumeration_eq_self (by simpa using hnames)]

theorem OperationWitnesses.tree_enumerated (witnesses : OperationWitnesses) :
    witnesses.tree.enumerated = witnesses.tree := by
  have haliases : (witnesses.aliases.map AliasWitness.tree).map JsonTree.enumerated =
      witnesses.aliases.map AliasWitness.tree := by
    rw [List.map_map]
    exact List.map_congr_left fun witness _ ↦ witness.tree_enumerated
  have hnames : arrayIndex operationName = none ∧ arrayIndex aliasesName = none := by decide
  simp only [tree, JsonTree.enumerated, JsonTree.enumeratedMembers, stringTree,
    JsonTree.enumeratedItems_eq_map, haliases]
  rw [enumeration_eq_self (by simpa using hnames)]

theorem witnessesTree_enumerated (operations : List OperationWitnesses) :
    (witnessesTree scope operations).enumerated = witnessesTree scope operations := by
  have hoperations : (operations.map OperationWitnesses.tree).map JsonTree.enumerated =
      operations.map OperationWitnesses.tree := by
    rw [List.map_map]
    exact List.map_congr_left fun witnesses _ ↦ witnesses.tree_enumerated
  have hnames : arrayIndex formatName = none ∧ arrayIndex scopeName = none ∧
      arrayIndex operationsName = none := by
    decide
  simp only [witnessesTree, JsonTree.enumerated, JsonTree.enumeratedMembers, stringTree,
    JsonTree.enumeratedItems_eq_map, hoperations]
  rw [enumeration_eq_self (by simpa using hnames)]

variable {value : Text}

theorem scalarName_of_lt (h : ∀ unit ∈ value, unit < 0xd800) : ScalarName value :=
  not_hasLoneSurrogate_of_lt h

theorem stringTree_wellNamed (h : ScalarName value) :
    (stringTree value).WellNamed ScalarName LosslessLeaf :=
  .leaf h

variable {witnesses : OperationWitnesses}

theorem OperationWitnesses.Recorded.wellNamed (standard : Standard scope)
    (h : witnesses.Recorded scope) :
    witnesses.tree.WellNamed ScalarName LosslessLeaf := by
  have hnames : ScalarName operationName ∧ ScalarName aliasesName :=
    ⟨scalarName_of_lt (by decide), scalarName_of_lt (by decide)⟩
  have hmembers : ScalarName locatorName ∧ ScalarName targetName :=
    ⟨scalarName_of_lt (by decide), scalarName_of_lt (by decide)⟩
  have haliases : ∀ tree ∈ witnesses.aliases.map AliasWitness.tree,
      tree.WellNamed ScalarName LosslessLeaf := by
    intro tree htree
    obtain ⟨witness, hwitness, rfl⟩ := List.mem_map.mp htree
    have htarget : (witness.target.elim (.leaf .null) stringTree).WellNamed ScalarName
        LosslessLeaf := by
      cases hcase : witness.target with
      | none => exact .leaf trivial
      | some target =>
        exact stringTree_wellNamed
          (witnessedReference_scalar standard (h.targets witness hwitness target hcase))
    have hlocator := stringTree_wellNamed
      (witnessedReference_scalar standard (h.locators witness hwitness))
    exact .object (by simpa using (by decide : locatorName ≠ targetName)) (by simpa using hmembers)
      (by simpa using ⟨hlocator, htarget⟩)
  have hoperation := stringTree_wellNamed (scalarName_of_lt witnesses.operation.text_lt)
  exact .object (by simpa using (by decide : operationName ≠ aliasesName)) (by simpa using hnames)
    (by simpa using ⟨hoperation, .array haliases⟩)

variable {operations : List OperationWitnesses}

theorem witnessesTree_wellNamed (standard : Standard scope)
    (h : ∀ witnesses ∈ operations, witnesses.Recorded scope) :
    (witnessesTree scope operations).WellNamed ScalarName LosslessLeaf := by
  have hscope : ScalarName scope.text := by
    apply scalarName_of_lt
    intro unit hunit
    have := standard.scalar unit hunit
    omega
  have hoperations : ∀ tree ∈ operations.map OperationWitnesses.tree,
      tree.WellNamed ScalarName LosslessLeaf := by
    intro tree htree
    obtain ⟨witnesses, hwitnesses, rfl⟩ := List.mem_map.mp htree
    exact (h witnesses hwitnesses).wellNamed standard
  have hnames : ScalarName formatName ∧ ScalarName scopeName ∧ ScalarName operationsName :=
    ⟨scalarName_of_lt (by decide), scalarName_of_lt (by decide), scalarName_of_lt (by decide)⟩
  have hformat : ScalarName witnessFormat := scalarName_of_lt (by decide)
  have hdistinct : [formatName, scopeName, operationsName].Nodup := by decide
  exact .object hdistinct (by simpa using hnames) (by
    simpa using ⟨stringTree_wellNamed hformat, stringTree_wellNamed hscope, .array hoperations⟩)

theorem parseAlias_tree {witness : AliasWitness}
    (hlocator : witnessedReference scope .locator witness.locator = .ok witness.locator)
    (htarget : ∀ target, witness.target = some target →
      witnessedReference scope .resource target = .ok target) :
    parseAlias scope witness.tree = .ok witness := by
  obtain ⟨locator, target⟩ := witness
  have hnames : (targetName == locatorName) = false := by decide
  have hvalue : witnessedValue scope .locator (some (stringTree locator)) = .ok locator := hlocator
  cases target with
  | none =>
    simp [parseAlias, AliasWitness.tree, object, List.lookup, hnames, hvalue, bind, Except.bind, pure,
      Except.pure]
  | some target =>
    have hresource : witnessedValue scope .resource (some (stringTree target)) = .ok target :=
      htarget target rfl
    simp only [parseAlias, AliasWitness.tree, object, List.lookup, hnames, hvalue, Option.elim,
      Except.ok_bind, Except.pure_eq_ok, beq_self_eq_true]
    rw [if_neg (by simp)]
    change (do
      let target ← witnessedValue scope .resource (some (stringTree target))
      Except.ok (⟨locator, some target⟩ : AliasWitness)) = _
    rw [hresource, Except.ok_bind]

theorem parseAliases_trees {seen : List Text} {aliases : List AliasWitness}
    (h : ∀ witness ∈ aliases, parseAlias scope witness.tree = .ok witness)
    (hdistinct : (seen ++ aliases.map AliasWitness.locator).Nodup) :
    parseAliases scope seen (aliases.map AliasWitness.tree) = .ok aliases := by
  induction aliases generalizing seen with
  | nil => rfl
  | cons witness aliases ih =>
    rw [List.map_cons, List.nodup_middle, List.nodup_cons] at hdistinct
    have hnew : seen.contains witness.locator = false := by
      simpa using fun hmem ↦ hdistinct.1 (List.mem_append_left _ hmem)
    have hrest := @ih (witness.locator :: seen)
      (fun other hother ↦ h other (List.mem_cons_of_mem _ hother))
      (List.nodup_cons.mpr hdistinct)
    simp only [List.map_cons, parseAliases, h witness List.mem_cons_self, hrest, hnew, bind, Except.bind,
      pure, Except.pure]
    rfl

theorem OperationWitnesses.Recorded.read (h : witnesses.Recorded scope) :
    parseOperationWitnesses scope witnesses.tree = .ok witnesses := by
  have hnames : (aliasesName == operationName) = false := by decide
  have haliases : parseAliases scope [] (witnesses.aliases.map AliasWitness.tree) =
      .ok witnesses.aliases :=
    parseAliases_trees (fun witness hwitness ↦
      parseAlias_tree (h.locators witness hwitness) (h.targets witness hwitness)) h.distinct
  have hbounded : ¬ (transactionAliasFields witnesses.operation).length <
      (witnesses.aliases.map AliasWitness.tree).length := by
    rw [List.length_map]
    exact Nat.not_lt.mpr h.bounded
  have hoperation : (stringOf (some (stringTree witnesses.operation.text))).bind
      OperationKind.ofText = some witnesses.operation :=
    OperationKind.ofText_text _
  simp only [parseOperationWitnesses, OperationWitnesses.tree, object, List.lookup, hnames,
    Except.ok_bind, Except.pure_eq_ok, beq_self_eq_true, List.length_cons, List.length_nil]
  rw [hoperation]
  dsimp only
  rw [if_neg hbounded, haliases, Except.ok_bind]

theorem parseWitnesses_witnessesJson (standard : Standard scope)
    (h : ∀ witnesses ∈ operations, witnesses.Recorded scope)
    (hne : operations ≠ []) (hbound : operations.length ≤ TRANSACTION_MAXIMUM_OPERATIONS) :
    parseWitnesses scope (witnessesJson scope operations) = .ok operations := by
  have hdecoded := decodeJsonDocument_text (witnessesTree_wellNamed standard h)
  rw [witnessesTree_enumerated] at hdecoded
  have hnames : (scopeName == formatName) = false ∧ (operationsName == formatName) = false ∧
      (operationsName == scopeName) = false := by
    decide
  have hread : (operations.map OperationWitnesses.tree).mapM (parseOperationWitnesses scope) =
      .ok operations := by
    apply mapM_eq_ok.mpr
    rw [List.forall₂_map_left_iff, List.forall₂_same]
    exact fun witnesses hwitnesses ↦ (h witnesses hwitnesses).read
  have hlength : ¬ ((operations.map OperationWitnesses.tree).length < 1 ∨
      TRANSACTION_MAXIMUM_OPERATIONS < (operations.map OperationWitnesses.tree).length) := by
    have := List.length_pos_of_ne_nil hne
    rw [List.length_map]
    omega
  rw [parseWitnesses, witnessesJson, hdecoded]
  simp only [Except.mapError, witnessesTree, object, List.lookup, hnames, Except.ok_bind,
    beq_self_eq_true]
  rw [if_neg, hread]
  rintro (hcount | hformat | hscope | hlong)
  · exact hcount rfl
  · exact hformat rfl
  · exact hscope rfl
  · exact hlength hlong

end Records

end Bdp.Normalize
