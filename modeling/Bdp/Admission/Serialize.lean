import Bdp.Library.JsonWalk
import Bdp.Admission.Acceptance
import Bdp.Admission.Numbers

/-!
# Serializing and admitting JSON values

The iterative writers of JSON values, the checked snapshot that one of them takes first, and the
admission of the numbers of a decoded document. The writers give the recursive compact text; that
text is a document of the grammar, so decoding and admitting it gives the value back.
-/

namespace Bdp.Admission

open CodeUnits JsonGrammar

section Values

/-- A leaf of an admitted value: its numbers are finite doubles. -/
inductive AdmittedLeaf where
  | null
  | bool (value : Bool)
  | string (value : Text)
  | number (value : ℚ)

/-- A leaf of a lossless value: a string without lone surrogates, or a number by its lexeme. -/
def LosslessLeaf : JsonLeaf → Prop
  | .string value => ¬ HasLoneSurrogate value
  | .number lexeme => IsNumber lexeme
  | _ => True

def DoubleLeaf : AdmittedLeaf → Prop
  | .string value => ¬ HasLoneSurrogate value
  | .number value => IsDouble value
  | _ => True

abbrev ScalarName (name : Text) : Prop := ¬ HasLoneSurrogate name

/-- What `decodeJsonDocument` returns: `LosslessJsonValue`. -/
structure LosslessJsonValue where
  tree : JsonTree JsonLeaf
  regular : tree.Regular ScalarName LosslessLeaf

/-- What `admitJsonNumbers` returns: `AdmittedJsonValue`. -/
structure AdmittedJsonValue where
  tree : JsonTree AdmittedLeaf
  regular : tree.Regular ScalarName DoubleLeaf

def boolText (value : Bool) : Text :=
  if value then ascii ['t', 'r', 'u', 'e'] else ascii ['f', 'a', 'l', 's', 'e']

def losslessLeafText : JsonLeaf → Text
  | .null => ascii ['n', 'u', 'l', 'l']
  | .bool value => boolText value
  | .string value => quote value
  | .number lexeme => lexeme

/-- `JSON.stringify` of a value without parts. -/
def admittedLeafText (numbers : Numbers) : AdmittedLeaf → Text
  | .null => ascii ['n', 'u', 'l', 'l']
  | .bool value => boolText value
  | .string value => quote value
  | .number value => numbers.shortest value

end Values

section Writers

/-- `losslessMemberText`: pushes the name of a member and its colon as one text. -/
def losslessMemberText (value : JsonTree JsonLeaf) : Text :=
  JsonTree.writeTree true losslessLeafText value

/-- `transactionInputText`: pushes the name of a member and its colon separately. -/
def transactionInputText (value : JsonTree JsonLeaf) : Text :=
  JsonTree.writeTree false losslessLeafText value

/-- `key.replace(/~/g, "~0").replace(/\//g, "~1")` -/
def escapeKey (key : Text) : Text :=
  key.flatMap fun unit ↦ if unit = 126 then [126, 48] else if unit = 47 then [126, 49] else [unit]

/-- The JSON pointer of a path of names from the root. -/
def pointer (path : List Text) : Text := path.flatMap fun key ↦ 47 :: escapeKey key

def unpairedMessage : Text := ascii " must not contain an unpaired surrogate".toList

/-- The checks of `snapshotJsonValue` on names and strings. -/
def snapshotWalk (label : Text) : JsonTree.Walk AdmittedLeaf AdmittedLeaf Unit Text where
  name path :=
    if isUnicodeScalarString (path.getLast?.getD []) then .ok ()
    else .error (label ++ pointer path ++ unpairedMessage)
  leaf path value _ :=
    match value with
    | .string text =>
      if isUnicodeScalarString text then .ok (.string text, ())
      else .error (label ++ pointer path ++ unpairedMessage)
    | value => .ok (value, ())

def snapshotJsonValue (label : Text) (value : JsonTree AdmittedLeaf) :
    Except Text (JsonTree AdmittedLeaf) :=
  (JsonTree.walkTree (snapshotWalk label) value ()).map Prod.fst

/-- The snapshot, written by a loop that pushes the name of a member and its colon separately. -/
def stringifyJsonValue (numbers : Numbers) (label : Text) (value : JsonTree AdmittedLeaf) :
    Except Text Text :=
  (snapshotJsonValue label value).map (JsonTree.writeTree false (admittedLeafText numbers))

/-- `JSON.stringify` of an admitted value, by recursion over it. -/
def jsonStringify (numbers : Numbers) (value : JsonTree AdmittedLeaf) : Text :=
  value.text (admittedLeafText numbers)

end Writers

section Admission

structure JsonNumberOccurrence where
  pointer : Text
  literal : Text

/-- The bounds of a caller on its diagnostics, its formatter, and the bytes of a serialized
diagnostic. -/
structure JsonNumberDiagnosticBudget (D : Type) where
  diagnostics : Option ℕ
  diagnosticBytes : Option ℕ
  diagnostic : JsonNumberOccurrence → D
  encodedBytes : D → ℕ

/-- The occurrences refused so far, their diagnostics and the bytes of the serialized list. -/
structure Refusals (D : Type) where
  offending : List JsonNumberOccurrence
  diagnostics : List D
  bytes : ℕ

inductive JsonNumericAdmission (D : Type) where
  | admitted (value : JsonTree AdmittedLeaf)
  | refused (offending : List JsonNumberOccurrence) (diagnostics : List D) (truncated : Bool)

/-- How the traversal is left early: an exhausted budget, or a failure of the caller. -/
inductive Interrupt (D : Type) where
  | stop (refusals : Refusals D)
  | failed (message : String)

variable {D : Type}

/-- A positive safe integer, when there is a limit. -/
def limitValid (limit : Option ℕ) : Bool :=
  limit.all fun limit ↦ decide (1 ≤ limit ∧ limit ≤ 2 ^ 53 - 1)

def JsonNumberDiagnosticBudget.Valid (budget : JsonNumberDiagnosticBudget D) : Prop :=
  limitValid budget.diagnostics = true ∧ limitValid budget.diagnosticBytes = true

def exhausted (limit : Option ℕ) (size : ℕ) : Bool := limit.any fun limit ↦ decide (limit ≤ size)

def exceeded (limit : Option ℕ) (size : ℕ) : Bool := limit.any fun limit ↦ decide (limit < size)

/-- `Number` of a lexeme. The rounding of a refused number is never returned. -/
def numberOf (numbers : Numbers) (lexeme : Text) : ℚ :=
  (((numberParts lexeme).bind fun parts ↦ numbers.nearest parts.value)).getD 0

/-- The callback of the traversal at a number. -/
def admitNumber (numbers : Numbers) (budget : JsonNumberDiagnosticBudget D) (path : List Text)
    (lexeme : Text) (refusals : Refusals D) : Except (Interrupt D) (AdmittedLeaf × Refusals D) :=
  match isAdmissibleJsonNumber numbers lexeme with
  | .error message => .error (.failed message)
  | .ok true => .ok (.number (numberOf numbers lexeme), refusals)
  | .ok false =>
    if exhausted budget.diagnostics refusals.diagnostics.length then .error (.stop refusals)
    else
      let occurrence : JsonNumberOccurrence := ⟨pointer path, lexeme⟩
      let diagnostic := budget.diagnostic occurrence
      let nextBytes := refusals.bytes + (if refusals.diagnostics = [] then 0 else 1) +
        budget.encodedBytes diagnostic
      if exceeded budget.diagnosticBytes nextBytes then
        if refusals.diagnostics = [] then
          .error (.failed "diagnostic byte bound cannot retain the first entry")
        else .error (.stop refusals)
      else .ok (.number (numberOf numbers lexeme),
        ⟨refusals.offending ++ [occurrence], refusals.diagnostics ++ [diagnostic], nextBytes⟩)

/-- `mapLosslessJson` with the callback of `admitJsonNumbers`: a frame of the walk stands for the
pending tasks of one container, down to its freeze. -/
def admissionWalk (numbers : Numbers) (budget : JsonNumberDiagnosticBudget D) :
    JsonTree.Walk JsonLeaf AdmittedLeaf (Refusals D) (Interrupt D) where
  name _ := .ok ()
  leaf path value refusals :=
    match value with
    | .number lexeme => admitNumber numbers budget path lexeme refusals
    | .null => .ok (.null, refusals)
    | .bool value => .ok (.bool value, refusals)
    | .string value => .ok (.string value, refusals)

def admitJsonNumbers (numbers : Numbers) (budget : JsonNumberDiagnosticBudget D)
    (root : JsonTree JsonLeaf) : Except String (JsonNumericAdmission D) :=
  if limitValid budget.diagnostics && limitValid budget.diagnosticBytes then
    match JsonTree.walkTree (admissionWalk numbers budget) root ⟨[], [], 2⟩ with
    | .ok (value, refusals) =>
      if refusals.offending.isEmpty then .ok (.admitted value)
      else .ok (.refused refusals.offending refusals.diagnostics false)
    | .error (.stop refusals) => .ok (.refused refusals.offending refusals.diagnostics true)
    | .error (.failed message) => .error message
  else .error "diagnostic bounds must be positive safe integers"

end Admission

section Documents

theorem derives_leaf {value : JsonLeaf} (h : LosslessLeaf value) :
    Derives (.value (.leaf value)) (losslessLeafText value) := by
  cases value with
  | null => exact .null
  | bool value => cases value <;> constructor
  | string value => exact .string ⟨escapeText value, stringChars_escapeText value, rfl⟩
  | number lexeme => exact .number h

theorem derives_items {items : List (JsonTree JsonLeaf)} (hne : items ≠ [])
    (h : ∀ item ∈ items, Derives (.value item) (item.text losslessLeafText)) :
    Derives (.items items) (JsonTree.commas (items.map (JsonTree.text losslessLeafText))) := by
  induction items with
  | nil => exact absurd rfl hne
  | cons item items ih =>
    cases items with
    | nil => exact .item (h item List.mem_cons_self)
    | cons next rest =>
      have hrest := ih (by simp) fun other hother ↦ h other (List.mem_cons_of_mem _ hother)
      exact .moreItems (h item List.mem_cons_self) (structural_bare 44) hrest

theorem derives_members {members : List (Text × JsonTree JsonLeaf)} (hne : members ≠ [])
    (h : ∀ member ∈ members, Derives (.value member.2) (member.2.text losslessLeafText)) :
    Derives (.members members) (JsonTree.commas (members.map fun member ↦
      quote member.1 ++ 58 :: member.2.text losslessLeafText)) := by
  induction members with
  | nil => exact absurd rfl hne
  | cons member members ih =>
    obtain ⟨name, value⟩ := member
    have hname : IsString name (quote name) := ⟨escapeText name, stringChars_escapeText name, rfl⟩
    cases members with
    | nil => exact .member hname (structural_bare 58) (h _ List.mem_cons_self)
    | cons next rest =>
      have hrest := ih (by simp) fun other hother ↦ h other (List.mem_cons_of_mem _ hother)
      have := Derives.moreMembers hname (structural_bare 58) (h _ List.mem_cons_self)
        (structural_bare 44) hrest
      simpa [JsonTree.commas] using this

variable {tree : JsonTree JsonLeaf}

section

variable (h : tree.WellNamed ScalarName LosslessLeaf)
include h

theorem derives_text : Derives (.value tree) (tree.text losslessLeafText) := by
  induction h with
  | leaf valid => exact derives_leaf valid
  | @array items _ ih =>
    rw [JsonTree.text, JsonTree.itemTexts_eq_map]
    by_cases hne : items = []
    · subst hne
      exact .emptyArray (structural_bare 91) (structural_bare 93)
    · exact .array (structural_bare 91) (derives_items hne ih) (structural_bare 93)
  | @object members _ _ _ ih =>
    rw [JsonTree.text, JsonTree.memberTexts_eq_map]
    by_cases hne : members = []
    · subst hne
      exact .emptyObject (structural_bare 123) (structural_bare 125)
    · exact .object (structural_bare 123) (derives_members hne ih) (structural_bare 125)

theorem decodeJsonDocument_text :
    decodeJsonDocument (tree.text losslessLeafText) = .ok tree.enumerated := by
  apply (decodeJsonDocument_eq_ok_iff _ _).mpr
  refine ⟨tree, ⟨[], tree.text losslessLeafText, [], whitespace_nil, whitespace_nil,
    derives_text h, by simp⟩, h.mono ?_, rfl⟩
  intro value hvalue
  cases value with
  | string value => exact hvalue
  | null | bool value | number lexeme => trivial

end

/-- What a derivation says of the numbers in its trees. -/
def NumbersDerived : Form → Prop
  | .value tree => Admissible tree → tree.WellNamed ScalarName LosslessLeaf
  | .items items => ∀ item ∈ items, Admissible item → item.WellNamed ScalarName LosslessLeaf
  | .members members =>
    ∀ member ∈ members, Admissible member.2 → member.2.WellNamed ScalarName LosslessLeaf

variable {text : Text}

theorem numbersDerived {form : Form} (h : Derives form text) : NumbersDerived form := by
  induction h with
  | null | true | false => exact fun _ ↦ .leaf trivial
  | number h => exact fun _ ↦ .leaf h
  | string _ =>
    intro hadmissible
    cases hadmissible with
    | leaf valid => exact .leaf valid
  | emptyArray _ _ => exact fun _ ↦ .array (by simp)
  | array _ _ _ ih =>
    intro hadmissible
    cases hadmissible with
    | array children => exact .array fun item hitem ↦ ih item hitem (children item hitem)
  | emptyObject _ _ => exact fun _ ↦ .object (by simp) (by simp) (by simp)
  | object _ _ _ ih =>
    intro hadmissible
    cases hadmissible with
    | object distinct names children =>
      exact .object distinct names fun member hmember ↦ ih member hmember (children member hmember)
  | item _ ih => exact List.forall_mem_singleton.mpr ih
  | moreItems _ _ _ ihItem ihItems => exact List.forall_mem_cons.mpr ⟨ihItem, ihItems⟩
  | member _ _ _ ih => exact List.forall_mem_singleton.mpr ih
  | moreMembers _ _ _ _ _ ihValue ihMembers =>
    exact List.forall_mem_cons.mpr ⟨ihValue, ihMembers⟩

theorem decodeJsonDocument_regular {value : JsonTree JsonLeaf}
    (h : decodeJsonDocument text = .ok value) : value.Regular ScalarName LosslessLeaf := by
  obtain ⟨tree, ⟨_, _, _, _, _, hderives, _⟩, hadmissible, rfl⟩ :=
    (decodeJsonDocument_eq_ok_iff text value).mp h
  exact JsonTree.regular_enumerated (numbersDerived hderives hadmissible)

end Documents

section RoundTrip

variable {numbers : Numbers} {D : Type}

/-- The lossless leaf that an admitted leaf is written as. -/
def losslessLeaf (numbers : Numbers) : AdmittedLeaf → JsonLeaf
  | .null => .null
  | .bool value => .bool value
  | .string value => .string value
  | .number value => .number (numbers.shortest value)

/-- The admitted leaf that a lossless leaf is read as. -/
def admittedLeaf (numbers : Numbers) : JsonLeaf → AdmittedLeaf
  | .null => .null
  | .bool value => .bool value
  | .string value => .string value
  | .number lexeme => .number (numberOf numbers lexeme)

theorem losslessLeafText_losslessLeaf (numbers : Numbers) :
    losslessLeafText ∘ losslessLeaf numbers = admittedLeafText numbers := by
  funext value
  cases value <;> rfl

section

variable (lawful : numbers.Lawful)
include lawful

variable {value : AdmittedLeaf}

theorem losslessLeaf_losslessLeaf
    (h : DoubleLeaf value) : LosslessLeaf (losslessLeaf numbers value) := by
  cases value with
  | number value =>
    obtain ⟨parts, hvalid, htext, _⟩ := lawful.lexeme value h
    exact ⟨parts, hvalid, htext⟩
  | string value => exact h
  | null | bool value => trivial

theorem numberOf_shortest {value : ℚ} (h : IsDouble value) :
    numberOf numbers (numbers.shortest value) = value := by
  obtain ⟨parts, hvalid, htext, _⟩ := lawful.lexeme value h
  simp [numberOf, htext, numberParts_text hvalid, lawful.roundTrip value h parts hvalid htext]

theorem admittedLeaf_losslessLeaf
    (h : DoubleLeaf value) : admittedLeaf numbers (losslessLeaf numbers value) = value := by
  cases value with
  | number value => exact congrArg AdmittedLeaf.number (numberOf_shortest lawful h)
  | string value | null | bool value => rfl

theorem isAdmissible_shortest {value : ℚ} (h : IsDouble value) :
    isAdmissibleJsonNumber numbers (numbers.shortest value) = .ok true := by
  obtain ⟨parts, hvalid, htext, hlength, _⟩ := lawful.lexeme value h
  have hlimit : parts.text.length ≤ stringLimit := by
    rw [stringLimit]
    omega
  rw [htext, isAdmissibleJsonNumber_iff lawful hvalid hlimit]
  exact ⟨value, parts, lawful.roundTrip value h parts hvalid htext,
    by rw [htext, numberParts_text hvalid], rfl⟩

end

/-- Lossless leaves whose numbers are admissible. -/
def AdmissibleLeaf (numbers : Numbers) : JsonLeaf → Prop
  | .number lexeme => isAdmissibleJsonNumber numbers lexeme = .ok true
  | _ => True

theorem admissionWalk_passes (budget : JsonNumberDiagnosticBudget D) (refusals : Refusals D) :
    JsonTree.Passes (admissionWalk numbers budget) ScalarName (AdmissibleLeaf numbers)
      (admittedLeaf numbers) refusals where
  index _ _ := rfl
  name _ _ _ := rfl
  leaf path value h := by
    cases value with
    | number lexeme =>
      simp only [AdmissibleLeaf] at h
      simp [admissionWalk, admitNumber, h, admittedLeaf]
    | null | bool value | string value => rfl

theorem snapshotWalk_passes (label : Text) :
    JsonTree.Passes (snapshotWalk label) ScalarName DoubleLeaf id () where
  index path index := by
    have hscalar : isUnicodeScalarString (Decimal.digitsOf index) = true := by
      rw [isUnicodeScalarString_iff]
      apply not_hasLoneSurrogate_of_lt
      intro unit hunit
      have := Decimal.isDigit_digitsOf index unit hunit
      simp only [Decimal.isDigit, decide_eq_true_eq] at this
      omega
    simp [snapshotWalk, hscalar]
  name path key h := by
    simp [snapshotWalk, (isUnicodeScalarString_iff key).mpr h]
  leaf path value h := by
    cases value with
    | string value => simp [snapshotWalk, (isUnicodeScalarString_iff value).mpr h]
    | null | bool value | number value => rfl

theorem snapshotJsonValue_eq (label : Text) (value : AdmittedJsonValue) :
    snapshotJsonValue label value.tree = .ok value.tree := by
  have hmap : value.tree.map id = value.tree := value.regular.wellNamed.map_eq_self fun _ _ ↦ rfl
  rw [snapshotJsonValue, JsonTree.walkTree_passes (snapshotWalk_passes label)
    value.regular.wellNamed, hmap, value.regular.order]
  rfl

theorem jsonStringify_eq (value : JsonTree AdmittedLeaf) :
    jsonStringify numbers value = (value.map (losslessLeaf numbers)).text losslessLeafText := by
  rw [JsonTree.text_map, losslessLeafText_losslessLeaf, jsonStringify]

theorem admitJsonNumbers_lossless (lawful : numbers.Lawful)
    {budget : JsonNumberDiagnosticBudget D} (hbudget : budget.Valid) (value : AdmittedJsonValue) :
    admitJsonNumbers numbers budget (value.tree.map (losslessLeaf numbers)) =
      .ok (.admitted value.tree) := by
  have hwellNamed : (value.tree.map (losslessLeaf numbers)).WellNamed ScalarName
      (AdmissibleLeaf numbers) := by
    apply value.regular.wellNamed.map
    intro leaf hleaf
    cases leaf with
    | number value => exact isAdmissible_shortest lawful hleaf
    | null | bool value | string value => trivial
  have hmap : (value.tree.map (losslessLeaf numbers)).map (admittedLeaf numbers) = value.tree := by
    rw [JsonTree.map_map]
    exact value.regular.wellNamed.map_eq_self fun _ ↦ admittedLeaf_losslessLeaf lawful
  have hwalk := JsonTree.walkTree_passes (admissionWalk_passes budget ⟨[], [], 2⟩) hwellNamed
  rw [hmap, value.regular.order] at hwalk
  simp [admitJsonNumbers, hbudget.1, hbudget.2, hwalk]

/-- Serializing and admitting are inverse to each other: an admitted value is written as
`JSON.stringify` writes it, and decoding and admitting that text gives the value; both writers of
lossless values give a text that decodes to the value. -/
theorem serialize_roundTrip (lawful : numbers.Lawful) (budget : JsonNumberDiagnosticBudget D)
    (hbudget : budget.Valid) :
    (∀ (label : Text) (value : AdmittedJsonValue),
      stringifyJsonValue numbers label value.tree = .ok (jsonStringify numbers value.tree) ∧
      ∃ decoded, decodeJsonDocument (jsonStringify numbers value.tree) = .ok decoded ∧
        admitJsonNumbers numbers budget decoded = .ok (.admitted value.tree)) ∧
    ∀ value : LosslessJsonValue,
      decodeJsonDocument (losslessMemberText value.tree) = .ok value.tree ∧
      decodeJsonDocument (transactionInputText value.tree) = .ok value.tree := by
  constructor
  · intro label value
    constructor
    · rw [stringifyJsonValue, snapshotJsonValue_eq]
      simp [Except.map, JsonTree.writeTree_eq, jsonStringify]
    · refine ⟨value.tree.map (losslessLeaf numbers), ?_,
        admitJsonNumbers_lossless lawful hbudget value⟩
      have hwellNamed : (value.tree.map (losslessLeaf numbers)).WellNamed ScalarName LosslessLeaf :=
        value.regular.wellNamed.map fun _ ↦ losslessLeaf_losslessLeaf lawful
      rw [jsonStringify_eq, decodeJsonDocument_text hwellNamed, JsonTree.enumerated_map,
        value.regular.order]
  · intro value
    have hdecode := decodeJsonDocument_text value.regular.wellNamed
    rw [value.regular.order] at hdecode
    rw [losslessMemberText, transactionInputText, JsonTree.writeTree_eq, JsonTree.writeTree_eq]
    exact ⟨hdecode, hdecode⟩

def fullBudget : JsonNumberDiagnosticBudget JsonNumberOccurrence where
  diagnostics := none
  diagnosticBytes := none
  diagnostic occurrence := occurrence
  encodedBytes occurrence := occurrence.literal.length

theorem serialize_roundTrip_exactNumbers :
    (∀ (label : Text) (value : AdmittedJsonValue),
      stringifyJsonValue exactNumbers label value.tree =
        .ok (jsonStringify exactNumbers value.tree) ∧
      ∃ decoded, decodeJsonDocument (jsonStringify exactNumbers value.tree) = .ok decoded ∧
        admitJsonNumbers exactNumbers fullBudget decoded = .ok (.admitted value.tree)) ∧
    ∀ value : LosslessJsonValue,
      decodeJsonDocument (losslessMemberText value.tree) = .ok value.tree ∧
      decodeJsonDocument (transactionInputText value.tree) = .ok value.tree :=
  serialize_roundTrip exactNumbers_lawful fullBudget ⟨rfl, rfl⟩

end RoundTrip

end Bdp.Admission
