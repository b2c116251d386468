import Bdp.Admission.Serialize
import Bdp.Library.JsonFold
import Bdp.Library.Utf8

/-!
# The diagnostics of numeric admission

The numbers that are not admissible, in the order in which a decoded document enumerates them, and
what the admission reports of them: as many diagnostics from the front as the bounds on their number
and on the bytes of their serialized list allow.
-/

namespace Bdp.Admission

open CodeUnits JsonGrammar

section Definitions

structure ValidationDiagnostic where
  message : Text
  type : Option Text
  schemaLocation : Option Text
  instanceLocation : Option Text
  document : Option Text

def memberText (name : List Char) (value : Option Text) : List Text :=
  value.toList.map fun value ↦ quote (ascii name) ++ 58 :: quote value

/-- `JSON.stringify` of the copied diagnostic. -/
def diagnosticText (diagnostic : ValidationDiagnostic) : Text :=
  123 :: (JsonTree.commas (memberText "type".toList diagnostic.type ++
    memberText "schemaLocation".toList diagnostic.schemaLocation ++
    memberText "instanceLocation".toList diagnostic.instanceLocation ++
    memberText "document".toList diagnostic.document ++
    memberText "message".toList (some diagnostic.message)) ++ [125])

/-- `JSON.stringify` of the reported list. -/
def diagnosticsText (diagnostics : List ValidationDiagnostic) : Text :=
  91 :: (JsonTree.commas (diagnostics.map diagnosticText) ++ [93])

/-- A budget of bounds and a formatter; entries are measured as they are serialized. -/
def numberBudget (diagnostics diagnosticBytes : Option ℕ)
    (diagnostic : JsonNumberOccurrence → ValidationDiagnostic) :
    JsonNumberDiagnosticBudget ValidationDiagnostic where
  diagnostics := diagnostics
  diagnosticBytes := diagnosticBytes
  diagnostic := diagnostic
  encodedBytes diagnostic := utf8Length (diagnosticText diagnostic)

variable (numbers : Numbers)

/-- The occurrence of a number that is not admissible. -/
def violation : List Text × JsonLeaf → Option JsonNumberOccurrence
  | (path, .number lexeme) =>
    match isAdmissibleJsonNumber numbers lexeme with
    | .ok false => some ⟨pointer path, lexeme⟩
    | _ => none
  | _ => none

/-- The violations of a document in the order of its items and members. -/
def violations (root : JsonTree JsonLeaf) : List JsonNumberOccurrence :=
  (root.leaves []).filterMap (violation numbers)

/-- A list of diagnostics within the bounds, by its length and its serialized text. -/
def Fits (budget : JsonNumberDiagnosticBudget ValidationDiagnostic)
    (diagnostics : List ValidationDiagnostic) : Prop :=
  (∀ limit ∈ budget.diagnostics, diagnostics.length ≤ limit) ∧
    ∀ limit ∈ budget.diagnosticBytes, utf8Length (diagnosticsText diagnostics) ≤ limit

end Definitions

section Budget

variable {numbers : Numbers} {budget : JsonNumberDiagnosticBudget ValidationDiagnostic}
variable {limit : Option ℕ}

theorem exhausted_eq_true {size : ℕ} :
    exhausted limit size = true ↔ ∃ bound ∈ limit, bound ≤ size := by
  simp [exhausted, Option.any_eq_true]

theorem exceeded_eq_true {size : ℕ} :
    exceeded limit size = true ↔ ∃ bound ∈ limit, bound < size := by
  simp [exceeded, Option.any_eq_true]

variable (diagnostics : List ValidationDiagnostic)

theorem diagnosticsText_length : utf8Length (diagnosticsText diagnostics) =
      (diagnostics.map fun diagnostic ↦ utf8Length (diagnosticText diagnostic)).sum +
        (diagnostics.length - 1) + 2 := by
  rw [diagnosticsText, utf8Length_brackets (by decide) (by decide), List.map_map, List.length_map]
  rfl

theorem diagnosticsText_concat (diagnostic : ValidationDiagnostic) :
    utf8Length (diagnosticsText (diagnostics ++ [diagnostic])) =
      utf8Length (diagnosticsText diagnostics) + (if diagnostics = [] then 0 else 1) +
        utf8Length (diagnosticText diagnostic) := by
  rw [diagnosticsText_length, diagnosticsText_length]
  cases diagnostics with
  | nil => simp; omega
  | cons first rest =>
    simp only [List.map_append, List.sum_append, List.length_append, List.map_cons, List.map_nil,
      List.sum_cons, List.sum_nil, List.length_cons, List.length_nil, reduceCtorEq, if_false]
    omega

theorem Fits.of_append {diagnostics more : List ValidationDiagnostic}
    (h : Fits budget (diagnostics ++ more)) : Fits budget diagnostics := by
  refine ⟨fun limit hlimit ↦ ?_, fun limit hlimit ↦ ?_⟩
  · have := h.1 limit hlimit
    rw [List.length_append] at this
    omega
  · have := h.2 limit hlimit
    rw [diagnosticsText_length, List.map_append, List.sum_append, List.length_append] at this
    rw [diagnosticsText_length]
    omega

def reported (budget : JsonNumberDiagnosticBudget ValidationDiagnostic)
    (kept : List JsonNumberOccurrence) : Refusals ValidationDiagnostic :=
  ⟨kept, kept.map budget.diagnostic, utf8Length (diagnosticsText (kept.map budget.diagnostic))⟩

def admitViolation (budget : JsonNumberDiagnosticBudget ValidationDiagnostic)
    (occurrence : JsonNumberOccurrence) (refusals : Refusals ValidationDiagnostic) :
    Except (Interrupt ValidationDiagnostic) (Refusals ValidationDiagnostic) :=
  if exhausted budget.diagnostics refusals.diagnostics.length then .error (.stop refusals)
  else
    let diagnostic := budget.diagnostic occurrence
    let nextBytes := refusals.bytes + (if refusals.diagnostics = [] then 0 else 1) +
      budget.encodedBytes diagnostic
    if exceeded budget.diagnosticBytes nextBytes then
      if refusals.diagnostics = [] then
        .error (.failed "diagnostic byte bound cannot retain the first entry")
      else .error (.stop refusals)
    else .ok ⟨refusals.offending ++ [occurrence], refusals.diagnostics ++ [diagnostic], nextBytes⟩

def admitViolations (budget : JsonNumberDiagnosticBudget ValidationDiagnostic) :
    List JsonNumberOccurrence → Refusals ValidationDiagnostic →
      Except (Interrupt ValidationDiagnostic) (Refusals ValidationDiagnostic)
  | [], refusals => .ok refusals
  | occurrence :: rest, refusals =>
    match admitViolation budget occurrence refusals with
    | .error error => .error error
    | .ok refusals => admitViolations budget rest refusals

theorem admitNumber_violation {path : List Text} {lexeme : Text}
    (h : isAdmissibleJsonNumber numbers lexeme = .ok false)
    (refusals : Refusals ValidationDiagnostic) :
    admitNumber numbers budget path lexeme refusals =
      (admitViolation budget ⟨pointer path, lexeme⟩ refusals).map
        fun refusals ↦ (.number (numberOf numbers lexeme), refusals) := by
  simp only [admitNumber, h, admitViolation]
  split_ifs <;> rfl

theorem effects_eq_admitViolations (leaves : List (List Text × JsonLeaf))
    (hleaves : ∀ leaf ∈ leaves, LosslessLeaf leaf.2) (refusals : Refusals ValidationDiagnostic) :
    JsonTree.effects (admissionWalk numbers budget) leaves refusals =
      admitViolations budget (leaves.filterMap (violation numbers)) refusals := by
  induction leaves generalizing refusals with
  | nil => rfl
  | cons leaf leaves ih =>
    have hrest (refusals : Refusals ValidationDiagnostic) :=
      ih (fun other hother ↦ hleaves other (List.mem_cons_of_mem _ hother)) refusals
    obtain ⟨path, value⟩ := leaf
    cases value with
    | null => exact hrest refusals
    | bool value => exact hrest refusals
    | string value => exact hrest refusals
    | number lexeme =>
      obtain ⟨parts, hvalid, rfl⟩ := hleaves _ List.mem_cons_self
      have hdecided : ∃ admissible, isAdmissibleJsonNumber numbers parts.text = .ok admissible := by
        simp only [isAdmissibleJsonNumber, numberParts_text hvalid]
        cases numbers.nearest parts.value <;> exact ⟨_, rfl⟩
      obtain ⟨admissible, hadmissible⟩ := hdecided
      have hleaf : (admissionWalk numbers budget).leaf path (.number parts.text) refusals =
          admitNumber numbers budget path parts.text refusals := rfl
      rw [JsonTree.effects, hleaf]
      cases admissible with
      | true =>
        rw [List.filterMap_cons_none (by simp [violation, hadmissible])]
        simp only [admitNumber, hadmissible]
        exact hrest refusals
      | false =>
        rw [List.filterMap_cons_some (b := ⟨pointer path, parts.text⟩)
          (by simp [violation, hadmissible]), admitNumber_violation hadmissible, admitViolations]
        cases admitViolation budget ⟨pointer path, parts.text⟩ refusals with
        | error error => rfl
        | ok next => exact hrest next

theorem admitViolation_reported (kept : List JsonNumberOccurrence)
    (occurrence : JsonNumberOccurrence)
    (hbudget : budget.encodedBytes = fun diagnostic ↦ utf8Length (diagnosticText diagnostic))
    (hvalid : budget.Valid) :
    (Fits budget ((kept ++ [occurrence]).map budget.diagnostic) →
      admitViolation budget occurrence (reported budget kept) =
        .ok (reported budget (kept ++ [occurrence]))) ∧
    (¬ Fits budget ((kept ++ [occurrence]).map budget.diagnostic) →
      admitViolation budget occurrence (reported budget kept) = .error (if kept = [] then
          .failed "diagnostic byte bound cannot retain the first entry"
        else .stop (reported budget kept))) := by
  have hmap : (kept ++ [occurrence]).map budget.diagnostic =
      kept.map budget.diagnostic ++ [budget.diagnostic occurrence] := by simp
  have hbytes : (reported budget kept).bytes +
      (if (reported budget kept).diagnostics = [] then 0 else 1) +
        budget.encodedBytes (budget.diagnostic occurrence) =
      utf8Length (diagnosticsText ((kept ++ [occurrence]).map budget.diagnostic)) := by
    rw [hmap, diagnosticsText_concat, hbudget]
    rfl
  have hnil : (reported budget kept).diagnostics = [] ↔ kept = [] := List.map_eq_nil_iff
  have hlength : (reported budget kept).diagnostics.length = kept.length := List.length_map _
  unfold admitViolation
  dsimp only
  rw [hbytes, hlength]
  simp only [hnil]
  constructor
  · intro hfits
    have hcount : ¬ exhausted budget.diagnostics kept.length = true := by
      rw [exhausted_eq_true]
      rintro ⟨bound, hbound, hle⟩
      have := hfits.1 bound hbound
      simp at this
      omega
    have hsize : ¬ exceeded budget.diagnosticBytes
        (utf8Length (diagnosticsText ((kept ++ [occurrence]).map budget.diagnostic))) = true := by
      rw [exceeded_eq_true]
      rintro ⟨bound, hbound, hlt⟩
      have := hfits.2 bound hbound
      omega
    rw [if_neg hcount, if_neg hsize]
    simp [reported]
  · intro hfits
    by_cases hcount : exhausted budget.diagnostics kept.length = true
    · have hkept : kept ≠ [] := by
        rintro rfl
        obtain ⟨bound, hbound, hle⟩ := exhausted_eq_true.mp hcount
        have hpositive := hvalid.1
        rw [Option.mem_def.mp hbound] at hpositive
        simp [limitValid] at hpositive
        simp at hle
        omega
      rw [if_pos hcount, if_neg hkept]
    · have hsize : exceeded budget.diagnosticBytes
          (utf8Length (diagnosticsText ((kept ++ [occurrence]).map budget.diagnostic))) = true := by
        by_contra hsize
        apply hfits
        refine ⟨fun limit hlimit ↦ ?_, fun limit hlimit ↦ ?_⟩
        · by_contra hlength
          simp at hlength
          exact hcount (exhausted_eq_true.mpr ⟨limit, hlimit, by omega⟩)
        · by_contra hlength
          exact hsize (exceeded_eq_true.mpr ⟨limit, hlimit, by omega⟩)
      rw [if_neg hcount, if_pos hsize]
      split <;> rfl

section

variable (hbudget : budget.encodedBytes = fun diagnostic ↦ utf8Length (diagnosticText diagnostic))
include hbudget

theorem admitViolations_reported
    (hvalid : budget.Valid) (kept rest : List JsonNumberOccurrence) (hkept : kept ≠ [])
    (hfits : Fits budget (kept.map budget.diagnostic)) :
    ∃ more, more <+: rest ∧ Fits budget ((kept ++ more).map budget.diagnostic) ∧
      (∀ longer, longer <+: rest → Fits budget ((kept ++ longer).map budget.diagnostic) →
        longer.length ≤ more.length) ∧
      admitViolations budget rest (reported budget kept) =
        if more.length < rest.length then .error (.stop (reported budget (kept ++ more)))
        else .ok (reported budget (kept ++ more)) := by
  induction rest generalizing kept with
  | nil =>
    refine ⟨[], List.prefix_refl _, by simpa using hfits, ?_, by simp [admitViolations]⟩
    rintro longer hlonger -
    simp [List.prefix_nil.mp hlonger]
  | cons occurrence rest ih =>
    obtain ⟨haccept, hrefuse⟩ := admitViolation_reported kept occurrence hbudget hvalid
    by_cases hnext : Fits budget ((kept ++ [occurrence]).map budget.diagnostic)
    · obtain ⟨more, hmore, hmoreFits, hlongest, hrun⟩ := ih (kept ++ [occurrence]) (by simp) hnext
      refine ⟨occurrence :: more, (List.prefix_cons_inj occurrence).mpr hmore,
        by simpa using hmoreFits, ?_, ?_⟩
      · intro longer hlonger hlongerFits
        cases longer with
        | nil => simp
        | cons other longer =>
          obtain ⟨rfl, htail⟩ := List.cons_prefix_cons.mp hlonger
          have := hlongest longer htail (by simpa using hlongerFits)
          simpa using this
      · rw [admitViolations, haccept hnext]
        simpa using hrun
    · refine ⟨[], List.nil_prefix, by simpa using hfits, ?_, ?_⟩
      · intro longer hlonger hlongerFits
        cases longer with
        | nil => simp
        | cons other longer =>
          obtain ⟨rfl, -⟩ := List.cons_prefix_cons.mp hlonger
          have hshorter : Fits budget ((kept ++ [other]).map budget.diagnostic ++
              longer.map budget.diagnostic) := by simpa using hlongerFits
          exact absurd hshorter.of_append hnext
      · rw [admitViolations, hrefuse hnext, if_neg hkept]
        simp

theorem admitViolations_start
    (hvalid : budget.Valid) (first : JsonNumberOccurrence) (rest : List JsonNumberOccurrence) :
    (¬ Fits budget [budget.diagnostic first] →
      admitViolations budget (first :: rest) (reported budget []) =
        .error (.failed "diagnostic byte bound cannot retain the first entry")) ∧
    (Fits budget [budget.diagnostic first] →
      ∃ kept, kept ≠ [] ∧ kept <+: first :: rest ∧ Fits budget (kept.map budget.diagnostic) ∧
        (∀ longer, longer <+: first :: rest → Fits budget (longer.map budget.diagnostic) →
          longer.length ≤ kept.length) ∧
        admitViolations budget (first :: rest) (reported budget []) =
          if kept.length < (first :: rest).length then .error (.stop (reported budget kept))
          else .ok (reported budget kept)) := by
  obtain ⟨haccept, hrefuse⟩ := admitViolation_reported [] first hbudget hvalid
  constructor
  · intro hfits
    rw [admitViolations, hrefuse hfits]
    rfl
  · intro hfits
    obtain ⟨more, hmore, hmoreFits, hlongest, hrun⟩ :=
      admitViolations_reported hbudget hvalid [first] rest (by simp) hfits
    refine ⟨first :: more, by simp, (List.prefix_cons_inj first).mpr hmore, hmoreFits, ?_, ?_⟩
    · intro longer hlonger hlongerFits
      cases longer with
      | nil => simp
      | cons other longer =>
        obtain ⟨rfl, htail⟩ := List.cons_prefix_cons.mp hlonger
        have := hlongest longer htail hlongerFits
        simpa using this
    · rw [admitViolations, haccept hfits]
      simpa using hrun

end

end Budget

section Report

variable {numbers : Numbers} {budget : JsonNumberDiagnosticBudget ValidationDiagnostic}
  {root : JsonTree JsonLeaf}

theorem walkTree_violations (hroot : ∀ leaf ∈ root.leaves [], LosslessLeaf leaf.2) :
    (JsonTree.walkTree (admissionWalk numbers budget) root ⟨[], [], 2⟩).map Prod.snd =
      admitViolations budget (violations numbers root) (reported budget []) := by
  rw [JsonTree.walkTree_effects fun _ ↦ rfl, effects_eq_admitViolations _ hroot]
  rfl

theorem admitJsonNumbers_failed (hvalid : budget.Valid)
    (hroot : ∀ leaf ∈ root.leaves [], LosslessLeaf leaf.2) {message : String}
    (h : admitViolations budget (violations numbers root) (reported budget []) =
      .error (.failed message)) :
    admitJsonNumbers numbers budget root = .error message := by
  rw [← walkTree_violations hroot] at h
  simp only [admitJsonNumbers, hvalid.1, hvalid.2, Bool.and_self, if_true]
  cases hwalk : JsonTree.walkTree (admissionWalk numbers budget) root ⟨[], [], 2⟩ with
  | error error =>
    rw [hwalk] at h
    cases h
    rfl
  | ok result =>
    rw [hwalk] at h
    cases h

theorem admitJsonNumbers_refused (hvalid : budget.Valid)
    (hroot : ∀ leaf ∈ root.leaves [], LosslessLeaf leaf.2) {kept : List JsonNumberOccurrence}
    (hkept : kept ≠ []) {truncated : Bool}
    (h : admitViolations budget (violations numbers root) (reported budget []) =
      if truncated = true then .error (.stop (reported budget kept))
      else .ok (reported budget kept)) :
    admitJsonNumbers numbers budget root =
      .ok (.refused kept (kept.map budget.diagnostic) truncated) := by
  rw [← walkTree_violations hroot] at h
  simp only [admitJsonNumbers, hvalid.1, hvalid.2, Bool.and_self, if_true]
  cases hwalk : JsonTree.walkTree (admissionWalk numbers budget) root ⟨[], [], 2⟩ with
  | error error =>
    rw [hwalk] at h
    cases truncated with
    | true =>
      cases h
      rfl
    | false => cases h
  | ok result =>
    rw [hwalk] at h
    cases truncated with
    | true => cases h
    | false =>
      have hresult : result.2 = reported budget kept := Except.ok.inj h
      have hoffending : (reported budget kept).offending.isEmpty = false := by
        cases kept with
        | nil => exact absurd rfl hkept
        | cons first rest => rfl
      simp only [hresult, hoffending, Bool.false_eq_true, if_false]
      rfl

theorem losslessLeaf_of_decoded {text : Text} (h : decodeJsonDocument text = .ok root) :
    ∀ leaf ∈ root.leaves [], LosslessLeaf leaf.2 :=
  (decodeJsonDocument_regular h).wellNamed.leaves []

theorem violations_enumerated_perm (numbers : Numbers) (tree : JsonTree JsonLeaf) :
    (violations numbers tree.enumerated).Perm (violations numbers tree) :=
  (tree.leaves_enumerated_perm []).filterMap _

theorem admitJsonNumbers_longest
    (hbudget : budget.encodedBytes = fun diagnostic ↦ utf8Length (diagnosticText diagnostic))
    (hvalid : budget.Valid) (hroot : ∀ leaf ∈ root.leaves [], LosslessLeaf leaf.2)
    {first : JsonNumberOccurrence} {rest : List JsonNumberOccurrence}
    (hviolations : violations numbers root = first :: rest)
    (hfirst : Fits budget [budget.diagnostic first]) :
    ∃ kept, kept ≠ [] ∧ kept <+: violations numbers root ∧
      Fits budget (kept.map budget.diagnostic) ∧
      (∀ longer, longer <+: violations numbers root → Fits budget (longer.map budget.diagnostic) →
        longer.length ≤ kept.length) ∧
      admitJsonNumbers numbers budget root = .ok (.refused kept (kept.map budget.diagnostic)
        (decide (kept.length < (violations numbers root).length))) := by
  obtain ⟨kept, hkept, hstart, hfits, hlongest, hrun⟩ :=
    (admitViolations_start hbudget hvalid first rest).2 hfirst
  rw [← hviolations] at hstart hlongest hrun
  refine ⟨kept, hkept, hstart, hfits, hlongest, admitJsonNumbers_refused hvalid hroot hkept ?_⟩
  simpa using hrun

end Report

section Order

variable (numbers : Numbers) (diagnostics diagnosticBytes : Option ℕ)
  (diagnostic : JsonNumberOccurrence → ValidationDiagnostic)

/-- A decoded document with violations is reported by the longest start of their list within the
budget, in the order in which the decoded value enumerates them, and is marked as truncated exactly
when the list is longer. A budget that is not valid, or in which the first diagnostic does not fit,
is an error of the caller. -/
theorem admitJsonNumbers_report {text : Text} {root : JsonTree JsonLeaf}
    (hdecode : decodeJsonDocument text = .ok root) (hrefused : violations numbers root ≠ []) :
    let budget := numberBudget diagnostics diagnosticBytes diagnostic
    let entries := violations numbers root
    (∃ tree, IsDocument tree text ∧ root = tree.enumerated ∧
      entries.Perm (violations numbers tree)) ∧
    (¬ budget.Valid → admitJsonNumbers numbers budget root =
      .error "diagnostic bounds must be positive safe integers") ∧
    (budget.Valid → ¬ Fits budget ((entries.take 1).map diagnostic) →
      admitJsonNumbers numbers budget root =
        .error "diagnostic byte bound cannot retain the first entry") ∧
    (budget.Valid → Fits budget ((entries.take 1).map diagnostic) →
      ∃ kept, kept ≠ [] ∧ kept <+: entries ∧ Fits budget (kept.map diagnostic) ∧
        (∀ longer, longer <+: entries → Fits budget (longer.map diagnostic) →
          longer.length ≤ kept.length) ∧
        admitJsonNumbers numbers budget root = .ok (.refused kept (kept.map diagnostic)
          (decide (kept.length < entries.length)))) := by
  intro budget entries
  have hroot := losslessLeaf_of_decoded hdecode
  obtain ⟨first, rest, hentries⟩ := List.exists_cons_of_ne_nil hrefused
  have htake : (entries.take 1).map diagnostic = [budget.diagnostic first] := by
    change ((violations numbers root).take 1).map diagnostic = _
    rw [hentries]
    rfl
  refine ⟨?_, ?_, ?_, ?_⟩
  · obtain ⟨tree, hdocument, -, rfl⟩ := (decodeJsonDocument_eq_ok_iff text root).mp hdecode
    exact ⟨tree, hdocument, rfl, violations_enumerated_perm numbers tree⟩
  · intro hvalid
    simp only [JsonNumberDiagnosticBudget.Valid, ← Bool.and_eq_true] at hvalid
    exact if_neg hvalid
  · intro hvalid hfits
    rw [htake] at hfits
    apply admitJsonNumbers_failed hvalid hroot
    rw [hentries]
    exact (admitViolations_start rfl hvalid first rest).1 hfits
  · intro hvalid hfits
    rw [htake] at hfits
    exact admitJsonNumbers_longest rfl hvalid hroot hentries hfits

def overflowing : Text := ascii ['1', 'e', '4', '0', '0']

theorem overflowing_parts : numberParts overflowing =
    some ⟨false, [49], [], some ⟨101, none, [52, 48, 48]⟩⟩ := by rfl

theorem overflowing_refused : isAdmissibleJsonNumber exactNumbers overflowing = .ok false := by
  have hvalue : NumberParts.value ⟨false, [49], [], some ⟨101, none, [52, 48, 48]⟩⟩ = 10 ^ 400 := by
    norm_num [NumberParts.value, NumberParts.power, ExponentPart.power, Decimal.signed,
      Decimal.value]
    exact fun h ↦ by cases h
  have hnearest : exactNumbers.nearest (10 ^ 400) = none := by
    rw [exactNumbers_lawful.overflow, abs_of_pos (by positivity), overflowBound]
    have hpower : (2 : ℚ) ^ 1024 ≤ 10 ^ 400 := by
      calc (2 : ℚ) ^ 1024 ≤ 2 ^ (3 * 400) := pow_le_pow_right₀ (by norm_num) (by norm_num)
        _ = (2 ^ 3) ^ 400 := pow_mul _ _ _
        _ ≤ 10 ^ 400 := pow_le_pow_left₀ (by norm_num) (by norm_num) 400
    have hpositive : (0 : ℚ) ≤ 2 ^ 970 := by positivity
    exact (sub_le_self _ hpositive).trans hpower
  simp only [isAdmissibleJsonNumber, overflowing_parts, hvalue, hnearest]

/-- An object that is written with the member `b` before the member `1`. -/
def writtenLast : JsonTree JsonLeaf :=
  .object [([98], .leaf (.number overflowing)), ([49], .leaf (.number overflowing))]

theorem writtenLast_regular : writtenLast.WellNamed ScalarName LosslessLeaf := by
  have hnumber : LosslessLeaf (.number overflowing) := by
    obtain ⟨hvalid, htext⟩ := numberParts_sound overflowing_parts
    exact ⟨_, hvalid, htext⟩
  refine .object (by decide) ?_ ?_
  · rintro member hmember
    obtain rfl | rfl : member = _ ∨ member = _ := by simpa using hmember
    all_goals exact not_hasLoneSurrogate_of_lt (by simp)
  · rintro member hmember
    obtain rfl | rfl : member = _ ∨ member = _ := by simpa using hmember
    all_goals exact .leaf hnumber

/-- The decoded object enumerates the member `1` first. -/
def enumeratedLast : JsonTree JsonLeaf :=
  .object [([49], .leaf (.number overflowing)), ([98], .leaf (.number overflowing))]

theorem writtenLast_decoded :
    decodeJsonDocument (writtenLast.text losslessLeafText) = .ok enumeratedLast :=
  decodeJsonDocument_text writtenLast_regular

theorem violations_overflowing (keys : List Text) :
    violations exactNumbers (.object (keys.map fun key ↦ (key, .leaf (.number overflowing)))) =
      keys.map fun key ↦ ⟨pointer [key], overflowing⟩ := by
  have hviolation (path : List Text) :
      violation exactNumbers (path, .number overflowing) = some ⟨pointer path, overflowing⟩ := by
    simp only [violation, overflowing_refused]
  rw [violations, JsonTree.leaves, JsonTree.memberLeaves_eq_flatMap]
  induction keys with
  | nil => rfl
  | cons key keys ih =>
    rw [List.map_cons, List.flatMap_cons, List.filterMap_append, ih, JsonTree.leaves,
      List.filterMap_cons_some (hviolation _)]
    rfl

theorem enumeratedLast_violations : violations exactNumbers enumeratedLast =
    [⟨pointer [[49]], overflowing⟩, ⟨pointer [[98]], overflowing⟩] :=
  violations_overflowing [[49], [98]]

def located (occurrence : JsonNumberOccurrence) : ValidationDiagnostic :=
  ⟨ascii "inadmissible number".toList, none, none, some occurrence.pointer, none⟩

def singleBudget : JsonNumberDiagnosticBudget ValidationDiagnostic :=
  numberBudget (some 1) none located

theorem singleBudget_valid : singleBudget.Valid := ⟨rfl, rfl⟩

theorem singleBudget_fits {diagnostics : List ValidationDiagnostic} (h : diagnostics.length ≤ 1) :
    Fits singleBudget diagnostics :=
  ⟨fun _ hlimit ↦ Option.some.inj hlimit ▸ h, fun _ hlimit ↦ nomatch hlimit⟩

theorem enumeratedLast_report :
    ∃ kept, kept ≠ [] ∧ kept <+: violations exactNumbers enumeratedLast ∧
      admitJsonNumbers exactNumbers singleBudget enumeratedLast =
        .ok (.refused kept (kept.map located)
          (decide (kept.length < (violations exactNumbers enumeratedLast).length))) := by
  have hrefused : violations exactNumbers enumeratedLast ≠ [] := by
    rw [enumeratedLast_violations]
    simp
  have hreport := admitJsonNumbers_report exactNumbers (some 1) none located writtenLast_decoded
    hrefused
  obtain ⟨kept, hkept, hstart, -, -, hanswer⟩ := hreport.2.2.2 singleBudget_valid
    (singleBudget_fits (by simp))
  exact ⟨kept, hkept, hstart, hanswer⟩

/-- The text has its member `b` first, and a budget of one diagnostic reports the member `1`. -/
theorem written_order_not_reported :
    decodeJsonDocument (writtenLast.text losslessLeafText) = .ok enumeratedLast ∧
      violations exactNumbers writtenLast =
        [⟨pointer [[98]], overflowing⟩, ⟨pointer [[49]], overflowing⟩] ∧
      admitJsonNumbers exactNumbers singleBudget enumeratedLast =
        .ok (.refused [⟨pointer [[49]], overflowing⟩]
          [located ⟨pointer [[49]], overflowing⟩] true) ∧
      ¬ [⟨pointer [[49]], overflowing⟩] <+: violations exactNumbers writtenLast := by
  have hwritten : violations exactNumbers writtenLast =
      [⟨pointer [[98]], overflowing⟩, ⟨pointer [[49]], overflowing⟩] :=
    violations_overflowing [[98], [49]]
  obtain ⟨kept, hkept, hstart, hkeptFits, -, hanswer⟩ := admitJsonNumbers_longest rfl
    singleBudget_valid (losslessLeaf_of_decoded writtenLast_decoded) enumeratedLast_violations
    (singleBudget_fits (le_refl 1))
  have hone : kept = [⟨pointer [[49]], overflowing⟩] := by
    have hlength : kept.length = 1 := by
      have hpositive := List.length_pos_iff.mpr hkept
      have hbound := hkeptFits.1 1 rfl
      rw [List.length_map] at hbound
      omega
    rw [enumeratedLast_violations] at hstart
    rw [List.prefix_iff_eq_take.mp hstart, hlength]
    rfl
  refine ⟨writtenLast_decoded, hwritten, ?_, ?_⟩
  · rw [hanswer, hone, enumeratedLast_violations]
    rfl
  · rw [hwritten]
    intro hprefix
    have hsame := (List.cons_prefix_cons.mp hprefix).1
    have hpointer := congrArg JsonNumberOccurrence.pointer hsame
    revert hpointer
    decide

end Order

end Bdp.Admission
