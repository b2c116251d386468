import Bdp.Admission.Duplicates

/-!
# The client's scan for repeated member names

The scan of a response text that a parser has accepted: strings are skipped, a stack holds the open
containers, and a string at which an object expects a name is decoded and compared with the names of
that object. It ends at the first repeated name, which the text has exactly when the decoder refuses
it for one.
-/

namespace Bdp.Client

open CodeUnits JsonGrammar Admission
open JsonTree (Repeats)
open List (mem_cons_self cons_append append_assoc nodup_cons)

section Definitions

/-- An open object: the names that it has so far, and whether a string is its next name. -/
structure ObjectScope where
  names : List Text
  expectsName : Bool

/-- How a scan ends; past an open string the loop of the source does not. -/
inductive NameScan where
  | unique
  | duplicate
  | invalidName
  | openString
  deriving DecidableEq

/-- The loop that passes a string after its opening quote. -/
def skipString : Text → Option (Text × Text)
  | [] => none
  | 92 :: unit :: rest => (skipString rest).map fun found ↦ (92 :: unit :: found.1, found.2)
  | unit :: rest =>
    if unit = 34 then some ([], rest)
    else (skipString rest).map fun found ↦ (unit :: found.1, found.2)

theorem skipString_length {text body rest : Text} (h : skipString text = some (body, rest)) :
    rest.length < text.length := by
  fun_induction skipString text generalizing body with
  | case1 => cases h
  | case2 unit tail ih =>
    obtain ⟨found, hfound, heq⟩ := Option.map_eq_some_iff.mp h
    obtain ⟨rfl, rfl⟩ := Prod.mk.inj heq
    have := ih hfound
    simp only [List.length_cons]
    omega
  | case3 tail => cases h; simp
  | case4 unit tail _ _ ih =>
    obtain ⟨found, hfound, heq⟩ := Option.map_eq_some_iff.mp h
    obtain ⟨rfl, rfl⟩ := Prod.mk.inj heq
    have := ih hfound
    simp only [List.length_cons]
    omega

/-- At a string, the innermost object takes its name if it expects one. -/
def takeName (containers : List (Option ObjectScope)) (body : Text) :
    Except NameScan (List (Option ObjectScope)) :=
  match containers with
  | some ⟨names, true⟩ :: below =>
    match unescape body with
    | none => .error .invalidName
    | some name =>
      if name ∈ names then .error .duplicate else .ok (some ⟨name :: names, false⟩ :: below)
  | containers => .ok containers

/-- After a comma the innermost container expects a name, if it is an object. -/
def afterComma (containers : List (Option ObjectScope)) : List (Option ObjectScope) :=
  match containers with
  | some scope :: below => some { scope with expectsName := true } :: below
  | containers => containers

/-- The containers after a unit that starts no string. -/
def passUnit (containers : List (Option ObjectScope)) (unit : ℕ) : List (Option ObjectScope) :=
  if unit = 123 then some ⟨[], true⟩ :: containers
  else if unit = 91 then none :: containers
  else if unit = 125 ∨ unit = 93 then containers.tail
  else if unit = 44 then afterComma containers
  else containers

/-- The scan under the open containers, the innermost first; an array is none. -/
def assertUniqueJsonMemberNames (containers : List (Option ObjectScope)) (text : Text) : NameScan :=
  match text with
  | [] => .unique
  | unit :: rest =>
    if unit = 34 then
      match _h : skipString rest with
      | none => .openString
      | some (body, rest) =>
        match takeName containers body with
        | .error failure => failure
        | .ok containers => assertUniqueJsonMemberNames containers rest
    else assertUniqueJsonMemberNames (passUnit containers unit) rest
  termination_by text.length
  decreasing_by
  · have := skipString_length _h
    simp only [List.length_cons]
    omega
  · simp only [List.length_cons]
    omega

end Definitions

variable {unit : ℕ}

section Units

/-- A unit that the scan passes without looking at its containers. -/
def Passed (unit : ℕ) : Prop :=
  unit ≠ 34 ∧ unit ≠ 123 ∧ unit ≠ 91 ∧ unit ≠ 125 ∧ unit ≠ 93 ∧ unit ≠ 44

variable (containers : List (Option ObjectScope))

theorem scan_unit (h : unit ≠ 34) (rest : Text) :
    assertUniqueJsonMemberNames containers (unit :: rest) =
      assertUniqueJsonMemberNames (passUnit containers unit) rest := by
  rw [assertUniqueJsonMemberNames, if_neg h]

variable {text : Text}

theorem scan_passed (h : ∀ unit ∈ text, Passed unit) (rest : Text) :
    assertUniqueJsonMemberNames containers (text ++ rest) =
      assertUniqueJsonMemberNames containers rest := by
  induction text with
  | nil => rfl
  | cons unit text ih =>
    obtain ⟨hquote, hobject, harray, hbrace, hbracket, hcomma⟩ := h unit mem_cons_self
    have hsame : passUnit containers unit = containers := by
      simp [passUnit, hobject, harray, hbrace, hbracket, hcomma]
    rw [cons_append, scan_unit containers hquote, hsame]
    exact ih fun other hother ↦ h other (List.mem_cons_of_mem _ hother)

theorem passed_whitespace (h : Whitespace text) : ∀ unit ∈ text, Passed unit := by
  intro unit hunit
  have hspace := h unit hunit
  simp only [isWhitespace, Bool.or_eq_true, beq_iff_eq] at hspace
  unfold Passed
  omega

theorem passed_digits (h : Digits text) : ∀ unit ∈ text, Passed unit := by
  intro unit hunit
  have hdigit := h unit hunit
  simp only [Decimal.isDigit, decide_eq_true_eq] at hdigit
  unfold Passed
  omega

theorem passed_number {lexeme : Text} (h : IsNumber lexeme) : ∀ unit ∈ lexeme, Passed unit := by
  obtain ⟨parts, hvalid, rfl⟩ := h
  have hminus : ∀ unit ∈ minusText parts.negative, Passed unit := by
    cases parts.negative <;> simp [minusText, Passed]
  have hfraction : ∀ unit ∈ fractionText parts.fraction, Passed unit := by
    unfold fractionText
    split
    · simp
    · exact List.forall_mem_cons.mpr ⟨by simp [Passed], passed_digits hvalid.fraction⟩
  have hexponent : ∀ unit ∈ exponentText parts.exponent, Passed unit := by
    cases hpart : parts.exponent with
    | none => simp [exponentText]
    | some part =>
      have hpartValid := hvalid.exponent part hpart
      have hletter : Passed part.letter := by
        obtain hletter | hletter := hpartValid.letter <;> simp [hletter, Passed]
      have hsign : ∀ unit ∈ part.sign.toList, Passed unit := by
        intro unit hunit
        obtain rfl | rfl := hpartValid.sign unit (Option.mem_toList.mp hunit) <;> simp [Passed]
      exact List.forall_mem_cons.mpr ⟨hletter,
        List.forall_mem_append.mpr ⟨hsign, passed_digits hpartValid.digits⟩⟩
  exact List.forall_mem_append.mpr ⟨hminus, List.forall_mem_append.mpr
    ⟨passed_digits (digits_integer hvalid.integer),
      List.forall_mem_append.mpr ⟨hfraction, hexponent⟩⟩⟩

theorem scan_structural (hunit : unit ≠ 34) (h : Structural unit text) (rest : Text) :
    assertUniqueJsonMemberNames containers (text ++ rest) =
      assertUniqueJsonMemberNames (passUnit containers unit) rest := by
  obtain ⟨before, after, hbefore, hafter, rfl⟩ := h
  rw [append_assoc, scan_passed containers (passed_whitespace hbefore), cons_append,
    scan_unit containers hunit, scan_passed _ (passed_whitespace hafter)]

end Units

section Strings

variable {text : Text}

theorem skipString_plain (hquote : unit ≠ 34) (hescape : unit ≠ 92) : skipString (unit :: text) =
      (skipString text).map fun found ↦ (unit :: found.1, found.2) := by
  rw [skipString.eq_def]
  split
  · next h => cases h
  · next h =>
    cases h
    exact absurd rfl hescape
  · next h =>
    cases h
    exact if_neg hquote

theorem skipString_complete {source denoted : Text} (h : StringChars source denoted)
    (rest : Text) : skipString (source ++ 34 :: rest) = some (source, rest) := by
  induction h with
  | nil => rw [List.nil_append, skipString] <;> simp
  | unescaped _ quotation escape _ ih =>
    rw [cons_append, skipString_plain quotation escape, ih]
    rfl
  | escaped _ _ ih =>
    rw [cons_append, cons_append, skipString, ih]
    rfl
  | unicode spelled _ ih =>
    obtain ⟨ha, hb, hc, hd⟩ := hexUnit_isSome spelled
    simp only [cons_append]
    rw [skipString, skipString_plain (hexValue_ne ha).1 (hexValue_ne ha).2,
      skipString_plain (hexValue_ne hb).1 (hexValue_ne hb).2,
      skipString_plain (hexValue_ne hc).1 (hexValue_ne hc).2,
      skipString_plain (hexValue_ne hd).1 (hexValue_ne hd).2, ih]
    rfl

/-- Containers whose innermost one expects no name. -/
def Quiet : List (Option ObjectScope) → Prop
  | some scope :: _ => scope.expectsName = false
  | _ => True

theorem scan_string {containers : List (Option ObjectScope)} {denoted : Text}
    (hquiet : Quiet containers) (h : IsString denoted text) (rest : Text) :
    assertUniqueJsonMemberNames containers (text ++ rest) =
      assertUniqueJsonMemberNames containers rest := by
  obtain ⟨source, hchars, rfl⟩ := h
  have hskip := skipString_complete hchars rest
  have htext : 34 :: (source ++ [34]) ++ rest = 34 :: (source ++ 34 :: rest) := by simp
  have htake : takeName containers source = .ok containers := by
    match containers, hquiet with
    | [], _ => rfl
    | none :: _, _ => rfl
    | some ⟨_, false⟩ :: _, _ => rfl
  rw [htext, assertUniqueJsonMemberNames, if_pos rfl]
  split
  · next hnone =>
    rw [hskip] at hnone
    cases hnone
  · next hfound =>
    rw [hskip] at hfound
    cases hfound
    rw [htake]

theorem scan_name (names : List Text) (below : List (Option ObjectScope)) {name : Text}
    (h : IsString name text) (rest : Text) :
    assertUniqueJsonMemberNames (some ⟨names, true⟩ :: below) (text ++ rest) =
      if name ∈ names then .duplicate
      else assertUniqueJsonMemberNames (some ⟨name :: names, false⟩ :: below) rest := by
  obtain ⟨source, hchars, rfl⟩ := h
  have hskip := skipString_complete hchars rest
  have htext : 34 :: (source ++ [34]) ++ rest = 34 :: (source ++ 34 :: rest) := by simp
  rw [htext, assertUniqueJsonMemberNames, if_pos rfl]
  split
  · next hnone =>
    rw [hskip] at hnone
    cases hnone
  · next hfound =>
    rw [hskip] at hfound
    cases hfound
    by_cases htaken : name ∈ names
    · simp only [takeName, hchars.unescape_eq, if_pos htaken]
    · simp only [takeName, hchars.unescape_eq, if_neg htaken]

end Strings

section Documents

/-- The containers of an object after some of its members. -/
def ObjectScan (names : List Text) (below : List (Option ObjectScope)) (text rest : Text) : Prop :=
  ∃ names', assertUniqueJsonMemberNames (some ⟨names, true⟩ :: below) (text ++ rest) =
    assertUniqueJsonMemberNames (some ⟨names', false⟩ :: below) rest

/-- The scan passes the text of a form, or ends at a name that it repeats. -/
def Scanned : Form → Text → Prop
  | .value tree, text => ∀ (containers : List (Option ObjectScope)) (rest : Text),
      Quiet containers →
      (¬ tree.Repeats → assertUniqueJsonMemberNames containers (text ++ rest) =
        assertUniqueJsonMemberNames containers rest) ∧
      (tree.Repeats → assertUniqueJsonMemberNames containers (text ++ rest) = .duplicate)
  | .items items, text => ∀ (below : List (Option ObjectScope)) (rest : Text),
      ((∀ item ∈ items, ¬ item.Repeats) →
        assertUniqueJsonMemberNames (none :: below) (text ++ rest) =
          assertUniqueJsonMemberNames (none :: below) rest) ∧
      ((∃ item ∈ items, item.Repeats) →
        assertUniqueJsonMemberNames (none :: below) (text ++ rest) = .duplicate)
  | .members members, text => ∀ (names : List Text) (below : List (Option ObjectScope))
      (rest : Text), names.Nodup →
      ((names ++ members.map Prod.fst).Nodup → (∀ member ∈ members, ¬ member.2.Repeats) →
        ObjectScan names below text rest) ∧
      (¬ (names ++ members.map Prod.fst).Nodup ∨ (∃ member ∈ members, member.2.Repeats) →
        assertUniqueJsonMemberNames (some ⟨names, true⟩ :: below) (text ++ rest) = .duplicate)

theorem nodup_name {names more : List Text} {name : Text} :
    (names ++ name :: more).Nodup ↔ name ∉ names ∧ (name :: names ++ more).Nodup := by
  have hperm : (names ++ name :: more).Perm (name :: names ++ more) := List.perm_middle
  rw [hperm.nodup_iff]
  refine ⟨fun h ↦ ⟨fun hname ↦ ?_, h⟩, And.right⟩
  exact (nodup_cons.mp h).1 (List.mem_append_left more hname)

variable {text : Text}

theorem scanned_leaf {value : JsonLeaf} (h : ∀ unit ∈ text, Passed unit) :
    Scanned (.value (.leaf value)) text := by
  intro containers rest _
  exact ⟨fun _ ↦ scan_passed containers h rest, fun hrepeats ↦ nomatch hrepeats⟩

theorem scanned {form : Form} (h : Derives form text) : Scanned form text := by
  induction h with
  | null => exact scanned_leaf (by simp [ascii, Passed])
  | true => exact scanned_leaf (by simp [ascii, Passed])
  | false => exact scanned_leaf (by simp [ascii, Passed])
  | number h => exact scanned_leaf (passed_number h)
  | string h =>
    intro containers rest hquiet
    exact ⟨fun _ ↦ scan_string hquiet h rest, fun hrepeats ↦ by cases hrepeats⟩
  | @emptyArray opening closing open_ close =>
    intro containers rest _
    refine ⟨fun _ ↦ ?_, fun hrepeats ↦ ?_⟩
    · rw [append_assoc, scan_structural _ (by decide) open_, scan_structural _ (by decide) close]
      rfl
    · obtain ⟨item, hitem, -⟩ := JsonTree.repeats_array.mp hrepeats
      cases hitem
  | @array items opening text closing open_ _ close ih =>
    intro containers rest _
    obtain ⟨hunique, hduplicate⟩ := ih containers (closing ++ rest)
    rw [append_assoc, append_assoc, scan_structural _ (by decide) open_]
    refine ⟨fun hrepeats ↦ ?_, fun hrepeats ↦ hduplicate (JsonTree.repeats_array.mp hrepeats)⟩
    calc assertUniqueJsonMemberNames (none :: containers) (text ++ (closing ++ rest))
        = assertUniqueJsonMemberNames (none :: containers) (closing ++ rest) :=
          hunique fun item hitem hinside ↦ hrepeats (.item hitem hinside)
      _ = assertUniqueJsonMemberNames containers rest := scan_structural _ (by decide) close rest
  | @emptyObject opening closing open_ close =>
    intro containers rest _
    refine ⟨fun _ ↦ ?_, fun hrepeats ↦ ?_⟩
    · rw [append_assoc, scan_structural _ (by decide) open_, scan_structural _ (by decide) close]
      rfl
    · obtain htwice | ⟨member, hmember, -⟩ := JsonTree.repeats_object.mp hrepeats
      · exact absurd List.nodup_nil htwice
      · cases hmember
  | @object members opening text closing open_ _ close ih =>
    intro containers rest _
    obtain ⟨hunique, hduplicate⟩ := ih [] containers (closing ++ rest) List.nodup_nil
    rw [append_assoc, append_assoc, scan_structural _ (by decide) open_]
    refine ⟨fun hrepeats ↦ ?_, fun hrepeats ↦ hduplicate (JsonTree.repeats_object.mp hrepeats)⟩
    have hdistinct : (members.map Prod.fst).Nodup := by
      by_contra htwice
      exact hrepeats (.here htwice)
    obtain ⟨names, hscan⟩ := hunique hdistinct
      fun member hmember hinside ↦ hrepeats (.member hmember hinside)
    calc assertUniqueJsonMemberNames (some ⟨[], true⟩ :: containers) (text ++ (closing ++ rest))
        = assertUniqueJsonMemberNames (some ⟨names, false⟩ :: containers) (closing ++ rest) := hscan
      _ = assertUniqueJsonMemberNames containers rest := scan_structural _ (by decide) close rest
  | @item item text _ ih =>
    intro below rest
    obtain ⟨hunique, hduplicate⟩ := ih (none :: below) rest trivial
    refine ⟨fun hrepeats ↦ hunique (hrepeats item mem_cons_self), ?_⟩
    rintro ⟨other, hother, hinside⟩
    obtain rfl := List.mem_singleton.mp hother
    exact hduplicate hinside
  | @moreItems item items text separator more _ comma _ ihItem ihItems =>
    intro below rest
    obtain ⟨hunique, hduplicate⟩ := ihItem (none :: below) (separator ++ (more ++ rest)) trivial
    obtain ⟨huniqueMore, hduplicateMore⟩ := ihItems below rest
    have hcomma : assertUniqueJsonMemberNames (none :: below) (separator ++ (more ++ rest)) =
        assertUniqueJsonMemberNames (none :: below) (more ++ rest) :=
      scan_structural _ (by decide) comma (more ++ rest)
    rw [append_assoc, append_assoc]
    refine ⟨fun hrepeats ↦ ?_, fun hrepeats ↦ ?_⟩
    · rw [hunique (hrepeats item mem_cons_self), hcomma]
      exact huniqueMore fun other hother ↦ hrepeats other (List.mem_cons_of_mem _ hother)
    · by_cases hinside : item.Repeats
      · exact hduplicate hinside
      · rw [hunique hinside, hcomma]
        obtain ⟨other, hother, hrepeat⟩ := hrepeats
        obtain rfl | hlater := List.mem_cons.mp hother
        · exact absurd hrepeat hinside
        · exact hduplicateMore ⟨other, hlater, hrepeat⟩
  | @member name spelled value separator text named colon _ ih =>
    intro names below rest hnames
    have hcolon (names : List Text) : assertUniqueJsonMemberNames (some ⟨names, false⟩ :: below)
        (separator ++ (text ++ rest)) =
          assertUniqueJsonMemberNames (some ⟨names, false⟩ :: below) (text ++ rest) :=
      scan_structural _ (by decide) colon (text ++ rest)
    obtain ⟨hunique, hduplicate⟩ := ih (some ⟨name :: names, false⟩ :: below) rest rfl
    unfold ObjectScan
    rw [append_assoc, append_assoc, scan_name names below named]
    refine ⟨fun hdistinct hrepeats ↦ ⟨name :: names, ?_⟩, fun hrepeats ↦ ?_⟩
    · rw [if_neg (nodup_name.mp hdistinct).1, hcolon]
      exact hunique (hrepeats _ mem_cons_self)
    · split
      · rfl
      · next hfresh =>
        rw [hcolon]
        apply hduplicate
        obtain htwice | ⟨other, hother, hinside⟩ := hrepeats
        · refine absurd (nodup_name.mpr ⟨hfresh, ?_⟩) htwice
          rw [List.map_nil, List.append_nil]
          exact nodup_cons.mpr ⟨hfresh, hnames⟩
        · obtain rfl := List.mem_singleton.mp hother
          exact hinside
  | @moreMembers name spelled value members separator text comma more named colon _ next _ ihValue
      ihMembers =>
    intro names below rest hnames
    have hcolon (names : List Text) : assertUniqueJsonMemberNames (some ⟨names, false⟩ :: below)
        (separator ++ (text ++ (comma ++ (more ++ rest)))) =
          assertUniqueJsonMemberNames (some ⟨names, false⟩ :: below)
            (text ++ (comma ++ (more ++ rest))) :=
      scan_structural _ (by decide) colon _
    have hcomma (names : List Text) : assertUniqueJsonMemberNames (some ⟨names, false⟩ :: below)
        (comma ++ (more ++ rest)) =
          assertUniqueJsonMemberNames (some ⟨names, true⟩ :: below) (more ++ rest) :=
      scan_structural _ (by decide) next _
    obtain ⟨hunique, hduplicate⟩ := ihValue (some ⟨name :: names, false⟩ :: below)
      (comma ++ (more ++ rest)) rfl
    have htext : spelled ++ (separator ++ (text ++ (comma ++ more))) ++ rest =
        spelled ++ (separator ++ (text ++ (comma ++ (more ++ rest)))) := by simp
    unfold ObjectScan
    rw [htext, scan_name names below named]
    refine ⟨fun hdistinct hrepeats ↦ ?_, fun hrepeats ↦ ?_⟩
    · obtain ⟨hfresh, hmore⟩ := nodup_name.mp hdistinct
      rw [if_neg hfresh, hcolon, hunique (hrepeats _ mem_cons_self), hcomma]
      exact (ihMembers (name :: names) below rest (nodup_cons.mpr ⟨hfresh, hnames⟩)).1 hmore
        fun other hother ↦ hrepeats other (List.mem_cons_of_mem _ hother)
    · split
      · rfl
      · next hfresh =>
        rw [hcolon]
        by_cases hinside : value.Repeats
        · exact hduplicate hinside
        · rw [hunique hinside, hcomma]
          apply (ihMembers (name :: names) below rest
            (nodup_cons.mpr ⟨hfresh, hnames⟩)).2
          obtain htwice | ⟨other, hother, hrepeat⟩ := hrepeats
          · exact .inl fun hmore ↦ htwice (nodup_name.mpr ⟨hfresh, hmore⟩)
          · obtain rfl | hlater := List.mem_cons.mp hother
            · exact absurd hrepeat hinside
            · exact .inr ⟨other, hlater, hrepeat⟩

theorem scan_document {tree : JsonTree JsonLeaf} (h : IsDocument tree text) :
    (¬ tree.Repeats → assertUniqueJsonMemberNames [] text = .unique) ∧
      (tree.Repeats → assertUniqueJsonMemberNames [] text = .duplicate) := by
  obtain ⟨before, body, after, hbefore, hafter, hderives, rfl⟩ := h
  obtain ⟨hunique, hduplicate⟩ := scanned hderives [] after trivial
  rw [scan_passed [] (passed_whitespace hbefore)]
  refine ⟨fun hrepeats ↦ ?_, hduplicate⟩
  rw [hunique hrepeats]
  have hend := scan_passed [] (passed_whitespace hafter) []
  rw [List.append_nil] at hend
  rw [hend, assertUniqueJsonMemberNames]

/-- On a document without lone surrogates the client's scan throws exactly when the decoder refuses
the text for a repeated name, which is when some object in it has two members of one name. -/
theorem assertUnique_iff_refused {tree : JsonTree JsonLeaf} {text : Text}
    (h : IsDocument tree text) (hscalar : ScalarTree tree) :
    (assertUniqueJsonMemberNames [] text ≠ .unique ↔ ∃ offset, decodeJsonDocument text =
      .error ⟨"duplicate decoded object member name", offset⟩) ∧
    (assertUniqueJsonMemberNames [] text ≠ .unique ↔ tree.Repeats) ∧
    (assertUniqueJsonMemberNames [] text ≠ .unique →
      assertUniqueJsonMemberNames [] text = .duplicate) := by
  obtain ⟨hunique, hduplicate⟩ := scan_document h
  obtain ⟨hdecoded, hrefused⟩ := decodeJsonDocument_document h hscalar
  by_cases hrepeats : tree.Repeats
  · simp only [hduplicate hrepeats, hrepeats]
    obtain ⟨offset, hoffset⟩ := hrefused hrepeats
    exact ⟨⟨fun _ ↦ ⟨offset, hoffset⟩, fun _ ↦ nofun⟩, ⟨fun _ ↦ trivial, fun _ ↦ nofun⟩,
      fun _ ↦ trivial⟩
  · simp only [hunique hrepeats, hrepeats, hdecoded hrepeats]
    simp

/-- An object with the member `a` twice, the second time with its name escaped. -/
def respelled : Text :=
  [123] ++ (34 :: ([97] ++ [34]) ++ ([58] ++ (ascii ['n', 'u', 'l', 'l'] ++ ([44] ++
    (34 :: ([92, 117, 48, 48, 54, 49] ++ [34]) ++ ([58] ++ ascii ['n', 'u', 'l', 'l']))))) ++ [125])

theorem respelled_document :
    IsDocument (.object [([97], .leaf .null), ([97], .leaf .null)]) respelled := by
  have hplain : IsString [97] (34 :: ([97] ++ [34])) :=
    ⟨[97], .unescaped (by decide) (by decide) (by decide) .nil, rfl⟩
  have hescaped : IsString [97] (34 :: ([92, 117, 48, 48, 54, 49] ++ [34])) :=
    ⟨_, .unicode (by decide) .nil, rfl⟩
  have hmembers := Derives.moreMembers hplain (structural_bare 58) .null (structural_bare 44)
    (.member hescaped (structural_bare 58) .null)
  exact ⟨[], respelled, [], whitespace_nil, whitespace_nil,
    .object (structural_bare 123) hmembers (structural_bare 125), rfl⟩

theorem respelled_refused :
    assertUniqueJsonMemberNames [] respelled ≠ .unique ∧ ∃ offset, decodeJsonDocument respelled =
      .error ⟨"duplicate decoded object member name", offset⟩ := by
  have hname : ¬ HasLoneSurrogate [97] := not_hasLoneSurrogate_of_lt (by decide)
  have hscalar : ScalarTree (.object [([97], .leaf .null), ([97], .leaf .null)]) := by
    refine .object ?_ ?_
    · simp [hname]
    · simp only [List.mem_cons, List.not_mem_nil, or_false, or_self, forall_eq]
      exact .leaf trivial
  have hrepeats : Repeats (.object [([97], .leaf JsonLeaf.null), ([97], .leaf .null)]) :=
    .here (by decide)
  obtain ⟨hagrees, hthrows, -⟩ := assertUnique_iff_refused respelled_document hscalar
  exact ⟨hthrows.mpr hrepeats, hagrees.mp (hthrows.mpr hrepeats)⟩

end Documents

end Bdp.Client
