import Bdp.LinkHeader.Splitting

/-!
# Reading back a Link field

A Link field as it is written: targets in angle brackets, parameters with a token or a quoted string
as their value, and optional white space around the commas and semicolons. Reading it gives the same
links, parameter by parameter.
-/

namespace Bdp.LinkHeader

open CodeUnits Scanner

section Syntax

def isTokenUnit (unit : ℕ) : Bool :=
  unit ∈ [33, 35, 36, 37, 38, 39, 42, 43, 45, 46, 94, 95, 96, 124, 126] ||
    decide (48 ≤ unit ∧ unit ≤ 57) || decide (65 ≤ unit ∧ unit ≤ 90) ||
    decide (97 ≤ unit ∧ unit ≤ 122)

structure Token where
  text : Text
  nonempty : text ≠ []
  units : ∀ unit ∈ text, isTokenUnit unit = true

/-- Spaces and tabs. -/
structure OptionalSpace where
  text : Text
  units : ∀ unit ∈ text, unit = 32 ∨ unit = 9

structure Spaced (α : Type) where
  before : OptionalSpace
  item : α
  after : OptionalSpace

inductive ParameterValue
  | token (token : Token)
  | quoted (text : Text)

structure Parameter where
  name : Token
  value : ParameterValue

structure Link where
  target : Text
  bracketed : ∀ unit ∈ target, unit ≠ greaterThan ∧ unit ≠ quotationMark
  parameters : List (Spaced Parameter)

def escapeUnit (unit : ℕ) : Text :=
  if unit = quotationMark ∨ unit = backslash then [backslash, unit] else [unit]

def ParameterValue.write : ParameterValue → Text
  | .token word => word.text
  | .quoted text => quotationMark :: (text.flatMap escapeUnit ++ [quotationMark])

def writeParameter (parameter : Spaced Parameter) : Text :=
  parameter.before.text ++ (parameter.item.name.text ++
    equalsSign :: parameter.item.value.write ++ parameter.after.text)

def writeLink (link : Spaced Link) : Text :=
  link.before.text ++ lessThan :: (link.item.target ++
    greaterThan :: delimited semicolon link.after.text (link.item.parameters.map writeParameter))

def writeLinkHeader : List (Spaced Link) → Text
  | [] => []
  | link :: links => delimited comma (writeLink link) (links.map writeLink)

/-- What a parameter says: its name in small letters, and the text of its value. -/
def Parameter.read (parameter : Parameter) : LinkHeaderParameter :=
  match parameter.value with
  | .token token => ⟨parameter.name.text.map lowerUnit, token.text, false⟩
  | .quoted text => ⟨parameter.name.text.map lowerUnit, text, true⟩

def Link.read (link : Link) : LinkHeaderValue :=
  ⟨link.target, link.parameters.map fun parameter ↦ parameter.item.read⟩

end Syntax

variable (space : OptionalSpace) (token : Token)

section Units

variable {unit : ℕ}

/-- What no unit of a token is. -/
structure Ordinary (unit : ℕ) : Prop where
  quotation : unit ≠ quotationMark
  escape : unit ≠ backslash
  opening : unit ≠ lessThan
  closing : unit ≠ greaterThan
  comma : unit ≠ comma
  semicolon : unit ≠ semicolon
  equals : unit ≠ equalsSign
  space : isSpace unit = false
  ascii : unit < 128

theorem ordinary_of_token (h : isTokenUnit unit = true) : Ordinary unit := by
  simp only [isTokenUnit, Bool.or_eq_true, decide_eq_true_eq, List.mem_cons, List.not_mem_nil,
    or_false] at h
  constructor
  case space =>
    simp only [isSpace, Bool.or_eq_false_iff, decide_eq_false_iff_not, List.mem_cons,
      List.not_mem_nil, or_false]
    omega
  case ascii => omega
  all_goals
    simp only [quotationMark, backslash, lessThan, greaterThan, LinkHeader.comma,
      LinkHeader.semicolon, equalsSign]
    omega

theorem Token.ordinary : ∀ unit ∈ token.text, Ordinary unit :=
  fun unit hunit ↦ ordinary_of_token (token.units unit hunit)

theorem isSpace_of_optional (h : unit = 32 ∨ unit = 9) : isSpace unit = true := by
  obtain rfl | rfl := h <;> rfl

theorem isTokenUnit_lowerUnit (h : isTokenUnit unit = true) :
    isTokenUnit (lowerUnit unit) = true := by
  unfold lowerUnit
  split
  · next hcapital =>
    simp only [isTokenUnit, Bool.or_eq_true, decide_eq_true_eq]
    omega
  · exact h

theorem OptionalSpace.isSpace : ∀ unit ∈ space.text, isSpace unit = true :=
  fun unit hunit ↦ isSpace_of_optional (space.units unit hunit)

end Units

variable (text : Text)

section Passing

variable {delimiter : ℕ} {trackAngles : Bool}

theorem scanUnit_plain {unit : ℕ} (hquote : unit ≠ quotationMark) (hbackslash : unit ≠ backslash)
    (hopen : unit ≠ lessThan) (hclose : unit ≠ greaterThan) (hdelimiter : unit ≠ delimiter) :
    scanUnit delimiter trackAngles .idle unit = some .idle := by
  rw [scanUnit, if_neg fun h ↦ hquote h.1, if_neg fun h ↦ hopen h.2.2, if_neg fun h ↦ hclose h.2.2,
    if_neg fun h ↦ hdelimiter h.2.2, decide_eq_false hbackslash]
  rfl

section

variable (hdelimiter : delimiter = comma ∨ delimiter = semicolon)
include hdelimiter

theorem pass_token (token : Token) :
    pass (scanUnit delimiter trackAngles) .idle token.text = some .idle := by
  refine pass_of_forall fun unit hunit ↦ ?_
  have h := token.ordinary unit hunit
  refine scanUnit_plain h.quotation h.escape h.opening h.closing ?_
  rintro rfl
  exact hdelimiter.elim h.comma h.semicolon

theorem pass_space (space : OptionalSpace) :
    pass (scanUnit delimiter trackAngles) .idle space.text = some .idle := by
  refine pass_of_forall fun unit hunit ↦ ?_
  obtain rfl | rfl := space.units unit hunit
  · obtain rfl | rfl := hdelimiter <;> exact scanUnit_plain (by decide) (by decide) (by decide)
      (by decide) (by decide)
  · obtain rfl | rfl := hdelimiter <;> exact scanUnit_plain (by decide) (by decide) (by decide)
      (by decide) (by decide)

end

theorem scanUnit_quoted {unit : ℕ} {escaped : Bool}
    (h : ¬ (unit = quotationMark ∧ escaped = false)) :
    scanUnit delimiter trackAngles ⟨true, false, escaped⟩ unit =
      some ⟨true, false, unit = backslash && !escaped⟩ := by
  have hquoted : ∀ condition : Prop, ¬ ((true = false) ∧ condition) := fun _ hand ↦ nomatch hand.1
  rw [scanUnit, if_neg h, if_neg fun hopen ↦ hquoted _ hopen.2,
    if_neg fun hclose ↦ hquoted _ hclose.2, if_neg (hquoted _)]

theorem pass_escapeUnit (unit : ℕ) :
    pass (scanUnit delimiter trackAngles) ⟨true, false, false⟩ (escapeUnit unit) =
      some ⟨true, false, false⟩ := by
  unfold escapeUnit
  split
  · rw [pass_cons (scanUnit_quoted (by decide)), pass_cons (scanUnit_quoted (by simp))]
    simp [Scanner.pass]
  · next h =>
    obtain ⟨hquote, hbackslash⟩ := not_or.mp h
    rw [pass_cons (scanUnit_quoted fun hmark ↦ hquote hmark.1), decide_eq_false hbackslash]
    rfl

theorem pass_escaped :
    pass (scanUnit delimiter trackAngles) ⟨true, false, false⟩ (text.flatMap escapeUnit) =
      some ⟨true, false, false⟩ := by
  induction text with
  | nil => rfl
  | cons unit text ih =>
    rw [List.flatMap_cons, pass_append (pass_escapeUnit unit)]
    exact ih

theorem scanUnit_quotationMark (quoted : Bool) :
    scanUnit delimiter trackAngles ⟨quoted, false, false⟩ quotationMark =
      some ⟨!quoted, false, false⟩ := if_pos ⟨rfl, rfl⟩

section

variable (hdelimiter : delimiter = comma ∨ delimiter = semicolon)
include hdelimiter

theorem pass_value (value : ParameterValue) :
    pass (scanUnit delimiter trackAngles) .idle value.write = some .idle := by
  cases value with
  | token token => exact pass_token hdelimiter token
  | quoted text =>
    have hopening : scanUnit delimiter trackAngles .idle quotationMark =
        some ⟨true, false, false⟩ := scanUnit_quotationMark false
    rw [ParameterValue.write, pass_cons hopening, pass_append (pass_escaped text)]
    exact pass_cons (scanUnit_quotationMark true)

theorem pass_parameter (parameter : Spaced Parameter) :
    pass (scanUnit delimiter trackAngles) .idle (writeParameter parameter) = some .idle := by
  have hequals : scanUnit delimiter trackAngles .idle equalsSign = some .idle := by
    obtain rfl | rfl := hdelimiter <;> exact scanUnit_plain (by decide) (by decide) (by decide)
      (by decide) (by decide)
  rw [writeParameter, pass_append (pass_space hdelimiter _), List.append_assoc,
    pass_append (pass_token hdelimiter _), List.cons_append, pass_cons hequals,
    pass_append (pass_value hdelimiter _)]
  exact pass_space hdelimiter _

end

theorem pass_target {target : Text}
    (h : ∀ unit ∈ target, unit ≠ greaterThan ∧ unit ≠ quotationMark) (escaped : Bool) :
    ∃ last, pass (scanUnit comma true) ⟨false, true, escaped⟩ target =
      some ⟨false, true, last⟩ := by
  induction target generalizing escaped with
  | nil => exact ⟨escaped, rfl⟩
  | cons unit target ih =>
    obtain ⟨⟨hclose, hquote⟩, htarget⟩ := List.forall_mem_cons.mp h
    have hscan : ∃ next, scanUnit comma true ⟨false, true, escaped⟩ unit =
        some ⟨false, true, next⟩ := by
      rw [scanUnit, if_neg fun hmark ↦ hquote hmark.1]
      split
      · exact ⟨_, rfl⟩
      · rw [if_neg fun hmark ↦ hclose hmark.2.2, if_neg fun hmark ↦ by cases hmark.2.1]
        exact ⟨_, rfl⟩
    obtain ⟨next, hnext⟩ := hscan
    rw [pass_cons hnext]
    exact ih htarget next

theorem pass_link (link : Spaced Link) :
    pass (scanUnit comma true) .idle (writeLink link) = some .idle := by
  have hopen : scanUnit comma true .idle lessThan = some ⟨false, true, false⟩ := rfl
  obtain ⟨last, htarget⟩ := pass_target link.item.bracketed false
  have hclose : scanUnit comma true ⟨false, true, last⟩ greaterThan = some .idle := by
    cases last <;> rfl
  rw [writeLink, pass_append (pass_space (.inl rfl) _), pass_cons hopen, pass_append htarget,
    pass_cons hclose, delimited, pass_append (pass_space (.inl rfl) _)]
  induction link.item.parameters with
  | nil => rfl
  | cons parameter parameters ih =>
    have hsemicolon : scanUnit comma true .idle semicolon = some .idle := rfl
    rw [List.map_cons, List.flatMap_cons, List.cons_append, pass_cons hsemicolon,
      pass_append (pass_parameter (.inl rfl) parameter)]
    exact ih

end Passing

section Reading

theorem dropWhile_append {p : ℕ → Bool} {left right : Text} (h : ∀ unit ∈ left, p unit = true) :
    (left ++ right).dropWhile p = right.dropWhile p := by
  induction left with
  | nil => rfl
  | cons unit left ih =>
    obtain ⟨hunit, hleft⟩ := List.forall_mem_cons.mp h
    rw [List.cons_append, List.dropWhile_cons_of_pos hunit]
    exact ih hleft

theorem trim_spaced (before after : OptionalSpace) {text : Text} {first last : ℕ}
    (hfirst : text.head? = some first) (hlast : text.getLast? = some last)
    (hfirst' : isSpace first = false) (hlast' : isSpace last = false) :
    trim (before.text ++ text ++ after.text) = text := by
  have hhead : ∀ {middle : Text} {unit : ℕ} (more : Text), middle.head? = some unit →
      isSpace unit = false → (middle ++ more).dropWhile isSpace = middle ++ more := by
    intro middle unit more hunit hspace
    cases middle with
    | nil => cases hunit
    | cons next middle =>
      cases hunit
      exact List.dropWhile_cons_of_neg (by rw [hspace]; exact Bool.false_ne_true)
  have hreverse : text.reverse.head? = some last := by rw [List.head?_reverse, hlast]
  have hkept := hhead [] hreverse hlast'
  rw [trim, List.append_assoc, dropWhile_append before.isSpace, hhead after.text hfirst hfirst',
    List.reverse_append, dropWhile_append fun unit hunit ↦
      after.isSpace unit (List.mem_reverse.mp hunit)]
  rw [List.append_nil] at hkept
  rw [hkept, List.reverse_reverse]

theorem trim_token (before after : OptionalSpace) (token : Token) :
    trim (before.text ++ token.text ++ after.text) = token.text := by
  obtain ⟨first, hfirst⟩ :=
    Option.ne_none_iff_exists'.mp (mt List.head?_eq_none_iff.mp token.nonempty)
  obtain ⟨last, hlast⟩ :=
    Option.ne_none_iff_exists'.mp (mt List.getLast?_eq_none_iff.mp token.nonempty)
  have hspace : ∀ unit ∈ token.text, isSpace unit = false :=
    fun unit hunit ↦ (token.ordinary unit hunit).space
  exact trim_spaced before after hfirst hlast (hspace first (List.mem_of_head? hfirst))
    (hspace last (List.mem_of_getLast? hlast))

theorem quoted_getLast : (ParameterValue.quoted text).write.getLast? = some quotationMark := by
  rw [ParameterValue.write, ← List.cons_append]
  exact List.getLast?_concat

theorem trim_value (before after : OptionalSpace) (value : ParameterValue) :
    trim (before.text ++ value.write ++ after.text) = value.write := by
  cases value with
  | token token => exact trim_token before after token
  | quoted text => exact trim_spaced before after rfl (quoted_getLast text) rfl rfl

theorem decodeQuoted_escaped : decodeQuoted (text.flatMap escapeUnit) = text := by
  induction text with
  | nil => rfl
  | cons unit text ih =>
    rw [List.flatMap_cons, escapeUnit]
    split
    · rw [List.cons_append, List.singleton_append, decodeQuoted, if_pos rfl, ih]
    · next h =>
      have hbackslash := (not_or.mp h).2
      rw [List.singleton_append]
      cases hrest : text.flatMap escapeUnit with
      | nil =>
        rw [hrest] at ih
        rw [← ih]
        rfl
      | cons next rest =>
        rw [hrest] at ih
        rw [decodeQuoted, if_neg hbackslash, ih]

theorem parseParameterValue_write (value : ParameterValue) :
    parseParameterValue value.write = match value with
      | .token token => some (token.text, false)
      | .quoted text => some (text, true) := by
  cases value with
  | token token =>
    have hhead : token.text.head? ≠ some quotationMark := fun h ↦
      (token.ordinary quotationMark (List.mem_of_head? h)).quotation rfl
    have hplain : ¬ (token.text = [] ∨
        ∃ unit ∈ token.text, isSpace unit = true ∨ unit = quotationMark) := by
      rintro (h | ⟨unit, hunit, hspace | hquote⟩)
      · exact token.nonempty h
      · rw [(token.ordinary unit hunit).space] at hspace
        cases hspace
      · exact (token.ordinary unit hunit).quotation hquote
    change parseParameterValue token.text = _
    rw [parseParameterValue, if_pos hhead, if_neg hplain]
  | quoted text =>
    have hhead : ¬ (ParameterValue.quoted text).write.head? ≠ some quotationMark := not_not.mpr rfl
    rw [parseParameterValue, if_neg hhead, if_neg (not_not.mpr (quoted_getLast text))]
    change some (decodeQuoted (text.flatMap escapeUnit ++ [quotationMark]).dropLast, true) = _
    rw [List.dropLast_concat, decodeQuoted_escaped]

variable (casing : CaseMapping)

theorem toLowerCase_token : casing.toLowerCase token.text = token.text.map lowerUnit :=
  casing.toLowerCase_ascii _ fun unit hunit ↦ (token.ordinary unit hunit).ascii

theorem parseParameter_write (parameter : Spaced Parameter) :
    parseParameter casing (writeParameter parameter) = some parameter.item.read := by
  obtain ⟨before, ⟨name, value⟩, after⟩ := parameter
  have hwritten : writeParameter ⟨before, ⟨name, value⟩, after⟩ =
      (before.text ++ name.text) ++ equalsSign :: (value.write ++ after.text) := by
    simp [writeParameter]
  have hbefore : ∀ unit ∈ before.text ++ name.text, ¬ decide (unit = equalsSign) = true := by
    intro unit hunit hequals
    obtain hspace | hname := List.mem_append.mp hunit
    · obtain rfl | rfl := before.units unit hspace <;> exact absurd hequals (by decide)
    · exact (name.ordinary unit hname).equals (of_decide_eq_true hequals)
  have hindex : (writeParameter ⟨before, ⟨name, value⟩, after⟩).findIdx? (· = equalsSign) =
      some (before.text ++ name.text).length := by
    rw [hwritten, List.findIdx?_append, List.findIdx?_eq_none_iff.mpr fun unit hunit ↦
      Bool.eq_false_iff.mpr (hbefore unit hunit), List.findIdx?_cons]
    simp
  have htake : (writeParameter ⟨before, ⟨name, value⟩, after⟩).take
      (before.text ++ name.text).length = before.text ++ name.text := by
    rw [hwritten]
    exact List.take_left
  have hdrop : (writeParameter ⟨before, ⟨name, value⟩, after⟩).drop
      ((before.text ++ name.text).length + 1) = value.write ++ after.text := by
    rw [hwritten, ← List.drop_drop, List.drop_left]
    rfl
  have hname : trim (before.text ++ name.text) = name.text := by
    have htrim := trim_token before ⟨[], nofun⟩ name
    rwa [List.append_nil] at htrim
  have hvalue : trim (value.write ++ after.text) = value.write := trim_value ⟨[], nofun⟩ after value
  have hlower : ¬ (name.text.map lowerUnit = [] ∨
      ∃ unit ∈ name.text.map lowerUnit, isSpace unit = true) := by
    rintro (hnil | ⟨unit, hunit, hspace⟩)
    · exact name.nonempty (List.map_eq_nil_iff.mp hnil)
    · obtain ⟨original, horiginal, rfl⟩ := List.mem_map.mp hunit
      have hlowered := isTokenUnit_lowerUnit (name.units original horiginal)
      rw [(ordinary_of_token hlowered).space] at hspace
      cases hspace
  rw [parseParameter, hindex]
  simp only [htake, hdrop, hname, hvalue, toLowerCase_token, if_neg hlower,
    parseParameterValue_write]
  cases value <;> rfl

theorem parseParameter_space : parseParameter casing space.text = none := by
  have hnone : space.text.findIdx? (· = equalsSign) = none := by
    refine List.findIdx?_eq_none_iff.mpr fun unit hunit ↦ ?_
    obtain rfl | rfl := space.units unit hunit <;> rfl
  rw [parseParameter, hnone]

variable (link : Spaced Link)

theorem matchTarget_write : matchTarget (writeLink link) = some (link.item.target,
      delimited semicolon link.after.text (link.item.parameters.map writeParameter)) := by
  have hspace : ¬ isSpace lessThan = true := by decide
  have htarget : ∀ unit ∈ link.item.target, decide (unit ≠ greaterThan) = true :=
    fun unit hunit ↦ decide_eq_true (link.item.bracketed unit hunit).1
  have hclose : ¬ decide (greaterThan ≠ greaterThan) = true := by decide
  have hrest : ∀ more : Text, (link.item.target ++ greaterThan :: more).dropWhile
      (· ≠ greaterThan) = greaterThan :: more := by
    intro more
    rw [dropWhile_append htarget]
    exact List.dropWhile_cons_of_neg hclose
  have hgroup : ∀ more : Text, (link.item.target ++ greaterThan :: more).takeWhile
      (· ≠ greaterThan) = link.item.target := by
    intro more
    have hempty : (greaterThan :: more).takeWhile (· ≠ greaterThan) = [] :=
      List.takeWhile_cons_of_neg hclose
    rw [List.takeWhile_append_of_pos htarget, hempty, List.append_nil]
  rw [matchTarget, writeLink, dropWhile_append link.before.isSpace,
    List.dropWhile_cons_of_neg hspace]
  simp only [hrest, hgroup, ne_eq, not_true_eq_false, if_false]

theorem parseLink_write : parseLink casing (writeLink link) = some link.item.read := by
  have hparts : splitOutsideQuotedString
      (delimited semicolon link.after.text (link.item.parameters.map writeParameter)) semicolon
        false = link.after.text :: link.item.parameters.map writeParameter := by
    rw [splitOutsideQuotedString_eq (by decide)]
    refine cut_delimited (pass_space (.inr rfl) _) ?_ rfl
    intro piece hpiece
    obtain ⟨parameter, -, rfl⟩ := List.mem_map.mp hpiece
    exact pass_parameter (.inr rfl) parameter
  have hread : (link.item.parameters.map writeParameter).filterMap (parseParameter casing) =
      link.item.parameters.map fun parameter ↦ parameter.item.read := by
    rw [List.filterMap_map]
    have hsome : parseParameter casing ∘ writeParameter =
        fun parameter ↦ some parameter.item.read :=
      funext fun parameter ↦ parseParameter_write casing parameter
    rw [hsome, List.filterMap_eq_map']
  rw [parseLink, matchTarget_write, Option.map_some]
  simp only [hparts, List.filterMap_cons, parseParameter_space, hread]
  rfl

end Reading

/-- Reading a written Link field gives its links: the same targets in order, each with the same
parameters under their names in small letters. -/
theorem parseLinkHeader_writeLinkHeader (casing : CaseMapping) (links : List (Spaced Link)) :
    parseLinkHeader casing (writeLinkHeader links) = links.map fun link ↦ link.item.read := by
  cases links with
  | nil => rfl
  | cons link links =>
    have hpieces : splitOutsideQuotedString (writeLinkHeader (link :: links)) comma true =
        writeLink link :: links.map writeLink := by
      rw [splitOutsideQuotedString_eq (by decide)]
      refine cut_delimited (pass_link link) ?_ rfl
      intro piece hpiece
      obtain ⟨other, -, rfl⟩ := List.mem_map.mp hpiece
      exact pass_link other
    have hsome : parseLink casing ∘ writeLink = fun link ↦ some link.item.read :=
      funext fun link ↦ parseLink_write casing link
    rw [parseLinkHeader, hpieces, ← List.map_cons, List.filterMap_map, hsome,
      List.filterMap_eq_map']

end Bdp.LinkHeader
