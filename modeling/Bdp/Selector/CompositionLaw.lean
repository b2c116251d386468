import Bdp.Selector.TokenLaw
import Bdp.Selector.Composition

/-!
# A composed selector is an intersection

The incidence is one parenthesized operand whose meaning is that the Link joins the operands. The
composition intersects exactly for the texts that are cut into tokens by themselves and close only
their own parentheses.
-/

namespace Bdp.Selector

variable {number : List Char → Option ℚ}
variable {letter : Char}

section Quoting

theorem scanUnicodeEscape_control {unit : ℕ} (hunit : unit < 32) (rest : List Char) :
    scanUnicodeEscape ('u' :: '0' :: '0' :: hexLetter (unit / 16) :: hexLetter (unit % 16) ::
      rest) = some (unit, rest) := by
  interval_cases unit <;> rfl

theorem scanEscape_control (hcontrol : letter.toNat < 32) (rest : List Char) :
    scanEscape '"' ('u' :: '0' :: '0' :: hexLetter (letter.toNat / 16) ::
      hexLetter (letter.toNat % 16) :: rest) = some (letter, rest) := by
  have hsimple : simpleEscape 'u' = none := by decide
  have hunit : letterOfUnit letter.toNat rest = some (letter, rest) := by
    unfold letterOfUnit
    rw [if_neg (by omega), if_neg (by omega), Char.ofNat_toNat]
  rw [scanEscape, hsimple]
  simp [scanUnicodeEscape_control hcontrol, hunit]

/-- A letter that was written by `JSON.stringify` is read back. -/
theorem scanQuotedString_stringifyLetter (letter : Char) (rest : List Char) (fuel : ℕ) :
    scanQuotedString '"' (fuel + 1) (stringifyLetter letter ++ rest) =
      (scanQuotedString '"' fuel rest).map fun scanned ↦ (letter :: scanned.1, scanned.2) := by
  have hescape : ∀ (escape : List Char),
      scanEscape '"' (escape ++ rest) = some (letter, rest) →
      scanQuotedString '"' (fuel + 1) ('\\' :: (escape ++ rest)) =
        (scanQuotedString '"' fuel rest).map fun scanned ↦ (letter :: scanned.1, scanned.2) := by
    intro escape hscan
    rw [scanQuotedString, if_neg (by decide), if_neg (by decide), if_neg (by decide), hscan]
    cases hrest : scanQuotedString '"' fuel rest <;> simp [hrest]
  unfold stringifyLetter
  split_ifs with hquote hbackslash hb hf hn hr ht hcontrol
  case pos => exact hescape ['"'] (by subst hquote; rfl)
  case pos => exact hescape ['\\'] (by subst hbackslash; rfl)
  case pos => exact hescape ['b'] (by subst hb; rfl)
  case pos => exact hescape ['f'] (by subst hf; rfl)
  case pos => exact hescape ['n'] (by subst hn; rfl)
  case pos => exact hescape ['r'] (by subst hr; rfl)
  case pos => exact hescape ['t'] (by subst ht; rfl)
  case pos => exact hescape _ (scanEscape_control hcontrol rest)
  case neg =>
    rw [List.singleton_append, scanQuotedString, if_neg hquote, if_neg (by simpa using hcontrol),
      if_pos hbackslash]
    cases scanQuotedString '"' fuel rest <;> rfl

theorem scanQuotedString_stringify (letters : List Char) (rest : List Char) :
    scanQuotedString '"' (letters.length + 1)
      (letters.flatMap stringifyLetter ++ '"' :: rest) = some (letters, rest) := by
  induction letters with
  | nil => rfl
  | cons letter letters ih =>
    rw [List.flatMap_cons, List.append_assoc, List.length_cons, scanQuotedString_stringifyLetter,
      ih]
    rfl

theorem cuts_stringify (uri : String) :
    Cuts number (stringify uri) [.literal (.string uri.toList)] := by
  obtain ⟨word, -, hword, hread⟩ := scanQuotedString_word
    (scanQuotedString_stringify uri.toList [])
  rw [List.append_nil] at hword
  have hstring : ∀ fuel, (stringify uri).length ≤ fuel →
      scanToken number fuel (stringify uri ++ []) = some (.literal (.string uri.toList), []) := by
    intro fuel hfuel
    have hlength : word.length ≤ fuel := by
      rw [stringify, hword, List.length_cons] at hfuel
      omega
    have hscan := hread [] fuel hlength
    rw [List.append_nil] at hscan ⊢
    rw [stringify, hword, scanToken, if_pos (by rfl), hscan]
    rfl
  simpa using cuts_nil.cons (by simp [stringify]) (by rfl) hstring

end Quoting

section Incidence

/-- The node of `(@.field == "uri" || @.field.uri == "uri")`. -/
def identityNode (field : Field) (uri : String) : BooleanNode :=
  .group (.or
    (.comparison .equal (.path [.name field.name.toList]) (.literal (.string uri.toList)))
    (.comparison .equal (.path [.name field.name.toList, .name "uri".toList])
      (.literal (.string uri.toList))))

def identityTokens (field : Field) (uri : String) : List Token :=
  [.openParen, .path [.name field.name.toList], .operator (.compare .equal),
    .literal (.string uri.toList), .operator .or,
    .path [.name field.name.toList, .name "uri".toList], .operator (.compare .equal),
    .literal (.string uri.toList), .closeParen]

variable (field : Field)
variable (uri : String)

theorem identityTokens_pushes : Pushes (identityTokens field uri) (identityNode field uri) := by
  intro values operators saw
  simp [identityTokens, identityNode, step, stepOperand, stepOperator, reduceForIncoming,
    closeGroup, reduceOperator, requireBoolean, requireValue, makeComparison, precedence]

variable {text : List Char} {tokens : List Token}
variable {operator : Operator}

section

variable (hcuts : Cuts number text tokens)
include hcuts

theorem cuts_openParen : Cuts number ('(' :: text) (.openParen :: tokens) :=
  hcuts.cons (List.cons_ne_nil '(' []) rfl fun _ _ ↦ rfl

theorem cuts_closeParen : Cuts number (')' :: text) (.closeParen :: tokens) :=
  hcuts.cons (List.cons_ne_nil ')' []) rfl fun _ _ ↦ rfl

theorem cuts_operator {first second : Char}
    (hfirst : isWhitespace first = false) (hscan : ∀ fuel rest,
      scanToken number fuel (first :: second :: rest) = some (.operator operator, rest)) :
    Cuts number (' ' :: first :: second :: ' ' :: text) (.operator operator :: tokens) :=
  ((hcuts.blank rfl).cons (List.cons_ne_nil first [second]) (by simp [hfirst])
    fun _ _ ↦ hscan _ _).blank rfl

end

theorem cuts_path {fuel : ℕ} {path : List Char} {segments : List Segment}
    (hpath : scanPath fuel path = some (segments, []))
    (hcuts : Cuts number text tokens) (hahead : ahead text = (none, none)) :
    Cuts number ('@' :: (path ++ text)) (.path segments :: tokens) := by
  have htext : tokenize number (fuel + 1) ('@' :: path) = some [.path segments] := by
    cases fuel with
    | zero => simp [scanPath] at hpath
    | succ fuel =>
      have hscan : scanToken number (fuel + 1) ('@' :: path) = some (.path segments, []) := by
        rw [scanToken, if_neg (by decide), if_pos rfl, hpath]
        rfl
      rw [tokenize, if_neg (by decide), hscan]
      rfl
  exact cuts_append_of_tokenize htext hcuts hahead

theorem scanPath_field :
    scanPath 10 ('.' :: field.name.toList) = some ([.name field.name.toList], []) := by
  cases field <;> decide +kernel

theorem scanPath_field_uri : scanPath 10 ('.' :: (field.name.toList ++ ".uri".toList)) =
      some ([.name field.name.toList, .name "uri".toList], []) := by
  cases field <;> decide +kernel

theorem identity_eq : identity field uri = '(' :: '@' :: ('.' :: field.name.toList ++
      ' ' :: '=' :: '=' :: ' ' :: (stringify uri ++ ' ' :: '|' :: '|' :: ' ' :: '@' ::
        ('.' :: (field.name.toList ++ ".uri".toList) ++
          ' ' :: '=' :: '=' :: ' ' :: (stringify uri ++ [')'])))) := by
  have htext : ∀ name quoted : List Char,
      "(@.".toList ++ name ++ " == ".toList ++ quoted ++ " || @.".toList ++ name ++
        ".uri == ".toList ++ quoted ++ ")".toList =
      '(' :: '@' :: ('.' :: name ++ ' ' :: '=' :: '=' :: ' ' :: (quoted ++
        ' ' :: '|' :: '|' :: ' ' :: '@' :: ('.' :: (name ++ ".uri".toList) ++
          ' ' :: '=' :: '=' :: ' ' :: (quoted ++ [')'])))) := by
    intro name quoted
    simp only [List.append_assoc]
    simp
  exact htext field.name.toList (stringify uri)

theorem cuts_identity : Cuts number (identity field uri) (identityTokens field uri) := by
  have hequal : ∀ text, ahead (' ' :: '=' :: text) = (none, none) :=
    ahead_blank (by decide) (by decide)
  have hor : ∀ text, ahead (' ' :: '|' :: text) = (none, none) :=
    ahead_blank (by decide) (by decide)
  have hclose : Cuts number [')'] [.closeParen] := cuts_closeParen cuts_nil
  have hlast := (cuts_stringify uri).append hclose (by decide)
  have hcomparison : ∀ {text tokens}, Cuts number text tokens →
      Cuts number (' ' :: '=' :: '=' :: ' ' :: text) (.operator (.compare .equal) :: tokens) :=
    fun hcuts ↦ cuts_operator hcuts rfl fun _ _ ↦ rfl
  have hdisjunction : ∀ {text tokens}, Cuts number text tokens →
      Cuts number (' ' :: '|' :: '|' :: ' ' :: text) (.operator .or :: tokens) :=
    fun hcuts ↦ cuts_operator hcuts rfl fun _ _ ↦ rfl
  have hsecond := (cuts_stringify uri).append
    (hdisjunction (cuts_path (scanPath_field_uri field) (hcomparison hlast) (hequal _))) (hor _)
  have hall := cuts_openParen
    (cuts_path (scanPath_field field) (hcomparison hsecond) (hequal _))
  rw [identity_eq]
  exact hall

/-- An endpoint is compared as a string and by its `uri` member. -/
theorem evaluate_identityNode (link : JsonValue ℚ) :
    evaluate link (identityNode field uri) = field.touches uri link := by
  have hroot : field.name ∈ rootSelectorMembers := by
    cases field <;> decide
  simp only [identityNode, evaluate, compare, resolveValue, resolvePath, hroot, if_true,
    resolveSegments, String.ofList_toList, Literal.toJson, Field.touches]
  cases hmember : link.member field.name with
  | none => simp [valuesEqual]
  | some value =>
    cases value with
    | object members =>
      cases hlookup : members.lookup "uri" with
      | none => simp [valuesEqual, primitiveJsonEqual, endpointUri, JsonValue.member, hlookup]
      | some inner =>
        cases inner <;>
          simp [valuesEqual, primitiveJsonEqual, endpointUri, JsonValue.member, hlookup,
            JsonValue.asString]
    | _ => simp [valuesEqual, primitiveJsonEqual, endpointUri, JsonValue.member]

variable (number) in
def Means (text : List Char) (meaning : JsonValue ℚ → Bool) : Prop :=
  ∃ tokens node, Cuts number text tokens ∧ Pushes tokens node ∧
    ∀ link, evaluate link node = meaning link

theorem means_identity : Means number (identity field uri) (field.touches uri) :=
  ⟨_, _, cuts_identity field uri, identityTokens_pushes field uri, evaluate_identityNode field uri⟩

variable {right left : JsonValue ℚ → Bool} {second first : List Char}

section

variable (hfirst : Means number first left)
include hfirst

section

variable (hsecond : Means number second right)
include hsecond

theorem Means.joined {join : BooleanNode → BooleanNode → BooleanNode}
    {combine : Bool → Bool → Bool} (hblank : isWhitespace letter = false)
    (hsegment : startsSegment letter = false) (hscan : ∀ fuel rest,
      scanToken number fuel (letter :: letter :: rest) = some (.operator operator, rest))
    (hpushes : ∀ {tokens others node other}, Pushes tokens node → Pushes others other →
      Pushes (.openParen :: (tokens ++ .operator operator :: (others ++ [.closeParen])))
        (.group (join node other))) (hevaluate : ∀ link node other,
      evaluate link (join node other) = combine (evaluate link node) (evaluate link other)) :
    Means number ('(' :: (first ++ ' ' :: letter :: letter :: ' ' :: (second ++ [')'])))
      fun link ↦ combine (left link) (right link) := by
  obtain ⟨tokens, node, hcuts, hpush, hnode⟩ := hfirst
  obtain ⟨others, other, hcuts', hpush', hother⟩ := hsecond
  have hclose : Cuts number [')'] [.closeParen] := cuts_closeParen cuts_nil
  have hinner := cuts_operator (hcuts'.append hclose (by decide)) hblank hscan
  have hall := cuts_openParen (hcuts.append hinner (ahead_blank hblank hsegment _))
  exact ⟨_, _, hall, hpushes hpush hpush', fun link ↦ by rw [evaluate, hevaluate, hnode, hother]⟩

theorem Means.and : Means number ("(".toList ++ first ++ " && ".toList ++ second ++ ")".toList)
      fun link ↦ left link && right link := by
  simpa using hfirst.joined hsecond (by decide) (by decide) (fun _ _ ↦ rfl) Pushes.and
    fun _ _ _ ↦ rfl

theorem Means.or : Means number ("(".toList ++ first ++ " || ".toList ++ second ++ ")".toList)
      fun link ↦ left link || right link := by
  simpa using hfirst.joined hsecond (by decide) (by decide) (fun _ _ ↦ rfl) Pushes.or
    fun _ _ _ ↦ rfl

end

end

theorem Means.congr {first second : JsonValue ℚ → Bool}
    (hmeans : Means number text first) (hequal : ∀ link, first link = second link) :
    Means number text second := by
  obtain ⟨tokens, node, hcuts, hpushes, hnode⟩ := hmeans
  exact ⟨tokens, node, hcuts, hpushes, fun link ↦ by rw [hnode, hequal]⟩

variable (incidence : Incidence)

theorem means_outText : Means number incidence.outText incidence.leaves := by
  unfold Incidence.outText
  cases hb : incidence.b with
  | none =>
    exact (means_identity .source incidence.a).congr fun link ↦ by simp [Incidence.leaves, hb]
  | some b =>
    exact ((means_identity .source incidence.a).and (means_identity .target b)).congr
      fun link ↦ by simp [Incidence.leaves, hb]

theorem means_inboundText : Means number incidence.inboundText incidence.enters := by
  unfold Incidence.inboundText
  cases hb : incidence.b with
  | none =>
    exact (means_identity .target incidence.a).congr fun link ↦ by simp [Incidence.enters, hb]
  | some b =>
    exact ((means_identity .source b).and (means_identity .target incidence.a)).congr
      fun link ↦ by simp [Incidence.enters, hb, Bool.and_comm]

theorem means_incidence : Means number incidence.text incidence.joins := by
  unfold Incidence.text Incidence.joins
  cases incidence.resolvedDirection with
  | out => exact means_outText incidence
  | inbound => exact means_inboundText incidence
  | both => exact (means_outText incidence).or (means_inboundText incidence)

end Incidence

section Composed

variable {text : List Char}
variable {tokens : List Token}

theorem cuts_selector (hcuts : Cuts number text tokens) :
    Cuts number ('$' :: '[' :: '?' :: text) (.dollar :: .openBracket :: .question :: tokens) :=
  have hquestion : Cuts number ('?' :: text) (.question :: tokens) :=
    hcuts.cons (List.cons_ne_nil '?' []) rfl fun _ _ ↦ rfl
  have hbracket : Cuts number ('[' :: '?' :: text) (.openBracket :: .question :: tokens) :=
    hquestion.cons (List.cons_ne_nil '[' []) rfl fun _ _ ↦ rfl
  hbracket.cons (List.cons_ne_nil '$' []) rfl fun _ _ ↦ rfl

theorem cuts_bracket : Cuts number [']'] [.closeBracket] :=
  cuts_nil.cons (List.cons_ne_nil ']' []) rfl fun _ _ ↦ rfl

theorem parseSelector_of_cuts
    (hcuts : Cuts number text tokens) : parseSelector number text = parseTokens tokens := by
  rw [parseSelector, hcuts _ (Nat.lt_succ_self _)]
  rfl

theorem composeSelector_some {raw composed : List Char} {incidence : Incidence}
    (hcompose : composeSelector (some raw) incidence = some composed) :
    raw = '$' :: '[' :: '?' :: (sliceInner raw ++ [']']) ∧
      composed = '$' :: '[' :: '?' :: '(' :: (sliceInner raw ++
        ')' :: ' ' :: '&' :: '&' :: ' ' :: (incidence.text ++ [']'])) := by
  rw [composeSelector] at hcompose
  split_ifs at hcompose with hrefuse
  obtain ⟨⟨rest, hrest⟩, hsuffix⟩ := by simpa only [not_or, not_not] using hrefuse
  have hraw : raw = '$' :: '[' :: '?' :: rest := hrest.symm
  have hinner : rest = sliceInner raw ++ [']'] := by
    obtain ⟨front, hfront⟩ := hsuffix
    have hlast : raw.getLast? = some ']' := by
      rw [← hfront, List.getLast?_append]
      rfl
    have hne : rest ≠ [] := by
      rintro rfl
      rw [hraw] at hlast
      exact absurd hlast (by decide)
    have hdrop : sliceInner raw = rest.dropLast := by
      rw [sliceInner, hraw]
      rfl
    have hrestLast : rest.getLast hne = ']' := by
      have hlasts : ('$' :: '[' :: '?' :: rest).getLast? = some ']' := by rw [← hraw, hlast]
      have happend : ('$' :: '[' :: '?' :: rest).getLast? = rest.getLast? := by
        rw [show '$' :: '[' :: '?' :: rest = ['$', '[', '?'] ++ rest from rfl,
          List.getLast?_append, List.getLast?_eq_some_getLast hne, Option.some_or]
      rw [happend, List.getLast?_eq_some_getLast hne] at hlasts
      exact Option.some.inj hlasts
    rw [hdrop, ← hrestLast, List.dropLast_append_getLast]
  refine ⟨by rw [← hinner, ← hraw], ?_⟩
  have htext : ∀ inner text : List Char, "$[?(".toList ++ inner ++ ") && ".toList ++ text ++
      "]".toList = '$' :: '[' :: '?' :: '(' :: (inner ++ ')' :: ' ' :: '&' :: '&' :: ' ' ::
        (text ++ [']'])) := by
    intro inner text
    simp only [List.append_assoc]
    simp
  rw [← Option.some.inj hcompose, htext]

variable {inner : List Char}

theorem parse_of_standsAlone {meaning : JsonValue ℚ → Bool}
    (halone : standsAlone number inner = true) (hmeans : Means number text meaning) :
    ∃ other, (∀ link, evaluate link other = meaning link) ∧
      parseSelector number ('$' :: '[' :: '?' :: '(' :: (inner ++
        ')' :: ' ' :: '&' :: '&' :: ' ' :: (text ++ [']']))) =
      (parseSelector number ('$' :: '[' :: '?' :: (inner ++ [']']))).map
        fun user ↦ .and (.group user) other := by
  obtain ⟨unit, other, hunit, hpushes, hother⟩ := hmeans
  obtain ⟨tokens, htokens, hown⟩ : ∃ tokens,
      tokenize number (inner.length + 1) inner = some tokens ∧ closesOwn 0 tokens = true := by
    rw [standsAlone] at halone
    cases htokens : tokenize number (inner.length + 1) inner with
    | none => simp [htokens] at halone
    | some tokens => exact ⟨tokens, rfl, by simpa [htokens] using halone⟩
  have hinner : Cuts number inner tokens := cuts_of_tokenize htokens
  have hbracket : ahead [']'] = (none, none) := ahead_closeBracket
  have hparen : ∀ rest, ahead (')' :: rest) = (none, none) :=
    ahead_cons (by decide) (by decide) (by decide)
  have hconjunct : Cuts number (' ' :: '&' :: '&' :: ' ' :: (text ++ [']']))
      (.operator .and :: (unit ++ [.closeBracket])) :=
    cuts_operator (hunit.append cuts_bracket hbracket) rfl fun _ _ ↦ rfl
  have htail := cuts_closeParen hconjunct
  have hcomposed := cuts_selector (cuts_openParen (hinner.append htail (hparen _)))
  have hraw := cuts_selector (hinner.append cuts_bracket hbracket)
  refine ⟨other, hother, ?_⟩
  rw [parseSelector_of_cuts hcomposed, parseSelector_of_cuts hraw]
  have hparse := parseExpression_conjunct hown hpushes
  simpa [parseTokens] using hparse

theorem tokenize_selector (fuel : ℕ) (text : List Char) :
    tokenize number (fuel + 3) ('$' :: '[' :: '?' :: text) =
      (tokenize number fuel text).map (.dollar :: .openBracket :: .question :: ·) := by
  have hstep : ∀ (fuel : ℕ) (letter : Char) (token : Token) (rest : List Char),
      isWhitespace letter = false → scanToken number fuel (letter :: rest) = some (token, rest) →
      tokenize number (fuel + 1) (letter :: rest) =
        (tokenize number fuel rest).map (token :: ·) := by
    intro fuel letter token rest hblank hscan
    rw [tokenize, if_neg (by simp [hblank]), hscan]
    cases htokens : tokenize number fuel rest <;> simp [htokens]
  rw [hstep (fuel + 2) '$' .dollar _ (by decide) rfl,
    hstep (fuel + 1) '[' .openBracket _ (by decide) rfl,
    hstep fuel '?' .question _ (by decide) rfl]
  simp [Function.comp_def]

theorem standsAlone_of_parse {user : BooleanNode}
    (hparse : parseSelector number ('$' :: '[' :: '?' :: (inner ++ [']'])) = some user) :
    standsAlone number inner = true := by
  obtain ⟨tokens, htokens, hexpression⟩ := Option.bind_eq_some_iff.mp hparse
  unfold parseTokens at hexpression
  split at hexpression
  · rename_i tail
    obtain ⟨front, rfl⟩ := parseExpression_some hexpression
    have hcuts : Cuts number ('$' :: '[' :: '?' :: inner)
        (.dollar :: .openBracket :: .question :: front) := cuts_of_closeBracket htokens
    have hinner : tokenize number (inner.length + 1) inner = some front := by
      have htext := hcuts (inner.length + 1 + 3) (by simp)
      rw [tokenize_selector] at htext
      obtain ⟨tokens, htokens, hequal⟩ := Option.map_eq_some_iff.mp htext
      rw [htokens]
      simpa using hequal
    rw [parseExpression_closeBracket] at hexpression
    obtain ⟨state, hrun, -⟩ := Option.bind_eq_some_iff.mp hexpression
    rw [standsAlone, hinner]
    exact closesOwn_of_run hrun
  · cases hexpression

/-- The composed selector is the intersection exactly for the texts that stand alone. -/
theorem intersects_iff (number : List Char → Option ℚ) {raw composed : List Char}
    {incidence : Incidence} {node : BooleanNode}
    (hcompose : composeSelector (some raw) incidence = some composed)
    (hparse : parseSelector number composed = some node) :
    Intersects number raw incidence ↔ standsAlone number (sliceInner raw) = true := by
  obtain ⟨hraw, hcomposed⟩ := composeSelector_some hcompose
  constructor
  · intro hintersects
    obtain ⟨user, huser, -⟩ := hintersects composed node hcompose hparse
    rw [hraw] at huser
    exact standsAlone_of_parse huser
  · intro halone composed' node' hcompose' hparse'
    obtain rfl : composed = composed' := by
      rw [hcompose] at hcompose'
      exact Option.some.inj hcompose'
    obtain ⟨other, hother, hequal⟩ := parse_of_standsAlone halone (means_incidence incidence)
    rw [← hcomposed, ← hraw, hparse'] at hequal
    obtain ⟨user, huser, rfl⟩ := Option.map_eq_some_iff.mp hequal.symm
    refine ⟨user, huser, fun links ↦ ?_⟩
    rw [select, select, List.filter_filter]
    congr 1
    funext link
    simp [evaluate, hother, Bool.and_comm]

def noNumber : List Char → Option ℚ := fun _ ↦ none

def operand : Incidence := ⟨"https://h/s/beads/a", none, none⟩

theorem exists_accepted (raw : List Char) (haccepted :
      ((composeSelector (some raw) operand).bind (parseSelector noNumber)).isSome = true) :
    ∃ composed node, composeSelector (some raw) operand = some composed ∧
      parseSelector noNumber composed = some node := by
  obtain ⟨node, hnode⟩ := Option.isSome_iff_exists.mp haccepted
  obtain ⟨composed, hcompose, hparse⟩ := Option.bind_eq_some_iff.mp hnode
  exact ⟨composed, node, hcompose, hparse⟩

theorem intersects_iff_served :
    (∃ composed node,
      composeSelector (some "$[?@.type == 'a)]' || !@.id]".toList) operand = some composed ∧
      parseSelector noNumber composed = some node) ∧
    Intersects noNumber "$[?@.type == 'a)]' || !@.id]".toList operand := by
  obtain ⟨composed, node, hcompose, hparse⟩ :=
    exists_accepted "$[?@.type == 'a)]' || !@.id]".toList (by decide +kernel)
  exact ⟨⟨composed, node, hcompose, hparse⟩,
    (intersects_iff noNumber hcompose hparse).mpr (by decide +kernel)⟩

/-- A text that closes the appended parenthesis is accepted composed, and refused alone. -/
theorem not_intersects : ¬Intersects noNumber "$[?@.id) || (@.type]".toList operand := by
  intro hintersects
  obtain ⟨composed, node, hcompose, hparse⟩ :=
    exists_accepted "$[?@.id) || (@.type]".toList (by decide +kernel)
  obtain ⟨user, huser, -⟩ := hintersects composed node hcompose hparse
  have hrefused : parseSelector noNumber "$[?@.id) || (@.type]".toList = none := by
    decide +kernel
  rw [hrefused] at huser
  cases huser

end Composed

end Bdp.Selector
