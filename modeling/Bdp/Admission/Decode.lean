import Bdp.Admission.Lexemes

/-!
# Decoding a JSON document

The iterative scanner of `decodeJsonDocument`, with its stack of open containers. One step closes
the top container, takes a comma, or reads a member name and the start of a value. The scanner
accepts exactly the documents of the grammar whose objects have distinct decoded names and whose
decoded strings are scalar Unicode, and returns the derived tree as a program enumerates it.
-/

namespace Bdp.Admission

open CodeUnits JsonGrammar
open JsonTree (Container)

section Definitions

inductive SyntaxProblem where
  | invalidString
  | unpairedSurrogate
  | unterminatedString
  | expectedValue
  | expectedComma
  | expectedName
  | duplicateName
  | expectedColon
  | trailingInput
  deriving DecidableEq

def SyntaxProblem.message : SyntaxProblem → String
  | .invalidString => "invalid JSON string"
  | .unpairedSurrogate => "unpaired surrogate"
  | .unterminatedString => "unterminated JSON string"
  | .expectedValue => "expected JSON value"
  | .expectedComma => "expected comma or closing delimiter"
  | .expectedName => "expected object member name"
  | .duplicateName => "duplicate decoded object member name"
  | .expectedColon => "expected colon"
  | .trailingInput => "trailing JSON input"

/-- A refusal, with the number of units that the scanner had not passed. A scan past the end of the
text leaves minus one. -/
structure Refusal where
  problem : SyntaxProblem
  remaining : ℤ

structure JsonSyntaxError where
  message : String
  offset : ℤ
  deriving DecidableEq

abbrev Scan := Except Refusal

def fail {α : Type} (problem : SyntaxProblem) (rest : Text) : Scan α :=
  .error ⟨problem, rest.length⟩

/-- Refusal at a unit that the scanner has already stepped over. -/
def failAfter {α : Type} (problem : SyntaxProblem) (rest : Text) : Scan α :=
  .error ⟨problem, rest.length - 1⟩

def whitespace (text : Text) : Text := text.dropWhile isWhitespace

/-- A string after its opening quote: what it denotes and what follows its closing quote. -/
def readString (text : Text) : Scan (Text × Text) :=
  match closingQuote false text with
  | none => fail .unterminatedString []
  | some (body, rest) =>
    match unescape body with
    | none => fail .invalidString rest
    | some value =>
      if isUnicodeScalarString value then .ok (value, rest) else fail .unpairedSurrogate rest

inductive FrameState where
  | first
  | next
  | after
  deriving DecidableEq

/-- An open container; `key` names the slot of the child being read. -/
structure Frame where
  value : Container JsonLeaf
  state : FrameState
  key : Text

def Frame.put (frame : Frame) (child : JsonTree JsonLeaf) : Frame :=
  { frame with value := frame.value.put frame.key child, key := [] }

/-- What the start of a value gives: a whole leaf, or an empty container to fill. -/
inductive Start where
  | leaf (value : JsonLeaf)
  | container (value : Container JsonLeaf)

/-- The rest of a text that starts with a token. -/
def afterToken (token text : Text) : Option Text :=
  if token.isPrefixOf text then some (text.drop token.length) else none

def readLiteral (text : Text) : Scan (Start × Text) :=
  match afterToken (ascii ['t', 'r', 'u', 'e']) text with
  | some rest => .ok (.leaf (.bool true), rest)
  | none =>
    match afterToken (ascii ['f', 'a', 'l', 's', 'e']) text with
    | some rest => .ok (.leaf (.bool false), rest)
    | none =>
      match afterToken (ascii ['n', 'u', 'l', 'l']) text with
      | some rest => .ok (.leaf .null, rest)
      | none =>
        match readNumber text with
        | some (parts, rest) => .ok (.leaf (.number parts.text), rest)
        | none => fail .expectedValue text

/-- The start of a value at a text without leading whitespace. -/
def readStart : Text → Scan (Start × Text)
  | [] => fail .expectedValue []
  | unit :: rest =>
    if unit = 34 then (readString rest).map fun read ↦ (.leaf (.string read.1), read.2)
    else if unit = 123 then .ok (.container (.object []), rest)
    else if unit = 91 then .ok (.container (.array []), rest)
    else readLiteral (unit :: rest)

def readValue (text : Text) : Scan (Start × Text) := readStart (whitespace text)

/-- The name of the next member and its colon; an array has neither. -/
def readKey (container : Container JsonLeaf) (text : Text) : Scan (Text × Text) :=
  match container with
  | .array _ => .ok ([], text)
  | .object _ =>
    if text.head? ≠ some 34 then fail .expectedName text
    else
      match readString text.tail with
      | .error refusal => .error refusal
      | .ok (key, rest) =>
        if key ∈ container.keys then fail .duplicateName rest
        else if (whitespace rest).head? ≠ some 58 then failAfter .expectedColon (whitespace rest)
        else .ok (key, (whitespace rest).tail)

/-- Where the scanner is: inside an open container, or past the root value. -/
inductive State where
  | building (frame : Frame) (below : List Frame) (rest : Text)
  | built (root : JsonTree JsonLeaf) (rest : Text)

def State.rest : State → Text
  | .building _ _ rest => rest
  | .built _ rest => rest

/-- A finished value goes to the container below, or is the root. -/
def complete (value : JsonTree JsonLeaf) (below : List Frame) (rest : Text) : State :=
  match below with
  | [] => .built value rest
  | frame :: below => .building (frame.put value) below rest

def start (start : Start) (below : List Frame) (rest : Text) : State :=
  match start with
  | .leaf value => complete (.leaf value) below rest
  | .container value => .building ⟨value, .first, []⟩ below rest

/-- One turn of the loop over the open containers. -/
def step (frame : Frame) (below : List Frame) (text : Text) : Scan State :=
  let text := whitespace text
  if text.head? = some frame.value.close ∧ frame.state ≠ .next then
    .ok (complete frame.value.tree below text.tail)
  else if frame.state = .after then
    if text.head? = some 44 then .ok (.building { frame with state := .next } below text.tail)
    else failAfter .expectedComma text
  else
    match readKey frame.value text with
    | .error refusal => .error refusal
    | .ok (key, rest) =>
      match readValue rest with
      | .error refusal => .error refusal
      | .ok (child, rest) =>
        .ok (start child ({ frame with state := .after, key := key } :: below) rest)

end Definitions

variable {below : List Frame} {frame : Frame}
variable {next : State}

section Progress

theorem whitespace_length (text : Text) : (whitespace text).length ≤ text.length :=
  (List.dropWhile_suffix _).length_le

variable {rest text : Text}

theorem readString_length {value : Text} (h : readString text = .ok (value, rest)) :
    rest.length < text.length := by
  unfold readString at h
  split at h
  · cases h
  · next body rest' hclosing =>
    have htext := closingQuote_sound hclosing
    split at h
    · cases h
    · split at h
      · obtain ⟨rfl, rfl⟩ := Prod.mk.inj (Except.ok.inj h)
        rw [htext]
        simp only [List.length_append, List.length_cons]
        omega
      · cases h

theorem afterToken_eq_some {token : Text} (h : afterToken token text = some rest) :
    text = token ++ rest := by
  unfold afterToken at h
  split at h
  · next hprefix =>
    obtain rfl := Option.some.inj h
    exact (List.prefix_iff_eq_append.mp (List.isPrefixOf_iff_prefix.mp hprefix)).symm
  · cases h

theorem numberText_ne_nil {parts : NumberParts} (h : parts.Valid) : parts.text ≠ [] := by
  have := integer_ne_nil h.integer
  simp [NumberParts.text, this]

variable {begun : Start}

theorem readLiteral_length
    (h : readLiteral text = .ok (begun, rest)) : rest.length < text.length := by
  unfold readLiteral at h
  split at h
  · next htoken =>
    obtain ⟨_, rfl⟩ := Prod.mk.inj (Except.ok.inj h)
    rw [afterToken_eq_some htoken, List.length_append]
    exact Nat.lt_add_of_pos_left (by decide)
  · split at h
    · next htoken =>
      obtain ⟨_, rfl⟩ := Prod.mk.inj (Except.ok.inj h)
      rw [afterToken_eq_some htoken, List.length_append]
      exact Nat.lt_add_of_pos_left (by decide)
    · split at h
      · next htoken =>
        obtain ⟨_, rfl⟩ := Prod.mk.inj (Except.ok.inj h)
        rw [afterToken_eq_some htoken, List.length_append]
        exact Nat.lt_add_of_pos_left (by decide)
      · split at h
        · next hnumber =>
          obtain ⟨_, rfl⟩ := Prod.mk.inj (Except.ok.inj h)
          obtain ⟨hvalid, htext⟩ := readNumber_sound hnumber
          have := List.length_pos_iff.mpr (numberText_ne_nil hvalid)
          rw [htext, List.length_append]
          omega
        · cases h

theorem readValue_length (h : readValue text = .ok (begun, rest)) : rest.length < text.length := by
  have hspace := whitespace_length text
  unfold readValue at h
  cases htext : whitespace text with
  | nil => rw [htext] at h; cases h
  | cons unit tail =>
    rw [htext] at h hspace
    simp only [List.length_cons] at hspace
    simp only [readStart] at h
    split at h
    · cases hstring : readString tail with
      | error refusal => rw [hstring] at h; cases h
      | ok read =>
        obtain ⟨value, after⟩ := read
        rw [hstring] at h
        simp only [Except.map, Except.ok.injEq, Prod.mk.injEq] at h
        have := h.2 ▸ readString_length hstring
        omega
    · split at h
      · obtain ⟨_, rfl⟩ := Prod.mk.inj (Except.ok.inj h)
        omega
      · split at h
        · obtain ⟨_, rfl⟩ := Prod.mk.inj (Except.ok.inj h)
          omega
        · have := readLiteral_length h
          simp only [List.length_cons] at this
          omega

theorem readKey_length {container : Container JsonLeaf} {key : Text}
    (h : readKey container text = .ok (key, rest)) : rest.length ≤ text.length := by
  unfold readKey at h
  split at h
  · obtain ⟨_, rfl⟩ := Prod.mk.inj (Except.ok.inj h)
    exact Nat.le_refl _
  · split at h
    · cases h
    · split at h
      · cases h
      · next name tail hstring =>
        have hread := readString_length hstring
        have hspace := whitespace_length tail
        split at h
        · cases h
        · split at h
          · cases h
          · obtain ⟨_, rfl⟩ := Prod.mk.inj (Except.ok.inj h)
            simp only [List.length_tail] at hread ⊢
            omega

@[simp]
theorem complete_rest (value : JsonTree JsonLeaf) (below : List Frame) (rest : Text) :
    (complete value below rest).rest = rest := by
  cases below <;> rfl

@[simp]
theorem start_rest (begun : Start) (below : List Frame) (rest : Text) :
    (start begun below rest).rest = rest := by
  cases begun with
  | leaf value => exact complete_rest _ _ _
  | container value => rfl

theorem step_decreases (h : step frame below text = .ok next) : next.rest.length < text.length := by
  have hspace := whitespace_length text
  have htail : ∀ {unit : ℕ}, (whitespace text).head? = some unit →
      (whitespace text).tail.length < text.length := by
    intro unit hhead
    cases htext : whitespace text with
    | nil => simp [htext] at hhead
    | cons first tail =>
      rw [htext, List.length_cons] at hspace
      simpa using hspace
  simp only [step] at h
  split at h
  · next hclose =>
    obtain rfl := Except.ok.inj h
    simpa using htail hclose.1
  · split at h
    · split at h
      · next hcomma =>
        obtain rfl := Except.ok.inj h
        exact htail hcomma
      · cases h
    · split at h
      · cases h
      · next key rest hkey =>
        split at h
        · cases h
        · next child rest' hvalue =>
          obtain rfl := Except.ok.inj h
          have hkeyLength := readKey_length hkey
          have hvalueLength := readValue_length hvalue
          rw [start_rest]
          omega

end Progress

section Decode

/-- The loop over the open containers and the check for trailing input. -/
def run : State → Scan (JsonTree JsonLeaf)
  | .built root rest => if whitespace rest = [] then .ok root else fail .trailingInput (whitespace rest)
  | .building frame below rest =>
    match _h : step frame below rest with
    | .error refusal => .error refusal
    | .ok next => run next
  termination_by state => state.rest.length
  decreasing_by exact step_decreases _h

def scanDocument (text : Text) : Scan (JsonTree JsonLeaf) :=
  match readValue text with
  | .error refusal => .error refusal
  | .ok (begun, rest) => run (start begun [] rest)

def decodeJsonDocument (text : Text) : Except JsonSyntaxError (JsonTree JsonLeaf) :=
  (scanDocument text).mapError fun refusal ↦
    ⟨refusal.problem.message, text.length - refusal.remaining⟩

variable {rest : Text}

theorem run_building
    (h : step frame below rest = .ok next) : run (.building frame below rest) = run next := by
  rw [run]
  split
  · next h' => rw [h] at h'; cases h'
  · next h' =>
    rw [h] at h'
    obtain rfl := Except.ok.inj h'
    rfl

theorem run_building_ok
    {tree : JsonTree JsonLeaf} (h : run (.building frame below rest) = .ok tree) :
    ∃ next, step frame below rest = .ok next ∧ run next = .ok tree := by
  rw [run] at h
  split at h
  · cases h
  · next next hstep => exact ⟨next, hstep, h⟩

end Decode

end Bdp.Admission
