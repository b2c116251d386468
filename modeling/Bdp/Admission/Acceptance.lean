import Bdp.Admission.Document

/-!
# The documents of the grammar are decoded

A derivation drives the scanner: over the text of a value it comes to the completed value, over the
items or members of a container to the container with them. The language that
`decodeJsonDocument` accepts is therefore the grammar restricted to distinct member names and
scalar strings, and every text is decided.
-/

namespace Bdp.Admission

open CodeUnits JsonGrammar
open JsonTree (Container)
open List (mem_cons_self append_assoc cons_append)

variable {begun : Start}

section Units

variable {text : Text}
variable {rest : Text}

theorem delimited_whitespace (h : Whitespace text) (hrest : Delimited rest) :
    Delimited (text ++ rest) := by
  cases text with
  | nil => exact hrest
  | cons unit text =>
    intro other hother
    obtain rfl : unit = other := by simpa using hother
    have hspace := h unit mem_cons_self
    simp only [isWhitespace, Bool.or_eq_true, beq_iff_eq] at hspace
    simp only [Decimal.isDigit, decide_eq_false_iff_not]
    omega

variable {unit : ℕ}

theorem delimited_structural (hunit : unit = 93 ∨ unit = 125 ∨ unit = 44)
    (h : Structural unit text) (rest : Text) : Delimited (text ++ rest) := by
  obtain ⟨before, after, hbefore, _, rfl⟩ := h
  rw [append_assoc]
  apply delimited_whitespace hbefore
  intro other hother
  obtain rfl : unit = other := by simpa using hother
  simp only [Decimal.isDigit, decide_eq_false_iff_not]
  omega

variable {before : Text}

theorem whitespace_structural (hbefore : Whitespace before)
    (hunit : isWhitespace unit = false) (rest : Text) :
    whitespace (before ++ unit :: rest) = unit :: rest := by
  rw [whitespace_append hbefore]
  apply whitespace_of_head
  intro other hother
  obtain rfl : unit = other := by simpa using hother
  exact hunit

theorem readValue_append (hbefore : Whitespace before) (rest : Text) :
    readValue (before ++ rest) = readValue rest := by
  rw [readValue, whitespace_append hbefore, readValue]

theorem readValue_whitespace (text : Text) : readValue (whitespace text) = readValue text := by
  rw [readValue, whitespace_whitespace, readValue]

theorem afterToken_ne {first : ℕ} (h : first ≠ unit) (token rest : Text) :
    afterToken (first :: token) (unit :: rest) = none := by
  simp [afterToken, h]

theorem readValue_head
    (h : readValue text = .ok (begun, rest)) (hhead : (whitespace text).head? = some unit) :
    unit ≠ 93 ∧ unit ≠ 125 ∧ unit ≠ 44 := by
  have hrefused : ∀ (unit : ℕ) (rest : Text), unit = 93 ∨ unit = 125 ∨ unit = 44 →
      ∃ refusal, readStart (unit :: rest) = .error refusal := by
    rintro unit rest (rfl | rfl | rfl) <;>
      exact ⟨_, by simp [readStart, readLiteral, afterToken, ascii, readNumber, readMinus,
        readInteger, fail]; rfl⟩
  cases htext : whitespace text with
  | nil => simp [htext] at hhead
  | cons first tail =>
    obtain rfl : first = unit := by simpa [htext] using hhead
    have hsafe : ¬ (first = 93 ∨ first = 125 ∨ first = 44) := by
      intro hunit
      obtain ⟨refusal, hrefusal⟩ := hrefused first tail hunit
      rw [readValue, htext, hrefusal] at h
      cases h
    omega

end Units

variable {spelled : Text}

section Leaves

theorem number_head {parts : NumberParts} (h : parts.Valid) :
    ∃ unit rest, parts.text = unit :: rest ∧ (unit = 45 ∨ 48 ≤ unit ∧ unit ≤ 57) := by
  cases hnegative : parts.negative with
  | true => exact ⟨45, _, by simp [NumberParts.text, minusText, hnegative]; rfl, .inl rfl⟩
  | false =>
    cases hinteger : parts.integer with
    | nil => exact absurd hinteger (integer_ne_nil h.integer)
    | cons first digits =>
      have := digits_integer h.integer first (by simp [hinteger])
      simp only [Decimal.isDigit, decide_eq_true_eq] at this
      exact ⟨first, _, by simp [NumberParts.text, minusText, hnegative, hinteger]; rfl, .inr this⟩

variable {before rest : Text}

theorem readValue_number {lexeme : Text} (h : IsNumber lexeme)
    (hbefore : Whitespace before) (hrest : Delimited rest) :
    readValue (before ++ (lexeme ++ rest)) = .ok (.leaf (.number lexeme), rest) := by
  obtain ⟨parts, hvalid, rfl⟩ := h
  obtain ⟨unit, tail, htext, hunit⟩ := number_head hvalid
  have hread := readNumber_complete hvalid hrest
  have hspace : isWhitespace unit = false := by
    simp only [isWhitespace, Bool.or_eq_false_iff, beq_eq_false_iff_ne]
    omega
  rw [readValue, htext, cons_append, whitespace_structural hbefore hspace]
  rw [htext, cons_append] at hread
  have h34 : unit ≠ 34 := by omega
  have h123 : unit ≠ 123 := by omega
  have h91 : unit ≠ 91 := by omega
  simp only [readStart, h34, h123, h91, if_false, readLiteral, ascii, List.map_cons]
  rw [afterToken_ne (by simp; omega), afterToken_ne (by simp; omega),
    afterToken_ne (by simp; omega), hread]
  simp only [htext]

theorem readValue_string {denoted : Text} (h : IsString denoted spelled)
    (hscalar : ¬ HasLoneSurrogate denoted) (hbefore : Whitespace before) :
    readValue (before ++ (spelled ++ rest)) = .ok (.leaf (.string denoted), rest) := by
  obtain ⟨source, hchars, rfl⟩ := h
  have hread := readString_complete hchars hscalar rest
  rw [readValue, cons_append, whitespace_structural hbefore (by decide)]
  simp only [append_assoc, List.singleton_append, readStart, if_true, hread]
  rfl

theorem readValue_literal {token : Text} {value : JsonLeaf}
    (h : token = ascii ['t', 'r', 'u', 'e'] ∧ value = .bool true ∨
      token = ascii ['f', 'a', 'l', 's', 'e'] ∧ value = .bool false ∨
      token = ascii ['n', 'u', 'l', 'l'] ∧ value = .null) (hbefore : Whitespace before) :
    readValue (before ++ (token ++ rest)) = .ok (.leaf value, rest) := by
  rcases h with ⟨rfl, rfl⟩ | ⟨rfl, rfl⟩ | ⟨rfl, rfl⟩ <;>
  · rw [readValue, ascii, List.map_cons, cons_append, whitespace_structural hbefore (by decide)]
    simp [readStart, readLiteral, afterToken, ascii]

theorem readValue_open {unit : ℕ} {container : Container JsonLeaf} {opening : Text}
    (hunit : unit = 91 ∧ container = .array [] ∨ unit = 123 ∧ container = .object [])
    (hbefore : Whitespace before) (h : Structural unit opening) (rest : Text) :
    ∃ after, Whitespace after ∧
      readValue (before ++ (opening ++ rest)) = .ok (.container container, after ++ rest) := by
  obtain ⟨openBefore, after, hopenBefore, hafter, rfl⟩ := h
  refine ⟨after, hafter, ?_⟩
  rw [readValue_append hbefore, append_assoc, cons_append, readValue]
  rcases hunit with ⟨rfl, rfl⟩ | ⟨rfl, rfl⟩
  · rw [whitespace_structural hopenBefore (by decide)]
    rfl
  · rw [whitespace_structural hopenBefore (by decide)]
    rfl

theorem structural_append {unit : ℕ} {text : Text} (hbefore : Whitespace before)
    (h : Structural unit text) : Structural unit (before ++ text) := by
  obtain ⟨space, after, hspace, hafter, rfl⟩ := h
  exact ⟨before ++ space, after, List.forall_mem_append.mpr ⟨hbefore, hspace⟩, hafter, by simp⟩

end Leaves

section Steps

variable {text : Text}
variable {below : List Frame}

theorem run_eq_of_step_eq {frame frame' : Frame} {below' : List Frame} {text' : Text}
    (h : step frame below text = step frame' below' text') :
    run (.building frame below text) = run (.building frame' below' text') := by
  cases hstep : step frame below text with
  | ok next => rw [run_building hstep, run_building (h ▸ hstep)]
  | error refusal =>
    have hrefused : ∀ {frame : Frame} {below : List Frame} {text : Text},
        step frame below text = .error refusal →
        run (.building frame below text) = .error refusal := by
      intro frame below text hstep
      rw [run]
      split
      · next h' =>
        rw [hstep] at h'
        obtain rfl := Except.error.inj h'
        rfl
      · next h' => rw [hstep] at h'; cases h'
    rw [hrefused hstep, hrefused (h ▸ hstep)]

variable {before : Text}

theorem run_complete_append (hbefore : Whitespace before)
    (value : JsonTree JsonLeaf) (below : List Frame) (rest : Text) :
    run (complete value below (before ++ rest)) = run (complete value below rest) := by
  cases below with
  | nil => simp only [complete, run, whitespace_append hbefore]
  | cons frame below =>
    apply run_eq_of_step_eq
    simp only [step, whitespace_append hbefore]

variable {state : FrameState}
variable (container : Container JsonLeaf)

theorem run_close {closing : Text}
    (hstate : state ≠ .next) (h : Structural container.close closing) (below : List Frame)
    (rest : Text) :
    run (.building ⟨container, state, []⟩ below (closing ++ rest)) =
      run (complete container.tree below rest) := by
  obtain ⟨before, after, hbefore, hafter, rfl⟩ := h
  have hunit : isWhitespace container.close = false := by cases container <;> rfl
  have hspace := whitespace_structural hbefore hunit (after ++ rest)
  have hstep : step ⟨container, state, []⟩ below (before ++ container.close :: (after ++ rest)) =
      .ok (complete container.tree below (after ++ rest)) := by
    simp [step, hspace, hstate]
  rw [append_assoc, cons_append, run_building hstep, run_complete_append hafter]

theorem run_comma {separator : Text} (h : Structural 44 separator)
    (below : List Frame) (rest : Text) :
    ∃ after, Whitespace after ∧ run (.building ⟨container, .after, []⟩ below (separator ++ rest)) =
        run (.building ⟨container, .next, []⟩ below (after ++ rest)) := by
  obtain ⟨before, after, hbefore, hafter, rfl⟩ := h
  have hspace := whitespace_structural hbefore (by decide : isWhitespace 44 = false) (after ++ rest)
  have hclose : 44 ≠ container.close := by cases container <;> simp [Container.close, Container.isObject]
  have hstep : step ⟨container, .after, []⟩ below (before ++ 44 :: (after ++ rest)) =
      .ok (.building ⟨container, .next, []⟩ below (after ++ rest)) := by
    simp [step, hspace, hclose]
  exact ⟨after, hafter, by rw [append_assoc, cons_append, run_building hstep]⟩

variable {rest : Text}

theorem run_item {done : List (JsonTree JsonLeaf)}
    (hstate : state ≠ .after) (h : readValue text = .ok (begun, rest)) :
    run (.building ⟨.array done, state, []⟩ below text) =
      run (start begun (⟨.array done, .after, []⟩ :: below) rest) := by
  have hclose : (whitespace text).head? ≠ some 93 :=
    fun hhead ↦ (readValue_head h hhead).1 rfl
  have hstep : step ⟨.array done, state, []⟩ below text =
      .ok (start begun (⟨.array done, .after, []⟩ :: below) rest) := by
    simp [step, Container.close, Container.isObject, hclose, hstate, readKey,
      readValue_whitespace, h]
  exact run_building hstep

theorem run_member {done : List (Text × JsonTree JsonLeaf)} (below : List Frame) {name colon : Text}
    (hstate : state ≠ .after) (hbefore : Whitespace before) (hspelled : IsString name spelled)
    (hname : ¬ HasLoneSurrogate name) (hfresh : name ∉ done.map Prod.fst)
    (hcolon : Structural 58 colon) (h : readValue text = .ok (begun, rest)) :
    run (.building ⟨.object done, state, []⟩ below (before ++ (spelled ++ (colon ++ text)))) =
      run (start begun (⟨.object done, .after, name⟩ :: below) rest) := by
  obtain ⟨source, hchars, rfl⟩ := hspelled
  obtain ⟨colonBefore, colonAfter, hcolonBefore, hcolonAfter, rfl⟩ := hcolon
  have hspace := whitespace_structural hbefore (by decide : isWhitespace 34 = false)
    (source ++ 34 :: (colonBefore ++ 58 :: (colonAfter ++ text)))
  have hstring := readString_complete hchars hname (colonBefore ++ 58 :: (colonAfter ++ text))
  have hpoint := whitespace_structural hcolonBefore (by decide : isWhitespace 58 = false)
    (colonAfter ++ text)
  have hvalue : readValue (colonAfter ++ text) = .ok (begun, rest) := by
    rw [readValue_append hcolonAfter, h]
  have htext : before ++ (34 :: (source ++ [34]) ++ (colonBefore ++ 58 :: colonAfter ++ text)) =
      before ++ 34 :: (source ++ 34 :: (colonBefore ++ 58 :: (colonAfter ++ text))) := by simp
  have hstep : step ⟨.object done, state, []⟩ below
      (before ++ 34 :: (source ++ 34 :: (colonBefore ++ 58 :: (colonAfter ++ text)))) =
      .ok (start begun (⟨.object done, .after, name⟩ :: below) rest) := by
    simp [step, Container.close, Container.isObject, Container.keys, hspace, hstate, readKey,
      hstring, hpoint] at hfresh ⊢
    simp [hfresh, hvalue]
  rw [htext, run_building hstep]

end Steps

section Completeness

/-- The scanner passes over exactly the text of a form. -/
def Driven : Form → Text → Prop
  | .value tree, text => Admissible tree → ∀ (before rest : Text) (below : List Frame),
      Whitespace before → Delimited rest →
      ∃ begun rest', readValue (before ++ (text ++ rest)) = .ok (begun, rest') ∧
        run (start begun below rest') = run (complete tree.enumerated below rest)
  | .items items, text => (∀ item ∈ items, Admissible item) →
      ∀ (done : List (JsonTree JsonLeaf)) (state : FrameState) (before rest : Text)
        (below : List Frame), state ≠ .after → Whitespace before → Delimited rest →
      run (.building ⟨.array done, state, []⟩ below (before ++ (text ++ rest))) =
        run (.building ⟨.array (done ++ items.map JsonTree.enumerated), .after, []⟩ below rest)
  | .members members, text => (∀ member ∈ members, ¬ HasLoneSurrogate member.1) →
      (∀ member ∈ members, Admissible member.2) →
      ∀ (done : List (Text × JsonTree JsonLeaf)) (state : FrameState) (before rest : Text)
        (below : List Frame), ((done.map Prod.fst) ++ members.map Prod.fst).Nodup →
      state ≠ .after → Whitespace before → Delimited rest →
      run (.building ⟨.object done, state, []⟩ below (before ++ (text ++ rest))) =
        run (.building ⟨.object (done ++ members.map (Prod.map id JsonTree.enumerated)), .after, []⟩
          below rest)

variable {text : Text}

theorem driven {form : Form} (h : Derives form text) : Driven form text := by
  induction h with
  | null =>
    intro _ before rest below hbefore _
    exact ⟨_, _, readValue_literal (.inr (.inr ⟨rfl, rfl⟩)) hbefore, rfl⟩
  | true =>
    intro _ before rest below hbefore _
    exact ⟨_, _, readValue_literal (.inl ⟨rfl, rfl⟩) hbefore, rfl⟩
  | false =>
    intro _ before rest below hbefore _
    exact ⟨_, _, readValue_literal (.inr (.inl ⟨rfl, rfl⟩)) hbefore, rfl⟩
  | number h =>
    intro _ before rest below hbefore hrest
    exact ⟨_, _, readValue_number h hbefore hrest, rfl⟩
  | string h =>
    intro hadmissible before rest below hbefore _
    cases hadmissible with
    | leaf valid => exact ⟨_, _, readValue_string h valid hbefore, rfl⟩
  | @emptyArray opening closing open_ close =>
    intro _ before rest below hbefore _
    obtain ⟨after, hafter, hread⟩ :=
      readValue_open (.inl ⟨rfl, rfl⟩) hbefore open_ (closing ++ rest)
    refine ⟨_, _, by rw [append_assoc, hread], ?_⟩
    rw [← append_assoc]
    exact run_close (.array []) (by decide) (structural_append hafter close) below rest
  | @array items opening text closing open_ _ close ih =>
    intro hadmissible before rest below hbefore _
    cases hadmissible with
    | array children =>
      obtain ⟨after, hafter, hread⟩ :=
        readValue_open (.inl ⟨rfl, rfl⟩) hbefore open_ (text ++ (closing ++ rest))
      refine ⟨_, _, by rw [append_assoc, append_assoc, hread], ?_⟩
      have hdelimited := delimited_structural (.inl rfl) close rest
      calc run (start (.container (.array [])) below (after ++ (text ++ (closing ++ rest))))
          = run (.building ⟨.array ([] ++ items.map JsonTree.enumerated), .after, []⟩ below
              (closing ++ rest)) := ih children [] .first after _ below (by decide) hafter hdelimited
        _ = run (complete (Container.array ([] ++ items.map JsonTree.enumerated)).tree below
              rest) :=
            run_close (.array ([] ++ items.map JsonTree.enumerated)) (by decide) close below rest
        _ = run (complete (JsonTree.array items).enumerated below rest) := by
            rw [JsonTree.enumerated, JsonTree.enumeratedItems_eq_map]
            rfl
  | @emptyObject opening closing open_ close =>
    intro _ before rest below hbefore _
    obtain ⟨after, hafter, hread⟩ :=
      readValue_open (.inr ⟨rfl, rfl⟩) hbefore open_ (closing ++ rest)
    refine ⟨_, _, by rw [append_assoc, hread], ?_⟩
    rw [← append_assoc]
    exact run_close (.object []) (by decide) (structural_append hafter close) below rest
  | @object members opening text closing open_ _ close ih =>
    intro hadmissible before rest below hbefore _
    cases hadmissible with
    | object distinct names children =>
      obtain ⟨after, hafter, hread⟩ :=
        readValue_open (.inr ⟨rfl, rfl⟩) hbefore open_ (text ++ (closing ++ rest))
      refine ⟨_, _, by rw [append_assoc, append_assoc, hread], ?_⟩
      have hdelimited := delimited_structural (.inr (.inl rfl)) close rest
      calc run (start (.container (.object [])) below (after ++ (text ++ (closing ++ rest))))
          = run (.building
              ⟨.object ([] ++ members.map (Prod.map id JsonTree.enumerated)), .after, []⟩ below
              (closing ++ rest)) :=
            ih names children [] .first after _ below (by simpa using distinct) (by decide) hafter
              hdelimited
        _ = run (complete
              (Container.object ([] ++ members.map (Prod.map id JsonTree.enumerated))).tree below
              rest) :=
            run_close (.object ([] ++ members.map (Prod.map id JsonTree.enumerated))) (by decide)
              close below rest
        _ = run (complete (JsonTree.object members).enumerated below rest) := by
            rw [JsonTree.enumerated, JsonTree.enumeratedMembers_eq_map]
            rfl
  | @item item text _ ih =>
    intro hitems done state before rest below hstate hbefore hrest
    obtain ⟨begun, rest', hread, hrun⟩ :=
      ih (hitems item mem_cons_self) before rest (⟨.array done, .after, []⟩ :: below) hbefore
        hrest
    rw [run_item hstate hread, hrun]
    rfl
  | @moreItems item items text separator more _ comma _ ihItem ihItems =>
    intro hitems done state before rest below hstate hbefore hrest
    have hdelimited := delimited_structural (.inr (.inr rfl)) comma (more ++ rest)
    obtain ⟨begun, rest', hread, hrun⟩ :=
      ihItem (hitems item mem_cons_self) before _ (⟨.array done, .after, []⟩ :: below) hbefore
        hdelimited
    obtain ⟨after, hafter, hcomma⟩ :=
      run_comma (.array (done ++ [item.enumerated])) comma below (more ++ rest)
    have hmore := ihItems (fun child hchild ↦ hitems child (List.mem_cons_of_mem _ hchild))
      (done ++ [item.enumerated]) .next after rest below (by decide) hafter hrest
    rw [append_assoc, append_assoc, run_item hstate hread, hrun]
    calc run (complete item.enumerated (⟨.array done, .after, []⟩ :: below)
          (separator ++ (more ++ rest)))
        = run (.building ⟨.array (done ++ [item.enumerated]), .next, []⟩ below
            (after ++ (more ++ rest))) := hcomma
      _ = _ := hmore
      _ = _ := by simp
  | @member name spelled value separator text named colon _ ih =>
    intro hnames hchildren done state before rest below hdistinct hstate hbefore hrest
    obtain ⟨begun, rest', hread, hrun⟩ :=
      ih (hchildren _ mem_cons_self) [] rest (⟨.object done, .after, name⟩ :: below)
        whitespace_nil hrest
    have hfresh : name ∉ done.map Prod.fst := by
      intro hmem
      exact (List.nodup_append.mp hdistinct).2.2 name hmem name (by simp) rfl
    have hmember := run_member below hstate hbefore named
      (hnames _ mem_cons_self) hfresh colon hread
    rw [append_assoc, append_assoc]
    exact hmember.trans hrun
  | @moreMembers name spelled value members separator text comma more named colon _ next _ ihValue
      ihMembers =>
    intro hnames hchildren done state before rest below hdistinct hstate hbefore hrest
    have hdelimited := delimited_structural (.inr (.inr rfl)) next (more ++ rest)
    obtain ⟨begun, rest', hread, hrun⟩ :=
      ihValue (hchildren _ mem_cons_self) [] _
        (⟨.object done, .after, name⟩ :: below) whitespace_nil hdelimited
    have hfresh : name ∉ done.map Prod.fst := by
      intro hmem
      exact (List.nodup_append.mp hdistinct).2.2 name hmem name (by simp) rfl
    have hmember := run_member below hstate hbefore named
      (hnames _ mem_cons_self) hfresh colon hread
    obtain ⟨after, hafter, hcomma⟩ :=
      run_comma (.object (done ++ [(name, value.enumerated)])) next below
        (more ++ rest)
    have hmore := ihMembers (fun child hchild ↦ hnames child (List.mem_cons_of_mem _ hchild))
      (fun child hchild ↦ hchildren child (List.mem_cons_of_mem _ hchild))
      (done ++ [(name, value.enumerated)]) .next after rest below
      (by simpa using hdistinct) (by decide) hafter hrest
    have htext : before ++ (spelled ++ (separator ++ (text ++ (comma ++ more))) ++ rest) =
        before ++ (spelled ++ (separator ++ ([] ++ (text ++ (comma ++ (more ++ rest)))))) := by
      simp
    rw [htext, hmember, hrun]
    calc run (complete value.enumerated (⟨.object done, .after, name⟩ :: below)
          (comma ++ (more ++ rest)))
        = run (.building ⟨.object (done ++ [(name, value.enumerated)]), .next, []⟩ below
            (after ++ (more ++ rest))) := hcomma
      _ = _ := hmore
      _ = _ := by simp

theorem scanDocument_complete {tree : JsonTree JsonLeaf}
    (h : IsDocument tree text) (hadmissible : Admissible tree) :
    scanDocument text = .ok tree.enumerated := by
  obtain ⟨before, body, after, hbefore, hafter, hderives, rfl⟩ := h
  have hdelimited : Delimited after := by
    simpa using delimited_whitespace hafter delimited_nil
  obtain ⟨begun, rest, hread, hrun⟩ := driven hderives hadmissible before after [] hbefore hdelimited
  have hspace : whitespace after = [] := by
    have := whitespace_append hafter []
    rw [List.append_nil] at this
    rw [this]
    rfl
  simp only [scanDocument, hread, hrun, complete, run, hspace, if_true]

/-- `decodeJsonDocument` returns a value exactly for the documents of the grammar whose objects
have distinct decoded names and whose decoded strings are scalar Unicode, and the value is the
derived tree with every number as its lexeme. -/
theorem decodeJsonDocument_eq_ok_iff (text : Text) (value : JsonTree JsonLeaf) :
    decodeJsonDocument text = .ok value ↔
      ∃ tree, IsDocument tree text ∧ Admissible tree ∧ value = tree.enumerated := by
  have hscan : decodeJsonDocument text = .ok value ↔ scanDocument text = .ok value := by
    unfold decodeJsonDocument
    cases scanDocument text <;> simp [Except.mapError]
  rw [hscan]
  constructor
  · exact scanDocument_sound
  · rintro ⟨tree, hdocument, hadmissible, rfl⟩
    exact scanDocument_complete hdocument hadmissible

/-- The loop over the open containers ends after so many turns. -/
inductive Halts : State → ℕ → Prop
  | built (root : JsonTree JsonLeaf) (rest : Text) : Halts (.built root rest) 0
  | refused {frame : Frame} {below : List Frame} {rest : Text} {refusal : Refusal}
      (h : step frame below rest = .error refusal) : Halts (.building frame below rest) 1
  | turn {frame : Frame} {below : List Frame} {rest : Text} {next : State} {turns : ℕ}
      (h : step frame below rest = .ok next) (more : Halts next turns) :
      Halts (.building frame below rest) (turns + 1)

theorem halts (bound : ℕ) (state : State) (h : state.rest.length ≤ bound) :
    ∃ turns ≤ bound + 1, Halts state turns := by
  induction bound generalizing state with
  | zero =>
    cases state with
    | built root rest => exact ⟨0, Nat.zero_le _, .built root rest⟩
    | building frame below rest =>
      cases hstep : step frame below rest with
      | error refusal => exact ⟨1, le_refl _, .refused hstep⟩
      | ok next =>
        have hdecreases := step_decreases hstep
        have hrest : rest.length ≤ 0 := h
        omega
  | succ bound ih =>
    cases state with
    | built root rest => exact ⟨0, Nat.zero_le _, .built root rest⟩
    | building frame below rest =>
      cases hstep : step frame below rest with
      | error refusal => exact ⟨1, by omega, .refused hstep⟩
      | ok next =>
        have hdecreases := step_decreases hstep
        have hrest : rest.length ≤ bound + 1 := h
        obtain ⟨turns, hturns, hhalts⟩ := ih next (by omega)
        exact ⟨turns + 1, by omega, .turn hstep hhalts⟩

/-- Decoding accepts exactly the documents of the grammar with distinct names and scalar strings,
returns what they denote, and its loop ends on every text within as many turns as it has units. -/
theorem decodeJsonDocument_exact (text : Text) :
    (∀ value, decodeJsonDocument text = .ok value ↔
      ∃ tree, IsDocument tree text ∧ Admissible tree ∧ value = tree.enumerated) ∧
    ∀ begun rest, readValue text = .ok (begun, rest) →
      ∃ turns ≤ text.length, Halts (start begun [] rest) turns := by
  constructor
  · exact decodeJsonDocument_eq_ok_iff text
  · intro begun rest hread
    have hlength := readValue_length hread
    obtain ⟨turns, hturns, hhalts⟩ := halts rest.length (start begun [] rest) (by simp)
    exact ⟨turns, by omega, hhalts⟩

end Completeness

end Bdp.Admission
