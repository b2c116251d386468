import Bdp.Admission.Decode

/-!
# Which documents are decoded

A scan that succeeds has completed, for every open container, a text that the grammar derives from
where the container stood; a derivation drives the scan over exactly the text it derives. Together
they give the language of `decodeJsonDocument` and the tree it returns.
-/

namespace Bdp.Admission

open CodeUnits JsonGrammar
open JsonTree (Container)

variable {begun : Start}

section Tokens

/-- The text of a string leaf is scalar Unicode. -/
def ScalarLeaf : JsonLeaf → Prop
  | .string value => ¬ HasLoneSurrogate value
  | _ => True

/-- Every object has distinct member names, and no name or string has a lone surrogate. -/
abbrev Admissible (tree : JsonTree JsonLeaf) : Prop :=
  tree.WellNamed (fun name ↦ ¬ HasLoneSurrogate name) ScalarLeaf

variable {text rest : Text}

theorem readString_sound {value : Text} (h : readString text = .ok (value, rest)) :
    ∃ source, StringChars source value ∧ ¬ HasLoneSurrogate value ∧
      text = source ++ 34 :: rest := by
  unfold readString at h
  split at h
  · cases h
  · next body rest' hclosing =>
    split at h
    · cases h
    · next value' hvalue =>
      split at h
      · next hscalar =>
        obtain ⟨rfl, rfl⟩ := Prod.mk.inj (Except.ok.inj h)
        exact ⟨body, unescape_eq_some_iff.mp hvalue, (isUnicodeScalarString_iff _).mp hscalar,
          closingQuote_sound hclosing⟩
      · cases h

theorem readString_complete {source value : Text} (hchars : StringChars source value)
    (hscalar : ¬ HasLoneSurrogate value) (rest : Text) :
    readString (source ++ 34 :: rest) = .ok (value, rest) := by
  unfold readString
  rw [closingQuote_complete hchars]
  simp [hchars.unescape_eq, (isUnicodeScalarString_iff value).mpr hscalar]

theorem whitespace_split (text : Text) :
    ∃ before, Whitespace before ∧ text = before ++ whitespace text :=
  ⟨text.takeWhile isWhitespace, fun _ ↦ List.mem_takeWhile_imp,
    (List.takeWhile_append_dropWhile).symm⟩

theorem whitespace_append {before : Text} (h : Whitespace before) (rest : Text) :
    whitespace (before ++ rest) = whitespace rest :=
  List.dropWhile_append_of_pos h

theorem whitespace_of_head (h : ∀ unit ∈ text.head?, isWhitespace unit = false) :
    whitespace text = text := by
  cases text with
  | nil => rfl
  | cons unit rest => simp [whitespace, h unit rfl]

@[simp]
theorem whitespace_whitespace (text : Text) : whitespace (whitespace text) = whitespace text := by
  apply whitespace_of_head
  intro unit hunit
  have := List.head?_dropWhile_not isWhitespace text
  simp only [whitespace] at hunit
  rw [Option.mem_def.mp hunit] at this
  simpa using this

theorem readLiteral_sound (h : readLiteral text = .ok (begun, rest)) :
    ∃ value body, begun = .leaf value ∧ text = body ++ rest ∧
      Derives (.value (.leaf value)) body ∧ ScalarLeaf value := by
  unfold readLiteral at h
  split at h
  · next htoken =>
    obtain ⟨rfl, rfl⟩ := Prod.mk.inj (Except.ok.inj h)
    exact ⟨_, _, rfl, afterToken_eq_some htoken, .true, trivial⟩
  · split at h
    · next htoken =>
      obtain ⟨rfl, rfl⟩ := Prod.mk.inj (Except.ok.inj h)
      exact ⟨_, _, rfl, afterToken_eq_some htoken, .false, trivial⟩
    · split at h
      · next htoken =>
        obtain ⟨rfl, rfl⟩ := Prod.mk.inj (Except.ok.inj h)
        exact ⟨_, _, rfl, afterToken_eq_some htoken, .null, trivial⟩
      · split at h
        · next parts rest' hnumber =>
          obtain ⟨rfl, rfl⟩ := Prod.mk.inj (Except.ok.inj h)
          obtain ⟨hvalid, htext⟩ := readNumber_sound hnumber
          exact ⟨_, _, rfl, htext, .number ⟨parts, hvalid, rfl⟩, trivial⟩
        · cases h

/-- Where the start of a value stands, and what it is the start of. -/
def Begins (before text rest : Text) : Start → Prop
  | .leaf value => ∃ body, text = before ++ (body ++ rest) ∧
      Derives (.value (.leaf value)) body ∧ ScalarLeaf value
  | .container value => value = .array [] ∧ text = before ++ 91 :: rest ∨
      value = .object [] ∧ text = before ++ 123 :: rest

theorem readValue_sound (h : readValue text = .ok (begun, rest)) :
    ∃ before, Whitespace before ∧ Begins before text rest begun := by
  obtain ⟨before, hbefore, htext⟩ := whitespace_split text
  refine ⟨before, hbefore, ?_⟩
  unfold readValue at h
  cases hrest : whitespace text with
  | nil => rw [hrest] at h; cases h
  | cons unit tail =>
    rw [hrest] at h htext
    simp only [readStart] at h
    split at h
    · next hquote =>
      cases hstring : readString tail with
      | error refusal => rw [hstring] at h; cases h
      | ok read =>
        obtain ⟨value, after⟩ := read
        rw [hstring] at h
        obtain ⟨rfl, rfl⟩ := Prod.mk.inj (Except.ok.inj h)
        obtain ⟨source, hchars, hscalar, htail⟩ := readString_sound hstring
        refine ⟨34 :: (source ++ [34]), ?_, .string ⟨source, hchars, rfl⟩, hscalar⟩
        rw [htext, hquote, htail]
        simp
    · split at h
      · next hobject =>
        obtain ⟨rfl, rfl⟩ := Prod.mk.inj (Except.ok.inj h)
        exact .inr ⟨rfl, hobject ▸ htext⟩
      · split at h
        · next harray =>
          obtain ⟨rfl, rfl⟩ := Prod.mk.inj (Except.ok.inj h)
          exact .inl ⟨rfl, harray ▸ htext⟩
        · obtain ⟨value, body, rfl, hbody, hderives, hscalar⟩ := readLiteral_sound h
          exact ⟨body, by rw [htext, hbody], hderives, hscalar⟩

end Tokens

section Soundness

/-- The text that takes a container from a frame state to its closing delimiter, deriving `form`
for the children still to come; `none_` says that there are none. -/
inductive Remains (close : ℕ) (form : Form) (none_ : Prop) : FrameState → Text → Prop
  | close {state : FrameState} {closing : Text} (ready : state ≠ .next) (empty : none_)
      (delimiter : Structural close closing) : Remains close form none_ state closing
  | children {state : FrameState} {before body closing : Text} (ready : state ≠ .after)
      (space : Whitespace before) (derives : Derives form body)
      (delimiter : Structural close closing) :
      Remains close form none_ state (before ++ (body ++ closing))
  | more {comma body closing : Text} (separator : Structural 44 comma) (derives : Derives form body)
      (delimiter : Structural close closing) :
      Remains close form none_ .after (comma ++ (body ++ closing))

/-- A text completes an open container to the value that a program then holds. -/
inductive Finishes : Container JsonLeaf → FrameState → Text → JsonTree JsonLeaf → Prop
  | array {done more : List (JsonTree JsonLeaf)} {state : FrameState} {text : Text}
      (remains : Remains 93 (.items more) (more = []) state text)
      (children : ∀ item ∈ more, Admissible item) :
      Finishes (.array done) state text (.array (done ++ more.map JsonTree.enumerated))
  | object {done more : List (Text × JsonTree JsonLeaf)} {state : FrameState} {text : Text}
      (remains : Remains 125 (.members more) (more = []) state text)
      (distinct : (done.map Prod.fst).Nodup → ((done ++ more).map Prod.fst).Nodup)
      (names : ∀ member ∈ more, ¬ HasLoneSurrogate member.1)
      (children : ∀ member ∈ more, Admissible member.2) :
      Finishes (.object done) state text
        (.object (enumeration (done ++ more.map (Prod.map id JsonTree.enumerated))))

variable {before : Text}

theorem structural_of {after : Text} (unit : ℕ) (hbefore : Whitespace before)
    (hafter : Whitespace after) : Structural unit (before ++ unit :: after) :=
  ⟨before, after, hbefore, hafter, rfl⟩

theorem structural_end (unit : ℕ) (hbefore : Whitespace before) :
    Structural unit (before ++ [unit]) :=
  structural_of unit hbefore whitespace_nil

variable {text : Text}

theorem Remains.comma {close : ℕ} {form : Form} {none_ : Prop}
    (h : Remains close form none_ .next text) (hbefore : Whitespace before) :
    Remains close form none_ .after (before ++ 44 :: text) := by
  generalize hstate : FrameState.next = state at h
  cases h with
  | close ready _ _ => exact absurd hstate.symm ready
  | @children _ space body closing _ hspace derives delimiter =>
    have : Remains close form none_ .after _ :=
      .more (structural_of 44 hbefore hspace) derives delimiter
    simpa using this
  | more _ _ _ => cases hstate

variable {value : JsonTree JsonLeaf}

theorem Finishes.comma {container : Container JsonLeaf}
    (h : Finishes container .next text value) (hbefore : Whitespace before) :
    Finishes container .after (before ++ 44 :: text) value := by
  cases h with
  | array remains children => exact .array (remains.comma hbefore) children
  | object remains distinct names children =>
    exact .object (remains.comma hbefore) distinct names children

variable {state : FrameState}

theorem finishes_close {container : Container JsonLeaf}
    (hstate : state ≠ .next) (hbefore : Whitespace before) :
    Finishes container state (before ++ [container.close]) container.tree := by
  cases container with
  | array done =>
    have : Finishes (.array done) state _ (.array (done ++ [].map JsonTree.enumerated)) :=
      .array (.close hstate rfl (structural_end 93 hbefore)) (by simp)
    rw [List.map_nil, List.append_nil] at this
    exact this
  | object done =>
    have : Finishes (.object done) state _
        (.object (enumeration (done ++ [].map (Prod.map id JsonTree.enumerated)))) :=
      .object (.close hstate rfl (structural_end 125 hbefore)) (by simp) (by simp) (by simp)
    rw [List.map_nil, List.append_nil] at this
    exact this

theorem Finishes.item {done : List (JsonTree JsonLeaf)}
    {body : Text} {item : JsonTree JsonLeaf} (hstate : state ≠ .after)
    (hbefore : Whitespace before) (hbody : Derives (.value item) body) (hitem : Admissible item)
    (h : Finishes (.array (done ++ [item.enumerated])) .after text value) :
    Finishes (.array done) state (before ++ (body ++ text)) value := by
  cases h with
  | @array _ more _ _ remains children =>
    have hchildren : ∀ child ∈ item :: more, Admissible child :=
      List.forall_mem_cons.mpr ⟨hitem, children⟩
    have hremains : Remains 93 (.items (item :: more)) (item :: more = []) state
        (before ++ (body ++ text)) := by
      cases remains with
      | close _ empty delimiter =>
        subst empty
        exact .children hstate hbefore (.item hbody) delimiter
      | children ready _ _ _ => exact absurd rfl ready
      | more separator derives delimiter =>
        have : Remains 93 (.items (item :: more)) (item :: more = []) state _ :=
          .children hstate hbefore (.moreItems hbody separator derives) delimiter
        simpa using this
    have : Finishes (.array done) state _ (.array (done ++ (item :: more).map _)) :=
      .array hremains hchildren
    simpa using this

theorem Finishes.member {done : List (Text × JsonTree JsonLeaf)}
    {name spelled colon body : Text} {item : JsonTree JsonLeaf}
    (hstate : state ≠ .after) (hbefore : Whitespace before) (hspelled : IsString name spelled)
    (hname : ¬ HasLoneSurrogate name) (hfresh : name ∉ done.map Prod.fst)
    (hcolon : Structural 58 colon) (hbody : Derives (.value item) body) (hitem : Admissible item)
    (h : Finishes (.object (done ++ [(name, item.enumerated)])) .after text value) :
    Finishes (.object done) state (before ++ (spelled ++ (colon ++ (body ++ text)))) value := by
  cases h with
  | @object _ more _ _ remains distinct names children =>
    have hnames : ∀ member ∈ (name, item) :: more, ¬ HasLoneSurrogate member.1 :=
      List.forall_mem_cons.mpr ⟨hname, names⟩
    have hchildren : ∀ member ∈ (name, item) :: more, Admissible member.2 :=
      List.forall_mem_cons.mpr ⟨hitem, children⟩
    have hdistinct : (done.map Prod.fst).Nodup →
        ((done ++ (name, item) :: more).map Prod.fst).Nodup := by
      intro hdone
      have hadded : ((done ++ [(name, item.enumerated)]).map Prod.fst).Nodup := by
        rw [List.map_append]
        exact List.nodup_append.mpr ⟨hdone, by simp, by rintro x hx y hy rfl; simp_all⟩
      simpa using distinct hadded
    have hremains : Remains 125 (.members ((name, item) :: more)) ((name, item) :: more = []) state
        (before ++ (spelled ++ (colon ++ (body ++ text)))) := by
      cases remains with
      | close _ empty delimiter =>
        subst empty
        have : Remains 125 (.members [(name, item)]) ([(name, item)] = []) state _ :=
          .children hstate hbefore (.member hspelled hcolon hbody) delimiter
        simpa using this
      | children ready _ _ _ => exact absurd rfl ready
      | more separator derives delimiter =>
        have : Remains 125 (.members ((name, item) :: more)) ((name, item) :: more = []) state _ :=
          .children hstate hbefore (.moreMembers hspelled hcolon hbody separator derives) delimiter
        simpa using this
    have : Finishes (.object done) state _
        (.object (enumeration (done ++ ((name, item) :: more).map (Prod.map id _)))) :=
      .object hremains hdistinct hnames hchildren
    simpa using this

theorem Finishes.derives_array
    (hbefore : Whitespace before) (h : Finishes (.array []) .first text value) :
    ∃ tree body space, Whitespace space ∧ Derives (.value tree) body ∧ Admissible tree ∧
      before ++ 91 :: text = space ++ body ∧ value = tree.enumerated := by
  generalize hstate : FrameState.first = state at h
  cases h with
  | @array _ more _ _ remains children =>
    refine ⟨.array more, before ++ 91 :: text, [], whitespace_nil, ?_, .array children, rfl, ?_⟩
    · cases remains with
      | close _ empty delimiter =>
        subst empty
        have := Derives.emptyArray (structural_end 91 hbefore) delimiter
        simpa using this
      | children _ space derives delimiter =>
        have := Derives.array (structural_of 91 hbefore space) derives delimiter
        simpa using this
      | more _ _ _ => cases hstate
    · rw [JsonTree.enumerated, JsonTree.enumeratedItems_eq_map, List.nil_append]

theorem Finishes.derives_object
    (hbefore : Whitespace before) (h : Finishes (.object []) .first text value) :
    ∃ tree body space, Whitespace space ∧ Derives (.value tree) body ∧ Admissible tree ∧
      before ++ 123 :: text = space ++ body ∧ value = tree.enumerated := by
  generalize hstate : FrameState.first = state at h
  cases h with
  | @object _ more _ _ remains distinct names children =>
    refine ⟨.object more, before ++ 123 :: text, [], whitespace_nil, ?_,
      .object (distinct (by simp)) names children, rfl, ?_⟩
    · cases remains with
      | close _ empty delimiter =>
        subst empty
        have := Derives.emptyObject (structural_end 123 hbefore) delimiter
        simpa using this
      | children _ space derives delimiter =>
        have := Derives.object (structural_of 123 hbefore space) derives delimiter
        simpa using this
      | more _ _ _ => cases hstate
    · rw [JsonTree.enumerated, JsonTree.enumeratedMembers_eq_map, List.nil_append]

/-- What a successful run from an open container over a text of at most `bound` units has done:
it has completed the container, and runs on from there. -/
def RunsThrough (bound : ℕ) : Prop :=
  ∀ {container : Container JsonLeaf} {state : FrameState} {below : List Frame} {rest : Text}
    {tree : JsonTree JsonLeaf}, rest.length ≤ bound →
    run (.building ⟨container, state, []⟩ below rest) = .ok tree →
    ∃ text rest' value, rest = text ++ rest' ∧ Finishes container state text value ∧
      run (complete value below rest') = .ok tree

variable {rest : Text}

theorem value_sound {bound : ℕ} (hruns : RunsThrough bound)
    {below : List Frame} {tree : JsonTree JsonLeaf} (hbound : rest.length ≤ bound)
    (hread : readValue text = .ok (begun, rest)) (hrun : run (start begun below rest) = .ok tree) :
    ∃ item before body rest', Whitespace before ∧ Derives (.value item) body ∧ Admissible item ∧
      text = before ++ (body ++ rest') ∧ rest'.length ≤ rest.length ∧
      run (complete item.enumerated below rest') = .ok tree := by
  obtain ⟨before, hbefore, hbegins⟩ := readValue_sound hread
  cases begun with
  | leaf value =>
    obtain ⟨body, htext, hderives, hscalar⟩ := hbegins
    exact ⟨.leaf value, before, body, rest, hbefore, hderives, .leaf hscalar, htext, le_refl _, hrun⟩
  | container value =>
    obtain ⟨text', rest', value', hrest, hfinishes, hcomplete⟩ := hruns hbound hrun
    have hlength : rest'.length ≤ rest.length := by
      rw [hrest, List.length_append]
      exact Nat.le_add_left _ _
    rcases hbegins with ⟨rfl, htext⟩ | ⟨rfl, htext⟩
    · obtain ⟨item, body, space, hspace, hderives, hitem, hbody, rfl⟩ :=
        hfinishes.derives_array hbefore
      refine ⟨item, space, body, rest', hspace, hderives, hitem, ?_, hlength, hcomplete⟩
      calc text = before ++ 91 :: rest := htext
        _ = (before ++ 91 :: text') ++ rest' := by simp [hrest]
        _ = space ++ (body ++ rest') := by rw [hbody, List.append_assoc]
    · obtain ⟨item, body, space, hspace, hderives, hitem, hbody, rfl⟩ :=
        hfinishes.derives_object hbefore
      refine ⟨item, space, body, rest', hspace, hderives, hitem, ?_, hlength, hcomplete⟩
      calc text = before ++ 123 :: rest := htext
        _ = (before ++ 123 :: text') ++ rest' := by simp [hrest]
        _ = space ++ (body ++ rest') := by rw [hbody, List.append_assoc]

theorem readKey_array {done : List (JsonTree JsonLeaf)} {key : Text}
    (h : readKey (.array done) text = .ok (key, rest)) : key = [] ∧ rest = text := by
  obtain ⟨rfl, rfl⟩ := Prod.mk.inj (Except.ok.inj h)
  exact ⟨rfl, rfl⟩

theorem readKey_object {done : List (Text × JsonTree JsonLeaf)} {key : Text}
    (h : readKey (.object done) text = .ok (key, rest)) :
    ∃ spelled before, IsString key spelled ∧ ¬ HasLoneSurrogate key ∧ key ∉ done.map Prod.fst ∧
      Whitespace before ∧ text = spelled ++ (before ++ 58 :: rest) := by
  simp only [readKey] at h
  split at h
  · cases h
  · next hquote =>
    split at h
    · cases h
    · next name tail hstring =>
      split at h
      · cases h
      · next hfresh =>
        split at h
        · cases h
        · next hcolon =>
          obtain ⟨rfl, rfl⟩ := Prod.mk.inj (Except.ok.inj h)
          obtain ⟨source, hchars, hscalar, htail⟩ := readString_sound hstring
          obtain ⟨before, hbefore, hspace⟩ := whitespace_split tail
          simp only [ne_eq, not_not] at hquote hcolon
          refine ⟨34 :: (source ++ [34]), before, ⟨source, hchars, rfl⟩, hscalar, hfresh, hbefore,
            ?_⟩
          have hbody : text = 34 :: text.tail := (List.cons_head?_tail hquote).symm
          have hafter : whitespace tail = 58 :: (whitespace tail).tail :=
            (List.cons_head?_tail hcolon).symm
          calc text = 34 :: (source ++ 34 :: tail) := by rw [hbody, htail]
            _ = 34 :: (source ++ 34 :: (before ++ whitespace tail)) := by rw [← hspace]
            _ = 34 :: (source ++ 34 :: (before ++ 58 :: (whitespace tail).tail)) := by rw [← hafter]
            _ = _ := by simp

theorem runsThrough (bound : ℕ) : RunsThrough bound := by
  induction bound with
  | zero =>
    intro container state below rest tree hbound hrun
    obtain ⟨next, hstep, _⟩ := run_building_ok hrun
    have := step_decreases hstep
    omega
  | succ bound ih =>
    intro container state below rest tree hbound hrun
    obtain ⟨next, hstep, hnext⟩ := run_building_ok hrun
    have hdecreases := step_decreases hstep
    obtain ⟨before, hbefore, hrest⟩ := whitespace_split rest
    simp only [step] at hstep
    split at hstep
    · next hclose =>
      obtain rfl := Except.ok.inj hstep
      have hhead := List.cons_head?_tail hclose.1
      refine ⟨before ++ [container.close], (whitespace rest).tail, container.tree, ?_,
        finishes_close hclose.2 hbefore, hnext⟩
      calc rest = before ++ whitespace rest := hrest
        _ = before ++ container.close :: (whitespace rest).tail := by rw [hhead]
        _ = _ := by simp
    · split at hstep
      · next hafter =>
        subst hafter
        split at hstep
        · next hcomma =>
          obtain rfl := Except.ok.inj hstep
          have hhead := List.cons_head?_tail hcomma
          have hlength : (whitespace rest).tail.length < rest.length := hdecreases
          obtain ⟨text, rest', value, htail, hfinishes, hcomplete⟩ := ih (by omega) hnext
          refine ⟨before ++ 44 :: text, rest', value, ?_, hfinishes.comma hbefore, hcomplete⟩
          calc rest = before ++ whitespace rest := hrest
            _ = before ++ 44 :: (whitespace rest).tail := by rw [hhead]
            _ = before ++ 44 :: (text ++ rest') := by rw [htail]
            _ = _ := by simp
        · cases hstep
      · next hafter =>
        split at hstep
        · cases hstep
        · next key keyRest hkey =>
          split at hstep
          · cases hstep
          · next child childRest hvalue =>
            obtain rfl := Except.ok.inj hstep
            rw [start_rest] at hdecreases
            obtain ⟨item, space, body, rest', hspace, hbody, hitem, hkeyRest, hlength, hitemRun⟩ :=
              value_sound ih (by omega) hvalue hnext
            obtain ⟨text, rest'', value, htail, hfinishes, hcomplete⟩ := ih (by omega) hitemRun
            cases container with
            | array done =>
              obtain ⟨rfl, rfl⟩ := readKey_array hkey
              refine ⟨(before ++ space) ++ (body ++ text), rest'', value, ?_,
                hfinishes.item hafter (List.forall_mem_append.mpr ⟨hbefore, hspace⟩) hbody hitem,
                hcomplete⟩
              rw [hrest, hkeyRest, htail]
              simp
            | object done =>
              obtain ⟨spelled, colonSpace, hspelled, hname, hfresh, hcolonSpace, hkeyText⟩ :=
                readKey_object hkey
              refine ⟨before ++ (spelled ++ ((colonSpace ++ 58 :: space) ++ (body ++ text))), rest'',
                value, ?_, hfinishes.member hafter hbefore hspelled hname hfresh
                  (structural_of 58 hcolonSpace hspace) hbody hitem, hcomplete⟩
              rw [hrest, hkeyText, hkeyRest, htail]
              simp

theorem scanDocument_sound (h : scanDocument text = .ok value) :
    ∃ tree, IsDocument tree text ∧ Admissible tree ∧ value = tree.enumerated := by
  unfold scanDocument at h
  split at h
  · cases h
  · next begun rest hread =>
    obtain ⟨item, before, body, rest', hbefore, hbody, hitem, htext, _, hrun⟩ :=
      value_sound (runsThrough rest.length) (le_refl _) hread h
    rw [complete, run] at hrun
    split at hrun
    · next hspace =>
      obtain ⟨after, hafter, hrest⟩ := whitespace_split rest'
      rw [hspace, List.append_nil] at hrest
      refine ⟨item, ⟨before, body, after, hbefore, hafter, hbody, ?_⟩, hitem,
        (Except.ok.inj hrun).symm⟩
      rw [htext, hrest]
    · cases hrun

end Soundness

end Bdp.Admission
