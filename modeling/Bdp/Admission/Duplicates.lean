import Bdp.Admission.Acceptance
import Bdp.Library.JsonNames

/-!
# The refusal of repeated names

A document of the grammar whose strings are scalar Unicode is refused by the decoder exactly when
one of its objects has two members of one decoded name, and then for that reason.
-/

namespace Bdp.Admission

open CodeUnits JsonGrammar
open JsonTree (Container Everywhere Repeats)
open List (append_assoc mem_cons_self)

/-- No name and no string of the tree has a lone surrogate. -/
abbrev ScalarTree (tree : JsonTree JsonLeaf) : Prop :=
  Everywhere (fun name ↦ ¬ HasLoneSurrogate name) ScalarLeaf tree

/-- A scan that is refused for a repeated name. -/
def Duplicated {α : Type} (result : Scan α) : Prop :=
  ∃ remaining, result = .error ⟨.duplicateName, remaining⟩

variable {text : Text}

section Steps

theorem nodup_fresh {names : List Text} {name : Text} (h : names.Nodup) (hfresh : name ∉ names) :
    (names ++ [name]).Nodup := by
  rw [← List.concat_eq_append]
  exact h.concat hfresh

theorem run_refused {frame : Frame} {below : List Frame} {refusal : Refusal}
    (h : step frame below text = .error refusal) :
    run (.building frame below text) = .error refusal := by
  rw [run]
  split
  · next h' =>
    rw [h] at h'
    rw [Except.error.inj h']
  · next h' =>
    rw [h] at h'
    cases h'

theorem run_duplicate {done : List (Text × JsonTree JsonLeaf)} {state : FrameState}
    (below : List Frame) {before name spelled : Text} (rest : Text) (hstate : state ≠ .after)
    (hbefore : Whitespace before) (hspelled : IsString name spelled)
    (hname : ¬ HasLoneSurrogate name) (htaken : name ∈ done.map Prod.fst) :
    Duplicated (run (.building ⟨.object done, state, []⟩ below (before ++ (spelled ++ rest)))) := by
  obtain ⟨source, hchars, rfl⟩ := hspelled
  have hspace := whitespace_structural hbefore (by decide : isWhitespace 34 = false)
    (source ++ 34 :: rest)
  have hstring := readString_complete hchars hname rest
  have htext : before ++ (34 :: (source ++ [34]) ++ rest) =
      before ++ 34 :: (source ++ 34 :: rest) := by simp
  have hclose : 34 ≠ (Container.object done).close := by
    simp [Container.close, Container.isObject]
  refine ⟨rest.length, ?_⟩
  rw [htext]
  apply run_refused
  have hkey : readKey (.object done) (34 :: (source ++ 34 :: rest)) =
      .error ⟨.duplicateName, rest.length⟩ := by
    simp only [readKey, List.head?_cons, ne_eq, not_true, if_false, List.tail_cons, hstring]
    exact if_pos htaken
  simp only [step, hspace, List.head?_cons, Option.some.injEq, hclose, false_and, if_false, hstate,
    hkey]

end Steps

section Refusals

/-- The scanner is refused for a repeated name inside a form. -/
def Stopped : Form → Text → Prop
  | .value tree, text => ScalarTree tree → tree.Repeats → ∀ (before rest : Text)
      (below : List Frame), Whitespace before → Delimited rest →
      ∃ begun rest', readValue (before ++ (text ++ rest)) = .ok (begun, rest') ∧
        Duplicated (run (start begun below rest'))
  | .items items, text => (∀ item ∈ items, ScalarTree item) → (∃ item ∈ items, item.Repeats) →
      ∀ (done : List (JsonTree JsonLeaf)) (state : FrameState) (before rest : Text)
        (below : List Frame), state ≠ .after → Whitespace before → Delimited rest →
      Duplicated (run (.building ⟨.array done, state, []⟩ below (before ++ (text ++ rest))))
  | .members members, text => (∀ member ∈ members, ¬ HasLoneSurrogate member.1) →
      (∀ member ∈ members, ScalarTree member.2) →
      ∀ (done : List (Text × JsonTree JsonLeaf)) (state : FrameState) (before rest : Text)
        (below : List Frame), (done.map Prod.fst).Nodup →
      (¬ (done.map Prod.fst ++ members.map Prod.fst).Nodup ∨ ∃ member ∈ members, member.2.Repeats) →
      state ≠ .after → Whitespace before → Delimited rest →
      Duplicated (run (.building ⟨.object done, state, []⟩ below (before ++ (text ++ rest))))

theorem stopped {form : Form} (h : Derives form text) : Stopped form text := by
  induction h with
  | null => exact fun _ h ↦ nomatch h
  | true => exact fun _ h ↦ nomatch h
  | false => exact fun _ h ↦ nomatch h
  | number => exact fun _ h ↦ nomatch h
  | string => exact fun _ h ↦ nomatch h
  | emptyArray =>
    intro _ hrepeats
    obtain ⟨item, hitem, -⟩ := JsonTree.repeats_array.mp hrepeats
    cases hitem
  | @array items opening text closing open_ _ close ih =>
    intro hscalar hrepeats before rest below hbefore _
    cases hscalar with
    | array children =>
      obtain ⟨after, hafter, hread⟩ :=
        readValue_open (.inl ⟨rfl, rfl⟩) hbefore open_ (text ++ (closing ++ rest))
      refine ⟨_, _, by rw [append_assoc, append_assoc, hread], ?_⟩
      exact ih children (JsonTree.repeats_array.mp hrepeats) [] .first after _ below (by decide)
        hafter (delimited_structural (.inl rfl) close rest)
  | emptyObject =>
    intro _ hrepeats
    obtain htwice | ⟨member, hmember, -⟩ := JsonTree.repeats_object.mp hrepeats
    · exact absurd List.nodup_nil htwice
    · cases hmember
  | @object members opening text closing open_ _ close ih =>
    intro hscalar hrepeats before rest below hbefore _
    cases hscalar with
    | object names children =>
      obtain ⟨after, hafter, hread⟩ :=
        readValue_open (.inr ⟨rfl, rfl⟩) hbefore open_ (text ++ (closing ++ rest))
      refine ⟨_, _, by rw [append_assoc, append_assoc, hread], ?_⟩
      exact ih names children [] .first after _ below List.nodup_nil
        (JsonTree.repeats_object.mp hrepeats) (by decide) hafter
        (delimited_structural (.inr (.inl rfl)) close rest)
  | @item item text _ ih =>
    intro hscalar hrepeats done state before rest below hstate hbefore hrest
    obtain ⟨child, hchild, hinside⟩ := hrepeats
    obtain rfl := List.mem_singleton.mp hchild
    obtain ⟨begun, rest', hread, hrun⟩ := ih (hscalar child hchild) hinside before rest
      (⟨.array done, .after, []⟩ :: below) hbefore hrest
    rw [run_item hstate hread]
    exact hrun
  | @moreItems item items text separator more hvalue comma _ ihItem ihItems =>
    intro hscalar hrepeats done state before rest below hstate hbefore hrest
    have hdelimited := delimited_structural (.inr (.inr rfl)) comma (more ++ rest)
    have hitem := hscalar item mem_cons_self
    rw [append_assoc, append_assoc]
    by_cases hinside : item.Repeats
    · obtain ⟨begun, rest', hread, hrun⟩ := ihItem hitem hinside before _
        (⟨.array done, .after, []⟩ :: below) hbefore hdelimited
      rw [run_item hstate hread]
      exact hrun
    · obtain ⟨begun, rest', hread, hrun⟩ := driven hvalue
        (JsonTree.wellNamed_iff.mpr ⟨hitem, hinside⟩) before _
        (⟨.array done, .after, []⟩ :: below) hbefore hdelimited
      obtain ⟨after, hafter, hcomma⟩ :=
        run_comma (.array (done ++ [item.enumerated])) comma below (more ++ rest)
      rw [run_item hstate hread, hrun]
      change Duplicated (run (.building ⟨.array (done ++ [item.enumerated]), .after, []⟩ below
        (separator ++ (more ++ rest))))
      rw [hcomma]
      refine ihItems (fun child hchild ↦ hscalar child (List.mem_cons_of_mem _ hchild)) ?_
        (done ++ [item.enumerated]) .next after rest below (by decide) hafter hrest
      obtain ⟨child, hchild, hrepeats⟩ := hrepeats
      obtain rfl | hmember := List.mem_cons.mp hchild
      · exact absurd hrepeats hinside
      · exact ⟨child, hmember, hrepeats⟩
  | @member name spelled value separator text named colon _ ih =>
    intro hnames hscalar done state before rest below hdone hrepeats hstate hbefore hrest
    have hname := hnames _ mem_cons_self
    have htext : before ++ (spelled ++ (separator ++ text) ++ rest) =
        before ++ (spelled ++ (separator ++ (text ++ rest))) := by simp
    rw [htext]
    by_cases htaken : name ∈ done.map Prod.fst
    · exact run_duplicate below _ hstate hbefore named hname htaken
    · have hinside : value.Repeats := by
        obtain htwice | ⟨member, hmember, hinside⟩ := hrepeats
        · exact absurd (nodup_fresh hdone htaken) htwice
        · obtain rfl := List.mem_singleton.mp hmember
          exact hinside
      obtain ⟨begun, rest', hread, hrun⟩ := ih (hscalar _ mem_cons_self) hinside [] rest
        (⟨.object done, .after, name⟩ :: below) whitespace_nil hrest
      have hmember := run_member below hstate hbefore named hname htaken colon hread
      rw [List.nil_append] at hmember
      rw [hmember]
      exact hrun
  | @moreMembers name spelled value members separator text comma more named colon hvalue next _
      ihValue ihMembers =>
    intro hnames hscalar done state before rest below hdone hrepeats hstate hbefore hrest
    have hname := hnames _ mem_cons_self
    have hdelimited := delimited_structural (.inr (.inr rfl)) next (more ++ rest)
    have htext : before ++ (spelled ++ (separator ++ (text ++ (comma ++ more))) ++ rest) =
        before ++ (spelled ++ (separator ++ (text ++ (comma ++ (more ++ rest))))) := by simp
    rw [htext]
    by_cases htaken : name ∈ done.map Prod.fst
    · exact run_duplicate below _ hstate hbefore named hname htaken
    · by_cases hinside : value.Repeats
      · obtain ⟨begun, rest', hread, hrun⟩ := ihValue (hscalar _ mem_cons_self) hinside [] _
          (⟨.object done, .after, name⟩ :: below) whitespace_nil hdelimited
        have hmember := run_member below hstate hbefore named hname htaken colon hread
        rw [List.nil_append] at hmember
        rw [hmember]
        exact hrun
      · obtain ⟨begun, rest', hread, hrun⟩ := driven hvalue
          (JsonTree.wellNamed_iff.mpr ⟨hscalar _ mem_cons_self, hinside⟩) [] _
          (⟨.object done, .after, name⟩ :: below) whitespace_nil hdelimited
        have hmember := run_member below hstate hbefore named hname htaken colon hread
        obtain ⟨after, hafter, hcomma⟩ :=
          run_comma (.object (done ++ [(name, value.enumerated)])) next below (more ++ rest)
        rw [List.nil_append] at hmember
        rw [hmember, hrun]
        change Duplicated (run (.building
          ⟨.object (done ++ [(name, value.enumerated)]), .after, []⟩ below
          (comma ++ (more ++ rest))))
        rw [hcomma]
        have hmore : ((done ++ [(name, value.enumerated)]).map Prod.fst).Nodup := by
          rw [List.map_append]
          exact nodup_fresh hdone htaken
        refine ihMembers (fun child hchild ↦ hnames child (List.mem_cons_of_mem _ hchild))
          (fun child hchild ↦ hscalar child (List.mem_cons_of_mem _ hchild))
          (done ++ [(name, value.enumerated)]) .next after rest below hmore ?_ (by decide) hafter
          hrest
        obtain htwice | ⟨child, hchild, hrepeats⟩ := hrepeats
        · exact .inl (by simpa using htwice)
        · obtain rfl | hlater := List.mem_cons.mp hchild
          · exact absurd hrepeats hinside
          · exact .inr ⟨child, hlater, hrepeats⟩

/-- A document of scalar strings is decoded when no name is repeated, and otherwise refused for a
repeated name. -/
theorem decodeJsonDocument_document {tree : JsonTree JsonLeaf}
    (h : IsDocument tree text) (hscalar : ScalarTree tree) :
    (¬ tree.Repeats → decodeJsonDocument text = .ok tree.enumerated) ∧
      (tree.Repeats → ∃ offset, decodeJsonDocument text =
        .error ⟨SyntaxProblem.duplicateName.message, offset⟩) := by
  constructor
  · intro hunique
    exact (decodeJsonDocument_eq_ok_iff text _).mpr
      ⟨tree, h, JsonTree.wellNamed_iff.mpr ⟨hscalar, hunique⟩, rfl⟩
  · intro hrepeats
    obtain ⟨before, body, after, hbefore, hafter, hderives, rfl⟩ := h
    have hdelimited : Delimited after := by simpa using delimited_whitespace hafter delimited_nil
    obtain ⟨begun, rest, hread, remaining, hrun⟩ :=
      stopped hderives hscalar hrepeats before after [] hbefore hdelimited
    refine ⟨(before ++ (body ++ after)).length - remaining, ?_⟩
    simp only [decodeJsonDocument, scanDocument, hread, hrun]
    rfl

end Refusals

end Bdp.Admission
