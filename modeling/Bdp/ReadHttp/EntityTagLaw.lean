import Bdp.ReadHttp.EntityTags

/-!
# Laws of entity tags

A revision's entity tag is a strong one and determines the revision. The loop over a list accepts
exactly the lists of the grammar and compares each of their tags, so that a conditional read comes
to the status of the evaluation, except at an asterisk in stray white space, which is taken for
`*`.
-/

namespace Bdp.ReadHttp

open CodeUnits

section Revisions

theorem isWellFormedUnicode_iff (text : Text) :
    isWellFormedUnicode text = true ↔ ¬ HasLoneSurrogate text := by
  fun_induction isWellFormedUnicode text with
  | case1 => simp [not_hasLoneSurrogate_nil]
  | case2 code hhigh =>
    simp only [Bool.false_eq_true, false_iff, not_not]
    exact ⟨[], code, [], rfl, .inl ⟨hhigh, by simp⟩⟩
  | case3 code hhigh following rest hlow ih => rw [ih, hasLoneSurrogate_pair hhigh hlow]
  | case4 code hhigh following rest hlow =>
    simp only [Bool.false_eq_true, false_iff, not_not]
    exact ⟨[], code, following :: rest, rfl, .inl ⟨hhigh, by simpa using hlow⟩⟩
  | case5 code rest hhigh hlow =>
    simp only [Bool.false_eq_true, false_iff, not_not]
    exact ⟨[], code, rest, rfl, .inr ⟨hlow, by simp⟩⟩
  | case6 code rest hhigh hlow ih =>
    rw [ih, hasLoneSurrogate_cons (by simpa using hhigh) (by simpa using hlow)]

theorem unitUtf8_ascii {unit : ℕ} (h : ∀ byte ∈ unitUtf8 unit, byte < 0x80) :
    unit < 0x80 ∧ unitUtf8 unit = [unit] := by
  by_cases hsmall : unit < 0x80
  · exact ⟨hsmall, if_pos hsmall⟩
  · unfold unitUtf8 at h
    rw [if_neg hsmall] at h
    split at h
    · have := h _ List.mem_cons_self
      omega
    · have := h _ List.mem_cons_self
      omega

theorem utf8Bytes_ascii {text : Text} (h : ∀ byte ∈ utf8Bytes text, byte < 0x80) :
    utf8Bytes text = text := by
  fun_induction utf8Bytes text with
  | case1 => rfl
  | case2 unit =>
    obtain ⟨hsmall, hbytes⟩ := unitUtf8_ascii h
    rw [hbytes]
    split at hsmall
    · omega
    · next hlone => rw [if_neg hlone]
  | case3 unit next rest hpair ih =>
    have := h _ (List.mem_append_left _ List.mem_cons_self)
    omega
  | case4 unit next rest hpair ih =>
    obtain ⟨hunit, hrest⟩ := List.forall_mem_append.mp h
    obtain ⟨hsmall, hbytes⟩ := unitUtf8_ascii hunit
    rw [hbytes, ih hrest]
    split at hsmall
    · omega
    · next hlone => rw [if_neg hlone, List.singleton_append]

theorem isUnchanged_units {revision : Text} (h : isUnchanged revision = true) :
    ∀ unit ∈ revision, isTagUnit unit = true := by
  simp only [isUnchanged, Bool.and_eq_true, List.all_eq_true, Bool.or_eq_true, beq_iff_eq,
    decide_eq_true_eq] at h
  have hascii : ∀ byte ∈ utf8Bytes revision, byte < 0x80 := by
    intro byte hbyte
    have := h.2 byte hbyte
    omega
  rw [utf8Bytes_ascii hascii] at h
  intro unit hunit
  simp only [isTagUnit, Bool.or_eq_true, beq_iff_eq, decide_eq_true_eq]
  exact .inl (h.2 unit hunit)

theorem isTagUnit_base64 {letter : ℕ} (h : IsBase64Letter letter) : isTagUnit letter = true := by
  simp only [isTagUnit, Bool.or_eq_true, beq_iff_eq, decide_eq_true_eq]
  unfold IsBase64Letter at h
  omega

variable (revision : Text)

theorem revisionBody_units : ∀ unit ∈ revisionBody revision, isTagUnit unit = true := by
  have hencoded (marker : Text) (hmarker : ∀ unit ∈ marker, isTagUnit unit = true)
      (bytes : List ℕ) : ∀ unit ∈ marker ++ base64Url bytes, isTagUnit unit = true :=
    List.forall_mem_append.mpr
      ⟨hmarker, fun _ hunit ↦ isTagUnit_base64 (isBase64Letter_base64Url _ _ hunit)⟩
  unfold revisionBody
  split
  · next h =>
    simp only [Bool.and_eq_true] at h
    exact isUnchanged_units h.1.1
  · split
    · exact hencoded bytesMarker (by decide) _
    · exact hencoded unitsMarker (by decide) _

theorem revisionBody_cases :
    (revisionBody revision = revision ∧ ¬ bytesMarker <+: revision ∧ ¬ unitsMarker <+: revision) ∨
      (revisionBody revision = bytesMarker ++ base64Url (utf8Bytes revision) ∧
        ¬ HasLoneSurrogate revision) ∨
      revisionBody revision = unitsMarker ++ base64Url (utf16Bytes revision) := by
  unfold revisionBody
  split
  · next h =>
    simp only [Bool.and_eq_true, Bool.not_eq_true', ← Bool.not_eq_true, List.isPrefixOf_iff_prefix]
      at h
    exact .inl ⟨rfl, h.1.2, h.2⟩
  · split
    · next h => exact .inr (.inl ⟨rfl, (isWellFormedUnicode_iff revision).mp h⟩)
    · exact .inr (.inr rfl)

theorem base64Url_injective {left right : List ℕ} (hleft : ∀ byte ∈ left, byte < 0x100)
    (hright : ∀ byte ∈ right, byte < 0x100) (h : base64Url left = base64Url right) :
    left = right := by
  rw [← base64Bytes_base64Url hleft, h, base64Bytes_base64Url hright]

variable {right left : Text}

theorem revisionBody_injective (hleft : ∀ unit ∈ left, unit < 0x10000)
    (hright : ∀ unit ∈ right, unit < 0x10000) (h : revisionBody left = revisionBody right) :
    left = right := by
  have hmarkers (first second : Text) : bytesMarker ++ first ≠ unitsMarker ++ second := by
    simp [bytesMarker, unitsMarker, ascii]
  obtain ⟨hl, hl64, hl16⟩ | ⟨hl, hlscalar⟩ | hl := revisionBody_cases left <;>
  obtain ⟨hr, hr64, hr16⟩ | ⟨hr, hrscalar⟩ | hr := revisionBody_cases right <;>
  rw [hl, hr] at h
  · exact h
  · exact absurd ⟨_, h.symm⟩ hl64
  · exact absurd ⟨_, h.symm⟩ hl16
  · exact absurd ⟨_, h⟩ hr64
  · have hbytes := base64Url_injective (utf8Bytes_lt hleft) (utf8Bytes_lt hright)
      (List.append_cancel_left h)
    rw [← utf8Text_utf8Bytes hleft hlscalar, hbytes, utf8Text_utf8Bytes hright hrscalar]
  · exact absurd h (hmarkers _ _)
  · exact absurd ⟨_, h⟩ hr16
  · exact absurd h.symm (hmarkers _ _)
  · have hbytes := base64Url_injective (utf16Bytes_lt hleft) (utf16Bytes_lt hright)
      (List.append_cancel_left h)
    rw [← utf16Text_utf16Bytes left, hbytes, utf16Text_utf16Bytes]

theorem resourceRevisionEtag_eq_iff (hleft : ∀ unit ∈ left, unit < 0x10000)
    (hright : ∀ unit ∈ right, unit < 0x10000) :
    resourceRevisionEtag left = resourceRevisionEtag right ↔ left = right := by
  refine ⟨fun h ↦ revisionBody_injective hleft hright ?_, fun h ↦ h ▸ rfl⟩
  exact List.append_cancel_right (List.cons.inj h).2

theorem resourceRevisionEtag_strong :
    ∃ tag : EntityTag, tag.weak = false ∧ tag.text = resourceRevisionEtag revision :=
  ⟨⟨false, revisionBody revision, revisionBody_units revision⟩, rfl, rfl⟩

end Revisions

section Tags

variable {text : Text}

theorem dropWhile_units {test : ℕ → Bool} {unit : ℕ}
    (h : ∀ unit ∈ text, test unit = true) (hunit : test unit = false) (rest : Text) :
    (text ++ unit :: rest).dropWhile test = unit :: rest ∧
      (text ++ unit :: rest).takeWhile test = text := by
  constructor
  · rw [List.dropWhile_append_of_pos h, List.dropWhile_cons_of_neg (by simp [hunit])]
  · rw [List.takeWhile_append_of_pos h, List.takeWhile_cons_of_neg (by simp [hunit]),
      List.append_nil]

theorem readQuoted_complete {body : Text} (h : ∀ unit ∈ body, isTagUnit unit = true) (rest : Text) :
    readQuoted (34 :: (body ++ 34 :: rest)) = some (34 :: (body ++ [34]), rest) := by
  obtain ⟨hdrop, htake⟩ := dropWhile_units h (by decide : isTagUnit 34 = false) rest
  simp only [readQuoted, hdrop, htake]

variable {candidate rest : Text}

theorem readQuoted_sound (h : readQuoted text = some (candidate, rest)) :
    ∃ body, (∀ unit ∈ body, isTagUnit unit = true) ∧ candidate = 34 :: (body ++ [34]) ∧
      text = 34 :: (body ++ 34 :: rest) := by
  unfold readQuoted at h
  split at h
  · next rest' =>
    split at h
    · next after hafter =>
      obtain ⟨rfl, rfl⟩ := Prod.mk.inj (Option.some.inj h)
      refine ⟨rest'.takeWhile isTagUnit, fun _ ↦ List.mem_takeWhile_imp, rfl, ?_⟩
      rw [← hafter, List.takeWhile_append_dropWhile]
    · cases h
  · cases h

variable (tag : EntityTag)

theorem readTag_complete (rest : Text) : readTag (tag.text ++ rest) = some (tag.text, rest) := by
  obtain ⟨weak, body, units⟩ := tag
  have hquoted := readQuoted_complete units rest
  cases weak with
  | true =>
    simp only [EntityTag.text, if_true, List.cons_append, List.nil_append, List.append_assoc,
      readTag, hquoted, Option.map_some]
  | false =>
    simp only [EntityTag.text, Bool.false_eq_true, if_false, List.nil_append, List.cons_append,
      List.append_assoc]
    exact hquoted

theorem readTag_sound (h : readTag text = some (candidate, rest)) :
    ∃ tag : EntityTag, candidate = tag.text ∧ text = tag.text ++ rest := by
  unfold readTag at h
  split at h
  · obtain ⟨⟨found, after⟩, hfound, heq⟩ := Option.map_eq_some_iff.mp h
    obtain ⟨rfl, rfl⟩ := Prod.mk.inj heq
    obtain ⟨body, units, rfl, rfl⟩ := readQuoted_sound hfound
    exact ⟨⟨true, body, units⟩, rfl, by simp [EntityTag.text]⟩
  · obtain ⟨body, units, rfl, rfl⟩ := readQuoted_sound h
    exact ⟨⟨false, body, units⟩, rfl, by simp [EntityTag.text]⟩

theorem startsWeak_text : startsWeak tag.text = tag.weak := by
  obtain ⟨weak, body, units⟩ := tag
  cases weak <;> rfl

theorem withoutWeak_text : withoutWeak tag.text = 34 :: (tag.body ++ [34]) := by
  obtain ⟨weak, body, units⟩ := tag
  cases weak <;> rfl

theorem tagMatches_iff (strong : Bool) (tag current : EntityTag) :
    tagMatches strong tag.text current.text = true ↔ tag.Matches strong current := by
  unfold tagMatches EntityTag.Matches
  cases strong with
  | true =>
    simp only [if_true, startsWeak_text, Bool.and_eq_true, Bool.not_eq_true', beq_iff_eq,
      forall_const]
    constructor
    · rintro ⟨⟨htag, hcurrent⟩, htext⟩
      simp only [EntityTag.text, htag, hcurrent, Bool.false_eq_true, if_false, List.nil_append,
        List.cons.injEq, List.append_cancel_right_eq, true_and] at htext
      exact ⟨htext, htag, hcurrent⟩
    · rintro ⟨hbody, htag, hcurrent⟩
      exact ⟨⟨htag, hcurrent⟩, by simp [EntityTag.text, htag, hcurrent, hbody]⟩
  | false => simp [withoutWeak_text]

end Tags

variable {tags : List EntityTag}

section Lists

variable {current : Option Text} {strong : Bool}
variable {text : Text}

theorem isSeparator_blank (h : Blank text) : ∀ unit ∈ text, isSeparator unit = true :=
  fun unit hunit ↦ by simp [isSeparator, h unit hunit]

theorem tag_head (tag : EntityTag) (rest : Text) :
    ∃ unit tail, tag.text ++ rest = unit :: tail ∧ isSeparator unit = false := by
  obtain ⟨weak, body, units⟩ := tag
  cases weak <;> exact ⟨_, _, rfl, rfl⟩

variable {before : Text}

theorem dropSeparators_tag (h : Blank before) (tag : EntityTag) (rest : Text) :
    (before ++ (tag.text ++ rest)).dropWhile isSeparator = tag.text ++ rest := by
  obtain ⟨unit, tail, htext, hunit⟩ := tag_head tag rest
  rw [htext]
  exact (dropWhile_units (isSeparator_blank h) hunit tail).1

variable (matched : Bool)

theorem matchTags_turn (text : Text) : matchTags current strong matched text =
      match text.dropWhile isSeparator with
      | [] => matched
      | unit :: tail =>
        match readTag (unit :: tail) with
        | none => false
        | some (candidate, rest) =>
          match rest.dropWhile isBlank with
          | [] => matched || current.any (tagMatches strong candidate)
          | 44 :: more =>
            matchTags current strong (matched || current.any (tagMatches strong candidate))
              (44 :: more)
          | _ => false := by
  rw [matchTags.eq_def]
  split
  · next h => simp only [h]
  · next unit tail h =>
    simp only [h]
    split
    · next h' => simp only [h']
    · next candidate rest h' =>
      simp only [h']
      split
      · next hend => simp only [hend]
      · next hmore => simp only [hmore]
      · next hne hother =>
        split
        · next hend => exact absurd hend hne
        · next more hmore => exact absurd hmore (hother more)
        · rfl

theorem matchTags_eq {other : Text} (h : text.dropWhile isSeparator = other.dropWhile isSeparator) :
    matchTags current strong matched text = matchTags current strong matched other := by
  rw [matchTags_turn, matchTags_turn, h]

theorem matchTags_end (h : text.dropWhile isSeparator = []) :
    matchTags current strong matched text = matched := by
  rw [matchTags_turn, h]

theorem matchTags_tag (h : Blank before) (tag : EntityTag) (rest : Text) (matched : Bool) :
    matchTags current strong matched (before ++ (tag.text ++ rest)) =
      match rest.dropWhile isBlank with
      | [] => matched || current.any (tagMatches strong tag.text)
      | 44 :: more =>
        matchTags current strong (matched || current.any (tagMatches strong tag.text)) (44 :: more)
      | _ => false := by
  have hread := readTag_complete tag rest
  obtain ⟨unit, tail, htext, -⟩ := tag_head tag rest
  rw [matchTags_turn, dropSeparators_tag h tag rest]
  rw [htext] at hread ⊢
  simp only [hread]

theorem dropBlanks (h : Blank text) : text.dropWhile isBlank = [] := List.dropWhile_eq_nil_iff.mpr h

theorem matchTags_comma (text : Text) (matched : Bool) :
    matchTags current strong matched (44 :: text) = matchTags current strong matched text :=
  matchTags_eq matched rfl

theorem matchTags_complete (h : TagList text tags) (matched : Bool) :
    matchTags current strong matched text =
      (matched || tags.any fun tag ↦ current.any (tagMatches strong tag.text)) := by
  induction h generalizing matched with
  | empty h =>
    rw [matchTags_end matched (List.dropWhile_eq_nil_iff.mpr (isSeparator_blank h))]
    simp
  | last tag hbefore hafter =>
    rw [matchTags_tag hbefore, dropBlanks hafter]
    simp
  | @skip blank rest tags h more ih =>
    rw [← ih matched]
    apply matchTags_eq
    rw [List.dropWhile_append_of_pos (isSeparator_blank h), List.dropWhile_cons_of_pos (by decide)]
  | @cons before after rest tags tag hbefore hafter more ih =>
    have hdrop := (dropWhile_units hafter (by decide : isBlank 44 = false) rest).1
    rw [matchTags_tag hbefore, hdrop]
    simp only [matchTags_comma, ih, List.any_cons, Bool.or_assoc]

theorem tagList_of_dropSeparators
    (h : ∀ before, Blank before → TagList (before ++ text.dropWhile isSeparator) tags)
    (before : Text) (hbefore : Blank before) : TagList (before ++ text) tags := by
  induction text generalizing before with
  | nil => exact h before hbefore
  | cons unit text ih =>
    by_cases hseparator : isSeparator unit = true
    · rw [List.dropWhile_cons_of_pos hseparator] at h
      by_cases hblank : isBlank unit = true
      · have hlonger : Blank (before ++ [unit]) :=
          List.forall_mem_append.mpr ⟨hbefore, List.forall_mem_singleton.mpr hblank⟩
        simpa using ih h (before ++ [unit]) hlonger
      · obtain rfl : unit = 44 := by simpa [isSeparator, hblank] using hseparator
        exact .skip hbefore (ih h [] nofun)
    · rw [List.dropWhile_cons_of_neg hseparator] at h
      exact h before hbefore

theorem matchTags_sound {matched : Bool}
    (h : matchTags current strong matched text = true) : ∃ tags, TagList text tags := by
  induction hlength : text.length using Nat.strong_induction_on generalizing text matched with
  | _ length ih =>
    subst hlength
    have hlist (tags : List EntityTag)
        (h : ∀ before, Blank before → TagList (before ++ text.dropWhile isSeparator) tags) :
        ∃ tags, TagList text tags :=
      ⟨tags, tagList_of_dropSeparators h [] nofun⟩
    rw [matchTags_turn] at h
    split at h
    · next hempty =>
      refine hlist [] fun before hbefore ↦ ?_
      rw [hempty, List.append_nil]
      exact .empty hbefore
    · next unit tail hstart =>
      split at h
      · cases h
      · next candidate rest hfound =>
        obtain ⟨tag, -, htext⟩ := readTag_sound hfound
        rw [htext] at hstart
        split at h
        · next hend =>
          have hafter : Blank rest := List.dropWhile_eq_nil_iff.mp hend
          refine hlist [tag] fun before hbefore ↦ ?_
          rw [hstart]
          exact .last tag hbefore hafter
        · next more hmore =>
          have hsplit : rest = rest.takeWhile isBlank ++ 44 :: more := by
            rw [← hmore, List.takeWhile_append_dropWhile]
          have hshorter : more.length < text.length := by
            have hdropped := (List.dropWhile_sublist isSeparator (l := text)).length_le
            have hrest := congrArg List.length hsplit
            rw [hstart] at hdropped
            simp only [List.length_append, List.length_cons] at hdropped hrest
            omega
          rw [matchTags_comma] at h
          obtain ⟨tags, htags⟩ := ih more.length hshorter h rfl
          refine hlist (tag :: tags) fun before hbefore ↦ ?_
          rw [hstart, hsplit]
          exact .cons tag hbefore (fun _ ↦ List.mem_takeWhile_imp) htags
        · cases h

theorem matchTags_iff {current : Option EntityTag} :
    matchTags (current.map EntityTag.text) strong false text = true ↔
      ∃ tags, TagList text tags ∧ ∃ tag ∈ tags, ∃ other ∈ current, tag.Matches strong other := by
  have hany (tags : List EntityTag) :
      (tags.any fun tag ↦ (current.map EntityTag.text).any (tagMatches strong tag.text)) = true ↔
        ∃ tag ∈ tags, ∃ other ∈ current, tag.Matches strong other := by
    simp only [List.any_eq_true]
    cases current with
    | none => simp
    | some other => simp [tagMatches_iff]
  constructor
  · intro h
    obtain ⟨tags, htags⟩ := matchTags_sound h
    rw [matchTags_complete htags, Bool.false_or] at h
    exact ⟨tags, htags, (hany tags).mp h⟩
  · rintro ⟨tags, htags, hfound⟩
    rw [matchTags_complete htags, Bool.false_or]
    exact (hany tags).mpr hfound

end Lists

section Conditions

variable {current : Option EntityTag} {strong : Bool} {value : Text}

theorem trim_anyTag (h : AnyTag value) : trim value = [42] := by
  obtain ⟨before, after, hbefore, hafter, rfl⟩ := h
  have htrimmed {text : Text} (h : Blank text) : ∀ unit ∈ text, isTrimmed unit = true := by
    intro unit hunit
    have := h unit hunit
    simp only [isBlank, Bool.or_eq_true, beq_iff_eq] at this
    obtain rfl | rfl := this <;> rfl
  have hstart := (dropWhile_units (htrimmed hbefore) (by decide : isTrimmed 42 = false)
    after).1
  have hend : ∀ unit ∈ after.reverse, isTrimmed unit = true := fun unit hunit ↦
    htrimmed hafter unit (List.mem_reverse.mp hunit)
  rw [trim, hstart, List.rdropWhile, List.reverse_cons,
    (dropWhile_units hend (by decide : isTrimmed 42 = false) []).1]
  rfl

variable {text : Text}

theorem trim_asterisk (h : trim text = [42]) :
    42 ∈ text ∧ ∀ unit ∈ text, isTrimmed unit = true ∨ unit = 42 := by
  have hinner : (text.dropWhile isTrimmed).rdropWhile isTrimmed ++
      (text.dropWhile isTrimmed).rtakeWhile isTrimmed = text.dropWhile isTrimmed :=
    List.rdropWhile_append_rtakeWhile
  have htext : text.takeWhile isTrimmed ++ text.dropWhile isTrimmed = text :=
    List.takeWhile_append_dropWhile
  have hinside : (text.dropWhile isTrimmed).rdropWhile isTrimmed = [42] := h
  rw [hinside] at hinner
  rw [← hinner] at htext
  constructor
  · rw [← htext]
    simp
  · intro unit hunit
    rw [← htext] at hunit
    obtain hunit | hunit := List.mem_append.mp hunit
    · exact .inl (List.mem_takeWhile_imp hunit)
    · obtain rfl | hunit := List.mem_cons.mp hunit
      · exact .inr rfl
      · exact .inl (List.mem_rtakeWhile_imp hunit)

theorem tagList_asterisk (h : TagList text tags) : trim text ≠ [42] := by
  intro htrim
  obtain ⟨hasterisk, hunits⟩ := trim_asterisk htrim
  have hquote (tag : EntityTag) : 34 ∈ tag.text := by simp [EntityTag.text]
  have hquoted : 34 ∉ text := fun hmem ↦ absurd (hunits 34 hmem) (by decide)
  have hseparated : 44 ∉ text := fun hmem ↦ absurd (hunits 44 hmem) (by decide)
  cases h with
  | empty hblank => exact absurd (hblank 42 hasterisk) (by decide)
  | last tag _ _ => exact hquoted (by simp [hquote tag])
  | skip _ _ => exact hseparated (by simp)
  | cons tag _ _ _ => exact hquoted (by simp [hquote tag])

/-- A field is compared as it is evaluated, unless it is an asterisk in stray white space; then the
code takes it for `*`. -/
theorem tagListMatches_iff : tagListMatches value (current.map EntityTag.text) strong = true ↔
      FieldMatches strong current value ∨ StrayAsterisk value := by
  unfold tagListMatches FieldMatches StrayAsterisk
  split
  · next htrim =>
    refine iff_of_true rfl ?_
    by_cases hany : AnyTag value
    · exact .inl (.inl hany)
    · exact .inr ⟨htrim, hany⟩
  · next htrim =>
    have hany : ¬ AnyTag value := fun h ↦ htrim (trim_anyTag h)
    rw [matchTags_iff]
    simp [htrim, hany]

theorem strayAsterisk_fails (h : StrayAsterisk value) : ¬ FieldMatches strong current value := by
  rintro (hany | ⟨tags, htags, -⟩)
  · exact h.2 hany
  · exact tagList_asterisk htags h.1

variable {ifMatch ifNoneMatch : Option Text}

theorem conditionalReadStatus_iff : Evaluates ifMatch ifNoneMatch current
        (conditionalReadStatus ifMatch ifNoneMatch (current.map EntityTag.text)) ↔
      (∀ value ∈ ifMatch, ¬ StrayAsterisk value) ∧ ∀ value ∈ ifNoneMatch, StrayAsterisk value →
          ∃ other ∈ ifMatch, ¬ FieldMatches true current other := by
  have hfailing : (ifMatch.any fun value ↦
      !tagListMatches value (current.map EntityTag.text) true) = true ↔
        ∃ value ∈ ifMatch, ¬ FieldMatches true current value ∧ ¬ StrayAsterisk value := by
    rw [Option.any_eq_true]
    simp only [Bool.not_eq_true', ← Bool.not_eq_true, tagListMatches_iff, not_or]
    rfl
  have hfinding : (ifNoneMatch.any fun value ↦
      tagListMatches value (current.map EntityTag.text) false) = true ↔
        ∃ value ∈ ifNoneMatch, FieldMatches false current value ∨ StrayAsterisk value := by
    rw [Option.any_eq_true]
    simp only [tagListMatches_iff]
    rfl
  unfold conditionalReadStatus
  split
  · next hfails =>
    obtain ⟨value, hpresent, hfails, hstray⟩ := hfailing.mp hfails
    refine iff_of_true (.preconditionFailed hpresent hfails) ⟨fun other hother ↦ ?_, ?_⟩
    · obtain rfl : value = other := Option.mem_unique hpresent hother
      exact hstray
    · exact fun _ _ _ ↦ ⟨value, hpresent, hfails⟩
  · next hholds =>
    rw [hfailing] at hholds
    have hmatches : ∀ value ∈ ifMatch, FieldMatches true current value ∨ StrayAsterisk value := by
      intro value hvalue
      by_contra hneither
      exact hholds ⟨value, hvalue, not_or.mp hneither⟩
    have hstrict (hnone : ∀ value ∈ ifMatch, ¬ StrayAsterisk value) :
        ∀ value ∈ ifMatch, FieldMatches true current value :=
      fun value hvalue ↦ (hmatches value hvalue).resolve_right (hnone value hvalue)
    have hnone (hstrict : ∀ value ∈ ifMatch, FieldMatches true current value) :
        ∀ value ∈ ifMatch, ¬ StrayAsterisk value :=
      fun value hvalue hstray ↦ strayAsterisk_fails hstray (hstrict value hvalue)
    split
    · next hfound =>
      obtain ⟨value, hpresent, hfound⟩ := hfinding.mp hfound
      constructor
      · intro h
        cases h with
        | @notModified other hstrict' hother hmatch =>
          refine ⟨hnone hstrict', fun stray hstrayMem hstray ↦ ?_⟩
          obtain rfl : other = stray := Option.mem_unique hother hstrayMem
          exact absurd hmatch (strayAsterisk_fails hstray)
      · rintro ⟨hclean, hdecided⟩
        refine .notModified (hstrict hclean) hpresent (hfound.resolve_right fun hstray ↦ ?_)
        obtain ⟨other, hother, hfails⟩ := hdecided value hpresent hstray
        exact hfails (hstrict hclean other hother)
    · next hfound =>
      rw [hfinding] at hfound
      constructor
      · intro h
        cases h with
        | ok hstrict' habsent =>
          refine ⟨hnone hstrict', fun value hvalue hstray ↦ ?_⟩
          exact absurd ⟨value, hvalue, .inr hstray⟩ hfound
      · rintro ⟨hclean, -⟩
        exact .ok (hstrict hclean) fun value hvalue hmatch ↦ hfound ⟨value, hvalue, .inl hmatch⟩

/-- Entity tags are strong and determine their revisions, and a conditional read comes to the status
of the evaluation exactly when no asterisk in stray white space stands in `If-Match`, nor in
`If-None-Match` unless the first field fails. -/
theorem entityTags_exact (ifMatch ifNoneMatch : Option Text) (current : Option EntityTag) :
    (∀ revision, ∃ tag : EntityTag, tag.weak = false ∧ tag.text = resourceRevisionEtag revision) ∧
    (∀ left right : Text, (∀ unit ∈ left, unit < 0x10000) → (∀ unit ∈ right, unit < 0x10000) →
      (resourceRevisionEtag left = resourceRevisionEtag right ↔ left = right)) ∧
    (Evaluates ifMatch ifNoneMatch current
        (conditionalReadStatus ifMatch ifNoneMatch (current.map EntityTag.text)) ↔
      (∀ value ∈ ifMatch, ¬ StrayAsterisk value) ∧
        ∀ value ∈ ifNoneMatch, StrayAsterisk value →
          ∃ other ∈ ifMatch, ¬ FieldMatches true current other) :=
  ⟨resourceRevisionEtag_strong, fun _ _ ↦ resourceRevisionEtag_eq_iff, conditionalReadStatus_iff⟩

/-- A high surrogate alone and the character that replaces it have different entity tags. -/
theorem loneSurrogate_distinct :
    resourceRevisionEtag [0xd800] = resourceRevisionEtag [0xfffd] ↔ [0xd800] = [0xfffd] :=
  (entityTags_exact none none none).2.1 [0xd800] [0xfffd] (by simp) (by simp)

/-- The entity tag `"r"`. -/
def currentTag : EntityTag := ⟨false, [114], by simp [isTagUnit]⟩

/-- A no-break space before the asterisk: the read succeeds, and its precondition fails. -/
theorem strayAsterisk_succeeds :
    conditionalReadStatus (some [0xa0, 42]) none (some currentTag.text) = .ok ∧
      Evaluates (some [0xa0, 42]) none (some currentTag) .preconditionFailed ∧
      ¬ Evaluates (some [0xa0, 42]) none (some currentTag) .ok := by
  have hstray : StrayAsterisk [0xa0, 42] := by
    refine ⟨by decide, ?_⟩
    rintro ⟨before, after, hbefore, -, htext⟩
    cases before with
    | nil => cases htext
    | cons unit before =>
      obtain rfl := (List.cons.inj htext).1
      exact absurd (hbefore 0xa0 List.mem_cons_self) (by decide)
  refine ⟨by decide, .preconditionFailed rfl (strayAsterisk_fails hstray), fun h ↦ ?_⟩
  cases h with
  | ok hholds _ => exact strayAsterisk_fails hstray (hholds _ rfl)

end Conditions

end Bdp.ReadHttp
