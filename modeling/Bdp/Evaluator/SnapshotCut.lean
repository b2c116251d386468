import Bdp.Evaluator.Snapshot

/-!
# The cut of a snapshot

Identities of one form take the same number of bytes, so that the layout witnesses of a preflight
lead to the same cut as the identity of a capture. The pages of a cut follow each other up to the end
of their stream, and each fits its bound with the URL of its successor.
-/

namespace Bdp.Evaluator.Snapshot

open Recovery (ResourceKind)
open JsonParts

variable {ports : SnapshotPorts} {config : GraphConfiguration}

section Widths

variable {id other seed otherSeed token : String} {kind : ResourceKind} {ordinal : ℕ}

theorem isPlain_hexDigit {letter : Char} (h : isHexDigit letter = true) : isPlain letter = true := by
  simp only [isHexDigit, Bool.or_eq_true, Bool.and_eq_true, decide_eq_true_eq] at h
  simp only [isPlain, Char.isAlphanum, Char.isAlpha, Bool.or_eq_true]
  cases h with
  | inl digit => exact .inl (.inl (.inr digit))
  | inr hex =>
    refine .inl (.inl (.inl (.inr ?_)))
    simp only [Char.isLower, Bool.and_eq_true, decide_eq_true_eq]
    exact ⟨hex.1, hex.2.trans (by decide)⟩

theorem plain_identity (h : isIdentity id = true) : ∀ letter ∈ id.toList, isPlain letter = true := by
  simp only [isIdentity, Bool.and_eq_true, List.all_eq_true] at h
  intro letter member
  obtain ⟨place, bound, same⟩ := List.getElem_of_mem member
  have inside : (letter, place) ∈ id.toList.zipIdx := by
    rw [List.mem_zipIdx_iff_getElem?, ← same]
    exact List.getElem?_eq_getElem bound
  have formed := h.2 _ inside
  dsimp only at formed
  split at formed
  · rw [beq_iff_eq] at formed
    rw [formed]
    decide
  · exact isPlain_hexDigit formed

theorem length_identity (h : isIdentity id = true) : id.toList.length = 36 := by
  simp only [isIdentity, Bool.and_eq_true, decide_eq_true_eq] at h
  rw [String.length_toList]
  exact h.1

section

variable (h : isHex64 id = true)
include h

theorem plain_hex64 : ∀ letter ∈ id.toList, isPlain letter = true := by
  simp only [isHex64, Bool.and_eq_true, List.all_eq_true] at h
  exact fun letter member ↦ isPlain_hexDigit (h.2 letter member)

theorem length_hex64 : id.toList.length = 64 := by
  simp only [isHex64, Bool.and_eq_true, decide_eq_true_eq] at h
  rw [String.length_toList]
  exact h.1

theorem bytes_hex64 : bytes (stringText id) = 66 := by
  rw [bytes_stringText, bytes_escaped_plain (plain_hex64 h), length_hex64 h]

end

theorem plain_pageToken : ∀ letter ∈ (pageToken ports seed id kind ordinal).toList,
    isPlain letter = true := by
  intro letter member
  simp only [pageToken, String.toList_ofList, List.mem_append, List.mem_cons] at member
  rcases member with fixed | digits | rfl | tag
  · have spelled : "sp_".toList = ['s', 'p', '_'] := rfl
    rw [spelled] at fixed
    simp only [List.mem_cons, List.not_mem_nil, or_false] at fixed
    rcases fixed with rfl | rfl | rfl <;> decide
  · have := Nat.isDigit_of_mem_toDigits (by decide) (by decide) digits
    simp [isPlain, Char.isAlphanum, this]
  · decide
  · exact ports.plain_tag _ _ _ tag

theorem length_pageToken : (pageToken ports seed id kind ordinal).toList.length =
    (Nat.toDigits 10 ordinal).length + 47 := by
  have fixed : "sp_".toList.length = 3 := rfl
  simp only [pageToken, String.toList_ofList, List.length_append, List.length_cons,
    ports.length_tag, fixed]
  omega

theorem bytes_pageUrl (scope : String) (h : isIdentity id = true)
    (plain : ∀ letter ∈ token.toList, isPlain letter = true) :
    bytes (stringText (transactionSnapshotUrl scope id (some (kind, token)))) =
      bytes (scope.toList.flatMap JsonText.escape) + token.toList.length +
        bytes ("snapshot?snapshot=".toList.flatMap JsonText.escape) +
        bytes ("&stream=".toList.flatMap JsonText.escape) +
        bytes ((kindText kind).toList.flatMap JsonText.escape) +
        bytes ("s&page=".toList.flatMap JsonText.escape) + 38 := by
  rw [bytes_stringText, transactionSnapshotUrl]
  simp only [String.toList_append, List.flatMap_append, bytes_append]
  rw [bytes_escaped_plain (plain_identity h), bytes_escaped_plain plain, length_identity h]
  omega

theorem bytes_snapshotUrl (scope : String) (h : isIdentity id = true) :
    bytes (stringText (transactionSnapshotUrl scope id none)) =
      bytes (scope.toList.flatMap JsonText.escape) +
        bytes ("snapshot?snapshot=".toList.flatMap JsonText.escape) + 38 := by
  rw [bytes_stringText, transactionSnapshotUrl]
  simp only [String.toList_append, List.flatMap_append, bytes_append]
  rw [bytes_escaped_plain (plain_identity h), length_identity h]

theorem bytes_pageText (page : SnapshotPage) : bytes (pageText ports page) =
    (page.items.map fun item ↦ bytes (ports.text item)).sum + (page.items.length - 1) +
      bytes (nextText page.next) + 20 := by
  have items : bytes (stringText "items") = 7 := by decide
  have next : bytes (stringText "next") = 6 := by decide
  rw [pageText, bytes_objectText]
  simp only [List.map_cons, List.map_nil, List.sum_cons, List.sum_nil, bytes_memberText, items,
    next, bytes_arrayText, List.length_cons, List.length_nil, List.map_map, List.length_map]
  have same : (bytes ∘ ports.text) = fun item ↦ bytes (ports.text item) := rfl
  rw [same]
  omega

theorem framing_eq (h : isIdentity id = true) (h' : isIdentity other = true) :
    framing ports config id seed kind = framing ports config other otherSeed kind := by
  funext ordinal
  simp only [framing, bytes_pageText, nextText]
  rw [bytes_pageUrl _ h plain_pageToken, bytes_pageUrl _ h' plain_pageToken, length_pageToken,
    length_pageToken]

end Widths

section Fit

variable {frame count size : ℕ} {bodies : List (List Char)}

theorem fitPage_prefix : fitPage frame count size bodies <+: bodies := by
  induction bodies generalizing count size with
  | nil => exact List.prefix_rfl
  | cons body bodies ih =>
    rw [fitPage]
    split
    · exact (List.prefix_cons_inj body).mpr ih
    · exact List.nil_prefix

theorem length_fitPage (h : count ≤ snapshotPageItems) :
    count + (fitPage frame count size bodies).length ≤ snapshotPageItems := by
  induction bodies generalizing count size with
  | nil => exact h
  | cons body bodies ih =>
    rw [fitPage]
    split
    next fits =>
      have := @ih (count + 1) (size + bytes body) fits.1
      rw [List.length_cons]
      omega
    next => exact h

theorem fitPage_fits (h : fitPage frame count size bodies ≠ []) :
    frame + size + ((fitPage frame count size bodies).map bytes).sum +
      (count + (fitPage frame count size bodies).length - 1) ≤ pageBytes := by
  induction bodies generalizing count size with
  | nil => exact absurd rfl h
  | cons body bodies ih =>
    rw [fitPage] at h ⊢
    split
    next fits =>
      rw [List.map_cons, List.sum_cons, List.length_cons]
      by_cases last : fitPage frame (count + 1) (size + bytes body) bodies = []
      · rw [last, List.map_nil, List.sum_nil, List.length_nil]
        have := fits.2
        omega
      · have := ih last
        omega
    next fits =>
      rw [if_neg fits] at h
      exact absurd rfl h

end Fit

section Cuts

variable {frames : ℕ → ℕ} {bodies : List (List Char)}

def PageCut.slice (cut : PageCut) {α : Type} (items : List α) : List α :=
  (items.drop cut.start).take (cut.stop - cut.start)

/-- A page of a stream. -/
structure PageCut.Fits (ports : SnapshotPorts) (frames : ℕ → ℕ) (bodies : List (List Char))
    (cut : PageCut) : Prop where
  ordered : cut.start ≤ cut.stop
  bounded : cut.stop ≤ bodies.length
  items : cut.stop - cut.start ≤ snapshotPageItems
  filled : cut.start < cut.stop ∨ cut.ordinal = 0 ∧ bodies.length = 0
  total : cut.bytes = ((cut.slice bodies).map JsonParts.bytes).sum
  digest : cut.digest = ports.hash (joinLines (cut.slice bodies))
  fits : cut.start < cut.stop →
    frames cut.ordinal + cut.bytes + (cut.stop - cut.start - 1) ≤ pageBytes

/-- Pages that follow each other from an ordinal and a start up to a stop. -/
def Chained : ℕ → ℕ → List PageCut → ℕ → Prop
  | _, start, [], stop => start = stop
  | ordinal, start, cut :: cuts, stop =>
    cut.ordinal = ordinal ∧ cut.start = start ∧ Chained (ordinal + 1) cut.stop cuts stop

theorem PageCut.slice_length {cut : PageCut} {α : Type} {items : List α}
    (bounded : cut.stop ≤ items.length) : (cut.slice items).length = cut.stop - cut.start := by
  rw [slice, List.length_take, List.length_drop]
  omega

theorem fits_first {start ordinal : ℕ} (bound : start ≤ bodies.length) {taken : List (List Char)}
    (same : taken = fitPage (frames ordinal) 0 0 (bodies.drop start))
    (progress : start < start + taken.length ∨ bodies.length = 0)
    (origin : bodies.length = 0 → ordinal = 0) :
    PageCut.Fits ports frames bodies
      { ordinal, start, stop := start + taken.length, bytes := (taken.map bytes).sum
        digest := ports.hash (joinLines taken) } := by
  have front : taken <+: bodies.drop start := same ▸ fitPage_prefix
  have slice : (bodies.drop start).take taken.length = taken :=
    (List.prefix_iff_eq_take.mp front).symm
  have length := front.length_le
  rw [List.length_drop] at length
  have few := @length_fitPage (frames ordinal) 0 0 (bodies.drop start) (Nat.zero_le _)
  rw [← same] at few
  have width : start + taken.length - start = taken.length := by omega
  constructor
  · exact Nat.le_add_right _ _
  · dsimp only
    omega
  · dsimp only
    omega
  · exact progress.imp id fun none ↦ ⟨origin none, none⟩
  · rw [PageCut.slice, width, slice]
  · rw [PageCut.slice, width, slice]
  · intro filled
    dsimp only at filled ⊢
    have some_taken : fitPage (frames ordinal) 0 0 (bodies.drop start) ≠ [] := by
      intro empty
      rw [same, empty, List.length_nil] at filled
      omega
    have fits := fitPage_fits some_taken
    rw [← same] at fits
    omega

theorem cutPages_chained {fuel : ℕ} : ∀ {ordinal start : ℕ} {cuts : List PageCut},
    start < bodies.length ∨ start = 0 ∧ bodies.length = 0 →
    (bodies.length = 0 → ordinal = 0) →
    cutPages ports frames bodies.length fuel ordinal start (bodies.drop start) = .ok cuts →
    Chained ordinal start cuts bodies.length ∧ (∀ cut ∈ cuts, cut.Fits ports frames bodies) ∧
      (cuts.map PageCut.bytes).sum = ((bodies.drop start).map bytes).sum ∧ cuts ≠ [] := by
  induction fuel with
  | zero => exact fun _ _ h ↦ nomatch h
  | succ fuel ih =>
    intro ordinal start cuts inside origin h
    generalize taken_eq : fitPage (frames ordinal) 0 0 (bodies.drop start) = taken at h
    rw [cutPages, taken_eq] at h
    dsimp only at h
    rw [check_bind_eq_ok] at h
    obtain ⟨progress, h⟩ := h
    have first := @fits_first ports frames bodies start ordinal (by omega) taken taken_eq.symm
      progress origin
    have front : taken <+: bodies.drop start := taken_eq ▸ fitPage_prefix
    obtain ⟨behind, split⟩ := front
    have length := congrArg List.length split
    rw [List.length_append, List.length_drop] at length
    split at h
    next more =>
      rw [List.drop_drop, Except.bind_eq_ok] at h
      obtain ⟨rest, cut, h⟩ := h
      rw [Except.pure_eq_ok_iff] at h
      subst h
      obtain ⟨chain, each, total, _⟩ := ih (.inl more) (fun none ↦ by omega) cut
      refine ⟨⟨rfl, rfl, chain⟩, ?_, ?_, List.cons_ne_nil _ _⟩
      · intro cut member
        cases List.mem_cons.mp member with
        | inl same => exact same ▸ first
        | inr later => exact each cut later
      · have dropped : bodies.drop (start + taken.length) = behind := by
          rw [← List.drop_drop, ← split, List.drop_left]
        rw [List.map_cons, List.sum_cons, total, dropped, ← split, List.map_append, List.sum_append]
    next done =>
      rw [Except.pure_eq_ok_iff] at h
      subst h
      have none_behind : behind = [] := by
        rw [← List.length_eq_zero_iff]
        omega
      refine ⟨⟨rfl, rfl, ?_⟩, ?_, ?_, List.cons_ne_nil _ _⟩
      · change start + taken.length = bodies.length
        omega
      · intro cut member
        rw [List.mem_singleton.mp member]
        exact first
      · rw [none_behind, List.append_nil] at split
        simp [split]

end Cuts

end Bdp.Evaluator.Snapshot
