import Bdp.Transaction.Reads
import Bdp.Transaction.Replica

/-!
# Receipt pages

The stored page plan of a completed receipt, its validation on every read, the inline prefix of the
results and the reading of one result page. The plan is cut by a number of entries; a page is named
by its receipt and a token of the plan.
-/

namespace Bdp.Transaction

section Definitions

/-- `/^[A-Za-z0-9_-]{1,256}$/` -/
def isPageToken (token : String) : Bool :=
  decide (1 ≤ token.length ∧ token.length ≤ 256) &&
    token.toList.all fun letter ↦ letter.isAlphanum || letter == '_' || letter == '-'

/-- The pages must follow each other without a gap, under different tokens; the end of the last. -/
def checkPageChain (maximum entries : ℕ) :
    ℕ → List String → List (String × ℕ × ℕ) → Except String ℕ
  | start, _, [] => .ok start
  | start, tokens, page :: pages => do
    check (isPageToken page.1 = true ∧ page.1 ∉ tokens ∧ page.2.1 = start ∧ start < entries ∧
      page.2.2 = min (start + maximum) entries) "invalid receipt page chain"
    checkPageChain maximum entries page.2.2 (page.1 :: tokens) pages

/-- The results that a receipt holds in full. -/
def Receipt.available (receipt : Receipt) : Option (List ResultEntry) :=
  match receipt.disposition with
  | .completed _ _ results _ => some results
  | _ => none

def StartsBefore (left right : String × ℕ × ℕ) : Prop := left.2.1 ≤ right.2.1

instance : DecidableRel StartsBefore :=
  fun left right ↦ inferInstanceAs (Decidable (left.2.1 ≤ right.2.1))

/-- The stored page plan of a receipt, checked in full. -/
def storedPagePlan (config : StoreConfiguration) (persisted : Persisted) (receipt : Receipt) :
    Except String ReceiptPagePlan := do
  let saved ← require (persisted.receiptPages.find? fun plan ↦ plan.receipt == receipt.core.id)
    "receipt page plan missing"
  let parent ← require (persisted.row saved.principal saved.key)
    "receipt page plan parent mismatch"
  check (saved.key = receipt.core.idempotencyKey ∧ parent.receipt.core.id = receipt.core.id)
    "receipt page plan parent mismatch"
  let plan := { saved with ranges := saved.ranges.insertionSort StartsBefore }
  -- The length of an array is a safe integer.
  check (1 ≤ plan.entries ∧ plan.maximum = config.receiptMaximumItems ∧
      ∀ results ∈ receipt.available, results.length = plan.entries) "invalid receipt page plan"
  let last ← checkPageChain config.receiptMaximumItems plan.entries config.receiptMaximumItems []
    plan.ranges
  check (last = max config.receiptMaximumItems plan.entries) "incomplete receipt page chain"
  pure plan

def pageUrl (receipt token : String) : String := receipt ++ "/pages/" ++ token

def slice {α : Type} (entries : List α) (start stop : ℕ) : List α :=
  (entries.drop start).take (stop - start)

/-- Some results of a receipt and the page that holds the next ones. -/
structure ReceiptPage (α : Type) where
  receipt : String
  results : List α
  next : Option String
  deriving DecidableEq

/-- The first results of a completed receipt; other receipts are left as they are. -/
def receiptPrefix (config : StoreConfiguration) (persisted : Persisted) (receipt : Receipt) :
    Except String (Option (ReceiptPage ResultEntry)) :=
  match receipt.available with
  | none => .ok none
  | some results => do
    let plan ← storedPagePlan config persisted receipt
    pure (some { receipt := receipt.core.id
                 results := slice results 0 plan.maximum
                 next := plan.ranges.head?.map fun page ↦ pageUrl receipt.core.id page.1 })

/-- A result as a principal sees it. -/
inductive ReadEntry where
  | shown (entry : ResultEntry)
  | withheld (operationIndex : ℕ) (operationName : Option String)
  deriving DecidableEq

def projectTransactionEntry (visible : Bool) (entry : ResultEntry) : ReadEntry :=
  match entry with
  | .resource operationIndex operationName outcome =>
    if visible = false ∧ outcome.outcome ≠ .deleted ∧ outcome.resource.isSome = true then
      .withheld operationIndex operationName
    else .shown entry
  | _ => .shown entry

/-- A receipt must belong to the epoch, and its positions must lie behind the position of the
context. -/
def observeReceipt (config : StoreConfiguration) (persisted : Persisted)
    (context : TransactionReadContext) (receipt : Receipt) : Except String Unit := do
  check (receipt.core.scopeEpoch = context.scopeEpoch) "receipt epoch differs from serving owner"
  check (∀ positions ∈ receipt.disposition.positions, positions.1 ≤ context.scopePosition ∧
      ∀ effect ∈ positions.2, effect ≤ context.scopePosition)
    "receipt position exceeds serving owner"
  let _ ← receiptPrefix config persisted receipt
  pure ()

/-- The receipt and the token that a URL names, split at the last `/pages/`. -/
def splitPageUrl : List Char → Option (List Char × List Char)
  | [] => none
  | letter :: letters =>
    match splitPageUrl letters with
    | some (parent, token) => some (letter :: parent, token)
    | none =>
      if "/pages/".toList.isPrefixOf (letter :: letters) then some ([], letters.drop 6) else none

inductive ReceiptPageRead where
  | page (page : ReceiptPage ReadEntry) (context : TransactionReadContext)
  | expired (context : TransactionReadContext)
  | missing (context : Option TransactionReadContext)
  | unsupported
  deriving DecidableEq

def thrown {α : Type} (outcome : Except String α) : Except ReadFailure α :=
  outcome.mapError .internal

/-- The page of a plan that bears a token, with its index. -/
def ReceiptPagePlan.indexOf (plan : ReceiptPagePlan) (token : String) : Option ℕ :=
  plan.ranges.findIdx? fun page ↦ page.1 == token

/-- Read one page of the results of a completed receipt. Lookup and nondisclosure come first, then
the minimum, then the expiry; reading applies the expiry. -/
def readReceiptPage (config : StoreConfiguration) (store : TransactionStore) (clock : Clock)
    (principal id : String) (supplied : SuppliedMinimum) :
    Except ReadFailure (Persisted × ReceiptPageRead) :=
  store.entered <|
    let persisted := store.persisted
    let context := store.readContext
    match splitPageUrl id.toList with
    | none => .ok (persisted, .missing none)
    | some (parent, letters) =>
      let parentId := String.ofList parent
      let token := String.ofList letters
      if (stripScope (config.scope ++ "receipts/") parentId).isNone then
        .ok (persisted, .missing none)
      else
        match persisted.receiptPages.find? fun plan ↦
            plan.receipt == parentId && plan.principal == principal with
        | none => do
          check (∀ row ∈ store.disclosedReceipt principal parentId,
              row.receipt.disposition.isCompleted = false)
            (.internal "receipt page plan missing")
          pure (persisted, .missing (some context))
        | some saved => do
          let stored ← require (persisted.row principal saved.key)
            (.internal "receipt page parent missing")
          check (stored.receipt.core.id = parentId) (.internal "receipt page parent mismatch")
          if stored.receipt.core.scopeEpoch ≠ persisted.epoch then
            pure (persisted, .missing (some context))
          else
            let plan ← thrown (storedPagePlan config persisted stored.receipt)
            match plan.indexOf token with
            | none => pure (persisted, .missing (some context))
            | some index =>
              if supplied = .unsupported then pure (persisted, .unsupported)
              else
                checkSupplied supplied context
                let now ← thrown (instant clock 0)
                let (expired, remaining) ← thrown (persisted.expireKey principal saved.key now)
                let remaining ← require remaining
                  (.internal "completed page parent was forgotten")
                match remaining.receipt.available with
                | none => pure (expired, .expired context)
                | some results =>
                  thrown (observeReceipt config expired context remaining.receipt)
                  let boundary ← require plan.ranges[index]?
                    (.internal "receipt page boundary missing")
                  pure (expired, .page
                    { receipt := parentId
                      results := (slice results boundary.2.1 boundary.2.2).map
                        (projectTransactionEntry store.authorization.allVisible)
                      next := plan.ranges[index + 1]?.map fun page ↦ pageUrl parentId page.1 }
                    context)

/-- Follow the pages from a next link; each page is read in a state of its own. -/
def followPages (config : StoreConfiguration) (serving : ℕ → TransactionStore × Clock)
    (principal : String) : ℕ → ℕ → Option String → Except ReadFailure (List ReadEntry)
  | _, _, none => .ok []
  | 0, _, some _ => .error (.internal "the pages do not end")
  | fuel + 1, index, some url => do
    let read ← readReceiptPage config (serving index).1 (serving index).2 principal url .absent
    match read.2 with
    | .page page _ => do
      let rest ← followPages config serving principal fuel (index + 1) page.next
      pure (page.results ++ rest)
    | _ => .error (.internal "the page is not served")

end Definitions

section Plans

variable {config : StoreConfiguration} {turn maximum entries : ℕ}
variable {start fuel : ℕ}

theorem mem_pageRanges {page : String × ℕ × ℕ}
    (h : page ∈ pageRanges config turn maximum entries fuel start) :
    ∃ place, start ≤ place ∧ place < entries ∧
      page = (config.uuid turn (1000 + place), place, min (place + maximum) entries) := by
  induction fuel generalizing start with
  | zero => cases h
  | succ fuel ih =>
    unfold pageRanges at h
    split at h
    next more =>
      cases List.mem_cons.mp h with
      | inl first => exact ⟨start, le_rfl, more, first⟩
      | inr rest =>
        obtain ⟨place, later, inside, same⟩ := ih rest
        exact ⟨place, by omega, inside, same⟩
    next => cases h

section

variable (positive : 0 < maximum)
include positive

theorem pageRanges_ordered (fuel start : ℕ) :
    (pageRanges config turn maximum entries fuel start).Pairwise
      fun left right ↦ left.2.1 < right.2.1 := by
  induction fuel generalizing start with
  | zero => exact List.Pairwise.nil
  | succ fuel ih =>
    unfold pageRanges
    split
    · refine List.pairwise_cons.mpr ⟨?_, ih (start + maximum)⟩
      intro page member
      obtain ⟨place, later, _, same⟩ := mem_pageRanges member
      rw [same]
      dsimp only
      omega
    · exact List.Pairwise.nil

theorem pageRanges_tokens (fuel start : ℕ) :
    (pageRanges config turn maximum entries fuel start).Pairwise
      fun left right ↦ left.1 ≠ right.1 := by
  apply (pageRanges_ordered positive fuel start).imp_of_mem
  intro left right left_member right_member before same
  obtain ⟨place, _, _, left_page⟩ := mem_pageRanges left_member
  obtain ⟨other, _, _, right_page⟩ := mem_pageRanges right_member
  rw [left_page, right_page] at before same
  have := (config.uuid_injective same).2
  dsimp only at before
  omega

theorem checkPageChain_pageRanges {tokens : List String} (enough : entries ≤ start + fuel)
    (formed : ∀ place < entries, isPageToken (config.uuid turn (1000 + place)) = true)
    (fresh : ∀ token ∈ tokens, ∃ place < start, token = config.uuid turn (1000 + place)) :
    checkPageChain maximum entries start tokens
      (pageRanges config turn maximum entries fuel start) = .ok (max start entries) := by
  induction fuel generalizing start tokens with
  | zero =>
    have last : max start entries = start := by omega
    rw [last]
    rfl
  | succ fuel ih =>
    unfold pageRanges
    split
    next more =>
      have unseen : config.uuid turn (1000 + start) ∉ tokens := by
        intro member
        obtain ⟨place, before, same⟩ := fresh _ member
        have := (config.uuid_injective same).2
        omega
      have checked : isPageToken (config.uuid turn (1000 + start)) = true ∧
          config.uuid turn (1000 + start) ∉ tokens ∧ start = start ∧ start < entries ∧
          min (start + maximum) entries = min (start + maximum) entries :=
        ⟨formed start more, unseen, rfl, more, rfl⟩
      rw [checkPageChain, check_bind_eq_ok]
      refine ⟨checked, ?_⟩
      have grown : ∀ token ∈ config.uuid turn (1000 + start) :: tokens,
          ∃ place < start + maximum, token = config.uuid turn (1000 + place) := by
        intro token member
        cases List.mem_cons.mp member with
        | inl first => exact ⟨start, by omega, first⟩
        | inr earlier =>
          obtain ⟨place, before, same⟩ := fresh token earlier
          exact ⟨place, by omega, same⟩
      by_cases inside : start + maximum ≤ entries
      · rw [Nat.min_eq_left inside, ih (by omega) grown]
        congr 1
        omega
      · -- The page that reaches beyond the results is the last one.
        have empty : pageRanges config turn maximum entries fuel (start + maximum) = [] := by
          cases fuel with
          | zero => rfl
          | succ fuel => rw [pageRanges, if_neg (by omega)]
        have last : max start entries = entries := by omega
        rw [empty, Nat.min_eq_right (by omega), last]
        rfl
    next done =>
      have last : max start entries = start := by omega
      rw [last]
      rfl

theorem take_append_pageRanges {α : Type} {results : List α}
    (counted : results.length = entries) (enough : entries ≤ start + fuel) :
    results.take start ++ (pageRanges config turn maximum entries fuel start).flatMap
      (fun page ↦ slice results page.2.1 page.2.2) = results := by
  induction fuel generalizing start with
  | zero =>
    rw [pageRanges, List.flatMap_nil, List.append_nil]
    exact List.take_of_length_le (by omega)
  | succ fuel ih =>
    unfold pageRanges
    split
    next more =>
      have first : results.take start ++ slice results start (min (start + maximum) entries) =
          results.take (start + maximum) := by
        rw [slice, ← List.take_add]
        by_cases inside : start + maximum ≤ entries
        · congr 1
          omega
        · rw [List.take_of_length_le (by omega), List.take_of_length_le (by omega)]
      rw [List.flatMap_cons, ← List.append_assoc, first]
      exact ih (by omega)
    next done =>
      rw [List.flatMap_nil, List.append_nil]
      exact List.take_of_length_le (by omega)

end

end Plans

section Urls

/-- Without two slashes there is no `/pages/`. -/
theorem splitPageUrl_eq_none {text : List Char} (h : text.count '/' < 2) :
    splitPageUrl text = none := by
  induction text with
  | nil => rfl
  | cons letter letters ih =>
    have fewer : letters.count '/' < 2 := Nat.lt_of_le_of_lt (List.count_le_count_cons) h
    have other : "/pages/".toList.isPrefixOf (letter :: letters) = false := by
      cases found : "/pages/".toList.isPrefixOf (letter :: letters) with
      | false => rfl
      | true =>
        obtain ⟨rest, same⟩ := List.isPrefixOf_iff_prefix.mp found
        rw [← same, List.count_append] at h
        have slashes : "/pages/".toList.count '/' = 2 := rfl
        omega
    rw [splitPageUrl, ih fewer]
    simp only [other, Bool.false_eq_true, if_false]

theorem splitPageUrl_append (parent : List Char) {token : List Char} (h : '/' ∉ token) :
    splitPageUrl (parent ++ ("/pages/".toList ++ token)) = some (parent, token) := by
  induction parent with
  | nil =>
    have single : ("pages/".toList ++ token).count '/' < 2 := by
      have slashes : "pages/".toList.count '/' = 1 := rfl
      rw [List.count_append, List.count_eq_zero.mpr h, slashes]
      decide
    have opened : "/pages/".toList ++ token = '/' :: ("pages/".toList ++ token) := rfl
    have found : "/pages/".toList.isPrefixOf ("/pages/".toList ++ token) = true :=
      List.isPrefixOf_iff_prefix.mpr (List.prefix_append _ _)
    rw [List.nil_append, opened, splitPageUrl, splitPageUrl_eq_none single, ← opened]
    simp only [found, if_true]
    rfl
  | cons letter parent ih =>
    rw [List.cons_append, splitPageUrl, ih]

theorem splitPageUrl_eq_some {text parent token : List Char}
    (h : splitPageUrl text = some (parent, token)) :
    text = parent ++ ("/pages/".toList ++ token) := by
  induction text generalizing parent with
  | nil => cases h
  | cons letter letters ih =>
    rw [splitPageUrl] at h
    split at h
    next before behind found =>
      cases h
      rw [ih found, List.cons_append]
    next =>
      split at h
      next first =>
        cases h
        obtain ⟨rest, same⟩ := List.isPrefixOf_iff_prefix.mp first
        have dropped : letters.drop 6 = rest := by
          have := congrArg (List.drop 7) same
          simpa using this.symm
        rw [dropped, List.nil_append, same]
      next => cases h

theorem isPageToken_slash {token : String} (h : isPageToken token = true) : '/' ∉ token.toList := by
  intro member
  simp only [isPageToken, Bool.and_eq_true, List.all_eq_true] at h
  have := h.2 '/' member
  revert this
  decide

end Urls

end Bdp.Transaction
