import Bdp.Library.Checked
import Bdp.Readiness.ReadyBeads

/-!
# Readiness from paged reads

The listed Beads are read page by page, then the outbound Links of each of them, then the blockers
of the Scope that were not listed. Every read is charged to one budget of requests and items.
-/

namespace Bdp.Readiness

def maximumReadinessPages : ℕ := 10000
def maximumReadinessItems : ℕ := 100000
def maximumReadinessRequests : ℕ := 10000

structure ReadProblem where
  code : String
  detail : String
  deriving DecidableEq

structure Page (α : Type) where
  items : List α
  next : Option Text

/-- The answers of a client to the reads of readiness. -/
structure Client where
  discover : Except ReadProblem Text
  beads : Option Text → Except ReadProblem (Page BeadRecord)
  beadLinks : Text → Option Text → Except ReadProblem (Page LinkRecord)
  bead : Text → Except ReadProblem BeadRecord

structure ReadinessTraversalBudget where
  remainingItems : ℕ
  remainingRequests : ℕ

def paginationProblem : ReadProblem :=
  ⟨"temporarily-unavailable", "pagination did not make progress"⟩

def itemLimitProblem : ReadProblem :=
  ⟨"temporarily-unavailable", "readiness traversal exceeded its local item bound"⟩

def requestLimitProblem : ReadProblem :=
  ⟨"temporarily-unavailable", "readiness traversal exceeded its local request bound"⟩

def consumeTraversalItems (budget : ReadinessTraversalBudget) (count : ℕ) :
    Except ReadProblem ReadinessTraversalBudget := do
  check (count ≤ budget.remainingItems) itemLimitProblem
  return { budget with remainingItems := budget.remainingItems - count }

def consumeTraversalRequest (budget : ReadinessTraversalBudget) :
    Except ReadProblem ReadinessTraversalBudget := do
  check (budget.remainingRequests ≠ 0) requestLimitProblem
  return { budget with remainingRequests := budget.remainingRequests - 1 }

variable {budget : ReadinessTraversalBudget}

theorem consumeTraversalItems_of {count : ℕ}
    (h : count ≤ budget.remainingItems) : consumeTraversalItems budget count =
      .ok ⟨budget.remainingItems - count, budget.remainingRequests⟩ := by
  rw [consumeTraversalItems, check_of h]
  rfl

theorem consumeTraversalRequest_of
    (h : budget.remainingRequests ≠ 0) : consumeTraversalRequest budget =
      .ok ⟨budget.remainingItems, budget.remainingRequests - 1⟩ := by
  rw [consumeTraversalRequest, check_of h]
  rfl

section Traversal

variable {α : Type}

/-- The loop over the pages of one collection, with the pages that it may still read. -/
def readPages (perform : Option Text → Except ReadProblem (Page α)) :
    ℕ → List Text → Option Text → ReadinessTraversalBudget → List α →
      Except ReadProblem (List α × ReadinessTraversalBudget)
  | 0, _, _, _, _ => .error paginationProblem
  | pages + 1, seen, continuation, budget, items => do
    check (∀ url ∈ continuation, url ∉ seen) paginationProblem
    let budget ← consumeTraversalRequest budget
    let page ← perform continuation
    let budget ← consumeTraversalItems budget page.items.length
    match page.next with
    | none => return (items ++ page.items, budget)
    | some next =>
      readPages perform pages (seen ++ continuation.toList) (some next) budget (items ++ page.items)

def readAllBeads (client : Client) (budget : ReadinessTraversalBudget) :
    Except ReadProblem (List BeadRecord × ReadinessTraversalBudget) :=
  readPages client.beads maximumReadinessPages [] none budget []

def readAllIncidentLinks (client : Client) (bead : Text) (budget : ReadinessTraversalBudget) :
    Except ReadProblem (List LinkRecord × ReadinessTraversalBudget) :=
  readPages (client.beadLinks bead) maximumReadinessPages [] none budget []

end Traversal

/-- The records read so far, and what is left of the budget. -/
abbrev Reading := List BeadRecord × ReadinessTraversalBudget

def readLinks (client : Client) (reading : Reading) (bead : BeadRecord) :
    Except ReadProblem Reading := do
  let (links, budget) ← readAllIncidentLinks client bead.id reading.2
  return (reading.1 ++ [{ bead with links := some links }], budget)

/-- The blocking targets of the Scope that were not listed, each once. -/
def missingBlockerIds (blockingLinkType scope : Text) (withLinks : List BeadRecord) : List Text :=
  let targets := withLinks.flatMap fun bead ↦ (bead.links.getD []).filterMap fun link ↦
    let targetUri := referenceUri link.target
    if link.type = blockingLinkType ∧ scope.isPrefixOf targetUri ∧
      targetUri ∉ withLinks.map fun known ↦ known.id then some targetUri else none
  targets.foldl (fun ids id ↦ if id ∈ ids then ids else ids ++ [id]) []

/-- The record of a blocker; a blocker that is not found stays unresolved. -/
def readBlocker (client : Client) (reading : Reading) (blockerId : Text) :
    Except ReadProblem Reading := do
  let budget ← consumeTraversalRequest reading.2
  match client.bead blockerId with
  | .error problem =>
    if problem.code = "resource-not-found" then return (reading.1, budget) else .error problem
  | .ok blocker =>
    let budget ← consumeTraversalItems budget 1
    return (reading.1 ++ [blocker], budget)

def readyBeadsFromClient (client : Client) (blockingLinkType : Text) :
    Except ReadProblem (List ReadyBead) := do
  let scope ← client.discover
  let (beads, budget) ←
    readAllBeads client ⟨maximumReadinessItems, maximumReadinessRequests⟩
  let (withLinks, budget) ← beads.foldlM (readLinks client) ([], budget)
  let (records, _) ← (missingBlockerIds blockingLinkType scope withLinks).foldlM
    (readBlocker client) (withLinks, budget)
  return (readyBeadsFromRecords blockingLinkType records).filter fun ready ↦
    ready.bead.id ∈ beads.map fun bead ↦ bead.id

section Serving

variable {α : Type} {perform : Option Text → Except ReadProblem (Page α)} {items : List α}
  {continuation : Option Text} {requests : ℕ}

/-- What is served behind a continuation, in so many requests. -/
inductive Serves (perform : Option Text → Except ReadProblem (Page α)) :
    Option Text → List α → ℕ → Prop
  | last {continuation : Option Text} {items : List α}
      (page : perform continuation = .ok ⟨items, none⟩) : Serves perform continuation items 1
  | more {continuation : Option Text} {items rest : List α} {next : Text} {requests : ℕ}
      (page : perform continuation = .ok ⟨items, some next⟩)
      (tail : Serves perform (some next) rest requests) :
      Serves perform continuation (items ++ rest) (requests + 1)

section

variable (h : Serves perform continuation items requests)
include h

theorem Serves.requests_eq {items' : List α} {requests' : ℕ}
    (h' : Serves perform continuation items' requests') : requests = requests' := by
  induction h generalizing items' requests' with
  | last page =>
    cases h' with
    | last => rfl
    | more page' => cases page.symm.trans page'
  | more page tail ih =>
    cases h' with
    | last page' => cases page.symm.trans page'
    | more page' tail' =>
      cases page.symm.trans page'
      rw [ih tail']

theorem readPages_of_serves {pages : ℕ} {seen : List Text} {before : List α}
    (hpages : requests ≤ pages) (hrequests : requests ≤ budget.remainingRequests)
    (hitems : items.length ≤ budget.remainingItems)
    (hseen : ∀ url ∈ seen, ∃ items' requests', requests < requests' ∧
      Serves perform (some url) items' requests') :
    readPages perform pages seen continuation budget before =
      .ok (before ++ items, ⟨budget.remainingItems - items.length,
        budget.remainingRequests - requests⟩) := by
  induction h generalizing pages seen budget before with
  | @last continuation items page =>
    obtain ⟨pages, rfl⟩ := Nat.exists_eq_add_one.mpr (Nat.lt_of_lt_of_le Nat.zero_lt_one hpages)
    have hfresh : ∀ url ∈ continuation, url ∉ seen := by
      rintro url rfl hmem
      obtain ⟨items', requests', hlt, hserves⟩ := hseen url hmem
      have := (Serves.last page).requests_eq hserves
      omega
    rw [readPages, check_of hfresh, consumeTraversalRequest_of (by omega), page]
    simp only [Except.ok_bind]
    rw [consumeTraversalItems_of (by simp only; omega)]
    rfl
  | @more continuation items rest next requests page tail ih =>
    obtain ⟨pages, rfl⟩ := Nat.exists_eq_add_one.mpr
      (Nat.lt_of_lt_of_le (Nat.succ_pos requests) hpages)
    have hwhole := Serves.more page tail
    have hfresh : ∀ url ∈ continuation, url ∉ seen := by
      rintro url rfl hmem
      obtain ⟨items', requests', hlt, hserves⟩ := hseen url hmem
      have := hwhole.requests_eq hserves
      omega
    rw [List.length_append] at hitems
    have hlater : ∀ url ∈ seen ++ continuation.toList, ∃ items' requests', requests < requests' ∧
        Serves perform (some url) items' requests' := by
      intro url hurl
      obtain hurl | hurl := List.mem_append.mp hurl
      · obtain ⟨items', requests', hlt, hserves⟩ := hseen url hurl
        exact ⟨items', requests', by omega, hserves⟩
      · cases continuation with
        | none => cases hurl
        | some url' =>
          obtain rfl := List.mem_singleton.mp hurl
          exact ⟨_, _, Nat.lt_succ_self _, hwhole⟩
    have hstep : readPages perform pages (seen ++ continuation.toList) (some next)
        ⟨budget.remainingItems - items.length, budget.remainingRequests - 1⟩ (before ++ items) =
        .ok (before ++ items ++ rest, ⟨budget.remainingItems - items.length - rest.length,
          budget.remainingRequests - 1 - requests⟩) :=
      ih (by omega) (by simp only; omega) (by simp only; omega) hlater
    rw [readPages, check_of hfresh, consumeTraversalRequest_of (by omega), page]
    simp only [Except.ok_bind]
    rw [consumeTraversalItems_of (by simp only; omega)]
    refine hstep.trans ?_
    rw [List.append_assoc, List.length_append, Nat.sub_sub, Nat.sub_sub, Nat.add_comm 1]

end

end Serving

end Bdp.Readiness
