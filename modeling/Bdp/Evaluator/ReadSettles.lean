import Bdp.Evaluator.ReadFaults

/-!
# Reads settle

In every run whose creations take plain identities that are not reserved, every read ends with a
result or a declared problem exactly when the request takes the Resource that it names for what it is,
and aliases always do.
-/

namespace Bdp.Evaluator

open Recovery (ResourceKind ResourceShape)
open UrlPath (Scope hasScheme canonicalPath)

variable {config : GraphConfiguration} {plane : ReadPlane} {graph after : Graph}
  {context : MemberContext} {past : List Graph}

section Aliases

/-- Aliases lead to canonical paths that are not reserved. -/
def Graph.AliasesNamed (graph : Graph) : Prop :=
  ∀ (path target : String), graph.aliases[path]? = some target →
    canonicalPath target = true ∧ reservedPath target = false

theorem apply_aliases {evaluation : ResourceEvaluation}
    (happly : graph.apply config evaluation = .ok after) : after.aliases = graph.aliases := by
  unfold Graph.apply at happly
  obtain ⟨written, hwritten, happly⟩ := Except.bind_eq_ok.mp happly
  have hsame : written.aliases = graph.aliases := by
    apply replay_induction (fun _ middle ↦ middle.aliases = graph.aliases) hwritten rfl
    intro _ row middle next hmiddle hput
    rw [putResource_eq_ok hput]
    exact hmiddle
  obtain ⟨removed, hremoved, happly⟩ := Except.bind_eq_ok.mp happly
  obtain rfl := Except.pure_eq_ok_iff.mp happly
  cases hdeleted : evaluation.deleted with
  | none =>
    rw [hdeleted] at hremoved
    obtain rfl := Except.ok.inj hremoved
    exact hsame
  | some id =>
    rw [hdeleted] at hremoved
    obtain rfl := deleteResource_eq_ok hremoved
    exact hsame

theorem GraphRun.aliasesNamed {aliasesScope : String → Bool}
    (run : GraphRun config (KeepsPlane config aliasesScope) past graph) : graph.AliasesNamed := by
  induction run with
  | empty =>
    intro path target htarget
    simp [Graph.empty] at htarget
  | mutated context mutation evaluation run captured admitted step ih =>
    intro path target htarget
    rw [apply_aliases step.2] at htarget
    exact ih path target htarget
  | aliased context mutation evaluation run step ih =>
    intro path target htarget
    obtain ⟨hevaluated, happlied⟩ := step
    unfold Graph.applyAlias at happlied
    cases hchange : evaluation.change with
    | unchanged =>
      rw [hchange] at happlied
      obtain rfl := Except.ok.inj happlied
      exact ih path target htarget
    | delete erased =>
      rw [hchange] at happlied
      obtain rfl := Except.ok.inj happlied
      rw [Table.lookup_erase] at htarget
      split at htarget
      · cases htarget
      · exact ih path target htarget
    | put name given =>
      rw [hchange] at happlied
      obtain rfl := putAlias_eq_ok happlied
      rw [Table.lookup_insert] at htarget
      split at htarget
      · -- an alias is put on a live Bead
        obtain rfl := Option.some.inj htarget
        obtain ⟨-, -, row, hrow, -⟩ := evaluateAlias_put hevaluated hchange
        exact run.named.canonical given row hrow
      · exact ih path target htarget
  | unchanged run ih => exact ih

/-- What an alias leads to: the visible Bead under its target. -/
def aliasTarget (record : String → Option ResourceRecord) (target : Option String) :
    Except ReadStop String := do
  let target ← require target (.problem .resourceNotFound)
  let record ← require (record target) (.problem .resourceNotFound)
  pure record.id

theorem aliasTarget_problem (record : String → Option ResourceRecord) (target : Option String) :
    ErrorsIn IsProblem (aliasTarget record target) := by
  refine errorsIn_bind (errorsIn_require (.of_problem _)) fun _ _ ↦ ?_
  exact errorsIn_bind (errorsIn_require (.of_problem _)) fun _ _ ↦ errorsIn_ok _

theorem Graph.Checked.resolveAlias_eq (h : graph.Checked config plane) (haliases : graph.AliasesNamed)
    (hcaptured : context.captured = []) (path : String) :
    resolveAlias plane (context.options config) (graph.view config context) path =
      aliasTarget (graph.visibleRecord config context) graph.aliases[path]? := by
  have hlive : (graph.view config context).alias path = graph.aliases[path]? := by
    change (context.captured.lookup path).getD graph.aliases[path]? = _
    rw [hcaptured]
    rfl
  unfold resolveAlias aliasTarget
  rw [hlive]
  cases htarget : graph.aliases[path]? with
  | none => rfl
  | some target =>
    obtain ⟨hcanonical, hreserved⟩ := haliases path target htarget
    have hcommitted := (h.consistent.targets path target htarget).1
    have hplain : hasScheme target = false := h.consistent.plain target (Table.mem_of_lookup hcommitted)
    have hvalid : validateServerLocalResourceId (context.options config).scope
        ((context.options config).scope.href ++ target) = .ok () := by
      unfold validateServerLocalResourceId
      rw [UrlPath.Scope.localPath_append, require_some, Except.ok_bind,
        resolveCanonicalLocalResourceId_ok hcanonical hreserved hplain, Except.ok_bind, check_of rfl]
    unfold Graph.visibleRecord
    simp only [require_some, Except.ok_bind, hvalid, h.graphPoint_ok, integrity, Except.mapError]
    cases hrow : graph.resources[target]? with
    | none => rfl
    | some row =>
      have hbead : row.body.kind = .bead := by
        have hkind := Option.some.inj ((h.consistent.committed target row hrow).symm.trans hcommitted)
        rw [StoredResource.kind, h.consistent.shaped target row hrow, recordShape_kind] at hkind
        exact hkind
      have hall : ((some row.body).all fun record ↦ record.kind == .bead) = true := by
        simp [hbead]
      simp only [Option.map_some, require_some, Except.ok_bind, h.graphVisible_eq hrow]
      rw [check_of hall, Except.ok_bind]
      cases hvisible : graph.isVisible config context row.body with
      | false =>
        rw [Option.filter_some_neg hvisible]
        rfl
      | true =>
        rw [Option.filter_some_pos hvisible]
        rfl

end Aliases

theorem GraphRun.checked (aliases : ∀ path, canonicalPath path = true →
      plane.aliasesScope (config.scope.href ++ path) = true)
    (run : GraphRun config (KeepsPlane config plane.aliasesScope) past graph)
    (readable : ∀ (key : String) (row : StoredResource), graph.resources[key]? = some row →
      config.readable row.body = true) : graph.Checked config plane := by
  have hplain := run.mono fun _ _ h ↦ h.plain
  exact { consistent := hplain.sound.consistent, owned := hplain.owned.1, named := run.named, aliases
          readable }

/-- In a run whose creations take plain identities that are not reserved, a requested read settles
exactly when it takes the Resource that it names for what it is, and every alias settles. -/
theorem reads_settle
    (aliases : ∀ path, canonicalPath path = true →
      plane.aliasesScope (config.scope.href ++ path) = true)
    (run : GraphRun config (KeepsPlane config plane.aliasesScope) past graph)
    (readable : ∀ (key : String) (row : StoredResource), graph.resources[key]? = some row →
      config.readable row.body = true) (context : MemberContext) :
    (∀ request, Requested plane.ports config.scope request →
      (ErrorsIn IsProblem
          (performRead plane (context.options config) (graph.view config context) request) ↔
        graph.AgreesWith config plane request)) ∧
      ∀ path, ErrorsIn IsProblem
        (resolveAlias plane (context.options config) (graph.aliasView config context) path) := by
  have h := run.checked aliases readable
  constructor
  · intro request hrequested
    exact h.performRead_problem_iff hrequested
  · intro path
    have hlive : resolveAlias plane (context.options config) (graph.aliasView config context) path =
        aliasTarget (graph.visibleRecord config { context with captured := [] })
          graph.aliases[path]? :=
      h.resolveAlias_eq run.aliasesNamed rfl path
    rw [hlive]
    exact aliasTarget_problem _ _

section Sample

def wholeCollection (collection : Collection) : ReadRequest :=
  .collection collection
    { type := none, conformsTo := none, source := none, target := none, endpoint := none }
    { limit := none, selector := none, continuation := none }

/-- The Links at an identity, in both directions. -/
def linksAt (id : String) : ReadRequest :=
  .beadLinks id (some .both) { limit := none, selector := none, continuation := none }

def linksView : List (String × String) := [("view", "links")]

end Sample

theorem reads_of_books_settle :
    ErrorsIn IsProblem (performRead samplePlane
      (sampleContext.options (sampleConfiguration .transaction))
      (citedBooks.view (sampleConfiguration .transaction) sampleContext) (linksAt "https://h/a")) :=
  have hvalid : Requested samplePlane.ports (sampleConfiguration .transaction).scope
      (linksAt "https://h/a") := .inl rfl
  ((reads_settle (fun path _ ↦ aliasesSample_append .transaction path) (citedBooks_run .transaction)
    (fun _ _ _ ↦ rfl) sampleContext).1 (linksAt "https://h/a") hvalid).mpr fun _ _ row hrow ↦ by
      obtain rfl : bookRow "a" 5 [sampleCitation "l" "a" "c" 4] = row := Option.some.inj hrow
      rfl

/-- The admitted creation of `bdp/a` lets every later read of the Beads fail. In a run of plain
creations, the URL of the Link `l` stands for a request for its Links, and the route throws. -/
theorem reads_fault :
    (admittedIdentity sampleScope "bdp/a" = true ∧
      GraphRun (sampleConfiguration .transaction) (fun _ _ ↦ True) [Graph.empty] (noteAt "bdp/a") ∧
      validateRequest samplePlane.ports sampleScope (wholeCollection .beads) = .ok () ∧
      performRead samplePlane (sampleContext.options (sampleConfiguration .transaction))
          ((noteAt "bdp/a").view (sampleConfiguration .transaction) sampleContext)
          (wholeCollection .beads) = .error (.fault "invalid stored Resource")) ∧
      requestFromUrl samplePlane.ports sampleScope (resourceUrl sampleScope "l" linksView) =
        .ok (linksAt "https://h/l") ∧
      performRead samplePlane (sampleContext.options (sampleConfiguration .transaction))
          (citedBooks.view (sampleConfiguration .transaction) sampleContext)
          (linksAt "https://h/l") = .error (.fault "incident anchor is not a Bead") ∧
      readRoute samplePlane (sampleContext.options (sampleConfiguration .transaction))
          (citedBooks.view (sampleConfiguration .transaction) sampleContext)
          (resourceUrl sampleScope "l" linksView) = .error "incident anchor is not a Bead" ∧
      GraphRun (sampleConfiguration .transaction)
        (KeepsPlane (sampleConfiguration .transaction) aliasesSample)
        [twoBooks, firstBook, Graph.empty] citedBooks := by
  refine ⟨⟨rfl, ?_, rfl, rfl⟩, rfl, rfl, rfl, citedBooks_run .transaction⟩
  exact .mutated sampleContext (createNote "bdp/a") (noteEvaluation "bdp/a" "bdp/a" 0) .empty
    (captured_nothing _ _ _) trivial ⟨rfl, rfl⟩

end Bdp.Evaluator
