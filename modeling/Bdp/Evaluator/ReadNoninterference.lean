import Bdp.Evaluator.ReadSettles

/-!
# Noninterference of reads

Two stores that show the same records to a principal, and the same aliases to visible Beads, answer
each read alike, as long as the request takes what it names for what it is in both of them or in
neither. A request for the Links of a hidden Link tells it from nothing.
-/

namespace Bdp.Evaluator

open Recovery (ResourceKind ResourceShape)
open UrlPath (Scope hasScheme canonicalPath)

variable {config : GraphConfiguration} {plane : ReadPlane} {graph other : Graph}
  {context : MemberContext}

variable {record : ResourceRecord} {key : String}

section Visible

/-- Two graphs show a principal the same records, and the same aliases to them. -/
structure ShowsSame (config : GraphConfiguration) (context : MemberContext) (graph other : Graph) :
    Prop where
  records : ∀ key, graph.visibleRecord config context key = other.visibleRecord config context key
  aliases : ∀ path : String, graph.aliases[path]?.bind (graph.visibleRecord config context) =
    other.aliases[path]?.bind (other.visibleRecord config context)

def Graph.visibleEntries (config : GraphConfiguration) (graph : Graph) (context : MemberContext) :
    List (String × ResourceRecord) :=
  (graph.resources.toList.map fun entry ↦ (entry.1, entry.2.body)).filter fun entry ↦
    graph.isVisible config context entry.2

theorem visibleRecords_eq_map : graph.visibleRecords config context =
    (graph.visibleEntries config context).map Prod.snd := by
  unfold Graph.visibleRecords Graph.visibleEntries
  rw [List.map_map, List.filter_map, List.filter_map, List.map_map]
  rfl

theorem mem_visibleEntries : (key, record) ∈ graph.visibleEntries config context ↔
      graph.visibleRecord config context key = some record := by
  unfold Graph.visibleEntries Graph.visibleRecord
  rw [List.mem_filter, List.mem_map, Option.filter_eq_some_iff, Option.map_eq_some_iff]
  apply and_congr_left
  intro _
  constructor
  · rintro ⟨⟨found, row⟩, hmem, heq⟩
    obtain ⟨rfl, rfl⟩ := Prod.mk.inj heq
    exact ⟨row, Table.mem_toList.mp hmem, rfl⟩
  · rintro ⟨row, hrow, rfl⟩
    exact ⟨(key, row), Table.mem_toList.mpr hrow, rfl⟩

theorem visibleEntries_sorted :
    (graph.visibleEntries config context).Pairwise fun first second ↦ first.1 < second.1 := by
  have hsorted : (graph.resources.toList.map fun entry ↦ (entry.1, entry.2.body)).Pairwise
      fun first second ↦ first.1 < second.1 := by
    rw [List.pairwise_map]
    exact List.pairwise_map.mp (Table.toList_sorted graph.resources)
  exact hsorted.sublist List.filter_sublist

theorem ShowsSame.visibleRecords (h : ShowsSame config context graph other) :
    graph.visibleRecords config context = other.visibleRecords config context := by
  have hentries : graph.visibleEntries config context = other.visibleEntries config context := by
    have hperm : (graph.visibleEntries config context).Perm (other.visibleEntries config context) := by
      rw [List.perm_ext_iff_of_nodup]
      · rintro ⟨key, record⟩
        rw [mem_visibleEntries, mem_visibleEntries, h.records]
      · exact visibleEntries_sorted.imp fun hlt heq ↦ absurd (heq ▸ hlt) (lt_irrefl _)
      · exact visibleEntries_sorted.imp fun hlt heq ↦ absurd (heq ▸ hlt) (lt_irrefl _)
    apply hperm.eq_of_pairwise ?_ visibleEntries_sorted visibleEntries_sorted
    intro first second _ _ hlt hgt
    exact absurd (hlt.trans hgt) (lt_irrefl _)
  calc graph.visibleRecords config context
      = (graph.visibleEntries config context).map Prod.snd := visibleRecords_eq_map
    _ = (other.visibleEntries config context).map Prod.snd := by rw [hentries]
    _ = other.visibleRecords config context := visibleRecords_eq_map.symm

end Visible

section Reads

theorem ShowsSame.performRead_eq_iff (h : ShowsSame config context graph other)
    (hgraph : graph.Checked config plane) (hother : other.Checked config plane)
    (request : ReadRequest) :
    performRead plane (context.options config) (graph.view config context) request =
        performRead plane (context.options config) (other.view config context) request ↔
      (validateRequest plane.ports config.scope request = .ok () →
        (graph.AgreesWith config plane request ↔ other.AgreesWith config plane request)) := by
  have hrecords : graph.visibleRecord config context = other.visibleRecord config context :=
    funext h.records
  cases hvalid : validateRequest plane.ports config.scope request with
  | error stop =>
    have hrefused (shown : Graph) :
        performRead plane (context.options config) (shown.view config context) request =
          .error stop := by
      change (validateRequest plane.ports config.scope request >>= fun _ ↦ _) = _
      rw [hvalid]
      rfl
    rw [hrefused graph, hrefused other]
    exact ⟨fun _ hok ↦ (nomatch hok), fun _ ↦ rfl⟩
  | ok _ =>
    have hrequested : Requested plane.ports config.scope request := .inl hvalid
    constructor
    · intro hsame _
      have hsettles : ErrorsIn IsProblem
          (performRead plane (context.options config) (graph.view config context) request) ↔
            graph.AgreesWith config plane request := hgraph.performRead_problem_iff hrequested
      rw [← hsettles, hsame]
      exact hother.performRead_problem_iff hrequested
    · intro hiff
      have hiff := hiff rfl
      by_cases hagrees : graph.AgreesWith config plane request
      · rw [hgraph.performRead_eq hrequested hagrees,
          hother.performRead_eq hrequested (hiff.mp hagrees), hrecords, h.visibleRecords]
      · have hnot : ¬ other.AgreesWith config plane request := fun h ↦ hagrees (hiff.mpr h)
        rw [hgraph.performRead_fault hrequested hagrees, hother.performRead_fault hrequested hnot]

theorem aliasTarget_eq (record : String → Option ResourceRecord) (target : Option String) :
    aliasTarget record target =
      (require (target.bind record) (.problem .resourceNotFound)).map ResourceRecord.id := by
  cases target with
  | none => rfl
  | some target =>
    unfold aliasTarget
    rw [require_some, Except.ok_bind, Option.bind_some]
    cases record target with
    | none => rfl
    | some record => rfl

theorem ShowsSame.resolveAlias_eq (h : ShowsSame config context graph other)
    (hgraph : graph.Checked config plane) (hother : other.Checked config plane)
    (hnamed : graph.AliasesNamed) (hnamed' : other.AliasesNamed) (hcaptured : context.captured = [])
    (path : String) :
    resolveAlias plane (context.options config) (graph.view config context) path =
      resolveAlias plane (context.options config) (other.view config context) path := by
  calc resolveAlias plane (context.options config) (graph.view config context) path
      = aliasTarget (graph.visibleRecord config context) graph.aliases[path]? :=
        hgraph.resolveAlias_eq hnamed hcaptured path
    _ = aliasTarget (other.visibleRecord config context) other.aliases[path]? := by
        rw [aliasTarget_eq, aliasTarget_eq, h.aliases path]
    _ = resolveAlias plane (context.options config) (other.view config context) path :=
        (hother.resolveAlias_eq hnamed' hcaptured path).symm

/-- Stores that show the same records answer every read alike, unless it takes what it names for what
it is in one of them only, and resolve every alias alike. -/
theorem reads_noninterfering (hgraph : graph.Checked config plane)
    (hother : other.Checked config plane) (hnamed : graph.AliasesNamed)
    (hnamed' : other.AliasesNamed) (hcaptured : context.captured = [])
    (h : ShowsSame config context graph other) :
    (∀ request,
      performRead plane (context.options config) (graph.view config context) request =
          performRead plane (context.options config) (other.view config context) request ↔
        (validateRequest plane.ports config.scope request = .ok () →
          (graph.AgreesWith config plane request ↔ other.AgreesWith config plane request))) ∧
      ∀ path, resolveAlias plane (context.options config) (graph.view config context) path =
        resolveAlias plane (context.options config) (other.view config context) path :=
  ⟨fun request ↦ h.performRead_eq_iff hgraph hother request,
    fun path ↦ h.resolveAlias_eq hgraph hother hnamed hnamed' hcaptured path⟩

end Reads

section Sample

def readerContext (canRead : ResourceRecord → Bool) : MemberContext :=
  { sampleContext with
    policy := { canRead, canCreate := fun _ ↦ false, canWrite := fun _ _ ↦ false } }

theorem isVisible_of_hidden (hhidden : context.policy.canRead record = false) :
    graph.isVisible config context record = false := by
  obtain ⟨fuel, hfuel⟩ : ∃ fuel, closureBound (graph.view config context) record = fuel + 1 :=
    ⟨_, (Nat.succ_pred_eq_of_pos (by unfold closureBound; omega)).symm⟩
  unfold Graph.isVisible isResourceVisible
  rw [hfuel]
  unfold visitPending
  rw [if_neg (by simp), if_pos (show (context.options config).policy.canRead record = false from hhidden)]

theorem visibleRecord_of_only {name : String} (hconsistent : Graph.Consistent config.scope graph)
    (hpolicy : context.policy.canRead = fun record ↦ record.id == config.scope.href ++ name)
    (hkey : key ≠ name) : graph.visibleRecord config context key = none := by
  unfold Graph.visibleRecord
  cases hrow : graph.resources[key]? with
  | none => rfl
  | some row =>
    have hid : row.body.id ≠ config.scope.href ++ name := by
      rw [(hconsistent.keyed key row hrow).2, ne_eq, String.append_right_inj]
      exact hkey
    have hhidden : context.policy.canRead row.body = false := by
      rw [hpolicy]
      exact beq_eq_false_iff_ne.mpr hid
    exact Option.filter_some_neg (isVisible_of_hidden hhidden)

theorem checked_of_run {past : List Graph} (run : GraphRun (sampleConfiguration .transaction)
      (KeepsPlane (sampleConfiguration .transaction) aliasesSample) past graph) :
    graph.Checked (sampleConfiguration .transaction) samplePlane :=
  GraphRun.checked (fun path _ ↦ aliasesSample_append .transaction path) run fun _ _ _ ↦ rfl

/-- A principal who may read the book `c` alone. -/
def onlyC : MemberContext := readerContext fun record ↦ record.id == "https://h/" ++ "c"

theorem showsSame_books :
    ShowsSame (sampleConfiguration .transaction) onlyC citedBooks twoBooks := by
  have hcited := (checked_of_run (citedBooks_run .transaction)).consistent
  have htwo := (checked_of_run (twoBooks_run .transaction)).consistent
  constructor
  · intro key
    by_cases hkey : key = "c"
    · subst hkey
      rfl
    · rw [visibleRecord_of_only hcited rfl hkey, visibleRecord_of_only htwo rfl hkey]
  · intro path
    simp [citedBooks, twoBooks, firstBook, Graph.insertRow, Graph.empty]

end Sample

theorem books_noninterfering :
    performRead samplePlane (onlyC.options (sampleConfiguration .transaction))
        (citedBooks.view (sampleConfiguration .transaction) onlyC) (wholeCollection .beads) =
      performRead samplePlane (onlyC.options (sampleConfiguration .transaction))
        (twoBooks.view (sampleConfiguration .transaction) onlyC) (wholeCollection .beads) :=
  ((reads_noninterfering (checked_of_run (citedBooks_run .transaction))
    (checked_of_run (twoBooks_run .transaction)) (citedBooks_run .transaction).aliasesNamed
    (twoBooks_run .transaction).aliasesNamed rfl showsSame_books).1 (wholeCollection .beads)).mpr
      fun _ ↦ Iff.rfl

def nobody : MemberContext := readerContext fun _ ↦ false

/-- The cited books and an empty store show nothing to a principal who may read nothing. The Links of
the hidden Link `l` are an integrity error in the first one, and not found in the other one. -/
theorem reads_interfere :
    ShowsSame (sampleConfiguration .transaction) nobody citedBooks Graph.empty ∧
      citedBooks.Checked (sampleConfiguration .transaction) samplePlane ∧
      Graph.empty.Checked (sampleConfiguration .transaction) samplePlane ∧
      validateRequest samplePlane.ports sampleScope (linksAt "https://h/l") = .ok () ∧
      performRead samplePlane (nobody.options (sampleConfiguration .transaction))
          (citedBooks.view (sampleConfiguration .transaction) nobody) (linksAt "https://h/l") =
        .error (.fault "incident anchor is not a Bead") ∧
      performRead samplePlane (nobody.options (sampleConfiguration .transaction))
          (Graph.empty.view (sampleConfiguration .transaction) nobody) (linksAt "https://h/l") =
        .error (.problem .resourceNotFound) ∧
      readRoute samplePlane (nobody.options (sampleConfiguration .transaction))
          (citedBooks.view (sampleConfiguration .transaction) nobody)
          (resourceUrl sampleScope "l" linksView) = .error "incident anchor is not a Bead" ∧
      readRoute samplePlane (nobody.options (sampleConfiguration .transaction))
          (Graph.empty.view (sampleConfiguration .transaction) nobody)
          (resourceUrl sampleScope "l" linksView) = .ok (.problem .resourceNotFound) := by
  have hhidden (graph : Graph) (key : String) :
      graph.visibleRecord (sampleConfiguration .transaction) nobody key = none := by
    unfold Graph.visibleRecord
    cases graph.resources[key]? with
    | none => rfl
    | some row => exact Option.filter_some_neg (isVisible_of_hidden rfl)
  refine ⟨⟨fun key ↦ ?_, fun path ↦ ?_⟩, checked_of_run (citedBooks_run .transaction),
    checked_of_run .empty, rfl, rfl, rfl, rfl, rfl⟩
  · rw [hhidden, hhidden]
  · simp [citedBooks, twoBooks, firstBook, Graph.insertRow, Graph.empty]

end Bdp.Evaluator
