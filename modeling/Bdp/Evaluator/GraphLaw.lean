import Bdp.Evaluator.Creation

/-!
# The law of the Resource graph

What holds in every state of a run of Resource and alias mutations: Links lead to live Beads,
identities are never reused and never change kind, and aliases stay clear of committed identities
and target committed Beads. The law needs creations to take plain identities.
-/

namespace Bdp.Evaluator

open Recovery (ResourceKind ResourceShape)
open UrlPath (Scope hasScheme)

variable {config : GraphConfiguration} {graph : Graph} {past : List Graph}

/-- The law of a graph with the graphs before it, when members meet the condition. -/
structure GraphLaw (config : GraphConfiguration)
    (admits : MemberContext → ResourceMutation → Prop) (past : List Graph) (graph : Graph) :
    Prop where
  /-- A live Link has an endpoint in the Scope. -/
  anchored : ∀ (key : String) (row : StoredResource) (link : LinkRecord),
    graph.resources[key]? = some row → row.body = .link link →
      (config.scope.localPath link.source.uri).isSome ∨
        (config.scope.localPath link.target.uri).isSome
  /-- An endpoint in the Scope names a live Bead. -/
  linked : ∀ (key : String) (row : StoredResource) (link : LinkRecord),
    graph.resources[key]? = some row → row.body = .link link → ∀ reference ∈ [link.source, link.target], ∀ name,
      config.scope.localPath reference.uri = some name →
        ∃ found bead, graph.resources[name]? = some found ∧ found.kind = .bead ∧
          found.body = .bead bead
  /-- Committed identities stay committed under their kind, and live rows have that kind. -/
  kinds : ∀ earlier ∈ past, ∀ (key : String) (kind : ResourceKind), earlier.identities[key]? = some kind →
    graph.identities[key]? = some kind
  live : ∀ (key : String) (row : StoredResource), graph.resources[key]? = some row →
    graph.identities[key]? = some row.kind
  /-- A deleted Resource does not come back. -/
  retired : ∀ earlier ∈ past, ∀ (key : String), key ∈ earlier.identities → key ∉ earlier.resources →
    key ∉ graph.resources
  /-- A further creation takes an identity that is not committed. -/
  fresh : ∀ context mutation evaluation, CapturedFrom config (graph :: past) context mutation →
    admits context mutation → evaluate (context.options config) (graph.view config context) mutation =
      .ok evaluation → ∀ record source, evaluation.outcome = .created record source →
        ∀ (key : String), record.id = config.scope.href ++ key → key ∉ graph.identities
  unaliased : ∀ (path : String), path ∈ graph.aliases → "alias/" ++ path ∉ graph.identities
  /-- A live alias targets an identity committed as a Bead, never an alias. -/
  targets : ∀ (path target : String), graph.aliases[path]? = some target →
    graph.identities[target]? = some .bead ∧ aliasPath target = none

theorem Graph.Consistent.bead_body {scope : Scope} (h : Graph.Consistent scope graph) {key : String}
    {row : StoredResource} (hrow : graph.resources[key]? = some row) (hbead : IsBeadRow row) :
    ∃ bead, row.body = .bead bead := by
  cases hbody : row.body with
  | bead bead => exact ⟨bead, rfl⟩
  | link link =>
    have hkind := recordShape_kind scope row.body
    rw [← h.shaped key row hrow, hbody] at hkind
    rw [IsBeadRow, StoredResource.kind, hkind] at hbead
    cases hbead

theorem Evaluated.creating {options : ResourceEvaluationOptions} {tx : ResourceTransaction}
    {mutation : ResourceMutation} {evaluation : ResourceEvaluation} {prepared : Prepared}
    {versions : Versions} {record : ResourceRecord} {source : Option (String × String)}
    (he : Evaluated options tx mutation evaluation prepared versions)
    (hcreated : evaluation.outcome = .created record source) : mutation.creating = true := by
  have houtcome := he.outcome
  rw [hcreated] at houtcome
  unfold mutationOutcome at houtcome
  cases mutation with
  | createBead input => rfl
  | createLink input source target => rfl
  | update kind input => cases hafter : versions.after <;> simp [hafter] at houtcome
  | delete kind name expected =>
    cases hafter : versions.after with
    | none => cases hbefore : prepared.subject.before <;> simp [hafter, hbefore] at houtcome
    | some after => cases (after_spec he.isPrepared he.made hafter).1

/-- The law holds in every state of a run whose creations take plain identities. -/
theorem graph_law (run : GraphRun config (PlainCreation config) past graph) :
    GraphLaw config (PlainCreation config) past graph := by
  have hsound := run.sound
  have h := hsound.consistent
  have hbefore {earlier : Graph} (hearlier : earlier ∈ past) : Graph.Extends earlier graph :=
    (hsound earlier (List.mem_cons_of_mem _ hearlier)).2
  constructor
  case anchored =>
    intro key row link hrow hbody
    have hkind : row.kind = .link := by
      rw [StoredResource.kind, h.shaped key row hrow, recordShape_kind, hbody]
      rfl
    have hends := h.anchored key row hrow hkind
    rw [hbody] at hends
    by_contra hnone
    rw [not_or, Option.not_isSome_iff_eq_none, Option.not_isSome_iff_eq_none] at hnone
    exact hends (by simp [localEnds, ends, hnone])
  case linked =>
    intro key row link hrow hbody reference hreference name hname
    have hmem : name ∈ localEnds config.scope row.body := by
      rw [hbody]
      exact List.mem_filterMap.mpr ⟨reference, hreference, hname⟩
    obtain ⟨found, hfound, hbead⟩ := h.linked key row hrow name hmem
    obtain ⟨bead, hbeadBody⟩ := h.bead_body hfound hbead
    exact ⟨found, bead, hfound, hbead, hbeadBody⟩
  case kinds => exact fun earlier hearlier ↦ (hbefore hearlier).identities
  case live => exact h.committed
  case retired => exact fun earlier hearlier ↦ (hbefore hearlier).retired
  case fresh =>
    intro context mutation evaluation captured plain evaluated record source houtcome key hkey
    obtain ⟨prepared, versions, he⟩ := evaluate_spec evaluated
    have hcreating := he.creating houtcome
    obtain ⟨path, found, row, hexact⟩ := creation_exact hsound captured hcreating evaluated plain
    obtain ⟨source', houtcome'⟩ := hexact.outcome
    obtain ⟨rfl, -⟩ := MutationOutcome.created.inj (houtcome.symm.trans houtcome')
    have hpath : key = path := (String.append_right_inj _).mp (hkey.symm.trans hexact.named)
    exact hpath ▸ hexact.uncommitted
  case unaliased => exact h.unaliased
  case targets => exact h.targets

section Sample

def createCite (id : String) : ResourceMutation :=
  .createLink { type := "cites", id := some id, properties := none, metadata := none
                revisionProvenance := none } (plainReference "a") (plainReference "a")

/-- A citation of the note `a` by itself. -/
def sampleCite (id : String) (draw : ℕ) : LinkRecord :=
  { id := "https://h/" ++ id, type := "cites", revision := sampleRevision draw, properties := []
    metadata := [], revisionProvenance := none, source := plainReference "https://h/a"
    target := plainReference "https://h/a" }

def citeRow (id : String) (draw : ℕ) : StoredResource :=
  { id, shape := .link "a" "a", body := .link (sampleCite id draw) }

/-- The note `a` with the citation `l`. -/
def citedNote : Graph := { noteGraph.insertRow (citeRow "l" 2) with revisions := 4 }

def citeEvaluation (id : String) (draw : ℕ) : ResourceEvaluation :=
  { outcome := .created (.link (sampleCite id draw)) none
    resolutions :=
      [{ inputPointer := .id, original := plainReference id
         resolved := plainReference ("https://h/" ++ id) },
        { inputPointer := .source, original := plainReference "a"
          resolved := plainReference "https://h/a" },
        { inputPointer := .target, original := plainReference "a"
          resolved := plainReference "https://h/a" }]
    writes := [citeRow id draw]
    deleted := none }

/-- The cited note under the alias `n`. -/
def aliasedNote : Graph := { citedNote with aliases := citedNote.aliases.insert "n" "a" }

theorem aliasedNote_run :
    GraphRun (sampleConfiguration .recovery) (PlainCreation (sampleConfiguration .recovery))
      [citedNote, noteGraph, Graph.empty] aliasedNote :=
  .aliased sampleContext (.putAlias "alias/n" "a")
    { outcome := .created "https://h/alias/n" "https://h/a", change := .put "n" "a" }
    (.mutated sampleContext (createCite "l") (citeEvaluation "l" 2) (noteGraph_run .recovery)
      (captured_nothing _ _ _) (fun _ _ h ↦ Option.some.inj h ▸ rfl) ⟨rfl, rfl⟩) ⟨rfl, rfl⟩

end Sample

/-- Of a note, a citation of it and an alias. -/
theorem graph_law_of_notes :
    GraphLaw (sampleConfiguration .recovery) (PlainCreation (sampleConfiguration .recovery))
        [citedNote, noteGraph, Graph.empty] aliasedNote ∧
      aliasedNote.resources["l"]? = some (citeRow "l" 2) ∧ aliasedNote.aliases["n"]? = some "a" :=
  ⟨graph_law aliasedNote_run, rfl, rfl⟩

/-- The note `a` after its deletion. -/
def retiredGraph : Graph :=
  { noteGraph with resources := noteGraph.resources.erase "a", revisions := 4 }

def retirement : ResourceEvaluation :=
  { outcome := .deleted .bead "https://h/a" "note" "r" none
    resolutions := [{ inputPointer := .bead, original := plainReference "a"
                      resolved := plainReference "https://h/a" }]
    writes := []
    deleted := some "a" }

/-- A creation as `https://h/https:a` brings the deleted identity `a` back in the transaction
store. -/
theorem graph_law_fails_on_scheme : ∃ past graph,
    GraphRun (sampleConfiguration .transaction) (fun _ _ ↦ True) past graph ∧
      ¬ GraphLaw (sampleConfiguration .transaction) (fun _ _ ↦ True) past graph := by
  have run : GraphRun (sampleConfiguration .transaction) (fun _ _ ↦ True)
      [noteGraph, Graph.empty] retiredGraph :=
    .mutated sampleContext (.delete .bead "a" none) retirement
      ((noteGraph_run .transaction).mono fun _ _ _ ↦ trivial) (captured_nothing _ _ _) trivial
      ⟨rfl, rfl⟩
  refine ⟨_, { retiredGraph.insertRow (noteRow "a" 4) with revisions := 6 },
    .mutated sampleContext (createNote "https://h/https:a")
      (noteEvaluation "https://h/https:a" "a" 4) run (captured_nothing _ _ _) trivial ⟨rfl, rfl⟩,
    fun hlaw ↦ ?_⟩
  refine hlaw.retired retiredGraph List.mem_cons_self "a" ?_ ?_ ?_
  · exact Table.mem_of_lookup (show _ = some ResourceKind.bead from rfl)
  · exact Table.lookup_eq_none_iff.mp rfl
  · exact Table.mem_of_lookup (show _ = some (noteRow "a" 4) from rfl)

end Bdp.Evaluator
