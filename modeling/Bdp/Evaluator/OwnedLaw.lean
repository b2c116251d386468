import Bdp.Evaluator.SnapshotCheck

/-!
# The law of owned Links

In every state of a run, the Beads of owning Types list exactly their live owned Links, every change
of an owned Link has revised its owner, and the graph check of a snapshot passes. The law holds as
long as creations take plain identities outside the reserved paths, and a creation that spells a
scheme behind the Scope breaks it.
-/

namespace Bdp.Evaluator

open Recovery (ResourceKind ResourceShape)
open Transaction (Reference)
open UrlPath (Scope hasScheme canonicalPath)

variable {config : GraphConfiguration} {aliasesScope : String → Bool} {graph after : Graph}
  {past : List Graph}

/-- A member whose creation takes a plain identity that is not reserved. Its references have passed
the preflight: one that aliases the Scope is spelled like the Scope. -/
structure KeepsPlane (config : GraphConfiguration) (aliasesScope : String → Bool)
    (context : MemberContext) (mutation : ResourceMutation) : Prop where
  plain : PlainCreation config context mutation
  unreserved : mutation.creating = true → ∀ path, CheckedPath config context mutation path →
    reservedPath path = false
  spelled : ∀ reference ∈ mutation.beadReferences, hasScheme reference = true →
    config.scope.localPath reference = none → aliasesScope reference = false

structure OwnedLinksLaw (config : GraphConfiguration) (aliasesScope : String → Bool)
    (past : List Graph) (graph : Graph) : Prop where
  plane : ∀ (key : String) (row : StoredResource) (bead : BeadRecord) (descriptor : TypeDescriptor)
    (declarations : OwnedOutgoingDeclarations), graph.resources[key]? = some row →
    row.body = .bead bead → config.descriptor bead.type = some descriptor →
    descriptor.ownsOutgoing = some declarations → ∃ entries, bead.ownedLinks = some entries ∧
      OwnsExactly declarations (LeadsFrom config.scope graph key) entries
  revised : (graph :: past).IsChain fun after before ↦ Revises config before after
  snapshot : checkSnapshot config aliasesScope graph = .ok ()

section Names

variable {context : MemberContext} {mutation : ResourceMutation} {evaluation : ResourceEvaluation}
  {prepared : Prepared} {versions : Versions}

theorem Graph.Named.of_lookup (h : graph.Named config aliasesScope)
    (hsame : ∀ key : String, after.resources[key]? = graph.resources[key]?) :
    after.Named config aliasesScope where
  canonical key row hrow := h.canonical key row (hsame key ▸ hrow)
  external key row hrow := h.external key row (hsame key ▸ hrow)

theorem AdmittedEndpoint.spelled {options : ResourceEvaluationOptions} {tx : ResourceTransaction}
    {reference result : Reference} (h : Graph.Consistent options.scope graph) (hr : Reads graph tx)
    (hend : AdmittedEndpoint options tx reference result)
    (hpath : options.scope.localPath result.uri = none) :
    hasScheme reference.uri = true ∧ result.uri = reference.uri := by
  obtain ⟨spelled, hspelled, ⟨-, huri⟩ | ⟨path, target, -, htarget, -, huri⟩⟩ :=
    resolve_bead_eq_ok hend.resolved
  · obtain ⟨hscheme, rfl⟩ | ⟨-, -, rfl⟩ := canonical_eq_ok hspelled
    · exact ⟨hscheme, huri⟩
    · rw [huri, UrlPath.Scope.localPath_append] at hpath
      cases hpath
  · obtain ⟨hcommitted, -⟩ := hr.aliases path target htarget
    rw [UrlPath.Scope.resolve_plain (h.plain target (Table.mem_of_lookup hcommitted))] at huri
    rw [← Option.some.inj huri, UrlPath.Scope.localPath_append] at hpath
    cases hpath

theorem Graph.Named.step (h : graph.Named config aliasesScope)
    (step : MemberStep config context graph after mutation evaluation prepared versions)
    (admitted : KeepsPlane config aliasesScope context mutation) :
    after.Named config aliasesScope := by
  have hprepared := step.evaluated.isPrepared
  constructor
  case canonical =>
    intro key row hrow
    obtain ⟨rfl, -⟩ | ⟨-, -, -, old, -, -, -, -, -, hold, -⟩ | ⟨-, hold, -⟩ := step.row_cases hrow
    · obtain ⟨hcreating, hcreated⟩ | ⟨-, name, record, hfound⟩ :=
        mutationSubject_spec hprepared.subject
      · obtain ⟨_, _, -, -, hid⟩ := hcreated.named
        exact ⟨(UrlPath.Scope.resourcePath_eq_some.mp hid).2,
          admitted.unreserved hcreating _ ((checkedPath_iff hcreated).mpr rfl)⟩
      · obtain ⟨-, old, hold, -⟩ := hfound.row step.consistent step.reads
        exact h.canonical _ old hold
    · exact h.canonical key old hold
    · exact h.canonical key row hold
  case external =>
    intro key row hrow reference hmem hpath
    obtain ⟨rfl, hafter⟩ | ⟨-, -, -, -, bead, -, -, -, -, -, -, -, hbody⟩ | ⟨-, hold, -⟩ :=
      step.row_cases hrow
    · rw [(after_spec hprepared step.evaluated.made hafter).2.2.2.1] at hmem
      obtain ⟨-, -, ⟨-, hcreating⟩ | ⟨hcreating, old, hold, hbefore, hkind⟩⟩ := step.before
      · -- the references of a new Link have passed the preflight
        obtain ⟨-, hnone⟩ | ⟨hlink, pair, hpair, hends⟩ :=
          mutationEndpoints_spec hprepared.endpoints
        · rw [hnone] at hmem
          cases hmem
        rw [hpair] at hmem
        obtain ⟨source, target, hreferences, hsource, htarget⟩ := hends.referenced
        cases mutation with
        | createBead input => cases hlink
        | update kind input => cases hcreating
        | delete kind name expected => cases hcreating
        | createLink input first second =>
          obtain ⟨rfl, rfl⟩ := Prod.mk.inj (Option.some.inj hreferences)
          obtain rfl | hmem := List.mem_cons.mp hmem
          · obtain ⟨hscheme, huri⟩ := hsource.spelled step.consistent step.reads hpath
            rw [huri] at hpath ⊢
            exact admitted.spelled _ List.mem_cons_self hscheme hpath
          · obtain rfl := List.mem_singleton.mp hmem
            obtain ⟨hscheme, huri⟩ := htarget.spelled step.consistent step.reads hpath
            rw [huri] at hpath ⊢
            exact admitted.spelled _ (List.mem_cons_of_mem _ List.mem_cons_self) hscheme hpath
      · -- an update keeps the addresses
        have huris := pairEnds_of_found step.consistent hprepared hcreating hold hbefore hkind
        have huri : reference.uri ∈ (ends old.body).map Reference.uri :=
          huris ▸ List.mem_map_of_mem hmem
        obtain ⟨earlier, hearlier, hsame⟩ := List.mem_map.mp huri
        rw [← hsame] at hpath ⊢
        exact h.external _ old hold earlier hearlier hpath
    · rw [hbody] at hmem
      cases hmem
    · exact h.external key row hold reference hmem hpath

theorem GraphRun.named (run : GraphRun config (KeepsPlane config aliasesScope) past graph) :
    graph.Named config aliasesScope := by
  induction run with
  | empty =>
    have hnone {key : String} {row : StoredResource} : ¬ Graph.empty.resources[key]? = some row := by
      simp [Graph.empty]
    exact ⟨fun _ _ hrow ↦ absurd hrow hnone, fun _ _ hrow ↦ absurd hrow hnone⟩
  | mutated context mutation evaluation run captured admitted step ih =>
    have hsound := (run.mono fun _ _ h ↦ h.plain).sound
    obtain hsame | ⟨prepared, versions, hstep⟩ := hsound.memberStep captured admitted.plain step
    · exact ih.of_lookup hsame
    · exact ih.step hstep admitted
  | aliased context mutation evaluation run step ih =>
    obtain ⟨hresources, -⟩ := applyAlias_tables step.2
    exact ih.of_lookup fun key ↦ by rw [hresources]
  | unchanged run ih => exact ih

end Names

/-- The law of owned Links, in every run whose members keep the plane. -/
theorem owned_links_law
    (aliases : ∀ path, canonicalPath path = true → aliasesScope (config.scope.href ++ path) = true)
    (run : GraphRun config (KeepsPlane config aliasesScope) past graph) :
    OwnedLinksLaw config aliasesScope past graph := by
  have hrun : GraphRun config (PlainCreation config) past graph := run.mono fun _ _ h ↦ h.plain
  obtain ⟨howned, hchain⟩ := hrun.owned
  constructor
  case plane =>
    intro key row bead descriptor declarations hrow hbody hdescriptor howns
    have hlists := howned.plane key row bead descriptor hrow hbody hdescriptor
    rwa [ListsOwned, howns] at hlists
  case revised => exact hchain
  case snapshot => exact checkSnapshot_ok hrun.sound.consistent howned run.named aliases

variable (store : StoreKind)

section Sample

/-- A URL is in the sample Scope when it starts like it. -/
def aliasesSample (uri : String) : Bool := (sampleScope.localPath uri).isSome

def createBook (id : String) : ResourceMutation :=
  .createBead { type := "book", id := some id, properties := none, metadata := none
                revisionProvenance := none }

def createCitation (id source target : String) : ResourceMutation :=
  .createLink { type := "cites", id := some id, properties := none, metadata := none
                revisionProvenance := none } (plainReference source) (plainReference target)

def sampleCitation (id source target : String) (draw : ℕ) : LinkRecord :=
  { id := "https://h/" ++ id, type := "cites", revision := sampleRevision draw, properties := []
    metadata := [], revisionProvenance := none, source := plainReference ("https://h/" ++ source)
    target := plainReference ("https://h/" ++ target) }

def citationRow (id source target : String) (draw : ℕ) : StoredResource :=
  { id, shape := .link source target, body := .link (sampleCitation id source target draw) }

/-- A book with the citations that it lists. -/
def bookRow (id : String) (draw : ℕ) (citations : List LinkRecord) : StoredResource :=
  { id, shape := .bead
    body := .bead { id := "https://h/" ++ id, type := "book", revision := sampleRevision draw
                    properties := [], metadata := [], revisionProvenance := none
                    ownedLinks := some [("cites", citations)] } }

def bookEvaluation (id : String) (draw : ℕ) : ResourceEvaluation :=
  { outcome := .created (bookRow id draw []).body none
    resolutions := [{ inputPointer := .id, original := plainReference id
                      resolved := plainReference ("https://h/" ++ id) }]
    writes := [bookRow id draw []]
    deleted := none }

/-- What the creation of a citation gives when it writes the row of another path. -/
def citationEvaluation (spelling id source target : String) (draw : ℕ) : ResourceEvaluation :=
  { outcome := .created (.link (sampleCitation id source target draw))
      (some ("https://h/" ++ source, sampleRevision (draw + 1)))
    resolutions :=
      [{ inputPointer := .id, original := plainReference spelling
         resolved := plainReference ("https://h/" ++ id) },
        { inputPointer := .source, original := plainReference source
          resolved := plainReference ("https://h/" ++ source) },
        { inputPointer := .target, original := plainReference target
          resolved := plainReference ("https://h/" ++ target) }]
    writes := [citationRow id source target draw,
      bookRow source (draw + 1) [sampleCitation id source target draw]]
    deleted := none }

/-- The book `a` alone. -/
def firstBook : Graph := { Graph.empty.insertRow (bookRow "a" 0 []) with revisions := 2 }

/-- The books `a` and `c`. -/
def twoBooks : Graph := { firstBook.insertRow (bookRow "c" 2 []) with revisions := 4 }

/-- The book `a` cites the book `c` as `l`. -/
def citedBooks : Graph :=
  { (twoBooks.insertRow (citationRow "l" "a" "c" 4)).insertRow
      (bookRow "a" 5 [sampleCitation "l" "a" "c" 4]) with revisions := 6 }

variable {mutation : ResourceMutation}

theorem checkedPath_sample {store : StoreKind} {id path : String}
    (hid : mutation.suppliedIdentity = some id) (hplain : hasScheme id = false)
    (hchecked : CheckedPath (sampleConfiguration store) sampleContext mutation path) : path = id := by
  obtain ⟨spelling, uri, hspelling, huri, hpath⟩ := hchecked
  rw [MemberContext.identitySpelling, hid] at hspelling
  obtain rfl : id = spelling := Option.some.inj hspelling
  obtain ⟨hscheme, -⟩ | ⟨-, -, rfl⟩ := canonical_eq_ok huri
  · rw [hplain] at hscheme
    cases hscheme
  · exact ((String.append_right_inj _).mp (UrlPath.Scope.resourcePath_eq_some.mp hpath).1).symm

theorem keepsPlane_sample {store : StoreKind} {id : String}
    (hid : mutation.suppliedIdentity = some id) (hplain : hasScheme id = false)
    (hreserved : reservedPath id = false)
    (hlocal : mutation.beadReferences.all (fun reference ↦ !hasScheme reference) = true) :
    KeepsPlane (sampleConfiguration store) aliasesSample sampleContext mutation := by
  constructor
  case plain =>
    intro _ spelling hspelling
    rw [MemberContext.identitySpelling, hid] at hspelling
    rw [← Option.some.inj hspelling, plainIdentity, hplain]
    rfl
  case unreserved =>
    intro _ path hchecked
    rw [checkedPath_sample hid hplain hchecked]
    exact hreserved
  case spelled =>
    intro reference hreference hscheme
    have hnot := List.all_eq_true.mp hlocal reference hreference
    rw [hscheme] at hnot
    cases hnot

theorem twoBooks_run :
    GraphRun (sampleConfiguration store) (KeepsPlane (sampleConfiguration store) aliasesSample)
      [firstBook, Graph.empty] twoBooks := by
  have first : GraphRun (sampleConfiguration store)
      (KeepsPlane (sampleConfiguration store) aliasesSample) [Graph.empty] firstBook := by
    refine .mutated sampleContext (createBook "a") (bookEvaluation "a" 0) .empty
      (captured_nothing _ _ _) (keepsPlane_sample rfl rfl rfl rfl) ?_
    cases store <;> exact ⟨rfl, rfl⟩
  refine .mutated sampleContext (createBook "c") (bookEvaluation "c" 2) first
    (captured_nothing _ _ _) (keepsPlane_sample rfl rfl rfl rfl) ?_
  cases store <;> exact ⟨rfl, rfl⟩

theorem citedBooks_run :
    GraphRun (sampleConfiguration store) (KeepsPlane (sampleConfiguration store) aliasesSample)
      [twoBooks, firstBook, Graph.empty] citedBooks := by
  refine .mutated sampleContext (createCitation "l" "a" "c") (citationEvaluation "l" "l" "a" "c" 4)
    (twoBooks_run store) (captured_nothing _ _ _) (keepsPlane_sample rfl rfl rfl rfl) ?_
  cases store <;> exact ⟨rfl, rfl⟩

end Sample

theorem aliasesSample_append (path : String) :
    aliasesSample ((sampleConfiguration store).scope.href ++ path) = true := by
  have hpath : sampleScope.localPath (sampleScope.href ++ path) = some path :=
    UrlPath.Scope.localPath_append path
  change (sampleScope.localPath (sampleScope.href ++ path)).isSome = true
  rw [hpath]
  rfl

theorem owned_links_law_of_books :
    OwnedLinksLaw (sampleConfiguration .recovery) aliasesSample [twoBooks, firstBook, Graph.empty]
      citedBooks :=
  owned_links_law (fun path _ ↦ aliasesSample_append .recovery path) (citedBooks_run .recovery)

/-- The citation `l` with the source `c`, in the columns of the one with the source `a`. -/
def overwrittenBooks : Graph :=
  { (citedBooks.insertRow (citationRow "l" "c" "a" 6)).insertRow
      (bookRow "c" 7 [sampleCitation "l" "c" "a" 6]) with revisions := 8 }

/-- In the transaction store the admitted identity `https://h/https:l` overwrites the citation `l` of
the book `a`, which still lists the old one. The graph check of a snapshot fails. -/
theorem owned_links_law_fails_on_scheme :
    admittedIdentity sampleScope "https://h/https:l" = true ∧
      GraphRun (sampleConfiguration .transaction) (fun _ _ ↦ True)
        [citedBooks, twoBooks, firstBook, Graph.empty] overwrittenBooks ∧
      overwrittenBooks.resources["a"]? = some (bookRow "a" 5 [sampleCitation "l" "a" "c" 4]) ∧
      overwrittenBooks.resources["l"]?.map StoredResource.body =
        some (.link (sampleCitation "l" "c" "a" 6)) ∧
      checkSnapshot (sampleConfiguration .transaction) aliasesSample overwrittenBooks =
        .error "owned inventory mismatch" ∧
      ¬ OwnedLinksLaw (sampleConfiguration .transaction) aliasesSample
        [citedBooks, twoBooks, firstBook, Graph.empty] overwrittenBooks := by
  have hcheck : checkSnapshot (sampleConfiguration .transaction) aliasesSample overwrittenBooks =
      .error "owned inventory mismatch" := rfl
  refine ⟨rfl, ?_, rfl, rfl, hcheck, fun hlaw ↦ ?_⟩
  · exact .mutated sampleContext (createCitation "https://h/https:l" "c" "a")
      (citationEvaluation "https://h/https:l" "l" "c" "a" 6)
      ((citedBooks_run .transaction).mono fun _ _ _ ↦ trivial) (captured_nothing _ _ _) trivial
      ⟨rfl, rfl⟩
  · have hpassed := hlaw.snapshot
    rw [hcheck] at hpassed
    cases hpassed

end Bdp.Evaluator
