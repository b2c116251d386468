import Bdp.Evaluator.ReadVisits

/-!
# What reads give

On a checked graph every read of the plane is a function of the visible records alone, except that a
request which takes a Resource for the wrong kind ends in an integrity error.
-/

namespace Bdp.Evaluator

open Recovery (ResourceKind ResourceShape)
open Transaction (Reference)
open UrlPath (Scope hasScheme canonicalPath)
open Bdp.Except (ok_bind)

variable {config : GraphConfiguration} {plane : ReadPlane} {graph : Graph} {context : MemberContext}
variable {row : StoredResource} {key : String}

section Visible

/-- Whether the closure of a record may be read. -/
def Graph.isVisible (config : GraphConfiguration) (graph : Graph) (context : MemberContext)
    (record : ResourceRecord) : Bool :=
  match isResourceVisible (context.options config) (graph.view config context) record with
  | .ok visible => visible
  | .error _ => false

def Graph.visibleRecord (config : GraphConfiguration) (graph : Graph) (context : MemberContext)
    (key : String) : Option ResourceRecord :=
  (graph.resources[key]?.map StoredResource.body).filter (graph.isVisible config context)

def Graph.visibleRecords (config : GraphConfiguration) (graph : Graph) (context : MemberContext) :
    List ResourceRecord :=
  ((graph.resources.toList.map Prod.snd).map StoredResource.body).filter
    (graph.isVisible config context)

theorem Graph.Checked.graphVisible_eq (h : graph.Checked config plane)
    (hrow : graph.resources[key]? = some row) :
    graphVisible plane (context.options config) (graph.view config context) row.body =
      .ok (graph.isVisible config context row.body) := by
  obtain ⟨visible, hvisible, hplane⟩ := h.visible_ok context hrow
  rw [hplane, Graph.isVisible, hvisible]

end Visible

section Points

/-- A request takes the named Resource for what it is. -/
def Graph.Agrees (config : GraphConfiguration) (graph : Graph) (requested : RequestedResource)
    (id : String) : Prop :=
  ∀ row, graph.resources[sliceScope config id]? = some row → disagrees requested row.body = false

variable {requested : RequestedResource}

theorem Graph.Checked.pointRead_eq (h : graph.Checked config plane)
    {id : String} (hagrees : graph.Agrees config requested id) :
    pointRead plane (context.options config) (graph.view config context) requested id =
      require (graph.visibleRecord config context (sliceScope config id))
        (.problem .resourceNotFound) := by
  have hslice : localSlice (context.options config) id = sliceScope config id := rfl
  unfold pointRead Graph.visibleRecord
  rw [hslice, h.graphPoint_ok]
  simp only [integrity, Except.mapError, ok_bind]
  cases hrow : graph.resources[sliceScope config id]? with
  | none => rfl
  | some row =>
    simp only [Option.map_some, require_some, ok_bind, h.graphVisible_eq hrow]
    rw [check_of (hagrees row hrow), ok_bind]
    cases hvisible : graph.isVisible config context row.body with
    | false =>
      rw [Option.filter_some_neg hvisible]
      rfl
    | true =>
      rw [Option.filter_some_pos hvisible]
      rfl

theorem Graph.Checked.pointRead_fault (h : graph.Checked config plane)
    {id : String} (hnot : ¬ graph.Agrees config requested id) :
    pointRead plane (context.options config) (graph.view config context) requested id =
      .error (.fault "requested Resource kind disagrees with row") := by
  unfold Graph.Agrees at hnot
  push Not at hnot
  obtain ⟨row, hrow, hdisagrees⟩ := hnot
  have hslice : localSlice (context.options config) id = sliceScope config id := rfl
  unfold pointRead
  rw [hslice, h.graphPoint_ok, hrow]
  simp only [integrity, Except.mapError, ok_bind, Option.map_some, require_some]
  rw [check_of_not hdisagrees]
  rfl

end Points

section Items

theorem Graph.Checked.visibleItems_eq (h : graph.Checked config plane)
    {admits : ResourceRecord → Except String Bool} {admitted : ResourceRecord → Bool}
    {rows : List StoredResource} {items : List ResourceRecord}
    (hrows : ∀ row ∈ rows, graph.resources[row.id]? = some row)
    (hnodup : (rows.map StoredResource.id).Nodup)
    (hitems : ∀ row ∈ rows, ∀ item ∈ items, item.id ≠ row.body.id)
    (hadmits : ∀ row ∈ rows, admits row.body = .ok (admitted row.body)) :
    visibleItems plane (context.options config) (graph.view config context) admits rows items =
      .ok (items ++ (rows.map StoredResource.body).filter fun record ↦
        admitted record && graph.isVisible config context record) := by
  induction rows generalizing items with
  | nil => simp [visibleItems]
  | cons row rows ih =>
    have hrow := hrows row List.mem_cons_self
    obtain ⟨hnotMem, hnodup⟩ := List.nodup_cons.mp hnodup
    have hothers (other : StoredResource) (hother : other ∈ rows) : row.body.id ≠ other.body.id := by
      intro heq
      rw [(h.consistent.keyed row.id row hrow).2,
        (h.consistent.keyed other.id other (hrows other (List.mem_cons_of_mem _ hother))).2] at heq
      rw [(String.append_right_inj _).mp heq] at hnotMem
      exact hnotMem (List.mem_map_of_mem hother)
    have hnew : items.any (fun item ↦ item.id == row.body.id) = false := by
      rw [List.any_eq_false]
      intro item hitem
      simpa using hitems row List.mem_cons_self item hitem
    have hstep : visibleItems plane (context.options config) (graph.view config context) admits
          (row :: rows) items =
        visibleItems plane (context.options config) (graph.view config context) admits rows
          (if admitted row.body && graph.isVisible config context row.body then items ++ [row.body]
            else items) := by
      conv_lhs => unfold visibleItems
      rw [h.graphAccept_ok hrow, ok_bind, hadmits row List.mem_cons_self, ok_bind]
      simp only [hnew, Bool.not_false, Bool.and_true]
      cases admitted row.body with
      | false => rfl
      | true =>
        rw [if_pos rfl, h.graphVisible_eq hrow, ok_bind, Bool.true_and]
    rw [hstep, List.map_cons, List.filter_cons]
    have hrest (more : List ResourceRecord) (hmore : ∀ item ∈ more, item = row.body) :
        visibleItems plane (context.options config) (graph.view config context) admits rows
            (items ++ more) =
          .ok (items ++ more ++ (rows.map StoredResource.body).filter fun record ↦
            admitted record && graph.isVisible config context record) := by
      apply ih
      · exact fun other hother ↦ hrows other (List.mem_cons_of_mem _ hother)
      · exact hnodup
      · intro other hother item hitem
        rw [List.mem_append] at hitem
        obtain hitem | hitem := hitem
        · exact hitems other (List.mem_cons_of_mem _ hother) item hitem
        · rw [hmore item hitem]
          exact hothers other hother
      · exact fun other hother ↦ hadmits other (List.mem_cons_of_mem _ hother)
    split
    · rw [hrest [row.body] (by simp), List.append_assoc]
      rfl
    · have hnothing := hrest [] (by simp)
      rwa [List.append_nil] at hnothing

theorem rows_of_view (row : StoredResource) (h : graph.Checked config plane)
    (hrow : row ∈ (graph.view config context).rows) : graph.resources[row.id]? = some row := by
  obtain ⟨⟨key, found⟩, hmem, rfl⟩ := List.mem_map.mp hrow
  have hfound : graph.resources[key]? = some found := Table.mem_toList.mp hmem
  rw [(h.consistent.keyed key found hfound).1]
  exact hfound

theorem Graph.Checked.rows_nodup (h : graph.Checked config plane) :
    ((graph.view config context).rows.map StoredResource.id).Nodup := by
  have hkeys : (graph.view config context).rows.map StoredResource.id =
      graph.resources.toList.map Prod.fst := by
    change (graph.resources.toList.map Prod.snd).map StoredResource.id = _
    rw [List.map_map]
    apply List.map_congr_left
    intro entry hentry
    exact (h.consistent.keyed entry.1 entry.2 (Table.mem_toList.mp hentry)).1
  rw [hkeys]
  exact Table.toList_keys_nodup graph.resources

theorem Graph.Checked.collection_eq (h : graph.Checked config plane) (admitted : ResourceRecord → Bool) :
    visibleItems plane (context.options config) (graph.view config context)
        (fun record ↦ .ok (admitted record)) (graph.view config context).rows [] =
      .ok ((graph.visibleRecords config context).filter admitted) := by
  rw [h.visibleItems_eq (fun row hrow ↦ rows_of_view row h hrow) h.rows_nodup
    (fun _ _ _ hitem ↦ absurd hitem List.not_mem_nil) fun _ _ ↦ rfl]
  rw [List.nil_append, Graph.visibleRecords, List.filter_filter]
  rfl

end Items

section Incident

def touches (bead : String) : ResourceRecord → Bool
  | .bead _ => false
  | .link link => link.source.uri == bead || link.target.uri == bead

/-- The end of a Link that a direction asks for. -/
def directed (bead : String) (direction : Option Direction) : ResourceRecord → Bool
  | .bead _ => false
  | .link link =>
    match direction with
    | some .inbound => link.target.uri == bead
    | some .outbound => link.source.uri == bead
    | _ => true

theorem incident_eq {bead : String} {direction : Option Direction} {record : ResourceRecord}
    (h : touches bead record = true) :
    incident bead direction record = .ok (directed bead direction record) := by
  cases record with
  | bead record => cases h
  | link link =>
    simp only [touches, Bool.or_eq_true, beq_iff_eq] at h
    simp only [incident, check_of h, ok_bind]
    cases direction with
    | none => rfl
    | some direction => cases direction <;> rfl

variable {name : String}

theorem endpointColumn_eq_iff {scope : Scope} {reference : Reference}
    (habsolute : hasScheme reference.uri = true) (hplain : hasScheme name = false) :
    endpointColumn scope reference = name ↔ reference.uri = scope.href ++ name := by
  unfold endpointColumn
  cases hpath : scope.localPath reference.uri with
  | none =>
    constructor
    · intro huri
      change reference.uri = name at huri
      rw [huri, hplain] at habsolute
      cases habsolute
    · intro huri
      rw [huri, UrlPath.Scope.localPath_append] at hpath
      cases hpath
  | some path =>
    rw [UrlPath.Scope.localPath_eq_some.mp hpath, String.append_right_inj]
    rfl

theorem Graph.Checked.columns_eq (h : graph.Checked config plane)
    (hrow : graph.resources[key]? = some row) (hplain : hasScheme name = false) :
    (row.shape.source == some name || row.shape.target == some name) =
      touches (config.scope.href ++ name) row.body := by
  rw [h.consistent.shaped key row hrow]
  cases hbody : row.body with
  | bead bead => rfl
  | link link =>
    have habsolute := h.consistent.absolute key row hrow
    rw [hbody] at habsolute
    have hsource : endpointColumn config.scope link.source = name ↔
        link.source.uri = config.scope.href ++ name :=
      endpointColumn_eq_iff (habsolute link.source List.mem_cons_self) hplain
    have htarget : endpointColumn config.scope link.target = name ↔
        link.target.uri = config.scope.href ++ name :=
      endpointColumn_eq_iff
        (habsolute link.target (List.mem_cons_of_mem _ List.mem_cons_self)) hplain
    change (some (endpointColumn config.scope link.source) == some name ||
      some (endpointColumn config.scope link.target) == some name) =
        (link.source.uri == config.scope.href ++ name || link.target.uri == config.scope.href ++ name)
    rw [Bool.eq_iff_iff]
    simp only [Bool.or_eq_true, beq_iff_eq, Option.some.injEq, hsource, htarget]

theorem Graph.Checked.incident_items (h : graph.Checked config plane)
    (hplain : hasScheme name = false) (direction : Option Direction) :
    visibleItems plane (context.options config) (graph.view config context)
        (incident (config.scope.href ++ name) direction)
        ((graph.view config context).incidentLinks name) [] =
      .ok ((graph.visibleRecords config context).filter fun record ↦
        touches (config.scope.href ++ name) record &&
          directed (config.scope.href ++ name) direction record) := by
  have hlinks : (graph.view config context).incidentLinks name =
      (graph.view config context).rows.filter fun row ↦
        touches (config.scope.href ++ name) row.body := by
    apply List.filter_congr
    intro row hrow
    exact h.columns_eq (rows_of_view row h hrow) hplain
  have hmem {row : StoredResource} (hrow : row ∈ (graph.view config context).incidentLinks name) :
      row ∈ (graph.view config context).rows ∧
        touches (config.scope.href ++ name) row.body = true := by
    rw [hlinks] at hrow
    exact List.mem_filter.mp hrow
  rw [h.visibleItems_eq (fun row hrow ↦ rows_of_view row h (hmem hrow).1)
    (h.rows_nodup.sublist (List.filter_sublist.map _))
    (fun _ _ _ hitem ↦ absurd hitem List.not_mem_nil) fun row hrow ↦ incident_eq (hmem hrow).2]
  have hbodies : ((graph.view config context).incidentLinks name).map StoredResource.body =
      ((graph.view config context).rows.map StoredResource.body).filter
        (touches (config.scope.href ++ name)) := by
    rw [hlinks, List.filter_map]
    rfl
  have hrows : (graph.view config context).rows = graph.resources.toList.map Prod.snd := rfl
  rw [List.nil_append, hbodies, hrows, List.filter_filter, Graph.visibleRecords, List.filter_filter]
  apply congrArg Except.ok
  apply List.filter_congr
  intro record _
  cases touches (config.scope.href ++ name) record <;>
    cases directed (config.scope.href ++ name) direction record <;>
    cases graph.isVisible config context record <;> rfl

end Incident

end Bdp.Evaluator
