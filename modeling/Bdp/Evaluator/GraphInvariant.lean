import Bdp.Library.Referential
import Bdp.Evaluator.Stages

/-!
# The invariant of a graph

Rows stand under the local path of their own URL, their columns and their kind are those of their
record, and their identity is committed under that kind. Links lead to live Beads. Aliases stay
clear of committed identities and target committed Beads that are no aliases themselves. Writing a
row, erasing a row and changing an alias each preserve this under conditions that the evaluators
check.
-/

namespace Bdp.Evaluator

open Recovery (ResourceKind ResourceShape)
open Transaction (Reference)
open UrlPath (Scope hasScheme)

theorem aliasPath_eq_some {id path : String} : aliasPath id = some path ↔ id = "alias/" ++ path := by
  unfold aliasPath
  rw [Option.map_eq_some_iff]
  constructor
  · rintro ⟨rest, hrest, rfl⟩
    obtain ⟨front, hsplit, hfront⟩ := List.dropPrefix?_eq_some_iff.mp hrest
    obtain rfl := eq_of_beq hfront
    calc id = String.ofList id.toList := String.ofList_toList.symm
      _ = String.ofList ("alias/".toList ++ rest) := by rw [hsplit]
      _ = "alias/" ++ String.ofList rest := by rw [String.ofList_append, String.ofList_toList]
  · rintro rfl
    refine ⟨path.toList, List.dropPrefix?_eq_some_iff.mpr ⟨"alias/".toList, ?_, ?_⟩,
      String.ofList_toList⟩
    · exact String.toList_append
    · exact beq_self_eq_true _

@[simp]
theorem aliasPath_append (path : String) : aliasPath ("alias/" ++ path) = some path :=
  aliasPath_eq_some.mpr rfl

def ends : ResourceRecord → List Reference
  | .bead _ => []
  | .link record => [record.source, record.target]

/-- The Beads of the Scope that a record leads to. -/
def localEnds (scope : Scope) (record : ResourceRecord) : List String :=
  (ends record).filterMap fun reference ↦ scope.localPath reference.uri

def IsBeadRow (row : StoredResource) : Prop := row.kind = .bead

namespace Graph

variable (scope : Scope) (graph : Graph)

structure Consistent : Prop where
  keyed : ∀ (key : String) (row : StoredResource), graph.resources[key]? = some row →
    row.id = key ∧ row.body.id = scope.href ++ key
  shaped : ∀ (key : String) (row : StoredResource), graph.resources[key]? = some row →
    row.shape = recordShape scope row.body
  committed : ∀ (key : String) (row : StoredResource), graph.resources[key]? = some row →
    graph.identities[key]? = some row.kind
  plain : ∀ (key : String), key ∈ graph.identities → hasScheme key = false
  linked : graph.resources.Closed (fun row ↦ localEnds scope row.body) IsBeadRow
  anchored : ∀ (key : String) (row : StoredResource), graph.resources[key]? = some row →
    row.kind = .link → localEnds scope row.body ≠ []
  unaliased : ∀ (path : String), path ∈ graph.aliases → "alias/" ++ path ∉ graph.identities
  targets : ∀ (path target : String), graph.aliases[path]? = some target →
    graph.identities[target]? = some .bead ∧ aliasPath target = none
  /-- The references of a Link are absolute, and none leads below the alias root. -/
  absolute : ∀ (key : String) (row : StoredResource), graph.resources[key]? = some row →
    ∀ reference ∈ ends row.body, hasScheme reference.uri = true
  resolved : ∀ (key : String) (row : StoredResource), graph.resources[key]? = some row →
    ∀ name ∈ localEnds scope row.body, aliasPath name = none

/-- A later graph keeps every committed identity with its kind, and no row comes back. -/
structure Extends (earlier later : Graph) : Prop where
  identities : ∀ (key : String) (kind : ResourceKind), earlier.identities[key]? = some kind →
    later.identities[key]? = some kind
  retired : ∀ (key : String), key ∈ earlier.identities → key ∉ earlier.resources →
    key ∉ later.resources

variable {scope graph}

theorem Extends.refl (graph : Graph) : Extends graph graph := ⟨fun _ _ h ↦ h, fun _ _ h ↦ h⟩

theorem Extends.trans {first second third : Graph} (h : Extends first second)
    (h' : Extends second third) : Extends first third where
  identities key kind hkey := h'.identities key kind (h.identities key kind hkey)
  retired key hkey hrow := by
    refine h'.retired key ?_ (h.retired key hkey hrow)
    obtain ⟨kind, hkind⟩ := Table.mem_iff_exists.mp hkey
    exact Table.mem_of_lookup (h.identities key kind hkind)

theorem Extends.drawn {earlier later : Graph} (h : Extends earlier later) (revisions : ℕ) :
    Extends earlier { later with revisions } := ⟨h.identities, h.retired⟩

theorem consistent_empty (scope : Scope) : Consistent scope empty := by
  have hnone {ν : Type} {key : String} {value : ν} : ¬ (∅ : Table ν)[key]? = some value := by simp
  have hmem {ν : Type} {key : String} : key ∉ (∅ : Table ν) := by
    rw [← Table.lookup_eq_none_iff, Table.lookup_empty]
  exact
    { keyed := fun _ _ h ↦ absurd h hnone
      shaped := fun _ _ h ↦ absurd h hnone
      committed := fun _ _ h ↦ absurd h hnone
      plain := fun _ h ↦ absurd h hmem
      linked := Table.Closed.empty
      anchored := fun _ _ h ↦ absurd h hnone
      unaliased := fun _ h ↦ absurd h hmem
      targets := fun _ _ h ↦ absurd h hnone
      absolute := fun _ _ h ↦ absurd h hnone
      resolved := fun _ _ h ↦ absurd h hnone }

section Writes

/-- What the evaluator establishes of a row before it is written. -/
structure RowWrite (scope : Scope) (graph : Graph) (row : StoredResource) : Prop where
  keyed : row.body.id = scope.href ++ row.id
  shaped : row.shape = recordShape scope row.body
  kept : ∀ (old : StoredResource), graph.resources[row.id]? = some old → old.shape = row.shape
  fresh : row.id ∉ graph.resources → row.id ∉ graph.identities ∧ hasScheme row.id = false ∧
    ∀ path, aliasPath row.id = some path → path ∉ graph.aliases
  linked : ∀ name ∈ localEnds scope row.body, aliasPath name = none ∧
    ∃ found, graph.resources[name]? = some found ∧ IsBeadRow found
  anchored : row.kind = .link → localEnds scope row.body ≠ []
  absolute : ∀ reference ∈ ends row.body, hasScheme reference.uri = true

variable {row other : StoredResource}

section

variable (h : Consistent scope graph)
include h

section

variable (w : RowWrite scope graph row)
include w

theorem RowWrite.upserted_eq : graph.upserted row = row := by
  unfold upserted
  split
  next old hold =>
    have hid := (h.keyed row.id old hold).1
    have hshape := w.kept old hold
    cases old
    cases row
    simp_all
  next => rfl

theorem RowWrite.insertRow_resources :
    (graph.insertRow row).resources = graph.resources.insert row.id row := by
  rw [insertRow, w.upserted_eq h]

theorem RowWrite.insertRow_identities (key : String) : (graph.insertRow row).identities[key]? =
      if row.id = key then some row.kind else graph.identities[key]? := by
  unfold insertRow
  split
  next hmem =>
    split
    next heq =>
      subst heq
      by_cases hrow : row.id ∈ graph.resources
      · obtain ⟨old, hold⟩ := Table.mem_iff_exists.mp hrow
        rw [h.committed row.id old hold, StoredResource.kind, w.kept old hold]
        rfl
      · exact absurd hmem (w.fresh hrow).1
    next => rfl
  next => rw [Table.lookup_insert]

theorem Consistent.insertRow : Consistent scope (graph.insertRow row) := by
  have hresources := w.insertRow_resources h
  have hidentities := w.insertRow_identities h
  have hrow {key : String} {found : StoredResource}
      (hfound : (graph.insertRow row).resources[key]? = some found) :
      row.id = key ∧ row = found ∨ row.id ≠ key ∧ graph.resources[key]? = some found := by
    rw [hresources, Table.lookup_insert] at hfound
    split at hfound
    next heq => exact .inl ⟨heq, Option.some.inj hfound⟩
    next hne => exact .inr ⟨hne, hfound⟩
  have hkey {key : String} (hmem : key ∈ (graph.insertRow row).identities) :
      row.id = key ∧ row.id ∉ graph.resources ∨ key ∈ graph.identities := by
    obtain ⟨kind, hkind⟩ := Table.mem_iff_exists.mp hmem
    rw [hidentities] at hkind
    split at hkind
    next heq =>
      by_cases hold : row.id ∈ graph.resources
      · obtain ⟨old, hold⟩ := Table.mem_iff_exists.mp hold
        exact .inr (heq ▸ Table.mem_of_lookup (h.committed row.id old hold))
      · exact .inl ⟨heq, hold⟩
    next => exact .inr (Table.mem_of_lookup hkind)
  constructor
  case keyed =>
    intro key found hfound
    obtain ⟨rfl, rfl⟩ | ⟨-, hold⟩ := hrow hfound
    · exact ⟨rfl, w.keyed⟩
    · exact h.keyed key found hold
  case shaped =>
    intro key found hfound
    obtain ⟨rfl, rfl⟩ | ⟨-, hold⟩ := hrow hfound
    · exact w.shaped
    · exact h.shaped key found hold
  case committed =>
    intro key found hfound
    rw [hidentities]
    obtain ⟨rfl, rfl⟩ | ⟨hne, hold⟩ := hrow hfound
    · rw [if_pos rfl]
    · rw [if_neg hne, h.committed key found hold]
  case plain =>
    intro key hmem
    obtain ⟨rfl, hnew⟩ | hold := hkey hmem
    · exact (w.fresh hnew).2.1
    · exact h.plain key hold
  case linked =>
    rw [hresources]
    refine h.linked.insert (fun name hname ↦ (w.linked name hname).2) ?_
    intro old hold hbead
    rw [IsBeadRow, StoredResource.kind] at hbead ⊢
    rwa [← w.kept old hold]
  case anchored =>
    intro key found hfound hkind
    obtain ⟨rfl, rfl⟩ | ⟨-, hold⟩ := hrow hfound
    · exact w.anchored hkind
    · exact h.anchored key found hold hkind
  case unaliased =>
    intro path hpath hmem
    obtain ⟨heq, hnew⟩ | hold := hkey hmem
    · exact (w.fresh hnew).2.2 path (heq ▸ aliasPath_append path) hpath
    · exact h.unaliased path hpath hold
  case targets =>
    intro path target htarget
    obtain ⟨hcommitted, hplain⟩ := h.targets path target htarget
    refine ⟨?_, hplain⟩
    rw [hidentities]
    split
    next heq =>
      subst heq
      by_cases hold : row.id ∈ graph.resources
      · obtain ⟨old, hold⟩ := Table.mem_iff_exists.mp hold
        rw [h.committed row.id old hold, StoredResource.kind, w.kept old hold] at hcommitted
        exact hcommitted
      · exact absurd (Table.mem_of_lookup hcommitted) (w.fresh hold).1
    next => exact hcommitted
  case absolute =>
    intro key found hfound
    obtain ⟨rfl, rfl⟩ | ⟨-, hold⟩ := hrow hfound
    · exact w.absolute
    · exact h.absolute key found hold
  case resolved =>
    intro key found hfound name hname
    obtain ⟨rfl, rfl⟩ | ⟨-, hold⟩ := hrow hfound
    · exact (w.linked name hname).1
    · exact h.resolved key found hold name hname

theorem RowWrite.extends : Extends graph (graph.insertRow row) where
  identities key kind hkey := by
    rw [w.insertRow_identities h]
    split
    next heq =>
      subst heq
      by_cases hold : row.id ∈ graph.resources
      · obtain ⟨old, hold⟩ := Table.mem_iff_exists.mp hold
        rw [h.committed row.id old hold, StoredResource.kind, w.kept old hold] at hkey
        exact hkey
      · exact absurd (Table.mem_of_lookup hkey) (w.fresh hold).1
    next => exact hkey
  retired key hkey hrow hmem := by
    rw [w.insertRow_resources h, Table.mem_insert] at hmem
    obtain rfl | hmem := hmem
    · exact (w.fresh hrow).1 hkey
    · exact hrow hmem

theorem RowWrite.after_insertRow
    (w' : RowWrite scope graph other) (hexists : other.id ∈ graph.resources)
    (hne : row.id ≠ other.id) : RowWrite scope (graph.insertRow row) other where
  keyed := w'.keyed
  shaped := w'.shaped
  kept old hold := by
    rw [w.insertRow_resources h, Table.lookup_insert_of_ne hne] at hold
    exact w'.kept old hold
  fresh hnew := by
    rw [w.insertRow_resources h, Table.mem_insert] at hnew
    exact absurd (.inr hexists) hnew
  linked name hname := by
    obtain ⟨hplain, found, hfound, hbead⟩ := w'.linked name hname
    refine ⟨hplain, ?_⟩
    rw [w.insertRow_resources h, Table.lookup_insert]
    split
    next heq =>
      subst heq
      refine ⟨row, rfl, ?_⟩
      rw [IsBeadRow, StoredResource.kind] at hbead ⊢
      rwa [← w.kept found hfound]
    next => exact ⟨found, hfound, hbead⟩
  anchored := w'.anchored
  absolute := w'.absolute

end

end

end Writes

section Removal

variable {key : String} {row : StoredResource}

theorem Consistent.touches_of_mem_localEnds (h : Consistent scope graph) {other : String}
    (hrow : graph.resources[other]? = some row) (hend : key ∈ localEnds scope row.body) :
    row.shape.source = some key ∨ row.shape.target = some key := by
  rw [h.shaped other row hrow]
  cases hbody : row.body with
  | bead record => simp [hbody, localEnds, ends] at hend
  | link record =>
    rw [hbody] at hend
    simp only [localEnds, ends, List.mem_filterMap, List.mem_cons, List.not_mem_nil, or_false] at hend
    obtain ⟨reference, rfl | rfl, hpath⟩ := hend
    · exact .inl (by simp [recordShape, endpointColumn, ResourceShape.source, hpath])
    · exact .inr (by simp [recordShape, endpointColumn, ResourceShape.target, hpath])

theorem Consistent.erase (h : Consistent scope graph)
    (hfree : IsBeadRow row → graph.incidentLinks key = [])
    (hrow : graph.resources[key]? = some row) :
    Consistent scope { graph with resources := graph.resources.erase key } := by
  have hkept {other : String} {found : StoredResource}
      (hfound : (graph.resources.erase key)[other]? = some found) :
      graph.resources[other]? = some found := by
    rw [Table.lookup_erase] at hfound
    split at hfound
    · cases hfound
    · exact hfound
  constructor
  case keyed => exact fun other found hfound ↦ h.keyed other found (hkept hfound)
  case shaped => exact fun other found hfound ↦ h.shaped other found (hkept hfound)
  case committed => exact fun other found hfound ↦ h.committed other found (hkept hfound)
  case plain => exact h.plain
  case anchored => exact fun other found hfound ↦ h.anchored other found (hkept hfound)
  case unaliased => exact h.unaliased
  case targets => exact h.targets
  case absolute => exact fun other found hfound ↦ h.absolute other found (hkept hfound)
  case resolved => exact fun other found hfound ↦ h.resolved other found (hkept hfound)
  case linked =>
    refine h.linked.erase ?_
    intro other found hfound _ hend
    obtain ⟨target, htarget, hbead⟩ := h.linked other found hfound key hend
    obtain rfl := Option.some.inj (hrow.symm.trans htarget)
    have htouches := h.touches_of_mem_localEnds hfound hend
    have hmem : found ∈ graph.incidentLinks key := by
      refine List.mem_filter.mpr ⟨List.mem_map.mpr ⟨(other, found), ?_, rfl⟩, ?_⟩
      · exact Table.mem_toList.mpr hfound
      · simpa using htouches
    rw [hfree hbead] at hmem
    cases hmem

theorem extends_erase (graph : Graph) (key : String) :
    Extends graph { graph with resources := graph.resources.erase key } where
  identities _ _ h := h
  retired _ _ hrow hmem := hrow (Table.mem_erase.mp hmem).2

theorem Consistent.drawn (h : Consistent scope graph) (revisions : ℕ) :
    Consistent scope { graph with revisions } :=
  ⟨h.keyed, h.shaped, h.committed, h.plain, h.linked, h.anchored, h.unaliased, h.targets,
    h.absolute, h.resolved⟩

end Removal

section Aliases

variable {path target : String}

theorem Consistent.putAlias (h : Consistent scope graph)
    (hfree : "alias/" ++ path ∉ graph.identities)
    (hbead : graph.identities[target]? = some .bead) (htarget : aliasPath target = none) :
    Consistent scope { graph with aliases := graph.aliases.insert path target } := by
  refine { h with unaliased := fun other hother ↦ ?_, targets := fun other found hfound ↦ ?_ }
  · obtain rfl | hother := Table.mem_insert.mp hother
    · exact hfree
    · exact h.unaliased other hother
  · rw [Table.lookup_insert] at hfound
    split at hfound
    · obtain rfl := Option.some.inj hfound
      exact ⟨hbead, htarget⟩
    · exact h.targets other found hfound

theorem Consistent.deleteAlias (h : Consistent scope graph) :
    Consistent scope { graph with aliases := graph.aliases.erase path } := by
  refine { h with unaliased := fun other hother ↦ ?_, targets := fun other found hfound ↦ ?_ }
  · exact h.unaliased other (Table.mem_erase.mp hother).2
  · rw [Table.lookup_erase] at hfound
    split at hfound
    · cases hfound
    · exact h.targets other found hfound

end Aliases

end Graph

end Bdp.Evaluator
