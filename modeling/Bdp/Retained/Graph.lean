import Bdp.Library.Referential
import Bdp.Retained.Singleton

/-!
# The resource graph

The abstract content of a retained store: a table of live resources in which every row is stored
under its own identity, every Link has an in-Scope endpoint, and every in-Scope endpoint is a live
Bead. The stored graph and the working graph of a batch are both of this form.
-/

namespace Bdp.Retained

/-- A graph of live resources whose Links are attached to live Beads. -/
structure WellLinked (scope : String) (graph : Table ResourceState) : Prop where
  id_eq : ∀ (id : String) (state : ResourceState), graph[id]? = some state → state.resource.id = id
  attached : ∀ (id : String) (state : ResourceState), graph[id]? = some state → state.kind = .link →
    localEndpoints scope state ≠ []
  closed : graph.Closed (localEndpoints scope) fun state ↦ state.kind = .bead

theorem localEndpoints_of_bead {scope : String} {state : ResourceState}
    (h : state.kind = .bead) : localEndpoints scope state = [] := by
  cases state with
  | bead resource => rfl
  | link resource => simp [ResourceState.kind] at h

theorem kind_ne_link {state : ResourceState} : state.kind ≠ .link ↔ state.kind = .bead := by
  cases state <;> simp [ResourceState.kind]

theorem linkedTo_of_mem_localEndpoints {scope uri : String} {state : ResourceState}
    (h : uri ∈ localEndpoints scope state) : linkedTo uri state = true := by
  obtain ⟨⟨reference, hmem, heq⟩, -⟩ := mem_localEndpoints.mp h
  simpa [linkedTo] using ⟨reference, hmem, heq⟩

namespace WellLinked

variable {scope id : String} {graph : Table ResourceState} {state : ResourceState}

theorem empty : WellLinked scope ∅ := ⟨fun _ _ h ↦ by simp at h, fun _ _ h ↦ by simp at h, .empty⟩

section

variable (h : WellLinked scope graph)
include h

theorem insert (hid : state.resource.id = id)
    (hkind : ∀ old, graph[id]? = some old → old.kind = state.kind)
    (hendpoints : EndpointsLive scope (graph[·]?) state) :
    WellLinked scope (graph.insert id state) := by
  refine ⟨?_, ?_, h.closed.insert ?_ ?_⟩
  · intro other found hfound
    rw [Table.lookup_insert] at hfound
    split at hfound
    · next heq =>
      obtain rfl := Option.some.inj hfound
      exact hid.trans heq
    · exact h.id_eq other found hfound
  · intro other found hfound hlink
    rw [Table.lookup_insert] at hfound
    split at hfound
    · obtain rfl := Option.some.inj hfound
      exact (hendpoints hlink).1
    · exact h.attached other found hfound hlink
  · intro uri huri
    by_cases hlink : state.kind = .link
    · obtain ⟨resource, hresource⟩ := (hendpoints hlink).2 uri huri
      exact ⟨_, hresource, rfl⟩
    · rw [localEndpoints_of_bead (kind_ne_link.mp hlink)] at huri
      simp at huri
  · intro old hold hbead
    rw [← hkind old hold, hbead]

theorem erase (hstate : graph[id]? = some state)
    (hunlinked : state.kind = .bead → ∀ (other : String) (row : ResourceState), graph[other]? = some row →
      row.kind = .link → linkedTo id row = false) :
    WellLinked scope (graph.erase id) := by
  refine ⟨?_, ?_, h.closed.erase ?_⟩
  · intro other found hfound
    rw [Table.lookup_erase] at hfound
    split at hfound
    · cases hfound
    · exact h.id_eq other found hfound
  · intro other found hfound
    rw [Table.lookup_erase] at hfound
    split at hfound
    · cases hfound
    · exact h.attached other found hfound
  · intro other row hrow _ hmem
    -- the erased row would be a Bead, and the naming row a Link attached to it
    obtain ⟨target, htarget, hbead⟩ := h.closed other row hrow id hmem
    obtain rfl := Option.some.inj (hstate.symm.trans htarget)
    by_cases hlink : row.kind = .link
    · have hlinked := linkedTo_of_mem_localEndpoints hmem
      rw [hunlinked hbead other row hrow hlink] at hlinked
      cases hlinked
    · rw [localEndpoints_of_bead (kind_ne_link.mp hlink)] at hmem
      simp at hmem

theorem rewrite {graph' : Table ResourceState}
    (hrows : ∀ (id : String) (state' : ResourceState), graph'[id]? = some state' → ∃ state, graph[id]? = some state ∧
      state'.resource.id = state.resource.id ∧ state'.kind = state.kind ∧
      state'.endpoints = state.endpoints)
    (hkeys : ∀ (id : String) (state : ResourceState), graph[id]? = some state → ∃ state', graph'[id]? = some state') :
    WellLinked scope graph' := by
  have hlocal {state state' : ResourceState} (heq : state'.endpoints = state.endpoints) :
      localEndpoints scope state' = localEndpoints scope state := by
    rw [localEndpoints, heq, localEndpoints]
  refine ⟨?_, ?_, h.closed.transfer ?_ ?_⟩
  · intro id state' hstate'
    obtain ⟨state, hstate, hid, -, -⟩ := hrows id state' hstate'
    rw [hid, h.id_eq id state hstate]
  · intro id state' hstate' hkind'
    obtain ⟨state, hstate, -, hkind, hendpoints⟩ := hrows id state' hstate'
    rw [hlocal hendpoints]
    exact h.attached id state hstate (hkind ▸ hkind')
  · intro id state' hstate'
    obtain ⟨state, hstate, -, -, hendpoints⟩ := hrows id state' hstate'
    exact ⟨state, hstate, hlocal hendpoints⟩
  · intro id state hstate hbead
    obtain ⟨state', hstate'⟩ := hkeys id state hstate
    obtain ⟨other, hother, -, hkind, -⟩ := hrows id state' hstate'
    obtain rfl := Option.some.inj (hstate.symm.trans hother)
    exact ⟨state', hstate', hkind.trans hbead⟩

end

end WellLinked

end Bdp.Retained
