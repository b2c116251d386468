import Bdp.Retained.Store

/-!
# Published facts

The rows that a list of facts adds to the event log: consecutive positions after the head, the
incidence of each fact, and one boundary for each position.
-/

namespace Bdp.Retained

/-- A fact with the in-Scope Beads that it is incident to. -/
abbrev PublishedFact := LifecycleFact × List String

def publishedEvents : ℕ → List PublishedFact → List EventRow
  | _, [] => []
  | position, entry :: entries =>
    { position, subject := entry.1.state.resource.id, fact := entry.1 } ::
      publishedEvents (position + 1) entries

def publishedIncidence : ℕ → List PublishedFact → List (ℕ × String)
  | _, [] => []
  | position, entry :: entries =>
    (entry.2.map fun bead ↦ (position, bead)) ++ publishedIncidence (position + 1) entries

/-- Boundary tokens drawn one after another for consecutive positions. -/
def publishedBoundaries (config : StoreConfiguration) : ℕ → ℕ → ℕ → List (ℕ × String)
  | _, _, 0 => []
  | draw, position, count + 1 =>
    (position, config.uuids.uuid .boundary draw) ::
      publishedBoundaries config (draw + 1) (position + 1) count

section Lists

variable {config : StoreConfiguration}

theorem publishedEvents_positions (position : ℕ) (entries : List PublishedFact) :
    (publishedEvents position entries).map EventRow.position =
      List.range' position entries.length := by
  induction entries generalizing position with
  | nil => rfl
  | cons entry entries ih => simp [publishedEvents, ih, List.range'_succ]

theorem publishedEvents_length (position : ℕ) (entries : List PublishedFact) :
    (publishedEvents position entries).length = entries.length := by
  simpa using congrArg List.length (publishedEvents_positions position entries)

theorem publishedBoundaries_positions (draw position count : ℕ) :
    (publishedBoundaries config draw position count).map Prod.fst = List.range' position count := by
  induction count generalizing position draw with
  | zero => rfl
  | succ count ih => simp [publishedBoundaries, ih, List.range'_succ]

theorem publishedBoundaries_tokens (draw position count : ℕ) :
    (publishedBoundaries config draw position count).map Prod.snd =
      (List.range' draw count).map (config.uuids.uuid .boundary) := by
  induction count generalizing position draw with
  | zero => rfl
  | succ count ih => simp [publishedBoundaries, ih, List.range'_succ]

end Lists

namespace Store

theorem head_append {store : Store} {row : EventRow} (h : row.position = store.head + 1) :
    Store.head { store with events := store.events ++ [row] } = store.head + 1 := by
  have hfold (positions : List ℕ) (last : ℕ) :
      (positions ++ [last]).foldr max 0 = max (positions.foldr max 0) last := by
    induction positions with
    | nil => simp
    | cons position positions ih => simp [ih, max_assoc]
  unfold head at h ⊢
  rw [List.map_append, List.map_cons, List.map_nil, hfold, h]
  omega

end Store

/-- The log of `result` continues the log of `store` by the facts. Boundary tokens are drawn in a
row, after any draw that was made before. -/
structure Published (config : StoreConfiguration) (store result : Store)
    (facts : List PublishedFact) : Prop where
  events : result.events = store.events ++ publishedEvents (store.head + 1) facts
  incidence : result.incidence = store.incidence ++ publishedIncidence (store.head + 1) facts
  boundaries : ∃ draw, store.draws.boundary ≤ draw ∧
    draw + facts.length ≤ result.draws.boundary ∧
    result.boundaries = store.boundaries ++
      publishedBoundaries config draw (store.head + 1) facts.length

theorem Published.refl {config : StoreConfiguration} {store result : Store}
    (hevents : result.events = store.events) (hincidence : result.incidence = store.incidence)
    (hboundaries : result.boundaries = store.boundaries)
    (hdraws : store.draws.boundary ≤ result.draws.boundary) :
    Published config store result [] :=
  ⟨by simp [hevents, publishedEvents], by simp [hincidence, publishedIncidence],
    ⟨_, le_rfl, by simpa using hdraws, by simp [hboundaries, publishedBoundaries]⟩⟩

end Bdp.Retained
