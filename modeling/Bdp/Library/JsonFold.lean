import Bdp.Library.JsonWalk

/-!
# The leaves that a walk visits

The leaves of a tree with their paths, in the order of a depth-first walk. A walk that passes every
name has the effect of its leaves one after the other in that order, and ends with the effect of the
last or with the first error. The leaves of a tree and of its enumeration are the same up to order.
-/

namespace Bdp.JsonTree

variable {L M S E : Type}

section Leaves

mutual

/-- The leaves below a path. -/
def leaves (path : List Text) : JsonTree L → List (List Text × L)
  | .leaf value => [(path, value)]
  | .array items => itemLeaves path 0 items
  | .object members => memberLeaves path members

def itemLeaves (path : List Text) (start : ℕ) : List (JsonTree L) → List (List Text × L)
  | [] => []
  | item :: items =>
    item.leaves (path ++ [Decimal.digitsOf start]) ++ itemLeaves path (start + 1) items

def memberLeaves (path : List Text) : List (Text × JsonTree L) → List (List Text × L)
  | [] => []
  | (key, value) :: members => value.leaves (path ++ [key]) ++ memberLeaves path members

end

theorem memberLeaves_indexed (path : List Text) (start : ℕ) (items : List (JsonTree L)) :
    memberLeaves path (indexed items start) = itemLeaves path start items := by
  induction items generalizing start with
  | nil => rfl
  | cons item items ih => rw [indexed, memberLeaves, itemLeaves, ih]

theorem memberLeaves_eq_flatMap (path : List Text) (members : List (Text × JsonTree L)) :
    memberLeaves path members =
      members.flatMap fun member ↦ member.2.leaves (path ++ [member.1]) := by
  induction members with
  | nil => rfl
  | cons member members ih => rw [memberLeaves, ih, List.flatMap_cons]

/-- An enumeration reorders the leaves. -/
theorem leaves_enumerated_perm (tree : JsonTree L) (path : List Text) :
    (tree.enumerated.leaves path).Perm (tree.leaves path) := by
  induction tree using induct generalizing path with
  | leaf value => exact .refl _
  | array items ih =>
    rw [enumerated, enumeratedItems_eq_map, leaves, leaves]
    generalize 0 = start
    induction items generalizing start with
    | nil => exact .refl _
    | cons item items ihItems =>
      exact (ih item List.mem_cons_self _).append
        (ihItems (fun other hother ↦ ih other (List.mem_cons_of_mem _ hother)) (start + 1))
  | object members ih =>
    rw [enumerated, enumeratedMembers_eq_map, leaves, leaves, memberLeaves_eq_flatMap,
      memberLeaves_eq_flatMap]
    refine ((CodeUnits.enumeration_perm _).flatMap_right _).trans ?_
    rw [List.flatMap_map]
    exact List.Perm.flatMap_left _ fun member hmember ↦ ih member hmember _

/-- A property of all leaves of a tree holds for those below a path. -/
theorem WellNamed.leaves {name : Text → Prop} {leaf : L → Prop} {tree : JsonTree L}
    (h : WellNamed name leaf tree) (path : List Text) :
    ∀ found ∈ tree.leaves path, leaf found.2 := by
  induction h generalizing path with
  | leaf valid => exact List.forall_mem_singleton.mpr valid
  | @array items _ ih =>
    rw [JsonTree.leaves]
    generalize 0 = start
    induction items generalizing start with
    | nil => exact nofun
    | cons item items ihItems =>
      rw [itemLeaves]
      refine List.forall_mem_append.mpr ⟨ih item List.mem_cons_self _, ?_⟩
      exact ihItems (fun other hother ↦ by simp_all) (fun other hother ↦
        ih other (List.mem_cons_of_mem _ hother)) (start + 1)
  | @object members _ _ _ ih =>
    rw [JsonTree.leaves, memberLeaves_eq_flatMap]
    intro found hfound
    obtain ⟨member, hmember, hleaf⟩ := List.mem_flatMap.mp hfound
    exact ih member hmember _ found hleaf

end Leaves

section Effects

variable (walk : Walk L M S E)

/-- The effects of leaves one after the other. -/
def effects : List (List Text × L) → S → Except E S
  | [], state => .ok state
  | (path, value) :: rest, state =>
    match walk.leaf path value state with
    | .error error => .error error
    | .ok (_, state) => effects rest state

variable {walk}

theorem effects_append (first rest : List (List Text × L)) (state : S) :
    effects walk (first ++ rest) state = match effects walk first state with
      | .error error => .error error
      | .ok state => effects walk rest state := by
  induction first generalizing state with
  | nil => rfl
  | cons leaf first ih =>
    obtain ⟨path, value⟩ := leaf
    rw [List.cons_append, effects, effects]
    cases walk.leaf path value state with
    | error error => rfl
    | ok copy => exact ih copy.2

/-- A run that has the given effects before the rest of the walk. -/
def HasEffects (walk : Walk L M S E) (below : List (WalkFrame L M))
    (run : Except E (JsonTree M × S)) : Except E S → Prop
  | .error error => run = .error error
  | .ok state => ∃ value, run = walkRun walk (walkComplete value below) state

/-- The visit of a value and what follows. -/
def visitRun (walk : Walk L M S E) (tree : JsonTree L) (path : List Text)
    (below : List (WalkFrame L M)) (state : S) : Except E (JsonTree M × S) :=
  match walkVisit walk tree path below state with
  | .error error => .error error
  | .ok (next, state) => walkRun walk next state

theorem walkRun_error {frame : WalkFrame L M} {below : List (WalkFrame L M)} {state : S} {error : E}
    (h : walkStep walk frame below state = .error error) :
    walkRun walk (.copying frame below) state = .error error := by
  rw [walkRun]
  split
  · next h' =>
    rw [h] at h'
    rw [Except.error.inj h']
  · next h' =>
    rw [h] at h'
    cases h'

section

variable (hnames : ∀ path, walk.name path = .ok ())
include hnames

/-- The next entry of a container is visited above the container. -/
theorem walkRun_entry (key : Text) (child : JsonTree L)
    (rest : List (Text × JsonTree L)) (frame : WalkFrame L M) (below : List (WalkFrame L M))
    (state : S) (hsource : frame.source = (key, child) :: rest) :
    walkRun walk (.copying frame below) state = visitRun walk child (frame.path ++ [key])
        (⟨rest, frame.target, key, frame.path⟩ :: below) state := by
  have hstep : walkStep walk frame below state = walkVisit walk child (frame.path ++ [key])
        (⟨rest, frame.target, key, frame.path⟩ :: below) state := by
    rw [walkStep, hsource]
    simp only [hnames]
  unfold visitRun
  cases hvisit : walkVisit walk child (frame.path ++ [key])
      (⟨rest, frame.target, key, frame.path⟩ :: below) state with
  | error error => exact walkRun_error (hstep.trans hvisit)
  | ok next => exact walkRun_step walk (hstep.trans hvisit)

/-- The entries of a container have the effects of their leaves. -/
theorem walkRun_entries (entries : List (Text × JsonTree L))
    (hentries : ∀ entry ∈ entries, ∀ path below state,
      HasEffects walk below (visitRun walk entry.2 path below state)
        (effects walk (entry.2.leaves path) state))
    (target : Container M) (key : Text) (path : List Text) (below : List (WalkFrame L M))
    (state : S) :
    HasEffects walk below (walkRun walk (.copying ⟨entries, target, key, path⟩ below) state)
      (effects walk (memberLeaves path entries) state) := by
  induction entries generalizing target key state with
  | nil =>
    have hstep : walkStep walk ⟨[], target, key, path⟩ below state =
        .ok (walkComplete target.tree below, state) := rfl
    exact ⟨target.tree, walkRun_step walk hstep⟩
  | cons entry entries ih =>
    obtain ⟨name, child⟩ := entry
    have hchild := hentries (name, child) List.mem_cons_self (path ++ [name])
      (⟨entries, target, name, path⟩ :: below) state
    rw [walkRun_entry hnames name child entries _ below state rfl, memberLeaves, effects_append]
    cases heffects : effects walk (child.leaves (path ++ [name])) state with
    | error error =>
      rw [heffects] at hchild
      exact hchild
    | ok next =>
      rw [heffects] at hchild
      obtain ⟨value, hvalue⟩ := hchild
      have hrest := ih (fun other hother ↦ hentries other (List.mem_cons_of_mem _ hother))
        (target.put name value) name next
      rw [hvalue]
      exact hrest

theorem visitRun_effects (tree : JsonTree L)
    (path : List Text) (below : List (WalkFrame L M)) (state : S) :
    HasEffects walk below (visitRun walk tree path below state)
      (effects walk (tree.leaves path) state) := by
  induction tree using induct generalizing path below state with
  | leaf value =>
    simp only [visitRun, walkVisit, leaves, effects]
    cases walk.leaf path value state with
    | error error => rfl
    | ok copy => exact ⟨.leaf copy.1, rfl⟩
  | array items ih =>
    rw [leaves, ← memberLeaves_indexed]
    refine walkRun_entries hnames (indexed items 0) ?_ (.array []) [] path below state
    have hindexed (start : ℕ) : ∀ entry ∈ indexed items start, entry.2 ∈ items := by
      intro entry hentry
      clear ih
      induction items generalizing start with
      | nil => cases hentry
      | cons item items ihItems =>
        cases hentry with
        | head => exact List.mem_cons_self
        | tail _ hrest => exact List.mem_cons_of_mem _ (ihItems (start + 1) hrest)
    exact fun entry hentry ↦ ih entry.2 (hindexed 0 entry hentry)
  | object members ih => exact walkRun_entries hnames members ih (.object []) [] path below state

/-- A walk that passes every name ends with the effects of the leaves. -/
theorem walkTree_effects (tree : JsonTree L) (state : S) :
    (walkTree walk tree state).map Prod.snd = effects walk (tree.leaves []) state := by
  have h := visitRun_effects hnames tree [] [] state
  change (visitRun walk tree [] [] state).map Prod.snd = _
  cases heffects : effects walk (tree.leaves []) state with
  | error error =>
    rw [heffects] at h
    rw [show visitRun walk tree [] [] state = .error error from h]
    rfl
  | ok next =>
    rw [heffects] at h
    obtain ⟨value, hvalue⟩ := h
    rw [hvalue, walkComplete, walkRun]
    rfl

end

end Effects

end Bdp.JsonTree
