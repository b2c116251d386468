import Bdp.Conformance.ConformanceWork
import Bdp.Library.Ancestry

/-!
# What the conformance walk finds

The frames on the stack are a path of Types, each conforming to the one above it, and every Type
that is done has exactly the Types that it conforms to and the number of nodes on its longest parent
path. One turn of the walk without limits keeps this, or meets a Type that is on the stack already.
-/

namespace Bdp.Conformance

open Metered Relation
open Bdp.Except (ok_bind)
open Function (update_of_ne)

variable {byId : ById} {walk after : Walk} {frame : Frame} {below : List Frame}
  {base counts readings : Counter → ℕ}

/-- A Type declares another one as its parent. -/
def Declares (byId : ById) (id parent : String) : Prop := parent ∈ byId.parents id

def ParentsInstalled (byId : ById) : Prop :=
  ∀ id parent, Declares byId id parent → parent ∈ byId.map TypeDescriptor.id

/-- The Types that a Type conforms to, itself included. -/
def conforming (byId : ById) (id : String) : Set String :=
  {other | ReflTransGen (Declares byId) id other}

variable {parent : String}

section Sets

/-- How a set of Types grows by the sets of parents, and what this is charged. -/
structure Gathers (result : List String) (added : String → Prop) (attempts : ℕ)
    (counts : Counter → ℕ) (grown : List String) (readings : Counter → ℕ) : Prop where
  nodup : result.Nodup → grown.Nodup
  mem : ∀ other, other ∈ grown ↔ other ∈ result ∨ added other
  attempted : readings .unionAttempts = counts .unionAttempts + attempts
  members : readings .memberships + result.length = counts .memberships + grown.length
  rest : ∀ key, key ≠ .unionAttempts → key ≠ .memberships → readings key = counts key

theorem Gathers.refl (result : List String) (counts : Counter → ℕ) :
    Gathers result (fun _ ↦ False) 0 counts result counts where
  nodup h := h
  mem _ := (or_iff_left not_false).symm
  attempted := rfl
  members := rfl
  rest _ _ _ := rfl

theorem Gathers.trans {first second third : List String} {added more : String → Prop}
    {attempts further : ℕ} {start middle last : Counter → ℕ}
    (h : Gathers first added attempts start second middle)
    (h' : Gathers second more further middle third last) :
    Gathers first (fun other ↦ added other ∨ more other) (attempts + further) start third last where
  nodup hnodup := h'.nodup (h.nodup hnodup)
  mem other := by rw [h'.mem, h.mem, or_assoc]
  attempted := by rw [h'.attempted, h.attempted, Nat.add_assoc]
  members := by
    have := h.members
    have := h'.members
    omega
  rest key hattempts hmembers :=
    (h'.rest key hattempts hmembers).trans (h.rest key hattempts hmembers)

theorem gathers_addEffective (result : List String) (effective : String) (counts : Counter → ℕ) :
    ∃ grown readings, runUnder (addEffective result effective) none counts = .ok (grown, readings) ∧
      Gathers result (· = effective) 1 counts grown readings := by
  have hcharge : runUnder (charge .unionAttempts) none counts =
      .ok ((), spend .unionAttempts 1 counts) := runUnder_charge_none _ _
  have hne : Counter.memberships ≠ .unionAttempts := nofun
  by_cases hmem : effective ∈ result
  · refine ⟨result, spend .unionAttempts 1 counts, ?_, ?_⟩
    · rw [addEffective, runUnder_bind, hcharge, ok_bind, if_pos hmem]
      rfl
    · constructor
      case nodup => exact fun h ↦ h
      case mem =>
        refine fun other ↦ ⟨.inl, fun h ↦ h.elim (fun h ↦ h) ?_⟩
        rintro rfl
        exact hmem
      case attempted => exact spend_self ..
      case members => rw [spend_of_ne hne]
      case rest => exact fun key hattempts _ ↦ spend_of_ne hattempts _
  · refine ⟨result ++ [effective], spend .memberships 1 (spend .unionAttempts 1 counts), ?_, ?_⟩
    · rw [addEffective, runUnder_bind, hcharge, ok_bind, if_neg hmem, runUnder_bind, charge,
        runUnder_charge_none]
      rfl
    · constructor
      case nodup =>
        intro h
        rw [← List.concat_eq_append]
        exact h.concat hmem
      case mem => exact fun other ↦ by rw [List.mem_append, List.mem_singleton]
      case attempted => rw [spend_of_ne hne.symm, spend_self]
      case members =>
        rw [spend_self, spend_of_ne hne, List.length_append, List.length_singleton]
        omega
      case rest =>
        intro key hattempts hmembers
        rw [spend_of_ne hmembers, spend_of_ne hattempts]

theorem gathers_foldlM {items : List String}
    {step : List String → String → Administered (List String)}
    {added : String → String → Prop} {attempts : String → ℕ}
    (hstep : ∀ item ∈ items, ∀ result counts, ∃ grown readings,
      runUnder (step result item) none counts = .ok (grown, readings) ∧
        Gathers result (added item) (attempts item) counts grown readings)
    (result : List String) (counts : Counter → ℕ) :
    ∃ grown readings, runUnder (items.foldlM step result) none counts = .ok (grown, readings) ∧
      Gathers result (fun other ↦ ∃ item ∈ items, added item other) (items.map attempts).sum
        counts grown readings := by
  induction items generalizing result counts with
  | nil =>
    refine ⟨result, counts, rfl, ?_⟩
    have hnone : (fun other ↦ ∃ item ∈ ([] : List String), added item other) = fun _ ↦ False := by
      funext other
      simp
    rw [hnone]
    exact .refl result counts
  | cons item items ih =>
    obtain ⟨grown, middle, hfirst, hgrown⟩ := hstep item List.mem_cons_self result counts
    obtain ⟨last, readings, hrest, hlast⟩ :=
      ih (fun other hother ↦ hstep other (List.mem_cons_of_mem _ hother)) grown middle
    refine ⟨last, readings, ?_, ?_⟩
    · rw [List.foldlM_cons, runUnder_bind, hfirst]
      exact hrest
    · have hsplit : (fun other ↦ ∃ entry ∈ item :: items, added entry other) =
          fun other ↦ added item other ∨ ∃ entry ∈ items, added entry other := by
        funext other
        simp
      rw [hsplit, List.map_cons, List.sum_cons]
      exact hgrown.trans hlast

theorem gathers_inherit {effectiveTypes : String → Option (List String)}
    {inherited : List String} (h : effectiveTypes parent = some inherited) (result : List String)
    (counts : Counter → ℕ) :
    ∃ grown readings,
      runUnder (inherit effectiveTypes result parent) none counts = .ok (grown, readings) ∧
        Gathers result (· ∈ inherited) inherited.length counts grown readings := by
  obtain ⟨grown, readings, hrun, hgathers⟩ := gathers_foldlM
    (fun effective (_ : effective ∈ inherited) result counts ↦
      gathers_addEffective result effective counts) result counts
  refine ⟨grown, readings, ?_, ?_⟩
  · rw [inherit, h]
    exact hrun
  · simpa using hgathers

end Sets

section Explored

/-- A Type that is done: its set, and the number of nodes on its longest parent path. -/
structure Settled (byId : ById) (walk : Walk) (counts : Counter → ℕ) (id : String)
    (set : List String) : Prop where
  installed : id ∈ byId.map TypeDescriptor.id
  nodup : set.Nodup
  mem : ∀ other, other ∈ set ↔ ReflTransGen (Declares byId) id other
  deepest : ∃ depth, walk.depths id = some depth ∧ Ancestry.Deepest (Declares byId) id depth ∧
    depth ≤ counts .depth

/-- The parents that a frame has looked at are done, but for the one whose frame stands above. -/
def Stack (byId : ById) (effectiveTypes : String → Option (List String)) :
    Option String → List Frame → Prop
  | _, [] => True
  | above, frame :: below =>
    frame.parents = byId.parents frame.id ∧ frame.id ∈ byId.map TypeDescriptor.id ∧
    effectiveTypes frame.id = none ∧
    (∀ parent ∈ frame.parents.take frame.next,
      (effectiveTypes parent).isSome ∨ above = some parent) ∧
    (∀ parent ∈ above, Declares byId frame.id parent) ∧
    Stack byId effectiveTypes (some frame.id) below

def Walk.done (byId : ById) (walk : Walk) : Finset String :=
  (byId.map TypeDescriptor.id).toFinset.filter fun id ↦ (walk.effectiveTypes id).isSome

/-- What holds between two turns of the walk; within a turn a Type may stand above the stack. -/
structure Explored (byId : ById) (base : Counter → ℕ) (above : Option String) (walk : Walk)
    (counts : Counter → ℕ) : Prop where
  visiting : ∀ id, id ∈ walk.visiting ↔ id ∈ walk.frames.map Frame.id
  distinct : (walk.frames.map Frame.id).Nodup
  stack : Stack byId walk.effectiveTypes above walk.frames
  settled : ∀ id set, walk.effectiveTypes id = some set → Settled byId walk counts id set
  memberships : counts .memberships = ∑ id ∈ walk.done byId, (conforming byId id).ncard
  unionAttempts : counts .unionAttempts =
    ∑ id ∈ walk.done byId, ((byId.parents id).map fun parent ↦ (conforming byId parent).ncard).sum
  depth : counts .depth ∈ Ancestry.pathsWithin (Declares byId) (· ∈ byId.map TypeDescriptor.id)
  nodes : counts .nodes = base .nodes
  edges : counts .edges = base .edges

variable {effectiveTypes : String → Option (List String)} {above : Option String} {id : String}
  {frames : List Frame}

theorem stack_update (result : List String) (h : Stack byId effectiveTypes above frames)
    (hne : ∀ frame ∈ frames, frame.id ≠ id) :
    Stack byId (Function.update effectiveTypes id (some result)) above frames := by
  induction frames generalizing above with
  | nil => trivial
  | cons frame frames ih =>
    obtain ⟨hparents, hinstalled, hopen, hlooked, habove, hrest⟩ := h
    refine ⟨hparents, hinstalled, ?_, fun parent hparent ↦ ?_, habove, ?_⟩
    · rw [update_of_ne (hne frame List.mem_cons_self)]
      exact hopen
    · by_cases heq : parent = id
      · subst heq
        rw [Function.update_self]
        exact .inl rfl
      · rw [update_of_ne heq]
        exact hlooked parent hparent
    · exact ih hrest fun other hother ↦ hne other (List.mem_cons_of_mem _ hother)

theorem stack_settle (result : List String) (h : Stack byId effectiveTypes (some id) frames)
    (hne : ∀ frame ∈ frames, frame.id ≠ id) :
    Stack byId (Function.update effectiveTypes id (some result)) none frames := by
  have hupdated := stack_update result h hne
  cases frames with
  | nil => trivial
  | cons frame frames =>
    obtain ⟨hparents, hinstalled, hopen, hlooked, -, hrest⟩ := hupdated
    refine ⟨hparents, hinstalled, hopen, fun parent hparent ↦ .inl ?_, nofun, hrest⟩
    obtain hsome | habove := hlooked parent hparent
    · exact hsome
    · cases habove
      rw [Function.update_self]
      rfl

theorem stack_chain (h : Stack byId effectiveTypes (some id) frames) :
    List.IsChain (fun upper lower ↦ Declares byId lower upper) (id :: frames.map Frame.id) := by
  induction frames generalizing id with
  | nil => exact List.isChain_singleton id
  | cons frame frames ih =>
    obtain ⟨-, -, -, -, habove, hrest⟩ := h
    exact List.isChain_cons_cons.mpr ⟨habove id rfl, ih hrest⟩

theorem stack_installed (h : Stack byId effectiveTypes above frames) :
    ∀ id ∈ frames.map Frame.id, id ∈ byId.map TypeDescriptor.id := by
  induction frames generalizing above with
  | nil => exact nofun
  | cons frame frames ih =>
    obtain ⟨-, hinstalled, -, -, -, hrest⟩ := h
    exact List.forall_mem_cons.mpr ⟨hinstalled, ih hrest⟩

theorem stack_reaches (h : Stack byId effectiveTypes (some id) frames) :
    ∀ lower ∈ frames.map Frame.id, TransGen (Declares byId) lower id := by
  induction frames generalizing id with
  | nil => exact nofun
  | cons frame frames ih =>
    obtain ⟨-, -, -, -, habove, hrest⟩ := h
    refine List.forall_mem_cons.mpr ⟨.single (habove id rfl), fun lower hlower ↦ ?_⟩
    exact (ih hrest lower hlower).tail (habove id rfl)

theorem Explored.not_mem_frames (h : Explored byId base above walk counts)
    (hnew : id ∉ walk.visiting) : id ∉ walk.frames.map Frame.id :=
  fun hmem ↦ hnew ((h.visiting id).mpr hmem)

theorem Settled.raised {set : List String} (h : Settled byId walk counts id set)
    (heffective : after.depths id = walk.depths id) (hdepth : counts .depth ≤ readings .depth) :
    Settled byId after readings id set := by
  obtain ⟨depth, hfound, hdeepest, hle⟩ := h.deepest
  exact ⟨h.installed, h.nodup, h.mem, depth, heffective.trans hfound, hdeepest, hle.trans hdepth⟩

theorem pathsWithin_max {level other : ℕ} {nodes : String → Prop}
    (h : level ∈ Ancestry.pathsWithin (Declares byId) nodes)
    (h' : other ∈ Ancestry.pathsWithin (Declares byId) nodes) :
    max level other ∈ Ancestry.pathsWithin (Declares byId) nodes := by
  obtain hmax | hmax := max_choice level other
  · rwa [hmax]
  · rwa [hmax]

theorem Explored.enter (h : Explored byId base (some id) walk counts) (hnew : id ∉ walk.visiting)
    (hopen : walk.effectiveTypes id = none) (hinstalled : id ∈ byId.map TypeDescriptor.id) :
    ∃ readings, runUnder (push byId id walk) none counts = .ok (walk.enter byId id, readings) ∧
      Explored byId base none (walk.enter byId id) readings := by
  refine ⟨Function.update counts .depth (max (counts .depth) (walk.frames.length + 1)), ?_, ?_⟩
  · rw [push, runUnder_bind, checkDepth, runUnder_raise_none]
    rfl
  · have hother : ∀ key, key ≠ Counter.depth → Function.update counts .depth
        (max (counts .depth) (walk.frames.length + 1)) key = counts key :=
      fun key hkey ↦ update_of_ne hkey ..
    constructor
    case visiting =>
      intro other
      rw [Walk.enter, Finset.mem_insert, h.visiting, List.map_cons, List.mem_cons]
    case distinct => exact List.nodup_cons.mpr ⟨h.not_mem_frames hnew, h.distinct⟩
    case stack => exact ⟨rfl, hinstalled, hopen, fun _ hother ↦ absurd hother List.not_mem_nil,
      fun _ hother ↦ (by cases hother), h.stack⟩
    case settled =>
      refine fun other set hset ↦ (h.settled other set hset).raised rfl ?_
      rw [Function.update_self]
      exact Nat.le_max_left _ _
    case memberships => exact (hother .memberships (by decide)).trans h.memberships
    case unionAttempts => exact (hother .unionAttempts (by decide)).trans h.unionAttempts
    case depth =>
      rw [Function.update_self]
      refine pathsWithin_max h.depth ⟨(id :: walk.frames.map Frame.id).reverse, ?_, ?_, ?_⟩
      · exact List.isChain_reverse.mpr (stack_chain h.stack)
      · intro node hnode
        obtain rfl | hnode := List.mem_cons.mp (List.mem_reverse.mp hnode)
        · exact hinstalled
        · exact stack_installed h.stack node hnode
      · rw [List.length_reverse, List.length_cons, List.length_map]
    case nodes => exact (hother .nodes (by decide)).trans h.nodes
    case edges => exact (hother .edges (by decide)).trans h.edges

theorem Explored.advance (h : Explored byId base none walk counts)
    (hframes : walk.frames = frame :: below) (hparent : frame.parents[frame.next]? = some parent)
    (habove : (walk.effectiveTypes parent).isSome ∧ above = none ∨ above = some parent) :
    Explored byId base above (walk.advance frame below) counts where
  visiting id := by rw [Walk.advance, h.visiting, hframes]; rfl
  distinct := by
    have hdistinct := h.distinct
    rwa [hframes] at hdistinct
  stack := by
    have hstack := h.stack
    rw [hframes] at hstack
    obtain ⟨hparents, hinstalled, hopen, hlooked, -, hrest⟩ := hstack
    have hmem : parent ∈ frame.parents := List.mem_of_getElem? hparent
    refine ⟨hparents, hinstalled, hopen, fun other hother ↦ ?_, fun other hother ↦ ?_, hrest⟩
    · rw [List.take_add_one, hparent] at hother
      obtain hother | hother := List.mem_append.mp hother
      · exact .inl ((hlooked other hother).resolve_right fun h ↦ by cases h)
      · obtain rfl := List.mem_singleton.mp hother
        obtain ⟨hsome, -⟩ | rfl := habove
        · exact .inl hsome
        · exact .inr rfl
    · obtain ⟨-, rfl⟩ | rfl := habove
      · cases hother
      · cases hother
        rw [Declares, ← hparents]
        exact hmem
  settled id set hset := (h.settled id set hset).raised rfl le_rfl
  memberships := h.memberships
  unionAttempts := h.unionAttempts
  depth := h.depth
  nodes := h.nodes
  edges := h.edges

theorem conforming_eq {set : List String} (hnodup : set.Nodup)
    (hmem : ∀ other, other ∈ set ↔ ReflTransGen (Declares byId) id other) :
    (conforming byId id).ncard = set.length := by
  have hset : conforming byId id = set.toFinset := by
    ext other
    rw [List.coe_toFinset]
    exact (hmem other).symm
  rw [hset, Set.ncard_coe_finset, List.toFinset_card_of_nodup hnodup]

theorem reflTransGen_iff (other : String) : ReflTransGen (Declares byId) id other ↔
      other = id ∨ ∃ parent ∈ byId.parents id, ReflTransGen (Declares byId) parent other := by
  rw [ReflTransGen.cases_head_iff, eq_comm]
  rfl

theorem Explored.parents_done (h : Explored byId base none walk counts)
    (hframes : walk.frames = frame :: below) (hlast : frame.parents[frame.next]? = none) :
    ∀ parent ∈ frame.parents, ∃ set, walk.effectiveTypes parent = some set ∧
      Settled byId walk counts parent set := by
  have hstack := h.stack
  rw [hframes] at hstack
  obtain ⟨-, -, -, hlooked, -⟩ := hstack
  intro parent hparent
  have hall : frame.parents.take frame.next = frame.parents :=
    List.take_of_length_le (List.getElem?_eq_none_iff.mp hlast)
  rw [hall] at hlooked
  obtain ⟨set, hset⟩ := Option.isSome_iff_exists.mp ((hlooked parent hparent).resolve_right nofun)
  exact ⟨set, hset, h.settled parent set hset⟩

theorem mem_done : id ∈ walk.done byId ↔
    id ∈ byId.map TypeDescriptor.id ∧ (walk.effectiveTypes id).isSome := by
  rw [Walk.done, Finset.mem_filter, List.mem_toFinset]

section Settle

variable {result : List String} {depth : ℕ}

theorem settle_self :
    (walk.settle frame below result depth).effectiveTypes frame.id = some result :=
  Function.update_self ..

theorem settle_of_ne (h : id ≠ frame.id) :
    (walk.settle frame below result depth).effectiveTypes id = walk.effectiveTypes id :=
  update_of_ne h ..

theorem done_settle (hinstalled : frame.id ∈ byId.map TypeDescriptor.id) :
    (walk.settle frame below result depth).done byId = insert frame.id (walk.done byId) := by
  ext other
  rw [Finset.mem_insert, mem_done, mem_done]
  by_cases heq : other = frame.id
  · subst heq
    simp [settle_self, hinstalled]
  · rw [settle_of_ne heq]
    simp [heq]

end Settle

theorem Explored.united (h : Explored byId base none walk counts)
    (hframes : walk.frames = frame :: below) (hlast : frame.parents[frame.next]? = none)
    (start : Counter → ℕ) :
    ∃ result readings,
      runUnder (frame.parents.foldlM (inherit walk.effectiveTypes) [frame.id]) none start =
        .ok (result, readings) ∧
      result.Nodup ∧ (∀ other, other ∈ result ↔ ReflTransGen (Declares byId) frame.id other) ∧
      readings .unionAttempts = start .unionAttempts +
        ((byId.parents frame.id).map fun parent ↦ (conforming byId parent).ncard).sum ∧
      readings .memberships + 1 = start .memberships + result.length ∧
      ∀ key, key ≠ .unionAttempts → key ≠ .memberships → readings key = start key := by
  have hparents := h.parents_done hframes hlast
  have hstack := h.stack
  rw [hframes] at hstack
  have hdeclared := hstack.1
  obtain ⟨result, readings, hrun, hgathers⟩ := gathers_foldlM
    (fun parent (hparent : parent ∈ frame.parents) result counts ↦ by
      obtain ⟨set, hset, hsettled⟩ := hparents parent hparent
      have hadded := gathers_inherit hset result counts
      rw [← conforming_eq hsettled.nodup hsettled.mem] at hadded
      have hmem : (· ∈ set) = fun other ↦ ReflTransGen (Declares byId) parent other :=
        funext fun other ↦ propext (hsettled.mem other)
      rwa [hmem] at hadded)
    [frame.id] start
  refine ⟨result, readings, hrun, hgathers.nodup (List.nodup_singleton _), fun other ↦ ?_, ?_,
    hgathers.members, hgathers.rest⟩
  · rw [hgathers.mem, reflTransGen_iff, List.mem_singleton, hdeclared]
  · rw [hgathers.attempted, hdeclared]

theorem Explored.deepest (h : Explored byId base none walk counts)
    (hframes : walk.frames = frame :: below) (hlast : frame.parents[frame.next]? = none) :
    Ancestry.Deepest (Declares byId) frame.id (depthOf walk.depths frame.parents) := by
  have hparents := h.parents_done hframes hlast
  have hstack := h.stack
  rw [hframes] at hstack
  have hdeclared := hstack.1
  refine Ancestry.deepest_of_parents (fun ancestor ↦ ?_) fun ancestor hancestor ↦ ?_
  · rw [Declares, hdeclared]
  · obtain ⟨set, -, hsettled⟩ := hparents ancestor hancestor
    obtain ⟨depth, hdepth, hdeepest, -⟩ := hsettled.deepest
    rw [hdepth]
    exact hdeepest

theorem deepest_pathsWithin (hpresent : ParentsInstalled byId) {depth : ℕ}
    (hinstalled : id ∈ byId.map TypeDescriptor.id)
    (h : depth ∈ Ancestry.pathLengths (Declares byId) id) :
    depth ∈ Ancestry.pathsWithin (Declares byId) (· ∈ byId.map TypeDescriptor.id) := by
  obtain ⟨path, hchain, rfl⟩ := h
  refine ⟨id :: path, hchain, ?_, rfl⟩
  induction path generalizing id with
  | nil => exact List.forall_mem_singleton.mpr hinstalled
  | cons parent path ih =>
    obtain ⟨hparent, hrest⟩ := List.isChain_cons_cons.mp hchain
    exact List.forall_mem_cons.mpr ⟨hinstalled, ih (hpresent id parent hparent) hrest⟩

theorem Explored.complete (h : Explored byId base none walk counts)
    (hpresent : ParentsInstalled byId) (hframes : walk.frames = frame :: below)
    (hlast : frame.parents[frame.next]? = none) :
    ∃ result readings, runUnder (complete frame below walk) none counts = .ok
        (walk.settle frame below result (depthOf walk.depths frame.parents), readings) ∧
      Explored byId base none
        (walk.settle frame below result (depthOf walk.depths frame.parents)) readings := by
  have hdeepest := h.deepest hframes hlast
  set depth := depthOf walk.depths frame.parents with hdepth
  set deepened := Function.update counts .depth (max (counts .depth) depth) with hdeepened
  have hraised : deepened .depth = max (counts .depth) depth := Function.update_self ..
  have hkept : ∀ key, key ≠ Counter.depth → deepened key = counts key :=
    fun key hkey ↦ update_of_ne hkey ..
  have hcharged : ∀ key, key ≠ Counter.memberships → spend .memberships 1 deepened key =
      deepened key := fun key hkey ↦ spend_of_ne hkey 1
  obtain ⟨result, readings, hrun, hnodup, hmem, hattempts, hmembers, hrest⟩ :=
    h.united hframes hlast (spend .memberships 1 deepened)
  have hstack := h.stack
  have hdistinct := h.distinct
  rw [hframes] at hstack hdistinct
  obtain ⟨hdeclared, hinstalled, hopen, -, -, hbelow⟩ := hstack
  obtain ⟨hnotbelow, hdistinct⟩ := List.nodup_cons.mp hdistinct
  have hreadings : readings .depth = max (counts .depth) depth := by
    rw [hrest .depth nofun nofun, hcharged .depth nofun, hraised]
  have hnotdone : frame.id ∉ walk.done byId := by
    rw [mem_done, hopen]
    exact fun hdone ↦ nomatch hdone.2
  refine ⟨result, readings, ?_, ?_⟩
  · rw [Conformance.complete, runUnder_bind, checkDepth, runUnder_raise_none, ok_bind,
      runUnder_bind, charge, runUnder_charge_none, ok_bind, runUnder_bind, hrun]
    rfl
  · constructor
    case visiting =>
      intro id
      rw [Walk.settle, Finset.mem_erase, h.visiting, hframes, List.map_cons, List.mem_cons]
      refine ⟨fun hid ↦ hid.2.resolve_left hid.1, fun hid ↦ ⟨?_, .inr hid⟩⟩
      rintro rfl
      exact hnotbelow hid
    case distinct => exact hdistinct
    case stack =>
      refine stack_settle result hbelow fun other hother heq ↦ hnotbelow ?_
      exact List.mem_map.mpr ⟨other, hother, heq⟩
    case settled =>
      intro id set hset
      by_cases heq : id = frame.id
      · subst heq
        obtain rfl := Option.some.inj (settle_self.symm.trans hset)
        refine ⟨hinstalled, hnodup, hmem, depth, Function.update_self .., hdeepest, ?_⟩
        rw [hreadings]
        exact Nat.le_max_right _ _
      · rw [settle_of_ne heq] at hset
        refine (h.settled id set hset).raised (update_of_ne heq ..) ?_
        rw [hreadings]
        exact Nat.le_max_left _ _
    case memberships =>
      rw [done_settle hinstalled, Finset.sum_insert hnotdone, conforming_eq hnodup hmem,
        ← h.memberships]
      rw [spend_self, hkept .memberships nofun] at hmembers
      omega
    case unionAttempts =>
      rw [done_settle hinstalled, Finset.sum_insert hnotdone, ← h.unionAttempts, hattempts,
        hcharged .unionAttempts nofun, hkept .unionAttempts nofun, Nat.add_comm]
    case depth =>
      rw [hreadings]
      exact pathsWithin_max h.depth (deepest_pathsWithin hpresent hinstalled hdeepest.1)
    case nodes =>
      rw [hrest .nodes nofun nofun, hcharged .nodes nofun, hkept .nodes nofun]
      exact h.nodes
    case edges =>
      rw [hrest .edges nofun nofun, hcharged .edges nofun, hkept .edges nofun]
      exact h.edges

end Explored

section Run

def Walk.Met (walk : Walk) (id : String) : Prop :=
  id ∈ walk.visiting ∨ (walk.effectiveTypes id).isSome

/-- A part of the walk goes on soundly, or stops at a Type that conforms to itself. -/
def Proceeds (byId : ById) (base : Counter → ℕ) (walk : Walk)
    (outcome : Except Failure (Walk × (Counter → ℕ))) : Prop :=
  (∃ after readings, outcome = .ok (after, readings) ∧ Explored byId base none after readings ∧
    ∀ id, walk.Met id → after.Met id) ∨
  ∃ node, outcome = .error (.cycle node) ∧ TransGen (Declares byId) node node

theorem Proceeds.bind {outcome : Except Failure (Walk × (Counter → ℕ))}
    {next : Walk × (Counter → ℕ) → Except Failure (Walk × (Counter → ℕ))}
    (h : Proceeds byId base walk outcome)
    (hnext : ∀ middle reached, outcome = .ok (middle, reached) →
      Explored byId base none middle reached → (∀ id, walk.Met id → middle.Met id) →
        Proceeds byId base middle (next (middle, reached))) :
    Proceeds byId base walk (outcome >>= next) := by
  obtain ⟨middle, reached, houtcome, hexplored, hmet⟩ | ⟨node, houtcome, hcycle⟩ := h
  · have hproceeds := hnext middle reached houtcome hexplored hmet
    rw [houtcome, ok_bind]
    obtain ⟨after, readings, hrest, hafter, hgrows⟩ | hstops := hproceeds
    · exact .inl ⟨after, readings, hrest, hafter, fun id hid ↦ hgrows id (hmet id hid)⟩
    · exact .inr hstops
  · rw [houtcome]
    exact .inr ⟨node, rfl, hcycle⟩

variable {id : String}

theorem met_enter (other : String) (h : walk.Met other) : (walk.enter byId id).Met other :=
  h.imp (Finset.mem_insert_of_mem ·) fun hsome ↦ hsome

theorem met_settle {result : List String} {depth : ℕ} (other : String) (h : walk.Met other) :
    (walk.settle frame below result depth).Met other := by
  by_cases heq : other = frame.id
  · subst heq
    rw [Walk.Met, settle_self]
    exact .inr rfl
  · refine h.imp (fun hvisiting ↦ Finset.mem_erase.mpr ⟨heq, hvisiting⟩) fun hsome ↦ ?_
    rwa [settle_of_ne heq]

section

variable (h : Explored byId base none walk counts)
include h

theorem Explored.cycle (hframes : walk.frames = frame :: below)
    (hparent : frame.parents[frame.next]? = some parent) (hvisiting : parent ∈ walk.visiting) :
    TransGen (Declares byId) parent parent := by
  have hmem := (h.visiting parent).mp hvisiting
  have hstack := h.stack
  rw [hframes] at hstack hmem
  obtain ⟨hdeclared, -, -, -, -, hrest⟩ := hstack
  have hdeclares : Declares byId frame.id parent := by
    rw [Declares, ← hdeclared]
    exact List.mem_of_getElem? hparent
  obtain rfl | hbelow := List.mem_cons.mp hmem
  · exact .single hdeclares
  · exact (stack_reaches hrest parent hbelow).tail hdeclares

/-- One turn: a parent that is done, one that is entered, one that is on the stack already, or the
completion of the frame. -/
theorem Explored.turn (hpresent : ParentsInstalled byId) (hframes : walk.frames = frame :: below) :
    Proceeds byId base walk (runUnder (turn byId frame below walk) none counts) := by
  unfold Conformance.turn
  split
  · next parent hparent =>
    by_cases hvisiting : parent ∈ walk.visiting
    · refine .inr ⟨parent, ?_, h.cycle hframes hparent hvisiting⟩
      rw [descend, runUnder_bind, runUnder_lift, check_of_not (not_not.mpr hvisiting)]
      rfl
    · have hrun : runUnder (descend byId frame below parent walk) none counts =
          runUnder (if (walk.effectiveTypes parent).isSome then pure (walk.advance frame below)
            else push byId parent (walk.advance frame below)) none counts := by
        rw [descend, runUnder_bind, runUnder_lift, check_of hvisiting]
        rfl
      rw [hrun]
      split
      · next hsome =>
        exact .inl ⟨walk.advance frame below, counts, rfl,
          h.advance hframes hparent (.inl ⟨hsome, rfl⟩), fun _ hid ↦ hid⟩
      · next hopen =>
        have hstack := h.stack
        rw [hframes] at hstack
        have hdeclares : Declares byId frame.id parent := by
          rw [Declares, ← hstack.1]
          exact List.mem_of_getElem? hparent
        obtain ⟨readings, hpush, hentered⟩ := (h.advance hframes hparent (.inr rfl)).enter hvisiting
          (Option.not_isSome_iff_eq_none.mp hopen) (hpresent _ _ hdeclares)
        exact .inl ⟨_, readings, hpush, hentered, fun other hother ↦
          met_enter other hother⟩
  · next hlast =>
    obtain ⟨result, readings, hrun, hexplored⟩ := h.complete hpresent hframes hlast
    exact .inl ⟨_, readings, hrun, hexplored, met_settle⟩

theorem Explored.drain {turns : ℕ}
    (hpresent : ParentsInstalled byId) (hturns : walk.weight byId ≤ turns) :
    Proceeds byId base walk (runUnder (drain byId turns walk) none counts) := by
  have hdone : Proceeds byId base walk (.ok (walk, counts)) :=
    .inl ⟨walk, counts, rfl, h, fun _ hid ↦ hid⟩
  induction turns generalizing walk counts with
  | zero =>
    unfold Conformance.drain
    split
    · exact hdone
    · next hframes => exact absurd (weight_pos hframes) (not_lt.mpr hturns)
  | succ turns ih =>
    unfold Conformance.drain
    split
    · exact hdone
    · next hframes =>
      refine (h.turn hpresent hframes).bind fun middle reached hturn hmiddle hmet ↦ ?_
      refine ih hmiddle ?_ (.inl ⟨middle, reached, rfl, hmiddle, fun _ hid ↦ hid⟩)
      exact Nat.le_of_lt_succ ((weight_turn hturn hframes).trans_le hturns)

end

theorem Explored.stacked (h : Explored byId base above walk counts) : walk.Stacked :=
  fun id hid ↦ (h.visiting id).mp hid

theorem Explored.visitRoot (h : Explored byId base none walk counts)
    (hpresent : ParentsInstalled byId) (hframes : walk.frames = [])
    (hinstalled : id ∈ byId.map TypeDescriptor.id) :
    (∃ after readings, runUnder (visitRoot byId walk id) none counts = .ok (after, readings) ∧
      Explored byId base none after readings ∧ after.frames = [] ∧ after.Met id ∧
      ∀ other, walk.Met other → after.Met other) ∨
    ∃ node, runUnder (visitRoot byId walk id) none counts = .error (.cycle node) ∧
      TransGen (Declares byId) node node := by
  have hresting : walk.Resting := ⟨h.stacked, hframes⟩
  unfold Conformance.visitRoot
  split
  · next hsome => exact .inl ⟨walk, counts, rfl, h, hframes, .inr hsome, fun _ hid ↦ hid⟩
  · next hopen =>
    have hopen := Option.not_isSome_iff_eq_none.mp hopen
    have habove : Explored byId base (some id) walk counts :=
      { h with stack := by rw [hframes]; trivial }
    obtain ⟨middle, hpush, hentered⟩ := habove.enter (hresting.not_visiting id) hopen hinstalled
    have hweight := weight_root hframes (hresting.not_visiting id) hopen hpush
    rw [runUnder_bind, hpush, ok_bind]
    obtain ⟨after, readings, hdrain, hafter, hmet⟩ | hstops := hentered.drain hpresent hweight
    · have hempty := (stacked_drain hentered.stacked hdrain).2
      refine .inl ⟨after, readings, hdrain, hafter, hempty, ?_, ?_⟩
      · exact hmet id (.inl (Finset.mem_insert_self ..))
      · exact fun other hother ↦ hmet other (met_enter other hother)
    · exact .inr hstops

theorem Explored.visitRoots {ids : List String} (h : Explored byId base none walk counts)
    (hpresent : ParentsInstalled byId) (hframes : walk.frames = [])
    (hinstalled : ∀ id ∈ ids, id ∈ byId.map TypeDescriptor.id) :
    (∃ after readings,
      runUnder (ids.foldlM (Conformance.visitRoot byId) walk) none counts = .ok (after, readings) ∧
      Explored byId base none after readings ∧ after.frames = [] ∧ (∀ id ∈ ids, after.Met id) ∧
      ∀ other, walk.Met other → after.Met other) ∨
    ∃ node, runUnder (ids.foldlM (Conformance.visitRoot byId) walk) none counts =
      .error (.cycle node) ∧ TransGen (Declares byId) node node := by
  induction ids generalizing walk counts with
  | nil => exact .inl ⟨walk, counts, rfl, h, hframes, nofun, fun _ hid ↦ hid⟩
  | cons id ids ih =>
    obtain ⟨hid, hids⟩ := List.forall_mem_cons.mp hinstalled
    rw [List.foldlM_cons, runUnder_bind]
    obtain ⟨middle, reached, hroot, hmiddle, hempty, hmet, hgrows⟩ | ⟨node, hroot, hcycle⟩ :=
      h.visitRoot hpresent hframes hid
    · rw [hroot, ok_bind]
      obtain ⟨after, readings, hrest, hafter, hlast, hall, hfurther⟩ | hstops :=
        ih hmiddle hempty hids
      · exact .inl ⟨after, readings, hrest, hafter, hlast,
          List.forall_mem_cons.mpr ⟨hfurther id hmet, hall⟩,
          fun other hother ↦ hfurther other (hgrows other hother)⟩
      · exact .inr hstops
    · rw [hroot]
      exact .inr ⟨node, rfl, hcycle⟩

end Run

end Bdp.Conformance
