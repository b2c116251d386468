import Bdp.Library.Decimal
import Bdp.Library.JsonTree

/-!
# Iterative walks over JSON trees

Two loops with an explicit stack. The writer turns a stack of texts and values into one text; it
equals the recursive compact text. The walk copies a tree depth first, with a check of every name
and an effect at every leaf; on a tree whose names pass and whose leaves have no effect it is the
map of the leaves.
-/

namespace Bdp.JsonTree

variable {L M : Type}

section Weight

mutual

/-- A bound on the turns that a tree takes on a stack. -/
def weight : JsonTree L → ℕ
  | .leaf _ => 1
  | .array items => 2 + itemsWeight items
  | .object members => 2 + membersWeight members

def itemsWeight : List (JsonTree L) → ℕ
  | [] => 0
  | item :: items => item.weight + 3 + itemsWeight items

def membersWeight : List (Text × JsonTree L) → ℕ
  | [] => 0
  | (_, value) :: members => value.weight + 3 + membersWeight members

end

end Weight

section Writer

/-- A task of a writer: a text to write, or a value to take apart. -/
inductive Task (L : Type) where
  | text (text : Text)
  | value (value : JsonTree L)

def Task.weight : Task L → ℕ
  | .text _ => 1
  | .value tree => tree.weight

/-- The items of an array with their commas, in the order in which they leave the stack. -/
def itemTasks : List (JsonTree L) → List (Task L)
  | [] => []
  | [item] => [.value item]
  | item :: next :: rest => .value item :: .text [44] :: itemTasks (next :: rest)

/-- A member of an object; a joined writer pushes name and colon as one text. -/
def memberTask (joined : Bool) (name : Text) (value : JsonTree L) : List (Task L) :=
  if joined then [.text (CodeUnits.quote name ++ [58]), .value value]
  else [.text (CodeUnits.quote name), .text [58], .value value]

def memberTasks (joined : Bool) : List (Text × JsonTree L) → List (Task L)
  | [] => []
  | [(name, value)] => memberTask joined name value
  | (name, value) :: next :: rest =>
    memberTask joined name value ++ .text [44] :: memberTasks joined (next :: rest)

def tasksWeight (tasks : List (Task L)) : ℕ := (tasks.map Task.weight).sum

theorem tasksWeight_cons (task : Task L) (tasks : List (Task L)) :
    tasksWeight (task :: tasks) = task.weight + tasksWeight tasks := rfl

theorem tasksWeight_append (tasks more : List (Task L)) :
    tasksWeight (tasks ++ more) = tasksWeight tasks + tasksWeight more := by
  simp [tasksWeight]

theorem itemTasks_weight (items : List (JsonTree L)) :
    tasksWeight (itemTasks items) ≤ itemsWeight items := by
  fun_induction itemTasks items with
  | case1 => exact Nat.zero_le _
  | case2 item => simp [tasksWeight, Task.weight, itemsWeight]
  | case3 item next rest ih =>
    simp only [tasksWeight_cons, Task.weight, itemsWeight] at ih ⊢
    omega

theorem memberTask_weight (joined : Bool) (name : Text) (value : JsonTree L) :
    tasksWeight (memberTask joined name value) ≤ value.weight + 2 := by
  cases joined <;> simp [memberTask, tasksWeight, Task.weight] <;> omega

theorem memberTasks_weight (joined : Bool) (members : List (Text × JsonTree L)) :
    tasksWeight (memberTasks joined members) ≤ membersWeight members := by
  fun_induction memberTasks joined members with
  | case1 => exact Nat.zero_le _
  | case2 name value =>
    have := memberTask_weight joined name value
    simp only [membersWeight]
    omega
  | case3 name value next rest ih =>
    have := memberTask_weight joined name value
    simp only [tasksWeight_append, tasksWeight_cons, Task.weight, membersWeight] at ih ⊢
    omega

/-- The loop of an iterative writer. -/
def writeTasks (joined : Bool) (write : L → Text) : List (Task L) → Text
  | [] => []
  | .text text :: tasks => text ++ writeTasks joined write tasks
  | .value (.leaf value) :: tasks => write value ++ writeTasks joined write tasks
  | .value (.array items) :: tasks =>
    91 :: writeTasks joined write (itemTasks items ++ .text [93] :: tasks)
  | .value (.object members) :: tasks =>
    123 :: writeTasks joined write (memberTasks joined members ++ .text [125] :: tasks)
  termination_by tasks => tasksWeight tasks
  decreasing_by
  · simp [tasksWeight_cons, Task.weight]
  · simp [tasksWeight_cons, Task.weight, weight]
  · have := itemTasks_weight items
    simp only [tasksWeight_append, tasksWeight_cons, Task.weight, weight]
    omega
  · have := memberTasks_weight joined members
    simp only [tasksWeight_append, tasksWeight_cons, Task.weight, weight]
    omega

def writeTree (joined : Bool) (write : L → Text) (tree : JsonTree L) : Text :=
  writeTasks joined write [.value tree]

/-- What a task comes to. -/
def Task.result (write : L → Text) : Task L → Text
  | .text written => written
  | .value tree => tree.text write

theorem itemTasks_result (write : L → Text) (items : List (JsonTree L)) :
    (itemTasks items).flatMap (Task.result write) = commas (items.map (text write)) := by
  fun_induction itemTasks items with
  | case1 => rfl
  | case2 item => simp [Task.result, commas]
  | case3 item next rest ih => simp_all [Task.result, commas]

section

variable (joined : Bool)
include joined

theorem memberTask_result (write : L → Text) (name : Text) (value : JsonTree L) :
    (memberTask joined name value).flatMap (Task.result write) =
      CodeUnits.quote name ++ 58 :: value.text write := by
  cases joined <;> simp [memberTask, Task.result]

theorem memberTasks_result (write : L → Text) (members : List (Text × JsonTree L)) :
    (memberTasks joined members).flatMap (Task.result write) =
      commas (members.map fun member ↦ CodeUnits.quote member.1 ++ 58 :: text write member.2) := by
  fun_induction memberTasks joined members with
  | case1 => rfl
  | case2 name value => simp [memberTask_result, commas]
  | case3 name value next rest ih =>
    simp only [List.flatMap_append, memberTask_result, List.flatMap_cons, ih, List.map_cons, commas,
      Task.result]
    simp

theorem writeTasks_eq (write : L → Text) (tasks : List (Task L)) :
    writeTasks joined write tasks = tasks.flatMap (Task.result write) := by
  fun_induction writeTasks joined write tasks with
  | case1 => rfl
  | case2 text tasks ih => rw [ih]; rfl
  | case3 value tasks ih => rw [ih]; rfl
  | case4 items tasks ih =>
    rw [ih]
    simp [itemTasks_result, Task.result, text, itemTexts_eq_map]
  | case5 members tasks ih =>
    rw [ih]
    simp [memberTasks_result, Task.result, text, memberTexts_eq_map]

/-- The iterative writer gives the recursive compact text. -/
theorem writeTree_eq (write : L → Text) (tree : JsonTree L) :
    writeTree joined write tree = tree.text write := by
  rw [writeTree, writeTasks_eq]
  simp [Task.result]

end

end Writer

section Walk

/-- What a walk does at a name and at a leaf, each with the path of names from the root. -/
structure Walk (L M S E : Type) where
  name : List Text → Except E Unit
  leaf : List Text → L → S → Except E (M × S)

/-- A container being copied: its entries still to visit, the copy so far, the name of the entry
being copied and the path to the container. -/
structure WalkFrame (L M : Type) where
  source : List (Text × JsonTree L)
  target : Container M
  key : Text
  path : List Text

inductive WalkState (L M : Type) where
  | copying (frame : WalkFrame L M) (below : List (WalkFrame L M))
  | copied (root : JsonTree M)

/-- The items of an array under their indices. -/
def indexed (items : List (JsonTree L)) (start : ℕ) : List (Text × JsonTree L) :=
  match items with
  | [] => []
  | item :: items => (Decimal.digitsOf start, item) :: indexed items (start + 1)

def walkComplete (value : JsonTree M) (below : List (WalkFrame L M)) : WalkState L M :=
  match below with
  | [] => .copied value
  | frame :: below => .copying { frame with target := frame.target.put frame.key value } below

variable {S E : Type} (walk : Walk L M S E)

/-- Visit of a value whose copy goes to the frame on top of the stack. -/
def walkVisit (value : JsonTree L) (path : List Text) (below : List (WalkFrame L M)) (state : S) :
    Except E (WalkState L M × S) :=
  match value with
  | .leaf value => (walk.leaf path value state).map fun copy ↦
      (walkComplete (.leaf copy.1) below, copy.2)
  | .array items => .ok (.copying ⟨indexed items 0, .array [], [], path⟩ below, state)
  | .object members => .ok (.copying ⟨members, .object [], [], path⟩ below, state)

def walkStep (frame : WalkFrame L M) (below : List (WalkFrame L M)) (state : S) :
    Except E (WalkState L M × S) :=
  match frame.source with
  | [] => .ok (walkComplete frame.target.tree below, state)
  | (key, child) :: rest =>
    match walk.name (frame.path ++ [key]) with
    | .error error => .error error
    | .ok () => walkVisit walk child (frame.path ++ [key])
        ({ frame with source := rest, key := key } :: below) state

def framesWeight (frames : List (WalkFrame L M)) : ℕ :=
  (frames.map fun frame ↦ 1 + membersWeight frame.source).sum

def WalkState.weight : WalkState L M → ℕ
  | .copying frame below => framesWeight (frame :: below)
  | .copied _ => 0

theorem copying_weight (frame : WalkFrame L M) (below : List (WalkFrame L M)) :
    (WalkState.copying frame below).weight =
      1 + membersWeight frame.source + framesWeight below := rfl

theorem walkComplete_weight (value : JsonTree M) (below : List (WalkFrame L M)) :
    (walkComplete value below).weight = framesWeight below := by
  cases below <;> rfl

@[simp]
theorem membersWeight_indexed (items : List (JsonTree L)) (start : ℕ) :
    membersWeight (indexed items start) = itemsWeight items := by
  induction items generalizing start with
  | nil => rfl
  | cons item items ih => simp [indexed, membersWeight, itemsWeight, ih]

variable {below : List (WalkFrame L M)} {next : WalkState L M × S}

theorem walkVisit_weight {value : JsonTree L} {path : List Text}
    {state : S} (h : walkVisit walk value path below state = .ok next) :
    next.1.weight < value.weight + framesWeight below := by
  cases value with
  | leaf value =>
    simp only [walkVisit] at h
    cases hleaf : walk.leaf path value state with
    | error error => rw [hleaf] at h; cases h
    | ok copy =>
      rw [hleaf] at h
      obtain rfl := Except.ok.inj h
      simp only [walkComplete_weight, weight]
      omega
  | array items =>
    obtain rfl := Except.ok.inj h
    simp only [WalkState.weight, framesWeight, List.map_cons, List.sum_cons,
      membersWeight_indexed, weight]
    omega
  | object members =>
    obtain rfl := Except.ok.inj h
    simp only [WalkState.weight, framesWeight, List.map_cons, List.sum_cons, weight]
    omega

theorem walkStep_decreases {frame : WalkFrame L M} {state : S}
    (h : walkStep walk frame below state = .ok next) :
    next.1.weight < (WalkState.copying frame below).weight := by
  unfold walkStep at h
  split at h
  · next hsource =>
    obtain rfl := Except.ok.inj h
    rw [walkComplete_weight, copying_weight]
    omega
  · next key child rest hsource =>
    split at h
    · cases h
    · have := walkVisit_weight walk h
      simp only [framesWeight, List.map_cons, List.sum_cons] at this
      rw [copying_weight, hsource, membersWeight, framesWeight]
      omega

/-- The loop of an iterative walk. -/
def walkRun (current : WalkState L M) (state : S) : Except E (JsonTree M × S) :=
  match current with
  | .copied root => .ok (root, state)
  | .copying frame below =>
    match _h : walkStep walk frame below state with
    | .error error => .error error
    | .ok (next, state) => walkRun next state
  termination_by current.weight
  decreasing_by exact walkStep_decreases walk _h

def walkTree (tree : JsonTree L) (state : S) : Except E (JsonTree M × S) :=
  match walkVisit walk tree [] [] state with
  | .error error => .error error
  | .ok (next, state) => walkRun walk next state

theorem walkRun_step {frame : WalkFrame L M} {state : S}
    (h : walkStep walk frame below state = .ok next) :
    walkRun walk (.copying frame below) state = walkRun walk next.1 next.2 := by
  rw [walkRun]
  split
  · next h' => rw [h] at h'; cases h'
  · next h' =>
    rw [h] at h'
    obtain rfl := Except.ok.inj h'
    rfl

/-- Names and leaves that a walk passes without an effect. -/
structure Passes (name : Text → Prop) (leaf : L → Prop) (change : L → M) (state : S) : Prop where
  index : ∀ path index, walk.name (path ++ [Decimal.digitsOf index]) = .ok ()
  name : ∀ path key, name key → walk.name (path ++ [key]) = .ok ()
  leaf : ∀ path value, leaf value → walk.leaf path value state = .ok (change value, state)

variable {walk} {name : Text → Prop} {leaf : L → Prop} {change : L → M} {state : S}

section

variable (hpasses : Passes walk name leaf change state)
include hpasses

/-- The rest of an array is copied item by item. -/
theorem walkRun_items (items : List (JsonTree L))
    (hitems : ∀ item ∈ items, ∀ (path : List Text) (below : List (WalkFrame L M)), ∃ next,
      walkVisit walk item path below state = .ok (next, state) ∧ walkRun walk next state =
          walkRun walk (walkComplete (item.map change).enumerated below) state)
    (done : List (JsonTree M)) (key : Text) (start : ℕ) (path : List Text)
    (below : List (WalkFrame L M)) :
    walkRun walk (.copying ⟨indexed items start, .array done, key, path⟩ below) state =
      walkRun walk (walkComplete
        (.array (done ++ items.map fun item ↦ (item.map change).enumerated)) below) state := by
  induction items generalizing done key start with
  | nil =>
    have hstep : walkStep walk ⟨indexed [] start, .array done, key, path⟩ below state =
        .ok (walkComplete (.array done) below, state) := rfl
    rw [walkRun_step walk hstep]
    simp
  | cons item items ih =>
    obtain ⟨next, hvisit, hrun⟩ := hitems item List.mem_cons_self
      (path ++ [Decimal.digitsOf start])
      (⟨indexed items (start + 1), .array done, Decimal.digitsOf start, path⟩ :: below)
    have hstep : walkStep walk ⟨indexed (item :: items) start, .array done, key, path⟩ below state =
        .ok (next, state) := by
      simp only [walkStep, indexed, hpasses.index, hvisit]
    rw [walkRun_step walk hstep, hrun]
    have := ih (fun other hother ↦ hitems other (List.mem_cons_of_mem _ hother))
      (done ++ [(item.map change).enumerated]) (Decimal.digitsOf start) (start + 1)
    simpa [walkComplete, Container.put] using this

/-- The rest of an object is copied member by member. -/
theorem walkRun_members
    (members : List (Text × JsonTree L)) (hnames : ∀ member ∈ members, name member.1)
    (hmembers : ∀ member ∈ members, ∀ (path : List Text) (below : List (WalkFrame L M)), ∃ next,
      walkVisit walk member.2 path below state = .ok (next, state) ∧ walkRun walk next state =
          walkRun walk (walkComplete (member.2.map change).enumerated below) state)
    (done : List (Text × JsonTree M)) (key : Text) (path : List Text)
    (below : List (WalkFrame L M)) :
    walkRun walk (.copying ⟨members, .object done, key, path⟩ below) state =
      walkRun walk (walkComplete (Container.object (done ++ members.map
        (Prod.map id fun value ↦ (value.map change).enumerated))).tree below) state := by
  induction members generalizing done key with
  | nil =>
    have hstep : walkStep walk ⟨[], .object done, key, path⟩ below state =
        .ok (walkComplete (Container.object done).tree below, state) := rfl
    rw [walkRun_step walk hstep]
    simp
  | cons member members ih =>
    obtain ⟨name', value⟩ := member
    obtain ⟨next, hvisit, hrun⟩ := hmembers _ List.mem_cons_self (path ++ [name'])
      (⟨members, .object done, name', path⟩ :: below)
    have hstep : walkStep walk ⟨(name', value) :: members, .object done, key, path⟩ below state =
        .ok (next, state) := by
      simp only [walkStep, hpasses.name path name' (hnames _ List.mem_cons_self), hvisit]
    rw [walkRun_step walk hstep, hrun]
    have := ih (fun other hother ↦ hnames other (List.mem_cons_of_mem _ hother))
      (fun other hother ↦ hmembers other (List.mem_cons_of_mem _ hother))
      (done ++ [(name', (value.map change).enumerated)]) name'
    simpa [walkComplete, Container.put] using this

theorem walkVisit_passes {tree : JsonTree L}
    (h : WellNamed name leaf tree) (path : List Text) (below : List (WalkFrame L M)) :
    ∃ next, walkVisit walk tree path below state = .ok (next, state) ∧ walkRun walk next state =
        walkRun walk (walkComplete (tree.map change).enumerated below) state := by
  induction h generalizing path below with
  | @leaf value valid =>
    refine ⟨walkComplete (.leaf (change value)) below, ?_, rfl⟩
    simp only [walkVisit, hpasses.leaf path value valid]
    rfl
  | @array items _ ih =>
    refine ⟨_, rfl, ?_⟩
    rw [walkRun_items hpasses items ih]
    simp [map, mapItems_eq_map, enumerated, enumeratedItems_eq_map, Function.comp_def]
  | @object members _ names _ ih =>
    refine ⟨_, rfl, ?_⟩
    rw [walkRun_members hpasses members names ih]
    simp only [map, mapMembers_eq_map, enumerated, enumeratedMembers_eq_map, Container.tree,
      List.nil_append, List.map_map]
    rfl

/-- A walk that passes everywhere maps the leaves of the tree. -/
theorem walkTree_passes {tree : JsonTree L} (h : WellNamed name leaf tree) :
    walkTree walk tree state = .ok ((tree.map change).enumerated, state) := by
  obtain ⟨next, hvisit, hrun⟩ := walkVisit_passes hpasses h [] []
  simp only [walkTree, hvisit, hrun, walkComplete, walkRun]

end

end Walk

end Bdp.JsonTree
