import Bdp.Pagination.SnapshotMoves

/-!
# The stack of the walk

Above the finishing job of an object lie the jobs of what it refers to. So what is finished unfolds,
and an object with a cycle would be met below itself.
-/

namespace Bdp.Pagination

open Function (update_of_ne)

section Unfolding

variable {α : Type} {heap : α → JsObject α}

/-- An object refers to another one by an entry. -/
def Refers (heap : α → JsObject α) (address other : α) : Prop :=
  ∃ key ∈ (heap address).entryKeys, (heap address).valueAt key = .object other

/-- A value with a tree all of whose objects meet a condition. -/
def UnfoldsWithin (heap : α → JsObject α) (meets : α → Prop) (value : Value α) : Prop :=
  ∃ tree occurrences, Unfolds heap (.value value tree) occurrences ∧
    ∀ address ∈ occurrences, meets address

theorem Unfolds.entry {source : JsObject α} {keys : List Text}
    {members : List (Text × JsonTree Primitive)} {occurrences : List α}
    (h : Unfolds heap (.entries source keys members) occurrences) {key : Text} (hkey : key ∈ keys) :
    UnfoldsWithin heap (· ∈ occurrences) (source.valueAt key) := by
  induction keys generalizing members occurrences with
  | nil => cases hkey
  | cons first keys ih =>
    cases h with
    | @cons _ _ _ tree _ left right head tail =>
      rcases List.mem_cons.mp hkey with rfl | hkey
      · exact ⟨tree, left, head, fun address ↦ List.mem_append_left right⟩
      · obtain ⟨tree', inner, hunfolds, hinner⟩ := ih tail hkey
        refine ⟨tree', inner, hunfolds, fun address h ↦ ?_⟩
        exact List.mem_append_right left (hinner address h)

theorem unfolds_entries {source : JsObject α} {meets : α → Prop} {keys : List Text}
    (h : ∀ key ∈ keys, UnfoldsWithin heap meets (source.valueAt key)) :
    ∃ members occurrences, Unfolds heap (.entries source keys members) occurrences ∧
      ∀ address ∈ occurrences, meets address := by
  induction keys with
  | nil => exact ⟨[], [], .nil source, by simp⟩
  | cons key keys ih =>
    obtain ⟨hkey, hkeys⟩ := List.forall_mem_cons.mp h
    obtain ⟨tree, occurrences, hhead, hmeets⟩ := hkey
    obtain ⟨members, others, htail, hmeets'⟩ := ih hkeys
    refine ⟨(key, tree) :: members, occurrences ++ others, .cons hhead htail, ?_⟩
    exact List.forall_mem_append.mpr ⟨hmeets, hmeets'⟩

/-- What a shape refers to comes to an end. -/
def Founded (heap : α → JsObject α) : Shape α → Prop
  | .value input _ => ∀ address, input = .object address → Acc (flip (Refers heap)) address
  | .entries source keys _ =>
    ∀ key ∈ keys, ∀ address, source.valueAt key = .object address → Acc (flip (Refers heap)) address

theorem Unfolds.founded {shape : Shape α} {occurrences : List α}
    (h : Unfolds heap shape occurrences) : Founded heap shape := by
  induction h with
  | primitive value => simp [Founded]
  | @object address members occurrences plain _ ih =>
    intro other hother
    obtain rfl := Value.object.inj hother
    refine Acc.intro _ fun other hrefers ↦ ?_
    obtain ⟨key, hkey, hvalue⟩ := hrefers
    exact ih key hkey other hvalue
  | nil source => simp [Founded]
  | cons _ _ ihHead ihTail => exact List.forall_mem_cons.mpr ⟨ihHead, ihTail⟩

theorem Unfolds.acyclic {address : α} {tree : JsonTree Primitive} {occurrences : List α}
    (h : Unfolds heap (.value (.object address) tree) occurrences) :
    ¬ Relation.TransGen (Refers heap) address address := by
  have hfounded : Acc (flip (Refers heap)) address := h.founded address rfl
  clear h
  induction hfounded with
  | intro address _ ih =>
    intro hcycle
    obtain ⟨next, hrefers, hback⟩ := Relation.TransGen.head'_iff.mp hcycle
    exact ih next hrefers (Relation.TransGen.tail' hback hrefers)

/-- What the other unfoldings of a shape are. -/
def Determined (heap : α → JsObject α) (occurrences : List α) : Shape α → Prop
  | .value input tree => ∀ tree' others, Unfolds heap (.value input tree') others →
    tree' = tree ∧ others = occurrences
  | .entries source keys members => ∀ members' others,
    Unfolds heap (.entries source keys members') others → members' = members ∧ others = occurrences

theorem Unfolds.determined {shape : Shape α} {occurrences : List α}
    (h : Unfolds heap shape occurrences) : Determined heap occurrences shape := by
  induction h with
  | primitive value =>
    intro tree' others hother
    cases hother with
    | primitive _ => exact ⟨rfl, rfl⟩
  | object plain _ ih =>
    intro tree' others hother
    cases hother with
    | object _ hentries =>
      obtain ⟨rfl, rfl⟩ := ih _ _ hentries
      exact ⟨rfl, rfl⟩
  | nil source =>
    intro members' others hother
    cases hother with
    | nil _ => exact ⟨rfl, rfl⟩
  | cons _ _ ihHead ihTail =>
    intro members' others hother
    cases hother with
    | cons hhead htail =>
      obtain ⟨rfl, rfl⟩ := ihHead _ _ hhead
      obtain ⟨rfl, rfl⟩ := ihTail _ _ htail
      exact ⟨rfl, rfl⟩

end Unfolding

variable {α : Type} {heap : α → JsObject α}

def Settled (states : α → Option SnapshotState) : Value α → Prop
  | .primitive _ => True
  | .object address => states address = some .done
  | _ => False

/-- A value is settled, or a job for it is on the stack. -/
def Covered (states : α → Option SnapshotState) (jobs : List (SnapshotJob α)) (value : Value α) :
    Prop :=
  (∃ slot, .value value slot ∈ jobs) ∨
    (∃ address, value = .object address ∧ .finish address ∈ jobs) ∨ Settled states value

/-- The stack and the marks of a walk for an input. -/
structure Framed (heap : α → JsObject α) (input : Value α) (states : α → Option SnapshotState)
    (jobs : List (SnapshotJob α)) : Prop where
  root : Covered states jobs input
  frame : ∀ above address below, jobs = above ++ .finish address :: below →
    states address ≠ none ∧ (heap address).Plain ∧
      ∀ key ∈ (heap address).entryKeys, Covered states above ((heap address).valueAt key)
  visiting : ∀ address, states address = some .visiting → .finish address ∈ jobs
  done : ∀ address, states address = some .done →
    UnfoldsWithin heap (fun other ↦ states other = some .done) (.object address)

section Framed

variable {input : Value α} {states states' : α → Option SnapshotState}
  {jobs jobs' above : List (SnapshotJob α)}

theorem Settled.mono {value : Value α} (h : Settled states value)
    (hdone : ∀ address, states address = some .done → states' address = some .done) :
    Settled states' value := by
  cases value with
  | primitive value => trivial
  | object address => exact hdone address h
  | nonFinite => exact h
  | nonJson => exact h

theorem UnfoldsWithin.mono {value : Value α} {meets meets' : α → Prop}
    (h : UnfoldsWithin heap meets value) (hmeets : ∀ address, meets address → meets' address) :
    UnfoldsWithin heap meets' value := by
  obtain ⟨tree, occurrences, hunfolds, hall⟩ := h
  exact ⟨tree, occurrences, hunfolds, fun address h ↦ hmeets address (hall address h)⟩

def SnapshotJob.target : SnapshotJob α → Value α
  | .value input _ => input
  | .finish input => .object input

theorem Covered.pop {job : SnapshotJob α} {value : Value α}
    (h : Covered states (job :: jobs) value) (hjob : Covered states' jobs' job.target)
    (hjobs : ∀ other ∈ jobs, other ∈ jobs')
    (hdone : ∀ address, states address = some .done → states' address = some .done) :
    Covered states' jobs' value := by
  rcases h with ⟨slot, hmem⟩ | ⟨address, rfl, hmem⟩ | hsettled
  · rcases List.mem_cons.mp hmem with rfl | hmem
    · exact hjob
    · exact .inl ⟨slot, hjobs _ hmem⟩
  · rcases List.mem_cons.mp hmem with rfl | hmem
    · exact hjob
    · exact .inr (.inl ⟨address, rfl, hjobs _ hmem⟩)
  · exact .inr (.inr (hsettled.mono hdone))

theorem cut_entryJobs {source : JsObject α} {address other : α} {keys : List Text}
    {above below rest : List (SnapshotJob α)}
    (h : source.entryJobs address keys ++ .finish address :: rest =
      above ++ .finish other :: below) :
    (above = source.entryJobs address keys ∧ address = other) ∨
      ∃ upper, above = source.entryJobs address keys ++ .finish address :: upper ∧
        rest = upper ++ .finish other :: below := by
  induction keys generalizing above with
  | nil =>
    cases above with
    | nil => exact .inl ⟨rfl, SnapshotJob.finish.inj (List.cons.inj h).1⟩
    | cons job above =>
      obtain ⟨rfl, hrest⟩ := List.cons.inj h
      exact .inr ⟨above, rfl, hrest⟩
  | cons key keys ih =>
    cases above with
    | nil => cases (List.cons.inj h).1
    | cons job above =>
      obtain ⟨rfl, hrest⟩ := List.cons.inj h
      rcases ih hrest with ⟨rfl, hsame⟩ | ⟨upper, rfl, hlower⟩
      · exact .inl ⟨rfl, hsame⟩
      · exact .inr ⟨upper, rfl, hlower⟩

theorem marked_update [DecidableEq α] (address : α) (state : SnapshotState) {other : α}
    (h : states other ≠ none) : Function.update states address (some state) other ≠ none := by
  by_cases hsame : other = address
  · simp [hsame]
  · rwa [update_of_ne hsame]

theorem done_update [DecidableEq α] {address : α} {state : SnapshotState}
    (h : states address = none ∨ state = .done) (other : α) (hother : states other = some .done) :
    Function.update states address (some state) other = some .done := by
  by_cases hsame : other = address
  · rcases h with hfresh | rfl
    · simp [← hsame, hother] at hfresh
    · rw [hsame, Function.update_self]
  · rwa [update_of_ne hsame]

theorem Framed.settle {value : Value α} {slot : Slot α}
    (h : Framed heap input states (.value value slot :: jobs)) (hsettled : Settled states value) :
    Framed heap input states jobs where
  root := h.root.pop (.inr (.inr hsettled)) (fun _ ↦ id) fun _ ↦ id
  frame above address below hjobs := by
    obtain ⟨hmarked, hplain, hentries⟩ := h.frame (.value value slot :: above) address below
      (by rw [hjobs, List.cons_append])
    exact ⟨hmarked, hplain, fun key hkey ↦
      (hentries key hkey).pop (.inr (.inr hsettled)) (fun _ ↦ id) fun _ ↦ id⟩
  visiting address hvisiting := by
    have := h.visiting address hvisiting
    simpa using this
  done := h.done

theorem Framed.enter [DecidableEq α] {address : α} {slot : Slot α}
    (h : Framed heap input states (.value (.object address) slot :: jobs))
    (hfresh : states address = none) (hplain : (heap address).Plain) :
    Framed heap input (Function.update states address (some .visiting))
      ((heap address).entryJobs address (heap address).entryKeys ++ .finish address :: jobs) := by
  have hdone := @done_update α states _ address .visiting (.inl hfresh)
  have hfinish (upper : List (SnapshotJob α)) : SnapshotJob.finish address ∈
        (heap address).entryJobs address (heap address).entryKeys ++ .finish address :: upper :=
    List.mem_append_right _ List.mem_cons_self
  have hmem (upper : List (SnapshotJob α)) : ∀ other ∈ upper, other ∈
      (heap address).entryJobs address (heap address).entryKeys ++ .finish address :: upper :=
    fun other hother ↦ List.mem_append_right _ (List.mem_cons_of_mem _ hother)
  refine ⟨?_, ?_, ?_, ?_⟩
  · exact h.root.pop (.inr (.inl ⟨address, rfl, hfinish jobs⟩)) (hmem jobs) hdone
  · intro above other below hjobs
    rcases cut_entryJobs hjobs with ⟨rfl, rfl⟩ | ⟨upper, rfl, rfl⟩
    · refine ⟨by simp, hplain, fun key hkey ↦ .inl ⟨.entry address key, ?_⟩⟩
      exact List.mem_map.mpr ⟨key, hkey, rfl⟩
    · obtain ⟨hmarked', hplain', hentries⟩ :=
        h.frame (.value (.object address) slot :: upper) other below rfl
      exact ⟨marked_update address .visiting hmarked', hplain', fun key hkey ↦
        (hentries key hkey).pop (.inr (.inl ⟨address, rfl, hfinish upper⟩)) (hmem upper) hdone⟩
  · intro other hother
    by_cases hsame : other = address
    · subst hsame
      exact hfinish jobs
    · rw [update_of_ne hsame] at hother
      have := h.visiting other hother
      exact hmem jobs _ (by simpa using this)
  · intro other hother
    have hne : other ≠ address := by
      rintro rfl
      simp at hother
    rw [update_of_ne hne] at hother
    exact (h.done other hother).mono hdone

theorem Framed.finish [DecidableEq α] {address : α}
    (h : Framed heap input states (.finish address :: jobs)) :
    Framed heap input (Function.update states address (some .done)) jobs := by
  have hdone := @done_update α states _ address .done (.inr rfl)
  have hself : Settled (Function.update states address (some .done)) (.object address) := by
    simp only [Settled, Function.update_self]
  obtain ⟨-, hplain, hentries⟩ := h.frame [] address jobs rfl
  refine ⟨?_, ?_, ?_, ?_⟩
  · exact h.root.pop (.inr (.inr hself)) (fun _ ↦ id) hdone
  · intro above other below hjobs
    obtain ⟨hmarked, hplain', hentries'⟩ := h.frame (.finish address :: above) other below
      (by rw [hjobs, List.cons_append])
    exact ⟨marked_update address .done hmarked, hplain', fun key hkey ↦
      (hentries' key hkey).pop (.inr (.inr hself)) (fun _ ↦ id) hdone⟩
  · intro other hother
    have hne : other ≠ address := by
      rintro rfl
      simp at hother
    rw [update_of_ne hne] at hother
    have := h.visiting other hother
    simpa [hne] using this
  · intro other hother
    by_cases hsame : other = address
    · subst hsame
      have hvalues : ∀ key ∈ (heap other).entryKeys,
          UnfoldsWithin heap (fun inner ↦ states inner = some .done)
            ((heap other).valueAt key) := by
        intro key hkey
        have hcovered := hentries key hkey
        cases hvalue : (heap other).valueAt key with
        | primitive value => exact ⟨_, _, .primitive value, by simp⟩
        | object inner =>
          refine h.done inner ?_
          simpa [hvalue, Covered, Settled] using hcovered
        | nonFinite => simp [hvalue, Covered, Settled] at hcovered
        | nonJson => simp [hvalue, Covered, Settled] at hcovered
      obtain ⟨members, occurrences, hunfolds, hall⟩ := unfolds_entries hvalues
      refine ⟨_, _, .object hplain hunfolds, ?_⟩
      refine List.forall_mem_cons.mpr ⟨Function.update_self _ _ _, fun inner hinner ↦ ?_⟩
      exact hdone inner (hall inner hinner)
    · rw [update_of_ne hsame] at hother
      exact (h.done other hother).mono hdone

theorem Framed.unfolds (h : Framed heap input states []) :
    UnfoldsWithin heap (fun address ↦ states address = some .done) input := by
  have hcovered := h.root
  cases input with
  | primitive value => exact ⟨_, _, .primitive value, by simp⟩
  | object address => exact h.done address (by simpa [Covered, Settled] using hcovered)
  | nonFinite => simp [Covered, Settled] at hcovered
  | nonJson => simp [Covered, Settled] at hcovered

end Framed

/-- The stack of a walk over an input that unfolds: its jobs are parts of the input, and what lies
above an object is referred to by it. -/
structure Reached (heap : α → JsObject α) (occurrences : List α)
    (states : α → Option SnapshotState) (jobs : List (SnapshotJob α)) : Prop where
  visited : ∀ address, states address ≠ none → address ∈ occurrences
  unfolds : ∀ value slot, .value value slot ∈ jobs → UnfoldsWithin heap (· ∈ occurrences) value
  order : ∀ above address below, jobs = above ++ .finish address :: below →
    ∀ job ∈ above, ∀ other, job.target = .object other →
      Relation.TransGen (Refers heap) address other

section Reached

variable {occurrences : List α} {states : α → Option SnapshotState} {jobs : List (SnapshotJob α)}

theorem Reached.pop {job : SnapshotJob α} {states' : α → Option SnapshotState}
    (h : Reached heap occurrences states (job :: jobs))
    (hstates : ∀ address, states' address ≠ none → address ∈ occurrences) :
    Reached heap occurrences states' jobs where
  visited := hstates
  unfolds value slot hmem := h.unfolds value slot (List.mem_cons_of_mem _ hmem)
  order above address below hjobs inner hinner :=
    h.order (job :: above) address below (by rw [hjobs, List.cons_append]) inner
      (List.mem_cons_of_mem _ hinner)

theorem Reached.enter [DecidableEq α] {address : α} {slot : Slot α}
    (h : Reached heap occurrences states (.value (.object address) slot :: jobs)) :
    Reached heap occurrences (Function.update states address (some .visiting))
      ((heap address).entryJobs address (heap address).entryKeys ++ .finish address :: jobs) := by
  obtain ⟨tree, inner, hunfolds, hinner⟩ := h.unfolds (.object address) slot List.mem_cons_self
  cases hunfolds with
  | @object _ members inner hplain hentries =>
    obtain ⟨hself, hinner⟩ := List.forall_mem_cons.mp hinner
    refine ⟨?_, ?_, ?_⟩
    · intro other hother
      by_cases hsame : other = address
      · exact hsame ▸ hself
      · rw [update_of_ne hsame] at hother
        exact h.visited other hother
    · intro value place hmem
      rcases List.mem_append.mp hmem with hmem | hmem
      · obtain ⟨key, hkey, hjob⟩ := List.mem_map.mp hmem
        obtain ⟨rfl, -⟩ := SnapshotJob.value.inj hjob
        exact (hentries.entry hkey).mono hinner
      · exact h.unfolds value place (by simpa using Or.inr hmem)
    · intro above other below hjobs job hjob target htarget
      have hentry : ∀ job ∈ (heap address).entryJobs address (heap address).entryKeys,
          job.target = .object target → Refers heap address target := by
        intro job hmem hvalue
        obtain ⟨key, hkey, rfl⟩ := List.mem_map.mp hmem
        exact ⟨key, hkey, hvalue⟩
      rcases cut_entryJobs hjobs with ⟨rfl, rfl⟩ | ⟨upper, rfl, rfl⟩
      · exact .single (hentry job hjob htarget)
      · have hbelow := h.order (.value (.object address) slot :: upper) other below rfl
        have haddress : Relation.TransGen (Refers heap) other address :=
          hbelow _ List.mem_cons_self address rfl
        rcases List.mem_append.mp hjob with hjob | hjob
        · exact haddress.tail (hentry job hjob htarget)
        · rcases List.mem_cons.mp hjob with rfl | hjob
          · obtain rfl := Value.object.inj htarget
            exact haddress
          · exact hbelow job (List.mem_cons_of_mem _ hjob) target htarget

theorem Reached.not_visiting {input : Value α} {address : α} {slot : Slot α}
    (h : Reached heap occurrences states (.value (.object address) slot :: jobs))
    (hframed : Framed heap input states (.value (.object address) slot :: jobs)) :
    states address ≠ some .visiting := by
  intro hvisiting
  obtain ⟨tree, inner, hunfolds, -⟩ := h.unfolds (.object address) slot List.mem_cons_self
  have hmem : SnapshotJob.finish address ∈ jobs := by
    simpa using hframed.visiting address hvisiting
  obtain ⟨above, below, rfl⟩ := List.append_of_mem hmem
  exact hunfolds.acyclic
    (h.order (.value (.object address) slot :: above) address below rfl _ List.mem_cons_self
      address rfl)

end Reached

end Bdp.Pagination
