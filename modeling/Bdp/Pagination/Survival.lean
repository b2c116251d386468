import Bdp.Pagination.Traversal

/-!
# What a snapshot outlives

A snapshot stays, with its cursors, through every call that is made before its expiry and in its
epoch, unless the snapshot is withdrawn or the authority closed. Its cursors are then found, and are
served to whoever names its view and its projection.
-/

namespace Bdp.Pagination

open Transaction (isTokenChar)
open Relation
open Bdp.Except (bind_eq_ok ok_bind)

variable {α : Type} {ports : Ports α} {engine after later : Engine α}
  {snapshot other : Snapshot α} {offset : ℕ} {token : List Char}

section Survival

/-- A snapshot is held, with at least its cursors. -/
def Keeps (snapshot : Snapshot α) (engine : Engine α) : Prop :=
  ∃ held ∈ engine.snapshots, snapshot.SameAs held ∧
    ∀ cursor ∈ snapshot.cursors, cursor ∈ held.cursors

/-- A call that leaves a snapshot alone: the snapshot has not expired when it is made, it is made in
the epoch of the snapshot, and it neither withdraws the snapshot nor closes the authority. -/
def Call.Spares (engine : Engine α) (snapshot : Snapshot α) : Call α → Prop
  | .firstPage clock input => (∀ value ∈ clock, engine.now value < snapshot.expiresAt) ∧
      input.scopeEpoch = snapshot.scopeEpoch
  | .continuePage clock input => (∀ value ∈ clock, engine.now value < snapshot.expiresAt) ∧
      input.scopeEpoch = snapshot.scopeEpoch
  | .cleanupExpired clock => ∀ value ∈ clock, engine.now value < snapshot.expiresAt
  | .releaseUnissuedPage serial => serial ≠ snapshot.serial
  | .close => False

theorem Keeps.cleanupAt {now : ℕ} (keeps : Keeps snapshot engine)
    (early : now < snapshot.expiresAt) :
    Keeps snapshot (engine.cleanupAt now) := by
  obtain ⟨held, inside, same, cursors⟩ := keeps
  refine ⟨held, ?_, same, cursors⟩
  have expires : held.expiresAt = snapshot.expiresAt := by rw [same]
  have live : decide (held.expiresAt ≤ now) = false := by
    rw [decide_eq_false_iff_not]
    omega
  have split := List.takeWhile_append_dropWhile (p := fun snapshot : Snapshot α ↦
    decide (snapshot.expiresAt ≤ now)) (l := engine.snapshots)
  rw [← split] at inside
  cases List.mem_append.mp inside with
  | inl gone =>
    have := List.mem_takeWhile_imp gone
    rw [live] at this
    cases this
  | inr stays => exact stays

theorem Keeps.release (keeps : Keeps snapshot engine) {serial : ℕ}
    (other : serial ≠ snapshot.serial) :
    Keeps snapshot (engine.release serial) := by
  obtain ⟨held, inside, same, cursors⟩ := keeps
  refine ⟨held, List.mem_filter.mpr ⟨inside, ?_⟩, same, cursors⟩
  have serials : held.serial = snapshot.serial := by rw [same]
  rw [bne_iff_ne, serials]
  exact other.symm

variable {turn : ℕ}

theorem Keeps.enterEpoch (keeps : Keeps snapshot engine)
    (sound : engine.Sound ports turn) {scopeEpoch : String} (epoch : scopeEpoch = snapshot.scopeEpoch) :
    Keeps snapshot (engine.enterEpoch scopeEpoch) := by
  obtain ⟨held, inside, same, cursors⟩ := keeps
  refine ⟨held, ?_, same, cursors⟩
  have active := sound.epochs held inside
  have epochs : held.scopeEpoch = snapshot.scopeEpoch := by rw [same]
  have stays : ∀ active ∈ engine.activeScopeEpoch, active = scopeEpoch := by
    intro current is
    rw [active] at is
    rw [← Option.some.inj is, epochs, epoch]
  rw [Engine.enterEpoch, if_pos stays]
  exact inside

variable {grown : Snapshot α}

theorem Keeps.update (keeps : Keeps snapshot engine) (sound : engine.Sound ports turn)
    {old : Snapshot α} (inside : old ∈ engine.snapshots) (same : old.SameAs grown)
    (cursors : ∀ cursor ∈ old.cursors, cursor ∈ grown.cursors) :
    Keeps snapshot (engine.update grown) := by
  obtain ⟨held, held_in, held_same, held_cursors⟩ := keeps
  have serial : grown.serial = old.serial := by rw [same]
  by_cases itself : held.serial = grown.serial
  · obtain rfl := sound.same held_in inside (itself.trans serial)
    refine ⟨grown, List.mem_map.mpr ⟨held, held_in, if_pos itself⟩, held_same.trans same, ?_⟩
    exact fun cursor issued ↦ cursors cursor (held_cursors cursor issued)
  · exact ⟨held, List.mem_map.mpr ⟨held, held_in, if_neg itself⟩, held_same, held_cursors⟩

variable {limit : ℕ}

theorem pageAt_cursors {page : ReadPage α}
    (h : pageAt ports engine snapshot offset limit = .ok (page, grown)) :
    snapshot.SameAs grown ∧ ∀ cursor ∈ snapshot.cursors, cursor ∈ grown.cursors := by
  unfold pageAt at h
  dsimp only at h
  split at h
  next =>
    rw [bind_eq_ok] at h
    obtain ⟨⟨cursor, kept⟩, issued, h⟩ := h
    cases h
    unfold cursorFor at issued
    split at issued
    next =>
      cases issued
      exact ⟨rfl, fun _ held ↦ held⟩
    next =>
      split at issued
      next =>
        cases issued
        exact ⟨rfl, fun _ held ↦ held⟩
      next =>
        rw [bind_eq_ok] at issued
        obtain ⟨drawn, _, issued⟩ := issued
        cases issued
        exact ⟨rfl, fun _ held ↦ List.mem_append_left _ held⟩
  next =>
    cases h
    exact ⟨rfl, fun _ held ↦ held⟩

variable {input : ReadFirstPageInput α} {url : String}

theorem Keeps.openSnapshot {now : ℕ}
    (keeps : Keeps snapshot engine) (sound : engine.Sound ports (turn + 1))
    (positive : 0 < limit) (epoch : engine.activeScopeEpoch = some input.scopeEpoch) :
    Keeps snapshot (openSnapshot ports engine now limit url input).2 := by
  unfold Pagination.openSnapshot
  split
  next => exact keeps
  next => exact keeps
  next new admitted =>
    obtain ⟨serial, empty, _, limits, _, _, epochs, _, _, keyed⟩ := admitSnapshot_eq_ok admitted
    have registered : Small ports turn engine { engine with
        snapshots := engine.snapshots ++ [new], admitted := engine.admitted + 1 } :=
      .add new serial empty (epochs ▸ epoch) (limits ▸ positive) keyed
    obtain ⟨held, inside, same, cursors⟩ := keeps
    have kept : Keeps snapshot { engine with
        snapshots := engine.snapshots ++ [new], admitted := engine.admitted + 1 } :=
      ⟨held, List.mem_append_left _ inside, same, cursors⟩
    have serials : held.serial = snapshot.serial := by rw [same]
    have counted := sound.counted held inside
    dsimp only
    split
    next => exact kept.release (by omega)
    next page grown cut =>
      obtain ⟨frozen, grows⟩ := pageAt_cursors cut
      exact kept.update (sound.small registered)
        (List.mem_append_right _ (List.mem_singleton_self _)) frozen grows

theorem checkFirst_positive (h : checkFirst ports input = .ok (limit, url)) : 0 < limit := by
  unfold checkFirst at h
  rw [bind_eq_ok] at h
  obtain ⟨selected, valid, h⟩ := h
  rw [bind_eq_ok] at h
  obtain ⟨_, _, h⟩ := h
  rw [bind_eq_ok] at h
  obtain ⟨_, _, h⟩ := h
  rw [bind_eq_ok] at h
  obtain ⟨_, _, h⟩ := h
  rw [bind_eq_ok] at h
  obtain ⟨_, _, h⟩ := h
  cases h
  unfold validateLimit at valid
  dsimp only at valid
  rw [check_bind_eq_ok] at valid
  cases valid.2
  exact valid.1.1

theorem Keeps.call (ready : engine.Ready ports) (keeps : Keeps snapshot engine) {call : Call α}
    (spares : call.Spares engine snapshot) : Keeps snapshot (engine.call ports call).2 := by
  have lift {after : Engine α} {turn : ℕ} (h : Keeps snapshot after) :
      Keeps snapshot { after with turn := turn } := h
  have observed (now : ℕ) : Keeps snapshot (engine.observe now) := keeps
  cases call with
  | firstPage clock input =>
    refine lift ?_
    change Keeps snapshot (firstPage ports engine clock input).2
    unfold firstPage entered
    split
    next => exact keeps
    next =>
      split
      next => exact keeps
      next value =>
        have early := spares.1 value rfl
        have cleaned := (observed (engine.now value)).cleanupAt early
        dsimp only
        split
        next => exact cleaned
        next limit url checked =>
          have steps : ReflTransGen (Small ports engine.turn) engine
              ((engine.observe (engine.now value)).cleanupAt (engine.now value)) :=
            (small_observe _).trans (small_cleanupAt _)
          have sound := ready.mono.steps steps
          have entering := cleaned.enterEpoch sound spares.2
          have sound' := sound.steps
            (@small_enterEpoch _ ports _ engine.turn _ sound input.scopeEpoch)
          exact entering.openSnapshot sound' (checkFirst_positive checked) rfl
  | continuePage clock input =>
    refine lift ?_
    change Keeps snapshot (continuePage ports engine clock input).2
    unfold continuePage entered
    split
    next => exact keeps
    next =>
      split
      next => exact keeps
      next value =>
        have early := spares.1 value rfl
        obtain ⟨held, inside, same, _⟩ := keeps
        have serials : held.serial = snapshot.serial := by rw [same]
        have expires : held.expiresAt = snapshot.expiresAt := by rw [same]
        have epochs : held.scopeEpoch = snapshot.scopeEpoch := by rw [same]
        dsimp only
        split
        next direct found =>
          refine (observed _).release ?_
          intro equal
          obtain ⟨looked, late⟩ := Option.filter_eq_some_iff.mp found
          obtain ⟨direct_in, _⟩ := lookup_named looked
          have itself := ready.same direct_in inside (equal.trans serials.symm)
          rw [itself, decide_eq_true_eq, expires] at late
          exact absurd early (Nat.not_lt.mpr late)
        next =>
          have cleaned := (observed (engine.now value)).cleanupAt early
          have steps : ReflTransGen (Small ports engine.turn) engine
              ((engine.observe (engine.now value)).cleanupAt (engine.now value)) :=
            (small_observe _).trans (small_cleanupAt _)
          have sound := ready.mono.steps steps
          split
          next => exact cleaned
          next other place bound =>
            obtain ⟨other_in, _⟩ := lookup_named bound
            split
            next => exact cleaned
            next scopeEpoch named =>
              split
              next foreign =>
                refine cleaned.release ?_
                intro equal
                have before : other ∈ engine.snapshots := (List.dropWhile_sublist _).subset other_in
                have itself := ready.same before inside (equal.trans serials.symm)
                unfold identityOf at named
                rw [check_bind_eq_ok] at named
                cases named.2
                rw [itself, epochs, spares.2] at foreign
                exact foreign rfl
              next =>
                split
                next => exact cleaned
                next page grown served =>
                  have cut := (serve_eq_ok served (sound.positive other other_in)).2.2.2
                  obtain ⟨frozen, grows⟩ := pageAt_cursors cut
                  exact cleaned.update sound other_in frozen grows
  | cleanupExpired clock =>
    refine lift ?_
    change Keeps snapshot (engine.cleanupExpired clock)
    unfold Engine.cleanupExpired
    split
    next => exact keeps
    next value =>
      dsimp only
      split
      next => exact keeps
      next => exact (observed (engine.now value)).cleanupAt (spares value rfl)
  | releaseUnissuedPage serial =>
    refine lift ?_
    change Keeps snapshot (if ports.options.resizable then engine.release serial else engine)
    split
    · exact keeps.release spares
    · exact keeps
  | close => exact absurd spares id

/-- Calls that all spare a snapshot. -/
inductive SparingRun (ports : Ports α) (snapshot : Snapshot α) (start : Engine α) :
    Engine α → Prop where
  | refl : SparingRun ports snapshot start start
  | called {engine : Engine α} (call : Call α) (run : SparingRun ports snapshot start engine)
    (spares : call.Spares engine snapshot) :
    SparingRun ports snapshot start (engine.call ports call).2

theorem SparingRun.run (sparing : SparingRun ports snapshot engine later) :
    Run ports engine later := by
  induction sparing with
  | refl => exact .refl
  | called call _ _ ih => exact .called call ih

theorem SparingRun.keeps (ready : engine.Ready ports) (inside : snapshot ∈ engine.snapshots)
    (sparing : SparingRun ports snapshot engine later) : Keeps snapshot later := by
  induction sparing with
  | refl => exact ⟨snapshot, inside, rfl, fun _ held ↦ held⟩
  | called call before spares ih => exact ih.call (ready.run before.run) spares

end Survival

section Served

theorem length_offsetText (bound : offset < 36 ^ 7) (positive : 0 < offset) :
    1 ≤ (offsetText offset).length ∧ (offsetText offset).length ≤ 7 := by
  rw [offsetText, List.length_reverse, List.length_map]
  constructor
  · exact List.length_pos_iff.mpr (Nat.digits_ne_nil_iff_ne_zero.mpr (Nat.ne_of_gt positive))
  · exact (Nat.digits_length_le_iff (by decide) offset).mpr bound

theorem isOffsetChar_digitChar {digit : ℕ} (h : digit < 36) :
    isOffsetChar (digitChar digit) = true := by
  revert digit
  decide

theorem splitResized_resizedCursor {candidate : List Char} {sequence : ℕ} (bound : offset < 36 ^ 7)
    (positive : 0 < offset) : splitResized (resizedCursor ports candidate sequence offset) =
      some (ports.identity sequence, offsetText offset,
        ports.tag candidate (ports.identity sequence) offset) := by
  have identity := ports.length_identity sequence
  have tag := ports.length_tag candidate (ports.identity sequence) offset
  obtain ⟨some_digit, few⟩ := length_offsetText bound positive
  have digits : ∀ letter ∈ offsetText offset, isOffsetChar letter = true := by
    intro letter held
    rw [offsetText, List.mem_reverse] at held
    obtain ⟨digit, digit_in, same⟩ := List.mem_map.mp held
    rw [← same]
    exact isOffsetChar_digitChar (Nat.digits_lt_base (by decide) digit_in)
  have letters : ∀ letter ∈ ports.identity sequence ++
      ports.tag candidate (ports.identity sequence) offset, isTokenChar letter = true := by
    intro letter held
    cases List.mem_append.mp held with
    | inl left => exact ports.plain_identity _ letter left
    | inr right => exact ports.plain_tag _ _ _ letter right
  unfold resizedCursor splitResized
  generalize ports.identity sequence = front at identity tag letters ⊢
  generalize ports.tag candidate front offset = back at tag letters ⊢
  generalize offsetText offset = middle at some_digit few digits ⊢
  have total : (front ++ ('_' :: (middle ++ ('_' :: back)))).length = middle.length + 32 := by
    simp only [List.length_append, List.length_cons, identity, tag]
    omega
  have first : (front ++ ('_' :: (middle ++ ('_' :: back)))).take 8 = front :=
    List.take_left' identity
  have rest : (front ++ ('_' :: (middle ++ ('_' :: back)))).drop 9 = middle ++ ('_' :: back) := by
    have split : front ++ ('_' :: (middle ++ ('_' :: back))) =
        (front ++ ['_']) ++ (middle ++ ('_' :: back)) := by
      rw [List.append_assoc]
      rfl
    rw [split]
    exact List.drop_left' (by rw [List.length_append, identity]; rfl)
  have centre : (middle ++ ('_' :: back)).take (middle.length + 32 - 32) = middle :=
    List.take_left' (by omega)
  have last :
      (front ++ ('_' :: (middle ++ ('_' :: back)))).drop (middle.length + 32 - 22) = back := by
    have split : front ++ ('_' :: (middle ++ ('_' :: back))) =
        (front ++ ('_' :: (middle ++ ['_']))) ++ back := by
      simp only [List.append_assoc, List.cons_append, List.nil_append]
    rw [split]
    exact List.drop_left' (by
      simp only [List.length_append, List.length_cons, List.length_nil, identity]
      omega)
  dsimp only
  rw [total, first, rest, centre, last,
    if_pos ⟨rfl, identity, tag, some_digit, few, letters, digits⟩]

theorem exists_offsetOf (issued : Issued ports snapshot offset token)
    (bounded : snapshot.items.length ≤ 36 ^ 7) :
    ∃ place, snapshot.offsetOf ports token = some place := by
  unfold Issued at issued
  unfold Snapshot.offsetOf
  split at issued
  next resizable =>
    rw [if_pos resizable]
    obtain ⟨⟨candidate, key, named⟩, positive, inside⟩ := issued
    refine ⟨offset, ?_⟩
    unfold Snapshot.resizedOffset
    rw [key, named, splitResized_resizedCursor (by omega) positive]
    dsimp only
    rw [readOffset_offsetText, if_pos ⟨rfl, positive, inside, rfl, rfl⟩]
  next fixed =>
    rw [if_neg fixed]
    cases found : snapshot.cursors.find? fun cursor ↦ cursor.2 == token with
    | some cursor => exact ⟨cursor.1, rfl⟩
    | none =>
      have := List.find?_eq_none.mp found _ issued
      exact absurd (beq_self_eq_true token) this

variable {error : ReadPaginationError}

theorem generateToken_error {left attempt : ℕ}
    (h : generateToken ports engine left attempt = .error error) :
    error.code = .tokenGenerationFailed := by
  induction left generalizing attempt with
  | zero =>
    cases h
    rfl
  | succ left ih =>
    unfold generateToken at h
    split at h
    next =>
      cases h
      rfl
    next =>
      split at h
      next => cases h
      next => exact ih h

theorem pageAt_error {limit : ℕ} (keyed : snapshot.Keyed ports)
    (h : pageAt ports engine snapshot offset limit = .error error) :
    ports.options.resizable = false ∧ error.code = .tokenGenerationFailed := by
  unfold pageAt at h
  dsimp only at h
  split at h
  next =>
    unfold cursorFor at h
    split at h
    next => cases h
    next key =>
      have fixed : ports.options.resizable = false := by rw [← keyed.key, key]; rfl
      refine ⟨fixed, ?_⟩
      split at h
      next => cases h
      next =>
        cases drawn : generateToken ports engine ports.options.tokenGenerationAttempts 0 with
        | ok token =>
          rw [drawn] at h
          cases h
        | error failed =>
          rw [drawn] at h
          cases h
          exact generateToken_error drawn
  next => cases h

/-- Whoever continues a snapshot names what its first page named, and may name a limit where pages
may be resized. -/
structure Continues (ports : Ports α) (snapshot : Snapshot α) (token : List Char)
    (input : ReadContinuationInput) : Prop where
  token : input.token = token
  view : input.authorizationView = snapshot.authorizationView
  epoch : input.scopeEpoch = snapshot.scopeEpoch
  projection : input.projection = snapshot.projection
  named : ∀ name ∈ [input.authorizationView, input.scopeEpoch, input.projection],
    identityOf name = .ok name
  limit : ∀ limit ∈ input.limit, ports.options.resizable = true ∧
    validateLimit ports (some limit) = .ok limit

theorem served_of_sparing (ready : engine.Ready ports) (inside : snapshot ∈ engine.snapshots)
    (issued : Issued ports snapshot offset token) (bounded : snapshot.items.length ≤ 36 ^ 7)
    (sparing : SparingRun ports snapshot engine later) (opened : later.closed = false) {value : ℕ}
    (early : later.now value < snapshot.expiresAt) {input : ReadContinuationInput}
    (continues : Continues ports snapshot token input) :
    (∃ page, (later.call ports (.continuePage (some value) input)).1 = some (.ok page)) ∨
      ports.options.resizable = false ∧ ∃ error,
        (later.call ports (.continuePage (some value) input)).1 = some (.error error) ∧
          error.code = .tokenGenerationFailed := by
  have ready' := ready.run sparing.run
  have keeps := sparing.keeps ready inside
  have cleaned := @Keeps.cleanupAt _ (later.observe (later.now value)) snapshot _ keeps early
  have steps : ReflTransGen (Small ports later.turn) later
      ((later.observe (later.now value)).cleanupAt (later.now value)) :=
    (small_observe _).trans (small_cleanupAt _)
  have sound := ready'.mono.steps steps
  have issued_in {held : Snapshot α} (same : snapshot.SameAs held)
      (cursors : ∀ cursor ∈ snapshot.cursors, cursor ∈ held.cursors) :
      Issued ports held offset token := by
    unfold Issued at issued ⊢
    split at issued
    next resizable =>
      rw [if_pos resizable, same]
      exact issued
    next fixed =>
      rw [if_neg fixed]
      exact cursors _ issued
  obtain ⟨held, held_in, same, cursors⟩ := cleaned
  have issued' := issued_in same cursors
  have bounded' : held.items.length ≤ 36 ^ 7 := by
    rw [same]
    exact bounded
  obtain ⟨_, named⟩ := exists_offsetOf issued' bounded'
  obtain ⟨found, place, looked⟩ := exists_lookup held_in named
  obtain ⟨found_in, found_issued⟩ := lookup_issued looked
  obtain ⟨rfl, rfl⟩ := sound.issued_unique held_in found_in issued' found_issued
  have expires : held.expiresAt = snapshot.expiresAt := by rw [same]
  have epoch : held.scopeEpoch = snapshot.scopeEpoch := by rw [same]
  have view : held.authorizationView = snapshot.authorizationView := by rw [same]
  have projection : held.projection = snapshot.projection := by rw [same]
  have name_epoch := continues.named input.scopeEpoch (by simp)
  have name_view := continues.named input.authorizationView (by simp)
  have name_projection := continues.named input.projection (by simp)
  -- What is bound before the cleanup is this snapshot, which has not expired.
  have live : ((later.observe (later.now value)).lookup ports input.token).filter
      (fun direct ↦ decide (direct.1.expiresAt ≤ later.now value)) = none := by
    cases direct : (later.observe (later.now value)).lookup ports input.token with
    | none => rfl
    | some bound =>
      obtain ⟨direct_in, direct_issued⟩ := lookup_issued direct
      have before : held ∈ later.snapshots := (List.dropWhile_sublist _).subset held_in
      obtain ⟨itself, _⟩ :=
        ready'.issued_unique before direct_in issued' (continues.token ▸ direct_issued)
      have fresh : ¬ decide (bound.1.expiresAt ≤ later.now value) = true := by
        rw [decide_eq_true_eq, ← itself, expires]
        omega
      rw [Option.filter_some, if_neg fresh]
  have limits : continuationLimit ports held input.limit = .ok (input.limit.getD held.limit) := by
    cases chosen : input.limit with
    | none => rfl
    | some limit => exact (continues.limit limit chosen).2
  have resizing : ports.options.resizable = true ∨ input.limit = none := by
    cases chosen : input.limit with
    | none => exact .inr rfl
    | some limit => exact .inl (continues.limit limit chosen).1
  have serving : serve ports ((later.observe (later.now value)).cleanupAt (later.now value)) held
      offset input = pageAt ports
        ((later.observe (later.now value)).cleanupAt (later.now value)) held offset
        (input.limit.getD held.limit) := by
    unfold serve
    rw [name_view, ok_bind, check_of (continues.view.trans view.symm), ok_bind,
      name_projection, ok_bind, check_of (continues.projection.trans projection.symm),
      ok_bind, check_of resizing, ok_bind, limits, ok_bind]
  have continued : (continuePage ports later (some value) input).1 =
      (pageAt ports ((later.observe (later.now value)).cleanupAt (later.now value)) held offset
        (input.limit.getD held.limit)).map Prod.fst := by
    have now : max later.lastClockValue value = later.now value := rfl
    unfold continuePage entered
    rw [opened, if_neg Bool.false_ne_true]
    dsimp only
    rw [now, live]
    dsimp only
    rw [continues.token, looked]
    dsimp only
    rw [name_epoch]
    dsimp only
    rw [if_neg (not_not.mpr (continues.epoch.trans epoch.symm))]
    rw [← serving]
    cases serve ports ((later.observe (later.now value)).cleanupAt (later.now value)) held offset
      input <;> rfl
  cases cut : pageAt ports ((later.observe (later.now value)).cleanupAt (later.now value)) held
      offset (input.limit.getD held.limit) with
  | ok pair =>
    rw [cut] at continued
    refine .inl ⟨pair.1, ?_⟩
    change some (continuePage ports later (some value) input).1 = _
    rw [continued]
    rfl
  | error error =>
    obtain ⟨fixed, code⟩ := pageAt_error (sound.keyed held held_in) cut
    rw [cut] at continued
    refine .inr ⟨fixed, error, ?_, code⟩
    change some (continuePage ports later (some value) input).1 = _
    rw [continued]
    rfl

end Served

end Bdp.Pagination
