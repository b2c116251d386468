import Bdp.Pagination.LedgerLaw
import Bdp.Pagination.Traversal

/-!
# The accounts are not seen

The accounts and the cursor index only save time: every call is answered as by the authority that
sums over its live snapshots and searches them for a cursor.
-/

namespace Bdp.Pagination

variable {α : Type} {ports : Ports α}

def answers {σ : Type} (step : σ → Call α → Option (Except ReadPaginationError (ReadPage α)) × σ) :
    List (Call α) → σ → List (Option (Except ReadPaginationError (ReadPage α)))
  | [], _ => []
  | call :: rest, state => (step state call).1 :: answers step rest (step state call).2

/-- The call on the accounts, without a source context. The timer reads the clock that the call has
read, or an earlier one. -/
def Call.accounted : Call α → LedgerCall α
  | .firstPage clock input => .firstPage clock clock clock { input with context := some (0, 0) }
  | .continuePage clock input => .continuePage clock clock input
  | .cleanupExpired clock => .cleanupExpired clock clock
  | .releaseUnissuedPage serial => .releaseUnissuedPage serial (some 0)
  | .close => .close

namespace Ledger

/-- What a call answers, and the accounts after it. -/
def step (ports : Ports α) (timer : Bool) (ledger : Ledger α) (call : Call α) :
    Option (Except ReadPaginationError (ReadPage α)) × Ledger α :=
  (match call with
    | .firstPage clock input => some (ledger.firstPage ports timer clock clock clock
        { input with context := some (0, 0) }).1
    | .continuePage clock input => some (ledger.continuePage ports timer clock clock input).1
    | _ => none,
  ledger.call ports timer call.accounted)

variable {ledger : Ledger α} {timer : Bool}

section Releases

@[simp]
theorem toEngine_release (ledger : Ledger α) (serial : ℕ) :
    (ledger.release serial).toEngine = ledger.toEngine.release serial := by
  unfold release
  split
  · next hnone =>
    have hkept : ledger.snapshots.filter (fun kept ↦ kept.serial != serial) = ledger.snapshots :=
      List.filter_eq_self.mpr fun kept hmem ↦ by simpa using List.find?_eq_none.mp hnone kept hmem
    exact (congrArg (fun snapshots ↦ { ledger.toEngine with snapshots }) hkept).symm
  · rfl

theorem toEngine_cleanupLoop (now : ℕ) (snapshots : List (Snapshot α)) (ledger : Ledger α) :
    (cleanupLoop now snapshots ledger).toEngine =
      { ledger.toEngine with snapshots := (cleanupLoop now snapshots ledger).snapshots } := by
  induction snapshots generalizing ledger with
  | nil => rfl
  | cons snapshot rest ih =>
    rw [cleanupLoop]
    split
    · rfl
    · exact (ih _).trans (by rw [toEngine_release]; rfl)

theorem toEngine_cleanupAt (h : Balanced ports ledger) (now : ℕ) :
    (ledger.cleanupAt now).toEngine = ledger.toEngine.cleanupAt now := by
  rw [cleanupAt, toEngine_cleanupLoop, cleanupLoop_snapshots now ledger h.serials]
  rfl

theorem toEngine_releases (snapshots : List (Snapshot α)) (ledger : Ledger α) :
    (snapshots.foldl (fun ledger snapshot ↦ ledger.release snapshot.serial) ledger).toEngine =
      { ledger.toEngine with
        snapshots := ledger.snapshots.filter fun kept ↦
          kept.serial ∉ snapshots.map Snapshot.serial } := by
  induction snapshots generalizing ledger with
  | nil => simp
  | cons snapshot rest ih =>
    rw [List.foldl_cons, ih, toEngine_release]
    simp only [Engine.release, List.filter_filter]
    congr 2 with kept
    simp [Bool.and_comm, bne, beq_eq_decide]

theorem toEngine_releaseAll (ledger : Ledger α) :
    ledger.releaseAll.toEngine = { ledger.toEngine with snapshots := [] } := by
  rw [releaseAll, toEngine_releases]
  simpa using fun snapshot hmem ↦ ⟨snapshot, hmem, rfl⟩

theorem toEngine_enterEpoch (scopeEpoch : String) :
    (ledger.enterEpoch scopeEpoch).toEngine = ledger.toEngine.enterEpoch scopeEpoch := by
  unfold enterEpoch Engine.enterEpoch
  dsimp only
  split
  · rfl
  · rw [toEngine_releaseAll]

/-- A reading of the clock that is not later than what the clock has shown. -/
def Standing (ledger : Ledger α) (clock : Option ℕ) : Prop :=
  ∃ value ≤ ledger.lastClockValue, clock = some value

theorem Standing.schedule {clock : Option ℕ} (h : ledger.Standing clock) :
    ledger.scheduleIdleCleanup timer clock = (.ok (), ledger) := by
  obtain ⟨value, hle, rfl⟩ := h
  unfold scheduleIdleCleanup
  split
  · rfl
  · simp [observe, max_eq_left hle]

theorem Standing.of_eq {clock : Option ℕ} {after : Ledger α} {engine : Engine α}
    (h : ledger.Standing clock) (heq : after.toEngine = engine)
    (hsame : engine.lastClockValue = ledger.lastClockValue) : after.Standing clock := by
  subst heq
  unfold Standing
  rwa [hsame]

end Releases

section Cursors

theorem find?_of_unique {β : Type} {l : List β} {p : β → Bool} {a : β} (hmem : a ∈ l) (ha : p a)
    (h : ∀ b ∈ l, p b → b = a) : l.find? p = some a := by
  obtain ⟨b, hb⟩ := Option.isSome_iff_exists.mp (List.find?_isSome.mpr ⟨a, hmem, ha⟩)
  rw [hb, h b (List.mem_of_find?_eq_some hb) (List.find?_some hb)]

/-- What a cursor or a page of the plain authority gives, and what the accounts make of it. -/
inductive Tracks {β : Type} (ledger : Ledger α) (snapshot : Snapshot α) :
    Except ReadPaginationError (β × Snapshot α) → Except ReadPaginationError β × Ledger α → Prop
  | error (error : ReadPaginationError) :
      Tracks ledger snapshot (.error error) (.error error, ledger)
  | ok {value : β} {after : Ledger α} (cursors : List (ℕ × List Char))
      (h : after.toEngine = ledger.toEngine.update { snapshot with cursors }) :
      Tracks ledger snapshot (.ok (value, { snapshot with cursors })) (.ok value, after)

theorem update_live {engine : Engine α} {snapshot : Snapshot α}
    (h : ∀ other ∈ engine.snapshots, other.serial = snapshot.serial → other = snapshot) :
    engine.update snapshot = engine := by
  have hmap : (engine.snapshots.map fun other ↦
      if other.serial = snapshot.serial then snapshot else other) = engine.snapshots := by
    refine (List.map_congr_left fun other hother ↦ ?_).trans (List.map_id' _)
    split
    · next heq => exact (h other hother heq).symm
    · rfl
  rw [Engine.update, hmap]

variable {snapshot : Snapshot α} {offset : ℕ} (h : Balanced ports ledger)
include h

theorem fresh_iff (hmode : ports.options.resizable = false)
    (token : List Char) :
    ledger.cursorIndex.all (fun binding ↦ !(binding.token == token)) = true ↔
      ledger.toEngine.lookup ports token = none := by
  unfold Engine.lookup Snapshot.offsetOf
  simp only [hmode, List.findSome?_eq_none_iff, List.all_eq_true, Bool.false_eq_true, if_false,
    Option.map_eq_none_iff, List.find?_eq_none, h.index]
  constructor
  · rintro hall snapshot hlive ⟨offset, token⟩ hcursor
    simpa using hall ⟨token, snapshot.serial, offset⟩ ⟨snapshot, hlive, rfl, hcursor⟩
  · rintro hall ⟨token, serial, offset⟩ ⟨snapshot, hlive, -, hcursor⟩
    simpa using hall snapshot hlive _ hcursor

theorem lookup_eq (token : List Char) :
    ledger.lookup ports token = ledger.toEngine.lookup ports token := by
  unfold lookup
  split
  · rfl
  · next hmode =>
    have hmode : ports.options.resizable = false := by simpa using hmode
    cases hfound : ledger.toEngine.lookup ports token with
    | none =>
      have hnone : ledger.cursorIndex.find? (fun binding ↦ binding.token == token) = none := by
        simpa using (fresh_iff h hmode token).mpr hfound
      rw [hnone]
      rfl
    | some found =>
      obtain ⟨snapshot, hlive, hfound⟩ := List.exists_of_findSome?_eq_some hfound
      obtain ⟨offset, hoffset, rfl⟩ := Option.map_eq_some_iff.mp hfound
      rw [Snapshot.offsetOf, if_neg (by simp [hmode])] at hoffset
      obtain ⟨⟨_, spelled⟩, hcursor, rfl⟩ := Option.map_eq_some_iff.mp hoffset
      have hspelled : spelled = token := by simpa using List.find?_some hcursor
      subst hspelled
      have hbound := (h.index ⟨spelled, snapshot.serial, _⟩).mpr
        ⟨snapshot, hlive, rfl, List.mem_of_find?_eq_some hcursor⟩
      have hfirst : ledger.cursorIndex.find? (fun binding ↦ binding.token == spelled) = _ :=
        find?_of_unique hbound (beq_self_eq_true spelled) fun other hother heq ↦
          List.inj_on_of_nodup_map h.tokens hother hbound (beq_iff_eq.mp heq)
      have hsecond : ledger.snapshots.find? (fun kept ↦ kept.serial == snapshot.serial) = _ :=
        find?_of_unique hlive (beq_self_eq_true _) fun other hother heq ↦
          snapshot_unique h.serials hother hlive (beq_iff_eq.mp heq)
      rw [hfirst]
      simp only [Option.bind_eq_bind, Option.bind_some]
      rw [hsecond]
      rfl

theorem generateToken_eq (hmode : ports.options.resizable = false) (left attempt : ℕ) :
    ledger.generateToken ports left attempt =
      Pagination.generateToken ports ledger.toEngine left attempt := by
  induction left generalizing attempt with
  | zero => rfl
  | succ left ih =>
    have hturn : ledger.toEngine.turn = ledger.turn := rfl
    rw [generateToken, Pagination.generateToken, hturn]
    cases ports.entropy ledger.turn attempt with
    | none => rfl
    | some candidate => exact if_congr (and_congr_right' (fresh_iff h hmode candidate)) rfl (ih _)

variable (hlive : snapshot ∈ ledger.snapshots) (hkey : snapshot.Keyed ports)
include hlive hkey

theorem tracks_cursorFor : Tracks ledger snapshot
    (Pagination.cursorFor ports ledger.toEngine snapshot offset)
    (ledger.cursorFor ports snapshot offset) := by
  have hunique (other : Snapshot α) (hother : other ∈ ledger.snapshots)
      (heq : other.serial = snapshot.serial) : other = snapshot :=
    snapshot_unique h.serials hother hlive heq
  unfold cursorFor Pagination.cursorFor
  cases hkeyed : snapshot.cursorKey with
  | some candidate => exact .ok _ (update_live hunique).symm
  | none =>
    cases snapshot.cursors.find? fun cursor ↦ cursor.1 == offset with
    | some cursor => exact .ok _ (update_live hunique).symm
    | none =>
      have hmode := hkey.key
      rw [hkeyed] at hmode
      rw [generateToken_eq h hmode.symm]
      cases Pagination.generateToken ports ledger.toEngine _ 0 with
      | error error => exact .error error
      | ok token =>
        have hbind : (ledger.bind snapshot.serial offset token).toEngine = ledger.toEngine.update
            { snapshot with cursors := snapshot.cursors ++ [(offset, token)] } := by
          simp only [bind, Engine.update]
          congr 1
          refine List.map_congr_left fun other hother ↦ ?_
          split
          · next heq => rw [hunique other hother heq]
          · rfl
        have htracks : Tracks ledger snapshot (.ok (token, _)) (.ok token, _) := .ok _ hbind
        rw [hkeyed] at htracks
        exact htracks

theorem tracks_pageAt (limit : ℕ) : Tracks ledger snapshot
    (Pagination.pageAt ports ledger.toEngine snapshot offset limit)
    (ledger.pageAt ports snapshot offset limit) := by
  unfold pageAt Pagination.pageAt
  dsimp only
  split
  · have htracks := @tracks_cursorFor α ports ledger snapshot
      (offset + ((snapshot.items.drop offset).take limit).length) h hlive hkey
    generalize Pagination.cursorFor ports ledger.toEngine snapshot _ = plain at htracks ⊢
    generalize ledger.cursorFor ports snapshot _ = accounted at htracks ⊢
    cases htracks with
    | error error => exact .error error
    | ok cursors h => exact .ok cursors h
  · exact .ok _ (update_live fun other hother heq ↦ snapshot_unique h.serials hother hlive heq).symm

end Cursors

section Admission

theorem check_congr {ε : Type} {error : ε} {p q : Prop} [Decidable p] [Decidable q] (h : p ↔ q) :
    check p error = check q error := by
  simp only [check, h]

theorem admitSnapshot_eq (h : Balanced ports ledger) (now limit : ℕ) (url : String)
    (input : ReadFirstPageInput α) :
    ledger.admitSnapshot ports now limit url { input with context := some (0, 0) } =
      Pagination.admitSnapshot ports ledger.toEngine now limit url input := by
  have hbytes := h.byteCapacity
  have hnodes := h.nodeCapacity
  unfold admitSnapshot Pagination.admitSnapshot
  dsimp only
  rw [h.bytes] at hbytes ⊢
  rw [h.nodes] at hnodes ⊢
  rw [h.positions, require_some, Except.ok_bind]
  dsimp only
  rw [check_of (by constructor <;> split <;> push_cast <;> omega), Except.ok_bind]
  refine congrArg₂ _ rfl (funext fun weight ↦ ?_)
  refine congrArg₂ _ (check_congr ?_) (funext fun _ ↦ ?_)
  · split <;> push_cast <;> omega
  · refine if_congr Iff.rfl rfl (congrArg₂ _ rfl (funext fun _ ↦ ?_))
    refine congrArg₂ _ (check_congr ?_) (funext fun _ ↦ ?_)
    · norm_cast
    · refine congrArg₂ _ (check_congr ?_) rfl
      norm_cast

variable {clock : Option ℕ}

theorem refuse_release (error : ReadPaginationError) (serial : ℕ) (hclock : ledger.Standing clock) :
    ((ledger.release serial).refuse error timer clock).map id toEngine =
      (.error error, ledger.toEngine.release serial) := by
  rw [refuse, (hclock.of_eq (toEngine_release _ _) rfl).schedule]
  exact Prod.ext rfl (toEngine_release _ _)

theorem openSnapshot_eq (h : Balanced ports ledger) (hclock : ledger.Standing clock) {now : ℕ}
    (hnow : ledger.lastClockValue = now) (limit : ℕ) (url : String) (input : ReadFirstPageInput α) :
    (ledger.openSnapshot ports now limit url { input with context := some (0, 0) } timer clock
        clock).map id toEngine =
      Pagination.openSnapshot ports ledger.toEngine now limit url input := by
  subst hnow
  have hlooked := admitSnapshot_eq h ledger.lastClockValue limit url input
  unfold openSnapshot Pagination.openSnapshot
  rw [hlooked]
  cases hfound : Pagination.admitSnapshot ports ledger.toEngine _ limit url input with
  | error error => rfl
  | ok found =>
    cases found with
    | none => rfl
    | some snapshot =>
      obtain ⟨hserial, hcursors, hexpiry, hbytes, hnodes, hstate⟩ :=
        admitSnapshot_spec (hlooked.trans hfound)
      have htracks := @tracks_pageAt α ports (ledger.register snapshot) snapshot 0
        ((Move.register hserial hcursors hexpiry hbytes hnodes hstate).balanced h)
        (by simp [register]) (admitSnapshot_eq_ok hfound).2.2.2.2.2.2.2.2.2 limit
      change Tracks _ _ (Pagination.pageAt ports { ledger.toEngine with
        snapshots := ledger.snapshots ++ [snapshot], admitted := ledger.admitted + 1 } snapshot 0
          limit) _ at htracks
      dsimp only
      generalize Pagination.pageAt ports _ snapshot 0 limit = plain at htracks ⊢
      generalize (ledger.register snapshot).pageAt ports snapshot 0 limit = accounted at htracks ⊢
      cases htracks with
      | error error => exact refuse_release error snapshot.serial (hclock.of_eq rfl rfl)
      | ok cursors heq =>
        dsimp only
        rw [(hclock.of_eq heq rfl).schedule]
        exact Prod.ext rfl heq

theorem tracks_serve (h : Balanced ports ledger) (hclock : ledger.Standing clock)
    {snapshot : Snapshot α} (hlive : snapshot ∈ ledger.snapshots) (hkey : snapshot.Keyed ports)
    (offset : ℕ) (input : ReadContinuationInput) : Tracks ledger snapshot
      (Pagination.serve ports ledger.toEngine snapshot offset input)
      (ledger.serve ports snapshot offset input timer clock) := by
  have hserve : Pagination.serve ports ledger.toEngine snapshot offset input =
      checkReader ports snapshot input >>= fun limit ↦
        Pagination.pageAt ports ledger.toEngine snapshot offset limit := by
    simp only [Pagination.serve, checkReader, bind_assoc]
  rw [hserve]
  unfold serve
  cases checkReader ports snapshot input with
  | error error => exact .error error
  | ok limit =>
    have htracks := @tracks_pageAt α ports ledger snapshot offset h hlive hkey limit
    rw [Except.ok_bind]
    dsimp only
    generalize Pagination.pageAt ports _ snapshot offset limit = plain at htracks ⊢
    generalize ledger.pageAt ports snapshot offset limit = accounted at htracks ⊢
    cases htracks with
    | error error => exact .error error
    | ok cursors heq =>
      dsimp only
      rw [(hclock.of_eq heq rfl).schedule]
      exact .ok cursors heq

end Admission

section Calls

variable (h : Balanced ports ledger) (sound : ledger.toEngine.Ready ports)
include h

theorem entered_eq {clock : Option ℕ}
    {body : ℕ → Ledger α → Except ReadPaginationError (ReadPage α) × Ledger α}
    {plain : ℕ → Engine α → Except ReadPaginationError (ReadPage α) × Engine α}
    (hbody : ∀ now, Balanced ports (ledger.observe now) → (ledger.observe now).Standing clock →
      (body now (ledger.observe now)).map id toEngine = plain now (ledger.observe now).toEngine) :
    (ledger.entered clock body).map id toEngine =
      Pagination.entered ledger.toEngine clock plain := by
  unfold entered Pagination.entered
  split
  · rfl
  · cases clock with
    | none => rfl
    | some value =>
      exact hbody _ (balanced_observe h (le_max_left _ _)) ⟨value, le_max_right _ _, rfl⟩

theorem firstPage_eq (clock : Option ℕ) (input : ReadFirstPageInput α) :
    (ledger.firstPage ports timer clock clock clock { input with context := some (0, 0) }).map id
      toEngine = Pagination.firstPage ports ledger.toEngine clock input := by
  refine entered_eq h fun now hobserved hclock ↦ ?_
  have hcleaned := toEngine_cleanupAt hobserved now
  dsimp only
  rw [← hcleaned]
  cases checkFirst ports input with
  | error error => rfl
  | ok found =>
    have hepoch := @toEngine_enterEpoch α ((ledger.observe now).cleanupAt now) input.scopeEpoch
    have hsame := congrArg Engine.lastClockValue (hepoch.trans (by rw [hcleaned]))
    dsimp only
    rw [← hepoch]
    exact openSnapshot_eq ((moves_enterEpoch input.scopeEpoch).1.balanced
      ((moves_cleanupLoop now _ _).balanced hobserved)) (hclock.of_eq rfl hsame) hsame _ _ _

include sound

theorem continuePage_eq (clock : Option ℕ) (input : ReadContinuationInput) :
    (ledger.continuePage ports timer clock clock input).map id toEngine =
      Pagination.continuePage ports ledger.toEngine clock input := by
  refine entered_eq h fun now hobserved hclock ↦ ?_
  have hcleaned := toEngine_cleanupAt hobserved now
  have hbalanced : Balanced ports ((ledger.observe now).cleanupAt now) :=
    (moves_cleanupLoop now _ _).balanced hobserved
  have hstands := hclock.of_eq hcleaned rfl
  have hkept (snapshot : Snapshot α)
      (hlive : snapshot ∈ ((ledger.observe now).cleanupAt now).snapshots) :
      snapshot ∈ ledger.snapshots := by
    rw [hcleaned] at hlive
    exact (List.dropWhile_sublist _).subset hlive
  dsimp only
  rw [lookup_eq hobserved]
  cases ((ledger.observe now).toEngine.lookup ports input.token).filter fun direct ↦
      decide (direct.1.expiresAt ≤ now) with
  | some direct =>
    exact refuse_release _ _ hclock
  | none =>
    dsimp only
    rw [lookup_eq hbalanced, ← hcleaned]
    cases hfound : ((ledger.observe now).cleanupAt now).toEngine.lookup ports input.token with
    | none => rfl
    | some found =>
      dsimp only
      cases identityOf input.scopeEpoch with
      | error error => rfl
      | ok scopeEpoch =>
        dsimp only
        split
        · exact refuse_release _ _ hstands
        · obtain ⟨hlive, -⟩ := lookup_named hfound
          have htracks := @tracks_serve α ports _ timer clock hbalanced hstands found.1 hlive
            (sound.keyed _ (hkept _ hlive)) found.2 input
          generalize Pagination.serve ports _ found.1 found.2 input = plain at htracks ⊢
          generalize serve ports _ found.1 found.2 input timer clock = accounted at htracks ⊢
          cases htracks with
          | error error => rfl
          | ok cursors heq => exact Prod.ext rfl heq

theorem call_eq (hopen : ledger.closed = false) (call : Call α) :
    (ledger.step ports timer call).map id toEngine = ledger.toEngine.call ports call := by
  have hturn {kept : Ledger α} {engine : Engine α} (heq : kept.toEngine = engine) :
      ({ kept with turn := ledger.turn + 1 } : Ledger α).toEngine =
        { engine with turn := ledger.turn + 1 } := by
    rw [← heq]
  cases call with
  | firstPage clock input =>
    have heq := @firstPage_eq α ports ledger timer h clock input
    exact Prod.ext (congrArg (some ∘ Prod.fst) heq) (hturn (congrArg Prod.snd heq))
  | continuePage clock input =>
    have heq := @continuePage_eq α ports ledger timer h sound clock input
    exact Prod.ext (congrArg (some ∘ Prod.fst) heq) (hturn (congrArg Prod.snd heq))
  | cleanupExpired clock =>
    refine Prod.ext rfl (hturn ?_)
    dsimp only [Ledger.cleanupExpired, Engine.cleanupExpired, Call.accounted]
    rw [hopen, if_neg Bool.false_ne_true]
    cases clock with
    | none => rfl
    | some value =>
      have hobserved := balanced_observe h (le_max_left ledger.lastClockValue value)
      have hlater := le_max_right ledger.lastClockValue value
      dsimp only
      generalize max ledger.lastClockValue value = now at *
      have hstands : (ledger.observe now).Standing (some value) := ⟨value, hlater, rfl⟩
      have hcleaned := toEngine_cleanupAt hobserved now
      rw [(hstands.of_eq hcleaned rfl).schedule]
      exact hcleaned
  | releaseUnissuedPage serial =>
    refine Prod.ext rfl (hturn ?_)
    dsimp only [Ledger.releaseUnissuedPage, Call.accounted]
    split
    · rw [Standing.schedule ⟨0, Nat.zero_le _, rfl⟩]
      exact toEngine_release _ _
    · rfl
  | close =>
    refine Prod.ext rfl (hturn ?_)
    dsimp only [Ledger.close, Call.accounted]
    rw [hopen, if_neg Bool.false_ne_true]
    exact toEngine_releaseAll _

omit h sound in
theorem call_closed {engine : Engine α} (hledger : ledger.closed = true)
    (hengine : engine.closed = true) (call : Call α) :
    (ledger.step ports timer call).1 = (engine.call ports call).1 ∧
      (ledger.step ports timer call).2.closed = true ∧
      (engine.call ports call).2.closed = true := by
  cases call with
  | releaseUnissuedPage serial =>
    refine ⟨rfl, ?_, ?_⟩
    · dsimp only [step, Ledger.call, Call.accounted, releaseUnissuedPage]
      split
      · rw [Standing.schedule ⟨0, Nat.zero_le _, rfl⟩]
        exact (release_kept ledger serial).2.2.trans hledger
      · exact hledger
    · dsimp only [Engine.call]
      split <;> exact hengine
  | cleanupExpired clock =>
    cases clock <;> simp [step, Call.accounted, Ledger.call, Engine.call, cleanupExpired,
      Engine.cleanupExpired, hledger, hengine]
  | _ =>
    simp [step, Call.accounted, Ledger.call, Engine.call, firstPage, Pagination.firstPage,
      continuePage, Pagination.continuePage, entered, Pagination.entered, close, Engine.close,
      hledger, hengine]

end Calls

theorem answers_eq {engine : Engine α}
    (h : Balanced ports ledger ∧ ledger.toEngine.Ready ports ∧ ledger.toEngine = engine ∨
      ledger.closed = true ∧ engine.closed = true) (calls : List (Call α)) :
    answers (step ports timer) calls ledger = answers (Engine.call ports) calls engine := by
  induction calls generalizing ledger engine with
  | nil => rfl
  | cons call rest ih =>
    have hclosed (hledger : ledger.closed = true) (hengine : engine.closed = true) :
        answers (step ports timer) (call :: rest) ledger =
          answers (Engine.call ports) (call :: rest) engine := by
      obtain ⟨hanswer, hafter⟩ := @call_closed α ports ledger timer engine hledger hengine call
      exact congrArg₂ _ hanswer (ih (.inr hafter))
    rcases h with ⟨h, sound, rfl⟩ | ⟨hledger, hengine⟩
    · cases hopen : ledger.closed with
      | true => exact hclosed hopen hopen
      | false =>
        have heq := @call_eq α ports ledger timer h sound hopen call
        obtain ⟨hanswer, hafter⟩ := Prod.ext_iff.mp heq
        have hbalanced := (@moves_call α ports ledger timer call.accounted).balanced h
        have sound := sound.call call
        rw [← hafter] at sound
        exact congrArg₂ _ hanswer (ih (.inl ⟨hbalanced, sound, hafter⟩))
    · exact hclosed hledger hengine

end Ledger

/-- Over every run of calls the authority that keeps accounts by increments, and finds cursors by an
index, answers each call as the one that sums over its live snapshots and searches them. -/
theorem accounts_unseen (ports : Ports α) (timer : Bool) (calls : List (Call α)) :
    answers (Ledger.step ports timer) calls (Ledger.created α) =
      answers (Engine.call ports) calls (Engine.created α) :=
  Ledger.answers_eq (.inl ⟨Ledger.balanced_created, ready_created, rfl⟩) calls

end Bdp.Pagination
