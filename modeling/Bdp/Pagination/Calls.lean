import Bdp.Pagination.Binding

/-!
# Calls of the pagination authority

Every call is made of small steps of its turn, so that the invariant holds in every reachable state.
A page is the slice of the frozen items at its offset, and names the cursor of the offset behind it.
-/

namespace Bdp.Pagination

open Relation
open Bdp.Except (bind_eq_ok)

variable {α : Type} {ports : Ports α} {engine after later : Engine α}
  {snapshot other : Snapshot α} {offset : ℕ} {token : List Char}

section Pages

theorem generateToken_eq_ok {left attempt : ℕ}
    (h : generateToken ports engine left attempt = .ok token) :
    Minted ports engine.turn token ∧ engine.lookup ports token = none := by
  induction left generalizing attempt with
  | zero => cases h
  | succ left ih =>
    unfold generateToken at h
    split at h
    next => cases h
    next candidate drawn =>
      split at h
      next accepted =>
        cases h
        exact ⟨⟨attempt, drawn⟩, accepted.2⟩
      next => exact ih h

theorem free_of_lookup (fixed : ports.options.resizable = false)
    (h : engine.lookup ports token = none) :
    ∀ other ∈ engine.snapshots, ∀ cursor ∈ other.cursors, cursor.2 ≠ token := by
  intro other inside cursor held same
  rw [Engine.lookup, List.findSome?_eq_none_iff] at h
  have unnamed := h other inside
  rw [Option.map_eq_none_iff, Snapshot.offsetOf, fixed, if_neg Bool.false_ne_true,
    Option.map_eq_none_iff, List.find?_eq_none] at unnamed
  exact unnamed cursor held (by rw [same]; exact beq_self_eq_true token)

/-- What a page is. -/
structure PageSpec (ports : Ports α) (snapshot : Snapshot α) (offset limit : ℕ)
    (page : ReadPage α) (grown : Snapshot α) : Prop where
  items : page.items = (snapshot.items.drop offset).take limit
  same : snapshot.SameAs grown
  last : page.next = none → snapshot.items.length ≤ offset + page.items.length
  more : ∀ next, page.next = some next → offset + page.items.length < snapshot.items.length ∧
    Issued ports grown (offset + page.items.length) next.cursor

theorem update_self (sound : engine.Sound ports turn') (inside : snapshot ∈ engine.snapshots) :
    engine.update snapshot = engine := by
  have same : (engine.snapshots.map fun old ↦
      if old.serial = snapshot.serial then snapshot else old) = engine.snapshots := by
    refine (List.map_congr_left fun old held ↦ ?_).trans (List.map_id _)
    split
    next serial => exact sound.same inside held serial.symm
    next => rfl
  rw [Engine.update, same]

theorem pageAt_spec {limit : ℕ} {page : ReadPage α} {grown : Snapshot α}
    (keyed : snapshot.Keyed ports) (positive : 0 < limit)
    (inside_items : offset < snapshot.items.length)
    (h : pageAt ports engine snapshot offset limit = .ok (page, grown)) :
    PageSpec ports snapshot offset limit page grown ∧ ∀ turn, engine.turn = turn →
      engine.Sound ports (turn + 1) → snapshot ∈ engine.snapshots →
      ReflTransGen (Small ports turn) engine (engine.update grown) := by
  unfold pageAt at h
  dsimp only at h
  have some_item : 0 < ((snapshot.items.drop offset).take limit).length := by
    rw [List.length_take, List.length_drop]
    omega
  split at h
  next behind =>
    rw [bind_eq_ok] at h
    obtain ⟨⟨cursor, kept⟩, issued, h⟩ := h
    cases h
    unfold cursorFor at issued
    split at issued
    next candidate key =>
      cases issued
      have resizable : ports.options.resizable = true := by rw [← keyed.key, key]; rfl
      refine ⟨⟨rfl, rfl, (fun h ↦ nomatch h), ?_⟩, ?_⟩
      · intro next same
        cases same
        refine ⟨behind, ?_⟩
        rw [Issued, if_pos resizable]
        refine ⟨⟨candidate, key, rfl⟩, ?_, behind⟩
        dsimp only
        omega
      · intro turn _ sound inside
        rw [update_self sound inside]
    next key =>
      have fixed : ports.options.resizable = false := by rw [← keyed.key, key]; rfl
      split at issued
      next cursor found =>
        cases issued
        have held := List.mem_of_find?_eq_some found
        have place := List.find?_some found
        rw [beq_iff_eq] at place
        refine ⟨⟨rfl, rfl, (fun h ↦ nomatch h), ?_⟩, ?_⟩
        · intro next same
          cases same
          refine ⟨behind, ?_⟩
          rw [Issued, fixed, if_neg Bool.false_ne_true]
          dsimp only
          rw [← place]
          exact held
        · intro turn _ sound inside
          rw [update_self sound inside]
      next missing =>
        rw [bind_eq_ok] at issued
        obtain ⟨drawn, generated, issued⟩ := issued
        cases issued
        obtain ⟨minted, unbound⟩ := generateToken_eq_ok generated
        refine ⟨⟨rfl, rfl, (fun h ↦ nomatch h), ?_⟩, ?_⟩
        · intro next same
          cases same
          refine ⟨behind, ?_⟩
          rw [Issued, fixed, if_neg Bool.false_ne_true]
          exact List.mem_append_right _ (List.mem_singleton_self _)
        · intro turn same sound inside
          refine .single (.grow snapshot inside _ _ (same ▸ minted)
            (free_of_lookup fixed unbound) ⟨?_, behind⟩)
          omega
  next ended =>
    cases h
    refine ⟨⟨rfl, rfl, fun _ ↦ Nat.le_of_not_lt ended, (fun _ h ↦ nomatch h)⟩, ?_⟩
    intro turn _ sound inside
    rw [update_self sound inside]

end Pages

section Steps

variable {turn : ℕ}

theorem Engine.Sound.steps (sound : engine.Sound ports (turn + 1))
    (steps : ReflTransGen (Small ports turn) engine after) : after.Sound ports (turn + 1) := by
  induction steps with
  | refl => exact sound
  | tail _ step ih => exact ih.small step

theorem turn_of_steps (steps : ReflTransGen (Small ports turn) engine after) :
    after.turn = engine.turn := by
  induction steps with
  | refl => rfl
  | tail _ step ih => cases step <;> exact ih

theorem small_observe (now : ℕ) : ReflTransGen (Small ports turn) engine (engine.observe now) :=
  .single (.control engine.closed now)

theorem small_release (serial : ℕ) :
    ReflTransGen (Small ports turn) engine (engine.release serial) :=
  .single (.drop _ List.filter_sublist)

theorem small_cleanupAt (now : ℕ) : ReflTransGen (Small ports turn) engine (engine.cleanupAt now) :=
  .single (.drop _ (List.dropWhile_sublist _))

theorem small_enterEpoch (sound : engine.Sound ports turn') (scopeEpoch : String) :
    ReflTransGen (Small ports turn) engine (engine.enterEpoch scopeEpoch) := by
  unfold Engine.enterEpoch
  split
  next kept =>
    refine .single (.epoch (some scopeEpoch) ?_)
    intro snapshot inside
    have active := sound.epochs snapshot inside
    rw [kept _ active]
  next =>
    exact (ReflTransGen.single (.drop [] (List.nil_sublist _))).tail
      (.epoch (some scopeEpoch) (by
        intro _ inside
        cases inside))

theorem freshResizeIdentity_ok {left attempt : ℕ} {candidate : List Char}
    (h : freshResizeIdentity ports engine left attempt = .ok candidate) :
    engine.admitted < 281474976710655 := by
  induction left generalizing attempt with
  | zero => cases h
  | succ left ih =>
    unfold freshResizeIdentity at h
    split at h
    next => cases h
    next =>
      split at h
      next =>
        split at h
        next bound => exact bound
        next => cases h
      next => exact ih h

theorem admitSnapshot_eq_ok {now limit : ℕ} {url : String} {input : ReadFirstPageInput α}
    (h : admitSnapshot ports engine now limit url input = .ok (some snapshot)) :
    snapshot.serial = engine.admitted + 1 ∧ snapshot.cursors = [] ∧
      snapshot.items = input.items ∧ snapshot.limit = limit ∧ limit < input.items.length ∧
      snapshot.authorizationView = input.authorizationView ∧
      snapshot.scopeEpoch = input.scopeEpoch ∧ snapshot.projection = input.projection ∧
      snapshot.expiresAt = now + ports.options.cursorTtlMs ∧
      snapshot.Keyed ports := by
  unfold admitSnapshot at h
  dsimp only at h
  rw [bind_eq_ok] at h
  obtain ⟨⟨bytes, nodes⟩, _, h⟩ := h
  rw [check_bind_eq_ok] at h
  obtain ⟨_, h⟩ := h
  split at h
  next => cases h
  next larger =>
    rw [check_bind_eq_ok, check_bind_eq_ok, check_bind_eq_ok] at h
    obtain ⟨_, _, _, h⟩ := h
    split at h
    next resizable =>
      rw [bind_eq_ok] at h
      obtain ⟨key, drawn, h⟩ := h
      cases h
      obtain ⟨some_key, bound⟩ : key.isSome = true ∧ engine.admitted < 281474976710655 := by
        cases generated : freshResizeIdentity ports engine
            ports.options.tokenGenerationAttempts 0 with
        | error error =>
          rw [generated] at drawn
          cases drawn
        | ok candidate =>
          rw [generated] at drawn
          cases drawn
          exact ⟨rfl, freshResizeIdentity_ok generated⟩
      exact ⟨rfl, rfl, rfl, rfl, Nat.lt_of_not_le larger, rfl, rfl, rfl, rfl,
        some_key.trans resizable.symm, fun _ ↦ Nat.succ_lt_succ bound⟩
    next fixed =>
      cases h
      exact ⟨rfl, rfl, rfl, rfl, Nat.lt_of_not_le larger, rfl, rfl, rfl, rfl,
        (Bool.eq_false_iff.mpr fixed).symm, fun resizable ↦ absurd resizable fixed⟩

/-- What a first page that does not hold all items leaves. -/
structure Opened (ports : Ports α) (input : ReadFirstPageInput α) (now : ℕ) (page : ReadPage α)
    (after : Engine α) (grown : Snapshot α) : Prop where
  held : grown ∈ after.snapshots
  items : grown.items = input.items
  view : grown.authorizationView = input.authorizationView
  epoch : grown.scopeEpoch = input.scopeEpoch
  projection : grown.projection = input.projection
  expires : grown.expiresAt = now + ports.options.cursorTtlMs
  page_items : page.items = input.items.take grown.limit
  limit : grown.limit < input.items.length
  next : ∃ next, page.next = some next ∧ Issued ports grown page.items.length next.cursor

theorem openSnapshot_steps {now limit : ℕ} {url : String} {input : ReadFirstPageInput α}
    (sound : engine.Sound ports (turn + 1)) (same : engine.turn = turn) (positive : 0 < limit)
    (epoch : engine.activeScopeEpoch = some input.scopeEpoch) :
    ReflTransGen (Small ports turn) engine (openSnapshot ports engine now limit url input).2 ∧
      ∀ page, (openSnapshot ports engine now limit url input).1 = .ok page →
        page = { items := input.items, next := none } ∨
          ∃ grown, Opened ports input now page (openSnapshot ports engine now limit url input).2
            grown := by
  unfold openSnapshot
  split
  next error refused => exact ⟨.refl, fun page h ↦ nomatch h⟩
  next => exact ⟨.refl, fun page h ↦ .inl (Except.ok.inj h).symm⟩
  next snapshot admitted =>
    obtain ⟨serial, empty, items, limits, larger, view, epochs, projection, expires, keyed⟩ :=
      admitSnapshot_eq_ok admitted
    have registered : Small ports turn engine { engine with
        snapshots := engine.snapshots ++ [snapshot], admitted := engine.admitted + 1 } :=
      .add snapshot serial empty (epochs ▸ epoch) (limits ▸ positive) keyed
    have sound' := sound.small registered
    have inside : snapshot ∈ engine.snapshots ++ [snapshot] :=
      List.mem_append_right _ (List.mem_singleton_self _)
    dsimp only
    split
    next error failed =>
      exact ⟨(ReflTransGen.single registered).trans (small_release _), fun page h ↦ nomatch h⟩
    next page grown cut =>
      have some_item : 0 < snapshot.items.length := by
        rw [items]
        omega
      obtain ⟨spec, grow⟩ := pageAt_spec keyed positive some_item cut
      have grows := grow turn same sound' inside
      refine ⟨(ReflTransGen.single registered).trans grows, ?_⟩
      intro served h
      cases h
      right
      have frozen := spec.same
      have serials : grown.serial = snapshot.serial := by rw [frozen]
      have taken : page.items = input.items.take limit := by
        rw [spec.items, List.drop_zero, items]
      have length : page.items.length = limit := by
        rw [taken, List.length_take]
        omega
      refine ⟨grown, ?_, ?_, ?_, ?_, ?_, ?_, ?_, ?_, ?_⟩
      · refine List.mem_map.mpr ⟨snapshot, inside, ?_⟩
        rw [if_pos serials.symm]
      · rw [frozen]
        exact items
      · rw [frozen]
        exact view
      · rw [frozen]
        exact epochs
      · rw [frozen]
        exact projection
      · rw [frozen]
        exact expires
      · rw [taken, frozen]
        exact congrArg (input.items.take ·) limits.symm
      · rw [frozen]
        dsimp only
        omega
      · cases found : page.next with
        | none =>
          have := spec.last found
          rw [items] at this
          omega
        | some next =>
          have more := (spec.more next found).2
          rw [Nat.zero_add] at more
          exact ⟨next, rfl, more⟩

def Engine.now (engine : Engine α) (value : ℕ) : ℕ := max engine.lastClockValue value

theorem firstPage_steps {clock : Option ℕ} {input : ReadFirstPageInput α}
    (sound : engine.Sound ports (turn + 1)) (same : engine.turn = turn) :
    ReflTransGen (Small ports turn) engine (firstPage ports engine clock input).2 ∧
      ∀ page, (firstPage ports engine clock input).1 = .ok page →
        page = { items := input.items, next := none } ∨ ∃ value, clock = some value ∧ ∃ grown,
            Opened ports input (engine.now value) page (firstPage ports engine clock input).2
              grown := by
  unfold firstPage entered
  split
  next => exact ⟨.refl, fun page h ↦ nomatch h⟩
  next =>
    split
    next => exact ⟨.refl, fun page h ↦ nomatch h⟩
    next value =>
      dsimp only
      have cleaned : ReflTransGen (Small ports turn) engine
          ((engine.observe (max engine.lastClockValue value)).cleanupAt
            (max engine.lastClockValue value)) :=
        (small_observe _).trans (small_cleanupAt _)
      split
      next => exact ⟨cleaned, fun page h ↦ nomatch h⟩
      next limit url checked =>
        have positive : 0 < limit := by
          unfold checkFirst at checked
          rw [bind_eq_ok] at checked
          obtain ⟨selected, valid, checked⟩ := checked
          rw [bind_eq_ok] at checked
          obtain ⟨_, _, checked⟩ := checked
          rw [bind_eq_ok] at checked
          obtain ⟨_, _, checked⟩ := checked
          rw [bind_eq_ok] at checked
          obtain ⟨_, _, checked⟩ := checked
          rw [bind_eq_ok] at checked
          obtain ⟨_, _, checked⟩ := checked
          cases checked
          unfold validateLimit at valid
          dsimp only at valid
          rw [check_bind_eq_ok] at valid
          cases valid.2
          exact valid.1.1
        have sound' := sound.steps cleaned
        have entered := @small_enterEpoch _ ports _ turn _ sound' input.scopeEpoch
        have sound'' := sound'.steps entered
        have turns := (turn_of_steps entered).trans ((turn_of_steps cleaned).trans same)
        have opened := @openSnapshot_steps _ ports _ turn (max engine.lastClockValue value) limit
          url input sound'' turns positive rfl
        refine ⟨(cleaned.trans entered).trans opened.1, ?_⟩
        intro page h
        cases opened.2 page h with
        | inl whole => exact .inl whole
        | inr grown => exact .inr ⟨value, rfl, grown⟩

/-- What a page that was served behind a cursor tells. -/
structure Served (ports : Ports α) (engine : Engine α) (value : ℕ) (input : ReadContinuationInput)
    (page : ReadPage α) (after : Engine α) (snapshot : Snapshot α) (offset : ℕ)
    (grown : Snapshot α) : Prop where
  held : snapshot ∈ engine.snapshots
  issued : Issued ports snapshot offset input.token
  view : snapshot.authorizationView = input.authorizationView
  epoch : snapshot.scopeEpoch = input.scopeEpoch
  projection : snapshot.projection = input.projection
  early : engine.now value < snapshot.expiresAt
  kept : grown ∈ after.snapshots
  spec : PageSpec ports snapshot offset (input.limit.getD snapshot.limit) page grown

theorem serve_eq_ok {input : ReadContinuationInput} {page : ReadPage α} {grown : Snapshot α}
    (h : serve ports engine snapshot offset input = .ok (page, grown))
    (positive : 0 < snapshot.limit) :
    snapshot.authorizationView = input.authorizationView ∧ snapshot.projection = input.projection ∧
      0 < input.limit.getD snapshot.limit ∧
      pageAt ports engine snapshot offset (input.limit.getD snapshot.limit) =
        .ok (page, grown) := by
  unfold serve at h
  rw [bind_eq_ok] at h
  obtain ⟨view, named, h⟩ := h
  rw [check_bind_eq_ok, bind_eq_ok] at h
  obtain ⟨same_view, projection, named', h⟩ := h
  rw [check_bind_eq_ok, check_bind_eq_ok] at h
  obtain ⟨same_projection, _, h⟩ := h
  rw [bind_eq_ok] at h
  obtain ⟨selected, chosen_limit, h⟩ := h
  have kept {value result : String} (h : identityOf value = .ok result) : result = value := by
    unfold identityOf at h
    rw [check_bind_eq_ok] at h
    cases h.2
    rfl
  refine ⟨(same_view.symm.trans (kept named)), same_projection.symm.trans (kept named'), ?_⟩
  cases chosen : input.limit with
  | none =>
    rw [chosen] at chosen_limit
    cases chosen_limit
    exact ⟨positive, h⟩
  | some limit =>
    rw [chosen] at chosen_limit
    unfold continuationLimit validateLimit at chosen_limit
    dsimp only at chosen_limit
    rw [check_bind_eq_ok] at chosen_limit
    cases chosen_limit.2
    exact ⟨chosen_limit.1.1, h⟩

theorem issued_range {sound : engine.Sound ports turn'} (inside : snapshot ∈ engine.snapshots)
    (issued : Issued ports snapshot offset token) :
    0 < offset ∧ offset < snapshot.items.length := by
  unfold Issued at issued
  split at issued
  · exact issued.2
  · exact sound.offsets snapshot inside _ issued

theorem continuePage_steps {clock : Option ℕ} {input : ReadContinuationInput}
    (sound : engine.Sound ports (turn + 1)) (same : engine.turn = turn) :
    ReflTransGen (Small ports turn) engine (continuePage ports engine clock input).2 ∧
      ∀ page, (continuePage ports engine clock input).1 = .ok page →
        ∃ value, clock = some value ∧ ∃ snapshot offset grown,
          Served ports engine value input page (continuePage ports engine clock input).2 snapshot
            offset grown := by
  unfold continuePage entered
  split
  next => exact ⟨.refl, fun page h ↦ nomatch h⟩
  next =>
    split
    next => exact ⟨.refl, fun page h ↦ nomatch h⟩
    next value =>
      dsimp only
      have observed : ReflTransGen (Small ports turn) engine
          (engine.observe (max engine.lastClockValue value)) := small_observe _
      split
      next direct found =>
        exact ⟨observed.trans (small_release _), fun page h ↦ nomatch h⟩
      next live =>
        have cleaned := observed.trans
          (@small_cleanupAt _ ports (engine.observe (max engine.lastClockValue value)) turn
            (max engine.lastClockValue value))
        split
        next => exact ⟨cleaned, fun page h ↦ nomatch h⟩
        next snapshot offset bound =>
          split
          next => exact ⟨cleaned, fun page h ↦ nomatch h⟩
          next scopeEpoch named =>
            split
            next => exact ⟨cleaned.trans (small_release _), fun page h ↦ nomatch h⟩
            next same_epoch =>
              have sound' := sound.steps cleaned
              obtain ⟨inside, issued⟩ := lookup_issued bound
              split
              next => exact ⟨cleaned, fun page h ↦ nomatch h⟩
              next page grown served =>
                obtain ⟨view, projection, positive, cut⟩ :=
                  serve_eq_ok served (sound'.positive snapshot inside)
                have range := @issued_range _ ports _ snapshot offset _ _ sound' inside issued
                obtain ⟨spec, grow⟩ :=
                  pageAt_spec (sound'.keyed snapshot inside) positive range.2 cut
                have turns := (turn_of_steps cleaned).trans same
                refine ⟨cleaned.trans (grow turn turns sound' inside), ?_⟩
                intro result h
                cases h
                have before : snapshot ∈ engine.snapshots :=
                  (List.dropWhile_sublist _).subset inside
                refine ⟨value, rfl, snapshot, offset, grown, before, issued, view, ?_, projection,
                  ?_, ?_, spec⟩
                · have epoch := not_not.mp same_epoch
                  unfold identityOf at named
                  rw [check_bind_eq_ok] at named
                  cases named.2
                  exact epoch.symm
                · by_contra late
                  obtain ⟨_, named_offset⟩ := lookup_named bound
                  obtain ⟨direct, place, looked⟩ := @exists_lookup _ ports
                    (engine.observe (max engine.lastClockValue value)) _ _ _ before named_offset
                  obtain ⟨direct_in, direct_issued⟩ := lookup_issued looked
                  obtain ⟨same_snapshot, _⟩ :=
                    sound.issued_unique before direct_in issued direct_issued
                  have expired : decide ((snapshot, place).1.expiresAt ≤
                      max engine.lastClockValue value) = true :=
                    decide_eq_true (Nat.le_of_not_lt late)
                  rw [looked, Option.filter_some, ← same_snapshot, if_pos expired] at live
                  cases live
                · have serials : grown.serial = snapshot.serial := by rw [spec.same]
                  refine List.mem_map.mpr ⟨snapshot, inside, ?_⟩
                  rw [if_pos serials.symm]

end Steps

end Bdp.Pagination
