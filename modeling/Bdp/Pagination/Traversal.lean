import Bdp.Pagination.Calls

/-!
# Traversals

The pages of a traversal concatenate to the items that its first page froze, whatever calls are made
in between; a cursor serves the same items whenever it is read with one limit, and is served to
nobody who names another view, projection or epoch, nor after its expiry.
-/

namespace Bdp.Pagination

open Relation

variable {α : Type} {ports : Ports α} {engine after later : Engine α}
  {snapshot other : Snapshot α} {offset : ℕ} {token : List Char}

section Runs

/-- Any calls, one after another. -/
inductive Run (ports : Ports α) (start : Engine α) : Engine α → Prop where
  | refl : Run ports start start
  | called {engine : Engine α} (call : Call α) (run : Run ports start engine) :
    Run ports start (engine.call ports call).2

def Engine.Ready (ports : Ports α) (engine : Engine α) : Prop := engine.Sound ports engine.turn

theorem Engine.Sound.mono {turn : ℕ} (sound : engine.Sound ports turn) :
    engine.Sound ports (turn + 1) :=
  { sound with
    minted := fun snapshot inside cursor held ↦ by
      obtain ⟨drawn, before, minted⟩ := sound.minted snapshot inside cursor held
      exact ⟨drawn, Nat.lt_succ_of_lt before, minted⟩ }

section

variable (ready : engine.Ready ports)
include ready

theorem call_steps (call : Call α) : ∃ after, ReflTransGen (Small ports engine.turn) engine after ∧
      (engine.call ports call).2 = { after with turn := engine.turn + 1 } := by
  have sound := ready.mono
  cases call with
  | firstPage clock input => exact ⟨_, (firstPage_steps sound rfl).1, rfl⟩
  | continuePage clock input => exact ⟨_, (continuePage_steps sound rfl).1, rfl⟩
  | cleanupExpired clock =>
    refine ⟨engine.cleanupExpired clock, ?_, rfl⟩
    unfold Engine.cleanupExpired
    split
    next => exact .refl
    next value =>
      dsimp only
      split
      next => exact .refl
      next => exact (small_observe _).trans (small_cleanupAt _)
  | releaseUnissuedPage serial =>
    refine ⟨if ports.options.resizable then engine.release serial else engine, ?_, rfl⟩
    split
    · exact small_release serial
    · exact .refl
  | close =>
    refine ⟨engine.close, ?_, rfl⟩
    have dropped : Small ports engine.turn engine { engine with snapshots := [] } :=
      .drop [] (List.nil_sublist _)
    have inactive : Small ports engine.turn { engine with snapshots := [] }
        { engine with snapshots := [], activeScopeEpoch := none } :=
      .epoch none (by
        intro _ inside
        cases inside)
    exact ((ReflTransGen.single dropped).tail inactive).tail
      (.control true engine.lastClockValue)

theorem Engine.Ready.call (call : Call α) : (engine.call ports call).2.Ready ports := by
  obtain ⟨after, steps, same⟩ := call_steps ready call
  have sound := ready.mono.steps steps
  rw [same]
  exact { sound with }

theorem Engine.Ready.run (run : Run ports engine later) : later.Ready ports := by
  induction run with
  | refl => exact ready
  | called call _ ih => exact ih.call call

end

theorem ready_created : (Engine.created α).Ready ports where
  counted _ inside := absurd inside List.not_mem_nil
  ascending := List.Pairwise.nil
  minted _ inside := absurd inside List.not_mem_nil
  unique _ inside := absurd inside List.not_mem_nil
  offsets _ inside := absurd inside List.not_mem_nil
  epochs _ inside := absurd inside List.not_mem_nil
  positive _ inside := absurd inside List.not_mem_nil
  keyed _ inside := absurd inside List.not_mem_nil

/-- What later states know of the snapshots of a state: an old snapshot is frozen, and every other
cursor is drawn later. -/
structure Later (ports : Ports α) (engine : Engine α) (turn : ℕ) (later : Engine α) : Prop where
  admitted : engine.admitted ≤ later.admitted
  known : ∀ snapshot ∈ later.snapshots,
    (∃ before ∈ engine.snapshots, before.SameAs snapshot ∧ ∀ cursor ∈ snapshot.cursors,
      cursor ∈ before.cursors ∨ ∃ drawn ≥ turn, Minted ports drawn cursor.2) ∨
    engine.admitted < snapshot.serial ∧ ∀ cursor ∈ snapshot.cursors,
      ∃ drawn ≥ turn, Minted ports drawn cursor.2

theorem Later.refl (engine : Engine α) (turn : ℕ) : Later ports engine turn engine :=
  ⟨le_rfl, fun snapshot inside ↦ .inl ⟨snapshot, inside, rfl, fun _ held ↦ .inl held⟩⟩

theorem Later.small {turn now : ℕ} (known : Later ports engine turn later) (time : turn ≤ now)
    (step : Small ports now later after) : Later ports engine turn after := by
  cases step with
  | control closed now => exact { known with }
  | drop kept sublist =>
    exact ⟨known.admitted, fun snapshot inside ↦ known.known snapshot (sublist.subset inside)⟩
  | epoch active spares => exact { known with }
  | add snapshot serial empty epoch positive keyed =>
    refine ⟨Nat.le_succ_of_le known.admitted, ?_⟩
    intro other inside
    cases List.mem_append.mp inside with
    | inl old => exact known.known other old
    | inr new =>
      have same := List.mem_singleton.mp new
      right
      rw [same, serial]
      refine ⟨Nat.lt_succ_of_le known.admitted, fun cursor held ↦ ?_⟩
      rw [empty] at held
      cases held
  | grow snapshot inside offset token drawn free range =>
    refine ⟨known.admitted, ?_⟩
    intro other member
    cases mem_update member with
    | inr old => exact known.known other old
    | inl new =>
      have cursors {cursor : ℕ × List Char}
          (held : cursor ∈ snapshot.cursors ++ [(offset, token)]) :
          cursor ∈ snapshot.cursors ∨ ∃ drawn ≥ turn, Minted ports drawn cursor.2 := by
        refine (List.mem_append.mp held).imp id fun last ↦ ?_
        rw [List.mem_singleton.mp last]
        exact ⟨now, time, drawn⟩
      subst new
      cases known.known snapshot inside with
      | inl before =>
        obtain ⟨first, first_in, same, earlier⟩ := before
        refine .inl ⟨first, first_in, same.trans rfl, fun cursor held ↦ ?_⟩
        cases cursors held with
        | inl old => exact earlier cursor old
        | inr minted => exact .inr minted
      | inr newer =>
        refine .inr ⟨newer.1, fun cursor held ↦ ?_⟩
        cases cursors held with
        | inl old => exact newer.2 cursor old
        | inr minted => exact minted

theorem Later.steps {turn now : ℕ} (known : Later ports engine turn later) (time : turn ≤ now)
    (steps : ReflTransGen (Small ports now) later after) : Later ports engine turn after := by
  induction steps with
  | refl => exact known
  | tail _ step ih => exact ih.small time step

theorem Later.of_run (ready : engine.Ready ports) (run : Run ports engine later) :
    engine.turn ≤ later.turn ∧ Later ports engine engine.turn later := by
  induction run with
  | refl => exact ⟨le_rfl, .refl engine engine.turn⟩
  | @called between call before ih =>
    obtain ⟨after, steps, same⟩ := call_steps (ready.run before) call
    have known := ih.2.steps ih.1 steps
    rw [same]
    exact ⟨Nat.le_succ_of_le ih.1, ⟨known.admitted, known.known⟩⟩

theorem bound_later (ready : engine.Ready ports) (run : Run ports engine later)
    (inside : snapshot ∈ engine.snapshots) (issued : Issued ports snapshot offset token)
    {place : ℕ} (inside' : other ∈ later.snapshots) (issued' : Issued ports other place token) :
    snapshot.SameAs other ∧ place = offset := by
  have known := (Later.of_run ready run).2.known other inside'
  unfold Issued at issued issued'
  split at issued
  next resizable =>
    rw [if_pos resizable] at issued'
    obtain ⟨⟨_, _, named⟩, _⟩ := issued
    obtain ⟨⟨_, _, named'⟩, _⟩ := issued'
    obtain ⟨serial, offsets⟩ := resizedCursor_injective (named'.symm.trans named)
      (((ready.run run).keyed other inside').bound resizable)
      ((ready.keyed snapshot inside).bound resizable)
    refine ⟨?_, offsets⟩
    cases known with
    | inl old =>
      obtain ⟨before, before_in, same, _⟩ := old
      have serials : before.serial = snapshot.serial := by
        rw [same] at serial
        exact serial
      exact ready.same before_in inside serials ▸ same
    | inr newer =>
      have := ready.counted snapshot inside
      omega
  next fixed =>
    rw [if_neg fixed] at issued'
    -- The token was drawn before this state, so no later draw bears it.
    obtain ⟨drawn, before_turn, _, minted⟩ := ready.minted snapshot inside _ issued
    have early {turn : ℕ} (h : turn ≥ engine.turn) (again : Minted ports turn token) : False := by
      obtain ⟨_, same⟩ := again
      have := ports.entropy_injective same minted
      omega
    cases known with
    | inl old =>
      obtain ⟨before, before_in, same, cursors⟩ := old
      cases cursors _ issued' with
      | inl earlier =>
        obtain ⟨serial, cursor⟩ :=
          ready.unique before before_in snapshot inside _ earlier _ issued rfl
        exact ⟨ready.same before_in inside serial ▸ same, (Prod.mk.inj cursor).1⟩
      | inr fresh =>
        obtain ⟨_, time, again⟩ := fresh
        exact absurd (early time again) id
    | inr newer =>
      obtain ⟨_, time, again⟩ := newer.2 _ issued'
      exact absurd (early time again) id

end Runs

section Law

/-- Read on from a cursor to the last page, with any limits; any calls are made before each read. -/
inductive Reads (ports : Ports α) : Engine α → List Char → List α → Prop where
  | last {engine between : Engine α} {token : List Char} {clock : Option ℕ}
    {input : ReadContinuationInput} {page : ReadPage α} (run : Run ports engine between)
    (cursor : input.token = token)
    (read : (between.call ports (.continuePage clock input)).1 = some (.ok page))
    (ended : page.next = none) : Reads ports engine token page.items
  | more {engine between : Engine α} {token : List Char} {clock : Option ℕ}
    {input : ReadContinuationInput} {page : ReadPage α} {next : Continuation} {rest : List α}
    (run : Run ports engine between) (cursor : input.token = token)
    (read : (between.call ports (.continuePage clock input)).1 = some (.ok page))
    (goes : page.next = some next)
    (behind : Reads ports (between.call ports (.continuePage clock input)).2 next.cursor rest) :
    Reads ports engine token (page.items ++ rest)

theorem served_later (ready : engine.Ready ports) (run : Run ports engine later)
    (inside : snapshot ∈ engine.snapshots) (issued : Issued ports snapshot offset token)
    {clock : Option ℕ} {input : ReadContinuationInput} {page : ReadPage α}
    (cursor : input.token = token)
    (read : (later.call ports (.continuePage clock input)).1 = some (.ok page)) :
    ∃ value, clock = some value ∧ later.now value < snapshot.expiresAt ∧
      snapshot.authorizationView = input.authorizationView ∧
      snapshot.scopeEpoch = input.scopeEpoch ∧ snapshot.projection = input.projection ∧
      ∃ held grown, held ∈ later.snapshots ∧ snapshot.SameAs held ∧
        grown ∈ (later.call ports (.continuePage clock input)).2.snapshots ∧
        PageSpec ports held offset (input.limit.getD snapshot.limit) page grown := by
  have ready' := ready.run run
  have served := (continuePage_steps ready'.mono rfl).2 page (Option.some.inj read)
  obtain ⟨value, time, held, place, grown, tells⟩ := served
  obtain ⟨same, offsets⟩ := bound_later ready run inside issued tells.held (cursor ▸ tells.issued)
  have expires : held.expiresAt = snapshot.expiresAt := by rw [same]
  have view : held.authorizationView = snapshot.authorizationView := by rw [same]
  have epoch : held.scopeEpoch = snapshot.scopeEpoch := by rw [same]
  have projection : held.projection = snapshot.projection := by rw [same]
  have limit : held.limit = snapshot.limit := by rw [same]
  have spec := tells.spec
  rw [offsets, limit] at spec
  exact ⟨value, time, expires ▸ tells.early, view.symm.trans tells.view,
    epoch.symm.trans tells.epoch, projection.symm.trans tells.projection, held, grown, tells.held,
    same, tells.kept, spec⟩

theorem reads_items {rest : List α} (reads : Reads ports engine token rest) :
    ∀ {snapshot : Snapshot α} {offset : ℕ}, engine.Ready ports → snapshot ∈ engine.snapshots →
      Issued ports snapshot offset token → rest = snapshot.items.drop offset := by
  induction reads with
  | @last engine between token clock input page run cursor read ended =>
    intro snapshot offset ready inside issued
    obtain ⟨_, _, _, _, _, _, held, grown, _, same, _, spec⟩ :=
      served_later ready run inside issued cursor read
    have items : held.items = snapshot.items := by rw [same]
    have reaches := spec.last ended
    rw [spec.items, items] at reaches ⊢
    apply List.take_of_length_le
    rw [List.length_take, List.length_drop] at reaches
    rw [List.length_drop]
    omega
  | @more engine between token clock input page next rest run cursor read goes behind ih =>
    intro snapshot offset ready inside issued
    obtain ⟨_, _, _, _, _, _, held, grown, _, same, kept, spec⟩ :=
      served_later ready run inside issued cursor read
    have items : held.items = snapshot.items := by rw [same]
    have grown_items : grown.items = snapshot.items := by rw [spec.same, items]
    obtain ⟨_, next_issued⟩ := spec.more next goes
    have onward := ih ((ready.run run).call _) kept next_issued
    have first := spec.items
    rw [items] at first
    rw [onward, grown_items, ← List.drop_drop, first]
    have begins := List.take_prefix (input.limit.getD snapshot.limit) (snapshot.items.drop offset)
    exact (List.prefix_append_drop begins).symm

end Law

end Bdp.Pagination
