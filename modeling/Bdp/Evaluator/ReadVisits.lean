import Bdp.Evaluator.ReadChecks

/-!
# Visits end

A visit of a closure adds two Beads at most for each Link of a record that it visits for the first
time, so the bound that the evaluator and the read plane visit with is never reached. On a checked
graph the visit of a row ends with an answer.
-/

namespace Bdp.Evaluator

open UrlPath (Scope)

section Weights

variable {α : Type} {weight : α → ℕ} {keep fewer : α → Bool}

theorem sum_filter_le (hfewer : ∀ entry, fewer entry = true → keep entry = true) (entries : List α) :
    ((entries.filter fewer).map weight).sum ≤ ((entries.filter keep).map weight).sum := by
  apply List.Sublist.sum_le_sum
  · exact (List.monotone_filter_right entries hfewer).map weight
  · exact fun _ _ ↦ Nat.zero_le _

theorem sum_filter_add_le (hfewer : ∀ entry, fewer entry = true → keep entry = true)
    {entries : List α} {entry : α} (hmem : entry ∈ entries) (hkept : keep entry = true)
    (hgone : fewer entry = false) :
    ((entries.filter fewer).map weight).sum + weight entry ≤
      ((entries.filter keep).map weight).sum := by
  obtain ⟨before, after, rfl⟩ := List.append_of_mem hmem
  simp only [List.filter_append, List.filter_cons, hkept, hgone, if_true, List.map_append,
    List.map_cons, List.sum_append, List.sum_cons, Bool.false_eq_true, if_false]
  have hbefore : ((before.filter fewer).map weight).sum ≤ ((before.filter keep).map weight).sum :=
    sum_filter_le hfewer before
  have hafter : ((after.filter fewer).map weight).sum ≤ ((after.filter keep).map weight).sum :=
    sum_filter_le hfewer after
  omega

end Weights

section Visits

variable {options : ResourceEvaluationOptions} {tx : ResourceTransaction}

def HeldBy (tx : ResourceTransaction) (record : ResourceRecord) : Prop :=
  ∃ row ∈ tx.rows, row.body = record

variable {row : StoredResource}

theorem mem_rows_of_resource {id : String} (h : tx.resource id = some row) : row ∈ tx.rows := by
  apply List.mem_map_of_mem (f := Prod.snd) (a := (id, row))
  exact Table.mem_toList.mpr h

variable {found : List ResourceRecord}

theorem endpointBead_held {reference : Transaction.Reference}
    (h : endpointBead options tx reference = .ok (some found)) :
    found.length ≤ 1 ∧ ∀ record ∈ found, HeldBy tx record := by
  unfold endpointBead at h
  split at h
  next hpath =>
    obtain rfl : [] = found := Option.some.inj (Except.ok.inj h)
    exact ⟨Nat.zero_le _, fun _ hmem ↦ nomatch hmem⟩
  next id hpath =>
    split at h
    next hnone => exact nomatch Except.ok.inj h
    next row hrow =>
      cases hrecord : storedRecord options row with
      | error stop =>
        rw [hrecord] at h
        cases h
      | ok record =>
        rw [hrecord] at h
        obtain rfl : [record] = found := Option.some.inj (Except.ok.inj h)
        have hbody := (storedRecord_eq_ok.mp hrecord).1
        refine ⟨le_refl 1, fun other hother ↦ ?_⟩
        rw [List.mem_singleton.mp hother, hbody]
        exact ⟨row, mem_rows_of_resource (Option.filter_eq_some_iff.mp hrow).1, rfl⟩

theorem linkedBeads_held {links : List LinkRecord}
    (h : linkedBeads options tx links = .ok (some found)) :
    found.length ≤ 2 * links.length ∧ ∀ record ∈ found, HeldBy tx record := by
  induction links generalizing found with
  | nil =>
    obtain rfl : [] = found := Option.some.inj (Except.ok.inj h)
    exact ⟨Nat.zero_le _, fun _ hmem ↦ absurd hmem List.not_mem_nil⟩
  | cons link links ih =>
    unfold linkedBeads at h
    split at h
    next hread => cases h
    next hread =>
      obtain ⟨source, hsource, h⟩ := Except.bind_eq_ok.mp h
      cases source with
      | none => cases h
      | some source =>
        obtain ⟨target, htarget, h⟩ := Except.bind_eq_ok.mp h
        cases target with
        | none => cases h
        | some target =>
          obtain ⟨more, hmore, h⟩ := Except.bind_eq_ok.mp h
          cases more with
          | none => cases h
          | some more =>
            obtain rfl : source ++ target ++ more = found := Option.some.inj (Except.ok.inj h)
            obtain ⟨hsourceLength, hsourceHeld⟩ := endpointBead_held hsource
            obtain ⟨htargetLength, htargetHeld⟩ := endpointBead_held htarget
            obtain ⟨hmoreLength, hmoreHeld⟩ := ih hmore
            constructor
            · rw [List.length_append, List.length_append, List.length_cons]
              omega
            · intro record hrecord
              rw [List.mem_append, List.mem_append] at hrecord
              obtain (hrecord | hrecord) | hrecord := hrecord
              · exact hsourceHeld record hrecord
              · exact htargetHeld record hrecord
              · exact hmoreHeld record hrecord

/-- What the rows that are not visited yet may still add. -/
def unvisited (tx : ResourceTransaction) (seen : List String) : ℕ :=
  ((tx.rows.filter fun row ↦ !seen.contains row.body.id).map fun row ↦ 2 * row.body.links.length).sum

theorem unvisited_nil (tx : ResourceTransaction) :
    unvisited tx [] = (tx.rows.map fun row ↦ 2 * row.body.links.length).sum := by
  simp [unvisited]

variable {seen : List String}

theorem unvisited_cons {record : ResourceRecord} (hheld : HeldBy tx record)
    (hnew : seen.contains record.id = false) :
    unvisited tx (record.id :: seen) + 2 * record.links.length ≤ unvisited tx seen := by
  obtain ⟨row, hrow, rfl⟩ := hheld
  unfold unvisited
  apply sum_filter_add_le ?_ hrow
  · rw [hnew]
    rfl
  · simp
  · intro other hother
    simp only [List.contains_cons, Bool.not_or, Bool.and_eq_true] at hother
    exact hother.2

variable {config : GraphConfiguration} {plane : ReadPlane} {graph : Graph} {context : MemberContext}

theorem Graph.Checked.visit_ok (h : graph.Checked config plane) {fuel : ℕ}
    {pending : List ResourceRecord}
    (hpending : ∀ record ∈ pending, HeldBy (graph.view config context) record)
    (hfuel : pending.length + unvisited (graph.view config context) seen < fuel) :
    ∃ visible, visitPending (context.options config) (graph.view config context) fuel seen pending =
      .ok visible := by
  induction fuel generalizing seen pending with
  | zero => omega
  | succ fuel ih =>
    cases pending with
    | nil => exact ⟨true, rfl⟩
    | cons current pending =>
      rw [List.length_cons] at hfuel
      have hrest : ∀ record ∈ pending, HeldBy (graph.view config context) record :=
        fun record hrecord ↦ hpending record (List.mem_cons_of_mem _ hrecord)
      unfold visitPending
      by_cases hseen : seen.contains current.id = true
      · rw [if_pos hseen]
        apply ih hrest
        omega
      · rw [if_neg hseen]
        by_cases hread : (context.options config).policy.canRead current = false
        · exact ⟨false, if_pos hread⟩
        · rw [if_neg hread]
          obtain ⟨found, hfound, -⟩ := h.beads_agree context current.links
          rw [hfound, Except.ok_bind]
          cases found with
          | none => exact ⟨false, rfl⟩
          | some found =>
            obtain ⟨hlength, hheld⟩ := linkedBeads_held hfound
            have hcurrent : HeldBy (graph.view config context) current :=
              hpending current List.mem_cons_self
            have hused : unvisited (graph.view config context) (current.id :: seen) +
                2 * current.links.length ≤ unvisited (graph.view config context) seen :=
              unvisited_cons hcurrent (Bool.eq_false_of_not_eq_true hseen)
            apply ih
            · intro record hrecord
              rw [List.mem_append, List.mem_reverse] at hrecord
              exact hrecord.elim (hheld record) (hrest record)
            · rw [List.length_append, List.length_reverse]
              omega

theorem Graph.Checked.visible_ok (h : graph.Checked config plane) (context : MemberContext)
    {key : String} (hrow : graph.resources[key]? = some row) :
    ∃ visible,
      isResourceVisible (context.options config) (graph.view config context) row.body = .ok visible ∧
      graphVisible plane (context.options config) (graph.view config context) row.body =
        .ok visible := by
  have hfound : (graph.view config context).resource key = some row := hrow
  have hheld : HeldBy (graph.view config context) row.body :=
    ⟨row, mem_rows_of_resource hfound, rfl⟩
  have hvisit : ∃ visible, isResourceVisible (context.options config) (graph.view config context)
      row.body = .ok visible := by
    apply h.visit_ok
    · intro record hrecord
      rwa [List.mem_singleton.mp hrecord]
    · rw [unvisited_nil, closureBound, List.length_singleton]
      omega
  obtain ⟨visible, hvisible⟩ := hvisit
  exact ⟨visible, hvisible, h.graphVisible_ok hrow hvisible⟩

end Visits

end Bdp.Evaluator
