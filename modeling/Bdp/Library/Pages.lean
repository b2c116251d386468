import Mathlib.Data.List.Pairwise
import Mathlib.Order.Nat

/-!
# Pages of an ascending log

A log whose entries ascend in a key, read by pages. A window holds the kept entries whose keys lie
above one position and not above another; windows that meet at a position join to one window, and
a page that is cut after a number of entries is itself a window, up to the position it has scanned.
-/

namespace Bdp

variable {α : Type} {key : α → ℕ} {keep : α → Bool} {log more : List α} {after middle through : ℕ}

/-- The kept entries above one position and not above another. -/
def window (key : α → ℕ) (keep : α → Bool) (after through : ℕ) (log : List α) : List α :=
  log.filter fun entry ↦
    decide (after < key entry) && decide (key entry ≤ through) && keep entry

theorem mem_window {entry : α} : entry ∈ window key keep after through log ↔
    entry ∈ log ∧ after < key entry ∧ key entry ≤ through ∧ keep entry = true := by
  simp [window, and_assoc]

theorem window_ascending (h : log.Pairwise fun left right ↦ key left < key right) :
    (window key keep after through log).Pairwise fun left right ↦ key left < key right :=
  h.filter _

/-- Entries above the window may be appended to the log. -/
theorem window_append_of_lt (h : ∀ entry ∈ more, through < key entry) :
    window key keep after through (log ++ more) = window key keep after through log := by
  have hnone : window key keep after through more = [] := by
    rw [List.eq_nil_iff_forall_not_mem]
    intro entry hentry
    have hmem := mem_window.mp hentry
    have hlt := h entry hmem.1
    omega
  unfold window at hnone ⊢
  rw [List.filter_append, hnone, List.append_nil]

theorem window_congr {keep' : α → Bool} (h : ∀ entry ∈ log, keep entry = keep' entry) :
    window key keep after through log = window key keep' after through log := by
  refine List.filter_congr fun entry hentry ↦ ?_
  rw [h entry hentry]

/-- Nothing lies in a window of no width. -/
theorem window_self : window key keep after after log = [] := by
  rw [List.eq_nil_iff_forall_not_mem]
  intro entry hentry
  have hmem := mem_window.mp hentry
  omega

/-- Windows that meet at a position join. -/
theorem window_join (h : log.Pairwise fun left right ↦ key left < key right)
    (hfirst : after ≤ middle) (hsecond : middle ≤ through) :
    window key keep after middle log ++ window key keep middle through log =
      window key keep after through log := by
  induction log with
  | nil => rfl
  | cons entry log ih =>
    have hrest := List.pairwise_cons.mp h
    have htail := ih hrest.2
    by_cases hbelow : key entry ≤ middle
    · have hskip : window key keep middle through (entry :: log) =
          window key keep middle through log := by
        simp [window, Nat.not_lt.mpr hbelow]
      have hkeys : decide (key entry ≤ through) = true := decide_eq_true (hbelow.trans hsecond)
      have hmiddle : decide (key entry ≤ middle) = true := decide_eq_true hbelow
      rw [hskip]
      unfold window at htail ⊢
      rw [List.filter_cons, List.filter_cons, hkeys, hmiddle]
      split
      · rw [List.cons_append, htail]
      · exact htail
    · have hempty : window key keep after middle (entry :: log) = [] := by
        rw [List.eq_nil_iff_forall_not_mem]
        intro other hother
        have hmem := mem_window.mp hother
        rcases List.mem_cons.mp hmem.1 with rfl | hlog
        · omega
        · have hlt := hrest.1 other hlog
          omega
      rw [hempty, List.nil_append]
      refine List.filter_congr fun other hother ↦ ?_
      have hlt : middle < key other := by
        rcases List.mem_cons.mp hother with rfl | hlog
        · omega
        · have hlt := hrest.1 other hlog
          omega
      rw [decide_eq_true hlt, decide_eq_true (Nat.lt_of_le_of_lt hfirst hlt)]

/-- In an ascending list, the first entries are those up to the last one of them. -/
theorem take_eq_filter {rows : List α} (h : rows.Pairwise fun left right ↦ key left < key right)
    {count : ℕ} {last : α} (hlast : (rows.take count).getLast? = some last) :
    rows.take count = rows.filter fun row ↦ decide (key row ≤ key last) := by
  have hsplit : rows = rows.take count ++ rows.drop count := (List.take_append_drop count rows).symm
  have hpair := h
  rw [hsplit, List.pairwise_append] at hpair
  have hmem := List.mem_of_getLast? hlast
  obtain ⟨first, hfirst⟩ := List.getLast?_eq_some_iff.mp hlast
  have hall : ∀ row ∈ rows.take count, decide (key row ≤ key last) = true := by
    intro row hrow
    rw [hfirst] at hrow
    rcases List.mem_append.mp hrow with hrow | hrow
    · have hpairs := hpair.1
      rw [hfirst, List.pairwise_append] at hpairs
      exact decide_eq_true (Nat.le_of_lt (hpairs.2.2 row hrow last List.mem_cons_self))
    · rw [List.mem_singleton.mp hrow]
      exact decide_eq_true le_rfl
  have hnone : ∀ row ∈ rows.drop count, ¬ decide (key row ≤ key last) = true := by
    intro row hrow
    have hlt := hpair.2.2 last hmem row hrow
    simpa using hlt
  calc rows.take count
      = (rows.take count).filter (fun row ↦ decide (key row ≤ key last)) ++
          (rows.drop count).filter (fun row ↦ decide (key row ≤ key last)) := by
        rw [List.filter_eq_self.mpr hall, List.filter_eq_nil_iff.mpr hnone, List.append_nil]
    _ = rows.filter fun row ↦ decide (key row ≤ key last) := by
        rw [← List.filter_append, ← hsplit]

/-- How far a page has scanned its window: to its last entry when it was cut, else to the end. -/
def pageEnd (key : α → ℕ) (rows : List α) (limit through : ℕ) : ℕ :=
  if limit < rows.length then ((rows.take limit).getLast?.map key).getD 0 else through

/-- A page cut from a window is the window up to the position it has scanned. -/
theorem page_eq_window (h : log.Pairwise fun left right ↦ key left < key right)
    {limit : ℕ} (hlimit : 0 < limit) (hwindow : after ≤ through) {rows : List α}
    (hrows : rows = (window key keep after through log).take (limit + 1)) :
    rows.take limit = window key keep after (pageEnd key rows limit through) log ∧
      after ≤ pageEnd key rows limit through ∧ pageEnd key rows limit through ≤ through := by
  have htake : rows.take limit = (window key keep after through log).take limit := by
    rw [hrows, List.take_take, Nat.min_eq_left (Nat.le_succ limit)]
  unfold pageEnd
  split
  · next hmore =>
    have hlength : (rows.take limit).length = limit := by
      rw [List.length_take, Nat.min_eq_left (Nat.le_of_lt hmore)]
    obtain ⟨last, hlast⟩ : ∃ last, (rows.take limit).getLast? = some last := by
      refine ⟨(rows.take limit).getLast (List.ne_nil_of_length_pos (by omega)), ?_⟩
      exact List.getLast?_eq_some_getLast _
    have hmem : last ∈ window key keep after through log := by
      have hmem := List.mem_of_getLast? hlast
      rw [htake] at hmem
      exact List.mem_of_mem_take hmem
    have hbounds := (mem_window.mp hmem).2
    rw [hlast, Option.map_some, Option.getD_some]
    refine ⟨?_, by omega, hbounds.2.1⟩
    rw [htake] at hlast
    rw [htake, take_eq_filter (window_ascending h) hlast]
    unfold window
    rw [List.filter_filter]
    refine List.filter_congr fun row _ ↦ ?_
    by_cases hle : key row ≤ key last
    · rw [decide_eq_true hle, decide_eq_true (hle.trans hbounds.2.1), Bool.true_and]
    · rw [decide_eq_false hle, Bool.and_false, Bool.false_and, Bool.false_and]
  · next hmore =>
    refine ⟨?_, hwindow, le_rfl⟩
    have hshort : (window key keep after through log).length ≤ limit := by
      rw [hrows, List.length_take] at hmore
      omega
    rw [htake, List.take_of_length_le hshort]

end Bdp
