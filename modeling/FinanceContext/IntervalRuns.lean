import Mathlib.Algebra.BigOperators.Group.List.Basic
import Mathlib.Algebra.GroupWithZero.Nat
import Mathlib.Data.List.Sort
import Mathlib.Order.Lattice

namespace FinanceContext.IntervalRuns

abbrev Run := ℕ × ℕ

def Covers (runs : List Run) (x : ℕ) : Prop := ∃ run ∈ runs, run.1 ≤ x ∧ x ≤ run.2

def Proper (runs : List Run) : Prop := ∀ run ∈ runs, run.1 ≤ run.2

/-- Runs in ascending order with a gap between any two. -/
def Separated (runs : List Run) : Prop := Proper runs ∧ runs.Pairwise fun a b => a.2 + 1 < b.1

def runLe (a b : Run) : Bool := a.1 < b.1 || (a.1 = b.1 && a.2 ≤ b.2)

def mergeInto (last : Run) : List Run → List Run
  | [] => [last]
  | run :: runs =>
    if run.1 ≤ last.2 + 1 then mergeInto (last.1, max last.2 run.2) runs
    else last :: mergeInto run runs

def mergeRuns (runs : List Run) : List Run :=
  match runs.mergeSort runLe with
  | [] => []
  | run :: runs => mergeInto run runs

section Merging

@[simp] theorem mergeRuns_nil : mergeRuns [] = [] := by simp [mergeRuns]

theorem covers_cons {run : Run} {runs : List Run} {x : ℕ} :
    Covers (run :: runs) x ↔ run.1 ≤ x ∧ x ≤ run.2 ∨ Covers runs x := by
  simp [Covers]

theorem covers_append {runs runs' : List Run} {x : ℕ} :
    Covers (runs ++ runs') x ↔ Covers runs x ∨ Covers runs' x := by
  simp [Covers, or_and_right, exists_or]

theorem Proper.cons {run : Run} {runs : List Run} (h : Proper (run :: runs)) :
    run.1 ≤ run.2 ∧ Proper runs :=
  List.forall_mem_cons.mp h

theorem covers_mergeInto {runs : List Run} {last : Run} (hlast : last.1 ≤ last.2)
    (hproper : Proper runs) (hsorted : (last :: runs).Pairwise fun a b => a.1 ≤ b.1) (x : ℕ) :
    Covers (mergeInto last runs) x ↔ Covers (last :: runs) x := by
  induction runs generalizing last with
  | nil => rfl
  | cons run runs ih =>
    obtain ⟨hrun, hproper⟩ := hproper.cons
    obtain ⟨hstarts, hsorted⟩ := List.pairwise_cons.mp hsorted
    have hstart := hstarts run List.mem_cons_self
    simp only [mergeInto]
    split_ifs with hnear
    · have hopen : last.1 ≤ max last.2 run.2 := hlast.trans (le_max_left _ _)
      have hnext : ((last.1, max last.2 run.2) :: runs).Pairwise fun a b => a.1 ≤ b.1 := by
        refine List.pairwise_cons.mpr ⟨?_, (List.pairwise_cons.mp hsorted).2⟩
        exact fun b hb => hstarts b (List.mem_cons_of_mem run hb)
      rw [ih hopen hproper hnext, covers_cons, covers_cons, covers_cons]
      have hjoined : (last.1 ≤ x ∧ x ≤ max last.2 run.2) ↔
          (last.1 ≤ x ∧ x ≤ last.2) ∨ run.1 ≤ x ∧ x ≤ run.2 := by omega
      rw [hjoined, or_assoc]
    · rw [covers_cons, ih hrun hproper hsorted, ← covers_cons]

theorem start_le_of_mem_mergeInto {runs : List Run} {last : Run} {bound : ℕ}
    (hlast : bound ≤ last.1) (hruns : ∀ run ∈ runs, bound ≤ run.1) :
    ∀ run ∈ mergeInto last runs, bound ≤ run.1 := by
  induction runs generalizing last with
  | nil => simpa [mergeInto] using hlast
  | cons run runs ih =>
    obtain ⟨hrun, hruns⟩ := List.forall_mem_cons.mp hruns
    simp only [mergeInto]
    split_ifs with hnear
    · exact ih hlast hruns
    · exact List.forall_mem_cons.mpr ⟨hlast, ih hrun hruns⟩

theorem separated_mergeInto {runs : List Run} {last : Run} (hlast : last.1 ≤ last.2)
    (hproper : Proper runs) (hsorted : (last :: runs).Pairwise fun a b => a.1 ≤ b.1) :
    Separated (mergeInto last runs) := by
  induction runs generalizing last with
  | nil => exact ⟨List.forall_mem_singleton.mpr hlast, List.pairwise_singleton _ _⟩
  | cons run runs ih =>
    obtain ⟨hrun, hproper⟩ := hproper.cons
    obtain ⟨hstarts, hsorted⟩ := List.pairwise_cons.mp hsorted
    simp only [mergeInto]
    split_ifs with hnear
    · have hopen : last.1 ≤ max last.2 run.2 := hlast.trans (le_max_left _ _)
      have hnext : ((last.1, max last.2 run.2) :: runs).Pairwise fun a b => a.1 ≤ b.1 := by
        refine List.pairwise_cons.mpr ⟨?_, (List.pairwise_cons.mp hsorted).2⟩
        exact fun b hb => hstarts b (List.mem_cons_of_mem run hb)
      exact ih hopen hproper hnext
    · obtain ⟨hproper', hapart⟩ := ih hrun hproper hsorted
      refine ⟨List.forall_mem_cons.mpr ⟨hlast, hproper'⟩, List.pairwise_cons.mpr ⟨?_, hapart⟩⟩
      intro b hb
      have hb' := start_le_of_mem_mergeInto le_rfl (List.pairwise_cons.mp hsorted).1 b hb
      omega

theorem pairwise_mergeSort_runLe (runs : List Run) :
    (runs.mergeSort runLe).Pairwise fun a b => a.1 ≤ b.1 := by
  have h : (runs.mergeSort runLe).Pairwise fun a b => runLe a b = true := by
    apply List.pairwise_mergeSort
    · intro a b c
      simp only [runLe, Bool.or_eq_true, Bool.and_eq_true, decide_eq_true_eq]
      omega
    · intro a b
      simp only [runLe, Bool.or_eq_true, Bool.and_eq_true, decide_eq_true_eq]
      omega
  apply h.imp
  intro a b hab
  simp only [runLe, Bool.or_eq_true, Bool.and_eq_true, decide_eq_true_eq] at hab
  omega

theorem mergeRuns_spec {runs : List Run} (hproper : Proper runs) :
    Separated (mergeRuns runs) ∧ ∀ x, Covers (mergeRuns runs) x ↔ Covers runs x := by
  have hsorted := pairwise_mergeSort_runLe runs
  have hproper' : Proper (runs.mergeSort runLe) :=
    fun run hrun => hproper run (List.mem_mergeSort.mp hrun)
  have hcovers (x : ℕ) : Covers (runs.mergeSort runLe) x ↔ Covers runs x := by
    simp only [Covers, List.mem_mergeSort]
  unfold mergeRuns
  generalize runs.mergeSort runLe = sorted at hsorted hproper' hcovers
  cases sorted with
  | nil => exact ⟨⟨List.forall_mem_nil _, .nil⟩, hcovers⟩
  | cons run rest =>
    obtain ⟨hrun, hrest⟩ := hproper'.cons
    refine ⟨separated_mergeInto hrun hrest hsorted, fun x => ?_⟩
    exact (covers_mergeInto hrun hrest hsorted x).trans (hcovers x)

end Merging

theorem mergeInto_ne_nil (last : Run) (runs : List Run) : mergeInto last runs ≠ [] := by
  induction runs generalizing last with
  | nil => exact List.cons_ne_nil _ _
  | cons run runs ih =>
    simp only [mergeInto]
    split_ifs
    · exact ih _
    · exact List.cons_ne_nil _ _

theorem mergeRuns_ne_nil {runs : List Run} (h : runs ≠ []) : mergeRuns runs ≠ [] := by
  unfold mergeRuns
  cases hsorted : runs.mergeSort runLe with
  | nil =>
    have hlength := congrArg List.length hsorted
    rw [List.length_mergeSort] at hlength
    exact absurd (List.length_eq_zero_iff.mp hlength) h
  | cons run rest => exact mergeInto_ne_nil run rest

section Numbers

def numbers (runs : List Run) : List ℕ :=
  runs.flatMap fun run => List.range' run.1 (run.2 + 1 - run.1)

theorem mem_numbers {runs : List Run} {x : ℕ} : x ∈ numbers runs ↔ Covers runs x := by
  simp only [numbers, List.mem_flatMap, List.mem_range'_1, Covers]
  constructor
  · rintro ⟨run, hrun, h⟩
    exact ⟨run, hrun, by omega, by omega⟩
  · rintro ⟨run, hrun, h⟩
    exact ⟨run, hrun, by omega, by omega⟩

theorem length_numbers {runs : List Run} (h : Proper runs) :
    (numbers runs).length = (runs.map fun run => run.2 - run.1 + 1).sum := by
  unfold numbers
  rw [List.length_flatMap]
  congr 1
  apply List.map_congr_left
  intro run hrun
  have := h run hrun
  rw [List.length_range']
  omega

end Numbers

section Lookups

/-- One number, looked up by the start of its run: `bisect_right` counts the starts up to it. -/
def runsHave (runs : List Run) (x : ℕ) : Bool :=
  match runs.countP (·.1 ≤ x) with
  | 0 => false
  | index + 1 => (runs[index]?).any fun run => run.1 ≤ x && x ≤ run.2

def rowsWithin (runs : List Run) (lo hi : ℕ) : List ℕ :=
  runs.flatMap fun run => List.range' (max run.1 lo) (min run.2 hi + 1 - max run.1 lo)

def overlap : List Run → ℕ → ℕ → ℤ
  | [], _, _ => 0
  | run :: runs, lo, hi =>
    if run.2 < lo then overlap runs lo hi
    else if hi < run.1 then 0
    else ((min run.2 hi : ℕ) : ℤ) - (max run.1 lo : ℕ) + 1 + overlap runs lo hi

def firstWithin : List Run → ℕ → ℕ → Option ℕ
  | [], _, _ => none
  | run :: runs, lo, hi =>
    if run.2 < lo then firstWithin runs lo hi
    else if hi < run.1 then none
    else some (max run.1 lo)

theorem Separated.cons {run : Run} {runs : List Run} (h : Separated (run :: runs)) :
    run.1 ≤ run.2 ∧ (∀ b ∈ runs, run.2 + 1 < b.1) ∧ Separated runs := by
  obtain ⟨hproper, hapart⟩ := h
  obtain ⟨hgap, hapart⟩ := List.pairwise_cons.mp hapart
  exact ⟨hproper.cons.1, hgap, hproper.cons.2, hapart⟩

theorem not_covers_of_lt {runs : List Run} {x : ℕ} (h : ∀ run ∈ runs, x < run.1) :
    ¬Covers runs x := by
  rintro ⟨run, hrun, hle, -⟩
  have := h run hrun
  omega

theorem runsHave_iff {runs : List Run} (h : Separated runs) (x : ℕ) :
    runsHave runs x = true ↔ Covers runs x := by
  induction runs with
  | nil => simp [runsHave, Covers]
  | cons run runs ih =>
    obtain ⟨hrun, hgap, hrest⟩ := h.cons
    by_cases hstart : run.1 ≤ x
    · have hcount : (run :: runs).countP (·.1 ≤ x) = runs.countP (·.1 ≤ x) + 1 := by
        rw [List.countP_cons_of_pos (by simpa using hstart)]
      cases hnext : runs.countP (·.1 ≤ x) with
      | zero =>
        have hlater : ¬Covers runs x := by
          apply not_covers_of_lt
          intro b hb
          have hnot := List.countP_eq_zero.mp hnext b hb
          simpa using hnot
        rw [covers_cons, or_iff_left hlater]
        simp [runsHave, hcount, hnext, hstart]
      | succ index =>
        have hbeyond : ¬(run.1 ≤ x ∧ x ≤ run.2) := by
          have hsome : 0 < runs.countP (·.1 ≤ x) := by omega
          obtain ⟨b, hb, hbx⟩ := List.countP_pos_iff.mp hsome
          have hlt := hgap b hb
          have hle : b.1 ≤ x := of_decide_eq_true hbx
          omega
        rw [covers_cons, or_iff_right hbeyond, ← ih hrest]
        simp [runsHave, hcount, hnext]
    · have hnone : ∀ b ∈ run :: runs, x < b.1 := by
        refine List.forall_mem_cons.mpr ⟨by omega, fun b hb => ?_⟩
        have := hgap b hb
        omega
      have hcount : (run :: runs).countP (·.1 ≤ x) = 0 := by
        apply List.countP_eq_zero.mpr
        intro b hb
        have := hnone b hb
        simpa using this
      have hfalse : runsHave (run :: runs) x = false := by simp [runsHave, hcount]
      rw [hfalse]
      exact iff_of_false Bool.false_ne_true (not_covers_of_lt hnone)

theorem mem_rowsWithin {runs : List Run} {lo hi x : ℕ} :
    x ∈ rowsWithin runs lo hi ↔ Covers runs x ∧ lo ≤ x ∧ x ≤ hi := by
  simp only [rowsWithin, List.mem_flatMap, List.mem_range'_1, Covers]
  constructor
  · rintro ⟨run, hrun, h⟩
    exact ⟨⟨run, hrun, by omega, by omega⟩, by omega, by omega⟩
  · rintro ⟨⟨run, hrun, h⟩, hbounds⟩
    exact ⟨run, hrun, by omega, by omega⟩

theorem rowsWithin_of_lt {runs : List Run} {lo hi : ℕ} (h : ∀ run ∈ runs, hi < run.1) :
    rowsWithin runs lo hi = [] := by
  apply List.eq_nil_iff_forall_not_mem.mpr
  intro x hx
  obtain ⟨⟨run, hrun, hle, -⟩, -, hhi⟩ := mem_rowsWithin.mp hx
  have := h run hrun
  omega

theorem length_rowsWithin {runs : List Run} (h : Separated runs) {lo hi : ℕ} (hlo : lo ≤ hi) :
    ((rowsWithin runs lo hi).length : ℤ) = overlap runs lo hi := by
  induction runs with
  | nil => rfl
  | cons run runs ih =>
    obtain ⟨hrun, hgap, hrest⟩ := h.cons
    have hlength : (rowsWithin (run :: runs) lo hi).length =
        (min run.2 hi + 1 - max run.1 lo) + (rowsWithin runs lo hi).length := by
      simp [rowsWithin]
    rw [hlength, overlap, ← ih hrest]
    split_ifs with hbefore hafter
    · omega
    · have hnone : rowsWithin runs lo hi = [] := rowsWithin_of_lt fun b hb => by
        have := hgap b hb
        omega
      rw [hnone, List.length_nil]
      omega
    · omega

theorem head?_rowsWithin {runs : List Run} (h : Separated runs) {lo hi : ℕ} (hlo : lo ≤ hi) :
    (rowsWithin runs lo hi).head? = firstWithin runs lo hi := by
  induction runs with
  | nil => rfl
  | cons run runs ih =>
    obtain ⟨hrun, hgap, hrest⟩ := h.cons
    have hsplit : rowsWithin (run :: runs) lo hi =
        List.range' (max run.1 lo) (min run.2 hi + 1 - max run.1 lo) ++ rowsWithin runs lo hi := by
      simp [rowsWithin]
    rw [hsplit, firstWithin]
    split_ifs with hbefore hafter
    · have hzero : min run.2 hi + 1 - max run.1 lo = 0 := by omega
      rw [hzero, List.range'_zero, List.nil_append, ih hrest]
    · have hzero : min run.2 hi + 1 - max run.1 lo = 0 := by omega
      have hnone : rowsWithin runs lo hi = [] := rowsWithin_of_lt fun b hb => by
        have := hgap b hb
        omega
      rw [hzero, hnone]
      rfl
    · obtain ⟨n, hn⟩ : ∃ n, min run.2 hi + 1 - max run.1 lo = n + 1 :=
        ⟨min run.2 hi - max run.1 lo, by omega⟩
      rw [hn, List.range'_succ]
      rfl

theorem pairwise_rowsWithin {runs : List Run} (h : Separated runs) (lo hi : ℕ) :
    (rowsWithin runs lo hi).Pairwise (· < ·) := by
  induction runs with
  | nil => exact .nil
  | cons run runs ih =>
    obtain ⟨hrun, hgap, hrest⟩ := h.cons
    have hsplit : rowsWithin (run :: runs) lo hi =
        List.range' (max run.1 lo) (min run.2 hi + 1 - max run.1 lo) ++ rowsWithin runs lo hi := by
      simp [rowsWithin]
    rw [hsplit]
    refine List.pairwise_append.mpr ⟨List.pairwise_lt_range', ih hrest, ?_⟩
    intro a ha b hb
    obtain ⟨⟨later, hlater, hle, -⟩, -, -⟩ := mem_rowsWithin.mp hb
    have hgap' := hgap later hlater
    have ha' := List.mem_range'_1.mp ha
    omega

theorem nodup_numbers {runs : List Run} (h : Separated runs) : (numbers runs).Nodup := by
  induction runs with
  | nil => exact .nil
  | cons run runs ih =>
    obtain ⟨hrun, hgap, hrest⟩ := h.cons
    have hsplit : numbers (run :: runs) =
        List.range' run.1 (run.2 + 1 - run.1) ++ numbers runs := by simp [numbers]
    rw [hsplit]
    refine List.nodup_append.mpr ⟨List.nodup_range', ih hrest, ?_⟩
    intro a ha b hb
    obtain ⟨later, hlater, hle, -⟩ := mem_numbers.mp hb
    have hgap' := hgap later hlater
    have ha' := List.mem_range'_1.mp ha
    omega

end Lookups

end FinanceContext.IntervalRuns
