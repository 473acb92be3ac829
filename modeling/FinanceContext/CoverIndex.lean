import FinanceContext.RangeHops
import FinanceContext.SegmentTrees

namespace FinanceContext

open Csr Dictionaries SegmentTrees

/-- `_Intervals`: row intervals with payloads, by start. -/
structure Intervals (α : Type) where
  starts : List ℕ
  ends : List ℕ
  payloads : List α
  size : ℕ
  tree : List ℤ

namespace Intervals

variable {α : Type}

def create (items : List (ℕ × ℕ × α)) : Intervals α :=
  let items := items.mergeSort fun a b => a.1 ≤ b.1
  let ends := items.map (·.2.1)
  let size := grow (max 1 items.length) (max 1 items.length) 1
  { starts := items.map Prod.fst
    ends := ends
    payloads := items.map (·.2.2)
    size := size
    tree := build size ends }

def covering (s : Intervals α) (row : ℕ) : List α :=
  let limit := bisectRight s.starts row
  if limit = 0 then []
  else (stab s.tree limit row s.size 1 0 (s.size - 1)).filterMap (s.payloads[·]?)

theorem filterMap_range_getElem? {β : Type} {l : List α} {p : ℕ → Bool} {q : α → Bool}
    (f : α → β) (h : ∀ i, (hi : i < l.length) → p i = q l[i]) :
    ((List.range l.length).filter p).filterMap ((l.map f)[·]?) = (l.filter q).map f := by
  induction l generalizing p with
  | nil => rfl
  | cons a l ih =>
    have hlater : ∀ i, (hi : i < l.length) → (p ∘ Nat.succ) i = q l[i] :=
      fun i hi => h (i + 1) (by simpa using hi)
    have hfirst : p 0 = q a := h 0 (by simp)
    have hshift : (((List.range l.length).filter (p ∘ Nat.succ)).map Nat.succ).filterMap
        (((a :: l).map f)[·]?) = (l.filter q).map f := by
      rw [List.filterMap_map, ← ih hlater]
      rfl
    rw [List.length_cons, List.range_succ_eq_map, List.filter_cons, List.filter_cons, hfirst,
      List.filter_map]
    cases hq : q a with
    | true => simpa using hshift
    | false => simpa using hshift

theorem lt_bisectRight_iff_of_sorted {l : List ℕ} (hl : l.Pairwise (· ≤ ·)) {x i : ℕ}
    (hi : i < l.length) : i < bisectRight l x ↔ l[i] ≤ x := by
  unfold bisectRight
  induction l generalizing i with
  | nil => simp at hi
  | cons a l ih =>
    obtain ⟨ha, hl⟩ := List.pairwise_cons.mp hl
    by_cases hax : a ≤ x
    · rw [List.countP_cons_of_pos (by simpa using hax)]
      cases i with
      | zero => simpa using hax
      | succ i =>
        have hlt : i < l.length := by simpa using hi
        rw [List.getElem_cons_succ, ← ih hl hlt]
        omega
    · have hnone : ∀ b ∈ l, ¬b ≤ x := fun b hb => by
        have := ha b hb
        omega
      have hcount : l.countP (· ≤ x) = 0 := List.countP_eq_zero.mpr (by simpa using hnone)
      rw [List.countP_cons_of_neg (by simpa using hax), hcount]
      cases i with
      | zero => simpa using hax
      | succ i =>
        have hlt : i < l.length := by simpa using hi
        simpa using hnone _ (List.getElem_mem hlt)

theorem isHeap_build {size : ℕ} {values : List ℕ} (hsize : 1 ≤ size) :
    IsHeap size (build size values) := by
  intro slot hslot hinner
  apply valueAt_fillDown hslot (by omega)
  rw [length_setLeaves, List.length_replicate]
  omega

theorem valueAt_build {size index : ℕ} (values : List ℕ) (hsize : 1 ≤ size)
    (hindex : index < values.length) (hroom : values.length ≤ size) :
    valueAt (build size values) (size + index) = values[index] := by
  unfold build
  rw [valueAt_fillDown_of_lt (by omega)]
  apply valueAt_setLeaves hindex
  rw [List.length_replicate]
  omega

theorem covering_create (items : List (ℕ × ℕ × α)) (row : ℕ) :
    (create items).covering row =
      ((items.mergeSort fun a b => a.1 ≤ b.1).filter fun item =>
        item.1 ≤ row && row ≤ item.2.1).map (·.2.2) := by
  unfold create covering
  simp only
  have hsorted : ((items.mergeSort fun a b => a.1 ≤ b.1).map Prod.fst).Pairwise (· ≤ ·) := by
    have h : (items.mergeSort fun a b => a.1 ≤ b.1).Pairwise
        fun a b => decide (a.1 ≤ b.1) = true :=
      List.pairwise_mergeSort (by simp only [decide_eq_true_eq]; omega)
        (by simp only [Bool.or_eq_true, decide_eq_true_eq]; omega) _
    apply List.Pairwise.map _ _ h
    intro a b hab
    exact of_decide_eq_true hab
  generalize items.mergeSort (fun a b => a.1 ≤ b.1) = sorted at hsorted
  obtain ⟨height, hheight⟩ := exists_grow_eq_pow (max 1 sorted.length) (max 1 sorted.length) 0
  have hroom : max 1 sorted.length ≤ grow (max 1 sorted.length) (max 1 sorted.length) 1 :=
    le_grow (by rw [one_mul]; exact Nat.lt_two_pow_self.le)
  rw [pow_zero] at hheight
  rw [hheight] at hroom ⊢
  generalize hlimit : bisectRight (sorted.map Prod.fst) row = limit
  have hbisect {i : ℕ} (hi : i < sorted.length) : i < limit ↔ sorted[i].1 ≤ row := by
    rw [← hlimit, lt_bisectRight_iff_of_sorted hsorted (by simpa using hi), List.getElem_map]
  have hcount : limit ≤ sorted.length := by
    rw [← hlimit, ← List.length_map Prod.fst]
    exact List.countP_le_length
  have hone : 1 ≤ 2 ^ height := Nat.two_pow_pos height
  let reaches := fun leaf : ℕ => decide (leaf < limit) &&
    decide ((row : ℤ) ≤ valueAt (build (2 ^ height) (sorted.map (·.2.1))) (2 ^ height + leaf))
  have hstab : stab (build (2 ^ height) (sorted.map (·.2.1))) limit row (2 ^ height) 1 0
      (0 + 2 ^ height - 1) = (List.range' 0 (2 ^ height)).filter reaches :=
    stab_eq (isHeap_build hone) Nat.lt_two_pow_self (by omega) (by omega)
  have hshort : (List.range' 0 (2 ^ height)).filter reaches =
      (List.range sorted.length).filter reaches := by
    obtain ⟨rest, hrest⟩ : ∃ n, 2 ^ height = sorted.length + n :=
      ⟨2 ^ height - sorted.length, by omega⟩
    have hbeyond : (List.range' (0 + sorted.length) rest).filter reaches = [] := by
      apply List.filter_eq_nil_iff.mpr
      intro leaf hleaf
      have hge := (List.mem_range'_1.mp hleaf).1
      simp only [reaches, Bool.and_eq_true, decide_eq_true_eq]
      omega
    rw [List.range_eq_range']
    conv_lhs => rw [hrest]
    rw [← List.range'_append_1, List.filter_append, hbeyond, List.append_nil]
  have hreaches : ∀ i, (hi : i < sorted.length) →
      reaches i = (decide (sorted[i].1 ≤ row) && decide (row ≤ sorted[i].2.1)) := by
    intro i hi
    have hvalue := valueAt_build (sorted.map (·.2.1)) hone (by simpa using hi)
      (by rw [List.length_map]; omega)
    simp only [reaches, hvalue, List.getElem_map, decide_eq_decide.mpr (hbisect hi),
      Int.ofNat_le]
  have hfound : (stab (build (2 ^ height) (sorted.map (·.2.1))) limit row (2 ^ height) 1 0
      (2 ^ height - 1)).filterMap ((sorted.map (·.2.2))[·]?) =
      (sorted.filter fun item => decide (item.1 ≤ row) && decide (row ≤ item.2.1)).map (·.2.2) := by
    rw [Nat.zero_add] at hstab
    rw [hstab, hshort]
    let within := fun item : ℕ × ℕ × α => decide (item.1 ≤ row) && decide (row ≤ item.2.1)
    exact filterMap_range_getElem? (q := within) (fun item : ℕ × ℕ × α => item.2.2) hreaches
  split_ifs with hnone
  · rw [← hfound]
    have hpruned : (List.range sorted.length).filter reaches = [] := by
      apply List.filter_eq_nil_iff.mpr
      intro leaf _
      simp [reaches, hnone]
    rw [Nat.zero_add] at hstab
    rw [hstab, hshort, hpruned]
    rfl
  · exact hfound

end Intervals

def narrowColumns : ℕ := 64

structure CoverIndex where
  narrow : List ((String × ℕ) × Intervals RangeNode)
  wide : List (String × Intervals RangeNode)

namespace CoverIndex

abbrev Interval := ℕ × ℕ × RangeNode

/-- `node.c2 - node.c1 + 1 <= _NARROW_COLUMNS` -/
def isNarrow (node : RangeNode) : Bool := node.c2 + 1 ≤ narrowColumns + node.c1

def interval (node : RangeNode) : Interval := (node.r1, node.r2, node)

def addNode (index : List ((String × ℕ) × List Interval) × List (String × List Interval))
    (node : RangeNode) : List ((String × ℕ) × List Interval) × List (String × List Interval) :=
  if isNarrow node then
    ((List.range' node.c1 (node.c2 + 1 - node.c1)).foldl (fun narrow col =>
      push (node.sheet, col) (interval node) narrow) index.1, index.2)
  else (index.1, push node.sheet (interval node) index.2)

def create (nodes : List RangeNode) : CoverIndex :=
  let index := nodes.foldl addNode ([], [])
  { narrow := index.1.map fun entry => (entry.1, Intervals.create entry.2)
    wide := index.2.map fun entry => (entry.1, Intervals.create entry.2) }

def covering (index : CoverIndex) (sheet : String) (col row : ℕ) : List RangeNode :=
  let column := match get (sheet, col) index.narrow with
    | none => []
    | some column => column.covering row
  let spread := match get sheet index.wide with
    | none => []
    | some spread => (spread.covering row).filter fun node => node.c1 ≤ col && col ≤ node.c2
  column ++ spread

def holds (sheet : String) (col row : ℕ) (node : RangeNode) : Bool :=
  node.sheet = sheet && (node.c1 ≤ col && col ≤ node.c2) && (node.r1 ≤ row && row ≤ node.r2)

theorem filter_columns (node : RangeNode) (sheet : String) (col : ℕ) {cols : List ℕ}
    (hcols : cols.Nodup) :
    ((cols.map fun c => ((node.sheet, c), interval node)).filter (·.1 = (sheet, col))).map Prod.snd =
      if node.sheet = sheet ∧ col ∈ cols then [interval node] else [] := by
  induction cols with
  | nil => simp
  | cons c cols ih =>
    obtain ⟨hc, hcols⟩ := List.nodup_cons.mp hcols
    rw [List.map_cons, List.filter_cons]
    by_cases hkey : node.sheet = sheet ∧ c = col
    · obtain ⟨rfl, rfl⟩ := hkey
      have hlater : ¬(node.sheet = node.sheet ∧ c ∈ cols) := fun h => hc h.2
      rw [if_pos (by simp), List.map_cons, ih hcols, if_neg hlater, if_pos ⟨rfl, List.mem_cons_self⟩]
    · have hfirst : ¬decide ((node.sheet, c) = (sheet, col)) = true := by simpa using hkey
      rw [if_neg hfirst, ih hcols]
      have hmem : (node.sheet = sheet ∧ col ∈ cols) ↔ node.sheet = sheet ∧ col ∈ c :: cols := by
        rw [List.mem_cons]
        constructor
        · exact fun h => ⟨h.1, .inr h.2⟩
        · rintro ⟨hsheet, rfl | hcol⟩
          · exact absurd ⟨hsheet, rfl⟩ hkey
          · exact ⟨hsheet, hcol⟩
      simp only [hmem]

theorem foldl_addNode (nodes : List RangeNode) (sheet : String) (col : ℕ) :
    (get (sheet, col) (nodes.foldl addNode ([], [])).1).getD [] =
      (nodes.filter fun node => isNarrow node &&
        (node.sheet = sheet && (node.c1 ≤ col && col ≤ node.c2))).map interval ∧
    (get sheet (nodes.foldl addNode ([], [])).2).getD [] =
      (nodes.filter fun node => !isNarrow node && node.sheet = sheet).map interval := by
  induction nodes using List.reverseRecOn with
  | nil => exact ⟨rfl, rfl⟩
  | append_singleton nodes node ih =>
    obtain ⟨hnarrow, hwide⟩ := ih
    rw [List.foldl_append, List.foldl_cons, List.foldl_nil, List.filter_append, List.filter_append,
      List.map_append, List.map_append, ← hnarrow, ← hwide]
    generalize nodes.foldl addNode ([], []) = index
    unfold addNode
    cases hkind : isNarrow node with
    | false =>
      refine ⟨by simp [hkind], ?_⟩
      simp only [Bool.false_eq_true, if_false, push, get_set]
      by_cases hsheet : node.sheet = sheet
      · subst hsheet
        simp [hkind]
      · simp [hkind, hsheet]
    | true =>
      refine ⟨?_, by simp [hkind]⟩
      have hpairs : (List.range' node.c1 (node.c2 + 1 - node.c1)).foldl (fun narrow col =>
          push (node.sheet, col) (interval node) narrow) index.1 =
          ((List.range' node.c1 (node.c2 + 1 - node.c1)).map fun col =>
            ((node.sheet, col), interval node)).foldl (fun d p => push p.1 p.2 d) index.1 := by
        rw [List.foldl_map]
      simp only [if_true, hpairs, getD_get_foldl_push]
      rw [filter_columns node sheet col List.nodup_range']
      congr 1
      have hmem : node.sheet = sheet ∧ col ∈ List.range' node.c1 (node.c2 + 1 - node.c1) ↔
          node.sheet = sheet ∧ node.c1 ≤ col ∧ col ≤ node.c2 := by
        apply and_congr_right
        intro _
        rw [List.mem_range'_1]
        omega
      by_cases hcell : node.sheet = sheet ∧ node.c1 ≤ col ∧ col ≤ node.c2
      · rw [if_pos (hmem.mpr hcell)]
        simp [hkind, hcell]
      · rw [if_neg fun h => hcell (hmem.mp h)]
        have hnot : ¬(isNarrow node && (decide (node.sheet = sheet) &&
            (decide (node.c1 ≤ col) && decide (col ≤ node.c2)))) = true := by
          simpa [hkind] using hcell
        simp [hnot]

theorem perm_covering (nodes : List RangeNode) (row : ℕ) :
    ((Intervals.create (nodes.map interval)).covering row).Perm
      (nodes.filter fun node => node.r1 ≤ row && row ≤ node.r2) := by
  rw [Intervals.covering_create]
  have hperm := List.mergeSort_perm (nodes.map interval) fun a b => decide (a.1 ≤ b.1)
  refine ((hperm.filter _).map _).trans ?_
  rw [List.filter_map, List.map_map]
  have hid : (fun item : Interval => item.2.2) ∘ interval = id := rfl
  rw [hid, List.map_id]
  exact List.Perm.refl _

theorem covering_nil (row : ℕ) :
    (Intervals.create ([] : List Interval)).covering row = [] := by
  rw [Intervals.covering_create, List.mergeSort_nil]
  rfl

theorem covering_get_create {K : Type} [DecidableEq K] (k : K) (d : List (K × List Interval))
    (row : ℕ) :
    ((get k (d.map fun entry => (entry.1, Intervals.create entry.2))).map
      (Intervals.covering · row)).getD [] =
      (Intervals.create ((get k d).getD [])).covering row := by
  rw [get_mapValues]
  cases get k d with
  | none => exact (covering_nil row).symm
  | some items => rfl

/-- The index yields every node whose rectangle contains the cell as often as it was given,
and no other node. -/
theorem covering_perm (nodes : List RangeNode) (sheet : String) (col row : ℕ) :
    ((create nodes).covering sheet col row).Perm (nodes.filter (holds sheet col row)) ∧
      (nodes.Nodup → ∀ node, ((create nodes).covering sheet col row).count node =
        if node ∈ nodes ∧ holds sheet col row node = true then 1 else 0) := by
  have hperm : ((create nodes).covering sheet col row).Perm
      (nodes.filter (holds sheet col row)) := by
    obtain ⟨hnarrow, hwide⟩ := foldl_addNode nodes sheet col
    have hcolumn := perm_covering (nodes.filter fun node => isNarrow node &&
      (node.sheet = sheet && (node.c1 ≤ col && col ≤ node.c2))) row
    have hspread := (perm_covering (nodes.filter fun node =>
      !isNarrow node && node.sheet = sheet) row).filter fun node =>
        decide (node.c1 ≤ col) && decide (col ≤ node.c2)
    rw [← hnarrow] at hcolumn
    rw [← hwide] at hspread
    rw [List.filter_filter] at hcolumn
    rw [List.filter_filter, List.filter_filter] at hspread
    have hparts : (create nodes).covering sheet col row =
        (Intervals.create ((get (sheet, col) (nodes.foldl addNode ([], [])).1).getD [])).covering row
          ++ ((Intervals.create ((get sheet (nodes.foldl addNode ([], [])).2).getD [])).covering
            row).filter fun node => decide (node.c1 ≤ col) && decide (col ≤ node.c2) := by
      rw [← covering_get_create, ← covering_get_create]
      simp only [covering, create]
      cases get (sheet, col) ((nodes.foldl addNode ([], [])).1.map fun entry =>
        (entry.1, Intervals.create entry.2)) <;>
      cases get sheet ((nodes.foldl addNode ([], [])).2.map fun entry =>
        (entry.1, Intervals.create entry.2)) <;>
      rfl
    rw [hparts]
    refine (hcolumn.append hspread).trans ?_
    refine List.Perm.trans ?_ (List.filter_append_perm isNarrow (nodes.filter (holds sheet col row)))
    rw [List.filter_filter, List.filter_filter]
    apply List.Perm.of_eq
    congr 1
    · apply List.filter_congr
      intro node _
      unfold holds
      cases isNarrow node <;> simp [Bool.and_comm, Bool.and_assoc, Bool.and_left_comm]
    · apply List.filter_congr
      intro node _
      unfold holds
      cases isNarrow node <;> simp [Bool.and_comm, Bool.and_assoc, Bool.and_left_comm]
  refine ⟨hperm, fun hnodup node => ?_⟩
  rw [hperm.count_eq, List.Nodup.count (hnodup.filter _)]
  simp only [List.mem_filter]

end CoverIndex

end FinanceContext
