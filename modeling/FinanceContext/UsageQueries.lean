import FinanceContext.CellExpansion
import FinanceContext.IntervalRuns
import FinanceContext.NestedGroups

namespace FinanceContext.Csr

open Dictionaries IntervalRuns NestedGroups

structure Span where
  sheet : String
  col : ℕ
  rowStart : ℕ
  rowEnd : ℕ

def Span.rows (span : Span) : Run :=
  if span.rowEnd < span.rowStart then (span.rowEnd, span.rowStart)
  else (span.rowStart, span.rowEnd)

/-- `setdefault` -/
def setDefault (k v : String) (d : List (String × String)) : List (String × String) :=
  if (get k d).isSome then d else set k v d

namespace Expansion

variable (ex : Expansion)

/-- `by_col` and `canonical`, one span further. -/
def addSpan (index : Nested String ℕ (List Run) × List (String × String)) (span : Span) :
    Nested String ℕ (List Run) × List (String × String) :=
  (pushAt span.sheet span.col span.rows index.1,
    setDefault (ex.casefold span.sheet) span.sheet index.2)

def sheetUsageSpans (spans : List Span) : SheetUsage :=
  let index := spans.foldl ex.addSpan ([], [])
  { rowsByCol := mapItems mergeRuns index.1, canonical := index.2 }

def columnsOf (usage : SheetUsage) (sheet : String) : List (ℕ × List Run) :=
  groupsAt (ex.sheetName usage sheet) usage.rowsByCol

def presentCount (usage : SheetUsage) (node : RangeNode) : ℤ :=
  (((ex.columnsOf usage node.sheet).filter fun column =>
    node.c1 ≤ column.1 && column.1 ≤ node.c2).map fun column =>
      overlap column.2 node.r1 node.r2).sum

def earlier (best : Option (ℕ × ℕ)) (cell : ℕ × ℕ) : Option (ℕ × ℕ) :=
  match best with
  | none => some cell
  | some b => if cell.1 < b.1 ∨ cell.1 = b.1 ∧ cell.2 < b.2 then some cell else some b

def firstPresent (usage : SheetUsage) (node : RangeNode) : Option (ℕ × ℕ) :=
  (ex.columnsOf usage node.sheet).foldl (fun best column =>
    if column.1 < node.c1 ∨ node.c2 < column.1 then best
    else
      match firstWithin column.2 node.r1 node.r2 with
      | none => best
      | some row => earlier best (row, column.1)) none

def nodePairs (usage : SheetUsage) (node : RangeNode) : List (ℕ × ℕ) :=
  ex.presentPairs usage node.sheet node.c1 node.c2 node.r1 node.r2

def cellPresent (usage : SheetUsage) (sheet : String) (row col : ℕ) : Bool :=
  runsHave (itemsAt sheet col usage.rowsByCol) row

/-- A cell of one of the spans. -/
def Present (spans : List Span) (sheet : String) (row col : ℕ) : Prop :=
  ∃ span ∈ spans, ex.casefold span.sheet = ex.casefold sheet ∧ span.col = col ∧
    span.rows.1 ≤ row ∧ row ≤ span.rows.2

section Building

theorem rows_proper (span : Span) : span.rows.1 ≤ span.rows.2 := by
  unfold Span.rows
  split_ifs <;> omega

theorem get_setDefault (k k' v : String) (d : List (String × String)) :
    get k' (setDefault k v d) = (get k' d).or (if k = k' then some v else none) := by
  unfold setDefault
  by_cases hk : k = k'
  · subst hk
    cases hget : get k d with
    | none => simp [get_set]
    | some w => simp [hget]
  · split_ifs
    · simp
    · simp [get_set, hk]

/-- What the two dictionaries hold once the spans are read. -/
structure Indexed (spans : List Span)
    (index : Nested String ℕ (List Run) × List (String × String)) : Prop where
  keyed : WellKeyed index.1
  items : ∀ sheet col, itemsAt sheet col index.1 =
    (spans.filter fun span => span.sheet = sheet ∧ span.col = col).map Span.rows
  canonical : ∀ folded, get folded index.2 =
    (spans.find? fun span => ex.casefold span.sheet = folded).map Span.sheet

theorem indexed_foldl (spans : List Span) :
    ex.Indexed spans (spans.foldl ex.addSpan ([], [])) := by
  induction spans using List.reverseRecOn with
  | nil => exact ⟨wellKeyed_nil, fun _ _ => rfl, fun _ => rfl⟩
  | append_singleton spans span ih =>
    rw [List.foldl_append, List.foldl_cons, List.foldl_nil]
    refine ⟨ih.keyed.pushAt _ _ _, fun sheet col => ?_, fun folded => ?_⟩
    · rw [addSpan, itemsAt_pushAt, ih.items, List.filter_append, List.map_append]
      by_cases hkey : span.sheet = sheet ∧ span.col = col <;> simp [hkey]
    · rw [addSpan, get_setDefault, ih.canonical, List.find?_append]
      by_cases hfold : ex.casefold span.sheet = folded
      · cases spans.find? fun span => ex.casefold span.sheet = folded <;> simp [hfold]
      · cases spans.find? fun span => ex.casefold span.sheet = folded <;> simp [hfold]

/-- Sheet names that only differ in case are one name. -/
def NamesUnique (spans : List Span) : Prop :=
  ∀ span ∈ spans, ∀ span' ∈ spans, ex.casefold span.sheet = ex.casefold span'.sheet →
    span.sheet = span'.sheet

variable {ex} {spans : List Span}

theorem sheetName_iff (hnames : ex.NamesUnique spans) {span : Span} (hspan : span ∈ spans)
    (sheet : String) :
    span.sheet = ex.sheetName (ex.sheetUsageSpans spans) sheet ↔
      ex.casefold span.sheet = ex.casefold sheet := by
  have hcanonical := (ex.indexed_foldl spans).canonical (ex.casefold sheet)
  unfold sheetName sheetUsageSpans
  simp only [hcanonical]
  cases hfind : spans.find? fun span => ex.casefold span.sheet = ex.casefold sheet with
  | none =>
    have hnot : ¬ex.casefold span.sheet = ex.casefold sheet := by
      simpa using List.find?_eq_none.mp hfind span hspan
    refine iff_of_false (fun h => hnot ?_) hnot
    rw [h]
    rfl
  | some first =>
    have hfirst : ex.casefold first.sheet = ex.casefold sheet := by
      simpa using List.find?_some hfind
    simp only [Option.map_some, Option.getD_some]
    constructor
    · intro h
      rw [h, hfirst]
    · intro h
      exact hnames span hspan first (List.mem_of_find?_eq_some hfind) (h.trans hfirst.symm)

theorem proper_itemsAt (ex : Expansion) (spans : List Span) (sheet : String) (col : ℕ) :
    Proper (itemsAt sheet col (spans.foldl ex.addSpan ([], [])).1) := by
  rw [(ex.indexed_foldl spans).items]
  intro run hrun
  obtain ⟨span, -, rfl⟩ := List.mem_map.mp hrun
  exact rows_proper span

theorem covers_itemsAt_iff (ex : Expansion) (spans : List Span) (sheet : String) (row col : ℕ) :
    Covers (itemsAt sheet col (ex.sheetUsageSpans spans).rowsByCol) row ↔
      ∃ span ∈ spans, span.sheet = sheet ∧ span.col = col ∧ span.rows.1 ≤ row ∧
        row ≤ span.rows.2 := by
  have hmerged : itemsAt sheet col (ex.sheetUsageSpans spans).rowsByCol =
      mergeRuns (itemsAt sheet col (spans.foldl ex.addSpan ([], [])).1) :=
    itemsAt_mapItems mergeRuns mergeRuns_nil _ _ _
  rw [hmerged, (mergeRuns_spec (proper_itemsAt ex spans _ _)).2, (ex.indexed_foldl spans).items]
  simp only [Covers, List.mem_map, List.mem_filter, decide_eq_true_eq]
  constructor
  · rintro ⟨run, ⟨span, ⟨hspan, hsheet, hcol⟩, rfl⟩, hrow⟩
    exact ⟨span, hspan, hsheet, hcol, hrow⟩
  · rintro ⟨span, hspan, hsheet, hcol, hrow⟩
    exact ⟨_, ⟨span, ⟨hspan, hsheet, hcol⟩, rfl⟩, hrow⟩

theorem separated_itemsAt (ex : Expansion) (spans : List Span) (sheet : String) (col : ℕ) :
    Separated (itemsAt sheet col (ex.sheetUsageSpans spans).rowsByCol) := by
  have hmerged : itemsAt sheet col (ex.sheetUsageSpans spans).rowsByCol =
      mergeRuns (itemsAt sheet col (spans.foldl ex.addSpan ([], [])).1) :=
    itemsAt_mapItems mergeRuns mergeRuns_nil _ _ _
  rw [hmerged]
  exact (mergeRuns_spec (proper_itemsAt ex spans sheet col)).1

theorem covers_itemsAt (hnames : ex.NamesUnique spans) (sheet : String) (row col : ℕ) :
    Covers (itemsAt (ex.sheetName (ex.sheetUsageSpans spans) sheet) col
      (ex.sheetUsageSpans spans).rowsByCol) row ↔ ex.Present spans sheet row col := by
  rw [covers_itemsAt_iff]
  constructor
  · rintro ⟨span, hspan, hsheet, hcol, hrow⟩
    exact ⟨span, hspan, (sheetName_iff hnames hspan sheet).mp hsheet, hcol, hrow⟩
  · rintro ⟨span, hspan, hsheet, hcol, hrow⟩
    exact ⟨span, hspan, (sheetName_iff hnames hspan sheet).mpr hsheet, hcol, hrow⟩

theorem nodup_columnsOf (ex : Expansion) (spans : List Span) (sheet : String) :
    ((ex.columnsOf (ex.sheetUsageSpans spans) sheet).map Prod.fst).Nodup :=
  ((ex.indexed_foldl spans).keyed.mapItems mergeRuns).groupsAt _

theorem separated_columnsOf {sheet : String} {column : ℕ × List Run}
    (h : column ∈ ex.columnsOf (ex.sheetUsageSpans spans) sheet) : Separated column.2 := by
  have hget := get_of_mem (nodup_columnsOf ex spans sheet) h
  have hmerged := get_groupsAt_mapItems mergeRuns
    (ex.sheetName (ex.sheetUsageSpans spans) sheet) column.1 (spans.foldl ex.addSpan ([], [])).1
  obtain ⟨runs, hruns, hcolumn⟩ := Option.map_eq_some_iff.mp (hmerged.symm.trans hget)
  have hproper := proper_itemsAt ex spans (ex.sheetName (ex.sheetUsageSpans spans) sheet) column.1
  have hitems : itemsAt (ex.sheetName (ex.sheetUsageSpans spans) sheet) column.1
      (spans.foldl ex.addSpan ([], [])).1 = runs := by
    rw [itemsAt, hruns]
    rfl
  rw [← hcolumn]
  exact (mergeRuns_spec (hitems ▸ hproper)).1

end Building

section Queries

variable {ex} {usage : SheetUsage} {node : RangeNode}

def columnCells (node : RangeNode) (column : ℕ × List Run) : List (ℕ × ℕ) :=
  if column.1 < node.c1 ∨ node.c2 < column.1 then []
  else (rowsWithin column.2 node.r1 node.r2).map (·, column.1)

def CellLe (p q : ℕ × ℕ) : Prop := p.1 < q.1 ∨ p.1 = q.1 ∧ p.2 ≤ q.2

def CellLt (p q : ℕ × ℕ) : Prop := p.1 < q.1 ∨ p.1 = q.1 ∧ p.2 < q.2

theorem nodePairs_eq (ex : Expansion) (usage : SheetUsage) (node : RangeNode) :
    ex.nodePairs usage node =
      ((ex.columnsOf usage node.sheet).flatMap (columnCells node)).insertionSort
        fun p q => p.1 < q.1 ∨ p.1 = q.1 ∧ p.2 ≤ q.2 := by
  unfold nodePairs presentPairs columnsOf groupsAt columnCells rowsWithin
  simp only [List.map_flatMap]

theorem perm_nodePairs (ex : Expansion) (usage : SheetUsage) (node : RangeNode) :
    (ex.nodePairs usage node).Perm
      ((ex.columnsOf usage node.sheet).flatMap (columnCells node)) := by
  rw [nodePairs_eq]
  exact List.perm_insertionSort _ _

theorem mem_columnCells {column : ℕ × List Run} {row col : ℕ} :
    (row, col) ∈ columnCells node column ↔
      column.1 = col ∧ node.c1 ≤ col ∧ col ≤ node.c2 ∧ Covers column.2 row ∧ node.r1 ≤ row ∧
        row ≤ node.r2 := by
  unfold columnCells
  split_ifs with hout
  · refine iff_of_false List.not_mem_nil ?_
    rintro ⟨rfl, h⟩
    omega
  · simp only [List.mem_map, Prod.mk.injEq, mem_rowsWithin]
    constructor
    · rintro ⟨_, hrow, rfl, rfl⟩
      exact ⟨rfl, by omega, by omega, hrow⟩
    · rintro ⟨rfl, -, -, hrow⟩
      exact ⟨row, hrow, rfl, rfl⟩

theorem mem_nodePairs (hkeys : ((ex.columnsOf usage node.sheet).map Prod.fst).Nodup)
    {row col : ℕ} :
    (row, col) ∈ ex.nodePairs usage node ↔
      node.c1 ≤ col ∧ col ≤ node.c2 ∧ node.r1 ≤ row ∧ row ≤ node.r2 ∧
        Covers (itemsAt (ex.sheetName usage node.sheet) col usage.rowsByCol) row := by
  rw [(perm_nodePairs ex usage node).mem_iff, List.mem_flatMap]
  have hitems {runs : List Run} (h : get col (ex.columnsOf usage node.sheet) = some runs) :
      itemsAt (ex.sheetName usage node.sheet) col usage.rowsByCol = runs := by
    have hget : get col (groupsAt (ex.sheetName usage node.sheet) usage.rowsByCol) = some runs := h
    rw [itemsAt, hget]
    rfl
  constructor
  · rintro ⟨column, hcolumn, hcell⟩
    obtain ⟨rfl, hc1, hc2, hcovers, hr1, hr2⟩ := mem_columnCells.mp hcell
    have hget := get_of_mem hkeys hcolumn
    exact ⟨hc1, hc2, hr1, hr2, (hitems hget).symm ▸ hcovers⟩
  · rintro ⟨hc1, hc2, hr1, hr2, hcovers⟩
    cases hget : get col (ex.columnsOf usage node.sheet) with
    | none =>
      have hnone : get col (groupsAt (ex.sheetName usage node.sheet) usage.rowsByCol) = none :=
        hget
      rw [itemsAt, hnone] at hcovers
      obtain ⟨run, hrun, -⟩ := hcovers
      cases hrun
    | some runs =>
      refine ⟨(col, runs), mem_of_get hget, mem_columnCells.mpr ⟨rfl, hc1, hc2, ?_, hr1, hr2⟩⟩
      exact hitems hget ▸ hcovers

theorem pairwise_columnCells {column : ℕ × List Run} (h : Separated column.2) :
    (columnCells node column).Pairwise CellLt := by
  unfold columnCells
  split_ifs
  · exact .nil
  · apply List.Pairwise.map
    · intro a b hab
      exact .inl hab
    · exact pairwise_rowsWithin h _ _

theorem nodup_nodePairs (hkeys : ((ex.columnsOf usage node.sheet).map Prod.fst).Nodup)
    (hsep : ∀ column ∈ ex.columnsOf usage node.sheet, Separated column.2) :
    (ex.nodePairs usage node).Nodup := by
  rw [(perm_nodePairs ex usage node).nodup_iff]
  apply List.nodup_flatMap.mpr
  refine ⟨fun column hcolumn => ?_, ?_⟩
  · apply (pairwise_columnCells (hsep column hcolumn)).imp
    intro p q hpq heq
    subst heq
    unfold CellLt at hpq
    omega
  · apply (List.pairwise_map.mp hkeys).imp
    intro column column' hne cell hcell hcell'
    exact hne ((mem_columnCells.mp hcell).1.trans (mem_columnCells.mp hcell').1.symm)

theorem pairwise_nodePairs (hkeys : ((ex.columnsOf usage node.sheet).map Prod.fst).Nodup)
    (hsep : ∀ column ∈ ex.columnsOf usage node.sheet, Separated column.2) :
    (ex.nodePairs usage node).Pairwise CellLt := by
  have hle : (ex.nodePairs usage node).Pairwise CellLe := by
    rw [nodePairs_eq]
    have htotal : Std.Total fun p q : ℕ × ℕ => p.1 < q.1 ∨ p.1 = q.1 ∧ p.2 ≤ q.2 :=
      ⟨fun p q => by omega⟩
    have htrans : IsTrans (ℕ × ℕ) fun p q => p.1 < q.1 ∨ p.1 = q.1 ∧ p.2 ≤ q.2 :=
      ⟨fun p q r => by omega⟩
    change List.Pairwise (fun p q : ℕ × ℕ => p.1 < q.1 ∨ p.1 = q.1 ∧ p.2 ≤ q.2) _
    exact List.pairwise_insertionSort _ _
  apply (hle.and (nodup_nodePairs hkeys hsep)).imp
  rintro ⟨row, col⟩ ⟨row', col'⟩ ⟨h, hne⟩
  have hdiff : ¬(row = row' ∧ col = col') := fun heq => hne (Prod.ext heq.1 heq.2)
  unfold CellLe at h
  unfold CellLt
  simp only at h ⊢
  omega

theorem length_columnCells (hrows : node.r1 ≤ node.r2) {columns : List (ℕ × List Run)}
    (hsep : ∀ column ∈ columns, Separated column.2) :
    ((columns.flatMap (columnCells node)).length : ℤ) =
      ((columns.filter fun column => node.c1 ≤ column.1 && column.1 ≤ node.c2).map fun column =>
        overlap column.2 node.r1 node.r2).sum := by
  induction columns with
  | nil => rfl
  | cons column columns ih =>
    obtain ⟨hcolumn, hrest⟩ := List.forall_mem_cons.mp hsep
    rw [List.flatMap_cons, List.length_append, Nat.cast_add, ih hrest, List.filter_cons]
    by_cases hin : node.c1 ≤ column.1 ∧ column.1 ≤ node.c2
    · have hcells : columnCells node column =
          (rowsWithin column.2 node.r1 node.r2).map (·, column.1) := if_neg (by omega)
      have htest : (decide (node.c1 ≤ column.1) && decide (column.1 ≤ node.c2)) = true := by
        simpa using hin
      rw [if_pos htest, List.map_cons, List.sum_cons, hcells, List.length_map,
        length_rowsWithin hcolumn hrows]
    · have hcells : columnCells node column = [] := if_pos (by omega)
      have htest : ¬(decide (node.c1 ≤ column.1) && decide (column.1 ≤ node.c2)) = true := by
        simpa using hin
      rw [if_neg htest, hcells, List.length_nil, Nat.cast_zero, zero_add]

/-- The first of some cells, none when there is no cell. -/
def Least (cells : List (ℕ × ℕ)) : Option (ℕ × ℕ) → Prop
  | none => cells = []
  | some first => first ∈ cells ∧ ∀ cell ∈ cells, CellLe first cell

theorem least_earlier {seen cells : List (ℕ × ℕ)} {best : Option (ℕ × ℕ)} {first : ℕ × ℕ}
    (hbest : Least seen best) (hfirst : Least cells (some first)) :
    Least (seen ++ cells) (earlier best first) := by
  obtain ⟨hmem, hle⟩ := hfirst
  cases best with
  | none =>
    have hnil : seen = [] := hbest
    rw [hnil, List.nil_append]
    exact ⟨hmem, hle⟩
  | some b =>
    obtain ⟨hb, hbest⟩ := hbest
    unfold earlier
    simp only
    split_ifs with hlt
    · refine ⟨List.mem_append_right _ hmem, fun cell hcell => ?_⟩
      rcases List.mem_append.mp hcell with hold | hnew
      · have hcell' := hbest cell hold
        unfold CellLe at hcell' ⊢
        omega
      · exact hle cell hnew
    · refine ⟨List.mem_append_left _ hb, fun cell hcell => ?_⟩
      rcases List.mem_append.mp hcell with hold | hnew
      · exact hbest cell hold
      · have hcell' := hle cell hnew
        unfold CellLe at hcell' ⊢
        omega

theorem least_columnCells (hrows : node.r1 ≤ node.r2) {column : ℕ × List Run}
    (hsep : Separated column.2) (hin : ¬(column.1 < node.c1 ∨ node.c2 < column.1)) :
    Least (columnCells node column)
      ((firstWithin column.2 node.r1 node.r2).map (·, column.1)) := by
  have hcells : columnCells node column =
      (rowsWithin column.2 node.r1 node.r2).map (·, column.1) := if_neg hin
  have hsorted := pairwise_rowsWithin hsep node.r1 node.r2
  rw [hcells, ← head?_rowsWithin hsep hrows]
  cases hrange : rowsWithin column.2 node.r1 node.r2 with
  | nil => rfl
  | cons row rows =>
    rw [hrange] at hsorted
    refine ⟨List.mem_cons_self, fun cell hcell => ?_⟩
    obtain ⟨row', hrow', rfl⟩ := List.mem_map.mp hcell
    rcases List.mem_cons.mp hrow' with rfl | hlater
    · exact .inr ⟨rfl, le_rfl⟩
    · exact .inl ((List.pairwise_cons.mp hsorted).1 row' hlater)

theorem least_firstPresent (hrows : node.r1 ≤ node.r2)
    (hsep : ∀ column ∈ ex.columnsOf usage node.sheet, Separated column.2) :
    Least ((ex.columnsOf usage node.sheet).flatMap (columnCells node))
      (ex.firstPresent usage node) := by
  unfold firstPresent
  generalize ex.columnsOf usage node.sheet = columns at hsep
  induction columns using List.reverseRecOn with
  | nil => rfl
  | append_singleton columns column ih =>
    have hbest := ih fun c hc => hsep c (List.mem_append_left _ hc)
    have hcolumn := hsep column (List.mem_append_right _ (List.mem_singleton.mpr rfl))
    rw [List.foldl_append, List.foldl_cons, List.foldl_nil, List.flatMap_append,
      List.flatMap_singleton]
    split_ifs with hout
    · rw [columnCells, if_pos hout, List.append_nil]
      exact hbest
    · have hleast := least_columnCells hrows hcolumn hout
      cases hrow : firstWithin column.2 node.r1 node.r2 with
      | none =>
        rw [hrow] at hleast
        have hnil : columnCells node column = [] := hleast
        rw [hnil, List.append_nil]
        exact hbest
      | some row =>
        rw [hrow] at hleast
        exact least_earlier hbest hleast

theorem firstPresent_eq_head? (hrows : node.r1 ≤ node.r2)
    (hkeys : ((ex.columnsOf usage node.sheet).map Prod.fst).Nodup)
    (hsep : ∀ column ∈ ex.columnsOf usage node.sheet, Separated column.2) :
    ex.firstPresent usage node = (ex.nodePairs usage node).head? := by
  have hleast := least_firstPresent hrows hsep
  have hperm := perm_nodePairs ex usage node
  have hsorted := pairwise_nodePairs hkeys hsep
  cases hfirst : ex.firstPresent usage node with
  | none =>
    rw [hfirst] at hleast
    have hnil : (ex.columnsOf usage node.sheet).flatMap (columnCells node) = [] := hleast
    rw [hnil] at hperm
    rw [hperm.eq_nil]
    rfl
  | some first =>
    rw [hfirst] at hleast
    obtain ⟨hmem, hle⟩ := hleast
    replace hmem := hperm.mem_iff.mpr hmem
    cases hpairs : ex.nodePairs usage node with
    | nil =>
      rw [hpairs] at hmem
      cases hmem
    | cons cell cells =>
      have hcell := hle cell (hperm.mem_iff.mp (hpairs ▸ List.mem_cons_self))
      rw [hpairs] at hmem hsorted
      rcases List.mem_cons.mp hmem with rfl | hlater
      · rfl
      · have hlt := (List.pairwise_cons.mp hsorted).1 first hlater
        unfold CellLe at hcell
        unfold CellLt at hlt
        omega

/-- The four queries agree with filtering the present cells, for every list of spans. -/
theorem usage_queries (ex : Expansion) (spans : List Span) (hnames : ex.NamesUnique spans)
    (node : RangeNode) (hrows : node.r1 ≤ node.r2) :
    let usage := ex.sheetUsageSpans spans
    let pairs := ex.nodePairs usage node
    pairs.Pairwise CellLt ∧
    (∀ row col, (row, col) ∈ pairs ↔ node.c1 ≤ col ∧ col ≤ node.c2 ∧ node.r1 ≤ row ∧
      row ≤ node.r2 ∧ ex.Present spans node.sheet row col) ∧
    ex.presentCount usage node = pairs.length ∧
    ex.firstPresent usage node = pairs.head? ∧
    ∀ row col, (row, col) ∈ pairs ↔ node.c1 ≤ col ∧ col ≤ node.c2 ∧ node.r1 ≤ row ∧
      row ≤ node.r2 ∧ cellPresent usage (ex.sheetName usage node.sheet) row col = true := by
  intro usage pairs
  have hkeys := nodup_columnsOf ex spans node.sheet
  have hsep : ∀ column ∈ ex.columnsOf usage node.sheet, Separated column.2 :=
    fun column hcolumn => separated_columnsOf hcolumn
  refine ⟨pairwise_nodePairs hkeys hsep, fun row col => ?_, ?_,
    firstPresent_eq_head? hrows hkeys hsep, fun row col => ?_⟩
  · rw [mem_nodePairs hkeys, covers_itemsAt hnames]
  · rw [(perm_nodePairs ex usage node).length_eq, length_columnCells hrows hsep]
    rfl
  · rw [mem_nodePairs hkeys, cellPresent, runsHave_iff (separated_itemsAt ex spans _ col)]

def overlappingSpans : List Span := [⟨"S", 1, 5, 9⟩, ⟨"S", 1, 6, 3⟩, ⟨"S", 2, 4, 4⟩]

theorem usage_queries_overlapping :
    let ex : Expansion := ⟨id, fun _ => none, 0, 0, none⟩
    let node : RangeNode := ⟨"S!A1:B6", "S", 1, 2, 1, 6⟩
    let usage := ex.sheetUsageSpans overlappingSpans
    ex.NamesUnique overlappingSpans ∧ node.r1 ≤ node.r2 ∧
      ex.presentCount usage node = (ex.nodePairs usage node).length ∧
      ex.firstPresent usage node = (ex.nodePairs usage node).head? := by
  intro ex node usage
  have hnames : ex.NamesUnique overlappingSpans := fun _ _ _ _ h => h
  have hrows : node.r1 ≤ node.r2 := by decide
  have hqueries := usage_queries ex overlappingSpans hnames node hrows
  exact ⟨hnames, hrows, hqueries.2.2.1, hqueries.2.2.2.1⟩

end Queries

end Expansion

end FinanceContext.Csr
