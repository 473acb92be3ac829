import FinanceContext.RelationSources

/-!
Relations do not depend on the order in which the formula cells are delivered, as long as the
cells of each row come together.
-/

namespace FinanceContext

open Dictionaries

/-- The cells of each sheet row are one piece of the delivery. -/
def RowsContiguous (cells : List RelationCell) : Prop :=
  ∀ key, cells.filter (·.key = key) <:+: cells

theorem rowsContiguous_of_keys {cells : List RelationCell}
    (h : ∀ c ∈ cells, cells.filter (·.key = c.key) <:+: cells) : RowsContiguous cells := by
  intro key
  by_cases hnil : cells.filter (·.key = key) = []
  · rw [hnil]
    exact List.nil_infix
  · obtain ⟨c, hc⟩ := List.exists_mem_of_ne_nil _ hnil
    obtain ⟨hmem, hkey⟩ := List.mem_filter.mp hc
    rw [← of_decide_eq_true hkey]
    exact h c hmem

/-- The same cells, those of one address in one order. -/
def SameCells (cells cells' : List RelationCell) : Prop :=
  ∀ key col, cells.filter (fun c => c.key = key ∧ c.col = col) =
    cells'.filter fun c => c.key = key ∧ c.col = col

theorem sameCells_of_perm {cells cells' : List RelationCell} (hperm : cells.Perm cells')
    (hnodup : (cells.map fun c => (c.key, c.col)).Nodup) : SameCells cells cells' := by
  intro key col
  have hshort (l : List RelationCell) (h : (l.map fun c => (c.key, c.col)).Nodup) :
      (l.filter fun c => c.key = key ∧ c.col = col).length ≤ 1 := by
    have hsub := (h.sublist (List.filter_sublist.map fun c : RelationCell => (c.key, c.col)) :
      ((l.filter fun c => c.key = key ∧ c.col = col).map fun c => (c.key, c.col)).Nodup)
    rw [List.map_congr_left (g := fun _ => (key, col)), List.map_const'] at hsub
    · rw [List.nodup_replicate] at hsub
      exact hsub
    · intro c hc
      obtain ⟨hkey, hcol⟩ := of_decide_eq_true (List.mem_filter.mp hc).2
      rw [hkey, hcol]
  have hfilter := hperm.filter fun c => c.key = key ∧ c.col = col
  have hlength := hshort cells hnodup
  generalize cells.filter (fun c => c.key = key ∧ c.col = col) = l at hfilter hlength
  cases l with
  | nil => exact (List.nil_perm.mp hfilter).symm
  | cons c l =>
    obtain rfl : l = [] := by
      apply List.eq_nil_of_length_eq_zero
      rw [List.length_cons] at hlength
      omega
    exact List.singleton_perm.mp hfilter

theorem key_of_mem_rowRuns {cells : List RelationCell} {p : (String × ℕ) × List RelationCell}
    (h : p ∈ rowRuns cells) : ∃ cell ∈ cells, cell.key = p.1 := by
  obtain ⟨run, hrun, hp⟩ := List.mem_filterMap.mp h
  obtain ⟨cell, hcell, rfl⟩ := Option.map_eq_some_iff.mp hp
  refine ⟨cell, ?_, rfl⟩
  rw [← List.flatten_splitBy (fun a b : RelationCell => decide (a.key = b.key)) cells]
  exact List.mem_flatten_of_mem hrun (List.mem_of_head? hcell)

theorem rowRuns_append {cells cells' : List RelationCell}
    (h : ∀ x ∈ cells.getLast?, ∀ y ∈ cells'.head?, x.key ≠ y.key) :
    rowRuns (cells ++ cells') = rowRuns cells ++ rowRuns cells' := by
  unfold rowRuns
  rw [List.splitBy_append fun x hx y hy => decide_eq_false (h x hx y hy), List.filterMap_append]

theorem rowRuns_of_row {run : List RelationCell} {key : String × ℕ} (hne : run ≠ [])
    (h : ∀ c ∈ run, c.key = key) : rowRuns run = [(key, run)] := by
  have hchain : run.IsChain fun a b => decide (a.key = b.key) = true := by
    apply List.Pairwise.isChain
    apply List.pairwise_of_forall_mem_list
    intro a ha b hb
    exact decide_eq_true ((h a ha).trans (h b hb).symm)
  unfold rowRuns
  rw [List.splitBy_of_isChain hne hchain]
  cases run with
  | nil => exact absurd rfl hne
  | cons c run => simp [h c List.mem_cons_self]

theorem filter_rowRuns_of_forall {cells : List RelationCell} {key : String × ℕ}
    (h : ∀ c ∈ cells, c.key ≠ key) : (rowRuns cells).filter (·.1 = key) = [] := by
  apply List.filter_eq_nil_iff.mpr
  intro p hp hkey
  obtain ⟨cell, hcell, hcellKey⟩ := key_of_mem_rowRuns hp
  exact h cell hcell (hcellKey.trans (of_decide_eq_true hkey))

theorem exists_split_of_contiguous {cells : List RelationCell} (h : RowsContiguous cells)
    (key : String × ℕ) :
    ∃ before after, before ++ cells.filter (·.key = key) ++ after = cells ∧
      (∀ c ∈ before, c.key ≠ key) ∧ ∀ c ∈ after, c.key ≠ key := by
  obtain ⟨before, after, hsplit⟩ := h key
  have hcount := congrArg (fun l => (l.filter (·.key = key)).length) hsplit
  simp only [List.filter_append, List.filter_filter, Bool.and_self, List.length_append] at hcount
  have hbefore : before.filter (·.key = key) = [] := by
    apply List.eq_nil_of_length_eq_zero
    omega
  have hafter : after.filter (·.key = key) = [] := by
    apply List.eq_nil_of_length_eq_zero
    omega
  refine ⟨before, after, hsplit, ?_, ?_⟩
  · intro c hc hkey
    exact List.filter_eq_nil_iff.mp hbefore c hc (decide_eq_true hkey)
  · intro c hc hkey
    exact List.filter_eq_nil_iff.mp hafter c hc (decide_eq_true hkey)

theorem get_rowRuns_of_contiguous {cells : List RelationCell} (h : RowsContiguous cells)
    {key : String × ℕ} (hne : cells.filter (·.key = key) ≠ []) :
    get key (filled (rowRuns cells)) = some (cells.filter (·.key = key)) := by
  obtain ⟨before, after, hsplit, hbefore, hafter⟩ := exists_split_of_contiguous h key
  have hrun : ∀ c ∈ cells.filter (·.key = key), c.key = key := by
    intro c hc
    exact of_decide_eq_true (List.mem_filter.mp hc).2
  generalize cells.filter (·.key = key) = run at hne hsplit hrun
  have hruns : rowRuns cells = rowRuns before ++ rowRuns run ++ rowRuns after := by
    rw [← hsplit, rowRuns_append, rowRuns_append]
    · intro x hx y hy hxy
      exact hbefore x (List.mem_of_getLast? hx) (hxy.trans (hrun y (List.mem_of_head? hy)))
    · intro x hx y hy hxy
      rw [List.getLast?_append_of_ne_nil _ hne] at hx
      exact hafter y (List.mem_of_head? hy) (hxy.symm.trans (hrun x (List.mem_of_getLast? hx)))
  rw [get_filled, hruns, rowRuns_of_row hne hrun, List.filter_append, List.filter_append,
    filter_rowRuns_of_forall hbefore, filter_rowRuns_of_forall hafter]
  simp

theorem get_rowRuns_of_nil {cells : List RelationCell} {key : String × ℕ}
    (h : cells.filter (·.key = key) = []) : get key (filled (rowRuns cells)) = none := by
  rw [get_filled, filter_rowRuns_of_forall]
  · rfl
  · intro c hc hkey
    exact List.filter_eq_nil_iff.mp h c hc (decide_eq_true hkey)

theorem colmap_filter (cells : List RelationCell) (key : String × ℕ) (col : ℕ) :
    colmap (cells.filter (·.key = key)) col =
      (cells.filter fun c => c.key = key ∧ c.col = col).getLast? := by
  unfold colmap
  rw [List.filter_filter]
  congr 2
  funext c
  simp [and_comm]

section

variable {cells cells' : List RelationCell}

theorem SameCells.colmap_eq (h : SameCells cells cells') (key : String × ℕ) :
    colmap (cells.filter (·.key = key)) = colmap (cells'.filter (·.key = key)) := by
  funext col
  rw [colmap_filter, colmap_filter, h key col]

theorem SameCells.symm (h : SameCells cells cells') : SameCells cells' cells :=
  fun key col => (h key col).symm

theorem SameCells.filter_eq_nil (h : SameCells cells cells') {key : String × ℕ}
    (hnil : cells.filter (·.key = key) = []) : cells'.filter (·.key = key) = [] := by
  apply List.filter_eq_nil_iff.mpr
  intro c hc hkey
  have hmem : c ∈ cells.filter fun d => d.key = key ∧ d.col = c.col := by
    rw [h key c.col]
    exact List.mem_filter.mpr ⟨hc, decide_eq_true ⟨of_decide_eq_true hkey, rfl⟩⟩
  exact List.filter_eq_nil_iff.mp hnil c (List.mem_filter.mp hmem).1 hkey

theorem get_rowRuns_order (hcells : RowsContiguous cells) (hcells' : RowsContiguous cells')
    (hsame : SameCells cells cells') (key : String × ℕ) :
    (get key (filled (rowRuns cells))).map colmap =
      (get key (filled (rowRuns cells'))).map colmap := by
  by_cases hnil : cells.filter (·.key = key) = []
  · rw [get_rowRuns_of_nil hnil, get_rowRuns_of_nil (hsame.filter_eq_nil hnil)]
  · have hnil' : cells'.filter (·.key = key) ≠ [] := fun h => hnil (hsame.symm.filter_eq_nil h)
    rw [get_rowRuns_of_contiguous hcells hnil, get_rowRuns_of_contiguous hcells' hnil',
      Option.map_some, Option.map_some, hsame.colmap_eq key]

variable (casefold upper : String → String) (layout : Layout)

theorem relationOf_order (hcells : RowsContiguous cells) (hcells' : RowsContiguous cells')
    (hsame : SameCells cells cells') {sheet : SheetLayout} {block : Block} {row : LayoutRow}
    (hs : sheet ∈ layout.sheets) (hb : block ∈ sheet.blocks) (hr : row ∈ block.rows) :
    relationOf casefold upper layout cells sheet block row =
      relationOf casefold upper layout cells' sheet block row := by
  have hcols := periodCols_mem_periodsAt hs hb hr
  have hpattern := congrArg (Option.map fun view => patternForRow casefold upper view
    sheet.name row.row (Layout.periodCols sheet block))
      (get_rowRuns_order hcells hcells' hsame (sheet.name, row.row))
  rw [Option.map_map, Option.map_map] at hpattern
  unfold relationOf
  rw [get_rowPatterns hcols, get_rowPatterns hcols]
  exact congrArg (Option.bind · _) hpattern

theorem formulaRelations_order (hcells : RowsContiguous cells)
    (hcells' : RowsContiguous cells') (hsame : SameCells cells cells') :
    formulaRelations casefold upper layout cells =
      formulaRelations casefold upper layout cells' := by
  unfold formulaRelations
  apply List.flatMap_congr
  intro sheet hs
  apply List.flatMap_congr
  intro block hb
  apply List.filterMap_congr
  intro row hr
  exact relationOf_order casefold upper layout hcells hcells' hsame hs hb hr

end

def quarterBlock : Block where
  blockId := "CF!r1"
  labelCol := 1
  axis := some ⟨"CF!r1", 1, [{ col := 4, text := "2024", kind := some .period, periodKey := "2024" },
    { col := 5, text := "2025", kind := some .period, periodKey := "2025" }]⟩
  rows := [2, 3, 10].map fun n => { row := n, label := "Line" }

def quarterLayout : Layout := ⟨[⟨"CF", false, [], [quarterBlock]⟩]⟩

/-- `=D2` in `CF!D3`. -/
def linkCell : RelationCell := ⟨"CF", 3, 4, none, some (.ref { row := 2, col := 4 })⟩

/-- `=1` in `CF!E10`. -/
def fixedCell : RelationCell := ⟨"CF", 10, 5, none, some (.num "1")⟩

theorem formulaRelations_order_columns :
    formulaRelations lowered uppered quarterLayout [totalCell none, fixedCell, linkCell] =
      formulaRelations lowered uppered quarterLayout [linkCell, fixedCell, totalCell none] := by
  apply formulaRelations_order
  · apply rowsContiguous_of_keys
    rintro c (_ | ⟨_, _ | ⟨_, _ | ⟨_, hc⟩⟩⟩)
    · exact ⟨[], [linkCell], rfl⟩
    · exact ⟨[], [linkCell], rfl⟩
    · exact ⟨[totalCell none, fixedCell], [], rfl⟩
    · cases hc
  · apply rowsContiguous_of_keys
    rintro c (_ | ⟨_, _ | ⟨_, _ | ⟨_, hc⟩⟩⟩)
    · exact ⟨[], [fixedCell, totalCell none], rfl⟩
    · exact ⟨[linkCell], [], rfl⟩
    · exact ⟨[linkCell], [], rfl⟩
    · cases hc
  · apply sameCells_of_perm
    · exact List.reverse_perm [linkCell, fixedCell, totalCell none]
    · decide

/-- The total of row 10 is lost when a cell of row 3 comes between the cells of row 10. -/
theorem interleaved_row_lost :
    [totalCell none, fixedCell, linkCell].Perm [totalCell none, linkCell, fixedCell] ∧
      formulaRelations lowered uppered quarterLayout [totalCell none, fixedCell, linkCell] ≠
        formulaRelations lowered uppered quarterLayout [totalCell none, linkCell, fixedCell] := by
  refine ⟨(List.Perm.swap _ _ _).cons _, ?_⟩
  decide

end FinanceContext
