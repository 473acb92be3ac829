import FinanceContext.GraphLinks

namespace FinanceContext

open Dictionaries

namespace Layout

def lastHeader (layout : Layout) (name : String) (col : ℕ) : Option AxisHeader :=
  (((layout.placed name).flatMap fun p => periodHeaders p.1 p.2).filter
    (·.col = col)).getLast?

theorem filter_periodEntries (layout : Layout) (name : String) (col : ℕ) :
    layout.periodEntries.filter (·.1 = (name, col)) =
      (((layout.placed name).flatMap fun p => periodHeaders p.1 p.2).filter
        (·.col = col)).map fun header => ((name, col), header.periodKey) := by
  rw [← flatMap_sheets layout name, periodEntries, List.filter_flatMap, List.filter_flatMap,
    List.map_flatMap]
  congr 1
  funext sheet
  by_cases hname : sheet.name = name
  · subst hname
    simp only [if_true, List.filter_flatMap, List.map_flatMap]
    congr 1
    funext block
    induction periodHeaders sheet block with
    | nil => rfl
    | cons h headers ih => by_cases hc : h.col = col <;> simp_all
  · simp [hname, List.filter_flatMap]

theorem get_rowMeta (layout : Layout) (name : String) (row : ℕ) :
    get (name, row) layout.rowMeta =
      (layout.lastBlock name row).map fun block => rowKey name row block.blockId := by
  rw [rowMeta, get_rowEntries]

theorem get_periodByCell (layout : Layout) (name : String) (col : ℕ) :
    get (name, col) layout.periodByCell = (layout.lastHeader name col).map (·.periodKey) := by
  rw [periodByCell, get_filled, filter_periodEntries, List.getLast?_map, Option.map_map]
  rfl

end Layout

/-- What a record of the graph must keep of the row and the period it was made with. -/
def Formula.identity (f : Formula) : Option String × Option String := (f.rowKey, f.periodId)

def cellIdentity (layout : Layout) (cell : Cell) : Option String × Option String :=
  (get (cell.sheet, cell.row) layout.rowMeta, get (cell.sheet, cell.col) layout.periodByCell)

theorem identity_formulaEntry {layout : Layout} {cell : Cell} {e : String × Formula}
    (h : formulaEntry layout cell = some e) :
    e.1 = cell.node ∧ e.2.identity = cellIdentity layout cell := by
  unfold formulaEntry at h
  split at h
  · split_ifs at h
    rw [← Option.some.inj h]
    exact ⟨rfl, rfl⟩
  · cases h

theorem exists_formulaEntry {layout : Layout} {cell : Cell} (hf : Cell.given cell.formulaRaw) :
    ∃ e, formulaEntry layout cell = some e := by
  unfold formulaEntry
  cases hraw : cell.formulaRaw with
  | none => simp [Cell.given, hraw] at hf
  | some raw =>
    have hne : raw ≠ "" := by simpa [Cell.given, hraw] using hf
    exact ⟨_, if_neg hne⟩

theorem identity_formulasFromCells {layout : Layout} {cells : List Cell} {cell : Cell}
    (hc : cell ∈ cells) (hf : Cell.given cell.formulaRaw) :
    (get cell.node (formulasFromCells layout cells)).map Formula.identity =
      some (cellIdentity layout cell) := by
  obtain ⟨e, he⟩ : ∃ e, formulaEntry layout cell = some e := exists_formulaEntry hf
  have hmem : e ∈ (cells.filterMap (formulaEntry layout)).filter (·.1 = cell.node) := by
    refine List.mem_filter.mpr ⟨List.mem_filterMap.mpr ⟨cell, hc, he⟩, ?_⟩
    simpa using (identity_formulaEntry he).1
  have hne := List.ne_nil_of_mem hmem
  obtain ⟨hin, hnode⟩ := List.mem_filter.mp (List.getLast_mem hne)
  obtain ⟨c, -, hlast⟩ := List.mem_filterMap.mp hin
  obtain ⟨hcn, hid⟩ := identity_formulaEntry hlast
  obtain ⟨hsheet, hrow, hcol⟩ := Cell.node_inj (hcn.symm.trans (of_decide_eq_true hnode))
  rw [formulasFromCells, get_filled, List.getLast?_eq_some_getLast hne]
  simp only [Option.map_some, hid, cellIdentity, hsheet, hrow, hcol]

theorem identity_bindRef {node : String} {formulas : List (String × Formula)} {edge : Edge}
    {id : Option String × Option String}
    (h : (get node formulas).map Formula.identity = some id) :
    (get node (bindRef formulas edge)).map Formula.identity = some id := by
  unfold bindRef
  split_ifs
  · exact h
  · rw [get_set]
    split_ifs with hnode
    · subst hnode
      cases hg : get edge.source formulas with
      | none => rw [hg] at h; cases h
      | some f => rw [hg] at h; exact h
    · exact h

theorem identity_bindRefs {node : String} {edges : List Edge} {formulas : List (String × Formula)}
    {id : Option String × Option String}
    (h : (get node formulas).map Formula.identity = some id) :
    (get node (bindRefs edges formulas)).map Formula.identity = some id := by
  induction edges generalizing formulas with
  | nil => exact h
  | cons edge edges ih => exact ih (identity_bindRef h)

theorem nodup_bindRefs {edges : List Edge} {formulas : List (String × Formula)}
    (h : (formulas.map Prod.fst).Nodup) : ((bindRefs edges formulas).map Prod.fst).Nodup := by
  induction edges generalizing formulas with
  | nil => exact h
  | cons edge edges ih =>
    apply ih
    unfold bindRef
    split_ifs
    · exact h
    · exact nodup_keys_set h

section

variable (classify : Option String → List String → List String → Option FormulaClass)
  (lags : String → List String) (layout : Layout) (cells : List Cell) (edges : List Edge)

def graphLinks : List FormulaLink :=
  linksFromFormulas classify lags (bindRefs edges (formulasFromCells layout cells))

variable {classify lags layout cells edges}

theorem mem_graphLinks {link : FormulaLink} :
    link ∈ graphLinks classify lags layout cells edges ↔
      ∃ f, get link.cell (bindRefs edges (formulasFromCells layout cells)) = some f ∧
        link = { cell := link.cell, formula := f.formula
                 formulaClass := classify f.formula f.refs (lags link.cell), refs := f.refs
                 rowKey := f.rowKey, periodId := f.periodId } := by
  have hnodup : ((bindRefs edges (formulasFromCells layout cells)).map Prod.fst).Nodup :=
    nodup_bindRefs (nodup_keys_filled _)
  simp only [graphLinks, linksFromFormulas, List.mem_map, List.mem_insertionSort]
  constructor
  · rintro ⟨⟨node, f⟩, hmem, rfl⟩
    exact ⟨f, get_of_mem hnodup hmem, rfl⟩
  · rintro ⟨f, hget, hlink⟩
    exact ⟨(link.cell, f), mem_of_get hget, hlink.symm⟩

variable (classify lags layout edges) in
theorem identity_graphLinks {cell : Cell} (hc : cell ∈ cells) (hf : Cell.given cell.formulaRaw) :
    (∃ link ∈ graphLinks classify lags layout cells edges, link.cell = cell.node) ∧
      ∀ link ∈ graphLinks classify lags layout cells edges, link.cell = cell.node →
        (link.rowKey, link.periodId) = cellIdentity layout cell := by
  have hid : (get cell.node (bindRefs edges (formulasFromCells layout cells))).map
      Formula.identity = some (cellIdentity layout cell) :=
    identity_bindRefs (identity_formulasFromCells hc hf)
  constructor
  · cases hget : get cell.node (bindRefs edges (formulasFromCells layout cells)) with
    | none => rw [hget] at hid; cases hid
    | some f =>
      exact ⟨⟨cell.node, f.formula, classify f.formula f.refs (lags cell.node), f.refs, f.rowKey,
        f.periodId⟩, mem_graphLinks.mpr ⟨f, hget, rfl⟩, rfl⟩
  · intro link hlink hnode
    obtain ⟨f, hget, heq⟩ := mem_graphLinks.mp hlink
    rw [hnode] at hget
    rw [hget] at hid
    rw [heq]
    exact Option.some.inj hid

end

/-- The keys of the periods that the block's own axes have at a column. -/
def seriesKeys (sheet : SheetLayout) (block : Block) (col : ℕ) : List String :=
  (axesFor sheet block).flatMap fun axis =>
    (axis.periods.filter fun p => p.col = col && isSeriesColumn p.kind p.periodKey).map
      (·.periodKey)

/-- The row key and the period that a cell of this block must carry. -/
structure Identifies (sheet : SheetLayout) (block : Block) (cell : Cell)
    (id : Option String × Option String) : Prop where
  row : id.1 = some (rowKey sheet.name cell.row block.blockId)
  period : ∀ key, id.2 = some key → key ∈ seriesKeys sheet block cell.col
  outside : id.2 = none → seriesKeys sheet block cell.col = []

namespace Layout

/-- The last block of the layout that lists the row is this one, or shares its id. -/
def OwnsRow (layout : Layout) (sheet : SheetLayout) (block : Block) (row : ℕ) : Prop :=
  ∃ last, layout.lastBlock sheet.name row = some last ∧ last.blockId = block.blockId

/-- The last header of the sheet at the column names a period of the block's own axes, or
there is no header and no such period. -/
def OwnsColumn (layout : Layout) (sheet : SheetLayout) (block : Block) (col : ℕ) : Prop :=
  match layout.lastHeader sheet.name col with
  | some header => header.periodKey ∈ seriesKeys sheet block col
  | none => seriesKeys sheet block col = []

theorem identifies_iff (layout : Layout) (sheet : SheetLayout) (block : Block) {cell : Cell}
    (hname : cell.sheet = sheet.name) :
    Identifies sheet block cell (cellIdentity layout cell) ↔
      layout.OwnsRow sheet block cell.row ∧ layout.OwnsColumn sheet block cell.col := by
  have hrow : (cellIdentity layout cell).1 =
      (layout.lastBlock sheet.name cell.row).map fun b =>
        rowKey sheet.name cell.row b.blockId := by
    rw [cellIdentity, hname, get_rowMeta]
  have hcol : (cellIdentity layout cell).2 =
      (layout.lastHeader sheet.name cell.col).map (·.periodKey) := by
    rw [cellIdentity, hname, get_periodByCell]
  constructor
  · rintro ⟨hr, hp, ho⟩
    rw [hrow] at hr
    rw [hcol] at hp ho
    constructor
    · obtain ⟨last, hlast, hkey⟩ := Option.map_eq_some_iff.mp hr
      exact ⟨last, hlast, (rowKey_inj hkey).2⟩
    · unfold OwnsColumn
      cases hh : layout.lastHeader sheet.name cell.col with
      | none => exact ho (by rw [hh]; rfl)
      | some header => exact hp header.periodKey (by rw [hh]; rfl)
  · rintro ⟨⟨last, hlast, hid⟩, hown⟩
    unfold OwnsColumn at hown
    refine ⟨?_, fun key hkey => ?_, fun hnone => ?_⟩
    · rw [hrow, hlast, Option.map_some, hid]
    · rw [hcol] at hkey
      obtain ⟨header, hh, rfl⟩ := Option.map_eq_some_iff.mp hkey
      rw [hh] at hown
      exact hown
    · rw [hcol, Option.map_eq_none_iff] at hnone
      rw [hnone] at hown
      exact hown

end Layout

/-- A formula cell of any block, on any sheet of its name. -/
theorem cell_period_iff
    (classify : Option String → List String → List String → Option FormulaClass)
    (lags : String → List String) (layout : Layout) (cells : List Cell) (edges : List Edge)
    (sheet : SheetLayout) (block : Block) {cell : Cell} (hc : cell ∈ cells)
    (hf : Cell.given cell.formulaRaw) (hname : cell.sheet = sheet.name) :
    ((∃ link ∈ graphLinks classify lags layout cells edges, link.cell = cell.node) ∧
      (∀ link ∈ graphLinks classify lags layout cells edges, link.cell = cell.node →
        Identifies sheet block cell (link.rowKey, link.periodId)) ∧
      Identifies sheet block cell
        ((indexRow layout cell).rowKey, (indexRow layout cell).periodId)) ↔
      layout.OwnsRow sheet block cell.row ∧ layout.OwnsColumn sheet block cell.col := by
  obtain ⟨hexists, hid⟩ := identity_graphLinks classify lags layout edges hc hf
  rw [← layout.identifies_iff sheet block hname]
  constructor
  · exact fun h => h.2.2
  · intro h
    refine ⟨hexists, fun link hlink hnode => ?_, h⟩
    rw [hid link hlink hnode]
    exact h

def yearAxis (id year : String) (row : ℕ) : TimeAxis where
  id := id
  headerRow := row
  periods := [{ col := 4, text := year, periodKey := year }]

def yearBlock (id : String) (row : ℕ) : Block where
  blockId := id
  labelCol := 2
  axisIds := [id]
  rows := [{ row := row, label := "Sales" }]

def stackedTables : SheetLayout where
  name := "PL"
  axes := [yearAxis "PL!r3" "2024" 3, yearAxis "PL!r20" "2025" 20]
  blocks := [yearBlock "PL!r3" 4, yearBlock "PL!r20" 21]

def upperCell : Cell where
  sheet := "PL"
  row := 4
  col := 4
  row_pos := by decide
  col_pos := by decide
  formulaRaw := some "=D1*2"

def lowerCell : Cell where
  sheet := "PL"
  row := 21
  col := 4
  row_pos := by decide
  col_pos := by decide
  formulaRaw := some "=D18*2"

theorem cell_period_iff_lower :
    Identifies stackedTables (yearBlock "PL!r20" 21) lowerCell
      ((indexRow ⟨[stackedTables]⟩ lowerCell).rowKey,
        (indexRow ⟨[stackedTables]⟩ lowerCell).periodId) := by
  refine ((cell_period_iff (fun _ _ _ => none) (fun _ => []) ⟨[stackedTables]⟩ [lowerCell] []
    stackedTables (yearBlock "PL!r20" 21) (List.mem_singleton.mpr rfl) (by decide) rfl).mpr
      ⟨⟨yearBlock "PL!r20" 21, by decide, rfl⟩, ?_⟩).2.2
  change "2025" ∈ seriesKeys stackedTables (yearBlock "PL!r20" 21) 4
  decide

/-- The upper table's cell is given the lower table's year. -/
theorem stackedTables_misnamed :
    yearBlock "PL!r3" 4 ∈ stackedTables.blocks ∧ (yearBlock "PL!r3" 4).kind = .timeline ∧
      (∃ row ∈ (yearBlock "PL!r3" 4).rows, row.row = upperCell.row) ∧
      seriesKeys stackedTables (yearBlock "PL!r3" 4) upperCell.col = ["2024"] ∧
      ∀ link ∈ graphLinks (fun _ _ _ => none) (fun _ => []) ⟨[stackedTables]⟩ [upperCell] [],
        link.cell = upperCell.node → link.periodId = some "2025" ∧
          ¬Identifies stackedTables (yearBlock "PL!r3" 4) upperCell
            (link.rowKey, link.periodId) := by
  refine ⟨by decide, rfl, by decide, by decide, fun link hlink hnode => ?_⟩
  have hid := (identity_graphLinks _ _ _ _ (List.mem_singleton.mpr rfl) (by decide)).2 link hlink hnode
  have hperiod : link.periodId = some "2025" :=
    (congrArg Prod.snd hid).trans (by decide)
  refine ⟨hperiod, fun h => ?_⟩
  have hkey := h.period "2025" hperiod
  revert hkey
  decide

end FinanceContext
