import FinanceContext.ContextModel

namespace FinanceContext

open Dictionaries

abbrev CellMap := List ((String × ℕ × ℕ) × Cell)

def Cell.key (cell : Cell) : String × ℕ × ℕ := (cell.sheet, cell.row, cell.col)

def byAddr (cells : List Cell) : CellMap := filled (cells.map fun cell => (cell.key, cell))

def cellAt (cells : CellMap) (sheet : String) (row col : ℕ) : Option Cell :=
  get (sheet, row, col) cells

def blockViews (sheet : SheetLayout) (block : Block) : List (String × List AxisHeader) :=
  match block.kind with
  | .params =>
    [(block.blockId, (block.axis.elim [] Axis.headers).filter fun header =>
      header.role = some .value || header.role = some .unknown)]
  | .timeline => (axesFor sheet block).map fun axis =>
    (axis.id, (axis.periods.filter fun period =>
      isSeriesColumn (some period.kind) period.periodKey).map AxisPeriod.header)

/-- `row.kind not in _SERIES_KINDS`. -/
def RowKind.structural : RowKind → Bool
  | .fact | .flag | .helper => false
  | .abstract | .index => true

def formulaTemplateAt (cells : CellMap) (sheet : String) (row col : ℕ) : Option String :=
  (cellAt cells sheet row col).bind fun cell => cell.formulaTemplate.filter (· ≠ "")

def cachedAt (cells : CellMap) (sheet : String) (row col : ℕ) : Option String :=
  (cellAt cells sheet row col).bind fun cell => cell.cachedValue.filter (· ≠ "")

def rowNumberFormats (cells : CellMap) (sheet : String) (row : ℕ) (headers : List AxisHeader) :
    List String :=
  headers.filterMap fun header =>
    (cellAt cells sheet row header.col).bind fun cell => cell.numberFormat.filter (· ≠ "")

def parentLabel (rows : List LayoutRow) (row : LayoutRow) : Option String :=
  row.parentRow.bind fun parent =>
    if parent = 0 then none
    else ((rows.filter (·.row = parent)).getLast?).map (·.label)

def labelPath (row : LayoutRow) (parent : Option String) : List String :=
  match parent with
  | some label =>
    if label = "" ∨ label ∈ row.sectionPath then row.sectionPath else row.sectionPath ++ [label]
  | none => row.sectionPath

def ownUnit (cells : List RoleCell) : Option String :=
  cells.findSome? fun cell =>
    if cell.role = .unit then cell.cachedValue.filter (· ≠ "") else none

def unitFromCell (cells : List RoleCell) : Option String :=
  (cells.find? (·.role = .unit)).bind (·.cachedValue)

def unitRows (sheet : SheetLayout) (block : Block) : List ℕ :=
  (axesFor sheet block).map (·.headerRow) ++ block.axis.toList.map (·.row)

abbrev RunningUnit := Option String × Bool

/-- What one block reads besides its layout. -/
structure RowReads where
  cells : CellMap
  switches : List ℕ
  neighbors : ℕ → List String
  neighborRanges : ℕ → List String

namespace ContextText

variable (text : ContextText)

def shownText (cell : Cell) : Option String :=
  (text.cellText cell).or cell.cachedValue

def seriesText (cells : CellMap) (sheet : String) (row col : ℕ) : Option String :=
  ((cellAt cells sheet row col).bind text.shownText).filter (· ≠ "")

/-- One entry of `_series_numbers` before the scale is applied. -/
def seriesEntry (cells : CellMap) (sheet : String) (row : LayoutRow) (valueCols : List ℕ)
    (header : AxisHeader) : Option String × ValueStatus :=
  if header.col ∈ valueCols then
    let shown := text.seriesText cells sheet row.row header.col
    (shown, text.valueStatus shown !(row.kind.structural && shown = none))
  else (none, .notApplicable)

def seriesNumbers (cells : CellMap) (sheet : String) (row : LayoutRow)
    (headers valueHeaders : List AxisHeader) (factor : Option ℕ) :
    List (Option String) × List ValueStatus × List (Option String) :=
  let entries := headers.map (text.seriesEntry cells sheet row (valueHeaders.map (·.col)))
  (entries.map Prod.fst, entries.map Prod.snd,
    text.normalizeSeries (entries.map Prod.fst) factor)

def numericSummary (raws : List String) : Option NumericSummary :=
  let numbers := raws.filterMap text.parseNumber
  let sorted := numbers.insertionSort (· ≤ ·)
  if raws = [] then none
  else some
    { first := raws.head?
      last := raws.getLast?
      minimum := sorted.head?.map text.formatNumber
      maximum := sorted.getLast?.map text.formatNumber
      constant := decide (numbers ≠ [] ∧ numbers.dedup.length ≤ 1)
      n := numbers.length }

def rowFormulaAndNumbers (cells : CellMap) (sheet : String) (row : ℕ)
    (headers : List AxisHeader) : Option String × List String × Option NumericSummary :=
  let templates := headers.filterMap fun header => formulaTemplateAt cells sheet row header.col
  let fingerprint := (mostCommon templates).map Prod.fst
  let exceptions := headers.filterMap fun header =>
    (formulaTemplateAt cells sheet row header.col).bind fun template =>
      if fingerprint ≠ none ∧ some template ≠ fingerprint
      then some (nodeId sheet (formatAddr header.col row)) else none
  (fingerprint, exceptions.take 8,
    text.numericSummary (headers.filterMap fun header => cachedAt cells sheet row header.col))

def roleCell (cells : CellMap) (sheet : String) (row : LayoutRow) (item : RowCell) : RoleCell where
  addr := formatAddr item.col row.row
  col := item.col
  role := item.role
  cachedValue := (cellAt cells sheet row.row item.col).bind text.shownText
  header := item.header
  hidden := (cellAt cells sheet row.row item.col).any (·.hidden)

def roleCells (cells : CellMap) (sheet : String) (row : LayoutRow) : List RoleCell :=
  row.cells.map (text.roleCell cells sheet row)

def unitCaption (cell : Cell) : Option String :=
  (text.cellText cell).bind fun shown =>
    if shown ≠ "" && text.isBlockUnitCaption shown then some (text.strip shown) else none

def headerUnit (cells : CellMap) (sheet : SheetLayout) (block : Block) : Option String :=
  let found := cells.filterMap fun ((name, row, col), cell) =>
    if name = sheet.name ∧ row ∈ unitRows sheet block ∧ col = block.labelCol
    then (text.unitCaption cell).map (row, ·) else none
  ((found.insertionSort fun a b => a.1 ≤ b.1).head?).map Prod.snd

def unitStep (blockUnit : Option String) (running : RunningUnit) (row : LayoutRow) : RunningUnit :=
  if text.isBlockUnitCaption row.label then (some (text.strip row.label), true)
  else if running.2 = true ∧ row.kind = .abstract then (blockUnit, false)
  else running

def rowSeries (reads : RowReads) (sheet : String) (row : LayoutRow) (factor : Option ℕ)
    (view : String × List AxisHeader) : RowSeries :=
  let valueHeaders := if row.row ∈ reads.switches
    then view.2.filter (·.role = some .value) else view.2
  let formula := text.rowFormulaAndNumbers reads.cells sheet row.row valueHeaders
  let numbers := text.seriesNumbers reads.cells sheet row view.2 valueHeaders factor
  { axisId := view.1
    formula := formula.1
    formulaExceptions := formula.2.1
    numericSummary := formula.2.2
    values := numbers.1
    valueStatuses := numbers.2.1
    normalizedValues := numbers.2.2 }

def blockRow (reads : RowReads) (sheet : SheetLayout) (block : Block) (running : Option String)
    (row : LayoutRow) : BlockRow :=
  let views := blockViews sheet block
  let parent := parentLabel block.rows row
  let cells := text.roleCells reads.cells sheet.name row
  let unitText := (ownUnit cells).or
    (if text.isBlockUnitCaption row.label then none else running)
  let hints := text.resolvedHints row.label unitText (unitFromCell cells)
    (rowNumberFormats reads.cells sheet.name row.row (views.flatMap Prod.snd))
  let factor := scaleFactorFor hints.scale
  let series := views.map (text.rowSeries reads sheet.name row factor)
  let first := series.head?
  { rowKey := rowKey sheet.name row.row block.blockId
    sheet := sheet.name
    row := row.row
    label := row.label
    parentLabel := parent
    labelPath := labelPath row parent
    kind := row.kind
    unit := hints.unit
    formula := first.bind (·.formula)
    formulaExceptions := first.elim [] (·.formulaExceptions)
    indent := row.indent
    hidden := row.hidden
    checkRow := row.checkRow
    neighbors := reads.neighbors row.row
    neighborRanges := reads.neighborRanges row.row
    numericSummary := first.bind (·.numericSummary)
    hints := hints
    cells := cells
    scaleFactor := factor
    values := first.elim [] (·.values)
    valueStatuses := first.elim [] (·.valueStatuses)
    normalizedValues := first.elim [] (·.normalizedValues)
    series := series }

def blockRows (reads : RowReads) (sheet : SheetLayout) (block : Block)
    (blockUnit : Option String) : RunningUnit → List LayoutRow → List BlockRow
  | _, [] => []
  | running, row :: rows =>
    let next := text.unitStep blockUnit running row
    text.blockRow reads sheet block next.1 row :: blockRows reads sheet block blockUnit next rows

@[simp] theorem length_blockRows (reads : RowReads) (sheet : SheetLayout) (block : Block)
    (unit : Option String) (running : RunningUnit) (rows : List LayoutRow) :
    (text.blockRows reads sheet block unit running rows).length = rows.length := by
  induction rows generalizing running with
  | nil => rfl
  | cons row rows ih => simp [blockRows, ih]

end ContextText

end FinanceContext
