import FinanceContext.ContextAxes

namespace FinanceContext

open Dictionaries

/-- A cells file; its rows come back batch by batch in the stored order. -/
structure CellsFile where
  batches : List (List Cell)

def CellsFile.cells (file : CellsFile) : List Cell := file.batches.flatten

structure SheetMeta where
  name : String
  hidden : Bool := false
  hiddenRows : List ℕ := []
  hiddenCols : List ℕ := []

/-- What both builds are given. The last four come from the edges of the book. -/
structure BuildInput where
  sheets : List SheetMeta
  cellOrderWarnings : List String := []
  definedNames : List DefinedName
  layout : Layout
  relations : List RowRelation := []
  neighbors : String → ℕ → List String := fun _ _ => []
  neighborRanges : String → ℕ → List String := fun _ _ => []
  dangling : ℕ := 0

def SheetLayout.axisRows (sheet : SheetLayout) : List ℕ :=
  ((sheet.axes.map (·.headerRow)) ++ sheet.blocks.flatMap fun block =>
    block.axis.toList.map (·.row)).filter (· ≠ 0) ++
  sheet.blocks.flatMap fun block => (block.rows.filter (·.kind = .flag)).map (·.row)

def Layout.axisCellRows (layout : Layout) : List (String × List ℕ) :=
  ((layout.sheets.map (·.name)).dedup.map fun name =>
    (name, (layout.sheets.filter (·.name = name)).flatMap (·.axisRows))).filter (·.2 ≠ [])

def warningSample : ℕ := 3

def remember (sample : List String) (addr : String) : List String :=
  if sample.length < warningSample then sample ++ [addr] else sample

def countFormulaCell (notApplicable : List String) (stats : FormulaStats) (cell : Cell) :
    FormulaStats :=
  if Cell.given cell.formulaRaw then
    let missing := cell.cachedValue = none
    let counted := { stats with formulaCount := stats.formulaCount + 1 }
    let withMissing := if missing then
        { counted with
          missingCached := counted.missingCached + 1
          missingValues := counted.missingValues + if cell.node ∈ notApplicable then 0 else 1
          missingAddrs := if cell.node ∈ notApplicable then counted.missingAddrs
            else remember counted.missingAddrs cell.node }
      else counted
    if cell.unparsed then
      { withMissing with
        unparsed := withMissing.unparsed + 1
        unparsedAddrs := remember withMissing.unparsedAddrs cell.node }
    else withMissing
  else stats

/-- The loop of `_span_list`, with the span from `start` to `prev` open. -/
def spansFrom (start prev : ℕ) : List ℕ → List (ℕ × ℕ)
  | [] => [(start, prev)]
  | num :: nums =>
    if num = prev + 1 then spansFrom start num nums
    else (start, prev) :: spansFrom num num nums

def spansOf (values : List ℕ) : List (ℕ × ℕ) :=
  match values.dedup.insertionSort (· ≤ ·) with
  | [] => []
  | num :: nums => spansFrom num num nums

/-- `_one_span`. -/
def spanText (render : ℕ → List Char) (span : ℕ × ℕ) : List Char :=
  if span.1 = span.2 then render span.1 else render span.1 ++ ':' :: render span.2

/-- `_span_list`. -/
def spanListText (values : List ℕ) (render : ℕ → List Char) : List Char :=
  [','].intercalate ((spansOf values).map (spanText render))

def occupiedAt (position : Cell → ℕ) (occupied : List Cell) (sheet : String) : List ℕ :=
  (occupied.filter (·.sheet = sheet)).map position

def hiddenWarningsOf (occupied : List Cell) (sheet : SheetMeta) : List String :=
  let rows := String.ofList (spanListText (sheet.hiddenRows.filter
    (· ∈ occupiedAt (·.row) occupied sheet.name)) fun row => (toString row).toList)
  let cols := String.ofList (spanListText (sheet.hiddenCols.filter
    (· ∈ occupiedAt (·.col) occupied sheet.name)) indexToCol)
  (if sheet.hidden then ["Hidden sheet " ++ sheet.name ++ " is included"] else []) ++
    (if rows ≠ "" then ["Hidden rows " ++ sheet.name ++ "!" ++ rows ++ " are included"] else []) ++
      if cols ≠ "" then ["Hidden columns " ++ sheet.name ++ "!" ++ cols ++ " are included"] else []

/-- `_hidden_warnings`, over the cells that hold a value or a formula. -/
def hiddenWarnings (sheets : List SheetMeta) (occupied : List Cell) : List String :=
  (sheets.filter (·.name ≠ "")).flatMap (hiddenWarningsOf occupied)

def quoted (headers : List AxisHeader) : String :=
  String.intercalate ", " (headers.map fun header => "«" ++ header.text ++ "»")

def noAxisWarning (sheet : String) (row : ℕ) (headers : List AxisHeader) : String :=
  let cols := (headers.map (·.col)).insertionSort (· ≤ ·)
  let span := sheet ++ "!" ++ formatAddr (cols.head?.getD 0) row ++ ":" ++
    formatAddr (cols.getLast?.getD 0) row
  "No time axis on " ++ sheet ++ ": headers " ++ span ++
    " look like periods but do not form an axis (" ++ quoted headers ++
      "); columns kept as unknown"

def relationsForBlock (relations : List RowRelation) (blockId : String) : List RowRelation :=
  relations.filter fun relation =>
    (relation.source :: relation.keys).any fun key =>
      decide (("|" ++ blockId).toList <:+ key.text.toList)

namespace ContextText

variable (text : ContextText)

def unknownHeaderWarningsOf (sheet : SheetLayout) (block : Block) : List String :=
  match block.kind, block.axis with
  | .params, some axis =>
    let unknown := axis.headers.filter fun header =>
      header.role = some .unknown && header.text ≠ ""
    let periodish := unknown.filter fun header => text.periodHeader header.text
    let rest := if 2 ≤ periodish.length then unknown.filter (· ∉ periodish) else unknown
    (if 2 ≤ periodish.length then [noAxisWarning sheet.name axis.row periodish] else []) ++
      if rest = [] then []
      else ["Unrecognized column headers in " ++ block.blockId ++ ": " ++ quoted rest]
  | _, _ => []

def unknownHeaderWarnings (layout : Layout) : List String :=
  layout.sheets.flatMap fun sheet => sheet.blocks.flatMap (text.unknownHeaderWarningsOf sheet)

def hasContent (cell : Cell) : Bool :=
  cell.formulaRaw.any (text.strip · ≠ "") || cell.cachedValue.any (text.strip · ≠ "")

def unparsedPeriod (cell : Cell) : Option String :=
  cell.cachedValue.bind fun value =>
    (text.periodWarningValue value cell.numberFormat).filter fun shown =>
      shown ≠ "" && text.unparsedPeriodShape shown

/-- One cell in the loop of `_unparsed_period_warnings`: the keys seen, and the warnings. -/
def periodWarningStep (state : List (String × String) × List String) (cell : Cell) :
    List (String × String) × List String :=
  match text.unparsedPeriod cell with
  | none => state
  | some shown =>
    if (cell.sheet, shown) ∈ state.1 then state
    else (state.1 ++ [(cell.sheet, shown)],
      state.2 ++ ["Unparsed period header " ++ cell.node ++ ": «" ++ shown ++ "»"])

end ContextText

/-- The cell that the file path reads back: `addr`, `formula_raw` and `unparsed` stay on disk. -/
def Cell.built (cell : Cell) : Cell := { cell with formulaRaw := none, unparsed := false }

structure CellReads where
  switches : String → List ℕ
  headers : CellMap
  load : String → List ℕ → CellMap
  timelineWarnings : List String → List String
  formulaStats : List String → FormulaStats
  occupied : List Cell
  total : ℕ

section

variable (text : ContextText) (input : BuildInput)

def memoryReads (cells : List Cell) : CellReads where
  switches name := text.selectorRows input.definedNames name (cells.filter (·.sheet = name))
  headers := byAddr cells
  load sheet rows := (byAddr cells).filter fun p => p.1.1 = sheet ∧ p.1.2.1 ∈ rows
  timelineWarnings notes := (cells.foldl text.periodWarningStep ([], [])).2 ++ notes
  formulaStats notApplicable := cells.foldl (countFormulaCell notApplicable) {}
  occupied := cells.filter text.hasContent
  total := cells.length

def loadSheetRows (file : CellsFile) (sheet : String) (rows : List ℕ) : CellMap :=
  byAddr ((file.cells.filter fun cell => cell.sheet = sheet ∧ cell.row ∈ rows).map Cell.built)

def fileReads (file : CellsFile) : CellReads where
  switches name := text.selectorRows input.definedNames name
    (text.switchRows input.definedNames name (file.cells.filter (·.sheet = name)))
  headers := filled (input.layout.axisCellRows.flatMap fun p => loadSheetRows file p.1 p.2)
  load := loadSheetRows file
  timelineWarnings notes := notes ++ (file.batches.foldl
    (fun state batch => batch.foldl text.periodWarningStep state) ([], [])).2
  formulaStats notApplicable := file.batches.foldl
    (fun stats batch => batch.foldl (countFormulaCell notApplicable) stats) {}
  occupied := file.batches.flatMap fun batch => batch.filter text.hasContent
  total := (file.batches.map List.length).sum

def blockReads (reads : CellReads) (sheet : SheetLayout) (block : Block) : RowReads where
  cells := reads.load sheet.name (block.rows.map (·.row))
  switches := reads.switches sheet.name
  neighbors := input.neighbors sheet.name
  neighborRanges := input.neighborRanges sheet.name

def buildBlock (reads : CellReads) (axes : List ContextAxis) (sheet : SheetLayout)
    (block : Block) : FinancialBlock :=
  let views := blockViews sheet block
  let axisIds := match block.kind with
    | .params => []
    | .timeline => (views.map Prod.fst).reverse.dedup.reverse
  let unit := text.headerUnit reads.headers sheet block
  { blockId := block.blockId
    sheet := sheet.name
    labelCol := block.labelCol
    kind := block.kind
    axisIds := axisIds
    periods := if axisIds ≠ [] then localPeriods views axes
      else (views.flatMap Prod.snd).map periodOfHeader
    rows := text.blockRows (blockReads input reads sheet block) sheet block unit (unit, false) block.rows
    relations := relationsForBlock input.relations block.blockId }

def buildBlocks (reads : CellReads) (axes : List ContextAxis) : List FinancialBlock :=
  input.layout.sheets.flatMap fun sheet => sheet.blocks.map (buildBlock text input reads axes sheet)

/-- The cells of a published row at which a series has no value by design. -/
def notApplicableOf (layout : Layout) (blocks : List FinancialBlock) : List String :=
  ((layout.sheets.flatMap fun sheet => sheet.blocks.map (sheet, ·)).zip blocks).flatMap
    fun ((sheet, block), built) => built.rows.flatMap fun row =>
      ((blockViews sheet block).zip row.series).flatMap fun (view, series) =>
        (view.2.zip series.valueStatuses).filterMap fun (header, status) =>
          if status = .notApplicable then some (nodeId sheet.name (formatAddr header.col row.row))
          else none

def sampleOf (addrs : List String) : String := String.intercalate ", " (addrs.take warningSample)

def leadingWarnings (stats : FormulaStats) (streamed : ℕ) : List String :=
  let expected := (input.layout.sheets.flatMap fun sheet => sheet.blocks.flatMap (·.rows)).length
  input.cellOrderWarnings.filter (· ≠ "") ++
    (if stats.unparsed ≠ 0 then [toString stats.unparsed ++ " unparsed formula(s) (e.g. " ++
      sampleOf stats.unparsedAddrs ++ ")"] else []) ++
    if streamed ≠ expected then ["Content completeness " ++ toString streamed ++ "/" ++
      toString expected ++ " layout rows"] else []

def trailingWarnings (reads : CellReads) (stats : FormulaStats) : List String :=
  (if stats.missingValues ≠ 0 then [toString stats.missingValues ++
    " formula cell(s) missing cached values" ++ (if stats.missingAddrs = [] then ""
      else " (e.g. " ++ sampleOf stats.missingAddrs ++ ")")] else []) ++
  (if input.dangling ≠ 0 then ["Graph: " ++ toString input.dangling ++
    " unresolved formula targets (see graph.json)"] else []) ++
  hiddenWarnings input.sheets reads.occupied ++ text.unknownHeaderWarnings input.layout

def buildContext (reads : CellReads) : ContextDocument :=
  let axes := text.buildAxes reads.headers input.layout
  let blocks := buildBlocks text input reads axes
  let stats := reads.formulaStats (notApplicableOf input.layout blocks)
  { workbook :=
      { sheets := input.sheets.map (·.name)
        cellCount := reads.total
        definedNames := input.definedNames.map fun item => (item.name, item.formula)
        formulaCount := stats.formulaCount
        missingCachedValues := stats.missingCached
        unparsedFormulas := stats.unparsed }
    axes := axes
    blocks := blocks
    warnings := (leadingWarnings input stats (blocks.flatMap (·.rows)).length ++
      reads.timelineWarnings input.layout.axisNotes ++
        trailingWarnings text input reads stats).take 50 }

end

end FinanceContext
