import FinanceContext.ContextModel
import FinanceContext.FirstOccurrences
import FinanceContext.NodeIds
import FinanceContext.TextLines

namespace FinanceContext.Markdown

open Dictionaries FirstOccurrences TextLines

def strip (text : String) : String := String.ofList (stripChars isSpace text.toList)

/-- `_MD_ESCAPE`. -/
def escaped : List Char → List Char
  | [] => []
  | '|' :: text => '\\' :: '|' :: escaped text
  | '\n' :: text => ' ' :: escaped text
  | ch :: text => ch :: escaped text

def cell (text : String) : String := strip (String.ofList (escaped text.toList))

def given : Option String → Option String
  | some text => if text = "" then none else some text
  | none => none

structure NumberText where
  isDigit : Char → Bool
  percentAmount : String → Option String
  differs : String → String → Bool

/-- What the header of the Markdown prints besides the context. -/
structure PublishedDocument extends ContextDocument where
  schemaVersion : String
  jobId : String
  status : String
  sourceFilename : Option String

section Axes

variable (rules : NumberText)

def axisRow (cells : List String) : String := "| " ++ " | ".intercalate cells ++ " |"

def columnLetter (col : ℕ) : String := if 0 < col then String.ofList (indexToCol col) else ""

def keyYear (key : String) : String := String.ofList (key.toList.take 4)

def digits (text : List Char) : Bool := !text.isEmpty && text.all rules.isDigit

/-- `_month_key` gives a year and a month. -/
def isMonthKey (key : String) : Bool :=
  key.toList.length = 7 && key.toList[4]? = some '-' && digits rules (key.toList.take 4) &&
    digits rules (key.toList.drop 5)

def redundantCalendar (period : ContextPeriod) : Bool :=
  match given period.calendarYear with
  | none => true
  | some calendar => calendar = period.periodKey || calendar = keyYear period.periodKey

def addRun (runs : List (String × List String)) (run : String × String) :
    List (String × List String) :=
  match runs.getLast? with
  | some (group, keys) =>
    if group = run.1 then runs.dropLast ++ [(group, keys ++ [run.2])] else runs ++ [(run.1, [run.2])]
  | none => [(run.1, [run.2])]

/-- `_month_runs`. A year with two groups has two periods that differ in their groups. -/
def monthRuns (axis : ContextAxis) : Option (List (String × List String)) :=
  let splitYear := axis.periods.any fun p => axis.periods.any fun q =>
    keyYear p.periodKey = keyYear q.periodKey && p.groupKey != q.groupKey
  if axis.periods.any (!·.flags.isEmpty) then none
  else if !axis.periods.all fun p => isMonthKey rules p.periodKey then none
  else if splitYear then none
  else some (axis.periods.foldl (fun runs p =>
    addRun runs ((given p.groupKey).getD (keyYear p.periodKey), p.periodKey)) [])

def monthSummary (axis : ContextAxis) : List String :=
  let runs := (monthRuns rules axis).getD []
  let header := cell axis.id :: runs.map fun run => cell run.1
  let span (keys : List String) :=
    let first := keys.head?.getD ""
    let last := keys.getLast?.getD ""
    if first = last then first else first ++ " .. " ++ last
  [axisRow header, axisRow (header.map fun _ => "---"),
    axisRow ("Periods" :: runs.map fun run => cell (span run.2))]

inductive Attribute where
  | start | finish | group | calendar | flags
  deriving DecidableEq

namespace Attribute

def name : Attribute → String
  | start => "Start"
  | finish => "End"
  | group => "Group"
  | calendar => "Calendar"
  | flags => "Flags"

/-- A period that makes `_visible_attributes` list the attribute. -/
def shows : Attribute → ContextPeriod → Bool
  | start, period => (given period.startDate).isSome
  | finish, period => (given period.endDate).isSome
  | group, period => (given period.groupKey).isSome
  | calendar, period => (given period.calendarYear).isSome && !redundantCalendar period
  | flags, period => !period.flags.isEmpty

end Attribute

def visibleAttributes (axis : ContextAxis) : List Attribute :=
  [.start, .finish, .group, .calendar, .flags].filter fun shown =>
    axis.periods.any shown.shows

def flagNames (flags : List (String × Bool)) : List String := (flags.filter (·.2)).map (·.1)

def periodCell : Attribute → ContextPeriod → String
  | .start, period => cell (period.startDate.getD "")
  | .finish, period => cell (period.endDate.getD "")
  | .group, period => cell (period.groupKey.getD "")
  | .calendar, period =>
    if redundantCalendar period then "" else cell (period.calendarYear.getD "")
  | .flags, period => cell (", ".intercalate (flagNames period.flags))

def attributeRow (axis : ContextAxis) (shown : Attribute) : String :=
  axisRow (shown.name :: axis.periods.map (periodCell shown))

def periodTable (axis : ContextAxis) : List String :=
  let header := cell axis.id :: axis.periods.map fun period => cell period.periodKey
  [axisRow header, axisRow (header.map fun _ => "---")] ++
    (visibleAttributes axis).map (attributeRow axis)

def oneAxis (axis : ContextAxis) : List String :=
  ["### `" ++ axis.id ++ "`", "",
    "Grain: `" ++ (given axis.grain).getD "n/a" ++ "`. Sheet: `" ++ axis.sheet ++ "`. Periods: " ++
      toString axis.periods.length ++ ".", ""] ++
    (if (monthRuns rules axis).isSome then monthSummary rules axis else periodTable axis) ++ [""]

def sharedAxisTable (members : List ContextAxis) (canon : ContextAxis) : List String :=
  let header := "Axis" :: canon.periods.map fun period => cell period.periodKey
  let letters (axis : ContextAxis) :=
    filled (axis.periods.map fun period => (period.periodKey, columnLetter period.col))
  ["Grain: `" ++ (given canon.grain).getD "n/a" ++ "`. Periods: " ++
      toString canon.periods.length ++ ".", ""] ++
    ([axisRow header, axisRow (header.map fun _ => "---")] ++
      (members.map fun axis => axisRow (cell axis.id ::
        canon.periods.map fun period => (get period.periodKey (letters axis)).getD "")) ++
      (visibleAttributes canon).map (attributeRow canon)) ++ [""]

def axisKey (axis : ContextAxis) : String := if axis.timelineId = "" then axis.id else axis.timelineId

def axisGroups (axes : List ContextAxis) : List (String × List ContextAxis) :=
  grouped (axes.map fun axis => (axisKey axis, axis))

def canonAxis (key : String) (first : ContextAxis) (members : List ContextAxis) : ContextAxis :=
  ((first :: members).find? (·.id = key)).getD first

def groupLines : String × List ContextAxis → List String
  | (_, []) => []
  | (_, [axis]) => oneAxis rules axis
  | (key, first :: members) =>
    let canon := canonAxis key first members
    if (monthRuns rules canon).isSome then
      ["Grain: `" ++ (given canon.grain).getD "n/a" ++ "`. Periods: " ++
        toString canon.periods.length ++ ".", ""] ++ monthSummary rules canon ++ [""]
    else sharedAxisTable (first :: members) canon

def axesSection (axes : List ContextAxis) : List String :=
  ["## Axes", ""] ++ (axisGroups axes).flatMap (groupLines rules)

end Axes

section Blocks

variable (rules : NumberText)

structure ColumnHeader where
  text : String
  periodKey : String
  col : ℕ

def axisOf (axes : List ContextAxis) (axisId : String) : Option ContextAxis :=
  get axisId (filled (axes.map fun axis => (axis.id, axis)))

def referencedAxes (axes : List ContextAxis) (block : FinancialBlock) : List ContextAxis :=
  block.axisIds.filterMap (axisOf axes)

def kindName : BlockKind → String
  | .timeline => "timeline"
  | .params => "params"

/-- `_block_intro`; the build leaves the grain of a block unset. -/
def blockIntro (axes : List ContextAxis) (block : FinancialBlock) (rowCount : ℕ) : List String :=
  let referenced := referencedAxes axes block
  let quoted (ids : List String) := ", ".intercalate (ids.map fun id => "`" ++ id ++ "`")
  let title := if block.kind = .params then "## Parameters / " ++ block.sheet
    else "## " ++ block.sheet ++ " / `" ++ block.blockId ++ "`"
  let start := "Block: `" ++ block.blockId ++ "`. Kind: `" ++ kindName block.kind ++ "`."
  let names := quoted (referenced.map (·.id))
  let timelines := firsts id [] ((referenced.filter fun axis =>
    axis.timelineId ≠ "" ∧ axis.timelineId ≠ axis.id).map (·.timelineId))
  let middle :=
    if referenced.isEmpty then " Periods: " ++ toString block.periods.length
    else if timelines.isEmpty then " Axes: " ++ names
    else " Axis: " ++ names ++ ". Timeline: " ++ quoted timelines
  [title, "", start ++ middle ++ ". Rows: " ++ toString rowCount ++ ".", ""]

structure ValueTable where
  heading : Option String
  headers : List ColumnHeader
  axisId : Option String

def markdownTables (axes : List ContextAxis) (block : FinancialBlock) : List ValueTable :=
  let own := block.periods.map fun period => ⟨period.text, period.periodKey, period.col⟩
  let referenced := referencedAxes axes block
  if referenced.isEmpty then [⟨none, own, none⟩]
  else referenced.map fun axis =>
    { heading := if 1 < referenced.length then some ("### `" ++ axis.id ++ "`") else none
      headers := if referenced.length = 1 ∧ block.periods ≠ [] then own
        else axis.periods.map fun period => ⟨period.text, period.periodKey, period.col⟩
      axisId := some axis.id }

def prefersPeriodKey (text key : String) : Bool :=
  if key = "" then false
  else if text = "" ∨ text = key then true
  else if (key.toList.head?.any ['Y', 'Q', 'M', 'P'].contains) && digits rules key.toList.tail then
    true
  else digits rules (key.toList.take 4)

def periodLabel (header : ColumnHeader) : String :=
  let text := strip header.text
  let key := strip header.periodKey
  let name := if prefersPeriodKey rules text key then key else if text = "" then key else text
  let letter := columnLetter header.col
  if name ≠ "" ∧ letter ≠ "" ∧ name ≠ letter then name ++ " (" ++ letter ++ ")"
  else if name = "" then letter else name

def tableHeader (headers : List ColumnHeader) : List String :=
  let cols := ["Label", "Row", "Path", "Kind", "Unit", "Formula", "Cells"] ++
    headers.map (periodLabel rules)
  [axisRow (cols.map cell), axisRow (cols.map fun _ => "---")]

def seriesFor (row : BlockRow) : Option String → Option RowSeries
  | none => none
  | some axisId => row.series.find? (·.axisId = axisId)

def roleName : ColumnRole → String
  | .stub => "stub"
  | .total => "total"
  | .relative => "relative"
  | .label => "label"
  | .value => "value"
  | .unit => "unit"
  | .note => "note"
  | .index => "index"
  | .unknown => "unknown"

def roleCellsLabel (row : BlockRow) (periodCols : List ℕ) : String :=
  "; ".intercalate (row.cells.filterMap fun item =>
    if item.role = .unit ∨ item.col ∈ periodCols then none
    else (given item.cachedValue).map fun cached =>
      columnLetter item.col ++ " " ++ (given item.header).getD (roleName item.role) ++ ": " ++ cached)

def currencySymbol : Option String → String
  | some "GBP" => "£"
  | some "EUR" => "€"
  | some "USD" => "$"
  | some "RUB" => "₽"
  | _ => ""

def measureDisplay (measure : Measure) : String :=
  let scale := measure.scale.getD ""
  let composed := (if scale = "unit" then "" else scale) ++ currencySymbol measure.currency
  match measure.unit with
  | some "rate" => "%"
  | some "years" => "years"
  | some "count" => "count"
  | some "ratio" => "x"
  | some "date" => "date"
  | some "price" =>
    (given (some composed)).getD "money" ++ "/" ++ (given measure.per).getD "unit"
  | some "money" => (given (some composed)).getD "money"
  | _ => ""

def unitLabel (row : BlockRow) : String :=
  let own := ((row.cells.find? (·.role = .unit)).bind (·.cachedValue))
  let shown := measureDisplay
    { unit := row.hints.unit, currency := row.hints.currency, scale := row.hints.scale,
      per := row.hints.unitPer }
  let unit := (given own).orElse fun _ => (given (some shown)).orElse fun _ =>
    (given row.unit).orElse fun _ => given row.hints.unit
  match row.scaleFactor with
  | none | some 1 => unit.getD ""
  | some factor => unit.getD "unit" ++ " ×" ++ toString factor

def isPercentRow (row : BlockRow) : Bool :=
  row.cells.any fun item => item.role = .unit && (item.cachedValue.getD "").toList.contains '%'

def seriesCell (value : Option String) (status : Option ValueStatus) (normalized : Option String)
    (percent : Bool) (addr : String) : String :=
  let shown := value.getD ""
  let scaled := match given normalized with
    | some amount =>
      if shown ≠ "" ∧ rules.differs shown amount then shown ++ " (" ++ amount ++ ")" else shown
    | none => shown
  let text :=
    if status = some .notApplicable then "n/a"
    else if status = some .empty ∨ status = none ∧ given value = none then "empty"
    else if status = some .zeroExplicit then (given value).getD "0"
    else if percent ∧ shown ≠ "" ∧ '%' ∉ shown.toList then
      match rules.percentAmount shown with
      | some amount => shown ++ " (" ++ amount ++ "%)"
      | none => scaled
    else scaled
  if addr = "" then text else text ++ " [" ++ addr ++ "]"

def cellAddr (row : BlockRow) (header : ColumnHeader) : String :=
  let letter := columnLetter header.col
  if letter = "" ∨ row.sheet = "" ∨ row.row = 0 then ""
  else row.sheet ++ "!" ++ letter ++ toString row.row

def rowKindName : RowKind → String
  | .fact => "fact"
  | .abstract => "abstract"
  | .index => "index"
  | .helper => "helper"
  | .flag => "flag"

def rowLine (row : BlockRow) (headers : List ColumnHeader) (series : Option RowSeries)
    (periodCols : List ℕ) : String :=
  let values := (series.map (·.values)).getD row.values
  let statuses := (series.map (·.valueStatuses)).getD row.valueStatuses
  let normalized := (series.map (·.normalizedValues)).getD row.normalizedValues
  let formula := (series.bind fun s => given s.formula).orElse fun _ => row.formula
  axisRow ([cell row.label, cell row.rowKey, cell (" / ".intercalate row.labelPath),
    cell (rowKindName row.kind), cell (unitLabel row), cell (formula.getD ""),
    cell (roleCellsLabel row periodCols)] ++
    headers.zipIdx.map fun (header, index) =>
      cell (seriesCell rules (values[index]?.join) (statuses[index]?) (normalized[index]?.join)
        (isPercentRow row) (cellAddr row header)))

def tableLine (table : ValueTable) (row : BlockRow) : String :=
  rowLine rules row table.headers (seriesFor row table.axisId) (table.headers.map (·.col))

def valueTable (table : ValueTable) (rows : List BlockRow) : List String :=
  tableHeader rules table.headers ++ rows.map (tableLine rules table) ++ [""]

def relationName : RelationKind → String
  | .alias => "alias"
  | .aggregate => "aggregate"
  | .difference => "difference"
  | .rollForward => "roll_forward"

def relationsSection (relations : List RowRelation) : List String :=
  ["Relations:", "", "| Kind | Source | Target | Members |", "| --- | --- | --- | --- |"] ++
    (relations.map fun relation => axisRow
      [cell (relationName relation.kind), cell relation.source.text,
        cell ((relation.target.map (·.text)).getD ""),
        cell (", ".intercalate (relation.members.map (·.text)))]) ++ [""]

def headingLines (table : ValueTable) : List String :=
  match table.heading with
  | some heading => [heading, ""]
  | none => []

def blockSection (axes : List ContextAxis) (block : FinancialBlock) : List String :=
  if block.rows.isEmpty then blockIntro axes block block.rows.length
  else
    blockIntro axes block block.rows.length ++
      ((markdownTables axes block).flatMap fun table =>
        headingLines table ++ valueTable rules table block.rows) ++
      if block.relations.isEmpty then [] else relationsSection block.relations

end Blocks

section Document

variable (rules : NumberText)

def preamble (doc : PublishedDocument) (rowCount : ℕ) : List String :=
  ["# Financial context", "",
    "- Schema: `" ++ doc.schemaVersion ++ "`",
    "- Job: `" ++ doc.jobId ++ "`",
    "- Status: `" ++ doc.status ++ "`",
    "- Source: `" ++ (given doc.sourceFilename).getD "n/a" ++ "`",
    "- Sheets: " ++ toString doc.workbook.sheets.length,
    "- Cells: " ++ toString doc.workbook.cellCount,
    "- Formulas: " ++ toString doc.workbook.formulaCount,
    "- Content completeness: 1.00 (" ++ toString rowCount ++ "/" ++ toString rowCount ++
      " layout rows)", ""] ++
    (if doc.axes.isEmpty then [] else axesSection rules doc.axes) ++
    if doc.warnings.isEmpty then []
    else ["## Warnings", ""] ++ (doc.warnings.map fun warning => "- " ++ cell warning) ++ [""]

def renderMarkdown (doc : PublishedDocument) : String :=
  let rowCount := (doc.blocks.map (·.rows.length)).sum
  let lines := preamble rules doc rowCount ++ doc.blocks.flatMap (blockSection rules doc.axes)
  stripEnd isSpace ("\n".intercalate lines) ++ "\n"

end Document

section Stored

/-- A period as `context.json` holds it; a key that `_slim` drops is absent. -/
structure StoredPeriod where
  col : ℕ
  text : String
  periodKey : String
  groupKey : Option String
  index : ℕ
  calendarYear : Option String
  startDate : Option String
  endDate : Option String
  flags : Option (List (String × Bool))
  hidden : Option Bool

structure StoredAxis where
  id : String
  sheet : String
  grain : Option String
  headerRow : ℕ
  timelineId : String
  periods : List StoredPeriod

/-- `sort_keys` of an object. -/
def keyOrder (flags : List (String × Bool)) : List (String × Bool) :=
  flags.insertionSort fun a b => a.1 ≤ b.1

def dumpPeriod (period : ContextPeriod) : StoredPeriod where
  col := period.col
  text := period.text
  periodKey := period.periodKey
  groupKey := period.groupKey
  index := period.index
  calendarYear := period.calendarYear.filter fun calendar =>
    !(calendar = period.periodKey || calendar = keyYear period.periodKey)
  startDate := period.startDate
  endDate := period.endDate
  flags := if period.flags.isEmpty then none else some (keyOrder period.flags)
  hidden := if period.hidden then some true else none

def loadPeriod (stored : StoredPeriod) : ContextPeriod where
  col := stored.col
  text := stored.text
  periodKey := stored.periodKey
  groupKey := stored.groupKey
  index := stored.index
  calendarYear := stored.calendarYear
  startDate := stored.startDate
  endDate := stored.endDate
  flags := stored.flags.getD []
  hidden := stored.hidden.getD false

def dumpAxis (axis : ContextAxis) : StoredAxis where
  id := axis.id
  sheet := axis.sheet
  grain := axis.grain
  headerRow := axis.headerRow
  timelineId := axis.timelineId
  periods := axis.periods.map dumpPeriod

def loadAxis (stored : StoredAxis) : ContextAxis where
  id := stored.id
  sheet := stored.sheet
  grain := stored.grain
  headerRow := stored.headerRow
  timelineId := stored.timelineId
  periods := stored.periods.map loadPeriod

/-- `context.json`. -/
structure StoredContext where
  axes : List StoredAxis
  blocks : List FinancialBlock
  workbook : WorkbookRaw
  warnings : List String
  schemaVersion : String
  jobId : String
  status : String
  sourceFilename : Option String

/-- `model_validate_json` of `context.json`. -/
def readContext (stored : StoredContext) : PublishedDocument where
  axes := stored.axes.map loadAxis
  blocks := stored.blocks
  workbook := stored.workbook
  warnings := stored.warnings
  schemaVersion := stored.schemaVersion
  jobId := stored.jobId
  status := stored.status
  sourceFilename := stored.sourceFilename

end Stored

end FinanceContext.Markdown
