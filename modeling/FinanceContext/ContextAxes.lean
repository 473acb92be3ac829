import FinanceContext.ContextRows
import FinanceContext.FlagKeys

namespace FinanceContext

open Dictionaries

namespace Layout

def publishedAxisIds (layout : Layout) : List String :=
  layout.sheets.flatMap fun sheet => sheet.blocks.flatMap fun block =>
    if block.axisIds ≠ [] then block.axisIds else block.axis.toList.map (·.id)

def linkTimeline (links : List (String × String)) (block : Block) : List (String × String) :=
  let shared := if block.timelineIds.length ≠ block.axisIds.length
    then block.axisIds else block.timelineIds
  let linked := (block.axisIds.zip shared).foldl (fun links p => set p.1 p.2 links) links
  match block.axisIds, block.axis with
  | [], some axis => if get axis.id linked = none then set axis.id axis.id linked else linked
  | _, _ => linked

def timelineOf (layout : Layout) : List (String × String) :=
  layout.sheets.foldl (fun links sheet => sheet.blocks.foldl linkTimeline links) []

def axisNotes (layout : Layout) : List String :=
  layout.sheets.flatMap fun sheet =>
    (sheet.axes.filter fun axis => axis.id ∈ layout.publishedAxisIds).flatMap (·.notes)

end Layout

namespace SheetLayout

def contextAxes (sheet : SheetLayout) : List TimeAxis :=
  if sheet.axes ≠ [] then sheet.axes
  else (sheet.blocks.flatMap (axesFor sheet)).foldl
    (fun found axis => if axis.id ∈ found.map (·.id) then found else found ++ [axis]) []

def flagRows (sheet : SheetLayout) (axis : TimeAxis) : List LayoutRow :=
  sheet.blocks.flatMap fun block =>
    if block.kind = .timeline ∧ (axis.id ∈ block.axisIds ∨ axis.id ∈ block.axis.map (·.id))
    then block.rows.filter (·.kind = .flag) else []

end SheetLayout

def TimeAxis.seriesPeriods (axis : TimeAxis) : List AxisPeriod :=
  axis.periods.filter fun period => isSeriesColumn (some period.kind) period.periodKey

namespace ContextText

variable (text : ContextText)

def flagOn (cells : CellMap) (sheet : String) (row col : ℕ) : Bool :=
  match cellAt cells sheet row col with
  | none => false
  | some cell => text.isFlagOn ((text.shownText cell).getD "")

def flagMap (cells : CellMap) (sheet : String) (flags : List LayoutRow) (col : ℕ) :
    List (String × Bool) :=
  filled ((flags.zip (FlagKeys.flagKeys text.normalizeLabel flags)).map fun (row, key) =>
    (key, text.flagOn cells sheet row.row col))

def liveFlags (cells : CellMap) (sheet : String) (flags : List LayoutRow)
    (periods : List AxisPeriod) : List String :=
  periods.flatMap fun period =>
    ((text.flagMap cells sheet flags period.col).filter (·.2)).map Prod.fst

def contextPeriod (cells : CellMap) (sheet : String) (axis : TimeAxis) (flags : List LayoutRow)
    (period : AxisPeriod) (index : ℕ) : ContextPeriod where
  col := period.col
  text := period.text
  periodKey := period.periodKey
  groupKey := period.groupKey
  index := index
  calendarYear := text.calendarYear axis.grain period.periodKey
  startDate := period.startDate
  endDate := period.endDate
  flags := (text.flagMap cells sheet flags period.col).filter fun flag =>
    flag.1 ∈ text.liveFlags cells sheet flags axis.seriesPeriods
  hidden := period.hidden

def annotateAxis (cells : CellMap) (sheet : String) (axis : TimeAxis) (flags : List LayoutRow)
    (timelineId : String) : Option ContextAxis :=
  if axis.seriesPeriods = [] then none
  else some
    { id := axis.id
      sheet := sheet
      grain := axis.grain
      headerRow := axis.headerRow
      timelineId := timelineId
      periods := (axis.seriesPeriods.zipIdx 1).map fun (period, index) =>
        text.contextPeriod cells sheet axis flags period index }

def buildAxes (cells : CellMap) (layout : Layout) : List ContextAxis :=
  layout.sheets.flatMap fun sheet =>
    (sheet.contextAxes.filter fun axis => axis.id ∈ layout.publishedAxisIds).filterMap fun axis =>
      text.annotateAxis cells sheet.name axis (sheet.flagRows axis)
        ((get axis.id layout.timelineOf).getD axis.id)

end ContextText

def axisById (axes : List ContextAxis) (id : String) : Option ContextAxis :=
  (axes.filter (·.id = id)).getLast?

def periodOfHeader (header : AxisHeader) : BlockPeriod where
  col := header.col
  text := header.text
  periodKey := header.periodKey
  role := header.role
  hidden := header.hidden

/-- The columns of a block with one axis, when the timeline it shares has other ones. -/
def localPeriods (views : List (String × List AxisHeader)) (axes : List ContextAxis) :
    List BlockPeriod :=
  match views with
  | [(axisId, headers)] =>
    match axisById axes axisId with
    | none => []
    | some own =>
      let shared := (axisById axes (if own.timelineId = "" then own.id else own.timelineId)).getD own
      let canon := filled (shared.periods.map fun period => (period.periodKey, period.col))
      if headers.all fun header => get header.periodKey canon = some header.col then []
      else headers.map periodOfHeader
  | _ => []

end FinanceContext
