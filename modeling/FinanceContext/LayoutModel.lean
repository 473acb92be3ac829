import Mathlib.Data.Nat.Notation
import Mathlib.Data.List.Defs

namespace FinanceContext

inductive ColumnRole where
  | stub | total | relative | label | value | unit | note | index | unknown
  deriving DecidableEq, Repr

inductive ColumnKind where
  | period | total | stub | relative
  deriving DecidableEq, Repr

inductive RowKind where
  | fact | abstract | index | helper | flag
  deriving DecidableEq, Repr

inductive BlockKind where
  | timeline | params
  deriving DecidableEq, Repr

/-- `is_series_column`: a timeline value column, not a total or a stub. -/
def isSeriesColumn (kind : Option ColumnKind) (periodKey : String) : Bool :=
  (kind = some .period || kind = some .stub || kind = some .relative) &&
    periodKey != "total" && periodKey != "stub"

structure AxisHeader where
  col : ℕ
  text : String
  role : Option ColumnRole := none
  kind : Option ColumnKind := none
  variant : Option String := none
  periodKey : String
  explicitRole : Bool := false
  hidden : Bool := false
  deriving DecidableEq

structure Axis where
  id : String
  row : ℕ
  headers : List AxisHeader
  deriving DecidableEq

structure AxisPeriod where
  col : ℕ
  text : String
  kind : ColumnKind := .period
  variant : Option String := none
  periodKey : String
  explicitRole : Bool := false
  groupKey : Option String := none
  startDate : Option String := none
  endDate : Option String := none
  hidden : Bool := false
  deriving DecidableEq

structure TimeAxis where
  id : String
  grain : Option String := none
  headerRow : ℕ
  periods : List AxisPeriod
  notes : List String := []
  deriving DecidableEq

structure RowCell where
  col : ℕ
  role : ColumnRole
  header : Option String := none
  deriving DecidableEq

structure LayoutRow where
  row : ℕ
  label : String
  parentRow : Option ℕ := none
  indent : ℕ := 0
  checkRow : Bool := false
  hidden : Bool := false
  kind : RowKind := .fact
  sectionPath : List String := []
  labelCol : Option ℕ := none
  cells : List RowCell := []
  deriving DecidableEq

structure Block where
  blockId : String
  labelCol : ℕ
  axis : Option Axis := none
  axisIds : List String := []
  timelineIds : List String := []
  rows : List LayoutRow
  kind : BlockKind := .timeline
  deriving DecidableEq

structure SheetLayout where
  name : String
  hidden : Bool := false
  axes : List TimeAxis := []
  blocks : List Block
  deriving DecidableEq

structure Layout where
  sheets : List SheetLayout

def timeAxisFromEmbedded (axis : Axis) : TimeAxis where
  id := axis.id
  headerRow := axis.row
  periods := axis.headers.map fun header =>
    { col := header.col
      text := header.text
      kind := header.kind.getD .period
      variant := header.variant
      periodKey := header.periodKey
      explicitRole := header.explicitRole
      hidden := header.hidden }

/-- An id names the last axis of the sheet that carries it. -/
def SheetLayout.axisById (sheet : SheetLayout) (id : String) : Option TimeAxis :=
  (sheet.axes.filter (·.id = id)).getLast?

def axesFor (sheet : SheetLayout) (block : Block) : List TimeAxis :=
  match block.kind with
  | .params => []
  | .timeline =>
    let picked := block.axisIds.filterMap sheet.axisById
    if picked ≠ [] then picked
    else block.axis.toList.map timeAxisFromEmbedded

def AxisPeriod.header (period : AxisPeriod) : AxisHeader where
  col := period.col
  text := period.text
  kind := some period.kind
  variant := period.variant
  periodKey := period.periodKey
  explicitRole := period.explicitRole
  hidden := period.hidden

def projectAxis (axis : TimeAxis) : Axis where
  id := axis.id
  row := axis.headerRow
  headers := axis.periods.map AxisPeriod.header

def periodHeaders (sheet : SheetLayout) (block : Block) : List AxisHeader :=
  match block.kind, block.axis with
  | .params, some axis => axis.headers
  | _, _ => (axesFor sheet block).flatMap fun axis => axis.periods.map AxisPeriod.header

end FinanceContext
