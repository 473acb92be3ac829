import FinanceContext.ContextBuild
import FinanceContext.GraphLinks

namespace FinanceContext

open Dictionaries

structure ObservationUnit where
  kind : Option String := none
  currency : Option String := none
  scale : Option String := none

structure ObservationPrecedent where
  rowKey : Option String := none
  periodId : Option String := none
  value : Option String := none
  cell : Option String := none
  depth : ℕ
  label : Option String := none

structure ObservationFormula where
  text : Option String := none
  formulaClass : Option FormulaClass := none
  precedents : List ObservationPrecedent := []
  precedentsTotal : ℕ := 0

structure ObservationSource where
  sheet : String
  cell : String

structure ObservationTimeline where
  axisId : String
  startDate : Option String := none
  endDate : Option String := none
  groupKey : Option String := none
  flags : List (String × Bool) := []

structure Observation where
  rowKey : String
  label : String
  periodId : String
  value : Option String := none
  valueStatus : ValueStatus
  normalizedValue : Option String := none
  scaleFactor : Option ℕ := none
  scenario : Option String := none
  unit : ObservationUnit
  formula : ObservationFormula
  source : ObservationSource
  timeline : Option ObservationTimeline := none

structure ObservationDocument where
  truncated : Bool := false
  observations : List Observation := []

structure Selector where
  rowKeys : List String := []
  q : String := ""
  periodIds : List String := []
  precedentDepth : ℕ := 0
  limit : ℕ := 24

/-- A number of a series, as it is read at one position. -/
structure Reading where
  text : Option String := none
  status : Option ValueStatus := none
  normalized : Option String := none

structure Slot where
  axisId : String
  periodId : String
  cell : String
  place : ℕ
  reading : Reading
  scenario : Option String := none
  timeline : Option ObservationTimeline := none

def RowSeries.at (series : RowSeries) (index : ℕ) : Reading where
  text := series.values[index]?.join
  status := series.valueStatuses[index]?
  normalized := series.normalizedValues[index]?.join

def cache (text : Option String) (status : Option ValueStatus) : Option String × ValueStatus :=
  let shown := text.filter (· ≠ "")
  let resolved := match status with
    | some known => known
    | none => if shown = none then .empty else .cached
  if resolved = .empty ∨ resolved = .notApplicable then (none, resolved) else (shown, resolved)

section Links

variable (links : List FormulaLink)

/-- `_links_by_pair`, at one pair. -/
def linksByPair (rowKey periodId : String) : List FormulaLink :=
  links.filter fun link =>
    Cell.given link.rowKey && Cell.given link.periodId &&
      decide (link.rowKey = some rowKey ∧ link.periodId = some periodId)

def FormulaLink.wears (link : FormulaLink) (cell : String) : Bool :=
  link.cell = cell || decide (("!" ++ cell).toList <:+ link.cell.toList)

/-- `_pick_link`: the link that wears the address, else the first one of the pair. -/
def pickLink (rowKey periodId cell : String) : Option FormulaLink :=
  ((linksByPair links rowKey periodId).find? (·.wears cell)).or
    (linksByPair links rowKey periodId).head?

def observationFormula (row : BlockRow) (periodId cell : String) : ObservationFormula :=
  match pickLink links row.rowKey periodId cell with
  | none => { text := row.formula }
  | some link => { text := link.formula, formulaClass := link.formulaClass }

def observation (row : BlockRow) (slot : Slot) : Observation :=
  let shown := cache slot.reading.text slot.reading.status
  { rowKey := row.rowKey
    label := row.label
    periodId := slot.periodId
    value := shown.1
    valueStatus := shown.2
    normalizedValue := slot.reading.normalized
    scaleFactor := row.scaleFactor
    scenario := slot.scenario
    unit := ⟨row.hints.unit, row.hints.currency, row.hints.scale⟩
    formula := observationFormula links row slot.periodId slot.cell
    source := ⟨row.sheet, slot.cell⟩
    timeline := slot.timeline }

end Links

def Selector.period (selector : Selector) (periodId : String) : Bool :=
  selector.periodIds = [] || periodId ∈ selector.periodIds

section Slots

variable (selector : Selector) (row : BlockRow)

def axisSlots (axisId : String) (axis : ContextAxis) (series : RowSeries) : List Slot :=
  (axis.periods.zipIdx.filter fun p => selector.period p.1.periodKey).map fun (period, index) =>
    { axisId := axisId
      periodId := period.periodKey
      cell := formatAddr period.col row.row
      place := index
      reading := series.at index
      timeline := some ⟨axisId, period.startDate, period.endDate, period.groupKey,
        period.flags⟩ }

def seriesFor (axisId : String) : Option RowSeries :=
  (row.series.filter (·.axisId = axisId)).getLast?

def fallbackSeries (axisId : String) : RowSeries :=
  { axisId := axisId
    values := row.values
    valueStatuses := row.valueStatuses
    normalizedValues := row.normalizedValues }

/-- The loop of `_timeline_row`; the flag is `used_fallback`. -/
def timelineSlots (axes : List ContextAxis) : Bool → List String → List Slot
  | _, [] => []
  | used, axisId :: axisIds =>
    match axisById axes axisId with
    | none => timelineSlots axes used axisIds
    | some axis =>
      match seriesFor row axisId with
      | some series =>
        axisSlots selector row axisId axis series ++ timelineSlots axes used axisIds
      | none =>
        if row.series ≠ [] ∨ used = true then timelineSlots axes used axisIds
        else axisSlots selector row axisId axis (fallbackSeries row axisId) ++
          timelineSlots axes true axisIds

def timelineRow (block : FinancialBlock) (axes : List ContextAxis) : List Slot :=
  timelineSlots selector row axes false
    (if block.axisIds ≠ [] then block.axisIds
      else (row.series.map (·.axisId)).reverse.dedup.reverse)

def valueCells : List RoleCell :=
  (row.cells.filter fun cell => cell.role = .value || cell.role = .unknown).insertionSort
    fun a b => a.col ≤ b.col

def paramsPeriodId (block : FinancialBlock) (cell : RoleCell) : String :=
  match block.periods.find? fun period => period.col = cell.col && period.periodKey ≠ "" with
  | some period => period.periodKey
  | none =>
    if Cell.given cell.header then cell.header.getD ""
    else if cell.addr ≠ "" then cell.addr else formatAddr cell.col 0

def paramsSeries (block : FinancialBlock) : Option RowSeries :=
  row.series.find? fun series =>
    series.axisId = block.blockId || decide (series.axisId ∈ block.axisIds)

def paramsReading (block : FinancialBlock) (cell : RoleCell) (index : ℕ) : Reading :=
  match paramsSeries row block with
  | some series => series.at index
  | none => { text := cell.cachedValue, normalized := row.normalizedValues[index]?.join }

def paramsSlot (block : FinancialBlock) (cell : RoleCell) (index : ℕ) : Slot where
  axisId := block.blockId
  periodId := paramsPeriodId block cell
  cell := if cell.addr ≠ "" then cell.addr else formatAddr cell.col row.row
  place := index
  reading := paramsReading row block cell index
  scenario := if cell.role = .value then cell.header.filter (· ≠ "") else none

def paramsRow (block : FinancialBlock) : List Slot :=
  ((valueCells row).zipIdx.filter fun p => selector.period (paramsPeriodId block p.1)).map
    fun (cell, index) => paramsSlot row block cell index

def rowSlots (axes : List ContextAxis) (block : FinancialBlock) : List Slot :=
  match block.kind with
  | .params => paramsRow selector row block
  | .timeline => timelineRow selector row block axes

end Slots

/-- The rules on texts and the walk over the graph that the slice is given. -/
structure ObservationRules where
  strip : String → String
  ownLabelContains : String → String → Bool
  precedents : Option (String → ℕ → List ObservationPrecedent) := none

namespace ObservationRules

variable (rules : ObservationRules)

def selected (selector : Selector) (row : BlockRow) : Bool :=
  (selector.rowKeys = [] || decide (row.rowKey ∈ selector.rowKeys)) &&
    (rules.strip selector.q = "" || rules.ownLabelContains row.label (rules.strip selector.q))

def rowLabel (context : ContextDocument) (key : String) : Option String :=
  ((context.blocks.flatMap (·.rows)).find? (·.rowKey = key)).map (·.label)

def withLabel (context : ContextDocument) (precedent : ObservationPrecedent) :
    ObservationPrecedent :=
  { precedent with label := (precedent.rowKey.filter (· ≠ "")).bind (rowLabel context) }

def withPrecedents (context : ContextDocument) (selector : Selector) (item : Observation) :
    Observation :=
  match rules.precedents with
  | none => item
  | some walk =>
    if selector.precedentDepth = 0 then item
    else
      let walked := (walk (nodeId item.source.sheet item.source.cell)
        selector.precedentDepth).filter (1 ≤ ·.depth)
      { item with formula :=
          { item.formula with
            precedents := walked.map (withLabel context), precedentsTotal := walked.length } }

def found (context : ContextDocument) (links : List FormulaLink) (selector : Selector) :
    List Observation :=
  context.blocks.flatMap fun block =>
    (block.rows.filter (rules.selected selector)).flatMap fun row =>
      (rowSlots selector row context.axes block).map (observation links row)

def buildObservations (context : ContextDocument) (links : List FormulaLink)
    (selector : Selector) : Option ObservationDocument :=
  if selector.rowKeys = [] ∧ rules.strip selector.q = "" then none
  else
    let items := rules.found context links selector
    some
      { truncated := decide (selector.limit < items.length)
        observations := (items.take selector.limit).map (rules.withPrecedents context selector) }

end ObservationRules

end FinanceContext
