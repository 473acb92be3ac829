import FinanceContext.Cells
import FinanceContext.LayoutIndex
import Mathlib.Data.List.Sort

namespace FinanceContext

open Dictionaries

inductive FormulaClass where
  | samePeriod | crossPeriod | aggregation | rollforward | conditional | hardcoded
  deriving DecidableEq, Repr

structure FormulaLink where
  cell : String
  formula : Option String
  formulaClass : Option FormulaClass
  refs : List String
  rowKey : Option String
  periodId : Option String
  deriving DecidableEq

/-- A record of `_Formula`. -/
structure Formula where
  formula : Option String
  rowKey : Option String
  periodId : Option String
  refs : List String := []

inductive NodeType where
  | calculated | input | empty
  deriving DecidableEq, Repr

/-- A row of `graph/index.parquet`. -/
structure IndexRow where
  nodeId : String
  sheet : String
  addr : String
  rowKey : Option String
  periodId : Option String
  nodeType : NodeType
  deriving DecidableEq

namespace Layout

def periodEntries (layout : Layout) : List ((String × ℕ) × String) :=
  layout.sheets.flatMap fun sheet => sheet.blocks.flatMap fun block =>
    (periodHeaders sheet block).map fun header => ((sheet.name, header.col), header.periodKey)

def rowMeta (layout : Layout) : List ((String × ℕ) × String) :=
  filled (layout.rowEntries fun name row block => FinanceContext.rowKey name row block.blockId)

/-- The first of the two maps of `_period_maps`. -/
def periodByCell (layout : Layout) : List ((String × ℕ) × String) := filled layout.periodEntries

end Layout

def formulaRecord (layout : Layout) (cell : Cell) (raw : String) : String × Formula :=
  (cell.node,
    { formula := some raw
      rowKey := get (cell.sheet, cell.row) layout.rowMeta
      periodId := get (cell.sheet, cell.col) layout.periodByCell })

def formulaEntry (layout : Layout) (cell : Cell) : Option (String × Formula) :=
  match cell.formulaRaw with
  | some raw => if raw = "" then none else some (formulaRecord layout cell raw)
  | none => none

def formulasFromCells (layout : Layout) (cells : List Cell) : List (String × Formula) :=
  filled (cells.filterMap (formulaEntry layout))

structure Edge where
  source : String
  target : Option String

def bindRef (formulas : List (String × Formula)) (edge : Edge) : List (String × Formula) :=
  if edge.source = "" then formulas
  else
    let rec' := (get edge.source formulas).getD ⟨none, none, none, []⟩
    let refs := match edge.target with
      | some target => if target = "" ∨ target ∈ rec'.refs then rec'.refs else rec'.refs ++ [target]
      | none => rec'.refs
    set edge.source { rec' with refs := refs } formulas

def bindRefs (edges : List Edge) (formulas : List (String × Formula)) : List (String × Formula) :=
  edges.foldl bindRef formulas

/-- `_links_from_formulas`; `classify` is `classify_formula` and `lags` its last argument. -/
def linksFromFormulas (classify : Option String → List String → List String → Option FormulaClass)
    (lags : String → List String) (formulas : List (String × Formula)) : List FormulaLink :=
  (formulas.insertionSort fun p q => p.1 ≤ q.1).map fun (cell, rec') =>
    { cell := cell
      formula := rec'.formula
      formulaClass := classify rec'.formula rec'.refs (lags cell)
      refs := rec'.refs
      rowKey := rec'.rowKey
      periodId := rec'.periodId }

def indexRow (layout : Layout) (cell : Cell) : IndexRow where
  nodeId := cell.node
  sheet := cell.sheet
  addr := cell.addr
  rowKey := get (cell.sheet, cell.row) layout.rowMeta
  periodId := get (cell.sheet, cell.col) layout.periodByCell
  nodeType :=
    if Cell.given cell.formulaRaw then .calculated
    else if Cell.given cell.cachedValue then .input else .empty

end FinanceContext
