import FinanceContext.GraphEdges
import FinanceContext.KeyedSets
import Mathlib.Data.List.Infix

namespace FinanceContext.GraphIndex

open Csr Dictionaries

/-- A row of the index: an id that names no cell has no sheet and no address. -/
structure GraphRow where
  nodeId : String
  sheet : Option String
  addr : Option String
  rowKey : Option String
  periodId : Option String
  nodeType : NodeType
deriving DecidableEq

structure CircularityHint where
  sheet : String
  row : ℕ
  label : String
  cellIds : List String
deriving DecidableEq

/-- The cell edges as a list, or in `ir/cell_edges.parquet`. -/
inductive EdgeSource
  | listed (edges : List CellEdge)
  | stored (edges : List CellEdge)

def EdgeSource.edges : EdgeSource → List CellEdge
  | listed edges => edges
  | stored edges => edges

variable (text : GraphText) (layout : Layout)

section Layout

def layoutRows : List (String × LayoutRow) :=
  layout.sheets.flatMap fun sheet => sheet.blocks.flatMap fun block =>
    block.rows.map fun row => (sheet.name, row)

def isCircular (row : LayoutRow) : Bool :=
  decide ("circular".toList <:+: (text.casefold row.label).toList)

def circularRows : List (String × LayoutRow) :=
  (layoutRows layout).filter fun entry => isCircular text entry.2

def circularKeys : List (String × ℕ) :=
  (circularRows text layout).map fun entry => (entry.1, entry.2.row)

end Layout

section EmptyNodes

/-- `_empty_range_nodes`: `seen` is what exists with what is found. -/
def emptyRangeNodes (existing : List String) (edges : List CellEdge) : List String :=
  edges.foldl (fun found edge =>
    if edge.status ≠ some "empty" then found
    else if edge.target = "" ∨ edge.target ∈ existing ++ found then found
    else found ++ [edge.target]) []

/-- The query of `_empty_target_ids`: the first row of each target, by row number. -/
def emptyTargetRows (edges : List CellEdge) : List String :=
  let rows := ((edges.filter fun edge => edge.status = some "empty" ∧ edge.target ≠ "").map
    (·.target)).zipIdx
  let first := rows.filter fun row => rows.all fun other => other.1 ≠ row.1 ∨ row.2 ≤ other.2
  (first.insertionSort fun row other => row.2 ≤ other.2).map (·.1)

def emptyTargetIds : EdgeSource → List String
  | .listed edges => emptyRangeNodes [] edges
  | .stored edges => emptyTargetRows edges

def emptyIndexRow (node : String) : GraphRow :=
  match parseNodeId text.toCharTable node with
  | none => ⟨node, none, none, none, none, .empty⟩
  | some (sheet, col, row) =>
    ⟨node, some sheet, some (formatAddr col row), get (sheet, row) layout.rowMeta,
      get (sheet, col) layout.periodByCell, .empty⟩

end EmptyNodes

section Rows

def graphRow (cell : Cell) : GraphRow :=
  let row := indexRow layout cell
  ⟨row.nodeId, some row.sheet, some row.addr, row.rowKey, row.periodId, row.nodeType⟩

/-- `_index_rows` with the rows of the empty range members. -/
def indexRows (edges : List CellEdge) (cells : List Cell) : List GraphRow :=
  let rows := cells.map (graphRow layout)
  rows ++ (emptyRangeNodes (rows.map (·.nodeId)) edges).map (emptyIndexRow text layout)

/-- What `_stream_index` holds while it reads the cells. -/
structure IndexStream where
  rows : List GraphRow := []
  circularIds : List ((String × ℕ) × List String) := []
  stillEmpty : List String

def IndexStream.step (st : IndexStream) (cell : Cell) : IndexStream where
  rows := st.rows ++ [graphRow layout cell]
  stillEmpty := st.stillEmpty.filter (· ≠ cell.node)
  circularIds :=
    if (cell.sheet, cell.row) ∈ circularKeys text layout then
      insertOnce (cell.sheet, cell.row) cell.node st.circularIds
    else st.circularIds

def streamIndex (source : EdgeSource) (cells : List Cell) :
    List GraphRow × List ((String × ℕ) × List String) :=
  let emptyIds := emptyTargetIds source
  let st := cells.foldl (IndexStream.step text layout) { stillEmpty := emptyIds }
  let empty := emptyIds.filter (· ∈ st.stillEmpty)
  (st.rows ++ empty.map (emptyIndexRow text layout), st.circularIds)

end Rows

section Hints

def rowOf (node : String) : Option (String × ℕ) :=
  (parseNodeId text.toCharTable node).map fun parsed => (parsed.1, parsed.2.2)

def cellsByRow (rows : List GraphRow) : List ((String × ℕ) × List String) :=
  rows.foldl (fun found row =>
    match rowOf text row.nodeId with
    | none => found
    | some key => insertOnce key row.nodeId found) []

def addHint (cells : List ((String × ℕ) × List String)) (hints : List CircularityHint)
    (entry : String × LayoutRow) : List CircularityHint :=
  let key := (entry.1, entry.2.row)
  if hints.any fun hint => (hint.sheet, hint.row) = key then hints
  else hints ++
    [⟨entry.1, entry.2.row, entry.2.label, ((get key cells).getD []).insertionSort (· ≤ ·)⟩]

def circularityHints {Cycle : Type} (cycles : List Cycle)
    (cells : List ((String × ℕ) × List String)) : List CircularityHint :=
  if cycles = [] then (circularRows text layout).foldl (addHint cells) [] else []

end Hints

end FinanceContext.GraphIndex
