import FinanceContext.BreadthFirst
import FinanceContext.CoverIndex
import FinanceContext.GraphIndex
import FinanceContext.NodeCodecs
import FinanceContext.UsageQueries

namespace FinanceContext.Trace

open Csr Dictionaries GraphIndex

inductive Direction
  | precedents | dependents
deriving DecidableEq

inductive Stopped
  | empty | cycle | input | depth | leaf | complete
deriving DecidableEq

structure TraceNode where
  nodeId : String
  sheet : Option String
  addr : Option String
  rowKey : Option String
  periodId : Option String
  nodeType : Option NodeType
  formula : Option String
  formulaTemplate : Option String
  cachedValue : Option String
  depth : ℕ
deriving DecidableEq

structure TraceEdge where
  source : String
  target : String
  kind : String
  periodLag : Option String
  colOffset : Option ℤ
  membersTotal : Option ℕ := none
  membersShown : Option ℕ := none
deriving DecidableEq

structure TraceDocument where
  origin : String
  direction : Direction
  depth : ℕ
  stopped : Stopped
  nodes : List TraceNode := []
  edges : List TraceEdge := []
deriving DecidableEq

/-- What the index says of a cell, or what is made up for a blank one. -/
structure Meta where
  sheet : Option String := none
  addr : Option String := none
  rowKey : Option String := none
  periodId : Option String := none
  nodeType : Option NodeType := none
deriving DecidableEq

/-- What a trace reads: the cells, the graph index, the edges, the present cells of the book, and
the row keys whose own label contains a text. -/
structure Files where
  cells : List Cell
  rows : List GraphRow
  edges : List CellEdge
  usage : SheetUsage
  rowKeysForLabel : String → List String

structure Query where
  origin : String
  direction : Direction
  depth : ℤ
  rangeMembers : ℤ

/-- Python's `or` on texts. -/
def orText (first second : Option String) : Option String :=
  match first with
  | none => second
  | some text => if text = "" then second else some text

variable (text : GraphText) (files : Files)

section Tables

def index : List (String × GraphRow) := filled (files.rows.map fun row => (row.nodeId, row))

def cellOfId (node : String) : Option Cell :=
  get node (filled (files.cells.map fun cell => (cell.node, cell)))

def isUsable (edge : CellEdge) : Bool :=
  !edge.unresolved && !edge.dangling && edge.target ≠ ""

def fwd (node : String) : List CellEdge :=
  files.edges.filter fun edge => isUsable edge && edge.source = node

def rev (node : String) : List CellEdge :=
  files.edges.filter fun edge => isUsable edge && edge.target = node

def nodesById : List (String × RangeNode) :=
  filled ((files.edges.filter isUsable).filterMap fun edge =>
    (parseRangeNode text.toCharTable edge.target).map fun node => (edge.target, node))

def nodeTypeOf (node : String) : Option NodeType := (get node (index files)).map (·.nodeType)

end Tables

section Ranges

def folding : Expansion := ⟨text.casefold, text.decimal, 0, 0, none⟩

def isFilled (row : GraphRow) : Bool := row.nodeType = .calculated || row.nodeType = .input

def filledSpans : List Span :=
  (index files).filterMap fun entry =>
    if isFilled entry.2 then
      (splitCell text.toCharTable entry.1).map fun (sheet, col, row) => ⟨sheet, col, row, row⟩
    else none

def grid : SheetUsage := (folding text).sheetUsageSpans (filledSpans text files)

def members (node : RangeNode) : List String :=
  ((folding text).nodePairs (grid text files) node).map fun (row, col) =>
    nodeId node.sheet (formatAddr col row)

def isWhole (node : RangeNode) : Bool := wholeAxis node.c1 node.c2 node.r1 node.r2

def hasCells (node : RangeNode) : Bool :=
  !isWhole node || 0 < (folding text).presentCount files.usage node

/-- A whole column or row covers only the cells that exist. -/
def covering (cell : String) : List RangeNode :=
  match parseNodeId text.toCharTable cell with
  | none => []
  | some (sheet, col, row) =>
    if cell.toList.contains ':' then []
    else
      ((CoverIndex.create ((nodesById text files).map Prod.snd)).covering sheet col row).filter
        fun node => !isWhole node || Expansion.cellPresent files.usage sheet row col

def readers (cell : String) : List (CellEdge × String) :=
  (covering text files cell).flatMap fun node =>
    (rev files node.nodeId).map fun edge => (edge, edge.source)

/-- `_period_by_col`: the first period given in the column. -/
def periodByCol (sheet : String) (col : ℕ) : Option String :=
  (index files).findSome? fun entry =>
    match parseNodeId text.toCharTable entry.1 with
    | none => none
    | some (name, c, _) =>
      if name = sheet ∧ c = col ∧ Cell.given entry.2.periodId then entry.2.periodId else none

def rowKeyByRow (sheet : String) (row : ℕ) : Option String :=
  (index files).findSome? fun entry =>
    match parseNodeId text.toCharTable entry.1 with
    | none => none
    | some (name, _, r) =>
      if name = sheet ∧ r = row ∧ Cell.given entry.2.rowKey then entry.2.rowKey else none

def period (cell : String) : Option String :=
  match get cell (index files) with
  | some row => row.periodId
  | none =>
    match parseNodeId text.toCharTable cell with
    | none => none
    | some (sheet, col, _) => periodByCol text files sheet col

def readerOffsetAndLag (reader cell : String) : Option ℤ × String :=
  let offset := do
    let src ← parseNodeId text.toCharTable reader
    let tgt ← parseNodeId text.toCharTable cell
    pure ((tgt.2.1 : ℤ) - src.2.1)
  (offset, lagBetween text (period text files reader) (period text files cell))

def blankMeta (cell : String) : Meta :=
  match parseNodeId text.toCharTable cell with
  | none => {}
  | some (sheet, col, row) =>
    if covering text files cell = [] then {}
    else
      { sheet := some sheet
        addr := (rsplitBang cell.toList).map fun parts => String.ofList parts.2
        rowKey := rowKeyByRow text files sheet row
        periodId := periodByCol text files sheet col
        nodeType := some .empty }

def metaOf (cell : String) : Meta :=
  match get cell (index files) with
  | some row => ⟨row.sheet, row.addr, row.rowKey, row.periodId, some row.nodeType⟩
  | none => blankMeta text files cell

end Ranges

section Origin

variable (query : Query)

def resolveOrigin : List String :=
  let origin := text.strip query.origin
  if origin = "" then []
  else if (get origin (index files)).isSome then [origin]
  else
    let named (keys : List String) : List String :=
      (((index files).filter fun entry => entry.2.rowKey.any fun key => key ∈ keys).map
        Prod.fst).insertionSort (· ≤ ·)
    if origin.toList.contains '|' then named [origin]
    else
      let keys := files.rowKeysForLabel origin
      if keys = [] then [] else named keys

def startNodes : List String :=
  let origin := text.strip query.origin
  let starts := resolveOrigin text files query
  if starts ≠ [] then starts
  else if (cellOfId files origin).isSome then [origin]
  else if covering text files origin ≠ [] then [origin]
  else []

end Origin

/-- What the walk holds between two turns of its loop. `seen` is the ids of the nodes. -/
structure Walk where
  nodes : List TraceNode := []
  usedEdges : List TraceEdge := []
  queue : List (String × ℕ)
  stopped : Option Stopped := none
  hitDepth : Bool := false

def Walk.seen (st : Walk) : List String := st.nodes.map (·.nodeId)

section Steps

variable (query : Query)

def depthOf : ℕ := (max 1 (min query.depth 32)).toNat

def traceNode (node : String) (level : ℕ) : TraceNode :=
  let info := metaOf text files node
  let cell := cellOfId files node
  { nodeId := node
    sheet := orText info.sheet (cell.map (·.sheet))
    addr := orText info.addr (cell.map (·.addr))
    rowKey := info.rowKey
    periodId := info.periodId
    nodeType := info.nodeType
    formula := cell.bind (·.formulaRaw)
    formulaTemplate := cell.bind (·.formulaTemplate)
    cachedValue := cell.bind (·.cachedValue)
    depth := level }

abbrev Expanding := Walk × List (String × String)

def emit (st : Expanding) (out : TraceEdge) : Expanding :=
  if (out.source, out.target) ∈ st.2 then st
  else ({ st.1 with usedEdges := st.1.usedEdges ++ [out] }, st.2 ++ [(out.source, out.target)])

def follow (level : ℕ) (st : Walk) (next : String) : Walk :=
  if next ∈ st.seen then { st with stopped := some .cycle }
  else { st with queue := st.queue ++ [(next, level + 1)] }

def shownTarget (edge : CellEdge) : String := (orText edge.rangeRef none).getD edge.target

def shown (members : List String) : List String :=
  if query.rangeMembers ≤ 0 then members else members.take query.rangeMembers.toNat

def followCell (level : ℕ) (edge : CellEdge) (st : Expanding) (next : String) : Expanding :=
  let st := emit st ⟨edge.source, shownTarget edge, edge.kind, edge.periodLag, edge.colOffset,
    none, none⟩
  if nodeTypeOf files next = some .empty then st else (follow level st.1 next, st.2)

def followEdge (level : ℕ) (st : Expanding) (edge : CellEdge) : Expanding :=
  match query.direction with
  | .dependents => followCell files level edge st edge.source
  | .precedents =>
    match get edge.target (nodesById text files) with
    | none => followCell files level edge st edge.target
    | some node =>
      if !hasCells text files node then st
      else
        let all := members text files node
        let st := emit st ⟨edge.source, shownTarget edge, edge.kind, edge.periodLag,
          edge.colOffset, some all.length, some (shown query all).length⟩
        ((shown query all).foldl (follow level) st.1, st.2)

def followReader (current : String) (level : ℕ) (st : Expanding) (reader : CellEdge × String) :
    Expanding :=
  let (offset, lag) := readerOffsetAndLag text files reader.2 current
  let st := emit st ⟨reader.1.source, shownTarget reader.1, reader.1.kind, some lag, offset,
    none, none⟩
  (follow level st.1 reader.2, st.2)

def outgoing (node : String) : List CellEdge :=
  match query.direction with
  | .precedents => fwd files node
  | .dependents => rev files node

def readersOf (node : String) : List (CellEdge × String) :=
  match query.direction with
  | .precedents => []
  | .dependents => readers text files node

def isInput (node : String) : Bool :=
  query.direction = .precedents && (metaOf text files node).nodeType = some .input

def expand (node : String) (level : ℕ) (st : Walk) : Walk :=
  let st := (outgoing files query node).foldl (followEdge text files query level) (st, [])
  ((readersOf text files query node).foldl (followReader text files node level) st).1

def Walk.step (st : Walk) : Walk :=
  match st.queue with
  | [] => st
  | (current, level) :: rest =>
    let st := { st with queue := rest }
    if current ∈ st.seen then { st with stopped := some .cycle }
    else
      let st := { st with nodes := st.nodes ++ [traceNode text files current level] }
      if isInput text files query current && 0 < level then { st with stopped := some .input }
      else if depthOf query ≤ level then
        if outgoing files query current = [] ∧ readersOf text files query current = [] then st
        else { st with hitDepth := true }
      else expand text files query current level st

def walk (n : ℕ) : Walk :=
  (Walk.step text files query)^[n] { queue := (startNodes text files query).map (·, 0) }

def uniqueEdges (edges : List TraceEdge) : List TraceEdge :=
  edges.foldl (fun out edge =>
    if out.any fun other => other.source = edge.source ∧ other.target = edge.target then out
    else out ++ [edge]) []

def document (st : Walk) : TraceDocument :=
  if startNodes text files query = [] then
    ⟨query.origin, query.direction, depthOf query, .empty, [], []⟩
  else
    { origin := query.origin
      direction := query.direction
      depth := depthOf query
      stopped := st.stopped.getD
        (if st.hitDepth then .depth else if st.usedEdges = [] then .leaf else .complete)
      nodes := st.nodes
      edges := uniqueEdges st.usedEdges }

end Steps

end FinanceContext.Trace
