import FinanceContext.GraphIndex
import FinanceContext.PackedCycles

/-!
The graph of a book from a list of cell edges, and from the row groups of `cell_edges.parquet`
with the state that is carried from one group to the next.
-/

namespace FinanceContext

open Csr Dictionaries GraphIndex

def idCap : ℕ := 32

structure IdCount where
  count : ℕ
  ids : List String
  deriving DecidableEq

def IdCount.of (ids : List String) : IdCount := ⟨ids.length, ids.take idCap⟩

structure GraphContract where
  sourceOfTruth : String := "parquet"
  edges : String := "ir/cell_edges.parquet"
  formulas : String := "ir/cells.parquet"
  deriving DecidableEq

structure GraphDocument where
  schemaVersion : String := "1.7.0"
  jobId : String
  iterate : Bool
  nodes : ℕ
  edges : ℕ
  kinds : List (String × ℕ)
  contract : GraphContract := {}
  unresolved : IdCount
  dynamic : IdCount
  external : IdCount
  truncated : IdCount
  dangling : IdCount
  danglingClasses : List (String × ℕ)
  cycles : List CycleRecord
  circularityHints : List CircularityHint
  links : List FormulaLink := []
  artifacts : List (String × String) :=
    [("cells", "ir/cells.parquet"), ("edges", "ir/edges.parquet"),
      ("cell_edges", "ir/cell_edges.parquet"), ("graph_edges", "graph/edges.parquet"),
      ("index", "graph/index.parquet")]
  deriving DecidableEq

/-- An edge of `edges.parquet`: what a formula reads, before it is expanded to cells. -/
structure FormulaEdge extends FinanceContext.Edge where
  kind : String
  unresolved : Bool

/-- One more of a key in a `Counter`. -/
def countKey (counts : List (String × ℕ)) (key : String) : List (String × ℕ) :=
  set key ((get key counts).getD 0 + 1) counts

def addId (ids : List String) (id : String) : List String := if id ∈ ids then ids else ids ++ [id]

/-- `_edge_bucket`, and `bucket` of `_summary`. -/
def edgeBucket (edges : List FormulaEdge) (pred : FormulaEdge → Bool) : IdCount :=
  IdCount.of (edges.foldl (fun ids edge =>
    if pred edge ∧ edge.source ≠ "" then addId ids edge.source else ids) [])

namespace FormulaEdge

def isUnresolved (edge : FormulaEdge) : Bool :=
  edge.unresolved && !(edge.kind = "dynamic" ∨ edge.kind = "external")

def isDynamic (edge : FormulaEdge) : Bool := edge.kind = "dynamic"

def isExternal (edge : FormulaEdge) : Bool := edge.kind = "external"

end FormulaEdge

/-- What both ways to build the graph are given beside the cell edges. -/
structure GraphSources where
  jobId : String
  layout : Layout
  formulas : List (String × Formula)
  edges : List FormulaEdge
  indexRows : List GraphRow
  circularIds : Option (List ((String × ℕ) × List String))
  nodeCount : ℕ
  iterate : Bool
  usage : SheetUsage

namespace GraphSources

variable (components : Components) (text : GraphText) (sources : GraphSources)

def periods : PeriodByCell := sources.layout.periodByCell

/-- `view.hops()` -/
def hops : RangeHops :=
  RangeHops.create text.toCharTable
    ((sources.formulas.filter fun entry => Cell.given entry.2.formula).map Prod.fst)

def hints (cycles : List CycleRecord) : List CircularityHint :=
  circularityHints text sources.layout cycles
    (sources.circularIds.getD (cellsByRow text sources.indexRows))

/-- The links, after `_bind_refs`. -/
def links (lags : List (String × List String)) : List FormulaLink :=
  linksFromFormulas (classifyFormula text) (fun cell => (get cell lags).getD [])
    (bindRefs (sources.edges.map FormulaEdge.toEdge) sources.formulas)

def document (edges : ℕ) (kinds classes : List (String × ℕ)) (truncatedIds danglingIds : List String)
    (cycles : List CycleRecord) : GraphDocument where
  jobId := sources.jobId
  iterate := sources.iterate
  nodes := sources.nodeCount
  edges := edges
  kinds := kinds
  unresolved := edgeBucket sources.edges FormulaEdge.isUnresolved
  dynamic := edgeBucket sources.edges FormulaEdge.isDynamic
  external := edgeBucket sources.edges FormulaEdge.isExternal
  truncated := IdCount.of truncatedIds
  dangling := IdCount.of danglingIds
  danglingClasses := classes
  cycles := cycles
  circularityHints := sources.hints text cycles

end GraphSources

section Summary

def countedKind (edge : CellEdge) : String := if edge.kind = "" then "ref" else edge.kind

def kindCounts (edges : List CellEdge) : List (String × ℕ) :=
  (edges.map countedKind).foldl countKey []

/-- `classes` and `seen_class`, after one more edge. -/
def addClass (state : List (String × ℕ) × List (String × String)) (edge : CellEdge) :
    List (String × ℕ) × List (String × String) :=
  let reason := edge.danglingReason.getD ""
  if reason ≠ "" ∧ edge.target ≠ "" ∧ (edge.target, reason) ∉ state.2 then
    (countKey state.1 reason, (edge.target, reason) :: state.2)
  else state

def danglingIds (edges : List CellEdge) : List String :=
  edges.foldl (fun ids edge =>
    if edge.dangling = true ∧ edge.target ≠ "" then addId ids edge.target else ids) []

def truncatedIds (edges : List CellEdge) : List String :=
  edges.foldl (fun ids edge =>
    if edge.truncated = true ∧ edge.source ≠ "" then addId ids edge.source else ids) []

end Summary

section InMemory

variable (components : Components) (text : GraphText) (sources : GraphSources)

/-- The edges of `graph/edges.parquet` and the document, from the list of cell edges. -/
def graphInMemory (edges : List CellEdge) : List CellEdge × GraphDocument :=
  let enriched := edges.map (enrichEdge text sources.periods sources.usage)
  let users := rangeUsers text enriched
  let cycles := classifyCycles text components enriched
    (if users = [] then none else some (sources.hops text, users))
    (memberChain text sources.periods)
  let doc := sources.document text enriched.length (kindCounts enriched)
    (enriched.foldl addClass ([], [])).1 (truncatedIds enriched) (danglingIds enriched) cycles
  let lags := addRangeLags text sources.periods sources.usage (lagsBySource enriched) users
  (enriched, { doc with links := sources.links text lags })

end InMemory

/-- What `_graph_from_parquet` carries from row to row and from group to group. -/
structure GraphStream where
  kinds : List (String × ℕ) := []
  classes : List (String × ℕ) := []
  seenClass : List (String × String) := []
  danglingIds : List String := []
  danglingSeen : List String := []
  truncatedIds : List String := []
  truncatedSeen : List String := []
  lagGroups : List (String × List String) := []
  rangeUsers : List (String × RangeNode) := []
  packed : PackedEdges := {}
  nEdges : ℕ := 0
  written : List CellEdge := []

section Streamed

variable (components : Components) (text : GraphText) (sources : GraphSources)

def GraphStream.step (st : GraphStream) (edge : CellEdge) : GraphStream :=
  let node := viewNode text edge.target
  let (offset, lag) := match node with
    | some node => nodeOffsetAndLag text sources.periods sources.usage edge.source node
    | none => offsetAndLag text sources.periods edge.source edge.target
  let reason := edge.danglingReason.getD ""
  let newClass := reason ≠ "" ∧ edge.target ≠ "" ∧ (edge.target, reason) ∉ st.seenClass
  let newDangling := edge.dangling = true ∧ edge.target ≠ "" ∧ edge.target ∉ st.danglingSeen
  let newTruncated := edge.truncated = true ∧ edge.source ≠ "" ∧ edge.source ∉ st.truncatedSeen
  let flag := match node with
    | some _ => EdgeFlag.structural
    | none =>
      if periodChain text edge.source edge.target (some lag) offset then EdgeFlag.chain
      else EdgeFlag.plain
  { kinds := countKey st.kinds (countedKind edge)
    nEdges := st.nEdges + 1
    classes := if newClass then countKey st.classes reason else st.classes
    seenClass := if newClass then (edge.target, reason) :: st.seenClass else st.seenClass
    danglingIds := if newDangling then st.danglingIds ++ [edge.target] else st.danglingIds
    danglingSeen := if newDangling then edge.target :: st.danglingSeen else st.danglingSeen
    truncatedIds := if newTruncated then st.truncatedIds ++ [edge.source] else st.truncatedIds
    truncatedSeen := if newTruncated then edge.source :: st.truncatedSeen else st.truncatedSeen
    rangeUsers := match node with
      | some node =>
        if edge.source = "" then st.rangeUsers else st.rangeUsers ++ [(edge.source, node)]
      | none => st.rangeUsers
    lagGroups := if edge.source = "" then st.lagGroups else addLag st.lagGroups edge.source lag
    packed := if Usable edge then st.packed.add edge.source edge.target flag else st.packed
    written := st.written ++ [{ edge with colOffset := offset, periodLag := some lag }] }

/-- `_graph_from_parquet`, with the links in the document. -/
def graphFromParquet (groups : List (List CellEdge)) : List CellEdge × GraphDocument :=
  let st := groups.foldl (fun st group => group.foldl (GraphStream.step text sources) st) {}
  let lags := addRangeLags text sources.periods sources.usage st.lagGroups st.rangeUsers
  let hops := sources.hops text
  let structural := if st.rangeUsers = [] then [] else
    (hops.structural (nodesOf st.rangeUsers)).1
  let packed := structural.foldl (fun packed link => packed.add link.1 link.2 .structural) st.packed
  let extra := if st.rangeUsers = [] then none else
    some (hopFlagsOf st.rangeUsers hops (memberChain text sources.periods))
  let cycles := cyclesPacked text components packed extra
  let doc := sources.document text st.nEdges st.kinds st.classes st.truncatedIds st.danglingIds
    cycles
  (st.written, { doc with links := sources.links text lags })

end Streamed

end FinanceContext
