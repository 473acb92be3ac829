import FinanceContext.ComponentLabels
import FinanceContext.FirstOccurrences
import FinanceContext.GraphEdges
import FinanceContext.RangeHops
import Mathlib.Data.String.Basic

namespace FinanceContext

open Csr Dictionaries FirstOccurrences

inductive CycleClass where
  | iterativeOk | unexpected
  deriving DecidableEq, Repr

structure CycleRecord where
  id : String
  members : List String
  cycleClass : CycleClass
  deriving DecidableEq

/-- An edge the analysis follows. -/
def Usable (edge : CellEdge) : Prop :=
  edge.source ≠ "" ∧ edge.target ≠ "" ∧ edge.unresolved = false ∧ edge.dangling = false ∧
    (edge.kind = "ref" ∨ edge.kind = "cross_sheet" ∨ edge.kind = "range")

instance (edge : CellEdge) : Decidable (Usable edge) :=
  inferInstanceAs (Decidable (_ ∧ _))

/-- The vertices of a list of edges in order, and the component of each. -/
structure Labels where
  nodes : List String
  label : String → ℕ

def labelsOf (components : Components) (pairs : List (String × String)) : Labels :=
  let nodes := (pairs.flatMap fun p => [p.1, p.2]).dedup.insertionSort (· ≤ ·)
  let label := components nodes.length (pairs.map fun p => (nodes.idxOf p.1, nodes.idxOf p.2))
  { nodes := nodes, label := fun name => label (nodes.idxOf name) }

namespace Labels

variable (labels : Labels)

def labelOf (name : String) : Option ℕ :=
  if name ∈ labels.nodes then some (labels.label name) else none

def members (label : ℕ) : List String := labels.nodes.filter fun name => labels.label name = label

def order : List ℕ := firsts id [] (labels.nodes.map labels.label)

end Labels

/-- `hop_flags`: component, period-chain bit and self loop of each edge from a formula to a
member of a range in its component. -/
def hopFlags (labels : Labels) (rangeEdges : List (String × RangeNode)) (hops : RangeHops)
    (chain : String → String → Bool) : List (ℕ × Bool × Bool) :=
  rangeEdges.flatMap fun (source, node) =>
    match labels.labelOf source with
    | none => []
    | some label =>
      if labels.labelOf node.nodeId ≠ some label then []
      else
        (hops.members node).filterMap fun member =>
          if labels.labelOf member ≠ some label then none
          else some (label, chain source member, member = source)

def nodesOf (rangeEdges : List (String × RangeNode)) : List RangeNode :=
  (filled (rangeEdges.map fun e => (e.2.nodeId, e.2))).map Prod.snd

section Classify

variable (text : GraphText)

def isPeriodChain (edge : CellEdge) : Bool :=
  periodChain text edge.source edge.target edge.periodLag edge.colOffset

def classify (intra : List CellEdge) (hopBits : List Bool) : CycleClass :=
  if intra = [] ∧ hopBits = [] then .unexpected
  else if (∀ edge ∈ intra, isPeriodChain text edge = true) ∧ ∀ bit ∈ hopBits, bit = true then
    .iterativeOk
  else .unexpected

def intraEdges (labels : Labels) (usable : List CellEdge) (label : ℕ) : List CellEdge :=
  usable.filter fun edge =>
    labels.label edge.source = labels.label edge.target ∧ isRangeNode edge.target = false ∧
      labels.label edge.source = label ∧
      ¬((labels.members label).length < 2 ∧ edge.source ≠ edge.target)

def cycleRecord (labels : Labels) (usable : List CellEdge) (flags : List (ℕ × Bool × Bool))
    (label : ℕ) : Option (List String × CycleClass) :=
  let group := (labels.members label).filter (isCellId text.toCharTable)
  let intra := intraEdges labels usable label
  let hopBits := (flags.filter (·.1 = label)).map (·.2.1)
  let selfLoop := (∃ edge ∈ intra, edge.source = edge.target) ∨
    ∃ flag ∈ flags, flag.1 = label ∧ flag.2.2 = true
  if group = [] ∨ (group.length < 2 ∧ ¬selfLoop) then none
  else some (group.insertionSort (· ≤ ·), classify text intra hopBits)

def numberCycles (records : List (List String × CycleClass)) : List CycleRecord :=
  records.mapIdx fun i r => ⟨"c" ++ toString (i + 1), r.1, r.2⟩

/-- `classify_cycles`; `ranges` holds the hops and the edges into range nodes, if there are
any. -/
def classifyCycles (components : Components) (edges : List CellEdge)
    (ranges : Option (RangeHops × List (String × RangeNode)))
    (chain : String → String → Bool) : List CycleRecord :=
  let usable := edges.filter Usable
  let structural := match ranges with
    | some (hops, rangeEdges) => (hops.structural (nodesOf rangeEdges)).1
    | none => []
  let labels := labelsOf components (usable.map (fun e => (e.source, e.target)) ++ structural)
  let flags := match ranges with
    | some (hops, rangeEdges) => hopFlags labels rangeEdges hops chain
    | none => []
  numberCycles (labels.order.filterMap (cycleRecord text labels usable flags))

end Classify

end FinanceContext
