import FinanceContext.Cycles

/-!
The cycle analysis and the lags of the graph stage, and the graph with one edge for each member
in the place of an edge into a range.
-/

namespace FinanceContext

open Csr Dictionaries RangeHops

/-- A cell id as the reader writes it, on a sheet that `parse_node_id` returns unchanged. -/
def IsCellName (table : CharTable) (name : String) : Prop :=
  ∃ sheet col row, SheetName table sheet ∧ 1 ≤ col ∧ name = nodeId sheet (formatAddr col row)

theorem IsCellName.cellId {table : CharTable} {name : String} (h : IsCellName table name) :
    ∃ sheet col row, CellId table name sheet col row := by
  obtain ⟨sheet, col, row, hsheet, hcol, rfl⟩ := h
  exact ⟨sheet, col, row, cellId_nodeId table hsheet row hcol⟩

theorem IsCellName.isCellId {table : CharTable} {name : String} (h : IsCellName table name) :
    isCellId table name = true := by
  obtain ⟨sheet, col, row, hname⟩ := h.cellId
  exact hname.isCellId

theorem isRangeNode_of_noColon {name : String} (h : ':' ∉ name.toList) :
    isRangeNode name = false := by
  unfold isRangeNode
  cases hsplit : rsplitBang name.toList with
  | none => rfl
  | some parts =>
    have hname : name.toList = parts.1 ++ '!' :: parts.2 := eq_append_of_rsplitBang hsplit
    rw [hname] at h
    simp at h
    simp [h]

theorem IsCellName.isRangeNode {table : CharTable} {name : String} (h : IsCellName table name) :
    isRangeNode name = false := by
  obtain ⟨sheet, col, row, hname⟩ := h.cellId
  exact isRangeNode_of_noColon hname.noColon

theorem parseRangeNode_of_not {table : CharTable} {name : String}
    (h : isRangeNode name = false) : parseRangeNode table name = none := by
  simp [parseRangeNode, h]

section Stage

variable (components : Components) (text : GraphText) (periods : PeriodByCell)
  (usage : SheetUsage)

def graphCycles (formulaCells : List String) (edges : List CellEdge) : List CycleRecord :=
  let enriched := edges.map (enrichEdge text periods usage)
  let users := rangeUsers text enriched
  classifyCycles text components enriched
    (if users = [] then none else some (RangeHops.create text.toCharTable formulaCells, users))
    (memberChain text periods)

def formulaLags (edges : List CellEdge) : List (String × List String) :=
  let enriched := edges.map (enrichEdge text periods usage)
  addRangeLags text periods usage (lagsBySource enriched) (rangeUsers text enriched)

def formulaClass (edges : List CellEdge) (cell : String) (formula : Option String)
    (refs : List String) : Option FormulaClass :=
  classifyFormula text formula refs
    ((get cell (formulaLags text periods usage edges)).getD [])

end Stage

section Expansion

variable (table : CharTable)

def inRange (node : RangeNode) (cell : String) : Bool :=
  match parseNodeId table cell with
  | some (sheet, col, row) =>
    sheet = node.sheet ∧ node.c1 ≤ col ∧ col ≤ node.c2 ∧ node.r1 ≤ row ∧ row ≤ node.r2
  | none => false

def formulaMembers (formulaCells : List String) (node : RangeNode) : List String :=
  formulaCells.filter (inRange table node)

/-- The members of a range: the present cells of whole columns or rows, and all cells of a
rectangle. -/
def rangeMembers (usage : SheetUsage) (node : RangeNode) : List String :=
  if wholeAxis node.c1 node.c2 node.r1 node.r2 then
    (columnsOf usage node.sheet).flatMap fun (col, spans) =>
      if col < node.c1 ∨ node.c2 < col then []
      else spans.flatMap fun (lo, hi) =>
        (List.range' (max lo node.r1) (min hi node.r2 + 1 - max lo node.r1)).map fun row =>
          nodeId node.sheet (formatAddr col row)
  else
    (List.range' node.r1 (node.r2 + 1 - node.r1)).flatMap fun row =>
      (List.range' node.c1 (node.c2 + 1 - node.c1)).map fun col =>
        nodeId node.sheet (formatAddr col row)

def expandRanges (members : RangeNode → List String) (edges : List CellEdge) : List CellEdge :=
  edges.flatMap fun edge =>
    match parseRangeNode table edge.target with
    | none => [edge]
    | some node => (members node).map fun cell => { edge with target := cell }

theorem mem_expandRanges {members : RangeNode → List String} {edges : List CellEdge}
    {e : CellEdge} :
    e ∈ expandRanges table members edges ↔
      (e ∈ edges ∧ parseRangeNode table e.target = none) ∨
        ∃ edge ∈ edges, ∃ node, parseRangeNode table edge.target = some node ∧
          ∃ cell ∈ members node, e = { edge with target := cell } := by
  unfold expandRanges
  rw [List.mem_flatMap]
  constructor
  · rintro ⟨edge, hedge, he⟩
    cases hnode : parseRangeNode table edge.target with
    | none =>
      rw [hnode] at he
      rw [List.mem_singleton.mp he]
      exact .inl ⟨hedge, hnode⟩
    | some node =>
      rw [hnode] at he
      obtain ⟨cell, hcell, rfl⟩ := List.mem_map.mp he
      exact .inr ⟨edge, hedge, node, hnode, cell, hcell, rfl⟩
  · rintro (⟨he, hnone⟩ | ⟨edge, hedge, node, hnode, cell, hcell, rfl⟩)
    · refine ⟨e, he, ?_⟩
      rw [hnone]
      exact List.mem_singleton_self e
    · refine ⟨edge, hedge, ?_⟩
      rw [hnode]
      exact List.mem_map.mpr ⟨cell, hcell, rfl⟩

end Expansion

/-- Formula cells, the cell and range edges that lead out of them, and the index of the present
cells. -/
structure FormulaGraph (text : GraphText) where
  formulaCells : List String
  edges : List CellEdge
  usage : SheetUsage
  cell : ∀ cell ∈ formulaCells, IsCellName text.toCharTable cell
  source : ∀ edge ∈ edges, edge.source ∈ formulaCells
  target : ∀ edge ∈ edges, Usable edge → parseRangeNode text.toCharTable edge.target = none →
    IsCellName text.toCharTable edge.target
  range : ∀ edge ∈ edges, ∀ node, parseRangeNode text.toCharTable edge.target = some node →
    Usable edge ∧ SheetName text.toCharTable node.sheet ∧
      (get (text.casefold node.sheet) usage.canonical).getD node.sheet = node.sheet
  columns : ∀ sheet, ∀ column ∈ columnsOf usage sheet,
    1 ≤ column.1 ∧ ∀ span ∈ column.2, span.1 ≤ span.2

section Enriched

variable (text : GraphText) (periods : PeriodByCell) (usage : SheetUsage)

@[simp] theorem enrichEdge_source (edge : CellEdge) :
    (enrichEdge text periods usage edge).source = edge.source := by
  unfold enrichEdge
  split
  rfl

@[simp] theorem enrichEdge_target (edge : CellEdge) :
    (enrichEdge text periods usage edge).target = edge.target := by
  unfold enrichEdge
  split
  rfl

theorem filter_usable_enriched (edges : List CellEdge) :
    (edges.map (enrichEdge text periods usage)).filter Usable =
      (edges.filter Usable).map (enrichEdge text periods usage) := by
  rw [List.filter_map]
  rfl

theorem rangeUsers_enriched (edges : List CellEdge) :
    rangeUsers text (edges.map (enrichEdge text periods usage)) = rangeUsers text edges := by
  unfold rangeUsers
  rw [List.filterMap_map]
  apply List.filterMap_congr
  intro edge _
  simp

theorem isPeriodChain_enrichEdge {edge : CellEdge}
    (h : parseRangeNode text.toCharTable edge.target = none) :
    isPeriodChain text (enrichEdge text periods usage edge) =
      memberChain text periods edge.source edge.target := by
  simp [enrichEdge, viewNode, h, isPeriodChain, memberChain]

theorem mem_rangeUsers {edges : List CellEdge} {source : String} {node : RangeNode} :
    (source, node) ∈ rangeUsers text edges ↔
      ∃ edge ∈ edges, edge.source = source ∧ source ≠ "" ∧
        parseRangeNode text.toCharTable edge.target = some node := by
  unfold rangeUsers
  rw [List.mem_filterMap]
  constructor
  · rintro ⟨edge, hedge, h⟩
    cases hnode : viewNode text edge.target with
    | none => simp [hnode] at h
    | some node' =>
      simp only [hnode] at h
      split_ifs at h with hempty
      obtain ⟨rfl, rfl⟩ := Prod.mk.inj (Option.some.inj h)
      exact ⟨edge, hedge, rfl, hempty, hnode⟩
  · rintro ⟨edge, hedge, rfl, hempty, hnode⟩
    have hview : viewNode text edge.target = some node := hnode
    refine ⟨edge, hedge, ?_⟩
    simp [hview, hempty]

end Enriched

end FinanceContext
