import FinanceContext.RangeCycles
import FinanceContext.RangeLags

namespace FinanceContext

open Csr Dictionaries ComponentLabels

/-- The cycles are those of the graph with one edge for each formula cell inside a range; the
class of a formula is that of the graph with one edge for each member of a range. -/
theorem range_nodes_keep_analysis {components : Components}
    (hcomponents : FindsComponents components) {text : GraphText} (graph : FormulaGraph text)
    (periods : PeriodByCell) :
    ((graphCycles components text periods graph.usage graph.formulaCells graph.edges).map
        fun r => (r.members, r.cycleClass)).Perm
      ((graphCycles components text periods graph.usage graph.formulaCells graph.expanded).map
        fun r => (r.members, r.cycleClass)) ∧
    ∀ cell formula refs,
      formulaClass text periods graph.usage graph.edges cell formula refs =
        formulaClass text periods graph.usage graph.memberEdges cell formula refs :=
  ⟨graph.cycles_perm hcomponents periods, graph.formulaClass_memberEdges periods⟩

section Sample

def asciiTable : CharTable where
  decimal ch := if ch.isDigit then some (ch.toNat - 48) else none
  space ch := ch = ' '
  decimal_ascii _ _ := rfl

def yearText : GraphText where
  toCharTable := asciiTable
  int lag := (get lag [("-1", -1), ("0", 0), ("1", 1)])
  casefold text := text
  periodPosition key := (get key [("2023", 2023), ("2024", 2024)]).map fun year => ("year", year)
  strip text := text
  conditional _ := false
  aggregation _ := false
  hasReference _ := true

def yearPeriods : PeriodByCell :=
  [(("S", 2), "2023"), (("S", 3), "2024"), (("A:B", 3), "2024")]

def sampleEdge (source target kind : String) : CellEdge :=
  ⟨source, target, kind, false, false, false, none, none, none, none, none, none, none, none,
    none, false, none, none⟩

/-- `S!C1` reads all of column B, where only a value stands, and lies on a cycle with `S!C2`. -/
def yearEdges : List CellEdge :=
  [sampleEdge "S!C1" "S!B:B" "range", sampleEdge "S!C1" "S!C2" "ref",
    sampleEdge "S!C2" "S!C1" "ref"]

def yearUsage : SheetUsage where
  rowsByCol := [("S", [(2, [(1, 1)]), (3, [(1, 2)])])]
  canonical := [("S", "S")]

theorem sheetName_s : SheetName asciiTable "S" := ⟨by decide, by decide, by decide⟩

def yearGraph : FormulaGraph yearText where
  formulaCells := ["S!C1", "S!C2"]
  edges := yearEdges
  usage := yearUsage
  cell := by
    intro cell hcell
    simp only [List.mem_cons, List.not_mem_nil, or_false] at hcell
    rcases hcell with rfl | rfl
    · exact ⟨"S", 3, 1, sheetName_s, by decide, by decide +kernel⟩
    · exact ⟨"S", 3, 2, sheetName_s, by decide, by decide +kernel⟩
  source := by decide +kernel
  target := by
    intro edge hedge husable hnone
    simp only [yearEdges, List.mem_cons, List.not_mem_nil, or_false] at hedge
    rcases hedge with rfl | rfl | rfl
    · exact absurd hnone (by decide +kernel)
    · exact ⟨"S", 3, 2, sheetName_s, by decide, by decide +kernel⟩
    · exact ⟨"S", 3, 1, sheetName_s, by decide, by decide +kernel⟩
  range := by
    have hall : ∀ edge ∈ yearEdges, Usable edge ∧
        ∀ node ∈ parseRangeNode yearText.toCharTable edge.target, node.sheet = "S" := by
      decide +kernel
    intro edge hedge node hnode
    obtain ⟨husable, hsheet⟩ := hall edge hedge
    rw [hsheet node hnode]
    exact ⟨husable, sheetName_s, by decide⟩
  columns := by
    intro sheet column hcolumn
    have hall : ∀ column ∈ [((2 : ℕ), [((1 : ℕ), (1 : ℕ))]), (3, [(1, 2)])],
        1 ≤ column.1 ∧ ∀ span ∈ column.2, span.1 ≤ span.2 := by decide
    by_cases hs : "S" = sheet
    · subst hs
      exact hall column hcolumn
    · simp [columnsOf, yearUsage, get_cons, hs] at hcolumn

theorem range_nodes_keep_analysis_sample :
    ((graphCycles firstMutual yearText yearPeriods yearUsage yearGraph.formulaCells
        yearEdges).map fun r => (r.members, r.cycleClass)).Perm
      ((graphCycles firstMutual yearText yearPeriods yearUsage yearGraph.formulaCells
        yearGraph.expanded).map fun r => (r.members, r.cycleClass)) ∧
    ∀ cell formula refs,
      formulaClass yearText yearPeriods yearUsage yearEdges cell formula refs =
        formulaClass yearText yearPeriods yearUsage yearGraph.memberEdges cell formula refs :=
  range_nodes_keep_analysis findsComponents_firstMutual yearGraph yearPeriods

def colonEdges : List CellEdge :=
  [sampleEdge "S!C1" "A:B!C1:C80" "range", sampleEdge "A:B!C1" "S!C2" "cross_sheet",
    sampleEdge "S!C2" "S!C1" "ref"]

def colonCells : List String := ["S!C1", "S!C2", "A:B!C1"]

/-- With one edge for each formula cell only, the class of a formula can be another; and on a
sheet with a colon in its name a cycle through a range is lost. -/
theorem formula_members_change_analysis :
    formulaClass yearText yearPeriods yearUsage yearEdges "S!C1" (some "NPV(0.1,B:B)")
        ["S!B:B"] = some .rollforward ∧
      formulaClass yearText yearPeriods yearUsage
        (expandRanges asciiTable (formulaMembers asciiTable ["S!C1", "S!C2"]) yearEdges)
        "S!C1" (some "NPV(0.1,B:B)") ["S!B:B"] = some .samePeriod ∧
      graphCycles firstMutual yearText yearPeriods yearUsage colonCells colonEdges = [] ∧
      graphCycles firstMutual yearText yearPeriods yearUsage colonCells
        (expandRanges asciiTable (formulaMembers asciiTable colonCells) colonEdges) =
          [⟨"c1", ["S!C1", "S!C2"], .unexpected⟩] := by
  decide +kernel

end Sample

end FinanceContext
