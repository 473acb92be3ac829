import FinanceContext.FormulaShape
import FinanceContext.LayoutIndex
import Mathlib.Data.List.Sort
import Mathlib.Data.List.SplitBy

namespace FinanceContext

open Dictionaries

structure RowKey where
  sheet : String
  row : ℕ
  blockId : String
  deriving DecidableEq, Repr

def RowKey.text (key : RowKey) : String := rowKey key.sheet key.row key.blockId

inductive RelationKind where
  | alias | aggregate | difference | rollForward
  deriving DecidableEq, Repr

/-- A published relation; the keys are published as their texts. -/
structure RowRelation where
  kind : RelationKind
  source : RowKey
  target : Option RowKey := none
  members : List RowKey := []
  evidence : Option String := none
  deriving DecidableEq

def RowRelation.keys (relation : RowRelation) : List RowKey :=
  relation.target.toList ++ relation.members

namespace Layout

def rowIndex (layout : Layout) : List ((String × ℕ) × Block) :=
  filled (layout.rowEntries fun _ _ block => block)

def blockIdAt (layout : Layout) (sheet : String) (row : ℕ) : Option String :=
  (get (sheet, row) layout.rowIndex).map (·.blockId)

/-- `sheet_rows`: the rows of a sheet whose block has an id, sorted. -/
def sheetRows (layout : Layout) (sheet : String) : List (ℕ × String) :=
  (layout.rowIndex.filterMap fun ((name, row), block) =>
    if name = sheet ∧ block.blockId ≠ "" then some (row, block.blockId) else none).insertionSort
      fun p q => p.1 < q.1 ∨ p.1 = q.1 ∧ p.2 ≤ q.2

/-- `_member_keys_in_span`: the two bisections keep the sorted rows from `lo` to `hi`. -/
def memberKeysInSpan (layout : Layout) (sheet : String) (lo hi : ℕ) : List RowKey :=
  ((layout.sheetRows sheet).filter fun p => lo ≤ p.1 ∧ p.1 ≤ hi).map fun p => ⟨sheet, p.1, p.2⟩

def periodCols (sheet : SheetLayout) (block : Block) : List ℕ :=
  match block.kind with
  | .params => ((periodHeaders sheet block).filter fun header =>
      header.role = some .value || header.role = some .unknown).map (·.col)
  | .timeline => (periodHeaders sheet block).map (·.col)

/-- `periods` of `formula_relations`: the columns of every block that lists the row. -/
def periodsAt (layout : Layout) (key : String × ℕ) : List (List ℕ) :=
  (layout.placed key.1).flatMap fun p =>
    (p.2.rows.filter (·.row = key.2)).map fun _ => periodCols p.1 p.2

end Layout

/-- The cells in groups, as `flush` sees them: one group ends where the sheet row changes. -/
def rowRuns (cells : List RelationCell) : List ((String × ℕ) × List RelationCell) :=
  (cells.splitBy fun a b => a.key = b.key).filterMap fun run =>
    run.head?.map fun cell => (cell.key, run)

def colmap (run : List RelationCell) (col : ℕ) : Option RelationCell :=
  (run.filter (·.col = col)).getLast?

def relationFromPattern (layout : Layout) (sheet : String) (block : Block) (row : ℕ)
    (pattern : RowPattern) : Option RowRelation :=
  let source : RowKey := ⟨sheet, row, block.blockId⟩
  match pattern.kind with
  | .alias =>
    pattern.aliasRow.bind fun target =>
      let named := sheetOr pattern.aliasSheet sheet
      (layout.blockIdAt named target).map fun id =>
        { kind := .alias, source := source, target := some ⟨named, target, id⟩
          evidence := pattern.template }
  | .aggregate =>
    pattern.aggregateSpan.map fun span =>
      { kind := .aggregate, source := source
        members := layout.memberKeysInSpan sheet span.1 span.2
        evidence := pattern.template }
  | .diff =>
    pattern.diffRows.map fun rows =>
      { kind := .difference, source := source
        members := [rows.1, rows.2].filterMap fun n =>
          (layout.blockIdAt sheet n).bind fun id => if id = "" then none else some ⟨sheet, n, id⟩
        evidence := pattern.template }
  | .roll =>
    pattern.rollFromRow.bind fun target =>
      (layout.blockIdAt sheet target).map fun id =>
        { kind := .rollForward, source := source, target := some ⟨sheet, target, id⟩
          evidence := pattern.template }
  | _ => none

section

variable (casefold upper : String → String) (layout : Layout) (cells : List RelationCell)

/-- `patterns` after the last `flush`. -/
def rowPatterns : List (((String × ℕ) × List ℕ) × RowPattern) :=
  filled ((rowRuns cells).flatMap fun p => (layout.periodsAt p.1).map fun cols =>
    ((p.1, cols), patternForRow casefold upper (colmap p.2) p.1.1 p.1.2 cols))

def relationOf (sheet : SheetLayout) (block : Block) (row : LayoutRow) : Option RowRelation :=
  (get ((sheet.name, row.row), Layout.periodCols sheet block)
    (rowPatterns casefold upper layout cells)).bind
      (relationFromPattern layout sheet.name block row.row)

def formulaRelations : List RowRelation :=
  layout.sheets.flatMap fun sheet => sheet.blocks.flatMap fun block =>
    block.rows.filterMap (relationOf casefold upper layout cells sheet block)

end

theorem mem_memberKeysInSpan {layout : Layout} {sheet : String} {lo hi : ℕ} {key : RowKey} :
    key ∈ layout.memberKeysInSpan sheet lo hi ↔
      key.sheet = sheet ∧ lo ≤ key.row ∧ key.row ≤ hi ∧
        layout.blockIdAt sheet key.row = some key.blockId ∧ key.blockId ≠ "" := by
  have hnodup : (layout.rowIndex.map Prod.fst).Nodup := nodup_keys_filled _
  simp only [Layout.memberKeysInSpan, Layout.sheetRows, List.mem_map, List.mem_filter,
    List.mem_insertionSort, List.mem_filterMap, decide_eq_true_eq]
  constructor
  · rintro ⟨⟨row, id⟩, ⟨⟨⟨⟨name, n⟩, block⟩, hmem, hif⟩, hspan⟩, rfl⟩
    split_ifs at hif with hnamed
    obtain ⟨rfl, rfl⟩ := Prod.mk.inj (Option.some.inj hif)
    obtain ⟨rfl, hid⟩ := hnamed
    refine ⟨rfl, hspan.1, hspan.2, ?_, hid⟩
    rw [Layout.blockIdAt, get_of_mem hnodup hmem]
    rfl
  · rintro ⟨rfl, hlo, hhi, hid, hne⟩
    obtain ⟨block, hget, hblock⟩ := Option.map_eq_some_iff.mp hid
    refine ⟨(key.row, key.blockId), ⟨⟨((key.sheet, key.row), block), mem_of_get hget, ?_⟩,
      hlo, hhi⟩, rfl⟩
    simp only [hblock]
    rw [if_pos ⟨trivial, hne⟩]

section

variable {casefold upper : String → String} {layout : Layout} {cells : List RelationCell}

theorem get_rowPatterns {key : String × ℕ} {cols : List ℕ} (h : cols ∈ layout.periodsAt key) :
    get (key, cols) (rowPatterns casefold upper layout cells) =
      (get key (filled (rowRuns cells))).map fun run =>
        patternForRow casefold upper (colmap run) key.1 key.2 cols := by
  rw [rowPatterns, get_filled, get_filled]
  induction rowRuns cells using List.reverseRecOn with
  | nil => rfl
  | append_singleton runs p ih =>
    rw [List.flatMap_append, List.flatMap_singleton, List.filter_append, List.filter_append,
      List.getLast?_append, List.getLast?_append]
    by_cases hp : p.1 = key
    · subst hp
      have hnew : (((layout.periodsAt p.1).map fun c =>
          ((p.1, c), patternForRow casefold upper (colmap p.2) p.1.1 p.1.2 c)).filter
            (·.1 = (p.1, cols))).getLast? =
          some ((p.1, cols), patternForRow casefold upper (colmap p.2) p.1.1 p.1.2 cols) := by
        apply getLast?_filter_of_unique
        · exact List.mem_map.mpr ⟨cols, h, rfl⟩
        · exact decide_eq_true rfl
        · intro q hq hkey
          obtain ⟨c, -, rfl⟩ := List.mem_map.mp hq
          obtain ⟨-, rfl⟩ := Prod.mk.inj (of_decide_eq_true hkey)
          rfl
      have hrun : [p].filter (·.1 = p.1) = [p] := by simp
      rw [hnew, hrun]
      rfl
    · have hnone : ((layout.periodsAt p.1).map fun cols =>
          ((p.1, cols), patternForRow casefold upper (colmap p.2) p.1.1 p.1.2 cols)).filter
            (·.1 = (key, cols)) = [] := by
        refine List.filter_eq_nil_iff.mpr fun entry hentry => ?_
        obtain ⟨c, -, rfl⟩ := List.mem_map.mp hentry
        simp [hp]
      have hnone' : [p].filter (·.1 = key) = [] := by simp [hp]
      rw [hnone, hnone']
      exact ih

end

end FinanceContext
