import FinanceContext.Dictionaries
import FinanceContext.LayoutModel

namespace FinanceContext

open Dictionaries

namespace Layout

def placed (layout : Layout) (name : String) : List (SheetLayout × Block) :=
  (layout.sheets.filter (·.name = name)).flatMap fun sheet => sheet.blocks.map (sheet, ·)

def lastBlock (layout : Layout) (name : String) (row : ℕ) : Option Block :=
  ((layout.placed name).flatMap fun p =>
    (p.2.rows.filter (·.row = row)).map fun _ => p.2).getLast?

def rowEntries {V : Type} (layout : Layout) (value : String → ℕ → Block → V) :
    List ((String × ℕ) × V) :=
  layout.sheets.flatMap fun sheet => sheet.blocks.flatMap fun block => block.rows.map fun row =>
    ((sheet.name, row.row), value sheet.name row.row block)

theorem flatMap_sheets {β : Type} (layout : Layout) (name : String)
    (f : SheetLayout → Block → List β) :
    (layout.sheets.flatMap fun sheet => if sheet.name = name
      then sheet.blocks.flatMap (f sheet) else []) =
      (layout.placed name).flatMap fun p => f p.1 p.2 := by
  unfold placed
  induction layout.sheets with
  | nil => rfl
  | cons sheet sheets ih =>
    rw [List.flatMap_cons, ih, List.filter_cons]
    by_cases hname : sheet.name = name
    · simp [hname, List.flatMap_map]
    · simp [hname]

theorem filter_rowEntries {V : Type} (layout : Layout) (value : String → ℕ → Block → V)
    (name : String) (row : ℕ) :
    (layout.rowEntries value).filter (·.1 = (name, row)) =
      ((layout.placed name).flatMap fun p =>
        (p.2.rows.filter (·.row = row)).map fun _ => p.2).map
          fun block => ((name, row), value name row block) := by
  rw [← flatMap_sheets layout name fun _ block =>
    (block.rows.filter (·.row = row)).map fun _ => block, rowEntries, List.filter_flatMap,
    List.map_flatMap]
  congr 1
  funext sheet
  by_cases hname : sheet.name = name
  · subst hname
    simp only [if_true, List.filter_flatMap, List.map_flatMap]
    congr 1
    funext block
    induction block.rows with
    | nil => rfl
    | cons r rows ih => by_cases hr : r.row = row <;> simp_all
  · simp [hname, List.filter_flatMap]

theorem get_rowEntries {V : Type} (layout : Layout) (value : String → ℕ → Block → V)
    (name : String) (row : ℕ) :
    get (name, row) (filled (layout.rowEntries value)) =
      (layout.lastBlock name row).map (value name row) := by
  rw [get_filled, filter_rowEntries, List.getLast?_map, Option.map_map]
  rfl

end Layout

end FinanceContext
