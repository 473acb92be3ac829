import FinanceContext.Addresses

namespace FinanceContext

/-- A cell of `ir/cells.parquet`. The reader writes the address it derives from the column
and the row, and there is none before `A1`. -/
structure Cell where
  sheet : String
  row : ℕ
  col : ℕ
  row_pos : 1 ≤ row
  col_pos : 1 ≤ col
  formulaRaw : Option String := none
  formulaTemplate : Option String := none
  cachedValue : Option String := none
  numberFormat : Option String := none
  hidden : Bool := false
  unparsed : Bool := false
  deriving DecidableEq

theorem place_one : 1 ≤ 1 := le_refl 1

theorem place_two : 1 ≤ 2 := by decide

theorem place_three : 1 ≤ 3 := by decide

namespace Cell

def addr (cell : Cell) : String := formatAddr cell.col cell.row

def node (cell : Cell) : String := nodeId cell.sheet cell.addr

def given : Option String → Bool
  | none => false
  | some text => text != ""

theorem node_inj {c c' : Cell} (h : c.node = c'.node) :
    c.sheet = c'.sheet ∧ c.row = c'.row ∧ c.col = c'.col := by
  obtain ⟨hsheet, haddr⟩ := nodeId_inj (bang_notMem_formatAddr _ _) (bang_notMem_formatAddr _ _) h
  obtain ⟨hcol, hrow⟩ := formatAddr_inj c.col_pos c'.col_pos haddr
  exact ⟨hsheet, hrow, hcol⟩

end Cell

end FinanceContext
