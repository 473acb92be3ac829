import FinanceContext.NodeIds
import Mathlib.Data.List.Sort
import Mathlib.Data.List.Dedup

/-!
The two readers of a worksheet: one holds the whole document, the other streams its rows and
hands the cells over in batches.
-/

namespace FinanceContext.Sheets

open Csr Dictionaries

structure ColElement where
  first : ℕ
  last : ℕ
  hidden : Bool := false
  outlineLevel : ℕ := 0

/-- The `f` child of a cell. -/
structure FormulaElement where
  text : String
  shared : Bool := false
  si : Option ℕ := none

/-- A `c` element; `inline` is the text of its `is` child, `value` that of its `v` child. -/
structure CellElement where
  r : Option String
  formula : Option FormulaElement := none
  cellType : Option String := none
  inline : Option String := none
  value : Option String := none
  style : Option ℤ := none

structure RowElement where
  r : ℕ := 0
  hidden : Bool := false
  outlineLevel : ℕ := 0
  cells : List CellElement

structure Worksheet where
  cols : List ColElement := []
  rows : List RowElement

/-- What both readers take from the rest of the workbook, and the conversions they apply. -/
structure BookParts where
  sst : List String := []
  formats : List (Option String) := []
  indents : List ℕ := []
  comments : List (String × String) := []
  decimal : Char → Option ℕ
  parseInt : String → Option ℤ
  shiftFormula : String → ℕ × ℕ → ℕ × ℕ → String

/-- `_PendingCell`; `given` and `colPos` hold of every cell `_pending_from_cell` builds. -/
structure PendingCell where
  col : ℕ
  row : ℕ
  formula : Option String
  sharedSi : Option ℕ
  cached : Option String
  hidden : Bool
  numberFormat : Option String
  comment : Option String
  styleIndent : ℕ
  outlineLevel : ℕ
  colOutlineLevel : ℕ
  given : formula ≠ some ""
  colPos : 1 ≤ col

def PendingCell.addr (cell : PendingCell) : String := formatAddr cell.col cell.row

inductive PresenceKind where
  | populated | styledBlank
  deriving DecidableEq

structure CellPresence where
  addr : String
  presence : PresenceKind
  rowEnd : ℕ
  deriving DecidableEq

structure RawCell where
  row : ℕ
  col : ℕ
  addr : String
  formulaRaw : Option String
  cachedValue : Option String
  hidden : Bool
  numberFormat : Option String
  comment : Option String
  sharedSi : Option ℕ
  sharedMaster : Bool
  styleIndent : ℕ
  outlineLevel : ℕ
  colOutlineLevel : ℕ
  deriving DecidableEq

structure SheetTables where
  cells : List RawCell
  presence : List CellPresence
  hiddenRows : List ℕ
  hiddenCols : List ℕ
  deriving DecidableEq

section Cells

def hiddenCols (sheet : Worksheet) : List ℕ :=
  (sheet.cols.filter (·.hidden)).flatMap fun col => List.range' col.first (col.last + 1 - col.first)

def outlineAt (sheet : Worksheet) (col : ℕ) : ℕ :=
  ((sheet.cols.find? fun span =>
    0 < span.outlineLevel && (span.first ≤ col && col ≤ span.last)).map (·.outlineLevel)).getD 0

def entryAt {α : Type} (entries : List α) (index : ℤ) : Option α :=
  if 0 ≤ index then entries[index.toNat]? else none

def nonEmpty (text : String) : Option String := if text = "" then none else some text

variable (book : BookParts)

def cachedValue (cell : CellElement) : Option String :=
  if cell.cellType = some "inlineStr" then cell.inline.bind nonEmpty
  else if cell.cellType = some "s" then
    cell.value.map fun raw =>
      ((book.parseInt raw).bind (entryAt book.sst)).getD raw
  else cell.value

theorem one_le_of_parseAddr {addr : List Char} {col row : ℕ}
    (h : parseAddr book.decimal addr = some (col, row)) : 1 ≤ col :=
  one_le_col_of_parseAddr h

theorem nonEmpty_ne (text : String) : nonEmpty text ≠ some "" := by
  unfold nonEmpty
  split
  · exact nofun
  · simpa

/-- `_pending_from_cell`: the cell to keep, and the presence of its address. -/
def pendingFromCell (sheet : Worksheet) (rowElement : RowElement) (cell : CellElement) :
    Option PendingCell × Option ((ℕ × ℕ) × PresenceKind) :=
  match cell.r.bind nonEmpty with
  | none => (none, none)
  | some r =>
    match h : parseAddr book.decimal r.toList with
    | none => (none, none)
    | some (col, row) =>
      let formula := cell.formula.bind fun f => nonEmpty f.text
      let sharedSi := cell.formula.bind fun f => if f.shared then f.si else none
      let cached := cachedValue book cell
      let comment := get r book.comments
      if formula = none ∧ cached = none ∧ comment = none ∧ sharedSi = none then
        (none, some ((col, row), .styledBlank))
      else
        (some
          { col, row, formula, sharedSi, cached, comment
            hidden := rowElement.hidden || (hiddenCols sheet).contains col
            numberFormat := (cell.style.bind (entryAt book.formats)).join
            styleIndent := (cell.style.bind (entryAt book.indents)).getD 0
            outlineLevel := rowElement.outlineLevel
            colOutlineLevel := outlineAt sheet col
            given := by
              cases hf : cell.formula with
              | none => simp [formula, hf]
              | some f => simpa [formula, hf] using nonEmpty_ne f.text
            colPos := one_le_of_parseAddr book h },
          some ((col, row), .populated))

end Cells

section Presence

abbrev BlankRuns : Type := List (ℕ × (ℕ × ℕ))

def BlankRuns.blank (runs : BlankRuns) (col row : ℕ) : BlankRuns × List (ℕ × ℕ × ℕ) :=
  match get col runs with
  | none => (set col (row, row) runs, [])
  | some (first, last) =>
    if row = last + 1 then (set col (first, row) runs, [])
    else if first ≤ row ∧ row ≤ last then (runs, [])
    else (set col (row, row) runs, [(col, first, last)])

def BlankRuns.occupied (runs : BlankRuns) (col row : ℕ) : BlankRuns × List (ℕ × ℕ × ℕ) :=
  match get col runs with
  | none => (runs, [])
  | some (first, last) =>
    if row ≤ last then (runs, []) else (runs.filter (·.1 ≠ col), [(col, first, last)])

def BlankRuns.finish (runs : BlankRuns) : List (ℕ × ℕ × ℕ) :=
  (runs.map fun run => (run.1, run.2.1, run.2.2)).insertionSort fun a b =>
    a.1 < b.1 ∨ a.1 = b.1 ∧ (a.2.1 < b.2.1 ∨ a.2.1 = b.2.1 ∧ a.2.2 ≤ b.2.2)

def closedRun (run : ℕ × ℕ × ℕ) : CellPresence := ⟨formatAddr run.1 run.2.1, .styledBlank, run.2.2⟩

def presenceEvents (runs : BlankRuns) (col row : ℕ) :
    PresenceKind → BlankRuns × List CellPresence
  | .styledBlank =>
    let (runs, closed) := runs.blank col row
    (runs, closed.map closedRun)
  | .populated =>
    let (runs, closed) := runs.occupied col row
    (runs, closed.map closedRun ++ [⟨formatAddr col row, .populated, row⟩])

end Presence

/-- A cell with its own formula and a shared index. -/
structure Master where
  col : ℕ
  row : ℕ
  formula : String

section Readers

variable (book : BookParts)

def rawCell (cell : PendingCell) (formula : Option String) : RawCell where
  row := cell.row
  col := cell.col
  addr := cell.addr
  formulaRaw := formula
  cachedValue := cell.cached
  hidden := cell.hidden
  numberFormat := cell.numberFormat
  comment := cell.comment
  sharedSi := cell.sharedSi
  sharedMaster := cell.sharedSi.isSome && cell.formula.isSome
  styleIndent := cell.styleIndent
  outlineLevel := cell.outlineLevel
  colOutlineLevel := cell.colOutlineLevel

def Master.shifted (master : Master) (col row : ℕ) : Option String :=
  nonEmpty (book.shiftFormula master.formula (master.col, master.row) (col, row))

def masterOf (cell : PendingCell) : Option (ℕ × Master) :=
  match cell.sharedSi, cell.formula with
  | some si, some formula => some (si, ⟨cell.col, cell.row, formula⟩)
  | _, _ => none

def memberOf (cell : PendingCell) : Option ℕ :=
  match cell.sharedSi, cell.formula with
  | some si, none => some si
  | _, _ => none

def addMaster (masters : List (ℕ × Master)) (cell : PendingCell) : List (ℕ × Master) :=
  match masterOf cell with
  | some (si, master) => set si master masters
  | none => masters

def formulaUnder (masters : List (ℕ × Master)) (cell : PendingCell) : Option String :=
  match memberOf cell with
  | some si => (get si masters).bind fun master => master.shifted book cell.col cell.row
  | none => cell.formula

def addHiddenRow (hiddenRows : List ℕ) (row : RowElement) : List ℕ :=
  if row.hidden && row.r ≠ 0 then hiddenRows ++ [row.r] else hiddenRows

def sortedCols (sheet : Worksheet) : List ℕ := (hiddenCols sheet).dedup.insertionSort (· ≤ ·)

section Dom

structure DomState where
  pending : List PendingCell := []
  presence : List CellPresence := []
  runs : BlankRuns := []
  masters : List (ℕ × Master) := []
  hiddenRows : List ℕ := []

def DomState.see (st : DomState) : Option ((ℕ × ℕ) × PresenceKind) → DomState
  | none => st
  | some ((col, row), kind) =>
    let (runs, events) := presenceEvents st.runs col row kind
    { st with runs, presence := st.presence ++ events }

def DomState.keep (st : DomState) : Option PendingCell → DomState
  | none => st
  | some cell =>
    { st with pending := st.pending ++ [cell], masters := addMaster st.masters cell }

def DomState.readCell (sheet : Worksheet) (row : RowElement) (st : DomState) (cell : CellElement) :
    DomState :=
  let (built, seen) := pendingFromCell book sheet row cell
  (st.see seen).keep built

def DomState.readRow (sheet : Worksheet) (st : DomState) (row : RowElement) : DomState :=
  row.cells.foldl (DomState.readCell book sheet row)
    { st with hiddenRows := addHiddenRow st.hiddenRows row }

def parseSheet (sheet : Worksheet) : SheetTables :=
  let st := sheet.rows.foldl (DomState.readRow book sheet) {}
  { cells := st.pending.map fun cell => rawCell cell (formulaUnder book st.masters cell)
    presence := st.presence ++ st.runs.finish.map closedRun
    hiddenRows := st.hiddenRows
    hiddenCols := sortedCols sheet }

end Dom

section Stream

def flushRows : ℕ := 2048

/-- The cells handed over, the batch, and the members whose master is still to come: their places
in the batch, and the addresses of those handed over. -/
structure CellBuffer where
  stored : List RawCell := []
  batch : List RawCell := []
  unresolved : List (ℕ × List ℕ) := []
  flushed : List (ℕ × List (String × ℕ × ℕ)) := []
  masters : List (ℕ × Master) := []

/-- `set_formulas`: every row of the address gets the formula. -/
def setFormulas (texts : List (String × Option String)) (rows : List RawCell) : List RawCell :=
  rows.map fun row =>
    match get row.addr texts with
    | some formula => { row with formulaRaw := formula }
    | none => row

/-- The formulas a master gives the members handed over, by their addresses. -/
def updates (master : Master) (held : List (String × ℕ × ℕ)) : List (String × Option String) :=
  held.map fun entry => (entry.1, master.shifted book entry.2.1 entry.2.2)

def refill (master : Master) (row : RawCell) : RawCell :=
  { row with formulaRaw := master.shifted book row.col row.row }

namespace CellBuffer

def append (st : CellBuffer) (cell : PendingCell) : CellBuffer :=
  { st with
    batch := st.batch ++ [rawCell cell (formulaUnder book st.masters cell)]
    unresolved := match memberOf cell with
      | some si => if (get si st.masters).isNone then push si st.batch.length st.unresolved
        else st.unresolved
      | none => st.unresolved }

/-- A master completes the members that came before it. -/
def complete (st : CellBuffer) (cell : PendingCell) : CellBuffer :=
  match masterOf cell with
  | none => st
  | some (si, master) =>
    let places := (get si st.unresolved).getD []
    let held := (get si st.flushed).getD []
    { stored := setFormulas (updates book master held) st.stored
      batch := places.foldl (fun batch place => batch.modify place (refill book master)) st.batch
      unresolved := st.unresolved.filter (·.1 ≠ si)
      flushed := st.flushed.filter (·.1 ≠ si)
      masters := set si master st.masters }

def flush (st : CellBuffer) : CellBuffer where
  stored := st.stored ++ st.batch
  batch := []
  unresolved := []
  flushed := st.unresolved.foldl (fun flushed (si, places) =>
    set si ((get si flushed).getD [] ++ places.filterMap fun place =>
      (st.batch[place]?).map fun row => (row.addr, row.col, row.row)) flushed) st.flushed
  masters := st.masters

def feed (st : CellBuffer) (cell : PendingCell) : CellBuffer :=
  let st := (st.append book cell).complete book cell
  if flushRows ≤ st.batch.length then st.flush else st

end CellBuffer

structure StreamState where
  cells : CellBuffer := {}
  presence : List CellPresence := []
  presenceBatch : List CellPresence := []
  runs : BlankRuns := []
  hiddenRows : List ℕ := []

def StreamState.see (st : StreamState) : Option ((ℕ × ℕ) × PresenceKind) → StreamState
  | none => st
  | some ((col, row), kind) =>
    let (runs, events) := presenceEvents st.runs col row kind
    let batch := st.presenceBatch ++ events
    if flushRows ≤ batch.length then
      { st with runs, presence := st.presence ++ batch, presenceBatch := [] }
    else { st with runs, presenceBatch := batch }

def StreamState.keep (st : StreamState) : Option PendingCell → StreamState
  | none => st
  | some cell => { st with cells := st.cells.feed book cell }

def StreamState.readCell (sheet : Worksheet) (row : RowElement) (st : StreamState)
    (cell : CellElement) : StreamState :=
  let (built, seen) := pendingFromCell book sheet row cell
  (st.see seen).keep book built

def StreamState.readRow (sheet : Worksheet) (st : StreamState) (row : RowElement) : StreamState :=
  row.cells.foldl (StreamState.readCell book sheet row)
    { st with hiddenRows := addHiddenRow st.hiddenRows row }

def parseSheetStream (sheet : Worksheet) : SheetTables :=
  let st := sheet.rows.foldl (StreamState.readRow book sheet) {}
  { cells := st.cells.flush.stored
    presence := st.presence ++ (st.presenceBatch ++ st.runs.finish.map closedRun)
    hiddenRows := st.hiddenRows
    hiddenCols := sortedCols sheet }

end Stream

end Readers

end FinanceContext.Sheets
