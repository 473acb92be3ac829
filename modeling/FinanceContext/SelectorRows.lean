import FinanceContext.Cells
import FinanceContext.Dictionaries
import Mathlib.Data.List.Dedup
import Mathlib.Data.List.Sort

namespace FinanceContext

open Dictionaries

inductive CallKind where
  | index | choose | offset
  deriving DecidableEq, Repr

def CallKind.skip : CallKind → ℕ
  | index | offset => 1
  | choose => 0

abbrev PlainAddr := ℕ × ℕ

structure DefinedName where
  name : String
  formula : Option String
  sheet : Option String

/-- The text functions of this stage: `callParts` are the stripped arguments of every call of
a kind in a formula. -/
structure SwitchText where
  callParts : CallKind → String → List (List String)
  plainAddr : String → Option PlainAddr
  nameArg : String → Bool
  casefold : String → String
  cellOnSheet : String → String → Bool → Option PlainAddr
  display : String → Option String → Option String
  isSelectorLabel : String → Bool

namespace SwitchText

variable (text : SwitchText)

def nameEntries (defined : List DefinedName) (sheet : String) (isLocal : Bool) :
    List (String × PlainAddr) :=
  defined.filterMap fun item =>
    match item.formula with
    | none => none
    | some formula =>
      if item.name = "" ∨ Cell.given item.sheet ≠ isLocal then none
      else if isLocal ∧ text.casefold (item.sheet.getD "") ≠ text.casefold sheet then none
      else (text.cellOnSheet formula sheet isLocal).map (text.casefold item.name, ·)

/-- `_names_on_sheet`: a local name hides a workbook name. -/
def namesOnSheet (defined : List DefinedName) (sheet : String) (key : String) : Option PlainAddr :=
  get key (filled (text.nameEntries defined sheet false ++ text.nameEntries defined sheet true))

def switchCall (formula : String) : Bool :=
  [CallKind.index, .choose, .offset].any fun kind => text.callParts kind formula ≠ []

def switchArgs (formula : String) (names : String → Option PlainAddr) : List PlainAddr :=
  [CallKind.index, .choose, .offset].flatMap fun kind =>
    (text.callParts kind formula).flatMap fun parts =>
      (parts.drop kind.skip).filterMap fun part =>
        match text.plainAddr part with
        | some addr => some addr
        | none => if text.nameArg part then names (text.casefold part) else none

def cellArgs (names : String → Option PlainAddr) (cell : Cell) : List PlainAddr :=
  match cell.formulaRaw with
  | some formula =>
    if formula ≠ "" && text.switchCall formula then text.switchArgs formula names else []
  | none => []

def referencedBy (names : String → Option PlainAddr) (cells : List Cell) (addr : PlainAddr) :
    List ℕ :=
  ((cells.filter fun cell => addr ∈ text.cellArgs names cell).map (·.row)).dedup

end SwitchText

def Cell.coord (cell : Cell) : PlainAddr := (cell.col, cell.row)

/-- `by_addr`: the last cell that wears the address. -/
def wearerOf (cells : List Cell) (addr : PlainAddr) : Option Cell :=
  (cells.filter (·.coord = addr)).getLast?

namespace SwitchText

variable (text : SwitchText)

def candidateAt (names : String → Option PlainAddr) (cells : List Cell) (addr : PlainAddr) :
    Option ℕ :=
  match wearerOf cells addr with
  | none => none
  | some target =>
    if Cell.given target.formulaRaw then none
    else if ((text.referencedBy names cells addr).filter (· ≠ target.row)).length < 2 then none
    else some target.row

def candidates (names : String → Option PlainAddr) (cells : List Cell) : List ℕ :=
  ((cells.flatMap (text.cellArgs names)).filterMap (text.candidateAt names cells)).dedup

def cellText (cell : Cell) : Option String :=
  cell.cachedValue.bind fun value => text.display value cell.numberFormat

def leftText (cells : List Cell) : Option String :=
  (cells.insertionSort fun a b => a.col ≤ b.col).findSome? fun cell =>
    if cell.hidden then none
    else (text.cellText cell).bind fun shown => if shown = "" then none else some shown

def labeled (cells : List Cell) (rows : List ℕ) : List ℕ :=
  rows.filter fun row =>
    (text.leftText (cells.filter (·.row = row))).any text.isSelectorLabel

/-- The names that `selector_rows` reads on a sheet. -/
def sheetNames (defined : List DefinedName) (sheet : String) : String → Option PlainAddr :=
  if sheet = "" then fun _ => none else text.namesOnSheet defined sheet

def selectorRows (defined : List DefinedName) (sheet : String) (cells : List Cell) : List ℕ :=
  let found := text.candidates (text.sheetNames defined sheet) cells
  if found.length < 2 then found
  else if text.labeled cells found = [] then found
  else text.labeled cells found

/-- What `_switch_rows` reads of a cell. -/
def slim (cell : Cell) : Cell :=
  { cell with formulaTemplate := none, cachedValue := none, numberFormat := none
              hidden := false, unparsed := false }

def keptFormulas (defined : List DefinedName) (sheet : String) (cells : List Cell) : List Cell :=
  cells.filter fun cell => text.cellArgs (text.namesOnSheet defined sheet) cell ≠ []

def missingArgs (defined : List DefinedName) (sheet : String) (cells : List Cell) :
    List PlainAddr :=
  let kept := text.keptFormulas defined sheet cells
  (kept.flatMap (text.cellArgs (text.namesOnSheet defined sheet))).filter fun addr =>
    addr ∉ kept.map Cell.coord

/-- `_switch_rows` of one sheet: the formulas that select, then the cells they select by. -/
def switchRows (defined : List DefinedName) (sheet : String) (cells : List Cell) : List Cell :=
  (text.keptFormulas defined sheet cells ++
    cells.filter fun cell => cell.coord ∈ text.missingArgs defined sheet cells).map slim

@[simp] theorem coord_slim (cell : Cell) : (slim cell).coord = cell.coord := rfl

@[simp] theorem row_slim (cell : Cell) : (slim cell).row = cell.row := rfl

@[simp] theorem formulaRaw_slim (cell : Cell) : (slim cell).formulaRaw = cell.formulaRaw := rfl

variable {text}

@[simp] theorem cellArgs_slim (names : String → Option PlainAddr) (cell : Cell) :
    text.cellArgs names (slim cell) = text.cellArgs names cell := rfl

theorem given_of_cellArgs {names : String → Option PlainAddr} {cell : Cell}
    (h : text.cellArgs names cell ≠ []) : Cell.given cell.formulaRaw = true := by
  unfold cellArgs at h
  split at h
  · next formula hf =>
    split_ifs at h with hcall
    · simp only [Bool.and_eq_true, decide_eq_true_eq] at hcall
      simp [Cell.given, hf, hcall.1]
    · exact absurd rfl h
  · exact absurd rfl h

theorem cellArgs_subset (names : String → Option PlainAddr) (cell : Cell) :
    text.cellArgs (fun _ => none) cell ⊆ text.cellArgs names cell := by
  unfold cellArgs
  split
  · split_ifs
    · intro addr haddr
      obtain ⟨kind, hkind, hparts⟩ := List.mem_flatMap.mp haddr
      obtain ⟨parts, hcall, hpart⟩ := List.mem_flatMap.mp hparts
      obtain ⟨part, hdrop, hsome⟩ := List.mem_filterMap.mp hpart
      refine List.mem_flatMap.mpr ⟨kind, hkind, List.mem_flatMap.mpr ⟨parts, hcall,
        List.mem_filterMap.mpr ⟨part, hdrop, ?_⟩⟩⟩
      cases hplain : text.plainAddr part with
      | some a => simpa [hplain] using hsome
      | none => simp [hplain] at hsome
    · exact List.Subset.refl _
  · exact List.Subset.refl _

section

variable {defined : List DefinedName} {sheet : String} {cells : List Cell}
  {names : String → Option PlainAddr}

/-- The names `selector_rows` uses are those `_switch_rows` used, or none. -/
def Narrower (text : SwitchText) (defined : List DefinedName) (sheet : String)
    (names : String → Option PlainAddr) : Prop :=
  ∀ cell, text.cellArgs names cell ⊆ text.cellArgs (text.namesOnSheet defined sheet) cell

theorem mem_keptFormulas {cell : Cell} : cell ∈ text.keptFormulas defined sheet cells ↔
    cell ∈ cells ∧ text.cellArgs (text.namesOnSheet defined sheet) cell ≠ [] := by
  simp [keptFormulas]

theorem mem_missingArgs {addr : PlainAddr} : addr ∈ text.missingArgs defined sheet cells ↔
    addr ∈ (text.keptFormulas defined sheet cells).flatMap
      (text.cellArgs (text.namesOnSheet defined sheet)) ∧
        addr ∉ (text.keptFormulas defined sheet cells).map Cell.coord := by
  simp only [missingArgs, List.mem_filter, decide_eq_true_eq]

theorem filter_switchRows (p : Cell → Bool) (hp : ∀ cell, p (slim cell) = p cell) :
    (text.switchRows defined sheet cells).filter p =
      (((text.keptFormulas defined sheet cells).filter p) ++
        (cells.filter fun cell => cell.coord ∈ text.missingArgs defined sheet cells).filter p).map
          slim := by
  have hcomp : p ∘ slim = p := funext hp
  rw [switchRows, List.filter_map, hcomp, List.filter_append]

theorem filter_switchRows_args (hn : Narrower text defined sheet names) (addr : PlainAddr) :
    (text.switchRows defined sheet cells).filter (addr ∈ text.cellArgs names ·) =
      (cells.filter (addr ∈ text.cellArgs names ·)).map slim := by
  have hargs (cell : Cell) (h : addr ∈ text.cellArgs names cell) :
      text.cellArgs (text.namesOnSheet defined sheet) cell ≠ [] :=
    List.ne_nil_of_mem (hn cell h)
  have hkept : (text.keptFormulas defined sheet cells).filter (addr ∈ text.cellArgs names ·) =
      cells.filter (addr ∈ text.cellArgs names ·) := by
    rw [keptFormulas, List.filter_filter]
    apply List.filter_congr
    intro cell _
    by_cases h : addr ∈ text.cellArgs names cell
    · simp [h, hargs cell h]
    · simp [h]
  rw [filter_switchRows _ fun cell => by rw [cellArgs_slim], hkept]
  have hfetched : (cells.filter fun cell =>
      cell.coord ∈ text.missingArgs defined sheet cells).filter
        (addr ∈ text.cellArgs names ·) = [] := by
    refine List.filter_eq_nil_iff.mpr fun cell hcell h => ?_
    obtain ⟨hin, hmissing⟩ := List.mem_filter.mp hcell
    have hmem := mem_keptFormulas.mpr ⟨hin, hargs cell (of_decide_eq_true h)⟩
    exact (mem_missingArgs.mp (of_decide_eq_true hmissing)).2 (List.mem_map_of_mem hmem)
  rw [hfetched, List.append_nil]

theorem referencedBy_switchRows (hn : Narrower text defined sheet names) (addr : PlainAddr) :
    text.referencedBy names (text.switchRows defined sheet cells) addr =
      text.referencedBy names cells addr := by
  rw [referencedBy, filter_switchRows_args hn, List.map_map]
  rfl

theorem wearer_of_kept {addr : PlainAddr}
    (h : addr ∈ (text.keptFormulas defined sheet cells).map Cell.coord) :
    ∃ cell, wearerOf (text.switchRows defined sheet cells) addr = some cell ∧
      Cell.given cell.formulaRaw = true := by
  have hnone : (cells.filter fun cell =>
      cell.coord ∈ text.missingArgs defined sheet cells).filter (·.coord = addr) = [] := by
    refine List.filter_eq_nil_iff.mpr fun cell hcell hcoord => ?_
    have hmissing := of_decide_eq_true (List.mem_filter.mp hcell).2
    rw [of_decide_eq_true hcoord] at hmissing
    exact (mem_missingArgs.mp hmissing).2 h
  have hne : (text.keptFormulas defined sheet cells).filter (·.coord = addr) ≠ [] := by
    obtain ⟨cell, hcell, hcoord⟩ := List.mem_map.mp h
    exact List.ne_nil_of_mem (List.mem_filter.mpr ⟨hcell, decide_eq_true hcoord⟩)
  refine ⟨slim (((text.keptFormulas defined sheet cells).filter (·.coord = addr)).getLast hne),
    ?_, ?_⟩
  · rw [wearerOf, filter_switchRows _ fun cell => by rw [coord_slim], hnone, List.append_nil,
      List.getLast?_map, List.getLast?_eq_some_getLast hne]
    rfl
  · have hlast := (List.mem_filter.mp (List.getLast_mem hne)).1
    exact given_of_cellArgs (mem_keptFormulas.mp hlast).2

theorem wearer_of_fetched {addr : PlainAddr}
    (hwanted : addr ∈ (text.keptFormulas defined sheet cells).flatMap
      (text.cellArgs (text.namesOnSheet defined sheet)))
    (h : addr ∉ (text.keptFormulas defined sheet cells).map Cell.coord) :
    wearerOf (text.switchRows defined sheet cells) addr = (wearerOf cells addr).map slim := by
  have hkept : (text.keptFormulas defined sheet cells).filter (·.coord = addr) = [] := by
    refine List.filter_eq_nil_iff.mpr fun cell hcell hcoord => ?_
    exact h (List.mem_map.mpr ⟨cell, hcell, of_decide_eq_true hcoord⟩)
  have hfetched : (cells.filter fun cell =>
      cell.coord ∈ text.missingArgs defined sheet cells).filter (·.coord = addr) =
        cells.filter (·.coord = addr) := by
    rw [List.filter_filter]
    apply List.filter_congr
    intro cell _
    by_cases hcoord : cell.coord = addr
    · simp [hcoord, mem_missingArgs.mpr ⟨hwanted, h⟩]
    · simp [hcoord]
  rw [wearerOf, filter_switchRows _ fun cell => by rw [coord_slim], hkept, hfetched,
    List.nil_append, List.getLast?_map]
  rfl

theorem mem_candidates {row : ℕ} : row ∈ text.candidates names cells ↔
    ∃ addr ∈ cells.flatMap (text.cellArgs names), text.candidateAt names cells addr = some row := by
  simp only [candidates, List.mem_dedup, List.mem_filterMap]

theorem candidateAt_switchRows (hn : Narrower text defined sheet names) {addr : PlainAddr}
    (hwanted : addr ∈ (text.keptFormulas defined sheet cells).flatMap
      (text.cellArgs (text.namesOnSheet defined sheet))) :
    text.candidateAt names (text.switchRows defined sheet cells) addr =
      if addr ∈ (text.keptFormulas defined sheet cells).map Cell.coord then none
      else text.candidateAt names cells addr := by
  unfold candidateAt
  rw [referencedBy_switchRows hn]
  split_ifs with h
  · obtain ⟨cell, hcell, hgiven⟩ := wearer_of_kept h
    simp only [hcell, hgiven, if_true]
  · rw [wearer_of_fetched hwanted h]
    cases wearerOf cells addr with
    | none => rfl
    | some target => rfl

theorem args_switchRows (hn : Narrower text defined sheet names) (addr : PlainAddr) :
    addr ∈ (text.switchRows defined sheet cells).flatMap (text.cellArgs names) ↔
      addr ∈ cells.flatMap (text.cellArgs names) := by
  have hsome (l : List Cell) : addr ∈ l.flatMap (text.cellArgs names) ↔
      l.filter (addr ∈ text.cellArgs names ·) ≠ [] := by
    rw [Ne, List.filter_eq_nil_iff, List.mem_flatMap]
    simp
  rw [hsome, hsome, filter_switchRows_args hn, Ne, List.map_eq_nil_iff]

theorem wanted_of_args (hn : Narrower text defined sheet names) {addr : PlainAddr}
    (h : addr ∈ cells.flatMap (text.cellArgs names)) :
    addr ∈ (text.keptFormulas defined sheet cells).flatMap
      (text.cellArgs (text.namesOnSheet defined sheet)) := by
  obtain ⟨cell, hcell, haddr⟩ := List.mem_flatMap.mp h
  have hfull := hn cell haddr
  exact List.mem_flatMap.mpr
    ⟨cell, mem_keptFormulas.mpr ⟨hcell, List.ne_nil_of_mem hfull⟩, hfull⟩

/-- One of the addresses that make the row a candidate is not the address of a formula that
selects by some cell itself. -/
def Reached (text : SwitchText) (defined : List DefinedName) (sheet : String) (cells : List Cell)
    (names : String → Option PlainAddr) (row : ℕ) : Prop :=
  ∃ addr ∈ cells.flatMap (text.cellArgs names), text.candidateAt names cells addr = some row ∧
    addr ∉ (text.keptFormulas defined sheet cells).map Cell.coord

theorem mem_candidates_switchRows (hn : Narrower text defined sheet names) {row : ℕ} :
    row ∈ text.candidates names (text.switchRows defined sheet cells) ↔
      Reached text defined sheet cells names row := by
  rw [mem_candidates]
  constructor
  · rintro ⟨addr, haddr, hcand⟩
    have hin := (args_switchRows hn addr).mp haddr
    rw [candidateAt_switchRows hn (wanted_of_args hn hin)] at hcand
    split_ifs at hcand with hkept
    exact ⟨addr, hin, hcand, hkept⟩
  · rintro ⟨addr, hin, hcand, hkept⟩
    refine ⟨addr, (args_switchRows hn addr).mpr hin, ?_⟩
    rw [candidateAt_switchRows hn (wanted_of_args hn hin), if_neg hkept]
    exact hcand

theorem labeled_switchRows (rows : List ℕ) :
    text.labeled (text.switchRows defined sheet cells) rows = [] := by
  refine List.filter_eq_nil_iff.mpr fun row _ => ?_
  have hnone : text.leftText
      ((text.switchRows defined sheet cells).filter (·.row = row)) = none := by
    rw [leftText, List.findSome?_eq_none_iff]
    intro cell hcell
    rw [List.mem_insertionSort] at hcell
    obtain ⟨full, -, rfl⟩ := List.mem_map.mp (List.mem_filter.mp hcell).1
    rfl
  simp [hnone]

end

variable (text) in
theorem narrower_sheetNames (defined : List DefinedName) (sheet : String) :
    Narrower text defined sheet (text.sheetNames defined sheet) := by
  intro cell
  unfold sheetNames
  split_ifs
  · exact cellArgs_subset _ cell
  · exact List.Subset.refl _

/-- The tie between several candidates leaves this one in. -/
def KeepsRow (text : SwitchText) (names : String → Option PlainAddr) (cells : List Cell)
    (row : ℕ) : Prop :=
  (text.candidates names cells).length < 2 ∨
    text.labeled cells (text.candidates names cells) = [] ∨
      row ∈ text.labeled cells (text.candidates names cells)

theorem mem_selectorRows {defined : List DefinedName} {sheet : String} {cells : List Cell}
    {row : ℕ} : row ∈ text.selectorRows defined sheet cells ↔
      row ∈ text.candidates (text.sheetNames defined sheet) cells ∧
        KeepsRow text (text.sheetNames defined sheet) cells row := by
  unfold selectorRows KeepsRow
  simp only
  split_ifs with hfew hnone
  · simp [hfew]
  · simp [hnone]
  · refine ⟨fun h => ⟨(List.mem_filter.mp h).1, .inr (.inr h)⟩, ?_⟩
    rintro ⟨-, hlt | hnil | hlabel⟩
    · exact absurd hlt hfew
    · exact absurd hnil hnone
    · exact hlabel

/-- Every candidate is reached through a cell that is kept exactly when the labels keep it. -/
def SlicesAgree (text : SwitchText) (defined : List DefinedName) (sheet : String)
    (cells : List Cell) : Prop :=
  ∀ row ∈ text.candidates (text.sheetNames defined sheet) cells,
    Reached text defined sheet cells (text.sheetNames defined sheet) row ↔
      KeepsRow text (text.sheetNames defined sheet) cells row

theorem selectorRows_switchRows_iff (defined : List DefinedName) (sheet : String)
    (cells : List Cell) :
    (∀ row, row ∈ text.selectorRows defined sheet (text.switchRows defined sheet cells) ↔
      row ∈ text.selectorRows defined sheet cells) ↔ SlicesAgree text defined sheet cells := by
  have hn := narrower_sheetNames text defined sheet
  have hslice (row : ℕ) :
      row ∈ text.selectorRows defined sheet (text.switchRows defined sheet cells) ↔
        Reached text defined sheet cells (text.sheetNames defined sheet) row := by
    rw [mem_selectorRows, mem_candidates_switchRows hn]
    exact and_iff_left (.inr (.inl (labeled_switchRows _)))
  have hcandidate {row : ℕ}
      (h : Reached text defined sheet cells (text.sheetNames defined sheet) row) :
      row ∈ text.candidates (text.sheetNames defined sheet) cells := by
    obtain ⟨addr, haddr, hcand, -⟩ := h
    exact mem_candidates.mpr ⟨addr, haddr, hcand⟩
  simp only [hslice, mem_selectorRows]
  constructor
  · intro h row hrow
    rw [h row]
    exact and_iff_right hrow
  · intro h row
    constructor
    · intro hreach
      exact ⟨hcandidate hreach, (h row (hcandidate hreach)).mp hreach⟩
    · rintro ⟨hrow, hkeeps⟩
      exact (h row hrow).mpr hkeeps

end SwitchText

end FinanceContext
