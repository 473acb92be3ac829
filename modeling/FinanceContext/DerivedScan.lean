import Mathlib.Algebra.BigOperators.Group.List.Basic
import Mathlib.Algebra.Group.Prod
import Mathlib.Data.List.Dedup
import Mathlib.Data.List.Sort
import FinanceContext.Cells
import FinanceContext.CellExpansion
import FinanceContext.Histories
import FinanceContext.NodeIds

/-!
`layout/markers.py`: how many cells of a column are the arithmetic of their neighbours, counted
below each band header in one pass over the rows.
-/

namespace FinanceContext.Markers

open Dictionaries Histories Csr

/-- Floating point numbers, and the text a number format makes of a serial date. -/
structure Numerals (F : Type) extends CharTable where
  float : List Char → Option F
  isFinite : F → Bool
  zero : F
  one : F
  absTol : F
  relTol : F
  add : F → F → F
  sub : F → F → F
  mul : F → F → F
  div : F → F → F
  abs : F → F
  sum : List F → F
  le : F → F → Bool
  eq : F → F → Bool
  dateText : Bool → Option String → String → Option String

variable {F : Type} (num : Numerals F)

section Numbers

/-- `display_cell_text` of the cached value. -/
def cellText (date1904 : Bool) (cell : Cell) : Option String :=
  match cell.cachedValue with
  | none => none
  | some text =>
    if text.toList.all num.space then none
    else some ((num.dateText date1904 cell.numberFormat text).getD text)

def ignoredSpaces : List Char := [' ', '\u00a0', '\u202f']

def parseNumber (text : String) : Option F :=
  if '_' ∈ text.toList then none
  else
    let cleaned := (text.toList.filter (· ∉ ignoredSpaces)).map fun ch =>
      if ch = ',' then '.' else ch
    if cleaned.isEmpty then none
    else
      match num.float cleaned with
      | none => none
      | some value => if num.isFinite value then some value else none

def number (text : Option String) : Option F := text.bind (parseNumber num)

/-- `max` of two: the first unless the second is above it. -/
def maxOf (a b : F) : F := if num.le b a then a else b

def closeTo (left right : F) : Bool :=
  let scale := maxOf num (maxOf num (num.abs left) (num.abs right)) num.one
  num.le (num.abs (num.sub left right)) (maxOf num num.absTol (num.mul num.relTol scale))

def nonzero (value : F) : Bool := !num.eq value num.zero

def diffOrRatio (own left right : F) : Bool :=
  closeTo num own (num.sub left right) || closeTo num own (num.sub right left) ||
    (nonzero num right && closeTo num own (num.sub (num.div left right) num.one)) ||
    (nonzero num left && closeTo num own (num.sub (num.div right left) num.one))

end Numbers

section Formulas

def skipSpace (chars : List Char) : List Char := chars.dropWhile num.space

def skipChar (mark : Char) : List Char → List Char
  | [] => []
  | ch :: rest => if ch = mark then rest else ch :: rest

def takeChar (mark : Char) : List Char → Option (List Char)
  | [] => none
  | ch :: rest => if ch = mark then some rest else none

def takeLetter (letter : Char) : List Char → Option (List Char)
  | [] => none
  | ch :: rest => if isLetter ch && upperLetter ch = letter then some rest else none

/-- `\$?([A-Z]{1,3})` before a row. -/
def takeShortCol (chars : List Char) : Option (ℕ × List Char) :=
  let chars := skipDollar chars
  let letters := chars.takeWhile isLetter
  if letters.isEmpty || 3 < letters.length then none
  else some (colToIndex (letters.map upperLetter), chars.dropWhile isLetter)

/-- `\$?([A-Z]{1,3})\$?(\d+)` -/
def takePoint (chars : List Char) : Option ((ℕ × ℕ) × List Char) := do
  let (col, rest) ← takeShortCol chars
  let (row, rest) ← takeRow num.decimal rest
  some ((col, row), rest)

def takePair (mark : Char) (chars : List Char) : Option (((ℕ × ℕ) × (ℕ × ℕ)) × List Char) := do
  let (left, rest) ← takePoint num (skipSpace num chars)
  let rest ← takeChar mark (skipSpace num rest)
  let (right, rest) ← takePoint num (skipSpace num rest)
  some ((left, right), skipSpace num rest)

abbrev Pair := (ℕ × ℕ) × (ℕ × ℕ)

/-- `_SUM.fullmatch` -/
def sumMatch (text : List Char) : Option Pair := do
  let rest ← takeLetter 'S' (skipSpace num (skipChar '=' text))
  let rest ← takeLetter 'U' rest
  let rest ← takeLetter 'M' rest
  let rest ← takeChar '(' rest
  let (ends, rest) ← takePair num ':' rest
  let rest ← takeChar ')' rest
  if rest.isEmpty then some ends else none

/-- `_DIFF.fullmatch` -/
def diffMatch (text : List Char) : Option Pair := do
  let (ends, rest) ← takePair num '-' (skipChar '=' text)
  if rest.isEmpty then some ends else none

/-- `(?:-\s*1)?\s*` -/
def skipMinusOne (chars : List Char) : List Char :=
  match (takeChar '-' chars).bind fun rest => takeChar '1' (skipSpace num rest) with
  | some rest => skipSpace num rest
  | none => chars

/-- `_RATIO.fullmatch` -/
def ratioMatch (text : List Char) : Option Pair := do
  let rest := skipChar '(' (skipSpace num (skipChar '=' text))
  let (ends, rest) ← takePair num '/' rest
  let rest := skipMinusOne num (skipSpace num (skipChar ')' rest))
  if rest.isEmpty then some ends else none

def pairIsNeighbours (ends : Pair) (col row : ℕ) (cols : List ℕ) : Bool :=
  let ((left, leftRow), (right, rightRow)) := ends
  if leftRow ≠ row || rightRow ≠ row then false
  else if left = col || right = col then false
  else if left ∉ cols || right ∉ cols then false
  else cols.idxOf left + 1 = cols.idxOf right || cols.idxOf right + 1 = cols.idxOf left

def formulaIsDerived (formula : String) (col row : ℕ) (cols : List ℕ) : Bool :=
  let text := stripChars num.space formula.toList
  match sumMatch num text with
  | some ((start, startRow), (finish, finishRow)) =>
    if startRow ≠ row || finishRow ≠ row then false
    else
      let span := List.range' (min start finish) (max start finish + 1 - min start finish)
      let neighbours := cols.filter (· ≠ col)
      col ∉ span && span.all (· ∈ neighbours) && 2 ≤ span.length
  | none =>
    match diffMatch num text with
    | some ends => pairIsNeighbours ends col row cols
    | none =>
      match ratioMatch num text with
      | some ends => pairIsNeighbours ends col row cols
      | none => false

end Formulas

section Rows

def cellAt (cells : List Cell) (col : ℕ) : Option Cell := cells.find? (·.col = col)

/-- `none` when the cell is absent, `false` when it is a pasted value. -/
def hasFormula (cells : List Cell) (col : ℕ) : Option Bool :=
  (cellAt cells col).map fun cell => Cell.given cell.formulaRaw

def rowNumbers (date1904 : Bool) (cells : List Cell) (cols : List ℕ) : List (ℕ × F) :=
  let found := cols.foldl (fun found col =>
    match cellAt cells col with
    | none => found
    | some cell =>
      if Cell.given cell.formulaRaw then found
      else
        match number num (cellText num date1904 cell) with
        | none => found
        | some value => set col value found) []
  if !found.isEmpty && found.length = cols.length &&
      found.all fun p => num.eq p.2 num.zero || num.eq p.2 num.one then []
  else found

def leftSumOperands (col : ℕ) (cols : List ℕ) (numbers : List (ℕ × F)) : Option (List ℕ) := do
  let own ← get col numbers
  let span := (cols.take (cols.idxOf col)).reverse.takeWhile fun item =>
    (get item numbers).isSome
  if span.length < 2 then none
  else if closeTo num own (num.sum (span.filterMap (get · numbers))) then some span
  else none

def operandsAt (own : F) (cols : List ℕ) (numbers : List (ℕ × F)) (left right : ℕ) :
    Option (List ℕ) := do
  let leftCol ← cols[left]?
  let rightCol ← cols[right]?
  let leftNumber ← get leftCol numbers
  let rightNumber ← get rightCol numbers
  if diffOrRatio num own leftNumber rightNumber then some [leftCol, rightCol] else none

def diffOperands (col : ℕ) (cols : List ℕ) (numbers : List (ℕ × F)) : Option (List ℕ) := do
  let own ← get col numbers
  let index := cols.idxOf col
  let before := if 2 ≤ index then operandsAt num own cols numbers (index - 2) (index - 1) else none
  let around :=
    if 0 < index && index < cols.length - 1 then
      operandsAt num own cols numbers (index - 1) (index + 1)
    else none
  before.or around

def valueRoles (cols : List ℕ) (numbers : List (ℕ × F)) : List ℕ :=
  let sums := cols.filterMap fun col => (leftSumOperands num col cols numbers).map (col, ·)
  let diffs := cols.filter fun col =>
    (leftSumOperands num col cols numbers).isNone && (diffOperands num col cols numbers).isSome
  let addends := sums.flatMap Prod.snd
  sums.map Prod.fst ++ diffs.filter (· ∉ addends)

abbrev Counts := ℕ × ℕ × ℕ × ℕ

def columnCount (cells : List Cell) (cols : List ℕ) (row : ℕ) (numbers : List (ℕ × F))
    (roles : List ℕ) (col : ℕ) : Counts :=
  match hasFormula cells col with
  | none => 0
  | some true =>
    let formula := ((cellAt cells col).bind Cell.formulaRaw).getD ""
    (1, if formula ≠ "" ∧ formulaIsDerived num formula col row cols then 1 else 0, 0, 0)
  | some false =>
    if (get col numbers).isSome then (0, 0, 1, if col ∈ roles then 1 else 0) else 0

def addTo (col : ℕ) (counts : Counts) (running : List (ℕ × Counts)) : List (ℕ × Counts) :=
  match get col running with
  | none => running
  | some counter => set col (counter + counts) running

def countRow (date1904 : Bool) (cols : List ℕ) (running : List (ℕ × Counts))
    (row : ℕ × List Cell) : List (ℕ × Counts) :=
  let numbers := rowNumbers num date1904 row.2 cols
  let roles := if numbers.isEmpty then [] else valueRoles num cols numbers
  cols.foldl (fun running col =>
    addTo col (columnCount num row.2 cols row.1 numbers roles col) running) running

end Rows

/-- `by_row`: the cells of each row of a sheet. -/
structure SheetRows where
  entries : List (ℕ × List Cell)
  nodup : (entries.map Prod.fst).Nodup

structure Setup where
  byRow : SheetRows
  date1904 : Bool
  headerRows : List ℕ

/-- The column set of the last pass, and the totals it kept at each header. -/
structure DerivedScan where
  cols : Option (List ℕ) := none
  atRow : List (ℕ × List (ℕ × Counts)) := []

section Scanning

variable (setup : Setup)

def zeros (cols : List ℕ) : List (ℕ × Counts) := filled (cols.map (·, 0))

def pendingRows (headerRows : List ℕ) (floor : ℕ) : List ℕ :=
  (floor :: headerRows.filter (floor ≤ ·)).dedup.mergeSort (· ≥ ·)

def keptAt (headers : List ℕ) (running : List (ℕ × Counts))
    (atRow : List (ℕ × List (ℕ × Counts))) : List (ℕ × List (ℕ × Counts)) :=
  headers.foldl (fun atRow header => set header running atRow) atRow

/-- The loop of `_scan` over the rows, the lowest of the sheet first. -/
def sweep (cols : List ℕ) : List (ℕ × List Cell) → List ℕ → List (ℕ × Counts) →
    List (ℕ × List (ℕ × Counts)) → List (ℕ × List (ℕ × Counts))
  | [], pending, running, atRow => keptAt pending running atRow
  | row :: rows, pending, running, atRow =>
    let atRow := keptAt (pending.takeWhile (row.1 ≤ ·)) running atRow
    let pending := pending.dropWhile (row.1 ≤ ·)
    if pending.isEmpty then atRow
    else sweep cols rows pending (countRow num setup.date1904 cols running row) atRow

def scan (cols : List ℕ) (floor : ℕ) : DerivedScan :=
  let rows := setup.byRow.entries.mergeSort fun a b => b.1 ≤ a.1
  { cols := some cols
    atRow := sweep num setup cols rows (pendingRows setup.headerRows floor) (zeros cols) [] }

def DerivedScan.counts (s : DerivedScan) (cols : List ℕ) (headerRow : ℕ) :
    Option (List (ℕ × Counts)) × DerivedScan :=
  let s :=
    if s.cols ≠ some cols ∨ get headerRow s.atRow = none then scan num setup cols headerRow else s
  (get headerRow s.atRow, s)

/-- The totals of `_count_row` over some rows of the sheet. -/
def walk (cols : List ℕ) (rows : List (ℕ × List Cell)) : List (ℕ × Counts) :=
  rows.foldl (countRow num setup.date1904 cols) (zeros cols)

end Scanning

section Totals

variable (setup : Setup)

theorem get_addTo (col other : ℕ) (counts : Counts) (running : List (ℕ × Counts)) :
    get other (addTo col counts running) =
      (get other running).map (· + if col = other then counts else 0) := by
  unfold addTo
  by_cases hcol : col = other
  · subst hcol
    cases hr : get col running with
    | none => simp [hr]
    | some counter => simp [get_set]
  · cases hr : get col running with
    | none => simp [hcol]
    | some counter => simp [get_set, hcol]

def rowTotal (cols : List ℕ) (row : ℕ × List Cell) (col : ℕ) : Counts :=
  let numbers := rowNumbers num setup.date1904 row.2 cols
  let roles := if numbers.isEmpty then [] else valueRoles num cols numbers
  (cols.map fun c =>
    if c = col then columnCount num row.2 cols row.1 numbers roles c else 0).sum

theorem get_countRow (cols : List ℕ) (running : List (ℕ × Counts)) (row : ℕ × List Cell)
    (col : ℕ) :
    get col (countRow num setup.date1904 cols running row) =
      (get col running).map (· + rowTotal num setup cols row col) := by
  unfold countRow rowTotal
  simp only
  generalize columnCount num row.2 cols row.1 _ _ = count
  induction cols generalizing running with
  | nil => simp
  | cons c cols ih =>
    simp only [List.foldl_cons, ih, get_addTo, Option.map_map, List.map_cons, List.sum_cons]
    congr 1
    funext counter
    simp [add_assoc]

theorem get_foldl_countRow (cols : List ℕ) (rows : List (ℕ × List Cell))
    (running : List (ℕ × Counts)) (col : ℕ) :
    get col (rows.foldl (countRow num setup.date1904 cols) running) =
      (get col running).map (· + (rows.map fun row => rowTotal num setup cols row col).sum) := by
  induction rows generalizing running with
  | nil => simp
  | cons row rows ih =>
    simp only [List.foldl_cons, ih, get_countRow, Option.map_map, List.map_cons, List.sum_cons]
    congr 1
    funext counter
    simp [add_assoc]

theorem get_zeros (cols : List ℕ) (col : ℕ) :
    get col (zeros cols) = if col ∈ cols then some 0 else none := by
  apply get_filled_of_forall
  intro counter
  simp only [List.mem_map, Prod.mk.injEq]
  constructor
  · rintro ⟨c, hc, rfl, rfl⟩
    exact if_pos hc
  · intro h
    split_ifs at h with hmem
    exact ⟨col, hmem, rfl, Option.some.inj h⟩

theorem get_walk (cols : List ℕ) (rows : List (ℕ × List Cell)) (col : ℕ) :
    get col (walk num setup cols rows) =
      if col ∈ cols then some (rows.map fun row => rowTotal num setup cols row col).sum
      else none := by
  unfold walk
  rw [get_foldl_countRow, get_zeros]
  split_ifs
  · simp
  · rfl

theorem get_walk_of_perm (cols : List ℕ) {rows rows' : List (ℕ × List Cell)}
    (h : rows.Perm rows') (col : ℕ) :
    get col (walk num setup cols rows) = get col (walk num setup cols rows') := by
  rw [get_walk, get_walk, (h.map _).sum_eq]

end Totals

section Sweeps

variable (setup : Setup) {cols : List ℕ} {all : List (ℕ × List Cell)}

/-- Every kept total is that of the rows below its header. -/
def Exact (cols : List ℕ) (all : List (ℕ × List Cell))
    (atRow : List (ℕ × List (ℕ × Counts))) : Prop :=
  ∀ header running, get header atRow = some running →
    ∀ col, get col running = get col (walk num setup cols (all.filter (header < ·.1)))

theorem get_keptAt (headers : List ℕ) (running : List (ℕ × Counts))
    (atRow : List (ℕ × List (ℕ × Counts))) (header : ℕ) :
    get header (keptAt headers running atRow) =
      if header ∈ headers then some running else get header atRow := by
  unfold keptAt
  induction headers generalizing atRow with
  | nil => simp
  | cons h headers ih =>
    rw [List.foldl_cons, ih, get_set]
    by_cases hmem : header ∈ headers
    · simp [hmem]
    · by_cases hh : h = header
      · simp [hh]
      · have hne : header ≠ h := fun heq => hh heq.symm
        simp [hmem, hh, hne]

theorem exact_keptAt {headers : List ℕ} {running : List (ℕ × Counts)}
    {atRow : List (ℕ × List (ℕ × Counts))} (hat : Exact num setup cols all atRow)
    (hkept : ∀ header ∈ headers,
      ∀ col, get col running = get col (walk num setup cols (all.filter (header < ·.1)))) :
    Exact num setup cols all (keptAt headers running atRow) := by
  intro header kept hget
  rw [get_keptAt] at hget
  split_ifs at hget with hmem
  · rw [← Option.some.inj hget]
    exact hkept header hmem
  · exact hat header kept hget

theorem lt_of_mem_dropWhile {pending : List ℕ} (hpending : pending.Pairwise (· ≥ ·)) {row h : ℕ}
    (hh : h ∈ pending.dropWhile (row ≤ ·)) : h < row := by
  induction pending with
  | nil => cases hh
  | cons first pending ih =>
    obtain ⟨hfirst, hrest⟩ := List.pairwise_cons.mp hpending
    by_cases hle : row ≤ first
    · rw [List.dropWhile_cons_of_pos (by simpa using hle)] at hh
      exact ih hrest hh
    · rw [List.dropWhile_cons_of_neg (by simpa using hle)] at hh
      rcases List.mem_cons.mp hh with rfl | hmem
      · omega
      · have := hfirst h hmem
        omega

theorem filter_eq_processed {processed rows : List (ℕ × List Cell)} {header : ℕ}
    (habove : ∀ row ∈ processed, header < row.1) (hbelow : ∀ row ∈ rows, row.1 ≤ header) :
    (processed ++ rows).filter (header < ·.1) = processed := by
  rw [List.filter_append, List.filter_eq_self.mpr (by simpa using habove),
    List.filter_eq_nil_iff.mpr (by simpa using hbelow), List.append_nil]

theorem sweep_spec (hall : all.Pairwise fun a b => b.1 < a.1) {rows processed} {pending : List ℕ}
    {running : List (ℕ × Counts)} {atRow : List (ℕ × List (ℕ × Counts))}
    (hsplit : all = processed ++ rows) (hpending : pending.Pairwise (· ≥ ·))
    (habove : ∀ header ∈ pending, ∀ row ∈ processed, header < row.1)
    (hrunning : ∀ col, get col running = get col (walk num setup cols processed))
    (hat : Exact num setup cols all atRow) :
    Exact num setup cols all (sweep num setup cols rows pending running atRow) ∧
      ∀ header, header ∈ pending ∨ get header atRow ≠ none →
        get header (sweep num setup cols rows pending running atRow) ≠ none := by
  induction rows generalizing processed pending running atRow with
  | nil =>
    constructor
    · apply exact_keptAt num setup hat
      intro header hheader col
      rw [hsplit, filter_eq_processed (habove header hheader) (List.forall_mem_nil _)]
      exact hrunning col
    · intro header hheader
      simp only [sweep, get_keptAt]
      split_ifs with hmem
      · simp
      · exact hheader.resolve_left hmem
  | cons row rows ih =>
    have hdesc : (row :: rows).Pairwise fun a b => b.1 < a.1 := by
      rw [hsplit] at hall
      exact (List.pairwise_append.mp hall).2.1
    have hfirst : ∀ row' ∈ row :: rows, row'.1 ≤ row.1 := by
      intro row' hrow'
      rcases List.mem_cons.mp hrow' with rfl | hmem
      · exact le_rfl
      · exact ((List.pairwise_cons.mp hdesc).1 row' hmem).le
    have hkept : Exact num setup cols all
        (keptAt (pending.takeWhile (row.1 ≤ ·)) running atRow) := by
      apply exact_keptAt num setup hat
      intro header hheader col
      have hle : row.1 ≤ header := by simpa using List.mem_takeWhile_imp hheader
      have hmem := (List.takeWhile_sublist _).subset hheader
      rw [hsplit, filter_eq_processed (habove header hmem) fun row' hrow' =>
        (hfirst row' hrow').trans hle]
      exact hrunning col
    have hwaits (header : ℕ) (h : header ∈ pending ∨ get header atRow ≠ none) :
        header ∈ pending.dropWhile (row.1 ≤ ·) ∨
          get header (keptAt (pending.takeWhile (row.1 ≤ ·)) running atRow) ≠ none := by
      rw [get_keptAt]
      split_ifs with hmem
      · exact .inr (by simp)
      · rcases h with h | h
        · rw [← List.takeWhile_append_dropWhile (p := (row.1 ≤ ·)) (l := pending)] at h
          exact .inl ((List.mem_append.mp h).resolve_left hmem)
        · exact .inr h
    simp only [sweep]
    by_cases hempty : (pending.dropWhile (row.1 ≤ ·)).isEmpty = true
    · rw [if_pos hempty]
      refine ⟨hkept, fun header h => ?_⟩
      rw [List.isEmpty_iff.mp hempty] at hwaits
      exact (hwaits header h).resolve_left List.not_mem_nil
    · rw [if_neg hempty]
      have hsplit' : all = (processed ++ [row]) ++ rows := by simpa using hsplit
      have hpending' := hpending.sublist (List.dropWhile_sublist fun h => decide (row.1 ≤ h))
      have habove' : ∀ header ∈ pending.dropWhile (row.1 ≤ ·), ∀ row' ∈ processed ++ [row],
          header < row'.1 := by
        intro header hheader row' hrow'
        rcases List.mem_append.mp hrow' with hmem | hmem
        · exact habove header ((List.dropWhile_sublist _).subset hheader) row' hmem
        · rw [List.mem_singleton.mp hmem]
          exact lt_of_mem_dropWhile hpending hheader
      have hrunning' (col : ℕ) : get col (countRow num setup.date1904 cols running row) =
          get col (walk num setup cols (processed ++ [row])) := by
        have hwalk : walk num setup cols (processed ++ [row]) =
            countRow num setup.date1904 cols (walk num setup cols processed) row := by
          simp [walk, List.foldl_append]
        rw [hwalk, get_countRow, get_countRow, hrunning]
      obtain ⟨hexact, hheld⟩ := ih hsplit' hpending' habove' hrunning' hkept
      exact ⟨hexact, fun header h => hheld header (hwaits header h)⟩

/-- What the attributes of a scan say once it has been asked. -/
def Faithful (s : DerivedScan) : Prop :=
  ∀ cols, s.cols = some cols → Exact num setup cols setup.byRow.entries s.atRow

theorem scan_spec (cols : List ℕ) (floor : ℕ) :
    Faithful num setup (scan num setup cols floor) ∧
      get floor (scan num setup cols floor).atRow ≠ none := by
  let rows := setup.byRow.entries.mergeSort fun a b => b.1 ≤ a.1
  have hperm : rows.Perm setup.byRow.entries := List.mergeSort_perm _ _
  have hsorted : rows.Pairwise fun a b => b.1 ≤ a.1 := by
    have h : rows.Pairwise fun a b => decide (b.1 ≤ a.1) = true :=
      List.pairwise_mergeSort (by simp only [decide_eq_true_eq]; omega)
        (by simp only [Bool.or_eq_true, decide_eq_true_eq]; omega) _
    simpa only [decide_eq_true_eq] using h
  have hnodup : (rows.map Prod.fst).Nodup := (hperm.map Prod.fst).nodup_iff.mpr setup.byRow.nodup
  have hall : rows.Pairwise fun a b => b.1 < a.1 := by
    apply (hsorted.and (List.pairwise_map.mp hnodup)).imp
    intro a b h
    omega
  have hpending : (pendingRows setup.headerRows floor).Pairwise (· ≥ ·) :=
    List.pairwise_mergeSort' _ _
  have hfloor : floor ∈ pendingRows setup.headerRows floor := by
    rw [pendingRows, List.mem_mergeSort, List.mem_dedup]
    exact List.mem_cons_self
  have hnone : Exact num setup cols rows [] := by
    intro header running h
    cases h
  obtain ⟨hexact, hheld⟩ := sweep_spec num setup hall (List.nil_append rows).symm hpending
    (fun _ _ => List.forall_mem_nil _) (fun _ => rfl) hnone
  refine ⟨?_, hheld floor (.inl hfloor)⟩
  intro cols' hcols header running hget col
  obtain rfl : cols = cols' := Option.some.inj hcols
  rw [hexact header running hget col]
  exact get_walk_of_perm num setup cols (hperm.filter _) col

theorem counts_spec {s : DerivedScan} (hs : Faithful num setup s) (cols : List ℕ)
    (headerRow : ℕ) :
    Faithful num setup (s.counts num setup cols headerRow).2 ∧
      ∃ answer, (s.counts num setup cols headerRow).1 = some answer ∧
        ∀ col, get col answer =
          get col (walk num setup cols (setup.byRow.entries.filter (headerRow < ·.1))) := by
  have hanswer {t : DerivedScan} (ht : Faithful num setup t) (hcols : t.cols = some cols)
      (hkept : get headerRow t.atRow ≠ none) :
      ∃ answer, get headerRow t.atRow = some answer ∧ ∀ col, get col answer =
        get col (walk num setup cols (setup.byRow.entries.filter (headerRow < ·.1))) := by
    obtain ⟨answer, hget⟩ := Option.ne_none_iff_exists'.mp hkept
    exact ⟨answer, hget, ht cols hcols headerRow answer hget⟩
  unfold DerivedScan.counts
  simp only
  split_ifs with hmiss
  · obtain ⟨hfaithful, hkept⟩ := scan_spec num setup cols headerRow
    exact ⟨hfaithful, hanswer hfaithful rfl hkept⟩
  · rw [not_or, not_not] at hmiss
    exact ⟨hs, hanswer hs hmiss.1 hmiss.2⟩

end Sweeps

/-- However a scan was asked before, its answer holds for every column the totals of the rows
strictly below the header, and of no other row. -/
theorem counts_eq_walk (setup : Setup) (calls : List (List ℕ × ℕ)) (cols : List ℕ)
    (headerRow : ℕ) :
    let ask := fun (call : List ℕ × ℕ) (s : DerivedScan) => (s.counts num setup call.1 call.2).2
    let s := after ask calls {}
    ∃ answer, (s.counts num setup cols headerRow).1 = some answer ∧
      (∀ col, get col answer =
        get col (walk num setup cols (setup.byRow.entries.filter (headerRow < ·.1)))) ∧
      ∀ col, (get col answer).isSome = true ↔ col ∈ cols := by
  intro ask s
  have hinitial : Faithful num setup {} := by
    intro cols hcols
    cases hcols
  have hasked : ∀ t, Faithful num setup t → Faithful num setup (after ask calls t) := by
    induction calls with
    | nil => exact fun t ht => ht
    | cons call calls ih =>
      exact fun t ht => ih _ (counts_spec num setup ht call.1 call.2).1
  have hs : Faithful num setup s := hasked {} hinitial
  obtain ⟨-, answer, hanswer, htotals⟩ := counts_spec num setup hs cols headerRow
  refine ⟨answer, hanswer, htotals, fun col => ?_⟩
  rw [htotals, get_walk]
  by_cases hcol : col ∈ cols <;> simp [hcol]

end FinanceContext.Markers
