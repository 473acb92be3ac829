import FinanceContext.FormulaRoundTrip
import FinanceContext.RangeTargets

namespace FinanceContext

open Csr Dictionaries

section Readers

variable (table : CharTable)

theorem le_toNat_of_isLetter {ch : Char} (h : isLetter ch = true) : 65 ≤ ch.toNat := by
  simp only [isLetter, Bool.or_eq_true, decide_eq_true_eq] at h
  rcases h with (((halpha | rfl) | rfl) | rfl) | rfl
  · exact (alpha_range halpha).1
  all_goals decide

theorem isLetter_of_lt {ch : Char} (h : ch.toNat < 65) : isLetter ch = false := by
  by_contra hletter
  have hle := le_toNat_of_isLetter (Bool.eq_true_of_not_eq_false hletter)
  omega

theorem upperLetter_colDigit {n : ℕ} {ch : Char} (h : ch ∈ indexToCol n) :
    upperLetter ch = ch := by
  have hrange := alpha_range (isAlpha_of_mem_indexToCol h)
  have hdotless : ch ≠ 'ı' := by
    rintro rfl
    exact absurd hrange.2 (by decide)
  have hlong : ch ≠ 'ſ' := by
    rintro rfl
    exact absurd hrange.2 (by decide)
  rw [upperLetter, if_neg hdotless, if_neg hlong, upper_colDigit h]

theorem skipDollar_append {run rest : List Char} (hne : run ≠ []) (hrun : '$' ∉ run) :
    skipDollar (run ++ rest) = run ++ rest := by
  cases run with
  | nil => exact absurd rfl hne
  | cons ch run =>
    unfold skipDollar
    split
    · rename_i heq
      obtain ⟨rfl, -⟩ := List.cons.inj heq
      exact absurd List.mem_cons_self hrun
    · rfl

theorem takeCol_indexToCol {col : ℕ} (hcol : 1 ≤ col) {rest : List Char}
    (hrest : ∀ ch ∈ rest.head?, isLetter ch = false) :
    takeCol (indexToCol col ++ rest) = some (col, rest) := by
  have hletters : ∀ ch ∈ indexToCol col, isLetter ch = true := by
    intro ch hch
    simp [isLetter, isAlpha_of_mem_indexToCol hch]
  have hdollar : '$' ∉ indexToCol col := by
    intro hch
    exact absurd (isAlpha_of_mem_indexToCol hch) (by decide)
  have hupper : (indexToCol col).map upperLetter = indexToCol col :=
    (List.map_congr_left fun _ hch => upperLetter_colDigit hch).trans (List.map_id _)
  unfold takeCol
  simp only [skipDollar_append (indexToCol_ne_nil col) hdollar,
    Formula.takeWhile_run hletters hrest, Formula.dropWhile_run hletters hrest, hupper,
    colToIndex_indexToCol hcol]
  rw [if_neg (by simpa using indexToCol_ne_nil col)]

theorem takeCol_eq_none {chars : List Char}
    (h : ∀ ch ∈ (skipDollar chars).head?, isLetter ch = false) : takeCol chars = none := by
  have htake : ([] ++ skipDollar chars).takeWhile isLetter = [] :=
    Formula.takeWhile_run (fun _ hch => nomatch hch) h
  rw [List.nil_append] at htake
  simp [takeCol, htake]

theorem takeRow_append (row : ℕ) {rest : List Char}
    (hrest : ∀ ch ∈ rest.head?, table.decimal ch = none) :
    takeRow table.decimal ((toString row).toList ++ rest) = some (row, rest) := by
  have hdigits : ∀ ch ∈ (toString row).toList, (table.decimal ch).isSome = true := by
    intro ch hch
    rw [decimal_digit table (isDigit_of_mem_toString hch)]
    rfl
  have hstop : ∀ ch ∈ rest.head?, (table.decimal ch).isSome = false := by
    intro ch hch
    rw [hrest ch hch]
    rfl
  have hdollar : '$' ∉ (toString row).toList := by
    intro hch
    exact absurd (isDigit_of_mem_toString hch) (by decide)
  unfold takeRow
  simp only [skipDollar_append (toString_ne_nil row) hdollar, Formula.takeWhile_run hdigits hstop,
    Formula.dropWhile_run hdigits hstop, readInt_toString]
  rw [if_neg (by simp)]

theorem takeRow_eq_none {chars : List Char}
    (h : ∀ ch ∈ (skipDollar chars).head?, table.decimal ch = none) :
    takeRow table.decimal chars = none := by
  have hstop : ∀ ch ∈ (skipDollar chars).head?, (table.decimal ch).isSome = false := by
    intro ch hch
    rw [h ch hch]
    rfl
  have htake : ([] ++ skipDollar chars).takeWhile (fun ch => (table.decimal ch).isSome) = [] :=
    Formula.takeWhile_run (fun _ hch => nomatch hch) hstop
  rw [List.nil_append] at htake
  simp [takeRow, htake]

theorem isDigit_head {row : ℕ} {ch : Char} {rest : List Char}
    (h : ch ∈ ((toString row).toList ++ rest).head?) : ch.isDigit = true := by
  rw [List.head?_append_of_ne_nil _ (toString_ne_nil row)] at h
  exact isDigit_of_mem_toString (List.mem_of_mem_head? h)

theorem takeCell_formatAddr {col : ℕ} (row : ℕ) (hcol : 1 ≤ col) {rest : List Char}
    (hrest : ∀ ch ∈ rest.head?, table.decimal ch = none) :
    takeCell table.decimal ((formatAddr col row).toList ++ rest) = some ((col, row), rest) := by
  have hletter : ∀ ch ∈ ((toString row).toList ++ rest).head?, isLetter ch = false := by
    intro ch hch
    have hrange := digit_range (isDigit_head hch)
    exact isLetter_of_lt (by omega)
  unfold takeCell
  simp only [formatAddr, String.toList_append, String.toList_ofList, List.append_assoc,
    takeCol_indexToCol hcol hletter, takeRow_append table row hrest, Option.bind_eq_bind,
    Option.bind_some]
  rfl

theorem takeEnds_append {α : Type} {take : List Char → Option (α × List Char)}
    {first last : List Char} {a b : α}
    (hfirst : take (first ++ ':' :: last) = some (a, ':' :: last))
    (hlast : take last = some (b, [])) : takeEnds take (first ++ ':' :: last) = some (a, b) := by
  unfold takeEnds
  simp only [hfirst, Option.bind_eq_bind, Option.bind_some, takeColon, hlast]
  rfl

theorem takeEnds_eq_none {α : Type} {take : List Char → Option (α × List Char)}
    {chars : List Char} (h : take chars = none) : takeEnds take chars = none := by
  simp [takeEnds, h]

end Readers

section Codec

variable (table : CharTable)

theorem decimal_colon : table.decimal ':' = none := table.decimal_ascii ':' (by decide)

theorem rectangle_rangeEnds {c1 c2 r1 r2 : ℕ} (hc1 : 1 ≤ c1) (hc : c1 ≤ c2) (hr : r1 ≤ r2) :
    rectangle table.decimal (String.ofList
      ((rangeEnds c1 c2 r1 r2).1 ++ ':' :: (rangeEnds c1 c2 r1 r2).2)) =
        some (c1, c2, r1, r2) := by
  have hcolon (last : List Char) : ∀ ch ∈ (':' :: last).head?, table.decimal ch = none := by
    intro ch hch
    obtain rfl := Option.some.inj hch
    exact decimal_colon table
  have hstop (last : List Char) : ∀ ch ∈ (':' :: last).head?, isLetter ch = false := by
    intro ch hch
    obtain rfl := Option.some.inj hch
    decide
  have hend : ∀ ch ∈ ([] : List Char).head?, isLetter ch = false := fun _ hch => nomatch hch
  have hend' : ∀ ch ∈ ([] : List Char).head?, table.decimal ch = none := fun _ hch => nomatch hch
  have hc2 : 1 ≤ c2 := hc1.trans hc
  unfold rectangle
  rw [String.toList_ofList]
  unfold rangeEnds
  split_ifs with hrows hcols
  · have hrow : takeRow table.decimal (':' :: indexToCol c2) = none :=
      takeRow_eq_none table (hcolon (indexToCol c2))
    have hcell : takeCell table.decimal (indexToCol c1 ++ ':' :: indexToCol c2) = none := by
      simp [takeCell, takeCol_indexToCol hc1 (hstop _), hrow]
    have hlast := takeCol_indexToCol hc2 hend
    rw [List.append_nil] at hlast
    rw [takeEnds_eq_none hcell, takeEnds_append (takeCol_indexToCol hc1 (hstop _)) hlast]
    simp only [Nat.min_eq_left hc, Nat.max_eq_right hc, hrows.1, hrows.2]
  · have hcol : takeCol ((toString r1).toList ++ ':' :: (toString r2).toList) = none := by
      apply takeCol_eq_none
      have hdollar : '$' ∉ (toString r1).toList := by
        intro hch
        exact absurd (isDigit_of_mem_toString hch) (by decide)
      rw [skipDollar_append (toString_ne_nil r1) hdollar]
      intro ch hch
      have hrange := digit_range (isDigit_head hch)
      exact isLetter_of_lt (by omega)
    have hcell : takeCell table.decimal
        ((toString r1).toList ++ ':' :: (toString r2).toList) = none := by
      rw [takeCell, hcol]
      rfl
    have hlast := takeRow_append table r2 hend'
    rw [List.append_nil] at hlast
    rw [takeEnds_eq_none hcell, takeEnds_eq_none hcol,
      takeEnds_append (takeRow_append table r1 (hcolon _)) hlast]
    simp only [Option.map_some, Nat.min_eq_left hr, Nat.max_eq_right hr, hcols.1, hcols.2]
  · have hlast := takeCell_formatAddr table r2 hc2 hend'
    rw [List.append_nil] at hlast
    rw [takeEnds_append (takeCell_formatAddr table r1 hc1 (hcolon _)) hlast]
    simp only [Nat.min_eq_left hc, Nat.max_eq_right hc, Nat.min_eq_left hr, Nat.max_eq_right hr]

theorem parseRangeNode_rangeNodeId {sheet : String} {c1 c2 r1 r2 : ℕ} (hc1 : 1 ≤ c1)
    (hc : c1 ≤ c2) (hr : r1 ≤ r2) :
    parseRangeNode table (rangeNodeId sheet c1 c2 r1 r2) =
      some ⟨rangeNodeId sheet c1 c2 r1 r2, sheet, c1, c2, r1, r2⟩ := by
  have hrect := rectangle_rangeEnds table hc1 hc hr
  have hbang := bang_notMem_of_rectangle hrect
  have hcolon := colon_mem_of_rectangle hrect
  have hsplit : rsplitBang (rangeNodeId sheet c1 c2 r1 r2).toList = some (sheet.toList,
      (rangeEnds c1 c2 r1 r2).1 ++ ':' :: (rangeEnds c1 c2 r1 r2).2) := by
    rw [rangeNodeId_eq, toList_nodeId, String.toList_ofList]
    rw [String.toList_ofList] at hbang
    exact rsplitBang_append hbang
  have hrange : isRangeNode (rangeNodeId sheet c1 c2 r1 r2) = true := by
    rw [isRangeNode, hsplit]
    simp
  rw [parseRangeNode, if_pos hrange, hsplit]
  simp only [Option.bind_eq_bind, Option.bind_some, hrect, String.ofList_toList]
  rfl

end Codec

structure SheetRange where
  sheet : String
  c1 : ℕ
  c2 : ℕ
  r1 : ℕ
  r2 : ℕ
  deriving DecidableEq

namespace SheetRange

/-- A cell of the grid inside the range. -/
def Covers (range : SheetRange) (col row : ℕ) : Prop :=
  Formula.inGrid col row = true ∧ range.c1 ≤ col ∧ col ≤ range.c2 ∧ range.r1 ≤ row ∧
    row ≤ range.r2

/-- The same rectangle of the grid of the same sheet. -/
def SameCells (a b : SheetRange) : Prop :=
  a.sheet = b.sheet ∧ ∀ col row, a.Covers col row ↔ b.Covers col row

structure WithinGrid (range : SheetRange) : Prop where
  col : range.c2 ≤ excelMaxCol
  first : 1 ≤ range.r1
  last : range.r2 ≤ Csr.excelMaxRow

/-- Bounds in order, from the first column on. -/
structure Ordered (range : SheetRange) : Prop where
  one_le : 1 ≤ range.c1
  cols : range.c1 ≤ range.c2
  rows : range.r1 ≤ range.r2

variable {a b : SheetRange}

theorem covers_corners (h : a.Ordered) (hgrid : a.WithinGrid) :
    a.Covers a.c1 a.r1 ∧ a.Covers a.c2 a.r2 := by
  obtain ⟨hone, hcols, hrows⟩ := h
  obtain ⟨hcol, hfirst, hlast⟩ := hgrid
  simp only [Covers, Formula.inGrid, Bool.and_eq_true, decide_eq_true_eq]
  omega

theorem eq_of_sameCells (ha : a.Ordered) (hb : b.Ordered) (hgrid : a.WithinGrid)
    (hgrid' : b.WithinGrid) (h : a.SameCells b) : a = b := by
  obtain ⟨hsheet, hcells⟩ := h
  obtain ⟨hfirst, hlast⟩ := covers_corners ha hgrid
  obtain ⟨hfirst', hlast'⟩ := covers_corners hb hgrid'
  obtain ⟨-, hc1, -, hr1, -⟩ := (hcells _ _).mp hfirst
  obtain ⟨-, -, hc2, -, hr2⟩ := (hcells _ _).mp hlast
  obtain ⟨-, hc1', -, hr1', -⟩ := (hcells _ _).mpr hfirst'
  obtain ⟨-, -, hc2', -, hr2'⟩ := (hcells _ _).mpr hlast'
  obtain ⟨s, c1, c2, r1, r2⟩ := a
  obtain ⟨s', c1', c2', r1', r2'⟩ := b
  simp only [SheetRange.mk.injEq]
  dsimp only at *
  exact ⟨hsheet, by omega, by omega, by omega, by omega⟩

end SheetRange

namespace Csr.Expansion

variable (ex : Expansion)

def resolved (target : String) : Option SheetRange := do
  let usage ← ex.usage
  let (sheet, body) ← splitSheetRef target
  let (c1, c2, r1, r2) ← rectangle ex.decimal body
  pure ⟨ex.sheetName usage sheet, c1, c2, r1, r2⟩

variable {ex} {target target' : String} {node node' : RangeNode} {range range' : SheetRange}

theorem node_of_resolved (h : ex.rangeNodeFor target = some node)
    (hrange : ex.resolved target = some range) :
    range.Ordered ∧ node = ⟨rangeNodeId range.sheet range.c1 range.c2 range.r1 range.r2,
      range.sheet, range.c1, range.c2, range.r1, range.r2⟩ := by
  obtain ⟨usage, sheet, body, husage, hsplit, hrect, hsheet, hid⟩ := ex.rangeNodeFor_spec h
  obtain ⟨hone, hcols, hrows⟩ := bounds_of_rectangle hrect
  simp only [resolved, husage, hsplit, hrect, Option.bind_eq_bind, Option.bind_some] at hrange
  obtain rfl := Option.some.inj hrange
  refine ⟨⟨hone, hcols, hrows⟩, ?_⟩
  obtain ⟨id, s, c1, c2, r1, r2⟩ := node
  dsimp only at hsheet hid
  subst hsheet hid
  rfl

theorem nodeId_eq_iff (h : ex.rangeNodeFor target = some node)
    (hrange : ex.resolved target = some range) (h' : ex.rangeNodeFor target' = some node')
    (hrange' : ex.resolved target' = some range') :
    node.nodeId = node'.nodeId ↔ range = range' := by
  obtain ⟨-, hnode⟩ := node_of_resolved h hrange
  obtain ⟨-, hnode'⟩ := node_of_resolved h' hrange'
  constructor
  · intro hid
    have hsame := ex.rangeNodeFor_inj h h' hid
    rw [hnode, hnode'] at hsame
    obtain ⟨s, c1, c2, r1, r2⟩ := range
    obtain ⟨s', c1', c2', r1', r2'⟩ := range'
    simp only [RangeNode.mk.injEq] at hsame
    simp only [SheetRange.mk.injEq]
    exact hsame.2
  · rintro rfl
    rw [hnode, hnode']

/-- An id is read back as its node. Two targets have one id exactly when they cover the same
cells, unless their bounds differ beyond the grid only. -/
theorem range_ids_canonical_iff (table : CharTable) (h : ex.rangeNodeFor target = some node)
    (hrange : ex.resolved target = some range) (h' : ex.rangeNodeFor target' = some node')
    (hrange' : ex.resolved target' = some range') :
    parseRangeNode table node.nodeId = some node ∧
      ((node.nodeId = node'.nodeId ↔ range.SameCells range') ↔
        (range.SameCells range' → range = range')) ∧
      (range.WithinGrid → range'.WithinGrid →
        (node.nodeId = node'.nodeId ↔ range.SameCells range')) := by
  obtain ⟨hordered, hnode⟩ := node_of_resolved h hrange
  obtain ⟨hordered', -⟩ := node_of_resolved h' hrange'
  have hcodec : (node.nodeId = node'.nodeId ↔ range.SameCells range') ↔
      (range.SameCells range' → range = range') := by
    rw [nodeId_eq_iff h hrange h' hrange']
    refine ⟨fun hiff => hiff.mpr, fun hbounds => ⟨?_, hbounds⟩⟩
    rintro rfl
    exact ⟨rfl, fun _ _ => Iff.rfl⟩
  refine ⟨?_, hcodec, ?_⟩
  · rw [hnode]
    exact parseRangeNode_rangeNodeId table hordered.one_le hordered.cols hordered.rows
  · intro hgrid hgrid'
    exact hcodec.mpr (SheetRange.eq_of_sameCells hordered hordered' hgrid hgrid')

end Csr.Expansion

section Sample

open Formula

def dataSheet : Expansion where
  casefold text := text
  decimal := asciiTable.decimal
  rangeCap := 1000
  nodeMinCells := 64
  usage := some
    { rowsByCol := [("Data", [(1, [(1, 3)])])]
      canonical := [("Data", "Data")] }

/-- Corners swapped, anchored and behind a quoted sheet name. -/
theorem range_ids_canonical_swapped :
    parseRangeNode asciiTable "Data!A2:B90" = some ⟨"Data!A2:B90", "Data", 1, 2, 2, 90⟩ ∧
      ("Data!A2:B90" = "Data!A2:B90" ↔
        SheetRange.SameCells ⟨"Data", 1, 2, 2, 90⟩ ⟨"Data", 1, 2, 2, 90⟩) := by
  have hnode : dataSheet.rangeNodeFor "Data!B2:A90" =
      some ⟨"Data!A2:B90", "Data", 1, 2, 2, 90⟩ := by decide +kernel
  have hnode' : dataSheet.rangeNodeFor "'Data'!$A$2:$B$90" =
      some ⟨"Data!A2:B90", "Data", 1, 2, 2, 90⟩ := by decide +kernel
  have hrange : dataSheet.resolved "Data!B2:A90" = some ⟨"Data", 1, 2, 2, 90⟩ := by
    decide +kernel
  have hrange' : dataSheet.resolved "'Data'!$A$2:$B$90" = some ⟨"Data", 1, 2, 2, 90⟩ := by
    decide +kernel
  have hgrid : SheetRange.WithinGrid ⟨"Data", 1, 2, 2, 90⟩ := ⟨by decide, by decide, by decide⟩
  obtain ⟨hread, -, hids⟩ :=
    Expansion.range_ids_canonical_iff asciiTable hnode hrange hnode' hrange'
  exact ⟨hread, hids hgrid hgrid⟩

/-- Rows 1 to 2,000,000 are the whole sheet, as are its 1,048,576 rows; the ids differ. -/
theorem rows_beyond_grid_differ :
    (Engine.en.parse asciiText textFloats.toFloats "=SUM(Data!1:2000000)".toList "S" "A1").edges.map
        (·.target) = [some "Data!1:2000000"] ∧
      (dataSheet.rangeNodeFor "Data!1:2000000").map (·.nodeId) = some "Data!1:2000000" ∧
      (dataSheet.rangeNodeFor "Data!1:1048576").map (·.nodeId) = some "Data!A:XFD" ∧
      dataSheet.resolved "Data!1:2000000" = some ⟨"Data", 1, 16384, 1, 2000000⟩ ∧
      dataSheet.resolved "Data!1:1048576" = some ⟨"Data", 1, 16384, 1, 1048576⟩ ∧
      SheetRange.SameCells ⟨"Data", 1, 16384, 1, 2000000⟩ ⟨"Data", 1, 16384, 1, 1048576⟩ := by
  refine ⟨by decide +kernel, by decide +kernel, by decide +kernel, by decide +kernel,
    by decide +kernel, rfl, ?_⟩
  intro col row
  unfold SheetRange.Covers inGrid
  rw [excelMaxCol, Csr.excelMaxRow]
  simp only [Bool.and_eq_true, decide_eq_true_eq]
  omega

end Sample

end FinanceContext
