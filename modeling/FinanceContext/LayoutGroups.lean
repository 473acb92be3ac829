import FinanceContext.SpilledGroups
import FinanceContext.NestedGroups
import FinanceContext.WorkbookTimelines
import FinanceContext.CellKeys

namespace FinanceContext.LayoutGroups

open Dictionaries NestedGroups SpilledGroups WorkbookTimelines

inductive ParseFact where
  | styleIndent | outlineLevel | colOutlineLevel
deriving DecidableEq

def parseFacts : List ParseFact := [.styleIndent, .outlineLevel, .colOutlineLevel]

structure LayoutCell where
  cell : Cell
  mergeEndCol : Option ℕ := none
  fact : ParseFact → Option ℤ := fun _ => none

structure RawRow where
  sheet : String
  row : ℕ
  col : ℕ
  fact : ParseFact → Option ℤ

/-- `raw/cells.parquet`; a column that is missing has no values. -/
structure RawFile where
  columns : List ParseFact
  rows : List RawRow
  absent : ∀ raw ∈ rows, ∀ key, key ∉ columns → raw.fact key = none

structure MetaSheet where
  name : String
  merges : List String

abbrev Extra := List (ParseFact × ℤ)

abbrev Place := String × ℕ × ℕ

section Facts

def pickedFacts (raw : RawRow) : Extra :=
  parseFacts.filterMap fun key => ((raw.fact key).filter (0 < ·)).map fun value => (key, value)

/-- The mask over the columns of facts, where a null counts as zero. -/
def masked (raw : RawRow) : Bool := parseFacts.any fun key => decide (0 < (raw.fact key).getD 0)

def LayoutCell.place (cell : LayoutCell) : Place := (cell.cell.sheet, cell.cell.row, cell.cell.col)

/-- `_with_updates` for facts. -/
def withUpdates (cell : LayoutCell) (extra : Extra) : LayoutCell :=
  extra.foldl (fun cell item => { cell with fact := Function.update cell.fact item.1 (some item.2) })
    cell

def withFacts (cell : LayoutCell) : Option Extra → LayoutCell
  | none => cell
  | some extra => if extra = [] then cell else withUpdates cell extra

def factsByPlace (rows : List RawRow) : List (Place × Extra) :=
  filled ((rows.filter fun raw => pickedFacts raw ≠ []).map fun raw =>
    ((raw.sheet, raw.row, raw.col), pickedFacts raw))

def merged (facts : List (Place × Extra)) (cells : List LayoutCell) : List LayoutCell :=
  if facts = [] then cells else cells.map fun cell => withFacts cell (get cell.place facts)

def overlayFactsColumnar (raw : Option RawFile) (cells : List LayoutCell) : List LayoutCell :=
  match raw with
  | none => cells
  | some file =>
    if parseFacts.any fun key => !file.columns.contains key then cells
    else if file.rows.all fun raw => !masked raw then cells
    else merged (factsByPlace (file.rows.filter masked)) cells

def overlayParseFacts (raw : Option RawFile) (columnar : Bool) (cells : List LayoutCell) :
    List LayoutCell :=
  if columnar then overlayFactsColumnar raw cells
  else
    match raw with
    | none => cells
    | some file => merged (factsByPlace file.rows) cells

def groupRawFacts (raw : Option RawFile) : Nested String (ℕ × ℕ) Extra :=
  match raw with
  | none => []
  | some file =>
    if parseFacts.any fun key => !file.columns.contains key then []
    else
      (file.rows.filter masked).foldl (fun grouped raw =>
        if pickedFacts raw = [] then grouped
        else set raw.sheet (set (raw.row, raw.col) (pickedFacts raw) (groupsAt raw.sheet grouped))
          grouped) []

def applySheetFacts (facts : Option (List ((ℕ × ℕ) × Extra))) (cells : List LayoutCell) :
    List LayoutCell :=
  match facts with
  | none => cells
  | some facts =>
    if facts = [] then cells
    else cells.map fun cell => withFacts cell (get (cell.cell.row, cell.cell.col) facts)

theorem mem_pickedFacts {raw : RawRow} {item : ParseFact × ℤ} :
    item ∈ pickedFacts raw ↔ item.1 ∈ parseFacts ∧ raw.fact item.1 = some item.2 ∧ 0 < item.2 := by
  rw [pickedFacts, List.mem_filterMap]
  constructor
  · rintro ⟨key, hkey, heq⟩
    obtain ⟨value, hvalue, rfl⟩ := Option.map_eq_some_iff.mp heq
    obtain ⟨hfact, hpos⟩ := Option.filter_eq_some_iff.mp hvalue
    exact ⟨hkey, hfact, of_decide_eq_true hpos⟩
  · rintro ⟨hkey, hfact, hpos⟩
    refine ⟨item.1, hkey, Option.map_eq_some_iff.mpr ⟨item.2, ?_, rfl⟩⟩
    exact Option.filter_eq_some_iff.mpr ⟨hfact, decide_eq_true hpos⟩

theorem masked_iff {raw : RawRow} : masked raw = true ↔ pickedFacts raw ≠ [] := by
  rw [masked, List.any_eq_true]
  constructor
  · rintro ⟨key, hkey, hpos⟩
    cases hfact : raw.fact key with
    | none => simp [hfact] at hpos
    | some value =>
      rw [hfact, Option.getD_some, decide_eq_true_eq] at hpos
      have hitem : (key, value) ∈ pickedFacts raw := mem_pickedFacts.mpr ⟨hkey, hfact, hpos⟩
      exact List.ne_nil_of_mem hitem
  · intro hne
    obtain ⟨item, hitem⟩ := List.exists_mem_of_ne_nil _ hne
    obtain ⟨hkey, hfact, hpos⟩ := mem_pickedFacts.mp hitem
    exact ⟨item.1, hkey, by rw [hfact, Option.getD_some, decide_eq_true_eq]; exact hpos⟩

theorem factsByPlace_masked (rows : List RawRow) :
    factsByPlace (rows.filter masked) = factsByPlace rows := by
  rw [factsByPlace, List.filter_filter, factsByPlace]
  congr 2
  apply List.filter_congr
  intro raw _
  by_cases hraw : masked raw = true
  · simp [hraw]
  · have hnil : pickedFacts raw = [] := not_not.mp fun hne => hraw (masked_iff.mpr hne)
    simp [hnil]

theorem factsByPlace_of_unmasked {rows : List RawRow} (h : ∀ raw ∈ rows, masked raw = false) :
    factsByPlace rows = [] := by
  have hnone : rows.filter masked = [] :=
    List.filter_eq_nil_iff.mpr fun raw hraw hmasked => by
      rw [h raw hraw] at hmasked
      cases hmasked
  rw [← factsByPlace_masked, hnone]
  rfl

theorem merged_eq_map (facts : List (Place × Extra)) (cells : List LayoutCell) :
    merged facts cells = cells.map fun cell => withFacts cell (get cell.place facts) := by
  rw [merged]
  split_ifs with hnil
  · subst hnil
    exact (List.map_id' cells).symm
  · rfl

theorem applySheetFacts_eq_map (name : String) (facts : Nested String (ℕ × ℕ) Extra)
    (cells : List LayoutCell) : applySheetFacts (get name facts) cells =
      cells.map fun cell =>
        withFacts cell (get (cell.cell.row, cell.cell.col) (groupsAt name facts)) := by
  rw [groupsAt]
  cases get name facts with
  | none => exact (List.map_id' cells).symm
  | some bucket =>
    rw [applySheetFacts, Option.getD_some]
    split_ifs with hnil
    · subst hnil
      exact (List.map_id' cells).symm
    · rfl

/-- The raw file has every column of facts, or no fact at all. -/
def Settled (file : RawFile) : Prop :=
  (∀ key ∈ parseFacts, key ∈ file.columns) ∨ ∀ raw ∈ file.rows, masked raw = false

def rowsOf : Option RawFile → List RawRow
  | none => []
  | some file => file.rows

theorem overlayFactsColumnar_eq {raw : Option RawFile} (h : ∀ file ∈ raw, Settled file)
    (cells : List LayoutCell) :
    overlayFactsColumnar raw cells = merged (factsByPlace (rowsOf raw)) cells := by
  cases raw with
  | none => exact (merged_eq_map [] cells).symm ▸ (List.map_id' cells).symm
  | some file =>
    rw [overlayFactsColumnar, rowsOf]
    have hquiet (hrows : ∀ raw ∈ file.rows, masked raw = false) :
        cells = merged (factsByPlace file.rows) cells := by
      rw [factsByPlace_of_unmasked hrows, merged, if_pos rfl]
    split_ifs with hmissing hnone
    · obtain ⟨key, hkey, habsent⟩ := List.any_eq_true.mp hmissing
      rcases h file rfl with hcolumns | hrows
      · simp [hcolumns key hkey] at habsent
      · exact hquiet hrows
    · refine hquiet fun raw hraw => ?_
      simpa using List.all_eq_true.mp hnone raw hraw
    · rw [factsByPlace_masked]

theorem overlayParseFacts_eq {raw : Option RawFile} (h : ∀ file ∈ raw, Settled file)
    (columnar : Bool) (cells : List LayoutCell) :
    overlayParseFacts raw columnar cells = merged (factsByPlace (rowsOf raw)) cells := by
  cases columnar with
  | true => exact overlayFactsColumnar_eq h cells
  | false =>
    cases raw with
    | none => exact (merged_eq_map [] cells).symm ▸ (List.map_id' cells).symm
    | some file => rfl

theorem factsByPlace_concat (rows : List RawRow) (raw : RawRow) :
    factsByPlace (rows ++ [raw]) =
      if pickedFacts raw = [] then factsByPlace rows
      else set (raw.sheet, raw.row, raw.col) (pickedFacts raw) (factsByPlace rows) := by
  rw [factsByPlace, List.filter_append, List.map_append]
  split_ifs with hnil
  · simp [hnil, factsByPlace]
  · have hkept : [raw].filter (fun raw => pickedFacts raw ≠ []) = [raw] := by simp [hnil]
    rw [hkept, List.map_singleton, filled_concat, factsByPlace]

theorem get_groupsAt_foldl (rows : List RawRow) (name : String) (place : ℕ × ℕ) :
    get place (groupsAt name (rows.foldl (fun grouped raw =>
      if pickedFacts raw = [] then grouped
      else set raw.sheet (set (raw.row, raw.col) (pickedFacts raw) (groupsAt raw.sheet grouped))
        grouped) [])) = get (name, place) (factsByPlace rows) := by
  induction rows using List.reverseRecOn with
  | nil => rfl
  | append_singleton rows raw ih =>
    rw [List.foldl_append, List.foldl_cons, List.foldl_nil, factsByPlace_concat]
    split_ifs with hnil
    · exact ih
    · rw [groupsAt_set, get_set]
      by_cases hname : raw.sheet = name
      · subst hname
        rw [if_pos rfl, get_set, ih]
        simp
      · rw [if_neg hname, ih, if_neg fun heq => hname (Prod.mk.inj heq).1]

theorem get_groupRawFacts {raw : Option RawFile} (h : ∀ file ∈ raw, Settled file) (name : String)
    (place : ℕ × ℕ) : get place (groupsAt name (groupRawFacts raw)) =
      get (name, place) (factsByPlace (rowsOf raw)) := by
  cases raw with
  | none => rfl
  | some file =>
    rw [groupRawFacts, rowsOf]
    split_ifs with hmissing
    · obtain ⟨key, hkey, habsent⟩ := List.any_eq_true.mp hmissing
      rcases h file rfl with hcolumns | hrows
      · simp [hcolumns key hkey] at habsent
      · rw [factsByPlace_of_unmasked hrows]
        rfl
    · rw [get_groupsAt_foldl, factsByPlace_masked]

end Facts

section Merges

variable (decimal : Char → Option ℕ)

def mergeSpan (name : String) (ref : String) : Option (Place × ℕ) :=
  if ':' ∈ ref.toList then do
    let (col, row) ← Csr.parseAddr decimal (ref.toList.takeWhile (· ≠ ':'))
    let (endCol, _) ← Csr.parseAddr decimal ((ref.toList.dropWhile (· ≠ ':')).drop 1)
    if col < endCol then some ((name, row, col), endCol) else none
  else none

def mergeSpans (sheets : List MetaSheet) : List (Place × ℕ) :=
  filled (sheets.flatMap fun sheet => sheet.merges.filterMap (mergeSpan decimal sheet.name))

def withMerge (spans : List (Place × ℕ)) (cell : LayoutCell) : LayoutCell :=
  match get cell.place spans with
  | none => cell
  | some endCol => { cell with mergeEndCol := some endCol }

def overlayMerges (sheets : Option (List MetaSheet)) (cells : List LayoutCell) : List LayoutCell :=
  match sheets with
  | none => cells
  | some sheets =>
    if mergeSpans decimal sheets = [] then cells
    else cells.map (withMerge (mergeSpans decimal sheets))

def spansOf : Option (List MetaSheet) → List (Place × ℕ)
  | none => []
  | some sheets => mergeSpans decimal sheets

theorem map_withMerge_nil (cells : List LayoutCell) : cells.map (withMerge []) = cells :=
  List.map_id' cells

theorem overlayMerges_eq_map (sheets : Option (List MetaSheet)) (cells : List LayoutCell) :
    overlayMerges decimal sheets cells = cells.map (withMerge (spansOf decimal sheets)) := by
  cases sheets with
  | none => exact (map_withMerge_nil cells).symm
  | some sheets =>
    rw [overlayMerges, spansOf]
    split_ifs with hnil
    · rw [hnil, map_withMerge_nil]
    · rfl

@[simp] theorem cell_withMerge (spans : List (Place × ℕ)) (cell : LayoutCell) :
    (withMerge spans cell).cell = cell.cell := by
  rw [withMerge]
  split <;> rfl

theorem cell_withUpdates (cell : LayoutCell) (extra : Extra) :
    (withUpdates cell extra).cell = cell.cell := by
  induction extra generalizing cell with
  | nil => rfl
  | cons item extra ih => exact ih _

@[simp] theorem cell_withFacts (cell : LayoutCell) (extra : Option Extra) :
    (withFacts cell extra).cell = cell.cell := by
  cases extra with
  | none => rfl
  | some extra =>
    rw [withFacts]
    split_ifs
    · rfl
    · exact cell_withUpdates cell extra

end Merges

/-- What both ways to lay out a workbook take from the code and the settings: the layout of one
sheet, whose axes carry the name of the sheet in their ids, and the bit of a flag cell. -/
structure Setup where
  decimal : Char → Option ℕ
  casefold : String → String
  bit : Option String → Option String → Bool
  sheetLayout : String → List LayoutCell → SheetLayout
  name_sheetLayout : ∀ name cells, (sheetLayout name cells).name = name
  nodup_axes : ∀ name cells, ((sheetLayout name cells).axes.map (·.id)).Nodup
  axes_apart : ∀ name name' cells cells', name ≠ name' →
    ∀ axis ∈ (sheetLayout name cells).axes, ∀ axis' ∈ (sheetLayout name' cells').axes,
      axis.id ≠ axis'.id

/-- The files of a book: the batches of `ir/cells.parquet`, the raw cells and `workbook.json`. -/
structure BookFiles where
  batches : List (List Cell)
  raw : Option RawFile
  sheets : Option (List MetaSheet)

namespace Setup

variable (setup : Setup)

def flagBit (cells : List Cell) (sheet : String) (row col : ℕ) : Bool :=
  match get (sheet, row, col) (filled (cells.map fun cell =>
    ((cell.sheet, cell.row, cell.col), cell))) with
  | none => false
  | some cell => setup.bit cell.cachedValue cell.numberFormat

def sheetsOf (groups : List (String × List LayoutCell)) : List SheetLayout :=
  groups.map fun group => setup.sheetLayout group.1 group.2

theorem nodup_axes_sheetsOf {groups : List (String × List LayoutCell)}
    (h : (groups.map Prod.fst).Nodup) :
    (((setup.sheetsOf groups).flatMap (·.axes)).map (·.id)).Nodup := by
  induction groups with
  | nil => exact List.nodup_nil
  | cons group groups ih =>
    obtain ⟨hgroup, hgroups⟩ := List.nodup_cons.mp h
    rw [sheetsOf, List.map_cons, List.flatMap_cons, List.map_append]
    refine List.nodup_append.mpr ⟨setup.nodup_axes _ _, ih hgroups, ?_⟩
    intro a ha b hb
    obtain ⟨axis, haxis, rfl⟩ := List.mem_map.mp ha
    obtain ⟨axis', haxis', rfl⟩ := List.mem_map.mp hb
    obtain ⟨sheet, hsheet, haxis'⟩ := List.mem_flatMap.mp haxis'
    obtain ⟨other, hother, rfl⟩ := List.mem_map.mp hsheet
    have hne : group.1 ≠ other.1 := fun heq => hgroup (heq ▸ List.mem_map_of_mem hother)
    exact setup.axes_apart _ _ _ _ hne axis haxis axis' haxis'

def detectLayout (cells : List LayoutCell) : Layout :=
  linkWorkbookTimelines
    { sheets := setup.sheetsOf (grouped (cells.map fun cell => (cell.cell.sheet, cell)))
      ids := setup.nodup_axes_sheetsOf (nodup_keys_grouped _)
      casefold := setup.casefold
      flagBit := setup.flagBit (cells.map (·.cell)) }

/-- `layout_workbook` on the cells in memory. -/
def layoutFromCells (columnar : Bool) (cells : List Cell) (book : BookFiles) : Layout :=
  setup.detectLayout (overlayMerges setup.decimal book.sheets
    (overlayParseFacts book.raw columnar (cells.map fun cell => { cell })))

/-- The cells `_sheet_layout` receives, one sheet after another, and the files that are left. -/
def sheetCells (sheets : Option (List MetaSheet)) (spill : Spill String Cell)
    (facts : Nested String (ℕ × ℕ) Extra) :
    List String → List (String × List LayoutCell) × Spill String Cell
  | [] => ([], spill)
  | name :: names =>
    let cells := applySheetFacts (get name facts)
      ((spill.pop name).1.map fun cell => { cell })
    let rest := sheetCells sheets (spill.pop name).2
      (facts.filter fun group => !decide (group.1 = name)) names
    (if cells = [] then rest.1 else (name, overlayMerges setup.decimal sheets cells) :: rest.1,
      rest.2)

theorem sublist_sheetCells (sheets : Option (List MetaSheet)) (spill : Spill String Cell)
    (facts : Nested String (ℕ × ℕ) Extra) (names : List String) :
    ((setup.sheetCells sheets spill facts names).1.map Prod.fst).Sublist names := by
  induction names generalizing spill facts with
  | nil => exact .slnil
  | cons name names ih =>
    simp only [sheetCells]
    split_ifs
    · exact (ih _ _).cons _
    · exact (ih _ _).cons_cons _

def flagRows (sheet : SheetLayout) : List ℕ :=
  ((sheet.blocks.filter fun block => block.kind = .timeline).flatMap fun block =>
    block.rows.filter (·.kind = .flag)).map (·.row)

def readFlagCells (cells : List Cell) (sheets : List SheetLayout) : List Cell :=
  sheets.flatMap fun sheet =>
    cells.filter fun cell => cell.sheet = sheet.name && decide (cell.row ∈ flagRows sheet)

/-- `_load_layout_cells`, and the cells that `_detect_from_groups` lays out. -/
def loadLayout (book : BookFiles) : List (String × List LayoutCell) × Spill String Cell :=
  let spill := Spill.writeBatches (·.sheet) book.batches
  setup.sheetCells book.sheets spill (groupRawFacts book.raw) spill.names

def readySheets (book : BookFiles) : List (String × List LayoutCell) := (setup.loadLayout book).1

theorem spill_sheetCells (sheets : Option (List MetaSheet)) (spill : Spill String Cell)
    (facts : Nested String (ℕ × ℕ) Extra) (names : List String) :
    (setup.sheetCells sheets spill facts names).2 =
      names.foldl (fun spill name => (spill.pop name).2) spill := by
  induction names generalizing spill facts with
  | nil => rfl
  | cons name names ih => exact ih _ _

theorem directory_loadLayout (book : BookFiles) : (setup.loadLayout book).2.directory = [] := by
  rw [loadLayout, spill_sheetCells]
  exact (Spill.written book.batches).1.drained

theorem nodup_readySheets (book : BookFiles) :
    ((setup.readySheets book).map Prod.fst).Nodup := by
  apply (setup.sublist_sheetCells _ _ _ _).nodup
  rw [(Spill.written book.batches).2.2]
  exact nodup_distinct _

def layoutFromFiles (book : BookFiles) : Layout :=
  linkWorkbookTimelines
    { sheets := setup.sheetsOf (setup.readySheets book)
      ids := setup.nodup_axes_sheetsOf (setup.nodup_readySheets book)
      casefold := setup.casefold
      flagBit := setup.flagBit
        (readFlagCells book.batches.flatten (setup.sheetsOf (setup.readySheets book))) }

section Cells

variable (book : BookFiles)

def ready (cell : Cell) : LayoutCell :=
  withMerge (spansOf setup.decimal book.sheets)
    (withFacts { cell } (get (cell.sheet, cell.row, cell.col) (factsByPlace (rowsOf book.raw))))

@[simp] theorem cell_ready (cell : Cell) : (setup.ready book cell).cell = cell := by
  rw [ready, cell_withMerge, cell_withFacts]

variable {book}

theorem layoutFromCells_eq (hraw : ∀ file ∈ book.raw, Settled file) (columnar : Bool)
    (cells : List Cell) : setup.layoutFromCells columnar cells book =
      setup.detectLayout (cells.map (setup.ready book)) := by
  rw [layoutFromCells, overlayMerges_eq_map, overlayParseFacts_eq hraw, merged_eq_map,
    List.map_map, List.map_map]
  rfl

theorem ready_pop (hraw : ∀ file ∈ book.raw, Settled file) {name : String}
    {facts : Nested String (ℕ × ℕ) Extra}
    (hfacts : groupsAt name facts = groupsAt name (groupRawFacts book.raw)) {cells : List Cell}
    (hcells : ∀ cell ∈ cells, cell.sheet = name) :
    overlayMerges setup.decimal book.sheets
      (applySheetFacts (get name facts) (cells.map fun cell => { cell })) =
        cells.map (setup.ready book) := by
  rw [overlayMerges_eq_map, applySheetFacts_eq_map, hfacts, List.map_map, List.map_map]
  apply List.map_congr_left
  intro cell hcell
  rw [Function.comp_apply, Function.comp_apply, get_groupRawFacts hraw, ← hcells cell hcell]
  rfl

theorem sheetCells_eq (hraw : ∀ file ∈ book.raw, Settled file) {names : List String}
    (hnames : names.Nodup) {spill : Spill String Cell} (hspill : spill.Sound)
    {facts : Nested String (ℕ × ℕ) Extra}
    (hfacts : ∀ name ∈ names, groupsAt name facts = groupsAt name (groupRawFacts book.raw))
    (hcells : ∀ name ∈ names, spill.read name ≠ [] ∧ ∀ cell ∈ spill.read name, cell.sheet = name) :
    (setup.sheetCells book.sheets spill facts names).1 =
      names.map fun name => (name, (spill.read name).map (setup.ready book)) := by
  induction names generalizing spill facts with
  | nil => rfl
  | cons name names ih =>
    obtain ⟨hname, hnames⟩ := List.nodup_cons.mp hnames
    have hne {other : String} (hother : other ∈ names) : other ≠ name :=
      fun heq => hname (heq ▸ hother)
    have hread (other : String) (hother : other ∈ names) :
        (spill.pop name).2.read other = spill.read other := by
      rw [hspill.read_pop, if_neg (hne hother)]
    have hleft (other : String) (hother : other ∈ names) :
        groupsAt other (facts.filter fun group => !decide (group.1 = name)) =
          groupsAt other (groupRawFacts book.raw) := by
      have hget : get other (facts.filter fun group => !decide (group.1 = name)) =
          if (!decide (other = name)) = true then get other facts else none :=
        get_filter (fun k => !decide (k = name)) other facts
      rw [groupsAt, hget, if_pos (by simp [hne hother])]
      exact hfacts other (List.mem_cons_of_mem _ hother)
    have hrest := ih hnames (hspill.pop name) hleft fun other hother => by
      rw [hread other hother]
      exact hcells other (List.mem_cons_of_mem _ hother)
    obtain ⟨hfull, hsheet⟩ := hcells name List.mem_cons_self
    have hpop : (spill.pop name).1 = spill.read name := rfl
    simp only [sheetCells, hpop]
    rw [if_neg, ready_pop setup hraw (hfacts name List.mem_cons_self) hsheet, hrest,
      List.map_cons]
    · congr 1
      apply List.map_congr_left
      intro other hother
      rw [hread other hother]
    · rw [applySheetFacts_eq_map, List.map_eq_nil_iff, List.map_eq_nil_iff]
      exact hfull

theorem readySheets_eq (hraw : ∀ file ∈ book.raw, Settled file) :
    setup.readySheets book = (distinct (book.batches.flatten.map (·.sheet))).map fun name =>
      (name, (book.batches.flatten.filter (·.sheet = name)).map (setup.ready book)) := by
  obtain ⟨hsound, hread, hnames⟩ :
      (Spill.writeBatches (fun cell : Cell => cell.sheet) book.batches).Sound ∧ _ ∧ _ :=
    Spill.written book.batches
  rw [readySheets, loadLayout, hnames, setup.sheetCells_eq hraw (nodup_distinct _) hsound (fun _ _ => rfl)]
  · apply List.map_congr_left
    intro name _
    rw [hread]
  · intro name hname
    rw [hread]
    obtain ⟨cell, hcell, rfl⟩ := List.mem_map.mp ((mem_distinct _).mp hname)
    refine ⟨List.ne_nil_of_mem (List.mem_filter.mpr ⟨hcell, decide_eq_true rfl⟩), ?_⟩
    intro other hother
    exact of_decide_eq_true (List.mem_filter.mp hother).2

theorem sheetsOf_readySheets (hraw : ∀ file ∈ book.raw, Settled file) :
    setup.sheetsOf (grouped ((book.batches.flatten.map (setup.ready book)).map fun cell =>
        (cell.cell.sheet, cell))) = setup.sheetsOf (setup.readySheets book) := by
  rw [sheetsOf, map_grouped setup.sheetLayout, sheetsOf, setup.readySheets_eq hraw, List.map_map,
    List.map_map, List.map_map]
  have hkeys : book.batches.flatten.map (Prod.fst ∘ (fun cell : LayoutCell =>
      (cell.cell.sheet, cell)) ∘ setup.ready book) = book.batches.flatten.map (·.sheet) := by
    apply List.map_congr_left
    intro cell _
    simp
  rw [hkeys]
  apply List.map_congr_left
  intro name _
  simp [List.filter_map, Function.comp_def]

end Cells

section Flags

theorem mem_flagRows {sheet : SheetLayout} {axis : TimeAxis} {row : LayoutRow}
    (h : row ∈ (sheet.blocks.filter fun block =>
      block.kind = .timeline && block.axisIds.contains axis.id).flatMap fun block =>
        block.rows.filter (·.kind = .flag)) : row.row ∈ flagRows sheet := by
  obtain ⟨block, hblock, hrow⟩ := List.mem_flatMap.mp h
  obtain ⟨hmem, hkind⟩ := List.mem_filter.mp hblock
  refine List.mem_map_of_mem (List.mem_flatMap.mpr ⟨block, List.mem_filter.mpr ⟨hmem, ?_⟩, hrow⟩)
  exact (Bool.and_eq_true_iff.mp hkind).1

theorem linkWorkbookTimelines_congr {book book' : Workbook} (hsheets : book.sheets = book'.sheets)
    (hcasefold : book.casefold = book'.casefold)
    (hbit : ∀ sheet ∈ book.sheets, ∀ row ∈ flagRows sheet, ∀ col,
      book.flagBit sheet.name row col = book'.flagBit sheet.name row col) :
    linkWorkbookTimelines book = linkWorkbookTimelines book' := by
  have hflags (sheet : SheetLayout) (hsheet : sheet ∈ book.sheets) (axis : TimeAxis) :
      timelineFlags book sheet axis = timelineFlags book' sheet axis := by
    unfold timelineFlags
    dsimp only
    split_ifs
    · rfl
    · congr 1
      apply List.map_congr_left
      intro row hrow
      congr 1
      apply List.map_congr_left
      intro period _
      exact hbit sheet hsheet row.row (mem_flagRows hrow) period.col
  have hmember (sheet : SheetLayout × ℕ) (hsheet : sheet ∈ book.sheets.zipIdx) :
      memberOf book sheet = memberOf book' sheet := by
    funext axis
    unfold memberOf timelineSignature
    rw [hcasefold, hflags sheet.1 (List.fst_mem_of_mem_zipIdx hsheet)]
  have hlocated : located book = located book' := by
    unfold located
    rw [← hsheets]
    apply List.flatMap_congr
    intro sheet hsheet
    rw [hmember sheet hsheet]
  have haliases : aliases book = aliases book' := by
    unfold aliases
    rw [hlocated]
  have hlink : linkBlock book = linkBlock book' := by
    funext block
    unfold linkBlock
    have htimeline : timelineId book = timelineId book' := by
      funext id
      unfold timelineId
      rw [haliases]
    rw [htimeline]
  unfold linkWorkbookTimelines
  rw [hsheets, hlink]

theorem filter_readFlagCells (cells : List Cell) {sheets : List SheetLayout}
    (hsheets : (sheets.map (·.name)).Nodup) {sheet : SheetLayout} (hsheet : sheet ∈ sheets)
    {row : ℕ} (hrow : row ∈ flagRows sheet) (col : ℕ) :
    (readFlagCells cells sheets).filter (fun cell =>
        (cell.sheet, cell.row, cell.col) = (sheet.name, row, col)) =
      cells.filter fun cell => (cell.sheet, cell.row, cell.col) = (sheet.name, row, col) := by
  have hsame : (cells.filter fun cell =>
      cell.sheet = sheet.name && decide (cell.row ∈ flagRows sheet)).filter (fun cell =>
        (cell.sheet, cell.row, cell.col) = (sheet.name, row, col)) =
      cells.filter fun cell => (cell.sheet, cell.row, cell.col) = (sheet.name, row, col) := by
    rw [List.filter_filter]
    apply List.filter_congr
    intro cell _
    by_cases hplace : (cell.sheet, cell.row, cell.col) = (sheet.name, row, col)
    · obtain ⟨hname, hplace'⟩ := Prod.mk.inj hplace
      obtain ⟨hrow', -⟩ := Prod.mk.inj hplace'
      simp [hname, hrow', hrow]
    · simp [hplace]
  have hother {other : SheetLayout} (hne : other.name ≠ sheet.name) : (cells.filter fun cell =>
      cell.sheet = other.name && decide (cell.row ∈ flagRows other)).filter (fun cell =>
        (cell.sheet, cell.row, cell.col) = (sheet.name, row, col)) = [] := by
    refine List.filter_eq_nil_iff.mpr fun cell hcell hplace => hne ?_
    obtain ⟨hname, -⟩ := Bool.and_eq_true_iff.mp (List.mem_filter.mp hcell).2
    rw [← of_decide_eq_true hname]
    exact (Prod.mk.inj (of_decide_eq_true hplace)).1
  induction sheets with
  | nil => cases hsheet
  | cons first sheets ih =>
    obtain ⟨hfirst, hsheets⟩ := List.nodup_cons.mp hsheets
    rw [readFlagCells, List.flatMap_cons, List.filter_append]
    rcases List.mem_cons.mp hsheet with rfl | hmem
    · have hrest : (readFlagCells cells sheets).filter (fun cell =>
          (cell.sheet, cell.row, cell.col) = (sheet.name, row, col)) = [] := by
        rw [readFlagCells, List.filter_flatMap, List.flatMap_eq_nil_iff]
        intro other hmem
        exact hother fun heq => hfirst (List.mem_map.mpr ⟨other, hmem, heq⟩)
      rw [hsame]
      exact (congrArg _ hrest).trans (List.append_nil _)
    · have hne : first.name ≠ sheet.name :=
        fun heq => hfirst (List.mem_map.mpr ⟨sheet, hmem, heq.symm⟩)
      rw [hother hne, List.nil_append]
      exact ih hsheets hmem

theorem flagBit_readFlagCells (cells : List Cell) {sheets : List SheetLayout}
    (hsheets : (sheets.map (·.name)).Nodup) {sheet : SheetLayout} (hsheet : sheet ∈ sheets)
    {row : ℕ} (hrow : row ∈ flagRows sheet) (col : ℕ) :
    setup.flagBit (readFlagCells cells sheets) sheet.name row col =
      setup.flagBit cells sheet.name row col := by
  have hget : get (sheet.name, row, col) (filled ((readFlagCells cells sheets).map fun cell =>
      ((cell.sheet, cell.row, cell.col), cell))) =
        get (sheet.name, row, col) (filled (cells.map fun cell =>
          ((cell.sheet, cell.row, cell.col), cell))) := by
    rw [get_filled, get_filled, List.filter_map, List.filter_map]
    have hfilter := filter_readFlagCells cells hsheets hsheet hrow col
    simp only [Function.comp_def]
    rw [hfilter]
  unfold flagBit
  rw [hget]

theorem nodup_names_sheetsOf {groups : List (String × List LayoutCell)}
    (h : (groups.map Prod.fst).Nodup) : ((setup.sheetsOf groups).map (·.name)).Nodup := by
  have hnames : (setup.sheetsOf groups).map (·.name) = groups.map Prod.fst := by
    rw [sheetsOf, List.map_map]
    apply List.map_congr_left
    intro group _
    exact setup.name_sheetLayout _ _
  rw [hnames]
  exact h

end Flags

/-- The layout of the files of a book, read one sheet at a time, is the layout of its cells in
memory, however the file is cut into batches and whichever way the facts are read. No file of
the cells of a sheet is left. -/
theorem layout_of_files (book : BookFiles) (columnar : Bool)
    (hraw : ∀ file ∈ book.raw, Settled file) :
    setup.layoutFromFiles book = setup.layoutFromCells columnar book.batches.flatten book ∧
      (setup.loadLayout book).2.directory = [] := by
  refine ⟨?_, setup.directory_loadLayout book⟩
  rw [layoutFromCells_eq setup hraw]
  apply linkWorkbookTimelines_congr
  · exact (setup.sheetsOf_readySheets hraw).symm
  · rfl
  · intro sheet hsheet row hrow col
    have hnodup := setup.nodup_names_sheetsOf (setup.nodup_readySheets book)
    have hcells : (book.batches.flatten.map (setup.ready book)).map (·.cell) =
        book.batches.flatten := by
      rw [List.map_map]
      exact (List.map_congr_left fun cell _ => setup.cell_ready book cell).trans (List.map_id' _)
    dsimp only
    rw [setup.flagBit_readFlagCells _ hnodup hsheet hrow col, hcells]

end Setup

section Sample

def sampleCell (sheet : String) (row col : ℕ) (hrow : 1 ≤ row) (hcol : 1 ≤ col) : Cell :=
  { sheet, row, col, row_pos := hrow, col_pos := hcol, cachedValue := some "1" }

def sampleSetup : Setup where
  decimal := fun ch => if ch.isDigit then some (ch.toNat - 48) else none
  casefold := id
  bit := fun value _ => value = some "1"
  sheetLayout := fun name _ =>
    { name
      axes := [{ id := name, grain := some "year", headerRow := 1, periods := [] }]
      blocks := [{ blockId := name, labelCol := 1, axisIds := [name],
                   rows := [{ row := 2, label := "Flag", kind := .flag }] }] }
  name_sheetLayout := fun _ _ => rfl
  nodup_axes := fun _ _ => List.nodup_singleton _
  axes_apart := by
    intro name name' _ _ hne axis haxis axis' haxis'
    rw [List.mem_singleton.mp haxis, List.mem_singleton.mp haxis']
    exact hne

def sampleFiles : BookFiles where
  batches := [[sampleCell "A" 2 2 place_two place_two],
    [sampleCell "B" 2 2 place_two place_two, sampleCell "A" 2 3 place_two place_three]]
  raw := some
    { columns := parseFacts
      rows := [⟨"A", 2, 2, fun _ => some 1⟩]
      absent := fun _ _ key hkey => absurd (by cases key <;> decide) hkey }
  sheets := some [⟨"A", ["B2:C2"]⟩]

theorem settled_sample : ∀ file ∈ sampleFiles.raw, Settled file := by
  intro file hfile
  obtain rfl := Option.some.inj hfile
  exact .inl fun key hkey => hkey

theorem layout_of_files_sample :
    (sampleSetup.readySheets sampleFiles).map Prod.fst = ["A", "B"] ∧
      (sampleSetup.layoutFromFiles sampleFiles =
          sampleSetup.layoutFromCells true sampleFiles.batches.flatten sampleFiles ∧
        (sampleSetup.loadLayout sampleFiles).2.directory = []) :=
  ⟨by decide, sampleSetup.layout_of_files sampleFiles true settled_sample⟩

end Sample

end FinanceContext.LayoutGroups
