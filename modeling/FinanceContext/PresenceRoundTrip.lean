import FinanceContext.PresenceIndex
import FinanceContext.RangeNodes

namespace FinanceContext.Sheets

open Csr

section Ids

variable (table : CharTable)

/-- The sheet the target decoder reads from the ids of a sheet's cells. -/
def idSheet (sheet : String) : Option String :=
  if sheet.toList.head? = some '\'' then
    match splitFirst ['\'', '!'] (sheet.toList ++ ['!']) with
    | none => some sheet
    | some (before, []) => some (String.ofList (before.drop 1))
    | some (_, _ :: _) => none
  else if '!' ∈ sheet.toList then none else some sheet

theorem splitFirst_quote_none {chars : List Char} (h : '\'' ∉ chars) :
    splitFirst ['\'', '!'] chars = none := by
  induction chars with
  | nil => rfl
  | cons ch chars ih =>
    obtain ⟨hch, hchars⟩ := not_or.mp (mt List.mem_cons.mpr h)
    have hstep : ¬['\'', '!'].isPrefixOf (ch :: chars) = true := by
      simp [List.isPrefixOf, hch]
    rw [splitFirst, if_neg hstep, ih hchars, Option.map_none]

/-- The first `'!` of an id stands in its sheet and the `!` behind it. -/
theorem splitFirst_quoted (sheet : List Char) {addr : List Char} (haddr : '\'' ∉ addr) :
    splitFirst ['\'', '!'] (sheet ++ '!' :: addr) =
      (splitFirst ['\'', '!'] (sheet ++ ['!'])).map fun (before, rest) =>
        (before, rest ++ addr) := by
  induction sheet with
  | nil => rw [List.nil_append, List.nil_append, splitFirst_quote_none (by simp [haddr])]; rfl
  | cons ch sheet ih =>
    have hprefix : ['\'', '!'].isPrefixOf (ch :: (sheet ++ '!' :: addr)) =
        ['\'', '!'].isPrefixOf (ch :: (sheet ++ ['!'])) := by
      cases sheet <;> simp [List.isPrefixOf]
    rw [List.cons_append, List.cons_append, splitFirst, splitFirst, hprefix, ih]
    split_ifs with hstep
    · cases sheet <;> simp
    · rw [Option.map_map, Option.map_map]
      rfl

theorem bang_notMem_of_parseAddr {addr : List Char} {cell : ℕ × ℕ}
    (h : parseAddr table.decimal addr = some cell) : '!' ∉ addr := by
  intro hmem
  unfold parseAddr at h
  dsimp only at h
  split_ifs at h
  split at h
  · rename_i row hrow
    have hrest : '!' ∈ (skipDollar addr).dropWhile Char.isAlpha :=
      mem_dropWhile_of_not (by decide) (mem_skipDollar (by decide) hmem)
    have hlast := leaves_takeRow (by decide) (table.decimal_ascii '!' (by decide)) _ _ _ hrow hrest
    cases hlast
  · cases h

theorem parseAddr_of_bang {addr : List Char} (h : '!' ∈ addr) :
    parseAddr table.decimal addr = none := by
  cases hparse : parseAddr table.decimal addr with
  | none => rfl
  | some cell => exact absurd h (bang_notMem_of_parseAddr table hparse)

theorem targetCell_nodeId_eq (sheet : String) {col : ℕ} (row : ℕ) (hcol : 1 ≤ col) :
    targetCell table (nodeId sheet (formatAddr col row)) =
      (idSheet sheet).map fun name => (name, col, row) := by
  have hparse := parseAddr_formatAddr table row hcol
  have hquote : '\'' ∉ (formatAddr col row).toList := quote_notMem_formatAddr
  have hstart := head?_nodeId sheet (formatAddr col row)
  unfold targetCell idSheet
  rw [rsplitBang_nodeId, splitSheetRef]
  simp only [hstart]
  rw [toList_nodeId]
  split_ifs with hhead hbang
  · rw [splitFirst_quoted _ hquote]
    rcases hsplit : splitFirst ['\'', '!'] (sheet.toList ++ ['!']) with - | ⟨before, - | ⟨ch, rest⟩⟩
    · simp [hparse]
    · simp [hparse]
    · -- what follows a `'!` inside the name ends with the `!` of the id
      have hname := congrArg List.getLast? (append_of_splitFirst hsplit)
      have hlast : (ch :: rest).getLast? = some '!' := by
        simpa [List.getLast?_append] using hname.symm
      have hmem : '!' ∈ ch :: rest := List.mem_of_getLast? hlast
      have hnone := parseAddr_of_bang table
        (List.mem_append_left (formatAddr col row).toList hmem)
      rw [List.cons_append] at hnone
      simp [hnone]
  · obtain ⟨before, rest, hname, hbefore⟩ := List.eq_append_cons_of_mem hbang
    rw [hname, List.append_assoc, List.cons_append, splitFirst_bang hbefore]
    have hnone := parseAddr_of_bang table
      (List.mem_append_right rest (@List.mem_cons_self _ '!' (formatAddr col row).toList))
    simp [hnone]
  · rw [splitFirst_bang hbang]
    simp [hparse]

end Ids

section Book

def bookPresence (sheets : List (String × List SeenCell)) : List PresenceRow :=
  sheets.flatMap fun sheet => (sheetPresence sheet.2).map fun row =>
    ⟨sheet.1, row.addr, row.presence, some row.rowEnd⟩

def BookSeen (sheets : List (String × List SeenCell)) (kind : PresenceKind) (sheet : String)
    (col row : ℕ) : Prop :=
  ∃ s ∈ sheets, s.1 = sheet ∧ SeenAs kind col row s.2

instance (sheets : List (String × List SeenCell)) (kind : PresenceKind) (sheet : String)
    (col row : ℕ) : Decidable (BookSeen sheets kind sheet col row) :=
  inferInstanceAs (Decidable (∃ s ∈ sheets, s.1 = sheet ∧ SeenAs kind col row s.2))

/-- Populated for a cell ever populated, blank for a cell seen only as blank. -/
def presenceOf (sheets : List (String × List SeenCell)) (sheet : String) (col row : ℕ) :
    Option PresenceKind :=
  if BookSeen sheets .populated sheet col row then some .populated
  else if BookSeen sheets .styledBlank sheet col row then some .styledBlank
  else none

variable {table : CharTable}

theorem names_bookPresence (sheets : List (String × List SeenCell)) (kind : PresenceKind)
    (sheet : String) (col x : ℕ) :
    (∃ row ∈ bookPresence sheets, row.Names table kind sheet col x) ↔
      BookSeen sheets kind sheet col x := by
  simp only [bookPresence, List.mem_flatMap, BookSeen]
  constructor
  · rintro ⟨row, ⟨s, hs, hrow⟩, hnames⟩
    obtain ⟨r, hr, rfl⟩ := List.mem_map.mp hrow
    obtain ⟨hkind, hsheet, hstands⟩ := hnames
    exact ⟨s, hs, hsheet, (shown_sheetPresence s.2 kind col x).mp ⟨r, hr, hkind, hstands⟩⟩
  · rintro ⟨s, hs, hsheet, hseen⟩
    obtain ⟨r, hr, hkind, hstands⟩ := (@shown_sheetPresence table s.2 kind col x).mpr hseen
    exact ⟨_, ⟨s, hs, List.mem_map_of_mem hr⟩, hkind, hsheet, hstands⟩

theorem properRows_bookPresence (sheets : List (String × List SeenCell)) :
    ProperRows table (bookPresence sheets) := by
  intro row hrow col start hparse
  obtain ⟨s, -, hrow⟩ := List.mem_flatMap.mp hrow
  obtain ⟨r, hr, rfl⟩ := List.mem_map.mp hrow
  exact proper_sheetPresence s.2 r hr col start hparse

theorem get_loadPresence (sheets : List (String × List SeenCell)) (target : String) :
    (loadPresence table (bookPresence sheets)).get table target =
      (targetCell table target).bind fun (sheet, col, row) => presenceOf sheets sheet col row := by
  have h := loaded_foldl (@properRows_bookPresence table sheets)
  unfold PresenceIndex.get loadPresence
  rcases targetCell table target with - | ⟨sheet, col, row⟩
  · rfl
  · simp only [h.valuesOk.closeRuns, h.blanksOk.closeRuns, h.values, h.blanks,
      names_bookPresence, Option.bind_some, presenceOf]

def parsedPresence (book : BookParts) (sheets : List (String × Worksheet)) : List PresenceRow :=
  sheets.flatMap fun sheet => (parseSheet book sheet.2).presence.map fun row =>
    ⟨sheet.1, row.addr, row.presence, some row.rowEnd⟩

theorem parsedPresence_eq (book : BookParts) (sheets : List (String × Worksheet)) :
    parsedPresence book sheets =
      bookPresence (sheets.map fun sheet => (sheet.1, seenCells book sheet.2)) := by
  simp only [parsedPresence, parseSheet_presence, bookPresence, List.flatMap_map]

theorem get_loadPresence_parsed (book : BookParts) (sheets : List (String × Worksheet))
    (target : String) :
    (loadPresence table (parsedPresence book sheets)).get table target =
      (targetCell table target).bind fun (sheet, col, row) =>
        presenceOf (sheets.map fun sheet => (sheet.1, seenCells book sheet.2)) sheet col row := by
  rw [parsedPresence_eq, get_loadPresence]

structure Place where
  sheet : String
  col : ℕ
  row : ℕ
  colPos : 1 ≤ col

def Place.id (place : Place) : String := nodeId place.sheet (formatAddr place.col place.row)

/-- The id of a cell is read as that cell, or the misreading makes no difference: a cell read as
none was never seen, a cell read as one of another sheet has the presence of that one. -/
def ReadAs (sheets : List (String × List SeenCell)) (place : Place) : Prop :=
  match idSheet place.sheet with
  | none => ∀ kind, ¬BookSeen sheets kind place.sheet place.col place.row
  | some name => name = place.sheet ∨ presenceOf sheets name place.col place.row =
      presenceOf sheets place.sheet place.col place.row

theorem presenceOf_eq_none {sheets : List (String × List SeenCell)} {sheet : String}
    {col row : ℕ} : presenceOf sheets sheet col row = none ↔
      ∀ kind, ¬BookSeen sheets kind sheet col row := by
  unfold presenceOf
  split_ifs with hvalue hblank
  · exact iff_of_false (by simp) fun h => h _ hvalue
  · exact iff_of_false (by simp) fun h => h _ hblank
  · refine iff_of_true rfl fun kind => ?_
    cases kind with
    | populated => exact hvalue
    | styledBlank => exact hblank

/-- Written and read back, the presence index gives a cell its presence when its id is read. -/
theorem presence_round_trip_iff (table : CharTable) (sheets : List (String × List SeenCell))
    (place : Place) :
    (loadPresence table (bookPresence sheets)).get table place.id =
        presenceOf sheets place.sheet place.col place.row ↔
      ReadAs sheets place := by
  rw [get_loadPresence, Place.id, targetCell_nodeId_eq table _ _ place.colPos]
  unfold ReadAs
  cases hname : idSheet place.sheet with
  | none =>
    rw [← presenceOf_eq_none]
    exact eq_comm
  | some name =>
    constructor
    · exact .inr
    · rintro (rfl | hsame)
      · rfl
      · exact hsame

/-- A populated cell of a sheet named `A!B` is not found under its id. -/
theorem bang_sheet_not_found :
    presenceOf [("A!B", [⟨1, 1, .populated, le_rfl⟩])] "A!B" 1 1 = some .populated ∧
      (loadPresence asciiTable (bookPresence [("A!B", [⟨1, 1, .populated, le_rfl⟩])])).get
        asciiTable "A!B!A1" = none := by
  decide

end Book

end FinanceContext.Sheets
