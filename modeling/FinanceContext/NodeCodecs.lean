import FinanceContext.RangeNodes
import FinanceContext.StrippedTexts

namespace FinanceContext

open Csr

section Quotes

variable {text : List Char}

theorem replaceQuotes_sublist (text : List Char) : (replaceQuotes text).Sublist text := by
  induction text using replaceQuotes.induct with
  | case1 rest ih => exact .cons_cons _ (.cons _ ih)
  | case2 ch rest _ ih =>
    rw [replaceQuotes]
    · exact .cons_cons _ ih
    · assumption
  | case3 => exact .slnil

theorem replaceQuotes_eq_self : replaceQuotes text = text ↔ ¬['\'', '\''] <:+: text := by
  induction text using replaceQuotes.induct with
  | case1 rest ih =>
    refine iff_of_false ?_ (not_not_intro ⟨[], rest, rfl⟩)
    intro h
    have hlen := (replaceQuotes_sublist rest).length_le
    have heq := congrArg List.length h
    simp only [replaceQuotes, List.length_cons] at heq
    omega
  | case2 ch rest hnot ih =>
    rw [replaceQuotes, List.cons.injEq, List.infix_cons_iff, not_or, ih]
    · have hprefix : ¬['\'', '\''] <+: ch :: rest := by
        rintro ⟨tail, htail⟩
        obtain ⟨rfl, hrest⟩ := List.cons.inj htail
        exact hnot tail rfl hrest.symm
      tauto
    · exact hnot
  | case3 => simp [replaceQuotes]

end Quotes

/-- A sheet name with no `!`, no doubled quote, and no blank or quote at an end. -/
structure PlainName (table : CharTable) (sheet : List Char) : Prop where
  nonempty : sheet ≠ []
  noBang : '!' ∉ sheet
  noBlank : (∀ ch ∈ sheet.head?, table.space ch = false) ∧
    ∀ ch ∈ sheet.getLast?, table.space ch = false
  noQuote : sheet.head? ≠ some '\'' ∧ sheet.getLast? ≠ some '\''
  noPair : ¬['\'', '\''] <:+: sheet

theorem bareSheet_eq_self {table : CharTable} {sheet : List Char} :
    bareSheet table sheet = sheet ↔
      ((∀ ch ∈ sheet.head?, table.space ch = false) ∧
        ∀ ch ∈ sheet.getLast?, table.space ch = false) ∧
      (sheet.head? ≠ some '\'' ∧ sheet.getLast? ≠ some '\'') ∧ ¬['\'', '\''] <:+: sheet := by
  have hquote : stripChars (· = '\'') sheet = sheet ↔
      sheet.head? ≠ some '\'' ∧ sheet.getLast? ≠ some '\'' := by
    rw [stripChars_eq_self]
    simp only [decide_eq_false_iff_not, Option.mem_def]
    have hends (o : Option Char) : (∀ ch, o = some ch → ¬ch = '\'') ↔ o ≠ some '\'' := by
      cases o <;> simp
    rw [hends, hends]
  rw [← stripChars_eq_self, ← hquote, ← replaceQuotes_eq_self]
  constructor
  · intro h
    unfold bareSheet at h
    have hblank := stripChars_sublist table.space sheet
    have hquotes := stripChars_sublist (· = '\'') (stripChars table.space sheet)
    have hpair := replaceQuotes_sublist (stripChars (· = '\'') (stripChars table.space sheet))
    have hlen := congrArg List.length h
    have hle₁ := hblank.length_le
    have hle₂ := hquotes.length_le
    have hle₃ := hpair.length_le
    have heq₁ := hblank.eq_of_length_le (by omega)
    rw [heq₁] at hquotes hpair hle₂ hle₃ hlen h
    have heq₂ := hquotes.eq_of_length_le (by omega)
    rw [heq₂] at h
    exact ⟨heq₁, heq₂, h⟩
  · rintro ⟨hblank, hquotes, hpair⟩
    rw [bareSheet, hblank, hquotes, hpair]

section Decoders

variable (table : CharTable)

/-- The cell that `split_sheet_ref` and `parse_addr` read from an id. -/
def splitCell (target : String) : Option (String × ℕ × ℕ) := do
  let (sheet, body) ← splitSheetRef target
  let (col, row) ← parseAddr table.decimal body.toList
  pure (sheet, col, row)

/-- `_target_cell`; `none` is its `ValueError`. -/
def targetCell (target : String) : Option (String × ℕ × ℕ) := do
  let (sheet, body) ← (splitSheetRef target).or
    ((rsplitBang target.toList).map fun (sheet, body) => (String.ofList sheet, String.ofList body))
  let (col, row) ← parseAddr table.decimal body.toList
  pure (sheet, col, row)

def readPacked (sheetIds : IdTable 0) (packed : ℕ) : Option (String × ℕ × ℕ) :=
  (sheetIds.entries.find? (·.2 = packed >>> (colBits + rowBits + kindBits))).map fun entry =>
    (entry.1, (packed >>> (rowBits + kindBits)) % 2 ^ colBits, (packed >>> kindBits) % 2 ^ rowBits)

/-- `_pack_cell`, read back. -/
def packAndRead (sheetIds : IdTable 0) (target : String) : Option (String × ℕ × ℕ) :=
  (packCell table.decimal target sheetIds).1.bind
    (readPacked (packCell table.decimal target sheetIds).2)

end Decoders

theorem splitFirst_bang {sheet body : List Char} (h : '!' ∉ sheet) :
    splitFirst ['!'] (sheet ++ '!' :: body) = some (sheet, body) := by
  induction sheet with
  | nil => simp [splitFirst, List.isPrefixOf]
  | cons ch sheet ih =>
    have hch : ch ≠ '!' := fun he => h (he ▸ List.mem_cons_self)
    have hrest := ih fun hmem => h (List.mem_cons_of_mem _ hmem)
    rw [List.cons_append, splitFirst, if_neg (by simpa [List.isPrefixOf] using hch.symm), hrest]
    rfl

theorem append_of_splitFirst {sep text before rest : List Char}
    (h : splitFirst sep text = some (before, rest)) : text = before ++ sep ++ rest := by
  induction text generalizing before with
  | nil =>
    unfold splitFirst at h
    split_ifs at h with hsep
    cases h
    rw [List.isEmpty_iff.mp hsep]
    rfl
  | cons ch text ih =>
    unfold splitFirst at h
    split_ifs at h with hsep
    · obtain ⟨rfl, rfl⟩ := Prod.mk.inj (Option.some.inj h)
      obtain ⟨tail, htail⟩ := List.isPrefixOf_iff_prefix.mp hsep
      rw [List.nil_append, ← htail, List.drop_left]
    · obtain ⟨⟨a, b⟩, hsplit, hpair⟩ := Option.map_eq_some_iff.mp h
      obtain ⟨rfl, rfl⟩ := Prod.mk.inj hpair
      rw [ih hsplit]
      rfl

theorem notMem_of_splitFirst {ch : Char} {text before rest : List Char}
    (h : splitFirst [ch] text = some (before, rest)) : ch ∉ before := by
  induction text generalizing before rest with
  | nil => cases h
  | cons c text ih =>
    unfold splitFirst at h
    split_ifs at h with hsep
    · obtain ⟨rfl, -⟩ := Prod.mk.inj (Option.some.inj h)
      exact List.not_mem_nil
    · obtain ⟨⟨a, b⟩, hsplit, hpair⟩ := Option.map_eq_some_iff.mp h
      obtain ⟨rfl, -⟩ := Prod.mk.inj hpair
      have hc : ch ≠ c := by simpa [List.isPrefixOf] using hsep
      rw [List.mem_cons, not_or]
      exact ⟨hc, ih hsplit⟩

section Cells

variable (table : CharTable) (sheet : String) (col row : ℕ)

theorem toList_nodeId (addr : String) :
    (nodeId sheet addr).toList = sheet.toList ++ '!' :: addr.toList := by simp [nodeId]

theorem rsplitBang_nodeId : rsplitBang (nodeId sheet (formatAddr col row)).toList =
    some (sheet.toList, (formatAddr col row).toList) := by
  rw [toList_nodeId, rsplitBang_append (bang_notMem_formatAddr col row)]

theorem head?_nodeId (addr : String) :
    (nodeId sheet addr).toList.head? = some '\'' ↔ sheet.toList.head? = some '\'' := by
  rw [toList_nodeId]
  cases sheet.toList <;> simp

variable {col row}

theorem splitSheetRef_nodeId (h : sheet.toList.head? ≠ some '\'') (hbang : '!' ∉ sheet.toList)
    (addr : String) : splitSheetRef (nodeId sheet addr) = some (sheet, addr) := by
  have hhead : ¬(nodeId sheet addr).toList.head? = some '\'' := by rwa [head?_nodeId]
  rw [splitSheetRef]
  simp only [if_neg hhead]
  rw [toList_nodeId, splitFirst_bang hbang]
  simp

theorem plain_of_splitSheetRef {addr body : String} (haddr : '\'' ∉ addr.toList)
    (h : splitSheetRef (nodeId sheet addr) = some (sheet, body)) :
    sheet.toList.head? ≠ some '\'' ∧ '!' ∉ sheet.toList := by
  rw [splitSheetRef] at h
  obtain ⟨⟨before, rest⟩, hsplit, hpair⟩ := Option.map_eq_some_iff.mp h
  have hsheet : before = sheet.toList := by
    rw [← (Prod.mk.inj hpair).1, String.toList_ofList]
  subst hsheet
  by_cases hhead : sheet.toList.head? = some '\''
  · rw [if_pos ((head?_nodeId sheet addr).mpr hhead)] at hsplit
    obtain ⟨⟨quoted, tail⟩, hfirst, hdrop⟩ := Option.map_eq_some_iff.mp hsplit
    have hname := append_of_splitFirst hfirst
    have hquoted : quoted.drop 1 = sheet.toList := (Prod.mk.inj hdrop).1
    cases quoted with
    | nil =>
      rw [← hquoted] at hhead
      cases hhead
    | cons ch quoted =>
      -- One more character stands before the separator than the name has.
      have hcut : quoted = sheet.toList := hquoted
      rw [toList_nodeId, hcut] at hname
      have hafter := congrArg (List.drop (sheet.toList.length + 1)) hname
      have hleft : (sheet.toList ++ '!' :: addr.toList).drop (sheet.toList.length + 1) =
          addr.toList := by simp [List.drop_append]
      have hright : (ch :: sheet.toList ++ ['\'', '!'] ++ tail).drop (sheet.toList.length + 1) =
          '\'' :: '!' :: tail := by simp
      rw [hleft, hright] at hafter
      exact absurd (hafter ▸ List.mem_cons_self) haddr
  · refine ⟨hhead, ?_⟩
    rw [if_neg (mt (head?_nodeId sheet addr).mp hhead)] at hsplit
    exact notMem_of_splitFirst hsplit

theorem quote_notMem_formatAddr : '\'' ∉ (formatAddr col row).toList :=
  fun h => mem_formatAddr_ne h (by decide) (by decide)

theorem splitCell_nodeId (hcol : 1 ≤ col) :
    splitCell table (nodeId sheet (formatAddr col row)) = some (sheet, col, row) ↔
      sheet.toList.head? ≠ some '\'' ∧ '!' ∉ sheet.toList := by
  constructor
  · intro h
    obtain ⟨⟨name, body⟩, hsplit, h⟩ := Option.bind_eq_some_iff.mp h
    obtain ⟨⟨c, r⟩, -, h⟩ := Option.bind_eq_some_iff.mp h
    obtain rfl := (Prod.mk.inj (Option.some.inj h)).1
    exact plain_of_splitSheetRef _ quote_notMem_formatAddr hsplit
  · rintro ⟨hhead, hbang⟩
    rw [splitCell, splitSheetRef_nodeId sheet hhead hbang]
    simp [parseAddr_formatAddr table row hcol]

theorem parseNodeId_eq_iff (hcol : 1 ≤ col) :
    parseNodeId table (nodeId sheet (formatAddr col row)) = some (sheet, col, row) ↔
      bareSheet table sheet.toList = sheet.toList ∧ sheet.toList ≠ [] := by
  have hcolon : ∀ ch ∈ (formatAddr col row).toList, decide (ch ≠ ':') = true := by
    intro ch hch
    have hne : ch ≠ ':' := fun he => mem_formatAddr_ne (he ▸ hch) (by decide) (by decide)
    simpa using hne
  have hdollar : ∀ ch ∈ (formatAddr col row).toList, decide (ch ≠ '$') = true := by
    intro ch hch
    have hne : ch ≠ '$' := fun he => mem_formatAddr_ne (he ▸ hch) (by decide) (by decide)
    simpa using hne
  have hread : parseNodeId table (nodeId sheet (formatAddr col row)) =
      if (bareSheet table sheet.toList).isEmpty then none
      else some (String.ofList (bareSheet table sheet.toList), col, row) := by
    rw [parseNodeId, rsplitBang_nodeId]
    simp only [Option.bind_eq_bind, Option.bind_some, List.takeWhile_eq_self_iff.mpr hcolon,
      List.filter_eq_self.mpr hdollar, parseAddr_formatAddr table row hcol]
    rfl
  rw [hread]
  constructor
  · intro h
    split_ifs at h with hempty
    obtain ⟨hname, -⟩ := Prod.mk.inj (Option.some.inj h)
    have hbare : bareSheet table sheet.toList = sheet.toList := by
      rw [← String.toList_inj, String.toList_ofList] at hname
      exact hname
    rw [hbare] at hempty
    exact ⟨hbare, by simpa using hempty⟩
  · rintro ⟨hbare, hne⟩
    rw [hbare, if_neg (by simpa using hne), String.ofList_toList]

/-- An id whose text opens with a quote and is not read as quoted is cut at the last `!`. -/
theorem targetCell_nodeId (hcol : 1 ≤ col) :
    targetCell table (nodeId sheet (formatAddr col row)) = some (sheet, col, row) ↔
      (splitSheetRef (nodeId sheet (formatAddr col row)) = none ∨
        sheet.toList.head? ≠ some '\'' ∧ '!' ∉ sheet.toList) := by
  unfold targetCell
  rw [rsplitBang_nodeId]
  simp only [Option.map_some, String.ofList_toList]
  cases hsplit : splitSheetRef (nodeId sheet (formatAddr col row)) with
  | none => simp [parseAddr_formatAddr table row hcol]
  | some parts =>
    have hcell : splitCell table (nodeId sheet (formatAddr col row)) = some (sheet, col, row) ↔
        sheet.toList.head? ≠ some '\'' ∧ '!' ∉ sheet.toList := splitCell_nodeId table sheet hcol
    simp only [splitCell, hsplit] at hcell
    simpa using hcell

theorem cellOf_nodeId (hcol : 1 ≤ col ∧ col ≤ 16384) (hrow : 1 ≤ row ∧ row ≤ 1048576) :
    cellOf table.decimal (nodeId sheet (formatAddr col row)) = some (sheet, col, row) := by
  have hcolon : ':' ∉ (formatAddr col row).toList :=
    fun h => mem_formatAddr_ne h (by decide) (by decide)
  have hdollar : '$' ∉ (formatAddr col row).toList :=
    fun h => mem_formatAddr_ne h (by decide) (by decide)
  have hbits : 1 ≤ col ∧ col < 1 <<< colBits ∧ 1 ≤ row ∧ row < 1 <<< rowBits := by
    rw [Nat.one_shiftLeft, Nat.one_shiftLeft, colBits, rowBits]
    omega
  rw [cellOf, rsplitBang_nodeId]
  simp only [Option.bind_eq_bind, Option.bind_some]
  rw [if_neg (by simp [hcolon, hdollar]), parseAddr_formatAddr table row hcol.1]
  simp [hbits]

theorem readPacked_packedCell {sheetIds : IdTable 0} {sheet : String} {sheetId col row : ℕ}
    (hsheet : sheetIds.find sheet = some sheetId) (hcol : col < 1 <<< colBits)
    (hrow : row < 1 <<< rowBits) :
    readPacked sheetIds (packedCell sheetId col row) = some (sheet, col, row) := by
  have hfields : packedCell sheetId col row ||| 0 =
      ((sheetId * 2 ^ colBits + col) * 2 ^ rowBits + row) * 2 ^ kindBits + 0 :=
    packed_eq hcol hrow (by decide)
  rw [Nat.or_zero, Nat.add_zero] at hfields
  rw [Nat.one_shiftLeft] at hcol hrow
  simp only [colBits, rowBits, kindBits] at hfields hcol hrow
  have hid : packedCell sheetId col row >>> (colBits + rowBits + kindBits) = sheetId := by
    rw [Nat.shiftRight_eq_div_pow, colBits, rowBits, kindBits]
    omega
  have hcols : (packedCell sheetId col row >>> (rowBits + kindBits)) % 2 ^ colBits = col := by
    rw [Nat.shiftRight_eq_div_pow, colBits, rowBits, kindBits]
    omega
  have hrows : (packedCell sheetId col row >>> kindBits) % 2 ^ rowBits = row := by
    rw [Nat.shiftRight_eq_div_pow, rowBits, kindBits]
    omega
  have hentry : sheetIds.entries.find? (·.2 = sheetId) = some (sheet, sheetId) := by
    have hmem := Dictionaries.mem_of_get hsheet
    have hfound : (sheetIds.entries.find? (·.2 = sheetId)).isSome := by
      rw [List.find?_isSome]
      exact ⟨_, hmem, by simp⟩
    obtain ⟨entry, hentry⟩ := Option.isSome_iff_exists.mp hfound
    have hid : entry.2 = sheetId := by simpa using List.find?_some hentry
    have hnodup : (sheetIds.entries.map Prod.snd).Nodup := by
      rw [sheetIds.numbered]
      exact List.nodup_range'
    rw [hentry, List.inj_on_of_nodup_map hnodup (List.mem_of_find?_eq_some hentry) hmem hid]
  rw [readPacked, hid, hcols, hrows, hentry]
  rfl

theorem packAndRead_nodeId (sheetIds : IdTable 0) (hcol : 1 ≤ col ∧ col ≤ 16384)
    (hrow : 1 ≤ row ∧ row ≤ 1048576) :
    packAndRead table sheetIds (nodeId sheet (formatAddr col row)) = some (sheet, col, row) := by
  have hcell := cellOf_nodeId table sheet hcol hrow
  simp only [packAndRead, packCell, hcell, Option.bind_some]
  apply readPacked_packedCell (sheetIds.find_assign_self sheet)
  · rw [Nat.one_shiftLeft, colBits]
    omega
  · rw [Nat.one_shiftLeft, rowBits]
    omega

/-- All decoders give back the cell exactly when the name is plain. -/
theorem codecs_agree_iff (sheetIds : IdTable 0) (hcol : 1 ≤ col ∧ col ≤ 16384)
    (hrow : 1 ≤ row ∧ row ≤ 1048576) :
    (splitCell table (nodeId sheet (formatAddr col row)) = some (sheet, col, row) ∧
      parseNodeId table (nodeId sheet (formatAddr col row)) = some (sheet, col, row) ∧
      packAndRead table sheetIds (nodeId sheet (formatAddr col row)) = some (sheet, col, row) ∧
      targetCell table (nodeId sheet (formatAddr col row)) = some (sheet, col, row)) ↔
      PlainName table sheet.toList := by
  rw [splitCell_nodeId table sheet hcol.1, parseNodeId_eq_iff table sheet hcol.1,
    targetCell_nodeId table sheet hcol.1, bareSheet_eq_self]
  constructor
  · rintro ⟨⟨-, hbang⟩, ⟨⟨hblank, hquote, hpair⟩, hne⟩, -, -⟩
    exact ⟨hne, hbang, hblank, hquote, hpair⟩
  · intro h
    exact ⟨⟨h.noQuote.1, h.noBang⟩, ⟨⟨h.noBlank, h.noQuote, h.noPair⟩, h.nonempty⟩,
      packAndRead_nodeId table sheet sheetIds hcol hrow, .inr ⟨h.noQuote.1, h.noBang⟩⟩

end Cells

theorem codecs_agree_plain :
    splitCell asciiTable "P&L 2024!B7" = some ("P&L 2024", 2, 7) ∧
      targetCell asciiTable "P&L 2024!B7" = some ("P&L 2024", 2, 7) := by
  have hhead : "P&L 2024".toList.head? = some 'P' := by decide
  have hlast : "P&L 2024".toList.getLast? = some '4' := by decide
  have hplain : PlainName asciiTable "P&L 2024".toList := by
    refine ⟨by decide, by decide, ?_, by decide, by decide⟩
    rw [hhead, hlast]
    simp only [Option.mem_some_iff, forall_eq']
    decide
  have hid : "P&L 2024!B7" = nodeId "P&L 2024" (formatAddr 2 7) := by decide +kernel
  obtain ⟨hsplit, -, -, htarget⟩ := (codecs_agree_iff asciiTable "P&L 2024" .empty
    (by decide : 1 ≤ 2 ∧ 2 ≤ 16384) (by decide : 1 ≤ 7 ∧ 7 ≤ 1048576)).mpr hplain
  rw [hid]
  exact ⟨hsplit, htarget⟩

/-- The first cell of a sheet named `x!A1`, and one of a sheet named ` x`. -/
theorem codecs_disagree :
    splitCell asciiTable (nodeId "x!A1" (formatAddr 1 1)) ≠ some ("x!A1", 1, 1) ∧
      parseNodeId asciiTable (nodeId "x!A1" (formatAddr 1 1)) = some ("x!A1", 1, 1) ∧
      splitCell asciiTable (nodeId " x" (formatAddr 1 1)) = some (" x", 1, 1) ∧
      parseNodeId asciiTable (nodeId " x" (formatAddr 1 1)) = some ("x", 1, 1) := by
  refine ⟨?_, ?_, ?_, ?_⟩ <;> decide +kernel

end FinanceContext
