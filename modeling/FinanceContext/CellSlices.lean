import FinanceContext.ContextBuild

namespace FinanceContext

open Dictionaries

/-- The second map gives for this row what the first does, less what stays on disk. -/
def RowKept (cells kept : CellMap) (sheet : String) (row : ℕ) : Prop :=
  ∀ col, cellAt kept sheet row col = (cellAt cells sheet row col).map Cell.built

section

variable {text : ContextText} {cells kept : CellMap} {sheet : String} {row : ℕ}

theorem bind_kept {β : Type} (h : RowKept cells kept sheet row) (f : Cell → Option β)
    (hf : ∀ cell, f cell.built = f cell) (col : ℕ) :
    (cellAt kept sheet row col).bind f = (cellAt cells sheet row col).bind f := by
  rw [h col]
  cases cellAt cells sheet row col with
  | none => rfl
  | some cell => exact hf cell

theorem formulaTemplateAt_kept (h : RowKept cells kept sheet row) :
    formulaTemplateAt kept sheet row = formulaTemplateAt cells sheet row :=
  funext (bind_kept h _ fun _ => rfl)

theorem cachedAt_kept (h : RowKept cells kept sheet row) :
    cachedAt kept sheet row = cachedAt cells sheet row :=
  funext (bind_kept h _ fun _ => rfl)

theorem seriesText_kept (h : RowKept cells kept sheet row) :
    text.seriesText kept sheet row = text.seriesText cells sheet row := by
  funext col
  exact congrArg _ (bind_kept h text.shownText (fun _ => rfl) col)

theorem rowNumberFormats_kept (h : RowKept cells kept sheet row) (headers : List AxisHeader) :
    rowNumberFormats kept sheet row headers = rowNumberFormats cells sheet row headers := by
  unfold rowNumberFormats
  congr 1
  funext header
  exact bind_kept h _ (fun _ => rfl) header.col

theorem rowFormulaAndNumbers_kept (h : RowKept cells kept sheet row) (headers : List AxisHeader) :
    text.rowFormulaAndNumbers kept sheet row headers =
      text.rowFormulaAndNumbers cells sheet row headers := by
  simp only [ContextText.rowFormulaAndNumbers, formulaTemplateAt_kept h, cachedAt_kept h]

theorem flagOn_kept (h : RowKept cells kept sheet row) (col : ℕ) :
    text.flagOn kept sheet row col = text.flagOn cells sheet row col := by
  unfold ContextText.flagOn
  rw [h col]
  cases cellAt cells sheet row col with
  | none => rfl
  | some cell => rfl

end

section

variable {text : ContextText} {cells kept : CellMap} {sheet : String} {row : LayoutRow}

theorem seriesNumbers_kept (h : RowKept cells kept sheet row.row)
    (headers valueHeaders : List AxisHeader) (factor : Option ℕ) :
    text.seriesNumbers kept sheet row headers valueHeaders factor =
      text.seriesNumbers cells sheet row headers valueHeaders factor := by
  have hentry (cols : List ℕ) : text.seriesEntry kept sheet row cols =
      text.seriesEntry cells sheet row cols := by
    funext header
    simp only [ContextText.seriesEntry, seriesText_kept h]
  simp only [ContextText.seriesNumbers, hentry]

theorem roleCells_kept (h : RowKept cells kept sheet row.row) :
    text.roleCells kept sheet row = text.roleCells cells sheet row := by
  unfold ContextText.roleCells
  congr 1
  funext item
  have hshown := bind_kept h text.shownText (fun _ => rfl) item.col
  have hhidden : (cellAt kept sheet row.row item.col).any (·.hidden) =
      (cellAt cells sheet row.row item.col).any (·.hidden) := by
    rw [h item.col]
    cases cellAt cells sheet row.row item.col with
    | none => rfl
    | some cell => rfl
  simp only [ContextText.roleCell, hshown, hhidden]

end

/-- The two builds see a row of a block alike. -/
structure SameRow (reads reads' : RowReads) (sheet : String) (row : ℕ) : Prop where
  kept : RowKept reads.cells reads'.cells sheet row
  switch : row ∈ reads'.switches ↔ row ∈ reads.switches
  neighbors : reads'.neighbors = reads.neighbors
  ranges : reads'.neighborRanges = reads.neighborRanges

section

variable {text : ContextText} {reads reads' : RowReads} {sheet : SheetLayout} {block : Block}

theorem blockRow_same {row : LayoutRow} (h : SameRow reads reads' sheet.name row.row)
    (running : Option String) :
    text.blockRow reads' sheet block running row = text.blockRow reads sheet block running row := by
  have hseries (factor : Option ℕ) : text.rowSeries reads' sheet.name row factor =
      text.rowSeries reads sheet.name row factor := by
    funext view
    simp only [ContextText.rowSeries, h.switch, rowFormulaAndNumbers_kept h.kept,
      seriesNumbers_kept h.kept]
  simp only [ContextText.blockRow, roleCells_kept h.kept, rowNumberFormats_kept h.kept, hseries,
    h.neighbors, h.ranges]

theorem blockRows_same {rows : List LayoutRow} {unit : Option String}
    (h : ∀ row ∈ rows, SameRow reads reads' sheet.name row.row) (running : RunningUnit) :
    text.blockRows reads' sheet block unit running rows =
      text.blockRows reads sheet block unit running rows := by
  induction rows generalizing running with
  | nil => rfl
  | cons row rows ih =>
    have hrow := h row List.mem_cons_self
    have hrest := ih fun next hnext => h next (List.mem_cons_of_mem _ hnext)
    simp only [ContextText.blockRows, blockRow_same hrow, hrest]

end

theorem cellAt_byAddr (cells : List Cell) (sheet : String) (row col : ℕ) :
    cellAt (byAddr cells) sheet row col =
      (cells.filter (·.key = (sheet, row, col))).getLast? := by
  rw [cellAt, byAddr, get_filled, List.filter_map, List.getLast?_map, Option.map_map]
  have hsnd : Prod.snd ∘ (fun cell : Cell => (cell.key, cell)) = id := rfl
  rw [hsnd, Option.map_id]
  rfl

theorem cellAt_loadSheetRows (file : CellsFile) (sheet : String) {rows : List ℕ} {row : ℕ}
    (h : row ∈ rows) (col : ℕ) :
    cellAt (loadSheetRows file sheet rows) sheet row col =
      (cellAt (byAddr file.cells) sheet row col).map Cell.built := by
  have hkey : (fun cell : Cell => decide (cell.key = (sheet, row, col))) ∘ Cell.built =
      fun cell => decide (cell.key = (sheet, row, col)) := rfl
  rw [loadSheetRows, cellAt_byAddr, cellAt_byAddr, List.filter_map, List.getLast?_map, hkey,
    List.filter_filter]
  congr 2
  apply List.filter_congr
  intro cell _
  by_cases hcell : cell.key = (sheet, row, col)
  · obtain ⟨hs, hr, -⟩ : cell.sheet = sheet ∧ cell.row = row ∧ cell.col = col := by
      simpa [Cell.key] using hcell
    simp [hcell, hs, hr, h]
  · simp [hcell]

theorem cellAt_memoryLoad (cells : List Cell) {sheet : String} {rows : List ℕ} {row : ℕ}
    (h : row ∈ rows) (col : ℕ) :
    cellAt ((byAddr cells).filter fun p => p.1.1 = sheet ∧ p.1.2.1 ∈ rows) sheet row col =
      cellAt (byAddr cells) sheet row col := by
  have hget := get_filter (fun key : String × ℕ × ℕ => decide (key.1 = sheet ∧ key.2.1 ∈ rows))
    (sheet, row, col) (byAddr cells)
  simpa [cellAt, h] using hget

theorem rowKept_load (file : CellsFile) {sheet : String} {rows : List ℕ} {row : ℕ}
    (h : row ∈ rows) :
    RowKept ((byAddr file.cells).filter fun p => p.1.1 = sheet ∧ p.1.2.1 ∈ rows)
      (loadSheetRows file sheet rows) sheet row := by
  intro col
  rw [cellAt_loadSheetRows file _ h, cellAt_memoryLoad _ h]

theorem mem_loadSheetRows {file : CellsFile} {sheet : String} {rows : List ℕ}
    {key : String × ℕ × ℕ} {cell : Cell} (h : (key, cell) ∈ loadSheetRows file sheet rows) :
    key.1 = sheet ∧ 1 ≤ key.2.1 ∧ cellAt (loadSheetRows file sheet rows) key.1 key.2.1 key.2.2 =
      some cell := by
  have hget : cellAt (loadSheetRows file sheet rows) key.1 key.2.1 key.2.2 = some cell :=
    get_of_mem (nodup_keys_filled _) h
  have hlast := hget
  rw [loadSheetRows, cellAt_byAddr] at hlast
  obtain ⟨hin, hkey⟩ := List.mem_filter.mp (List.mem_of_getLast? hlast)
  obtain ⟨stored, hstored, rfl⟩ := List.mem_map.mp hin
  have hsheet := (of_decide_eq_true (List.mem_filter.mp hstored).2).1
  have hkeys : stored.key = key := of_decide_eq_true hkey
  subst hkeys
  exact ⟨hsheet, stored.row_pos, hget⟩

theorem mem_axisCellRows {layout : Layout} {sheet : SheetLayout} (hsheet : sheet ∈ layout.sheets)
    {row : ℕ} (h : row ∈ sheet.axisRows) :
    ∃ rows, (sheet.name, rows) ∈ layout.axisCellRows ∧ row ∈ rows := by
  have hrow : row ∈ (layout.sheets.filter (·.name = sheet.name)).flatMap (·.axisRows) :=
    List.mem_flatMap.mpr ⟨sheet, List.mem_filter.mpr ⟨hsheet, decide_eq_true rfl⟩, h⟩
  refine ⟨_, List.mem_filter.mpr ⟨List.mem_map.mpr ⟨sheet.name, ?_, rfl⟩, ?_⟩, hrow⟩
  · exact List.mem_dedup.mpr (List.mem_map_of_mem hsheet)
  · exact decide_eq_true (List.ne_nil_of_mem hrow)

theorem axisCellRows_unique {layout : Layout} {name : String} {rows rows' : List ℕ}
    (h : (name, rows) ∈ layout.axisCellRows) (h' : (name, rows') ∈ layout.axisCellRows) :
    rows = rows' := by
  obtain ⟨n, -, hn⟩ := List.mem_map.mp (List.mem_filter.mp h).1
  obtain ⟨n', -, hn'⟩ := List.mem_map.mp (List.mem_filter.mp h').1
  obtain ⟨rfl, rfl⟩ := Prod.mk.inj hn
  obtain ⟨rfl, rfl⟩ := Prod.mk.inj hn'
  rfl

section

variable {text : ContextText} {input : BuildInput} {file : CellsFile} {sheet : SheetLayout}

variable (text file) in
theorem rowKept_headers (hsheet : sheet ∈ input.layout.sheets) {row : ℕ}
    (h : row ∈ sheet.axisRows ∨ row = 0) :
    RowKept (memoryReads text input file.cells).headers (fileReads text input file).headers
      sheet.name row := by
  intro col
  apply get_filled_of_forall
  intro cell
  rw [List.mem_flatMap]
  rcases h with h | rfl
  · obtain ⟨rows, hrows, hrow⟩ := mem_axisCellRows hsheet h
    have hload := cellAt_loadSheetRows file sheet.name hrow col
    constructor
    · rintro ⟨p, hp, hmem⟩
      obtain ⟨hname, -, hget⟩ := mem_loadSheetRows hmem
      obtain ⟨name, rows'⟩ := p
      obtain rfl : sheet.name = name := hname
      obtain rfl := axisCellRows_unique hrows hp
      exact hload.symm.trans hget
    · intro hcell
      exact ⟨_, hrows, mem_of_get (hload.trans hcell)⟩
  · constructor
    · rintro ⟨p, -, hmem⟩
      exact absurd (mem_loadSheetRows hmem).2.1 (by simp)
    · intro hcell
      obtain ⟨stored, hstored, -⟩ := Option.map_eq_some_iff.mp hcell
      have hlast : cellAt (byAddr file.cells) sheet.name 0 col = some stored := hstored
      rw [cellAt_byAddr] at hlast
      have hkey := of_decide_eq_true (List.mem_filter.mp (List.mem_of_getLast? hlast)).2
      have hzero : stored.row = 0 := congrArg (·.2.1) hkey
      have := stored.row_pos
      omega

theorem axisRows_of_unitRows {block : Block} (hblock : block ∈ sheet.blocks) {row : ℕ}
    (h : row ∈ unitRows sheet block) : row ∈ sheet.axisRows ∨ row = 0 := by
  by_cases hzero : row = 0
  · exact .inr hzero
  left
  apply List.mem_append_left
  refine List.mem_filter.mpr ⟨?_, decide_eq_true hzero⟩
  have hembedded (axis : Axis) (haxis : block.axis = some axis) (hrow : axis.row = row) :
      row ∈ sheet.axes.map (·.headerRow) ++ sheet.blocks.flatMap fun block =>
        block.axis.toList.map (·.row) := by
    apply List.mem_append_right
    exact List.mem_flatMap.mpr ⟨block, hblock, by simp [haxis, hrow]⟩
  rcases List.mem_append.mp h with h | h
  · obtain ⟨axis, haxis, rfl⟩ := List.mem_map.mp h
    unfold axesFor at haxis
    split at haxis
    · cases haxis
    · simp only at haxis
      split_ifs at haxis with hpicked
      · obtain ⟨id, -, hid⟩ := List.mem_filterMap.mp haxis
        have hmem := (List.mem_filter.mp (List.mem_of_getLast? hid)).1
        exact List.mem_append_left _ (List.mem_map_of_mem hmem)
      · obtain ⟨embedded, hin, rfl⟩ := List.mem_map.mp haxis
        exact hembedded embedded (Option.mem_toList.mp hin) rfl
  · obtain ⟨axis, haxis, rfl⟩ := List.mem_map.mp h
    exact hembedded axis (Option.mem_toList.mp haxis) rfl

theorem axisRows_of_flag {axis : TimeAxis} {row : LayoutRow} (h : row ∈ sheet.flagRows axis) :
    row.row ∈ sheet.axisRows := by
  obtain ⟨block, hblock, hrow⟩ := List.mem_flatMap.mp h
  split_ifs at hrow
  · apply List.mem_append_right
    exact List.mem_flatMap.mpr ⟨block, hblock, List.mem_map_of_mem hrow⟩
  · cases hrow

end

theorem insertionSort_head {l : List (ℕ × String)} {a : ℕ × String}
    (h : (l.insertionSort fun a b => a.1 ≤ b.1).head? = some a) :
    a ∈ l ∧ ∀ b ∈ l, a.1 ≤ b.1 := by
  have hsorted : (l.insertionSort fun a b => a.1 ≤ b.1).Pairwise fun a b => a.1 ≤ b.1 := by
    have : Std.Total fun a b : ℕ × String => a.1 ≤ b.1 := ⟨fun a b => Nat.le_total a.1 b.1⟩
    have : IsTrans (ℕ × String) fun a b => a.1 ≤ b.1 := ⟨fun _ _ _ => Nat.le_trans⟩
    exact List.pairwise_insertionSort _ l
  have hmem (b : ℕ × String) : b ∈ l.insertionSort (fun a b => a.1 ≤ b.1) ↔ b ∈ l :=
    List.mem_insertionSort _
  obtain ⟨rest, hrest⟩ := List.head?_eq_some_iff.mp h
  rw [hrest] at hsorted hmem
  refine ⟨(hmem a).mp List.mem_cons_self, fun b hb => ?_⟩
  rcases List.mem_cons.mp ((hmem b).mpr hb) with rfl | hb
  · exact Nat.le_refl _
  · exact (List.pairwise_cons.mp hsorted).1 b hb

theorem insertionSort_head_congr {l l' : List (ℕ × String)} (h : ∀ a, a ∈ l ↔ a ∈ l')
    (hunique : ∀ a ∈ l, ∀ b ∈ l, a.1 = b.1 → a = b) :
    (l.insertionSort fun a b => a.1 ≤ b.1).head? =
      (l'.insertionSort fun a b => a.1 ≤ b.1).head? := by
  have hnil (k : List (ℕ × String)) :
      (k.insertionSort fun a b => a.1 ≤ b.1).head? = none ↔ k = [] := by
    rw [List.head?_eq_none_iff, ← List.length_eq_zero_iff, List.length_insertionSort,
      List.length_eq_zero_iff]
  cases hl : (l.insertionSort fun a b => a.1 ≤ b.1).head? with
  | none =>
    have hempty : l' = [] := List.eq_nil_iff_forall_not_mem.mpr fun a ha => by
      have := (h a).mpr ha
      rw [(hnil l).mp hl] at this
      cases this
    exact ((hnil l').mpr hempty).symm
  | some a =>
    obtain ⟨ha, hamin⟩ := insertionSort_head hl
    cases hl' : (l'.insertionSort fun a b => a.1 ≤ b.1).head? with
    | none =>
      have := (h a).mp ha
      rw [(hnil l').mp hl'] at this
      cases this
    | some b =>
      obtain ⟨hb, hbmin⟩ := insertionSort_head hl'
      have hbl := (h b).mpr hb
      rw [hunique a ha b hbl (Nat.le_antisymm (hamin b hbl) (hbmin a ((h a).mp ha)))]

end FinanceContext
