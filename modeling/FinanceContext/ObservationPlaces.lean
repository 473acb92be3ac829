import FinanceContext.Observations

namespace FinanceContext

open Dictionaries

structure Line where
  sheet : SheetLayout
  block : Block
  row : LayoutRow
  built : FinancialBlock
  line : BlockRow

section

variable (text : ContextText) (input : BuildInput) (reads : CellReads)

def contextAxes : List ContextAxis := text.buildAxes reads.headers input.layout

def linesOf (sheet : SheetLayout) (block : Block) : List Line :=
  let built := buildBlock text input reads (contextAxes text input reads) sheet block
  (block.rows.zip built.rows).map fun (row, line) => ⟨sheet, block, row, built, line⟩

def lines : List Line :=
  input.layout.sheets.flatMap fun sheet => sheet.blocks.flatMap (linesOf text input reads sheet)

def Line.valueCols (line : Line) (headers : List AxisHeader) : List ℕ :=
  (if line.row.row ∈ reads.switches line.sheet.name
    then headers.filter (·.role = some .value) else headers).map (·.col)

def Line.entry (line : Line) (headers : List AxisHeader) (header : AxisHeader) :
    Option String × ValueStatus :=
  text.seriesEntry (blockReads input reads line.sheet line.block).cells line.sheet.name line.row
    (line.valueCols reads headers) header

def Line.entryAt (line : Line) (headers : List AxisHeader) (place : ℕ) :
    Option String × ValueStatus :=
  (headers[place]?.map (line.entry text input reads headers)).getD (none, .empty)

end

section

variable {text : ContextText} {input : BuildInput} {reads : CellReads}

theorem mem_zip_blockRows {rowReads : RowReads} {sheet : SheetLayout} {block : Block}
    {unit : Option String} {running : RunningUnit} {rows : List LayoutRow} {row : LayoutRow}
    {line : BlockRow}
    (h : (row, line) ∈ rows.zip (text.blockRows rowReads sheet block unit running rows)) :
    ∃ current, line = text.blockRow rowReads sheet block current row := by
  induction rows generalizing running with
  | nil => cases h
  | cons first rows ih =>
    simp only [ContextText.blockRows, List.zip_cons_cons, List.mem_cons] at h
    rcases h with h | h
    · obtain ⟨rfl, rfl⟩ := Prod.mk.inj h
      exact ⟨_, rfl⟩
    · exact ih h

theorem of_mem_lines {line : Line} (h : line ∈ lines text input reads) :
    ∃ current, line.line = text.blockRow (blockReads input reads line.sheet line.block)
        line.sheet line.block current line.row ∧
      line.built = buildBlock text input reads (contextAxes text input reads) line.sheet
        line.block ∧
      line.sheet ∈ input.layout.sheets ∧ line.block ∈ line.sheet.blocks := by
  obtain ⟨sheet, hsheet, hblocks⟩ := List.mem_flatMap.mp h
  obtain ⟨block, hblock, hlines⟩ := List.mem_flatMap.mp hblocks
  obtain ⟨⟨row, published⟩, hzip, rfl⟩ := List.mem_map.mp hlines
  obtain ⟨current, hcurrent⟩ := mem_zip_blockRows hzip
  exact ⟨current, hcurrent, rfl, hsheet, hblock⟩

theorem blockViews_unique {sheet : SheetLayout} {block : Block}
    {view view' : String × List AxisHeader} (h : view ∈ blockViews sheet block)
    (h' : view' ∈ blockViews sheet block) (hid : view.1 = view'.1) : view = view' := by
  unfold blockViews at h h'
  cases hkind : block.kind with
  | params =>
    simp only [hkind, List.mem_singleton] at h h'
    rw [h, h']
  | timeline =>
    simp only [hkind] at h h'
    obtain ⟨axis, haxis, rfl⟩ := List.mem_map.mp h
    obtain ⟨axis', haxis', rfl⟩ := List.mem_map.mp h'
    obtain rfl : axis = axis' := by
      unfold axesFor at haxis haxis'
      simp only [hkind] at haxis haxis'
      split_ifs at haxis haxis' with hpicked
      · have hnamed (a : TimeAxis) (ha : a ∈ block.axisIds.filterMap sheet.axisById) :
            sheet.axisById a.id = some a := by
          obtain ⟨id, -, hsome⟩ := List.mem_filterMap.mp ha
          have hlast := (List.mem_filter.mp (List.mem_of_getLast? hsome)).2
          rw [of_decide_eq_true hlast]
          exact hsome
        have hone := hnamed axis haxis
        have hid' : axis.id = axis'.id := hid
        rw [hid', hnamed axis' haxis'] at hone
        exact (Option.some.inj hone).symm
      · cases haxes : block.axis with
        | none => simp [haxes] at haxis
        | some embedded =>
          simp only [haxes, Option.toList_some, List.map_cons, List.map_nil,
            List.mem_singleton] at haxis haxis'
          rw [haxis, haxis']
    rfl

theorem mem_zip_map {α β : Type} {f : α → β} {l : List α} {a : α} {b : β} :
    (a, b) ∈ l.zip (l.map f) ↔ a ∈ l ∧ b = f a := by
  induction l with
  | nil => simp
  | cons x l ih =>
    simp only [List.map_cons, List.zip_cons_cons, List.mem_cons, Prod.mk.injEq, ih]
    constructor
    · rintro (⟨rfl, rfl⟩ | ⟨hmem, rfl⟩)
      · exact ⟨.inl rfl, rfl⟩
      · exact ⟨.inr hmem, rfl⟩
    · rintro ⟨rfl | hmem, rfl⟩
      · exact .inl ⟨rfl, rfl⟩
      · exact .inr ⟨hmem, rfl⟩

theorem cache_seriesEntry (cells : CellMap) (sheet : String) (row : LayoutRow)
    (valueCols : List ℕ) (header : AxisHeader) :
    cache (text.seriesEntry cells sheet row valueCols header).1
      (some (text.seriesEntry cells sheet row valueCols header).2) =
        text.seriesEntry cells sheet row valueCols header := by
  unfold ContextText.seriesEntry
  split_ifs with hcol
  · cases hshown : text.seriesText cells sheet row.row header.col with
    | none => cases hkind : row.kind <;> rfl
    | some shown =>
      have hne : shown ≠ "" := by
        unfold ContextText.seriesText at hshown
        exact of_decide_eq_true (Option.filter_eq_some_iff.mp hshown).2
      have hkept : (some shown).filter (· ≠ "") = some shown := by simp [hne]
      by_cases hzero : text.isZero shown = true <;>
        simp [cache, ContextText.valueStatus, hne, hzero]
  · rfl

end

end FinanceContext
