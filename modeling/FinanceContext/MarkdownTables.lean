import FinanceContext.MarkdownAgreement
import FinanceContext.PipeRows

namespace FinanceContext.Markdown

open Dictionaries PipeRows

def evenBars : Bool → List Char → Bool
  | _, [] => true
  | odd, ch :: text =>
    if ch = '\\' then evenBars (!odd) text
    else if ch = '|' then !odd && evenBars false text
    else evenBars false text

def Printable (text : String) : Prop :=
  '\r' ∉ (strip text).toList ∧ evenBars false (strip text).toList = true

instance (text : String) : Decidable (Printable text) :=
  inferInstanceAs (Decidable (_ ∧ _))

/-- A table by the texts of its cells, its header line first. -/
structure Table where
  header : List String
  rows : List (List String)
  named : header ≠ []
  wide : ∀ row ∈ rows, row.length = header.length

namespace Table

def headerLine (table : Table) : String := axisRow (table.header.map cell)

def delimiterLine (table : Table) : String := axisRow (table.header.map fun _ => "---")

def lines (table : Table) : List String :=
  [table.headerLine, table.delimiterLine] ++ table.rows.map fun row => axisRow (row.map cell)

end Table

def cellCount (line : String) : ℕ := (pieces false [] line.toList).length

def OneLine (line : String) : Prop := '\n' ∉ line.toList ∧ '\r' ∉ line.toList

instance (line : String) : Decidable (OneLine line) := inferInstanceAs (Decidable (_ ∧ _))

def Table.WellFormed (table : Table) : Prop :=
  ∀ line ∈ table.lines, OneLine line ∧ cellCount line = cellCount table.headerLine

instance (table : Table) : Decidable table.WellFormed :=
  inferInstanceAs (Decidable (∀ line ∈ table.lines, _))

section Cells

theorem escaped_cons (ch : Char) (text : List Char) : escaped (ch :: text) =
    (if ch = '|' then ['\\', '|'] else if ch = '\n' then [' '] else [ch]) ++ escaped text := by
  by_cases hbar : ch = '|'
  · subst hbar
    rfl
  · by_cases hnewline : ch = '\n'
    · subst hnewline
      rfl
    · simp [escaped, hbar, hnewline]

theorem escaped_append (a b : List Char) : escaped (a ++ b) = escaped a ++ escaped b := by
  induction a with
  | nil => rfl
  | cons ch a ih => rw [List.cons_append, escaped_cons, escaped_cons, ih, List.append_assoc]

theorem isSpace_escaped {text : List Char} (h : ∀ ch ∈ text, isSpace ch = true) :
    ∀ ch ∈ escaped text, isSpace ch = true := by
  induction text with
  | nil => simp [escaped]
  | cons first text ih =>
    obtain ⟨hfirst, htext⟩ := List.forall_mem_cons.mp h
    have hbar : first ≠ '|' := by
      rintro rfl
      revert hfirst
      decide
    rw [escaped_cons, if_neg hbar]
    intro ch hch
    rcases List.mem_append.mp hch with hch | hch
    · split_ifs at hch
      · rw [List.mem_singleton.mp hch]
        decide
      · rw [List.mem_singleton.mp hch]
        exact hfirst
    · exact ih htext ch hch

theorem bars_escaped (odd : Bool) (text : List Char) :
    bars odd (escaped text) = 0 ↔ evenBars odd text = true := by
  induction text generalizing odd with
  | nil => simp [escaped, bars, evenBars]
  | cons ch text ih =>
    rw [escaped_cons, evenBars]
    by_cases hbar : ch = '|'
    · subst hbar
      cases odd with
      | false => simpa [bars] using ih false
      | true => simp [bars]
    · by_cases hnewline : ch = '\n'
      · subst hnewline
        simpa [bars] using ih false
      · by_cases hslash : ch = '\\'
        · subst hslash
          simpa [bars] using ih !odd
        · simpa [bars, hbar, hnewline, hslash] using ih false

theorem carriage_mem_escaped (text : List Char) : '\r' ∈ escaped text ↔ '\r' ∈ text := by
  induction text with
  | nil => simp [escaped]
  | cons ch text ih =>
    rw [escaped_cons, List.mem_append, List.mem_cons, ih]
    by_cases hbar : ch = '|'
    · subst hbar
      simp
    · by_cases hnewline : ch = '\n'
      · subst hnewline
        simp
      · simp [hbar, hnewline]

theorem isSpace_escaped_head {ch : Char} (h : isSpace ch = false) :
    ∀ other ∈ (escaped [ch]).head?, isSpace other = false := by
  rw [escaped_cons]
  intro other hother
  split_ifs at hother with hbar hnewline
  · obtain rfl := Option.some.inj hother
    decide
  · rw [hnewline] at h
    cases h
  · obtain rfl := Option.some.inj hother
    exact h

theorem isSpace_escaped_last {ch : Char} (h : isSpace ch = false) :
    ∀ other ∈ (escaped [ch]).getLast?, isSpace other = false := by
  rw [escaped_cons]
  intro other hother
  split_ifs at hother with hbar hnewline
  · obtain rfl := Option.some.inj hother
    decide
  · rw [hnewline] at h
    cases h
  · obtain rfl := Option.some.inj hother
    exact h

theorem escaped_singleton_ne_nil (ch : Char) : escaped [ch] ≠ [] := by
  rw [escaped_cons]
  split_ifs <;> simp

theorem strip_ends {text : List Char} (h : stripChars isSpace text = text) :
    stripChars isSpace (escaped text) = escaped text := by
  obtain ⟨hhead, hlast⟩ := stripChars_eq_self.mp h
  apply stripChars_eq_self.mpr
  constructor
  · cases text with
    | nil => simp [escaped]
    | cons first text =>
      have hsplit : first :: text = [first] ++ text := rfl
      rw [hsplit, escaped_append, List.head?_append_of_ne_nil _ (escaped_singleton_ne_nil first)]
      exact isSpace_escaped_head (hhead first rfl)
  · cases text using List.reverseRecOn with
    | nil => simp [escaped]
    | append_singleton text last =>
      rw [escaped_append, List.getLast?_append_of_ne_nil _ (escaped_singleton_ne_nil last)]
      exact isSpace_escaped_last (hlast last (by simp))

theorem cell_toList (text : String) : (cell text).toList = escaped (strip text).toList := by
  obtain ⟨a, b, htext, ha, hb⟩ := exists_stripChars isSpace text.toList
  unfold cell strip
  rw [String.toList_ofList, String.toList_ofList, String.toList_ofList]
  have hescaped : escaped text.toList =
      escaped a ++ escaped (stripChars isSpace text.toList) ++ escaped b := by
    rw [← escaped_append, ← escaped_append, ← htext]
  rw [hescaped]
  exact stripChars_frame (isSpace_escaped ha) (isSpace_escaped hb)
    (strip_ends (ends_stripChars isSpace _))

theorem carriage_mem_cell (text : String) :
    '\r' ∈ (cell text).toList ↔ '\r' ∈ (strip text).toList := by
  rw [cell_toList, carriage_mem_escaped]

theorem bars_cell (text : String) :
    bars false (cell text).toList = 0 ↔ evenBars false (strip text).toList = true := by
  rw [cell_toList, bars_escaped]

end Cells

section Rows

theorem axisRow_toList (cells : List String) :
    (axisRow cells).toList = row (cells.map String.toList) := by
  unfold axisRow row
  rw [String.toList_append, String.toList_append, String.toList_intercalate]
  rfl

theorem cellCount_axisRow {cells : List String} (h : cells ≠ []) :
    cellCount (axisRow cells) =
      cells.length + 2 + (cells.map fun text => bars false text.toList).sum := by
  unfold cellCount
  rw [axisRow_toList, length_pieces_row (by simpa using h), List.length_map, List.map_map]
  rfl

theorem oneLine_axisRow (texts : List String) :
    OneLine (axisRow (texts.map cell)) ↔ ∀ text ∈ texts, '\r' ∉ (strip text).toList := by
  have hnewline : '\n' ∉ (axisRow (texts.map cell)).toList := by
    apply newline_notMem_axisRow
    intro text htext
    obtain ⟨raw, -, rfl⟩ := List.mem_map.mp htext
    exact newline_notMem_cell raw
  have hcarriage : '\r' ∈ (axisRow (texts.map cell)).toList ↔
      ∃ text ∈ texts, '\r' ∈ (strip text).toList := by
    rw [axisRow_toList, mem_row (by decide) (by decide)]
    simp [carriage_mem_cell]
  unfold OneLine
  rw [hcarriage]
  constructor
  · rintro ⟨-, hnone⟩ text htext hmem
    exact hnone ⟨text, htext, hmem⟩
  · intro hnone
    refine ⟨hnewline, ?_⟩
    rintro ⟨text, htext, hmem⟩
    exact hnone text htext hmem

theorem cellCount_cells {texts : List String} (h : texts ≠ []) :
    cellCount (axisRow (texts.map cell)) = texts.length + 2 ↔
      ∀ text ∈ texts, evenBars false (strip text).toList = true := by
  rw [cellCount_axisRow (by simpa using h), List.length_map, List.map_map]
  have hsum : texts.length + 2 +
      (texts.map ((fun text => bars false text.toList) ∘ cell)).sum = texts.length + 2 ↔
        (texts.map ((fun text => bars false text.toList) ∘ cell)).sum = 0 := by omega
  rw [hsum, List.sum_eq_zero_iff_forall_eq_nat]
  simp [bars_cell]

theorem cellCount_delimiterLine (table : Table) :
    cellCount table.delimiterLine = table.header.length + 2 := by
  unfold Table.delimiterLine
  rw [cellCount_axisRow (by simpa using table.named), List.length_map, List.map_map]
  simp [Function.comp_def, bars]

theorem oneLine_delimiterLine (table : Table) : OneLine table.delimiterLine := by
  have hframe : ∀ ch, ch ≠ '|' → ch ≠ ' ' → ch ∉ "---".toList →
      ch ∉ table.delimiterLine.toList := by
    intro ch hbar hspace hdash hmem
    unfold Table.delimiterLine at hmem
    rw [axisRow_toList, mem_row hbar hspace] at hmem
    obtain ⟨text, htext, hch⟩ := hmem
    rw [List.map_map] at htext
    obtain ⟨_, -, rfl⟩ := List.mem_map.mp htext
    exact hdash hch
  exact ⟨hframe '\n' (by decide) (by decide) (by decide),
    hframe '\r' (by decide) (by decide) (by decide)⟩

theorem Table.wellFormed_iff (table : Table) : table.WellFormed ↔
    ∀ row ∈ table.header :: table.rows, ∀ text ∈ row, Printable text := by
  have hrow (row : List String) (h : row ∈ table.header :: table.rows) :
      row ≠ [] ∧ row.length = table.header.length := by
    rcases List.mem_cons.mp h with rfl | hmem
    · exact ⟨table.named, rfl⟩
    · have hlength := table.wide row hmem
      refine ⟨?_, hlength⟩
      rintro rfl
      exact table.named (List.eq_nil_of_length_eq_zero hlength.symm)
  have hcells (row : List String) (h : row ∈ table.header :: table.rows) :
      OneLine (axisRow (row.map cell)) ∧
        cellCount (axisRow (row.map cell)) = table.header.length + 2 ↔
          ∀ text ∈ row, Printable text := by
    obtain ⟨hne, hlength⟩ := hrow row h
    rw [oneLine_axisRow, ← hlength, cellCount_cells hne, ← forall₂_and]
    rfl
  constructor
  · intro hformed row hmem
    apply (hcells row hmem).mp
    have hdelimiter := (hformed table.delimiterLine (by simp [Table.lines])).2
    rw [cellCount_delimiterLine] at hdelimiter
    rw [hdelimiter]
    apply hformed
    rcases List.mem_cons.mp hmem with rfl | hmem
    · exact List.mem_cons_self
    · exact List.mem_append_right _ (List.mem_map_of_mem hmem)
  · intro hprintable line hline
    have hheader := ((hcells table.header List.mem_cons_self).mpr
      (hprintable _ List.mem_cons_self)).2
    change cellCount table.headerLine = _ at hheader
    rw [hheader]
    rcases List.mem_append.mp hline with hline | hline
    · rcases List.mem_cons.mp hline with rfl | hline
      · exact (hcells _ List.mem_cons_self).mpr (hprintable _ List.mem_cons_self)
      · rw [List.mem_singleton.mp hline]
        exact ⟨oneLine_delimiterLine table, cellCount_delimiterLine table⟩
    · obtain ⟨row, hmem, rfl⟩ := List.mem_map.mp hline
      have hmem' := List.mem_cons_of_mem table.header hmem
      exact (hcells row hmem').mpr (hprintable row hmem')

end Rows

end FinanceContext.Markdown
