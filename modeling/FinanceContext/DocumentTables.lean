import FinanceContext.MarkdownTables

namespace FinanceContext.Markdown

open Dictionaries PipeRows

inductive Segment where
  | prose (lines : List String)
  | table (table : Table)

def Segment.lines : Segment → List String
  | .prose lines => lines
  | .table t => t.lines

def tablesOf (segments : List Segment) : List Table :=
  segments.filterMap fun
    | .prose _ => none
    | .table t => some t

section Axes

variable (rules : NumberText)

def attributeText : Attribute → ContextPeriod → String
  | .start, period => period.startDate.getD ""
  | .finish, period => period.endDate.getD ""
  | .group, period => period.groupKey.getD ""
  | .calendar, period => if redundantCalendar period then "" else period.calendarYear.getD ""
  | .flags, period => ", ".intercalate (flagNames period.flags)

def attributeTexts (axis : ContextAxis) : List (List String) :=
  (visibleAttributes axis).map fun shown => shown.name :: axis.periods.map (attributeText shown)

def periodTexts (axis : ContextAxis) : Table where
  header := axis.id :: axis.periods.map (·.periodKey)
  rows := attributeTexts axis
  named := List.cons_ne_nil _ _
  wide := by simp [attributeTexts]

def monthSpan (keys : List String) : String :=
  let first := keys.head?.getD ""
  let last := keys.getLast?.getD ""
  if first = last then first else first ++ " .. " ++ last

def monthTexts (axis : ContextAxis) : Table where
  header := axis.id :: ((monthRuns rules axis).getD []).map (·.1)
  rows := ["Periods" :: ((monthRuns rules axis).getD []).map fun run => monthSpan run.2]
  named := List.cons_ne_nil _ _
  wide := by simp

def letterTexts (canon axis : ContextAxis) : List String :=
  canon.periods.map fun period => (get period.periodKey
    (filled (axis.periods.map fun period => (period.periodKey, columnLetter period.col)))).getD ""

def sharedTexts (members : List ContextAxis) (canon : ContextAxis) : Table where
  header := "Axis" :: canon.periods.map (·.periodKey)
  rows := (members.map fun axis => axis.id :: letterTexts canon axis) ++ attributeTexts canon
  named := List.cons_ne_nil _ _
  wide := by
    intro row hrow
    rcases List.mem_append.mp hrow with hrow | hrow
    · obtain ⟨axis, -, rfl⟩ := List.mem_map.mp hrow
      simp [letterTexts]
    · obtain ⟨shown, -, rfl⟩ := List.mem_map.mp hrow
      simp

theorem cell_eq_self {text : String}
    (h : ∀ ch ∈ text.toList, ch ≠ '|' ∧ isSpace ch = false) : cell text = text := by
  have hstrip : strip text = text := by
    unfold strip
    rw [stripChars_eq_self.mpr, String.ofList_toList]
    exact ⟨fun ch hch => (h ch (List.mem_of_mem_head? hch)).2,
      fun ch hch => (h ch (List.mem_of_mem_getLast? hch)).2⟩
  have hescaped (chars : List Char) (hchars : ∀ ch ∈ chars, ch ≠ '|' ∧ isSpace ch = false) :
      escaped chars = chars := by
    induction chars with
    | nil => rfl
    | cons ch chars ih =>
      obtain ⟨⟨hbar, hspace⟩, hrest⟩ := List.forall_mem_cons.mp hchars
      have hnewline : ch ≠ '\n' := by
        rintro rfl
        cases hspace
      rw [escaped_cons, if_neg hbar, if_neg hnewline, ih hrest]
      rfl
  apply String.toList_inj.mp
  rw [cell_toList, hstrip, hescaped _ h]

theorem cell_empty : cell "" = "" := rfl

theorem cell_name (shown : Attribute) : cell shown.name = shown.name := by
  cases shown <;> decide +kernel

theorem cell_attributeText (shown : Attribute) (period : ContextPeriod) :
    cell (attributeText shown period) = periodCell shown period := by
  cases shown with
  | calendar =>
    simp only [attributeText, periodCell]
    split_ifs
    · exact cell_empty
    · rfl
  | _ => rfl

theorem axisRow_attributeTexts (axis : ContextAxis) :
    ((attributeTexts axis).map fun row => axisRow (row.map cell)) =
      (visibleAttributes axis).map (attributeRow axis) := by
  unfold attributeTexts
  rw [List.map_map]
  apply List.map_congr_left
  intro shown _
  have hcells : (axis.periods.map (attributeText shown)).map cell =
      axis.periods.map (periodCell shown) := by
    rw [List.map_map]
    apply List.map_congr_left
    intro period _
    exact cell_attributeText shown period
  rw [Function.comp_apply, List.map_cons, cell_name, hcells]
  rfl

theorem lines_periodTexts (axis : ContextAxis) : (periodTexts axis).lines = periodTable axis := by
  unfold Table.lines
  rw [periodTexts, axisRow_attributeTexts]
  simp [Table.headerLine, Table.delimiterLine, periodTable, Function.comp_def]

theorem lines_monthTexts (axis : ContextAxis) :
    (monthTexts rules axis).lines = monthSummary rules axis := by
  have hperiods : cell "Periods" = "Periods" := by decide +kernel
  simp [Table.lines, Table.headerLine, Table.delimiterLine, monthTexts, monthSummary,
    Function.comp_def, hperiods, monthSpan]

theorem cell_columnLetter (col : ℕ) : cell (columnLetter col) = columnLetter col := by
  apply cell_eq_self
  intro ch hch
  unfold columnLetter at hch
  split_ifs at hch
  · rw [String.toList_ofList] at hch
    obtain ⟨hlo, hhi⟩ := isUpper_colDigits hch
    constructor
    · rintro rfl
      revert hhi
      decide
    · simp only [isSpace, List.contains_eq_mem, decide_eq_false_iff_not, List.mem_cons,
        List.not_mem_nil, or_false]
      omega
  · simp at hch

theorem cell_letterTexts (canon axis : ContextAxis) :
    (letterTexts canon axis).map cell = letterTexts canon axis := by
  unfold letterTexts
  rw [List.map_map]
  apply List.map_congr_left
  intro period _
  rw [Function.comp_apply]
  cases hget : get period.periodKey
      (filled (axis.periods.map fun period => (period.periodKey, columnLetter period.col))) with
  | none => exact cell_empty
  | some letter =>
    obtain ⟨period', -, hpair⟩ := List.mem_map.mp (mem_of_mem_filled (mem_of_get hget))
    rw [← (Prod.mk.inj hpair).2]
    exact cell_columnLetter period'.col

theorem lines_sharedTexts (members : List ContextAxis) (canon : ContextAxis) :
    ["Grain: `" ++ (given canon.grain).getD "n/a" ++ "`. Periods: " ++
      toString canon.periods.length ++ ".", ""] ++ (sharedTexts members canon).lines ++ [""] =
        sharedAxisTable members canon := by
  have haxis : cell "Axis" = "Axis" := by decide +kernel
  have hletters : (members.map fun axis => axis.id :: letterTexts canon axis).map
      (fun row => axisRow (row.map cell)) =
        members.map fun axis => axisRow (cell axis.id :: letterTexts canon axis) := by
    rw [List.map_map]
    apply List.map_congr_left
    intro axis _
    rw [Function.comp_apply, List.map_cons, cell_letterTexts]
  unfold Table.lines
  rw [sharedTexts, List.map_append, hletters, axisRow_attributeTexts]
  simp [Table.headerLine, Table.delimiterLine, sharedAxisTable, Function.comp_def, haxis,
    letterTexts]

def axisSegments (axis : ContextAxis) : List Segment :=
  [.prose ["### `" ++ axis.id ++ "`", "",
    "Grain: `" ++ (given axis.grain).getD "n/a" ++ "`. Sheet: `" ++ axis.sheet ++ "`. Periods: " ++
      toString axis.periods.length ++ ".", ""],
    .table (if (monthRuns rules axis).isSome then monthTexts rules axis else periodTexts axis),
    .prose [""]]

def groupSegments : String × List ContextAxis → List Segment
  | (_, []) => []
  | (_, [axis]) => axisSegments rules axis
  | (key, first :: members) =>
    let canon := canonAxis key first members
    [.prose ["Grain: `" ++ (given canon.grain).getD "n/a" ++ "`. Periods: " ++
        toString canon.periods.length ++ ".", ""],
      .table (if (monthRuns rules canon).isSome then monthTexts rules canon
        else sharedTexts (first :: members) canon),
      .prose [""]]

theorem lines_axisSegments (axis : ContextAxis) :
    (axisSegments rules axis).flatMap Segment.lines = oneAxis rules axis := by
  have htable : (if (monthRuns rules axis).isSome then monthTexts rules axis
      else periodTexts axis).lines =
        if (monthRuns rules axis).isSome then monthSummary rules axis else periodTable axis := by
    split_ifs
    · exact lines_monthTexts rules axis
    · exact lines_periodTexts axis
  simp only [axisSegments, List.flatMap_cons, List.flatMap_nil, Segment.lines, htable, oneAxis,
    List.append_nil, List.append_assoc]

theorem lines_groupSegments (group : String × List ContextAxis) :
    (groupSegments rules group).flatMap Segment.lines = groupLines rules group := by
  obtain ⟨key, _ | ⟨first, _ | ⟨second, members⟩⟩⟩ := group
  · rfl
  · exact lines_axisSegments rules first
  · simp only [groupSegments, groupLines, List.flatMap_cons, List.flatMap_nil, Segment.lines,
      List.append_nil]
    split_ifs
    · rw [lines_monthTexts, List.append_assoc]
    · rw [← lines_sharedTexts, List.append_assoc]

theorem lines_groups (axes : List ContextAxis) :
    ((axisGroups axes).flatMap (groupSegments rules)).flatMap Segment.lines =
      (axisGroups axes).flatMap (groupLines rules) := by
  rw [List.flatMap_assoc]
  apply List.flatMap_congr
  intro group _
  exact lines_groupSegments rules group

end Axes

section Blocks

variable (rules : NumberText)

def labelTexts (headers : List ColumnHeader) : List String :=
  ["Label", "Row", "Path", "Kind", "Unit", "Formula", "Cells"] ++ headers.map (periodLabel rules)

/-- The texts of the cells of `rowLine`. -/
def rowTexts (row : BlockRow) (headers : List ColumnHeader) (series : Option RowSeries)
    (periodCols : List ℕ) : List String :=
  let values := (series.map (·.values)).getD row.values
  let statuses := (series.map (·.valueStatuses)).getD row.valueStatuses
  let normalized := (series.map (·.normalizedValues)).getD row.normalizedValues
  let formula := (series.bind fun s => given s.formula).orElse fun _ => row.formula
  [row.label, row.rowKey, " / ".intercalate row.labelPath, rowKindName row.kind, unitLabel row,
    formula.getD "", roleCellsLabel row periodCols] ++
    headers.zipIdx.map fun (header, index) =>
      seriesCell rules (values[index]?.join) (statuses[index]?) (normalized[index]?.join)
        (isPercentRow row) (cellAddr row header)

def valueTexts (table : ValueTable) (rows : List BlockRow) : Table where
  header := labelTexts rules table.headers
  rows := rows.map fun row =>
    rowTexts rules row table.headers (seriesFor row table.axisId) (table.headers.map (·.col))
  named := by simp [labelTexts]
  wide := by simp [labelTexts, rowTexts]

def relationTexts (relations : List RowRelation) : Table where
  header := ["Kind", "Source", "Target", "Members"]
  rows := relations.map fun relation =>
    [relationName relation.kind, relation.source.text, (relation.target.map (·.text)).getD "",
      ", ".intercalate (relation.members.map (·.text))]
  named := List.cons_ne_nil _ _
  wide := by simp

theorem axisRow_rowTexts (row : BlockRow) (headers : List ColumnHeader)
    (series : Option RowSeries) (periodCols : List ℕ) :
    axisRow ((rowTexts rules row headers series periodCols).map cell) =
      rowLine rules row headers series periodCols := by
  simp only [rowTexts, rowLine, List.map_append, List.map_cons, List.map_nil, List.map_map]
  rfl

theorem lines_valueTexts (table : ValueTable) (rows : List BlockRow) :
    (valueTexts rules table rows).lines ++ [""] = valueTable rules table rows := by
  have hrows : (valueTexts rules table rows).rows.map (fun row => axisRow (row.map cell)) =
      rows.map (tableLine rules table) := by
    unfold valueTexts
    rw [List.map_map]
    apply List.map_congr_left
    intro row _
    exact axisRow_rowTexts rules row _ _ _
  unfold Table.lines valueTable
  rw [hrows]
  rfl

theorem lines_relationTexts (relations : List RowRelation) :
    ["Relations:", ""] ++ (relationTexts relations).lines ++ [""] =
      relationsSection relations := by
  have hheader : (relationTexts relations).headerLine = "| Kind | Source | Target | Members |" := by
    change axisRow (["Kind", "Source", "Target", "Members"].map cell) = _
    decide +kernel
  have hdelimiter : (relationTexts relations).delimiterLine = "| --- | --- | --- | --- |" := by
    change axisRow (["Kind", "Source", "Target", "Members"].map fun _ => "---") = _
    decide +kernel
  unfold Table.lines relationsSection
  rw [hheader, hdelimiter, relationTexts, List.map_map]
  rfl

def blockSegments (axes : List ContextAxis) (block : FinancialBlock) : List Segment :=
  .prose (blockIntro axes block block.rows.length) ::
    if block.rows.isEmpty then []
    else
      ((markdownTables axes block).flatMap fun table =>
        [.prose (headingLines table), .table (valueTexts rules table block.rows), .prose [""]]) ++
        if block.relations.isEmpty then []
        else [.prose ["Relations:", ""], .table (relationTexts block.relations), .prose [""]]

theorem lines_blockSegments (axes : List ContextAxis) (block : FinancialBlock) :
    (blockSegments rules axes block).flatMap Segment.lines = blockSection rules axes block := by
  have htables : ((markdownTables axes block).flatMap fun table =>
      [Segment.prose (headingLines table), .table (valueTexts rules table block.rows),
        .prose [""]]).flatMap Segment.lines =
      (markdownTables axes block).flatMap fun table =>
        headingLines table ++ valueTable rules table block.rows := by
    rw [List.flatMap_assoc]
    apply List.flatMap_congr
    intro table _
    rw [← lines_valueTexts]
    simp [Segment.lines]
  unfold blockSegments blockSection
  rw [List.flatMap_cons]
  split_ifs with hrows hrelations
  · simp [Segment.lines]
  · rw [List.append_nil, List.append_nil, htables]
    rfl
  · rw [List.flatMap_append, htables, ← lines_relationTexts]
    simp [Segment.lines]

end Blocks

section Document

variable (rules : NumberText)

def preambleSegments (doc : PublishedDocument) (rowCount : ℕ) : List Segment :=
  [.prose ["# Financial context", "",
    "- Schema: `" ++ doc.schemaVersion ++ "`",
    "- Job: `" ++ doc.jobId ++ "`",
    "- Status: `" ++ doc.status ++ "`",
    "- Source: `" ++ (given doc.sourceFilename).getD "n/a" ++ "`",
    "- Sheets: " ++ toString doc.workbook.sheets.length,
    "- Cells: " ++ toString doc.workbook.cellCount,
    "- Formulas: " ++ toString doc.workbook.formulaCount,
    "- Content completeness: 1.00 (" ++ toString rowCount ++ "/" ++ toString rowCount ++
      " layout rows)", ""]] ++
    (if doc.axes.isEmpty then []
      else .prose ["## Axes", ""] :: (axisGroups doc.axes).flatMap (groupSegments rules)) ++
    [.prose (if doc.warnings.isEmpty then []
      else ["## Warnings", ""] ++ (doc.warnings.map fun warning => "- " ++ cell warning) ++ [""])]

def documentSegments (doc : PublishedDocument) : List Segment :=
  preambleSegments rules doc (doc.blocks.map (·.rows.length)).sum ++
    doc.blocks.flatMap (blockSegments rules doc.axes)

theorem lines_preambleSegments (doc : PublishedDocument) (rowCount : ℕ) :
    (preambleSegments rules doc rowCount).flatMap Segment.lines =
      preamble rules doc rowCount := by
  have haxes : (if doc.axes.isEmpty then []
      else .prose ["## Axes", ""] ::
        (axisGroups doc.axes).flatMap (groupSegments rules)).flatMap Segment.lines =
      if doc.axes.isEmpty then [] else axesSection rules doc.axes := by
    split_ifs
    · rfl
    · rw [List.flatMap_cons, lines_groups]
      rfl
  unfold preambleSegments preamble
  rw [List.flatMap_append, List.flatMap_append, haxes]
  simp only [List.flatMap_cons, List.flatMap_nil, Segment.lines, List.append_nil]

theorem lines_documentSegments (doc : PublishedDocument) :
    (documentSegments rules doc).flatMap Segment.lines =
      preamble rules doc (doc.blocks.map (·.rows.length)).sum ++
        doc.blocks.flatMap (blockSection rules doc.axes) := by
  unfold documentSegments
  rw [List.flatMap_append, lines_preambleSegments, List.flatMap_assoc]
  congr 1
  apply List.flatMap_congr
  intro block _
  exact lines_blockSegments rules doc.axes block

def documentTables (doc : PublishedDocument) : List Table := tablesOf (documentSegments rules doc)

theorem rendered_tables_iff (doc : PublishedDocument) :
    renderMarkdown rules doc = TextLines.stripEnd isSpace
        ("\n".intercalate ((documentSegments rules doc).flatMap Segment.lines)) ++ "\n" ∧
      ((∀ table ∈ documentTables rules doc, table.WellFormed) ↔
        ∀ table ∈ documentTables rules doc, ∀ row ∈ table.header :: table.rows,
          ∀ text ∈ row, Printable text) := by
  constructor
  · rw [lines_documentSegments]
    rfl
  · constructor
    · intro h table htable
      exact table.wellFormed_iff.mp (h table htable)
    · intro h table htable
      exact table.wellFormed_iff.mpr (h table htable)

end Document

def plainNumbers : NumberText := ⟨Char.isDigit, fun _ => none, fun text other => text != other⟩

def brokenDocument : PublishedDocument where
  workbook :=
    { sheets := ["CF"], cellCount := 2, definedNames := [], formulaCount := 0
      missingCachedValues := 0, unparsedFormulas := 0 }
  axes := []
  blocks := [{
    blockId := "CF!r1"
    sheet := "CF"
    labelCol := 1
    kind := .timeline
    rows := [
      { rowKey := "CF|2|CF!r1", sheet := "CF", row := 2, label := "Net\rprofit", kind := .fact },
      { rowKey := "CF|3|CF!r1", sheet := "CF", row := 3, label := "Cost\\|sale", kind := .fact }] }]
  warnings := []
  schemaVersion := "1.14.0"
  jobId := "job"
  status := "succeeded"
  sourceFilename := none

theorem label_breaks_row :
    ¬∀ table ∈ documentTables plainNumbers brokenDocument, table.WellFormed := by
  decide +kernel

end FinanceContext.Markdown
