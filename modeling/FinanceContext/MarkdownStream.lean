import FinanceContext.MarkdownRender
import FinanceContext.NodeCodecs

namespace FinanceContext.Markdown

open Dictionaries TextLines

structure MarkdownBody where
  writer : Writer := {}
  rowCount : ℕ := 0

def MarkdownBody.extend (body : MarkdownBody) (lines : List String) : MarkdownBody :=
  { body with writer := body.writer.extend lines }

/-- The row lines of one value table, in a file of their own. -/
structure AxisRows where
  table : ValueTable
  writer : Writer := {}

section Streaming

variable (rules : NumberText)

def AxisRows.add (rows : AxisRows) (row : BlockRow) : AxisRows :=
  { rows with writer := rows.writer.line (tableLine rules rows.table row) }

def AxisRows.assemble (body : MarkdownBody) (rows : AxisRows) : MarkdownBody :=
  (((body.extend (headingLines rows.table)).extend (tableHeader rules rows.table.headers)).extend
    (fileLines rows.writer.text)).extend [""]

/-- Every row goes to `context.json` and to the file of each value table. -/
def addRow (state : List BlockRow × List AxisRows) (row : BlockRow) :
    List BlockRow × List AxisRows :=
  (state.1 ++ [row], state.2.map (·.add rules row))

/-- `_stream_one_block`: what is dumped of the block, and the body after it. -/
def streamOneBlock (axes : List ContextAxis) (body : MarkdownBody) (block : FinancialBlock) :
    FinancialBlock × MarkdownBody :=
  let skeleton := { block with rows := [] }
  if block.rows.isEmpty then (skeleton, body.extend (blockIntro axes skeleton 0))
  else
    let files := (markdownTables axes skeleton).map fun table => { table := table : AxisRows }
    let (written, files) := block.rows.foldl (addRow rules) ([], files)
    let started := { body with rowCount := body.rowCount + written.length }.extend
      (blockIntro axes skeleton written.length)
    let filled := files.foldl (AxisRows.assemble rules) started
    ({ skeleton with rows := written },
      if written.isEmpty || skeleton.relations.isEmpty then filled
      else filled.extend (relationsSection skeleton.relations))

def streamBlocks (axes : List ContextAxis) (blocks : List FinancialBlock) :
    List FinancialBlock × MarkdownBody :=
  blocks.foldl (fun (written, body) block =>
    let (dumped, body) := streamOneBlock rules axes body block
    (written ++ [dumped], body)) ([], {})

def publishStreamedMarkdown (doc : PublishedDocument) (body : MarkdownBody) : String :=
  let header := "\n".intercalate (preamble rules doc body.rowCount)
  if body.writer.text = "" then header else header ++ "\n" ++ body.writer.text

/-- `context.json` and `context.md` of a build whose rows are produced as the document has them. -/
def streamContext (doc : PublishedDocument) : StoredContext × String :=
  let (written, body) := streamBlocks rules doc.axes doc.blocks
  let published := { doc with blocks := doc.blocks.map fun block => { block with rows := [] } }
  ({ axes := doc.axes.map dumpAxis
     blocks := written
     workbook := doc.workbook
     warnings := doc.warnings
     schemaVersion := doc.schemaVersion
     jobId := doc.jobId
     status := doc.status
     sourceFilename := doc.sourceFilename },
    publishStreamedMarkdown rules published body)

end Streaming

section Lines

theorem newline_notMem_escaped (text : List Char) : '\n' ∉ escaped text := by
  induction text with
  | nil => simp [escaped]
  | cons ch text ih =>
    by_cases hbar : ch = '|'
    · subst hbar
      simpa [escaped] using ih
    · by_cases hnewline : ch = '\n'
      · subst hnewline
        simpa [escaped] using ih
      · simp [escaped, ih, Ne.symm hnewline]

theorem newline_notMem_cell (text : String) : '\n' ∉ (cell text).toList := by
  unfold cell strip
  rw [String.toList_ofList, String.toList_ofList]
  intro h
  exact newline_notMem_escaped _ ((stripChars_sublist isSpace _).subset h)

theorem newline_notMem_axisRow {cells : List String} (h : ∀ text ∈ cells, '\n' ∉ text.toList) :
    '\n' ∉ (axisRow cells).toList := by
  unfold axisRow
  rw [String.toList_append, String.toList_append, String.toList_intercalate]
  have hmiddle : '\n' ∉ " | ".toList.intercalate (cells.map String.toList) := by
    induction cells with
    | nil => simp
    | cons text cells ih =>
      have hrest := ih fun other hother => h other (List.mem_cons_of_mem _ hother)
      have htext := h text List.mem_cons_self
      cases cells with
      | nil => simpa using htext
      | cons other cells =>
        rw [List.map_cons, List.map_cons, List.intercalate_cons_cons]
        rw [List.map_cons] at hrest
        simp only [List.mem_append, not_or]
        exact ⟨⟨htext, by decide⟩, hrest⟩
  simp only [List.mem_append, not_or]
  exact ⟨⟨by decide, hmiddle⟩, by decide⟩

variable (rules : NumberText)

theorem newline_notMem_tableLine (table : ValueTable) (row : BlockRow) :
    '\n' ∉ (tableLine rules table row).toList := by
  apply newline_notMem_axisRow
  intro text htext
  have hcell : ∃ shown, text = cell shown := by
    simp only [List.mem_append, List.mem_cons, List.mem_map] at htext
    rcases htext with h | ⟨_, -, h⟩
    · rcases h with h | h | h | h | h | h | h | h
      all_goals first | exact ⟨_, h⟩ | cases h
    · exact ⟨_, h.symm⟩
  obtain ⟨shown, rfl⟩ := hcell
  exact newline_notMem_cell shown

theorem axisRow_ne_empty (cells : List String) : axisRow cells ≠ "" := by
  intro h
  have hlist := congrArg String.toList h
  simp [axisRow] at hlist

end Lines

section Body

variable (rules : NumberText) (axes : List ContextAxis)

def MarkdownBody.Holds (body : MarkdownBody) (lines : List String) (rows : ℕ) : Prop :=
  body.writer.Holds lines ∧ body.rowCount = rows

variable {axes} {body : MarkdownBody} {lines : List String} {n : ℕ}

theorem MarkdownBody.Holds.extend (h : body.Holds lines n) (more : List String) :
    (body.extend more).Holds (lines ++ more) n :=
  ⟨h.1.extend more, h.2⟩

theorem foldl_addRow (rows : List BlockRow) (written : List BlockRow) (files : List AxisRows) :
    rows.foldl (addRow rules) (written, files) =
      (written ++ rows, files.map fun file => rows.foldl (AxisRows.add rules) file) := by
  induction rows generalizing written files with
  | nil => simp
  | cons row rows ih => simp [addRow, ih, Function.comp_def]

theorem fileLines_rows (table : ValueTable) (rows : List BlockRow) :
    fileLines (rows.foldl (AxisRows.add rules) { table := table }).writer.text =
      rows.map (tableLine rules table) := by
  have hfile (file : AxisRows) : rows.foldl (AxisRows.add rules) file =
      { file with writer := file.writer.extend (rows.map (tableLine rules file.table)) } := by
    induction rows generalizing file with
    | nil => rfl
    | cons row rows ih => simp [ih, AxisRows.add, Writer.extend]
  rw [hfile, (Writer.holds_empty.extend _).1, List.nil_append]
  apply fileLines_intercalate
  · intro text htext
    obtain ⟨row, -, rfl⟩ := List.mem_map.mp htext
    exact newline_notMem_tableLine rules table row
  · intro hlast
    obtain ⟨row, -, hrow⟩ := List.mem_map.mp (List.mem_of_getLast? hlast)
    exact axisRow_ne_empty _ hrow

theorem MarkdownBody.Holds.assemble (h : body.Holds lines n) (table : ValueTable)
    (rows : List BlockRow) :
    (AxisRows.assemble rules body (rows.foldl (AxisRows.add rules) { table := table })).Holds
      (lines ++ (headingLines table ++ valueTable rules table rows)) n := by
  have htable (file : AxisRows) : (rows.foldl (AxisRows.add rules) file).table = file.table := by
    induction rows generalizing file with
    | nil => rfl
    | cons row rows ih => exact ih _
  unfold AxisRows.assemble
  rw [fileLines_rows, htable]
  have hbody := (((h.extend (headingLines table)).extend (tableHeader rules table.headers)).extend
    (rows.map (tableLine rules table))).extend [""]
  simpa [valueTable, List.append_assoc] using hbody

theorem MarkdownBody.Holds.assembleAll (h : body.Holds lines n) (tables : List ValueTable)
    (rows : List BlockRow) :
    ((tables.map fun table => rows.foldl (AxisRows.add rules) { table := table }).foldl
      (AxisRows.assemble rules) body).Holds
      (lines ++ tables.flatMap fun table => headingLines table ++ valueTable rules table rows) n := by
  induction tables generalizing body lines with
  | nil => simpa using h
  | cons table tables ih =>
    have hrest := ih (h.assemble rules table rows)
    simpa [List.append_assoc] using hrest

theorem markdownTables_skeleton (block : FinancialBlock) :
    markdownTables axes { block with rows := [] } = markdownTables axes block := rfl

theorem blockIntro_skeleton (block : FinancialBlock) (count : ℕ) :
    blockIntro axes { block with rows := [] } count = blockIntro axes block count := rfl

theorem streamOneBlock_spec (axes : List ContextAxis) (h : body.Holds lines n) (block : FinancialBlock) :
    (streamOneBlock rules axes body block).1 = block ∧
      (streamOneBlock rules axes body block).2.Holds (lines ++ blockSection rules axes block)
        (n + block.rows.length) := by
  cases hrows : block.rows with
  | nil =>
    have hblock : { block with rows := [] } = block := by rw [← hrows]
    have hbody := h.extend (blockIntro axes block 0)
    simp only [streamOneBlock, blockSection, hrows, hblock]
    exact ⟨rfl, by simpa using hbody⟩
  | cons row rows =>
    have hcounted : ({ body with rowCount := body.rowCount + block.rows.length }).Holds lines
        (n + block.rows.length) := ⟨h.1, by rw [h.2]⟩
    have hstarted := hcounted.extend (blockIntro axes block block.rows.length)
    have hfilled := hstarted.assembleAll rules (markdownTables axes block) block.rows
    have hne : block.rows.isEmpty = false := by simp [hrows]
    simp only [streamOneBlock, foldl_addRow, List.nil_append, List.map_map, Function.comp_def, hne,
      Bool.false_or, Bool.false_eq_true, if_false, markdownTables_skeleton, blockIntro_skeleton]
    refine ⟨trivial, ?_⟩
    rw [← hrows]
    simp only [blockSection, hne, Bool.false_eq_true, if_false]
    split
    · simpa [List.append_assoc] using hfilled
    · have hend := hfilled.extend (relationsSection block.relations)
      simpa [List.append_assoc] using hend

theorem streamBlocks_spec (axes : List ContextAxis) (blocks : List FinancialBlock) :
    (streamBlocks rules axes blocks).1 = blocks ∧
      (streamBlocks rules axes blocks).2.Holds (blocks.flatMap (blockSection rules axes))
        (blocks.map (·.rows.length)).sum := by
  induction blocks using List.reverseRecOn with
  | nil => exact ⟨rfl, Writer.holds_empty, rfl⟩
  | append_singleton blocks block ih =>
    obtain ⟨hwritten, hbody⟩ := ih
    obtain ⟨hdumped, hnext⟩ := streamOneBlock_spec rules axes hbody block
    unfold streamBlocks at hwritten hbody hnext hdumped ⊢
    rw [List.foldl_append]
    simp only [List.foldl_cons, List.foldl_nil]
    rw [hwritten, hdumped]
    refine ⟨rfl, ?_⟩
    simpa using hnext

theorem blockSection_head (axes : List ContextAxis) (block : FinancialBlock) :
    ∃ title rest, blockSection rules axes block = title :: rest ∧ title ≠ "" := by
  have hintro (count : ℕ) : ∃ title rest, blockIntro axes block count = title :: rest ∧ title ≠ "" := by
    refine ⟨_, _, rfl, ?_⟩
    intro h
    have hlist := congrArg String.toList h
    split at hlist <;> simp at hlist
  obtain ⟨title, rest, hlines, htitle⟩ := hintro block.rows.length
  unfold blockSection
  split
  · exact ⟨title, rest, hlines, htitle⟩
  · rw [hlines]
    exact ⟨title, _, rfl, htitle⟩

theorem publishStreamedMarkdown_of_holds (doc : PublishedDocument) (blocks : List FinancialBlock)
    (h : body.Holds (blocks.flatMap (blockSection rules axes)) n) :
    publishStreamedMarkdown rules doc body =
      "\n".intercalate (preamble rules doc n ++ blocks.flatMap (blockSection rules axes)) := by
  obtain ⟨⟨htext, -⟩, hcount⟩ := h
  unfold publishStreamedMarkdown
  rw [htext, hcount]
  cases blocks with
  | nil => simp
  | cons block blocks =>
    obtain ⟨title, rest, hlines, htitle⟩ := blockSection_head rules axes block
    rw [List.flatMap_cons, hlines, List.cons_append]
    have hne : "\n".intercalate (title :: (rest ++ blocks.flatMap (blockSection rules axes))) ≠ "" := by
      apply intercalate_ne_empty
      simpa using htitle
    rw [if_neg hne, String.intercalate_append_of_ne_nil (by simp [preamble]) (List.cons_ne_nil _ _)]

/-- The document as its `context.json` gives it back. -/
def reloaded (doc : PublishedDocument) : PublishedDocument :=
  { doc with axes := doc.axes.map fun axis => loadAxis (dumpAxis axis) }

theorem streamContext_spec (doc : PublishedDocument) :
    readContext (streamContext rules doc).1 = reloaded doc ∧
      (streamContext rules doc).2 = "\n".intercalate
        (preamble rules doc (doc.blocks.map (·.rows.length)).sum ++
          doc.blocks.flatMap (blockSection rules doc.axes)) := by
  obtain ⟨hwritten, hbody⟩ := streamBlocks_spec rules doc.axes doc.blocks
  constructor
  · simp only [streamContext, readContext, reloaded, hwritten, List.map_map, Function.comp_def]
  · exact publishStreamedMarkdown_of_holds rules _ doc.blocks hbody

end Body

end FinanceContext.Markdown
