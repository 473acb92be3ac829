import FinanceContext.CellSlices

namespace FinanceContext

open Dictionaries

section

variable {text : ContextText} {input : BuildInput} {file : CellsFile}

theorem mem_unitFound {cells : CellMap} (hcells : (cells.map Prod.fst).Nodup)
    {sheet : SheetLayout} {block : Block} {row : ℕ} {unit : String} :
    (row, unit) ∈ (cells.filterMap fun ((name, row, col), cell) =>
        if name = sheet.name ∧ row ∈ unitRows sheet block ∧ col = block.labelCol
        then (text.unitCaption cell).map (row, ·) else none) ↔
      row ∈ unitRows sheet block ∧
        (cellAt cells sheet.name row block.labelCol).bind text.unitCaption = some unit := by
  rw [List.mem_filterMap]
  constructor
  · rintro ⟨⟨⟨name, n, col⟩, cell⟩, hmem, hif⟩
    simp only at hif
    split_ifs at hif with hcond
    obtain ⟨rfl, hrow, rfl⟩ := hcond
    obtain ⟨shown, hshown, hpair⟩ := Option.map_eq_some_iff.mp hif
    obtain ⟨rfl, rfl⟩ := Prod.mk.inj hpair
    refine ⟨hrow, ?_⟩
    rw [cellAt, get_of_mem hcells hmem]
    exact hshown
  · rintro ⟨hrow, hbind⟩
    obtain ⟨cell, hcell, hunit⟩ := Option.bind_eq_some_iff.mp hbind
    refine ⟨((sheet.name, row, block.labelCol), cell), mem_of_get hcell, ?_⟩
    simp [hrow, hunit]

theorem headerUnit_file {sheet : SheetLayout} (hsheet : sheet ∈ input.layout.sheets)
    {block : Block} (hblock : block ∈ sheet.blocks) :
    text.headerUnit (fileReads text input file).headers sheet block =
      text.headerUnit (memoryReads text input file.cells).headers sheet block := by
  have hfile : ((fileReads text input file).headers.map Prod.fst).Nodup := nodup_keys_filled _
  have hmemory : ((memoryReads text input file.cells).headers.map Prod.fst).Nodup :=
    nodup_keys_filled _
  unfold ContextText.headerUnit
  refine congrArg (Option.map Prod.snd) (insertionSort_head_congr ?_ ?_)
  · rintro ⟨row, unit⟩
    rw [mem_unitFound hfile, mem_unitFound hmemory]
    apply and_congr_right
    intro hrow
    have hkept := rowKept_headers text file hsheet
      (axisRows_of_unitRows hblock hrow)
    rw [bind_kept hkept text.unitCaption fun _ => rfl]
  · rintro ⟨row, unit⟩ ha ⟨row', unit'⟩ hb hrow
    obtain rfl : row = row' := hrow
    have ha' := ((mem_unitFound hfile).mp ha).2
    have hb' := ((mem_unitFound hfile).mp hb).2
    rw [Option.some.inj (ha'.symm.trans hb')]

theorem buildAxes_file :
    text.buildAxes (fileReads text input file).headers input.layout =
      text.buildAxes (memoryReads text input file.cells).headers input.layout := by
  unfold ContextText.buildAxes
  apply List.flatMap_congr
  intro sheet hsheet
  apply List.filterMap_congr
  intro axis _
  have hflag (col : ℕ) : text.flagMap (fileReads text input file).headers sheet.name
      (sheet.flagRows axis) col =
        text.flagMap (memoryReads text input file.cells).headers sheet.name
          (sheet.flagRows axis) col := by
    unfold ContextText.flagMap
    refine congrArg filled (List.map_congr_left ?_)
    rintro ⟨row, key⟩ hzip
    have hrow := axisRows_of_flag (List.of_mem_zip hzip).1
    simp only [flagOn_kept (rowKept_headers text file hsheet (.inl hrow))]
  have hlive : text.liveFlags (fileReads text input file).headers sheet.name
      (sheet.flagRows axis) axis.seriesPeriods =
        text.liveFlags (memoryReads text input file.cells).headers sheet.name
          (sheet.flagRows axis) axis.seriesPeriods := by
    simp only [ContextText.liveFlags, hflag]
  have hperiod (period : AxisPeriod) (index : ℕ) :
      text.contextPeriod (fileReads text input file).headers sheet.name axis
        (sheet.flagRows axis) period index =
          text.contextPeriod (memoryReads text input file.cells).headers sheet.name axis
            (sheet.flagRows axis) period index := by
    unfold ContextText.contextPeriod
    rw [hflag, hlive]
  simp only [ContextText.annotateAxis, hperiod]

theorem buildBlocks_file (axes : List ContextAxis)
    (hswitch : ∀ name row, row ∈ (fileReads text input file).switches name ↔
      row ∈ (memoryReads text input file.cells).switches name) :
    buildBlocks text input (fileReads text input file) axes =
      buildBlocks text input (memoryReads text input file.cells) axes := by
  unfold buildBlocks
  apply List.flatMap_congr
  intro sheet hsheet
  apply List.map_congr_left
  intro block hblock
  unfold buildBlock
  simp only [headerUnit_file hsheet hblock]
  congr 1
  apply blockRows_same
  intro row hrow
  exact
    { kept := rowKept_load file (List.mem_map_of_mem hrow)
      switch := hswitch sheet.name row.row
      neighbors := rfl
      ranges := rfl }

theorem foldl_batches {σ : Type} (step : σ → Cell → σ) (state : σ) :
    file.batches.foldl (fun state batch => batch.foldl step state) state =
      file.cells.foldl step state := by
  rw [CellsFile.cells, List.foldl_flatten]

theorem formulaStats_file (notApplicable : List String) :
    (fileReads text input file).formulaStats notApplicable =
      (memoryReads text input file.cells).formulaStats notApplicable :=
  foldl_batches _ _

theorem occupied_file : (fileReads text input file).occupied =
    (memoryReads text input file.cells).occupied := by
  simp only [fileReads, memoryReads, CellsFile.cells, List.filter_flatten, List.flatMap_def]

theorem total_file : (fileReads text input file).total =
    (memoryReads text input file.cells).total := by
  simp only [fileReads, memoryReads, CellsFile.cells, List.length_flatten]

end

section

variable (text : ContextText) (input : BuildInput) (cells : List Cell)

def periodWarnings : List String := (cells.foldl text.periodWarningStep ([], [])).2

def leadingCount : ℕ :=
  (input.cellOrderWarnings.filter (· ≠ "")).length +
    if cells.any fun cell => Cell.given cell.formulaRaw && cell.unparsed then 1 else 0

/-- Which of the two groups of timeline warnings comes first does not show in the first fifty. -/
def WarningsCommute : Prop :=
  (input.layout.axisNotes ++ periodWarnings text cells).take (50 - leadingCount input cells) =
    (periodWarnings text cells ++ input.layout.axisNotes).take (50 - leadingCount input cells)

end

theorem unparsed_foldl (notApplicable : List String) (cells : List Cell) (stats : FormulaStats) :
    (cells.foldl (countFormulaCell notApplicable) stats).unparsed = stats.unparsed +
      (cells.filter fun cell => Cell.given cell.formulaRaw && cell.unparsed).length := by
  induction cells generalizing stats with
  | nil => rfl
  | cons cell cells ih =>
    have hstep : (countFormulaCell notApplicable stats cell).unparsed = stats.unparsed +
        if Cell.given cell.formulaRaw && cell.unparsed then 1 else 0 := by
      unfold countFormulaCell
      cases hgiven : Cell.given cell.formulaRaw with
      | false => simp
      | true =>
        cases hunparsed : cell.unparsed with
        | false => by_cases hmissing : cell.cachedValue = none <;> simp [hmissing]
        | true => by_cases hmissing : cell.cachedValue = none <;> simp [hmissing]
    rw [List.foldl_cons, ih, hstep, List.filter_cons]
    split_ifs
    · rw [List.length_cons]
      omega
    · omega

section

variable {text : ContextText} {input : BuildInput}

theorem length_rows_buildBlocks (reads : CellReads) (axes : List ContextAxis) :
    ((buildBlocks text input reads axes).flatMap (·.rows)).length =
      (input.layout.sheets.flatMap fun sheet => sheet.blocks.flatMap (·.rows)).length := by
  unfold buildBlocks
  induction input.layout.sheets with
  | nil => rfl
  | cons sheet sheets ih =>
    have hsheet : ((sheet.blocks.map (buildBlock text input reads axes sheet)).flatMap
        (·.rows)).length = (sheet.blocks.flatMap (·.rows)).length := by
      induction sheet.blocks with
      | nil => rfl
      | cons block blocks ihb =>
        have hrows : (buildBlock text input reads axes sheet block).rows.length =
            block.rows.length := text.length_blockRows _ _ _ _ _ _
        rw [List.map_cons, List.flatMap_cons, List.flatMap_cons, List.length_append, hrows, ihb,
          List.length_append]
    rw [List.flatMap_cons, List.flatMap_append, List.length_append, ih, hsheet,
      List.flatMap_cons, List.length_append]

theorem length_leadingWarnings (cells : List Cell) (notApplicable : List String) {streamed : ℕ}
    (h : streamed =
      (input.layout.sheets.flatMap fun sheet => sheet.blocks.flatMap (·.rows)).length) :
    (leadingWarnings input ((memoryReads text input cells).formulaStats notApplicable)
      streamed).length = leadingCount input cells := by
  have hunparsed := unparsed_foldl notApplicable cells {}
  have hstats : (memoryReads text input cells).formulaStats notApplicable =
      cells.foldl (countFormulaCell notApplicable) {} := rfl
  unfold leadingWarnings leadingCount
  rw [hstats]
  simp only [h, ne_eq, not_true, if_false, List.append_nil, List.length_append, hunparsed,
    Nat.zero_add, List.length_eq_zero_iff, List.filter_eq_nil_iff]
  congr 1
  by_cases hany : cells.any fun cell => Cell.given cell.formulaRaw && cell.unparsed
  · have hsome : ¬∀ cell ∈ cells, ¬(Cell.given cell.formulaRaw && cell.unparsed) = true := by
      simpa using hany
    rw [if_pos hany, if_pos hsome]
    rfl
  · have hnone : ∀ cell ∈ cells, ¬(Cell.given cell.formulaRaw && cell.unparsed) = true := by
      simpa using hany
    rw [if_neg hany, if_neg (not_not.mpr hnone)]
    rfl

end

theorem take_append_congr {α : Type} {pre x y post : List α} (hlen : x.length = y.length) (n : ℕ) :
    (pre ++ x ++ post).take n = (pre ++ y ++ post).take n ↔
      x.take (n - pre.length) = y.take (n - pre.length) := by
  simp only [List.append_assoc, List.take_append, hlen]
  constructor
  · intro h
    exact (List.append_inj (List.append_cancel_left h) (by simp [hlen])).1
  · intro h
    rw [h]

/-- What is published of a document; `markdown` is its rendering. -/
def publishedFiles (markdown : ContextDocument → String) (document : ContextDocument) :
    ContextDocument × String := (document, markdown document)

theorem buildContext_file_iff {text : ContextText} {input : BuildInput} {file : CellsFile}
    (hswitch : ∀ name row, row ∈ (fileReads text input file).switches name ↔
      row ∈ (memoryReads text input file.cells).switches name) :
    buildContext text input (fileReads text input file) =
        buildContext text input (memoryReads text input file.cells) ↔
      WarningsCommute text input file.cells := by
  have hwarnings : (buildContext text input (fileReads text input file)).warnings =
      (buildContext text input (memoryReads text input file.cells)).warnings ↔
        WarningsCommute text input file.cells := by
    have htrailing (stats : FormulaStats) :
        trailingWarnings text input (fileReads text input file) stats =
          trailingWarnings text input (memoryReads text input file.cells) stats := by
      simp only [trailingWarnings, occupied_file]
    have hfile : (fileReads text input file).timelineWarnings input.layout.axisNotes =
        input.layout.axisNotes ++ periodWarnings text file.cells :=
      congrArg (input.layout.axisNotes ++ ·) (congrArg Prod.snd (foldl_batches _ _))
    have hmemory : (memoryReads text input file.cells).timelineWarnings input.layout.axisNotes =
        periodWarnings text file.cells ++ input.layout.axisNotes := rfl
    simp only [buildContext, buildAxes_file, buildBlocks_file _ hswitch, formulaStats_file,
      htrailing, hfile, hmemory]
    rw [take_append_congr (by simp [Nat.add_comm]),
      length_leadingWarnings _ _ (length_rows_buildBlocks _ _)]
    rfl
  rw [← hwarnings]
  constructor
  · intro h
    rw [h]
  · intro h
    have hrest : (buildContext text input (fileReads text input file)).workbook =
        (buildContext text input (memoryReads text input file.cells)).workbook ∧
      (buildContext text input (fileReads text input file)).axes =
        (buildContext text input (memoryReads text input file.cells)).axes ∧
      (buildContext text input (fileReads text input file)).blocks =
        (buildContext text input (memoryReads text input file.cells)).blocks := by
      simp only [buildContext, buildAxes_file, buildBlocks_file _ hswitch, formulaStats_file,
        total_file, true_and]
    exact ContextDocument.ext_iff.mpr ⟨hrest.1, hrest.2.1, hrest.2.2, h⟩

/-- The file path publishes what the memory path does exactly when the kept cells of every sheet
lead to the rows that labels leave in and the order of two groups of warnings does not show. -/
theorem file_build_iff (markdown : ContextDocument → String) (text : ContextText)
    (input : BuildInput) (file : CellsFile) :
    ((∀ name row, row ∈ (fileReads text input file).switches name ↔
        row ∈ (memoryReads text input file.cells).switches name) ∧
      publishedFiles markdown (buildContext text input (fileReads text input file)) =
        publishedFiles markdown (buildContext text input (memoryReads text input file.cells))) ↔
      (∀ name, text.SlicesAgree input.definedNames name
        (file.cells.filter (·.sheet = name))) ∧ WarningsCommute text input file.cells := by
  have hpublished (a b : ContextDocument) :
      publishedFiles markdown a = publishedFiles markdown b ↔ a = b := by
    constructor
    · intro h
      exact congrArg Prod.fst h
    · intro h
      rw [h]
  have hswitches : (∀ name row, row ∈ (fileReads text input file).switches name ↔
      row ∈ (memoryReads text input file.cells).switches name) ↔
        ∀ name, text.SlicesAgree input.definedNames name (file.cells.filter (·.sheet = name)) :=
    forall_congr' fun name => SwitchText.selectorRows_switchRows_iff _ _ _
  rw [hpublished]
  constructor
  · rintro ⟨hswitch, hdoc⟩
    exact ⟨hswitches.mp hswitch, (buildContext_file_iff hswitch).mp hdoc⟩
  · rintro ⟨hslices, hcommute⟩
    have hswitch := hswitches.mpr hslices
    exact ⟨hswitch, (buildContext_file_iff hswitch).mpr hcommute⟩

section

def switchBookText : ContextText :=
  { ContextText.literal with
    callParts := fun kind formula => match kind with
      | .choose =>
        if formula = "=CHOOSE(B1,1,2)" then [["B1", "1", "2"]]
        else if formula = "=CHOOSE(B2,1,2)" then [["B2", "1", "2"]] else []
      | _ => []
    plainAddr := fun part =>
      if part = "B1" then some (2, 1) else if part = "B2" then some (2, 2) else none
    isSelectorLabel := fun label => label = "Selected scenario" }

def switchBook : CellsFile where
  batches :=
    let cell (row col : ℕ) (value formula : Option String) : Cell :=
      ⟨"PF", row + 1, col + 1, by omega, by omega, formula, none, value, none, false, false⟩
    [[cell 0 0 (some "Selected scenario") none, cell 0 1 (some "2") none,
      cell 1 0 (some "Tax case") none, cell 1 1 (some "1") none,
      cell 3 2 (some "2") (some "=CHOOSE(B1,1,2)"), cell 4 2 (some "2") (some "=CHOOSE(B1,1,2)"),
      cell 5 2 (some "1") (some "=CHOOSE(B2,1,2)"), cell 6 2 (some "1") (some "=CHOOSE(B2,1,2)")]]

def switchBookInput : BuildInput where
  sheets := [{ name := "PF" }]
  definedNames := []
  layout := ⟨[{
    name := "PF"
    blocks := [{
      blockId := "PF!params"
      labelCol := 1
      kind := .params
      axis := some ⟨"PF!params", 3, [{ col := 2, text := "Setting", role := some .unknown,
                                       periodKey := "Setting" }]⟩
      rows := [{ row := 2, label := "Tax case", cells := [{ col := 2, role := .unknown }] }] }] }]⟩

theorem values_switchBook :
    ((buildContext switchBookText switchBookInput (memoryReads switchBookText switchBookInput
      switchBook.cells)).blocks.flatMap (·.rows)).map (·.values) = [[some "1"]] ∧
    ((buildContext switchBookText switchBookInput (fileReads switchBookText switchBookInput
      switchBook)).blocks.flatMap (·.rows)).map (·.values) = [[none]] := by
  decide +kernel

/-- From the file the row without the label is a switch too, and its value is gone. -/
theorem switchBook_differs :
    2 ∈ (fileReads switchBookText switchBookInput switchBook).switches "PF" ∧
    2 ∉ (memoryReads switchBookText switchBookInput switchBook.cells).switches "PF" ∧
    ∀ markdown : ContextDocument → String,
      publishedFiles markdown (buildContext switchBookText switchBookInput
        (fileReads switchBookText switchBookInput switchBook)) ≠
      publishedFiles markdown (buildContext switchBookText switchBookInput
        (memoryReads switchBookText switchBookInput switchBook.cells)) := by
  refine ⟨by decide +kernel, by decide +kernel, fun markdown h => ?_⟩
  obtain ⟨hmemory, hfile⟩ := values_switchBook
  have hsame := congrArg Prod.fst h
  simp only [publishedFiles] at hsame
  rw [hsame, hmemory] at hfile
  exact absurd hfile (by decide)

end

end FinanceContext
