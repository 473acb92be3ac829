import FinanceContext.DirectReads

namespace FinanceContext.Trace

open Csr Dictionaries GraphIndex BreadthFirst

/-- Files whose edges start in formula cells. -/
structure FormulaFiles (text : GraphText) extends Files where
  sources : ∀ edge ∈ edges, isUsable edge = true →
    nodeTypeOf toFiles edge.source = some .calculated

section Definitions

variable (text : GraphText) (files : Files)

/-- `v` is a direct precedent or dependent of `u`, and `u` is the origin or no input. -/
def Goes (query : Query) (u v : String) : Prop :=
  (u ∈ startNodes text files query ∨ nodeTypeOf files u ≠ some .input) ∧
    match query.direction with
    | .precedents => DirectPrecedent text files u v
    | .dependents => DirectDependent text files u v

/-- The trace lists every cell within the depth, once, at its shortest distance. -/
def ListsReachable (query : Query) : Prop :=
  ((traceGraph text files query).nodes.map (·.nodeId)).Nodup ∧
    ∀ v d, (∃ node ∈ (traceGraph text files query).nodes, node.nodeId = v ∧ node.depth = d) ↔
      Distance (Goes text files query) (startNodes text files query) d v ∧ d ≤ depthOf query

def IsFilledCell (cell : Cell) : Prop :=
  nodeTypeOf files cell.node = some .calculated ∨ nodeTypeOf files cell.node = some .input

/-- Direct precedents and direct dependents are converses. -/
def Converse : Prop :=
  ∀ cell : Cell, IsFilledCell files cell → ∀ formula, nodeTypeOf files formula = some .calculated →
    (DirectPrecedent text files formula cell.node ↔ DirectDependent text files cell.node formula)

/-- A range that the formula reads holds the cell, and the cell is filed in the grid. -/
def GridReads (formula : String) (cell : Cell) : Prop :=
  Filed text files cell.sheet cell.col cell.row ∧ ∃ edge ∈ fwd files formula, ∃ node,
    parseRangeNode text.toCharTable edge.target = some node ∧ hasCells text files node = true ∧
      CoverIndex.holds cell.sheet cell.col cell.row node = true

/-- A range that the formula reads holds the cell as its id is parsed. -/
def CoverReads (formula : String) (cell : Cell) : Prop :=
  cell.node.toList.contains ':' = false ∧ ∃ sheet col row,
    parseNodeId text.toCharTable cell.node = some (sheet, col, row) ∧
      ∃ edge ∈ fwd files formula, ∃ node,
        parseRangeNode text.toCharTable edge.target = some node ∧
          CoverIndex.holds sheet col row node = true ∧
            (isWhole node = true → Expansion.cellPresent files.usage sheet row col = true)

/-- Both readings of a cell find the same formulas, those apart that reference it. -/
def ReadAlike : Prop :=
  ∀ cell : Cell, IsFilledCell files cell → ∀ formula, nodeTypeOf files formula = some .calculated →
    (∀ edge ∈ fwd files formula, edge.target ≠ cell.node) →
      (GridReads text files formula cell ↔ CoverReads text files formula cell)

end Definitions

variable {text : GraphText} {files : Files} {query : Query}

section Reachability

theorem isInput_precedents (hdirection : query.direction = .precedents) (u : String) :
    isInput text files query u = false ↔ nodeTypeOf files u ≠ some .input := by
  rw [isInput, hdirection, metaOf, nodeTypeOf]
  cases get u (index files) with
  | some row => simp
  | none =>
    simp only [Option.map_none, ne_eq, reduceCtorEq, not_false_eq_true, iff_true]
    rw [blankMeta]
    split
    · simp
    · split_ifs <;> simp

theorem leads_precedents (hdirection : query.direction = .precedents)
    (hmembers : query.rangeMembers = 0) {u v : String} :
    Leads text files query u v ↔ Goes text files query u v := by
  rw [Leads, Goes, mem_followed_precedents hdirection hmembers, isInput_precedents hdirection,
    hdirection, and_comm]

theorem leads_dependents (hdirection : query.direction = .dependents) {u v : String} :
    Leads text files query u v ↔ DirectDependent text files u v := by
  have hinput : isInput text files query u = false := by rw [isInput, hdirection]; rfl
  rw [Leads, mem_followed_dependents hdirection, hinput]
  simp

theorem path_goes (files : FormulaFiles text) (hmembers : query.rangeMembers = 0) {n : ℕ}
    {v : String} : Path (Leads text files.toFiles query) (startNodes text files.toFiles query) n v ↔
      Path (Goes text files.toFiles query) (startNodes text files.toFiles query) n v := by
  cases hdirection : query.direction with
  | precedents =>
    have hsame : Leads text files.toFiles query = Goes text files.toFiles query :=
      funext fun u => funext fun w => propext (leads_precedents hdirection hmembers)
    rw [hsame]
  | dependents =>
    constructor
    · intro hpath
      have hboth : Path (Goes text files.toFiles query) (startNodes text files.toFiles query) n v ∧
          (v ∈ startNodes text files.toFiles query ∨
            nodeTypeOf files.toFiles v = some .calculated) := by
        induction hpath with
        | start hs => exact ⟨.start hs, .inl hs⟩
        | @step n u v _ hleads ih =>
          have hdirect := (leads_dependents hdirection).mp hleads
          have hsource : nodeTypeOf files.toFiles v = some .calculated := by
            obtain ⟨edge, hedge, -⟩ := hdirect
            obtain ⟨hmem, husable, rfl⟩ := mem_fwd.mp hedge
            exact files.sources edge hmem husable
          refine ⟨ih.1.step ⟨?_, ?_⟩, .inr hsource⟩
          · rcases ih.2 with hs | hcalculated
            · exact .inl hs
            · exact .inr (by rw [hcalculated]; simp)
          · rw [hdirection]
            exact hdirect
      exact hboth.1
    · intro hpath
      induction hpath with
      | start hs => exact .start hs
      | step _ hgoes ih =>
        have hdirect := hgoes.2
        rw [hdirection] at hdirect
        exact ih.step ((leads_dependents hdirection).mpr hdirect)

theorem lists_reachable (files : FormulaFiles text) (hmembers : query.rangeMembers = 0) :
    ListsReachable text files.toFiles query := by
  obtain ⟨hnodup, hlists⟩ := trace_lists text files.toFiles query
  refine ⟨hnodup, fun v d => ?_⟩
  rw [hlists, CellDistance, Distance, Distance, path_goes files hmembers]
  simp only [path_goes files hmembers]

end Reachability

section Converses

theorem parseRangeNode_node (table : CharTable) (cell : Cell) :
    parseRangeNode table cell.node = none := by
  have hcolon : ':' ∉ (formatAddr cell.col cell.row).toList :=
    fun h => mem_formatAddr_ne h (by decide) (by decide)
  have hrange : isRangeNode cell.node = false := by
    unfold isRangeNode Cell.node Cell.addr
    rw [rsplitBang_nodeId]
    simpa using hcolon
  rw [parseRangeNode, hrange]
  rfl

theorem col_pos_of_filed {sheet : String} {col row : ℕ} (h : Filed text files sheet col row) :
    1 ≤ col := by
  obtain ⟨entry, -, -, hread⟩ := h
  obtain ⟨⟨name, body⟩, -, hread⟩ := Option.bind_eq_some_iff.mp hread
  obtain ⟨⟨c, r⟩, haddr, heq⟩ := Option.bind_eq_some_iff.mp hread
  obtain ⟨-, rfl, -⟩ : _ ∧ c = col ∧ r = row := by simpa using heq
  exact one_le_col_of_parseAddr haddr

theorem member_node {node : RangeNode} {cell : Cell} : Member text files node cell.node ↔
    CoverIndex.holds cell.sheet cell.col cell.row node = true ∧
      Filed text files cell.sheet cell.col cell.row := by
  have hsheet {sheet : String} {col row : ℕ}
      (h : CoverIndex.holds sheet col row node = true) : node.sheet = sheet := by
    simp only [CoverIndex.holds, Bool.and_eq_true, decide_eq_true_eq] at h
    exact h.1.1
  constructor
  · rintro ⟨col, row, hnode, hholds, hfiled⟩
    obtain ⟨hname, haddr⟩ := nodeId_inj (bang_notMem_formatAddr _ _) (bang_notMem_formatAddr _ _)
      hnode
    obtain ⟨hcol, hrow⟩ := formatAddr_inj cell.col_pos (col_pos_of_filed hfiled) haddr
    rw [hname, hcol, hrow]
    exact ⟨hholds, hfiled⟩
  · rintro ⟨hholds, hfiled⟩
    have hname := hsheet hholds
    refine ⟨cell.col, cell.row, ?_, hname ▸ hholds, hname ▸ hfiled⟩
    rw [hname]
    rfl

theorem directPrecedent_node {cell : Cell} (hfilled : IsFilledCell files cell) {formula : String} :
    DirectPrecedent text files formula cell.node ↔
      (∃ edge ∈ fwd files formula, edge.target = cell.node) ∨
        GridReads text files formula cell := by
  have htype : nodeTypeOf files cell.node ≠ some .empty := by
    rcases hfilled with h | h <;> rw [h] <;> simp
  unfold DirectPrecedent GridReads
  simp only [parseRangeNode_node, htype, member_node, ne_eq, not_false_eq_true, and_true]
  constructor
  · rintro ⟨edge, hedge, htarget | ⟨node, hparsed, hcells, hholds, hfiled⟩⟩
    · exact .inl ⟨edge, hedge, htarget⟩
    · exact .inr ⟨hfiled, edge, hedge, node, hparsed, hcells, hholds⟩
  · rintro (⟨edge, hedge, htarget⟩ | ⟨hfiled, edge, hedge, node, hparsed, hcells, hholds⟩)
    · exact ⟨edge, hedge, .inl htarget⟩
    · exact ⟨edge, hedge, .inr ⟨node, hparsed, hcells, hholds, hfiled⟩⟩

theorem directDependent_node {cell : Cell} {formula : String}
    (hformula : nodeTypeOf files formula = some .calculated) :
    DirectDependent text files cell.node formula ↔
      (∃ edge ∈ fwd files formula, edge.target = cell.node) ∨
        CoverReads text files formula cell := by
  have htype : nodeTypeOf files formula ≠ some .empty := by
    rw [hformula]
    simp
  unfold DirectDependent CoverReads Covered
  simp only [htype, ne_eq, not_false_eq_true, and_true]
  constructor
  · rintro ⟨edge, hedge, htarget | ⟨node, hparsed, sheet, col, row, hread, hcolon, hholds⟩⟩
    · exact .inl ⟨edge, hedge, htarget⟩
    · exact .inr ⟨hcolon, sheet, col, row, hread, edge, hedge, node, hparsed, hholds⟩
  · rintro (⟨edge, hedge, htarget⟩ |
      ⟨hcolon, sheet, col, row, hread, edge, hedge, node, hparsed, hholds⟩)
    · exact ⟨edge, hedge, .inl htarget⟩
    · exact ⟨edge, hedge, .inr ⟨node, hparsed, sheet, col, row, hread, hcolon, hholds⟩⟩

theorem converse_iff : Converse text files ↔ ReadAlike text files := by
  unfold Converse ReadAlike
  refine forall_congr' fun cell => forall_congr' fun hfilled => forall_congr' fun formula =>
    forall_congr' fun hformula => ?_
  rw [directPrecedent_node hfilled, directDependent_node hformula]
  have hnone : (∀ edge ∈ fwd files formula, edge.target ≠ cell.node) ↔
      ¬∃ edge ∈ fwd files formula, edge.target = cell.node := by
    simp
  rw [hnone]
  by_cases hdirect : ∃ edge ∈ fwd files formula, edge.target = cell.node
  · simp only [hdirect, true_or, not_true_eq_false, false_implies]
  · simp only [hdirect, false_or, not_false_eq_true, true_implies]

/-- The lists are right; precedents and dependents are converses when ids are read alike. -/
theorem trace_exact_iff (text : GraphText) (files : FormulaFiles text) :
    ((∀ query, query.rangeMembers = 0 → ListsReachable text files.toFiles query) ∧
        Converse text files.toFiles) ↔ ReadAlike text files.toFiles := by
  rw [converse_iff]
  constructor
  · exact And.right
  · exact fun h => ⟨fun query hmembers => lists_reachable files hmembers, h⟩

end Converses

section SheetWithBang

/-- `S!A1` sums `B1:B9` of the sheet `A!B`, where `B2` is filled. -/
def bangFiles : FormulaFiles yearText where
  cells := []
  rows := [⟨"S!A1", some "S", some "A1", none, none, .calculated⟩,
    ⟨"A!B!B2", some "A!B", some "B2", none, none, .input⟩]
  edges := [sampleEdge "S!A1" "A!B!B1:B9" "range"]
  usage := ⟨[], []⟩
  rowKeysForLabel := fun _ => []
  sources := by decide +kernel

def bangCell : Cell where
  sheet := "A!B"
  row := 2
  col := 2
  row_pos := place_two
  col_pos := place_two

def listed (query : Query) : List String :=
  (traceGraph yearText bangFiles.toFiles query).nodes.map (·.nodeId)

/-- `B2` finds its reader, and the reader does not find `B2`. -/
theorem bang_read_one_way :
    listed ⟨"A!B!B2", .dependents, 1, 0⟩ = ["A!B!B2", "S!A1"] ∧
      listed ⟨"S!A1", .precedents, 1, 0⟩ = ["S!A1"] ∧
        ¬((∀ query, query.rangeMembers = 0 → ListsReachable yearText bangFiles.toFiles query) ∧
          Converse yearText bangFiles.toFiles) := by
  have hup : (walk yearText bangFiles.toFiles ⟨"A!B!B2", .dependents, 1, 0⟩ 3).queue = [] := by
    decide +kernel
  have hdown : (walk yearText bangFiles.toFiles ⟨"S!A1", .precedents, 1, 0⟩ 3).queue = [] := by
    decide +kernel
  refine ⟨?_, ?_, ?_⟩
  · rw [listed, traceGraph_eq hup]
    decide +kernel
  · rw [listed, traceGraph_eq hdown]
    decide +kernel
  · rintro ⟨-, hconverse⟩
    have hfilled : IsFilledCell bangFiles.toFiles bangCell := .inr (by decide +kernel)
    have hiff := hconverse bangCell hfilled "S!A1" (by decide +kernel)
    have hreads : bangCell.node ∈ followed yearText bangFiles.toFiles
        ⟨"S!A1", .precedents, 1, 0⟩ "S!A1" := by
      apply (mem_followed_precedents rfl rfl).mpr
      apply hiff.mpr
      apply (@mem_followed_dependents _ _ ⟨"S!A1", .dependents, 1, 0⟩ _ _ rfl).mp
      decide +kernel
    have hnone : bangCell.node ∉ followed yearText bangFiles.toFiles
        ⟨"S!A1", .precedents, 1, 0⟩ "S!A1" := by decide +kernel
    exact hnone hreads

end SheetWithBang

section PlainNames

/-- A book whose filled cells stand on sheets with plain names, unique up to case, and are among
its present cells. -/
structure PlainBook (text : GraphText) (files : Files) (spans : List Span) : Prop where
  plain : ∀ cell : Cell, IsFilledCell files cell →
    PlainName text.toCharTable cell.sheet.toList ∧ ':' ∉ cell.sheet.toList
  names : (folding text).NamesUnique (filledSpans text files)
  usage : files.usage = (folding text).sheetUsageSpans spans
  usageNames : (folding text).NamesUnique spans
  present : ∀ cell : Cell, IsFilledCell files cell → ∃ span ∈ spans, span.sheet = cell.sheet ∧
    span.col = cell.col ∧ span.rows.1 ≤ cell.row ∧ cell.row ≤ span.rows.2

variable {spans : List Span} {cell : Cell}

theorem filed_of_plain (hbook : PlainBook text files spans) (hfilled : IsFilledCell files cell) :
    Filed text files cell.sheet cell.col cell.row := by
  have hplain := (hbook.plain cell hfilled).1
  have hread : splitCell text.toCharTable cell.node = some (cell.sheet, cell.col, cell.row) :=
    (splitCell_nodeId _ _ cell.col_pos).mpr ⟨hplain.noQuote.1, hplain.noBang⟩
  obtain ⟨row, hrow, htype⟩ : ∃ row, get cell.node (index files) = some row ∧
      isFilled row = true := by
    rcases hfilled with h | h <;> obtain ⟨row, hrow, htype⟩ := Option.map_eq_some_iff.mp h <;>
      exact ⟨row, hrow, by simp [isFilled, htype]⟩
  have hentry := mem_of_get hrow
  have hspan : (⟨cell.sheet, cell.col, cell.row, cell.row⟩ : Span) ∈ filledSpans text files :=
    mem_filledSpans.mpr ⟨rfl, _, hentry, htype, hread⟩
  refine ⟨_, hentry, htype, ?_⟩
  rw [grid, ← (Expansion.sheetName_iff hbook.names hspan cell.sheet).mpr rfl]
  exact hread

theorem cellPresent_of_plain (hbook : PlainBook text files spans)
    (hfilled : IsFilledCell files cell) :
    Expansion.cellPresent files.usage cell.sheet cell.row cell.col = true := by
  rw [hbook.usage, Expansion.cellPresent, IntervalRuns.runsHave_iff (Expansion.separated_itemsAt _ _ _ _),
    Expansion.covers_itemsAt_iff]
  exact hbook.present cell hfilled

theorem hasCells_of_plain (hbook : PlainBook text files spans) (hfilled : IsFilledCell files cell)
    {node : RangeNode} (hholds : CoverIndex.holds cell.sheet cell.col cell.row node = true) :
    hasCells text files node = true := by
  simp only [CoverIndex.holds, Bool.and_eq_true, decide_eq_true_eq] at hholds
  obtain ⟨⟨hsheet, hc1, hc2⟩, hr1, hr2⟩ := hholds
  obtain ⟨span, hspan, hname, hcol, hrow⟩ := hbook.present cell hfilled
  have hqueries := Expansion.usage_queries (folding text) spans hbook.usageNames node
    (hr1.trans hr2)
  have hpair := (hqueries.2.1 cell.row cell.col).mpr
    ⟨hc1, hc2, hr1, hr2, span, hspan, by rw [hname, hsheet], hcol, hrow⟩
  have hcount : 0 < (folding text).presentCount files.usage node := by
    rw [hbook.usage, hqueries.2.2.1]
    exact_mod_cast List.length_pos_of_mem hpair
  rw [hasCells]
  simp [hcount]

theorem readAlike_of_plain (hbook : PlainBook text files spans) : ReadAlike text files := by
  intro cell hfilled formula _ _
  obtain ⟨hplain, hcolon⟩ := hbook.plain cell hfilled
  have hread : parseNodeId text.toCharTable cell.node = some (cell.sheet, cell.col, cell.row) :=
    (parseNodeId_eq_iff _ _ cell.col_pos).mpr
      ⟨bareSheet_eq_self.mpr ⟨hplain.noBlank, hplain.noQuote, hplain.noPair⟩, hplain.nonempty⟩
  have hclear : cell.node.toList.contains ':' = false := by
    have haddr : ':' ∉ (formatAddr cell.col cell.row).toList :=
      fun h => mem_formatAddr_ne h (by decide) (by decide)
    simp [Cell.node, Cell.addr, nodeId, hcolon, haddr]
  constructor
  · rintro ⟨-, edge, hedge, node, hparsed, -, hholds⟩
    exact ⟨hclear, _, _, _, hread, edge, hedge, node, hparsed, hholds,
      fun _ => cellPresent_of_plain hbook hfilled⟩
  · rintro ⟨-, sheet, col, row, hplace, edge, hedge, node, hparsed, hholds, -⟩
    obtain ⟨rfl, rfl, rfl⟩ : cell.sheet = sheet ∧ cell.col = col ∧ cell.row = row := by
      simpa using hread.symm.trans hplace
    exact ⟨filed_of_plain hbook hfilled, edge, hedge, node, hparsed,
      hasCells_of_plain hbook hfilled hholds, hholds⟩

end PlainNames

end FinanceContext.Trace
