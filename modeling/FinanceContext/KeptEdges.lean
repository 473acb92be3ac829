import FinanceContext.CellKeys
import FinanceContext.FirstOccurrences
import FinanceContext.RowGroups

namespace FinanceContext.Csr

open FirstOccurrences

structure KeptEdgeWriter where
  rowGroupRows : ℤ
  count : ℕ := 0
  buf : List CellEdge := []
  bufN : ℕ := 0
  first : Option (List CellEdge) := none
  writer : Option (RowGroupWriter CellEdge) := none
  source : Option String := none
  keys : List Key := []
  tables : KeyTables := .empty
  keyHigh : ℕ := 0

namespace KeptEdgeWriter

variable (decimal : Char → Option ℕ)

def newKeys (sink : KeptEdgeWriter) : KeptEdgeWriter :=
  { sink with keyHigh := max sink.keyHigh sink.keys.length, keys := [], tables := .empty }

def maybeFlush (sink : KeptEdgeWriter) : Option KeptEdgeWriter :=
  if sink.rowGroupRows ≤ 0 ∨ (sink.bufN : ℤ) < sink.rowGroupRows then some sink
  else
    let full := sink.buf
    let sink := { sink with buf := [], bufN := 0 }
    match sink.writer with
    | some writer => do
      let writer ← writer.writeLists full
      pure { sink with writer := some writer }
    | none =>
      match sink.first with
      | none => some { sink with first := some full }
      | some first => do
        let writer ← (RowGroupWriter.create sink.rowGroupRows).writeLists first
        let writer ← writer.writeLists full
        pure { sink with writer := some writer, first := none }

def enter (sink : KeptEdgeWriter) (source : String) : KeptEdgeWriter :=
  if sink.source = some source then sink else { sink.newKeys with source := some source }

/-- One turn of the loop of `consume`. -/
def consumeRow (sink : KeptEdgeWriter) (row : CellEdge) : Option KeptEdgeWriter :=
  let sink := sink.enter row.source
  let (key, tables) := sink.tables.key decimal row.target row.kind
  let sink := { sink with tables := tables }
  if key ∈ sink.keys then some sink
  else
    let keys := key :: sink.keys
    maybeFlush
      { sink with
        keys := keys
        keyHigh := max sink.keyHigh keys.length
        buf := sink.buf ++ [row]
        bufN := sink.bufN + 1
        count := sink.count + 1 }

def consume (sink : KeptEdgeWriter) (rows : List CellEdge) : Option KeptEdgeWriter :=
  rows.foldlM (consumeRow decimal) sink

def pendingColumns (sink : KeptEdgeWriter) : List CellEdge :=
  match sink.first with
  | none => sink.buf
  | some first => if sink.bufN = 0 then first else first ++ sink.buf

/-- `finish`: the rows of the file, and the count it returns. -/
def finish (sink : KeptEdgeWriter) : Option (List CellEdge × ℕ) :=
  let sink := sink.newKeys
  if sink.count = 0 then do
    let file ← writeParquet [] sink.rowGroupRows
    pure (file, 0)
  else
    match sink.writer with
    | none => do
      let rowGroupRows := if sink.rowGroupRows ≤ 0 then 0 else sink.rowGroupRows
      let file ← writeParquet sink.pendingColumns rowGroupRows
      pure (file, sink.count)
    | some writer => do
      let writer ← if sink.bufN ≠ 0 then writer.writeLists sink.buf else some writer
      let file ← writer.close
      pure (file, sink.count)

/-- The rows in the groups written, in the first group and in the buffer. -/
structure Written (sink : KeptEdgeWriter) (rows : List CellEdge) : Prop where
  rows_eq : sink.writer.elim [] RowGroupWriter.rows ++ sink.first.getD [] ++ sink.buf = rows
  bufN_eq : sink.bufN = sink.buf.length
  count_eq : sink.count = rows.length
  opened : ∀ writer, sink.writer = some writer → writer.closed = false ∧ sink.first = none

/-- The keys are those of the targets and kinds seen in the run of the current source. -/
structure Holds (sink : KeptEdgeWriter) (state : Option String × List (String × String)) :
    Prop where
  source_eq : sink.source = state.1
  keys_eq : sink.keys.map some = state.2.map fun p => sink.tables.lookup decimal p.1 p.2

theorem maybeFlush_spec {sink : KeptEdgeWriter} {rows : List CellEdge} (h : sink.Written rows) :
    ∃ sink', sink.maybeFlush = some sink' ∧ sink'.Written rows ∧ sink'.source = sink.source ∧
      sink'.keys = sink.keys ∧ sink'.tables = sink.tables := by
  obtain ⟨hrows, hbufN, hcount, hopened⟩ := h
  unfold maybeFlush
  split_ifs with hroom
  · exact ⟨sink, rfl, ⟨hrows, hbufN, hcount, hopened⟩, rfl, rfl, rfl⟩
  · dsimp only
    cases hwriter : sink.writer with
    | some writer =>
      obtain ⟨hopen, hfirst⟩ := hopened writer hwriter
      obtain ⟨writer', hwrite, hrows', hopen'⟩ := RowGroupWriter.writeLists_spec sink.buf hopen
      rw [hwriter, hfirst] at hrows
      refine ⟨{ sink with buf := [], bufN := 0, writer := some writer' }, by simp [hwrite],
        ⟨?_, rfl, hcount, ?_⟩, rfl, rfl, rfl⟩
      · simpa [hfirst, hrows'] using hrows
      · rintro w hw
        obtain rfl := Option.some.inj hw
        exact ⟨hopen', hfirst⟩
    | none =>
      rw [hwriter] at hrows
      cases hfirst : sink.first with
      | none =>
        rw [hfirst] at hrows
        refine ⟨{ sink with buf := [], bufN := 0, first := some sink.buf }, by simp [hwriter],
          ⟨?_, rfl, hcount, ?_⟩, rfl, rfl, rfl⟩
        · simpa [hwriter] using hrows
        · intro w hw
          cases hwriter.symm.trans hw
      | some first =>
        rw [hfirst] at hrows
        have hnew : (RowGroupWriter.create sink.rowGroupRows : RowGroupWriter CellEdge).closed =
            false := rfl
        obtain ⟨w₁, hw₁, hrows₁, hopen₁⟩ := RowGroupWriter.writeLists_spec first hnew
        obtain ⟨w₂, hw₂, hrows₂, hopen₂⟩ := RowGroupWriter.writeLists_spec sink.buf hopen₁
        refine ⟨{ sink with buf := [], bufN := 0, writer := some w₂, first := none },
          by simp [hw₁, hw₂], ⟨?_, rfl, hcount, ?_⟩, rfl, rfl, rfl⟩
        · rw [← hrows]
          simp only [Option.elim_some, Option.elim_none, hrows₂, hrows₁, Option.getD_some,
            Option.getD_none, List.append_nil, List.nil_append]
          rfl
        · rintro w hw
          obtain rfl := Option.some.inj hw
          exact ⟨hopen₂, rfl⟩

/-- What `consume` tells rows of one source apart by. -/
def edgeKey (row : CellEdge) : String × String := (row.target, row.kind)

theorem enter_spec {sink : KeptEdgeWriter} {state : Option String × List (String × String)}
    {rows : List CellEdge} (source : String) (hwritten : sink.Written rows)
    (hholds : sink.Holds decimal state) :
    (sink.enter source).Written rows ∧
      (sink.enter source).Holds decimal
        (some source, if state.1 = some source then state.2 else []) := by
  unfold enter
  by_cases h : sink.source = some source
  · rw [if_pos h, if_pos (hholds.source_eq ▸ h)]
    exact ⟨hwritten, h, hholds.keys_eq⟩
  · rw [if_neg h, if_neg (hholds.source_eq ▸ h)]
    obtain ⟨hrows, hbufN, hcount, hopened⟩ := hwritten
    exact ⟨⟨hrows, hbufN, hcount, hopened⟩, rfl, rfl⟩

theorem consumeRow_spec {sink : KeptEdgeWriter} {state : Option String × List (String × String)}
    {rows : List CellEdge} (row : CellEdge) (hwritten : sink.Written rows)
    (hholds : sink.Holds decimal state) :
    ∃ sink', sink.consumeRow decimal row = some sink' ∧
      sink'.Written (rows ++ runFirsts CellEdge.source edgeKey state [row]) ∧
      sink'.Holds decimal (runSeen CellEdge.source edgeKey state row) := by
  obtain ⟨hwritten, hsource, hkeys⟩ := enter_spec decimal row.source hwritten hholds
  unfold consumeRow
  dsimp only
  generalize sink.enter row.source = entered at hwritten hsource hkeys
  generalize hseen : (if state.1 = some row.source then state.2 else []) = seen at hsource hkeys
  obtain ⟨hext, hself⟩ := entered.tables.key_spec decimal row.target row.kind
  generalize entered.tables.key decimal row.target row.kind = keyed at hext hself
  obtain ⟨key, tables⟩ := keyed
  dsimp only at hext hself hsource hkeys ⊢
  have hkeys' := KeyTables.map_lookup_of_extends hext hkeys
  have hmem : key ∈ entered.keys ↔ edgeKey row ∈ seen :=
    KeyTables.mem_iff_of_map_lookup hkeys' hself
  have hnew : runFirsts CellEdge.source edgeKey state [row] =
      if edgeKey row ∈ seen then [] else [row] := by
    rw [← hseen]
    by_cases hrun : state.1 = some row.source <;> simp [runFirsts, hrun]
  have hnext : runSeen CellEdge.source edgeKey state row =
      (some row.source, if edgeKey row ∈ seen then seen else edgeKey row :: seen) := by
    rw [← hseen]
    by_cases hrun : state.1 = some row.source <;> simp [runSeen, hrun]
  rw [hnew, hnext]
  obtain ⟨hrows, hbufN, hcount, hopened⟩ := hwritten
  by_cases hkey : edgeKey row ∈ seen
  · rw [if_pos (hmem.mpr hkey), if_pos hkey, if_pos hkey, List.append_nil]
    exact ⟨_, rfl, ⟨hrows, hbufN, hcount, hopened⟩, hsource, hkeys'⟩
  · rw [if_neg (fun h => hkey (hmem.mp h)), if_neg hkey, if_neg hkey]
    -- The state just before `_maybe_flush` already holds one more row.
    have hfull : Written
        { entered with
          tables := tables
          keys := key :: entered.keys
          keyHigh := max entered.keyHigh (key :: entered.keys).length
          buf := entered.buf ++ [row]
          bufN := entered.bufN + 1
          count := entered.count + 1 } (rows ++ [row]) :=
      ⟨by rw [← hrows]; simp, by simp [hbufN], by simp [hcount], hopened⟩
    obtain ⟨sink', hsink', hwritten', hsource', hkeysEq, htables⟩ := maybeFlush_spec hfull
    refine ⟨sink', hsink', hwritten', hsource'.trans hsource, ?_⟩
    rw [hkeysEq, htables, List.map_cons, List.map_cons, hkeys']
    exact congrArg (· :: _) hself.symm

theorem consume_spec {sink : KeptEdgeWriter} {state : Option String × List (String × String)}
    {rows : List CellEdge} (incoming : List CellEdge) (hwritten : sink.Written rows)
    (hholds : sink.Holds decimal state) :
    ∃ sink', sink.consume decimal incoming = some sink' ∧
      sink'.Written (rows ++ runFirsts CellEdge.source edgeKey state incoming) := by
  induction incoming generalizing sink state rows with
  | nil => exact ⟨sink, rfl, by simpa [runFirsts] using hwritten⟩
  | cons row incoming ih =>
    obtain ⟨next, hnext, hwritten, hholds⟩ := consumeRow_spec decimal row hwritten hholds
    obtain ⟨last, hlast, hwritten⟩ := ih hwritten hholds
    refine ⟨last, ?_, ?_⟩
    · rw [consume, List.foldlM_cons, hnext]
      exact hlast
    · rw [← List.singleton_append, runFirsts_append, ← List.append_assoc]
      exact hwritten

theorem pendingColumns_eq {sink : KeptEdgeWriter} {rows : List CellEdge}
    (h : sink.Written rows) (hwriter : sink.writer = none) : sink.pendingColumns = rows := by
  obtain ⟨hrows, hbufN, -, -⟩ := h
  rw [hwriter] at hrows
  unfold pendingColumns
  cases hfirst : sink.first with
  | none => simpa [hfirst] using hrows
  | some first =>
    have hfirstBuf : first ++ sink.buf = rows := by simpa [hfirst] using hrows
    dsimp only
    split_ifs with hempty
    · rw [hbufN, List.length_eq_zero_iff] at hempty
      rw [← hfirstBuf, hempty, List.append_nil]
    · exact hfirstBuf

theorem finish_spec {sink : KeptEdgeWriter} {rows : List CellEdge} (h : sink.Written rows) :
    sink.finish = some (rows, rows.length) := by
  have hnew : sink.newKeys.Written rows := ⟨h.rows_eq, h.bufN_eq, h.count_eq, h.opened⟩
  unfold finish
  dsimp only
  generalize sink.newKeys = sink at hnew
  by_cases hzero : sink.count = 0
  · have hnil : rows = [] := List.length_eq_zero_iff.mp (hnew.count_eq.symm.trans hzero)
    rw [if_pos hzero, writeParquet_eq, hnil]
    rfl
  · rw [if_neg hzero, ← hnew.count_eq]
    cases hwriter : sink.writer with
    | none =>
      dsimp only
      rw [writeParquet_eq, pendingColumns_eq hnew hwriter]
      rfl
    | some writer =>
      obtain ⟨hopen, hfirst⟩ := hnew.opened writer hwriter
      have hrows : writer.rows ++ sink.buf = rows := by
        simpa [hwriter, hfirst] using hnew.rows_eq
      dsimp only
      by_cases hrest : sink.bufN ≠ 0
      · obtain ⟨writer', hwrite, hrows', hopen'⟩ :=
          RowGroupWriter.writeLists_spec sink.buf hopen
        rw [if_pos hrest, hwrite]
        change (writer'.close.bind fun file => some (file, sink.count)) = _
        rw [RowGroupWriter.close_eq hopen', hrows', hrows]
        rfl
      · have hbuf : sink.buf = [] :=
          List.length_eq_zero_iff.mp (hnew.bufN_eq.symm.trans (not_not.mp hrest))
        rw [if_neg hrest]
        change (writer.close.bind fun file => some (file, sink.count)) = _
        rw [RowGroupWriter.close_eq hopen, ← hrows, hbuf, List.append_nil]
        rfl

end KeptEdgeWriter

section Batches

variable {α σ : Type}

/-- The columns not yet consumed, the consumer and the rows consumed. -/
structure Batch (α σ : Type) where
  columns : List α
  sink : σ
  count : ℕ

def Batch.flush (consume : σ → List α → Option σ) (batch : Batch α σ) : Option (Batch α σ) :=
  if batch.columns.isEmpty then some batch
  else do
    let sink ← consume batch.sink batch.columns
    pure ⟨[], sink, batch.count + batch.columns.length⟩

def Batch.append (consume : σ → List α → Option σ) (limit : ℤ) (batch : Batch α σ) (row : α) :
    Option (Batch α σ) :=
  let batch := { batch with columns := batch.columns ++ [row] }
  if limit ≠ 0 ∧ limit ≤ batch.columns.length then batch.flush consume else some batch

theorem Batch.flush_eq (step : σ → α → Option σ) (batch : Batch α σ) :
    batch.flush (fun s l => l.foldlM step s) =
      (batch.columns.foldlM step batch.sink).map fun sink =>
        ⟨[], sink, batch.count + batch.columns.length⟩ := by
  obtain ⟨columns, sink, count⟩ := batch
  unfold Batch.flush
  cases columns with
  | nil => rfl
  | cons a l =>
    dsimp only [List.isEmpty_cons]
    cases (a :: l).foldlM step sink <;> rfl

theorem Batch.append_eq (step : σ → α → Option σ) (limit : ℤ) (batch : Batch α σ) (row : α) :
    batch.append (fun s l => l.foldlM step s) limit row =
      if limit ≠ 0 ∧ limit ≤ (batch.columns ++ [row]).length then
        ((batch.columns ++ [row]).foldlM step batch.sink).map fun sink =>
          ⟨[], sink, batch.count + (batch.columns ++ [row]).length⟩
      else some ⟨batch.columns ++ [row], batch.sink, batch.count⟩ := by
  unfold Batch.append
  dsimp only
  rw [Batch.flush_eq]

theorem Batch.run_eq (step : σ → α → Option σ) (limit : ℤ) (rows : List α) (batch : Batch α σ) :
    (rows.foldlM (Batch.append (fun s l => l.foldlM step s) limit) batch >>=
        Batch.flush fun s l => l.foldlM step s) =
      ((batch.columns ++ rows).foldlM step batch.sink).map fun sink =>
        ⟨[], sink, batch.count + (batch.columns ++ rows).length⟩ := by
  induction rows generalizing batch with
  | nil =>
    rw [List.append_nil]
    exact Batch.flush_eq step batch
  | cons row rows ih =>
    have hcolumns : batch.columns ++ row :: rows = (batch.columns ++ [row]) ++ rows := by simp
    rw [List.foldlM_cons, bind_assoc, Batch.append_eq, hcolumns]
    generalize batch.columns ++ [row] = columns
    split_ifs with hfull
    · rw [List.foldlM_append]
      cases columns.foldlM step batch.sink with
      | none => rfl
      | some sink =>
        refine (ih _).trans ?_
        rw [List.nil_append, List.length_append, Nat.add_assoc]
        rfl
    · exact ih _

end Batches

variable (ex : Expansion) (book : Workbook)

/-- `expand_cell_edges_column_batches`, with the sink it fills. -/
def expandCellEdgesColumnBatches {σ : Type} (consume : σ → List CellEdge → Option σ)
    (batchSize : ℤ) (edges : List Edge) (sink : σ) : Option (σ × ℕ) := do
  let limit := if 0 < batchSize then batchSize else 0
  let batch ← edges.foldlM (fun batch edge =>
    (ex.edgeRows edge).foldlM (fun batch row => batch.append consume limit (book.cellEdge row))
      batch) (⟨[], sink, 0⟩ : Batch CellEdge σ)
  let batch ← batch.flush consume
  pure (batch.sink, batch.count)

/-- `_write_cell_edge_batches`: the file and the count. -/
def writeCellEdgeBatches (batchSize rowGroupRows : ℤ) (edges : List Edge) :
    Option (List CellEdge × ℕ) := do
  let (sink, _) ← expandCellEdgesColumnBatches ex book (KeptEdgeWriter.consume ex.decimal)
    batchSize edges { rowGroupRows := rowGroupRows }
  sink.finish

theorem foldlM_edgeRows {τ : Type} (step : τ → CellEdge → Option τ) (edges : List Edge)
    (init : τ) :
    edges.foldlM (fun s edge =>
        (ex.edgeRows edge).foldlM (fun s row => step s (book.cellEdge row)) s) init =
      ((edges.flatMap ex.edgeRows).map book.cellEdge).foldlM step init := by
  induction edges generalizing init with
  | nil => rfl
  | cons edge edges ih =>
    simp only [List.foldlM_cons, List.flatMap_cons, List.map_append, List.foldlM_append,
      List.foldlM_map, ih]

theorem expandCellEdgesColumnBatches_eq {σ : Type} (step : σ → CellEdge → Option σ)
    (batchSize : ℤ) (edges : List Edge) (sink : σ) :
    expandCellEdgesColumnBatches ex book (fun s l => l.foldlM step s) batchSize edges sink =
      (((edges.flatMap ex.edgeRows).map book.cellEdge).foldlM step sink).map fun sink =>
        (sink, (edges.flatMap ex.edgeRows).length) := by
  unfold expandCellEdgesColumnBatches
  dsimp only
  rw [foldlM_edgeRows ex book, ← bind_assoc, Batch.run_eq]
  dsimp only
  rw [List.nil_append, List.length_map, Nat.zero_add]
  generalize ((edges.flatMap ex.edgeRows).map book.cellEdge).foldlM step sink = result
  cases result <;> rfl

theorem foldl_expandRow (rows : List EdgeRow)
    (state : List CellEdge × List (String × String × String)) :
    (rows.foldl (expandRow book) state).1 =
      state.1 ++ firsts (fun row => (row.source, KeptEdgeWriter.edgeKey row)) state.2
        (rows.map book.cellEdge) := by
  induction rows generalizing state with
  | nil => simp [firsts]
  | cons row rows ih =>
    rw [List.foldl_cons, ih, List.map_cons]
    by_cases hseen : (row.source, row.target, row.kind) ∈ state.2
    · simp [expandRow, firsts, KeptEdgeWriter.edgeKey, Workbook.cellEdge, hseen]
    · simp [expandRow, firsts, KeptEdgeWriter.edgeKey, Workbook.cellEdge, hseen]

theorem expandCellEdges_eq (edges : List Edge) :
    expandCellEdges ex book edges =
      firsts (fun row => (row.source, KeptEdgeWriter.edgeKey row)) []
        ((edges.flatMap ex.edgeRows).map book.cellEdge) := by
  unfold expandCellEdges
  rw [← List.foldl_flatMap, foldl_expandRow]
  rfl

theorem contiguous_rows {edges : List Edge} (h : Contiguous (edges.map Edge.source)) :
    Contiguous (((edges.flatMap ex.edgeRows).map book.cellEdge).map CellEdge.source) := by
  rw [List.map_map]
  exact Contiguous.flatMap Edge.source _ ex.edgeRows
    (fun _ _ hrow => ex.source_of_mem_edgeRows hrow) h

/-- The batches, the packed keys and the row groups leave no trace in the file: it holds the
rows of the plain expansion, and no two targets or kinds of one source share a key. -/
theorem column_batches_eq_expansion (batchSize rowGroupRows : ℤ) (edges : List Edge)
    (h : Contiguous (edges.map Edge.source)) :
    writeCellEdgeBatches ex book batchSize rowGroupRows edges =
        some (expandCellEdges ex book edges, (expandCellEdges ex book edges).length) ∧
      ∀ (pairs : List (String × String)) (i j : ℕ),
        (KeyTables.keyRun ex.decimal .empty pairs)[i]? =
          (KeyTables.keyRun ex.decimal .empty pairs)[j]? ↔ pairs[i]? = pairs[j]? := by
  refine ⟨?_, KeyTables.keyRun_eq_iff ex.decimal .empty⟩
  rw [expandCellEdges_eq, firsts_eq_runFirsts _ _ (contiguous_rows ex book h)]
  have hwritten : KeptEdgeWriter.Written { rowGroupRows := rowGroupRows } [] :=
    ⟨rfl, rfl, rfl, fun _ hw => nomatch hw⟩
  have hholds : KeptEdgeWriter.Holds ex.decimal { rowGroupRows := rowGroupRows } (none, []) :=
    ⟨rfl, rfl⟩
  obtain ⟨sink, hsink, hwritten⟩ := KeptEdgeWriter.consume_spec ex.decimal
    ((edges.flatMap ex.edgeRows).map book.cellEdge) hwritten hholds
  have hbatches : expandCellEdgesColumnBatches ex book (KeptEdgeWriter.consume ex.decimal)
      batchSize edges { rowGroupRows := rowGroupRows } =
        some (sink, (edges.flatMap ex.edgeRows).length) := by
    apply (expandCellEdgesColumnBatches_eq ex book (KeptEdgeWriter.consumeRow ex.decimal)
      batchSize edges { rowGroupRows := rowGroupRows }).trans
    rw [show List.foldlM _ _ _ = some sink from hsink]
    rfl
  unfold writeCellEdgeBatches
  rw [hbatches]
  exact KeptEdgeWriter.finish_spec hwritten

section Sample

def sampleEdges : List Edge :=
  [{ kind := "range", source := "S!C1", target := some "S!A1:B2" },
    { kind := "ref", source := "S!C1", target := some "S!A1" },
    { kind := "ref", source := "S!C1", target := some "S!A1" },
    { kind := "external", source := "S!C2", target := some "[1]S!A1" }]

def sampleExpansion : Expansion where
  casefold := id
  decimal ch := if ch.isDigit then some (ch.toNat - 48) else none
  rangeCap := 10
  nodeMinCells := 10
  usage := none

def sampleWorkbook : Workbook := ⟨fun _ => false, ["S"], []⟩

theorem column_batches_eq_expansion_sample :
    Contiguous (sampleEdges.map Edge.source) ∧
      (writeCellEdgeBatches sampleExpansion sampleWorkbook 2 3 sampleEdges =
          some (expandCellEdges sampleExpansion sampleWorkbook sampleEdges,
            (expandCellEdges sampleExpansion sampleWorkbook sampleEdges).length) ∧
        ∀ (pairs : List (String × String)) (i j : ℕ),
          (KeyTables.keyRun sampleExpansion.decimal .empty pairs)[i]? =
            (KeyTables.keyRun sampleExpansion.decimal .empty pairs)[j]? ↔
              pairs[i]? = pairs[j]?) := by
  have hruns : Contiguous (sampleEdges.map Edge.source) := by decide
  exact ⟨hruns, column_batches_eq_expansion sampleExpansion sampleWorkbook 2 3 sampleEdges hruns⟩

end Sample

end FinanceContext.Csr
