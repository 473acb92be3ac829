import FinanceContext.SheetReaders

namespace FinanceContext.Sheets

open Csr Dictionaries

structure SeenCell where
  col : ℕ
  row : ℕ
  kind : PresenceKind
  colPos : 1 ≤ col

def emitCell (st : BlankRuns × List CellPresence) (cell : SeenCell) :
    BlankRuns × List CellPresence :=
  let (runs, rows) := presenceEvents st.1 cell.col cell.row cell.kind
  (runs, st.2 ++ rows)

def sheetPresence (cells : List SeenCell) : List CellPresence :=
  let (runs, rows) := cells.foldl emitCell ([], [])
  rows ++ runs.finish.map closedRun

def SeenAs (kind : PresenceKind) (col row : ℕ) (cells : List SeenCell) : Prop :=
  ∃ cell ∈ cells, cell.kind = kind ∧ cell.col = col ∧ cell.row = row

instance (kind : PresenceKind) (col row : ℕ) (cells : List SeenCell) :
    Decidable (SeenAs kind col row cells) :=
  inferInstanceAs (Decidable (∃ cell ∈ cells, cell.kind = kind ∧ cell.col = col ∧ cell.row = row))

/-- The open run of the column holds the row. -/
def OpenAt (col x : ℕ) (runs : BlankRuns) : Prop :=
  ∃ run, get col runs = some run ∧ run.1 ≤ x ∧ x ≤ run.2

def ClosedAt (col x : ℕ) (closed : List (ℕ × ℕ × ℕ)) : Prop :=
  ∃ run ∈ closed, run.1 = col ∧ run.2.1 ≤ x ∧ x ≤ run.2.2

structure ProperRuns (runs : BlankRuns) : Prop where
  nodup : (runs.map Prod.fst).Nodup
  proper : ∀ run ∈ runs, 1 ≤ run.1 ∧ run.2.1 ≤ run.2.2

section Steps

variable {runs : BlankRuns} {col row c x : ℕ}

/-- What a step keeps of the open runs: nothing is lost but what it closes. -/
structure Passes (runs runs' : BlankRuns) (closed : List (ℕ × ℕ × ℕ)) (added : ℕ → ℕ → Prop) :
    Prop where
  openProper : ProperRuns runs'
  closedProper : ∀ run ∈ closed, 1 ≤ run.1 ∧ run.2.1 ≤ run.2.2
  cells : ∀ c x, ClosedAt c x closed ∨ OpenAt c x runs' ↔ OpenAt c x runs ∨ added c x

theorem ProperRuns.set (h : ProperRuns runs) (hcol : 1 ≤ col) {run : ℕ × ℕ}
    (hrun : run.1 ≤ run.2) : ProperRuns (set col run runs) := by
  refine ⟨nodup_keys_set h.nodup, fun entry hentry => ?_⟩
  rcases mem_of_mem_set hentry with rfl | hmem
  · exact ⟨hcol, hrun⟩
  · exact h.proper entry hmem

theorem openAt_set {run : ℕ × ℕ} : OpenAt c x (set col run runs) ↔
    if col = c then run.1 ≤ x ∧ x ≤ run.2 else OpenAt c x runs := by
  unfold OpenAt
  rw [get_set]
  split_ifs with hc
  · simp
  · rfl

theorem ProperRuns.passes_blank (h : ProperRuns runs) (hcol : 1 ≤ col) (row : ℕ) :
    Passes runs (runs.blank col row).1 (runs.blank col row).2 fun c x => c = col ∧ x = row := by
  unfold BlankRuns.blank
  cases hget : get col runs with
  | none =>
    refine ⟨h.set hcol le_rfl, List.forall_mem_nil _, fun c x => ?_⟩
    have hclosed : ¬ClosedAt c x [] := by simp [ClosedAt]
    rw [or_iff_right hclosed, openAt_set]
    split_ifs with hc
    · subst hc
      have hopen : ¬OpenAt col x runs := by simp [OpenAt, hget]
      rw [or_iff_right hopen]
      constructor
      · rintro hx
        exact ⟨rfl, by omega⟩
      · rintro ⟨-, rfl⟩
        exact ⟨le_rfl, le_rfl⟩
    · rw [or_iff_left fun hadded => hc hadded.1.symm]
  | some run =>
    obtain ⟨first, last⟩ := run
    have hproper := (h.proper _ (mem_of_get hget)).2
    have hopen (x : ℕ) : OpenAt col x runs ↔ first ≤ x ∧ x ≤ last := by
      simp [OpenAt, hget]
    dsimp only at hproper ⊢
    split_ifs with hnext hwithin
    · refine ⟨h.set hcol (by dsimp only; omega), List.forall_mem_nil _, fun c x => ?_⟩
      have hclosed : ¬ClosedAt c x [] := by simp [ClosedAt]
      rw [or_iff_right hclosed, openAt_set]
      split_ifs with hc
      · subst hc
        rw [hopen]
        dsimp only
        omega
      · rw [or_iff_left fun hadded => hc hadded.1.symm]
    · refine ⟨h, List.forall_mem_nil _, fun c x => ?_⟩
      have hclosed : ¬ClosedAt c x [] := by simp [ClosedAt]
      rw [or_iff_right hclosed]
      constructor
      · exact .inl
      · rintro (hold | ⟨rfl, rfl⟩)
        · exact hold
        · exact (hopen x).mpr hwithin
    · refine ⟨h.set hcol le_rfl, ?_, fun c x => ?_⟩
      · rw [List.forall_mem_singleton]
        exact ⟨hcol, hproper⟩
      · have hclosed : ClosedAt c x [(col, first, last)] ↔ col = c ∧ first ≤ x ∧ x ≤ last := by
          simp [ClosedAt]
        rw [hclosed, openAt_set]
        split_ifs with hc
        · subst hc
          rw [hopen]
          dsimp only
          omega
        · rw [or_iff_right fun hrun => hc hrun.1, or_iff_left fun hadded => hc hadded.1.symm]

theorem ProperRuns.passes_occupied (h : ProperRuns runs) (col row : ℕ) :
    Passes runs (runs.occupied col row).1 (runs.occupied col row).2 fun _ _ => False := by
  unfold BlankRuns.occupied
  have hkeep : Passes runs runs [] fun _ _ => False :=
    ⟨h, List.forall_mem_nil _, fun c x => by simp [ClosedAt]⟩
  cases hget : get col runs with
  | none => exact hkeep
  | some run =>
    obtain ⟨first, last⟩ := run
    have hmem := mem_of_get hget
    dsimp only
    split_ifs with hrow
    · exact hkeep
    · refine ⟨⟨h.nodup.sublist (List.filter_sublist.map _), fun entry hentry =>
        h.proper entry (List.mem_of_mem_filter hentry)⟩, ?_, fun c x => ?_⟩
      · rw [List.forall_mem_singleton]
        exact h.proper _ hmem
      · have hclosed : ClosedAt c x [(col, first, last)] ↔ col = c ∧ first ≤ x ∧ x ≤ last := by
          simp [ClosedAt]
        have hleft : OpenAt c x (runs.filter (·.1 ≠ col)) ↔ c ≠ col ∧ OpenAt c x runs := by
          have hget' := get_filter (fun key => decide (key ≠ col)) c runs
          unfold OpenAt
          rw [hget']
          by_cases hc : c = col <;> simp [hc]
        rw [hclosed, hleft, or_false]
        by_cases hc : col = c
        · subst hc
          simp [OpenAt, hget]
        · rw [or_iff_right fun hrun => hc hrun.1]
          exact ⟨fun hleft => hleft.2, fun hopen => ⟨Ne.symm hc, hopen⟩⟩

end Steps

variable (table : CharTable)

/-- A row stands for the cells from its address down to its end. -/
def Stands (row : CellPresence) (col x : ℕ) : Prop :=
  ∃ start, parseAddr table.decimal row.addr.toList = some (col, start) ∧ start ≤ x ∧ x ≤ row.rowEnd

def Shown (kind : PresenceKind) (col x : ℕ) (rows : List CellPresence) : Prop :=
  ∃ row ∈ rows, row.presence = kind ∧ Stands table row col x

/-- The rows so far and the open runs stand for the cells seen. -/
structure Emitted (cells : List SeenCell) (runs : BlankRuns) (rows : List CellPresence) :
    Prop where
  openProper : ProperRuns runs
  rowsProper : ∀ row ∈ rows, ∀ col start,
    parseAddr table.decimal row.addr.toList = some (col, start) → start ≤ row.rowEnd
  blanks : ∀ col x, SeenAs .styledBlank col x cells ↔
    Shown table .styledBlank col x rows ∨ OpenAt col x runs
  populated : ∀ col x, SeenAs .populated col x cells ↔ Shown table .populated col x rows

variable {table} {cells : List SeenCell} {runs : BlankRuns} {rows : List CellPresence}

theorem shown_append {kind : PresenceKind} {col x : ℕ} {rows' : List CellPresence} :
    Shown table kind col x (rows ++ rows') ↔
      Shown table kind col x rows ∨ Shown table kind col x rows' := by
  simp [Shown, or_and_right, exists_or]

theorem seenAs_append {kind : PresenceKind} {col x : ℕ} {cells' : List SeenCell} :
    SeenAs kind col x (cells ++ cells') ↔ SeenAs kind col x cells ∨ SeenAs kind col x cells' := by
  simp [SeenAs, or_and_right, exists_or]

theorem stands_formatAddr {kind : PresenceKind} {c start stop col x : ℕ} (hc : 1 ≤ c) :
    Stands table ⟨formatAddr c start, kind, stop⟩ col x ↔ c = col ∧ start ≤ x ∧ x ≤ stop := by
  simp only [Stands, parseAddr_formatAddr table start hc, Option.some.injEq, Prod.mk.injEq]
  constructor
  · rintro ⟨_, ⟨rfl, rfl⟩, hx⟩
    exact ⟨rfl, hx⟩
  · rintro ⟨rfl, hx⟩
    exact ⟨start, ⟨rfl, rfl⟩, hx⟩

theorem shown_closedRuns {kind : PresenceKind} {col x : ℕ} {closed : List (ℕ × ℕ × ℕ)}
    (hclosed : ∀ run ∈ closed, 1 ≤ run.1 ∧ run.2.1 ≤ run.2.2) :
    Shown table kind col x (closed.map closedRun) ↔
      kind = .styledBlank ∧ ClosedAt col x closed := by
  constructor
  · rintro ⟨row, hrow, hkind, hstands⟩
    obtain ⟨run, hrun, rfl⟩ := List.mem_map.mp hrow
    exact ⟨hkind.symm, run, hrun, (stands_formatAddr (hclosed run hrun).1).mp hstands⟩
  · rintro ⟨rfl, run, hrun, hx⟩
    exact ⟨closedRun run, List.mem_map_of_mem hrun, rfl,
      (stands_formatAddr (hclosed run hrun).1).mpr hx⟩

theorem proper_formatAddr {kind : PresenceKind} {c start stop : ℕ} (hc : 1 ≤ c)
    (hle : start ≤ stop) : ∀ col first, parseAddr table.decimal
      (⟨formatAddr c start, kind, stop⟩ : CellPresence).addr.toList = some (col, first) →
      first ≤ stop := by
  intro col first hparse
  rw [parseAddr_formatAddr table start hc] at hparse
  obtain ⟨-, rfl⟩ := Prod.mk.inj (Option.some.inj hparse)
  exact hle

theorem proper_closedRuns {closed : List (ℕ × ℕ × ℕ)}
    (hclosed : ∀ run ∈ closed, 1 ≤ run.1 ∧ run.2.1 ≤ run.2.2) :
    ∀ row ∈ closed.map closedRun, ∀ col start,
      parseAddr table.decimal row.addr.toList = some (col, start) → start ≤ row.rowEnd := by
  intro row hrow
  obtain ⟨run, hrun, rfl⟩ := List.mem_map.mp hrow
  exact proper_formatAddr (hclosed run hrun).1 (hclosed run hrun).2

theorem seenAs_singleton {kind : PresenceKind} {col x : ℕ} {cell : SeenCell} :
    SeenAs kind col x [cell] ↔ cell.kind = kind ∧ col = cell.col ∧ x = cell.row := by
  simp [SeenAs, eq_comm]

theorem Emitted.step (h : Emitted table cells runs rows) (cell : SeenCell) :
    Emitted table (cells ++ [cell]) (presenceEvents runs cell.col cell.row cell.kind).1
      (rows ++ (presenceEvents runs cell.col cell.row cell.kind).2) := by
  cases hkind : cell.kind with
  | styledBlank =>
    have hpass := h.openProper.passes_blank cell.colPos cell.row
    simp only [presenceEvents]
    refine ⟨hpass.openProper, ?_, fun col x => ?_, fun col x => ?_⟩
    · exact List.forall_mem_append.mpr ⟨h.rowsProper, proper_closedRuns hpass.closedProper⟩
    · have hcells := hpass.cells col x
      rw [seenAs_append, seenAs_singleton, h.blanks, shown_append,
        shown_closedRuns hpass.closedProper]
      simp only [hkind, true_and]
      tauto
    · rw [seenAs_append, seenAs_singleton, h.populated, shown_append,
        shown_closedRuns hpass.closedProper]
      simp [hkind]
  | populated =>
    have hpass := h.openProper.passes_occupied cell.col cell.row
    simp only [presenceEvents]
    have hself (kind : PresenceKind) (col x : ℕ) :
        Shown table kind col x [⟨formatAddr cell.col cell.row, .populated, cell.row⟩] ↔
          kind = .populated ∧ col = cell.col ∧ x = cell.row := by
      simp only [Shown, List.mem_singleton, exists_eq_left, stands_formatAddr cell.colPos]
      constructor
      · rintro ⟨rfl, rfl, hx⟩
        exact ⟨rfl, rfl, by omega⟩
      · rintro ⟨rfl, rfl, rfl⟩
        exact ⟨rfl, rfl, le_rfl, le_rfl⟩
    refine ⟨hpass.openProper, ?_, fun col x => ?_, fun col x => ?_⟩
    · refine List.forall_mem_append.mpr ⟨h.rowsProper,
        List.forall_mem_append.mpr ⟨proper_closedRuns hpass.closedProper, ?_⟩⟩
      rw [List.forall_mem_singleton]
      exact proper_formatAddr cell.colPos le_rfl
    · have hcells := hpass.cells col x
      rw [seenAs_append, seenAs_singleton, h.blanks, shown_append, shown_append,
        shown_closedRuns hpass.closedProper, hself]
      simp only [hkind, true_and, reduceCtorEq, false_and, or_false]
      tauto
    · rw [seenAs_append, seenAs_singleton, h.populated, shown_append, shown_append,
        shown_closedRuns hpass.closedProper, hself]
      simp [hkind]

theorem emitted_foldl (cells : List SeenCell) :
    Emitted table cells (cells.foldl emitCell ([], [])).1 (cells.foldl emitCell ([], [])).2 := by
  induction cells using List.reverseRecOn with
  | nil =>
    refine ⟨⟨List.nodup_nil, List.forall_mem_nil _⟩, List.forall_mem_nil _, ?_, ?_⟩ <;>
      simp [SeenAs, Shown, OpenAt]
  | append_singleton cells cell ih =>
    rw [List.foldl_append]
    exact ih.step cell

theorem mem_finish {run : ℕ × ℕ × ℕ} : run ∈ runs.finish ↔ run ∈ runs := by
  simp [BlankRuns.finish]

theorem closedAt_finish (h : ProperRuns runs) {col x : ℕ} :
    ClosedAt col x runs.finish ↔ OpenAt col x runs := by
  constructor
  · rintro ⟨run, hrun, rfl, hx⟩
    exact ⟨run.2, get_of_mem h.nodup (mem_finish.mp hrun), hx⟩
  · rintro ⟨run, hrun, hx⟩
    exact ⟨(col, run), mem_finish.mpr (mem_of_get hrun), rfl, hx⟩

theorem ProperRuns.finish (h : ProperRuns runs) :
    ∀ run ∈ runs.finish, 1 ≤ run.1 ∧ run.2.1 ≤ run.2.2 :=
  fun run hrun => h.proper run (mem_finish.mp hrun)

theorem shown_sheetPresence (cells : List SeenCell) (kind : PresenceKind) (col x : ℕ) :
    Shown table kind col x (sheetPresence cells) ↔ SeenAs kind col x cells := by
  have h := @emitted_foldl table cells
  unfold sheetPresence
  rw [shown_append, shown_closedRuns h.openProper.finish, closedAt_finish h.openProper]
  cases kind with
  | styledBlank => simp [h.blanks]
  | populated => simp [h.populated]

theorem proper_sheetPresence (cells : List SeenCell) :
    ∀ row ∈ sheetPresence cells, ∀ col start,
      parseAddr table.decimal row.addr.toList = some (col, start) → start ≤ row.rowEnd := by
  have h := @emitted_foldl table cells
  exact List.forall_mem_append.mpr ⟨h.rowsProper, proper_closedRuns h.openProper.finish⟩

section Reader

variable (book : BookParts) (sheet : Worksheet)

theorem one_le_of_pendingFromCell {rowElement : RowElement} {cell : CellElement}
    {place : ℕ × ℕ} {kind : PresenceKind}
    (h : (pendingFromCell book sheet rowElement cell).2 = some (place, kind)) : 1 ≤ place.1 := by
  unfold pendingFromCell at h
  split at h
  · cases h
  · split at h
    · cases h
    · rename_i col row hparse
      dsimp only at h
      split_ifs at h <;>
      · obtain ⟨rfl, -⟩ := Prod.mk.inj (Option.some.inj h)
        exact one_le_of_parseAddr book hparse

def seenCell (rowElement : RowElement) (cell : CellElement) : Option SeenCell :=
  match h : (pendingFromCell book sheet rowElement cell).2 with
  | none => none
  | some (place, kind) => some ⟨place.1, place.2, kind, one_le_of_pendingFromCell book sheet h⟩

def seenCells : List SeenCell :=
  sheet.rows.flatMap fun row => row.cells.filterMap (seenCell book sheet row)

theorem readCell_presence (row : RowElement) (st : DomState) (cell : CellElement) :
    ((st.readCell book sheet row cell).runs, (st.readCell book sheet row cell).presence) =
      ((seenCell book sheet row cell).toList.foldl emitCell (st.runs, st.presence)) := by
  have hkeep (st : DomState) (built : Option PendingCell) :
      (st.keep built).runs = st.runs ∧ (st.keep built).presence = st.presence := by
    cases built <;> exact ⟨rfl, rfl⟩
  unfold DomState.readCell seenCell
  rw [(hkeep _ _).1, (hkeep _ _).2]
  split
  · rename_i hseen
    rw [hseen]
    rfl
  · rename_i place kind hseen
    simp only [hseen]
    rfl

theorem readRow_presence (st : DomState) (row : RowElement) :
    ((st.readRow book sheet row).runs, (st.readRow book sheet row).presence) =
      (row.cells.filterMap (seenCell book sheet row)).foldl emitCell (st.runs, st.presence) := by
  unfold DomState.readRow
  generalize hst : ({ st with hiddenRows := addHiddenRow st.hiddenRows row } : DomState) = st'
  have hstart : (st.runs, st.presence) = (st'.runs, st'.presence) := by rw [← hst]
  rw [hstart]
  clear hst hstart
  induction row.cells generalizing st' with
  | nil => rfl
  | cons cell cells ih =>
    rw [List.foldl_cons, ih, readCell_presence]
    cases hseen : seenCell book sheet row cell <;> simp [hseen]

theorem parseSheet_presence :
    (parseSheet book sheet).presence = sheetPresence (seenCells book sheet) := by
  have hrows (rows : List RowElement) (st : DomState) :
      ((rows.foldl (DomState.readRow book sheet) st).runs,
        (rows.foldl (DomState.readRow book sheet) st).presence) =
      (rows.flatMap fun row => row.cells.filterMap (seenCell book sheet row)).foldl emitCell
        (st.runs, st.presence) := by
    induction rows generalizing st with
    | nil => rfl
    | cons row rows ih =>
      rw [List.foldl_cons, ih, readRow_presence, List.flatMap_cons, List.foldl_append]
  have hall := hrows sheet.rows {}
  unfold parseSheet sheetPresence seenCells
  rw [← hall]

end Reader

end FinanceContext.Sheets
