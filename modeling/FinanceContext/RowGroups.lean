import Mathlib.Data.Int.Notation
import Mathlib.Data.List.Basic
import Mathlib.Tactic.SplitIfs

namespace FinanceContext

variable {α : Type}

structure RowGroupWriter (α : Type) where
  rowGroupRows : ℤ
  buffered : ℕ
  chunks : List (List α)
  parts : List (List α)
  streaming : Bool
  closed : Bool
  /-- Rows wait in memory only until the first group is on disk. -/
  oneSide : if streaming = true then chunks = [] else parts = []

namespace RowGroupWriter

def create (rowGroupRows : ℤ) : RowGroupWriter α where
  rowGroupRows := rowGroupRows
  buffered := 0
  chunks := []
  parts := []
  streaming := false
  closed := false
  oneSide := rfl

def rows (writer : RowGroupWriter α) : List α := writer.parts.flatten ++ writer.chunks.flatten

/-- `_start_groups`: each pending chunk becomes a group. -/
def startGroups (writer : RowGroupWriter α) : RowGroupWriter α :=
  if writer.streaming = true then writer
  else
    { writer with
      buffered := 0
      chunks := []
      parts := writer.parts ++ writer.chunks
      streaming := true
      oneSide := rfl }

theorem streaming_startGroups (writer : RowGroupWriter α) :
    writer.startGroups.streaming = true := by
  unfold startGroups
  split_ifs with h
  · exact h
  · rfl

theorem chunks_startGroups (writer : RowGroupWriter α) : writer.startGroups.chunks = [] := by
  have hside := writer.startGroups.oneSide
  rwa [if_pos writer.streaming_startGroups] at hside

theorem rows_startGroups (writer : RowGroupWriter α) : writer.startGroups.rows = writer.rows := by
  unfold startGroups
  split_ifs with h
  · rfl
  · simp [rows]

theorem closed_startGroups (writer : RowGroupWriter α) :
    writer.startGroups.closed = writer.closed := by
  unfold startGroups
  split_ifs <;> rfl

/-- `_write_group`, after `_start_groups`. -/
def writeGroup (writer : RowGroupWriter α) (group : List α) : RowGroupWriter α :=
  { writer.startGroups with
    parts := writer.startGroups.parts ++ [group]
    oneSide := by
      rw [if_pos writer.streaming_startGroups]
      exact writer.chunks_startGroups }

theorem rows_writeGroup (writer : RowGroupWriter α) (group : List α) :
    (writer.writeGroup group).rows = writer.rows ++ group := by
  rw [← writer.rows_startGroups]
  simp [rows, writeGroup, writer.chunks_startGroups]

/-- `write_lists`; `none` is its error on a closed writer. -/
def writeLists (writer : RowGroupWriter α) (group : List α) : Option (RowGroupWriter α) :=
  if writer.closed = true then none
  else if group.isEmpty then some writer
  else if h : writer.streaming = false ∧
      (writer.rowGroupRows ≤ 0 ∨ (writer.buffered + group.length : ℤ) ≤ writer.rowGroupRows) then
    some
      { writer with
        buffered := writer.buffered + group.length
        chunks := writer.chunks ++ [group]
        oneSide := by
          have hside := writer.oneSide
          rw [h.1] at hside ⊢
          exact hside }
  else some (writer.writeGroup group)

theorem writeLists_spec {writer : RowGroupWriter α} (group : List α)
    (hopen : writer.closed = false) :
    ∃ writer', writer.writeLists group = some writer' ∧
      writer'.rows = writer.rows ++ group ∧ writer'.closed = false := by
  unfold writeLists
  rw [if_neg (by simp [hopen])]
  split_ifs with hempty hbuffer
  · refine ⟨writer, rfl, ?_, hopen⟩
    rw [List.isEmpty_iff.mp hempty, List.append_nil]
  · refine ⟨_, rfl, ?_, hopen⟩
    simp [rows]
  · refine ⟨_, rfl, writer.rows_writeGroup group, ?_⟩
    exact writer.closed_startGroups.trans hopen

theorem foldlM_writeLists_spec (groups : List (List α)) {writer : RowGroupWriter α}
    (hopen : writer.closed = false) :
    ∃ writer', groups.foldlM writeLists writer = some writer' ∧
      writer'.rows = writer.rows ++ groups.flatten ∧ writer'.closed = false := by
  induction groups generalizing writer with
  | nil => exact ⟨writer, rfl, by simp, hopen⟩
  | cons group groups ih =>
    obtain ⟨next, hnext, hrows, hclosed⟩ := writeLists_spec group hopen
    obtain ⟨last, hlast, hlastRows, hlastClosed⟩ := ih hclosed
    refine ⟨last, ?_, ?_, hlastClosed⟩
    · rw [List.foldlM_cons, hnext]
      exact hlast
    · rw [hlastRows, hrows, List.flatten_cons, List.append_assoc]

/-- `_finish`: the rows of the file. -/
def finish (writer : RowGroupWriter α) : List α :=
  if writer.streaming = false then writer.chunks.flatten
  else
    match writer.parts with
    | [] => []
    | [part] => part
    | parts => parts.flatten

theorem finish_eq_rows (writer : RowGroupWriter α) : writer.finish = writer.rows := by
  have hside := writer.oneSide
  unfold finish rows
  cases hstream : writer.streaming with
  | false =>
    rw [if_neg (by simp [hstream])] at hside
    simp [hside]
  | true =>
    rw [if_pos hstream] at hside
    rw [if_neg (by simp), hside]
    split <;> simp [*]

/-- What `close` writes; nothing when the writer is closed. -/
def close (writer : RowGroupWriter α) : Option (List α) :=
  if writer.closed = true then none else some writer.finish

theorem close_eq {writer : RowGroupWriter α} (hopen : writer.closed = false) :
    writer.close = some writer.rows := by
  rw [close, if_neg (by simp [hopen]), finish_eq_rows]

end RowGroupWriter

/-- The slices `rows[start : start + n]`, for `start` in steps of `n`. -/
def slices (n : ℕ) (rows : List α) : List (List α) :=
  (List.range ((rows.length + n - 1) / n)).map fun i => (rows.drop (i * n)).take n

theorem flatten_slices_range (n k : ℕ) (rows : List α) :
    ((List.range k).map fun i => (rows.drop (i * n)).take n).flatten = rows.take (k * n) := by
  induction k with
  | zero => simp
  | succ k ih =>
    rw [List.range_succ, List.map_append, List.flatten_append, ih, Nat.succ_mul, List.take_add]
    simp

theorem flatten_slices {n : ℕ} (hn : 0 < n) (rows : List α) : (slices n rows).flatten = rows := by
  rw [slices, flatten_slices_range]
  apply List.take_of_length_le
  have hdiv := Nat.div_add_mod (rows.length + n - 1) n
  have hmod := Nat.mod_lt (rows.length + n - 1) hn
  rw [Nat.mul_comm]
  omega

def writeParquet (rows : List α) (rowGroupRows : ℤ) : Option (List α) :=
  if rowGroupRows ≤ 0 ∨ (rows.length : ℤ) ≤ rowGroupRows then some rows
  else do
    let writer ← (slices rowGroupRows.toNat rows).foldlM RowGroupWriter.writeLists
      (RowGroupWriter.create rowGroupRows)
    writer.close

theorem writeParquet_eq (rows : List α) (rowGroupRows : ℤ) :
    writeParquet rows rowGroupRows = some rows := by
  unfold writeParquet
  split_ifs with h
  · rfl
  · have hopen : (RowGroupWriter.create rowGroupRows : RowGroupWriter α).closed = false := rfl
    obtain ⟨writer, hwriter, hrows, hclosed⟩ :=
      RowGroupWriter.foldlM_writeLists_spec (slices rowGroupRows.toNat rows) hopen
    have hpos : 0 < rowGroupRows.toNat := by omega
    rw [hwriter]
    change writer.close = some rows
    rw [RowGroupWriter.close_eq hclosed, hrows, flatten_slices hpos]
    rfl

end FinanceContext
