import FinanceContext.SheetReaders

namespace FinanceContext.Sheets

open Csr Dictionaries

section Masters

def mastersOf (cells : List PendingCell) : List (ℕ × Master) := cells.foldl addMaster []

theorem mastersOf_concat (cells : List PendingCell) (cell : PendingCell) :
    mastersOf (cells ++ [cell]) = addMaster (mastersOf cells) cell := by
  simp [mastersOf, List.foldl_append]

/-- The cell at a place takes its formula from a master of the index. -/
def MemberAt (cells : List PendingCell) (si j : ℕ) : Prop :=
  ∃ cell, cells[j]? = some cell ∧ memberOf cell = some si

/-- How many cells have been handed over when the one at a place is read. -/
def flushedBefore (m : ℕ) : ℕ := flushRows * (m / flushRows)

/-- What the first master of an index at a place completes: the members before it, and every cell
handed over that has the address of such a member handed over. -/
def Touches (cells : List PendingCell) (si m j : ℕ) : Prop :=
  j < m ∧ MemberAt cells si j ∨
    j < flushedBefore m ∧ ∃ i < flushedBefore m, MemberAt cells si i ∧
      (cells[i]?).map PendingCell.addr = (cells[j]?).map PendingCell.addr

/-- The cell at `m` is the first master of its index, and its formula is written at `j`. -/
def Writes (cells : List PendingCell) (m : ℕ) (master : Master) (j : ℕ) : Prop :=
  ∃ si cell, cells[m]? = some cell ∧ masterOf cell = some (si, master) ∧
    get si (mastersOf (cells.take m)) = none ∧ Touches cells si m j

def LastWrites (cells : List PendingCell) (m : ℕ) (master : Master) (j : ℕ) : Prop :=
  Writes cells m master j ∧ ∀ m' master', m < m' → ¬Writes cells m' master' j

theorem flushedBefore_le (m : ℕ) : flushedBefore m ≤ m := Nat.mul_div_le m flushRows

theorem flushedBefore_of {m stored batch : ℕ} (hm : stored + batch = m)
    (hwhole : flushRows ∣ stored) (hshort : batch < flushRows) : flushedBefore m = stored := by
  obtain ⟨q, rfl⟩ := hwhole
  have hpos : 0 < flushRows := by omega
  rw [flushedBefore, ← hm, Nat.mul_add_div hpos, Nat.div_eq_of_lt hshort, Nat.add_zero]

theorem Touches.lt {cells : List PendingCell} {si m j : ℕ} (h : Touches cells si m j) : j < m := by
  rcases h with ⟨hj, -⟩ | ⟨hj, -⟩
  · exact hj
  · exact hj.trans_le (flushedBefore_le m)

theorem Writes.lt {cells : List PendingCell} {master : Master} {m j : ℕ}
    (h : Writes cells m master j) : j < m ∧ m < cells.length := by
  obtain ⟨si, cell, hcell, -, -, htouch⟩ := h
  exact ⟨htouch.lt, (List.getElem?_eq_some_iff.mp hcell).1⟩

variable {pre : List PendingCell} {cell : PendingCell}

theorem getElem?_before {j : ℕ} (hj : j < pre.length) : (pre ++ [cell])[j]? = pre[j]? :=
  List.getElem?_append_left hj

theorem memberAt_append {si j : ℕ} (hj : j < pre.length) :
    MemberAt (pre ++ [cell]) si j ↔ MemberAt pre si j := by
  rw [MemberAt, MemberAt, getElem?_before hj]

theorem touches_append {si m j : ℕ} (hm : m ≤ pre.length) :
    Touches (pre ++ [cell]) si m j ↔ Touches pre si m j := by
  have hflushed := flushedBefore_le m
  unfold Touches
  constructor
  · rintro (⟨hj, hmem⟩ | ⟨hj, i, hi, hmem, haddr⟩)
    · exact .inl ⟨hj, (memberAt_append (by omega)).mp hmem⟩
    · rw [getElem?_before (by omega), getElem?_before (by omega)] at haddr
      exact .inr ⟨hj, i, hi, (memberAt_append (by omega)).mp hmem, haddr⟩
  · rintro (⟨hj, hmem⟩ | ⟨hj, i, hi, hmem, haddr⟩)
    · exact .inl ⟨hj, (memberAt_append (by omega)).mpr hmem⟩
    · refine .inr ⟨hj, i, hi, (memberAt_append (by omega)).mpr hmem, ?_⟩
      rw [getElem?_before (by omega), getElem?_before (by omega)]
      exact haddr

theorem writes_append {master : Master} {m j : ℕ} (hm : m < pre.length) :
    Writes (pre ++ [cell]) m master j ↔ Writes pre m master j := by
  unfold Writes
  rw [getElem?_before hm, List.take_append_of_le_length hm.le]
  simp only [touches_append hm.le]

theorem writes_last {master : Master} {j : ℕ} :
    Writes (pre ++ [cell]) pre.length master j ↔
      ∃ si, masterOf cell = some (si, master) ∧ get si (mastersOf pre) = none ∧
        Touches pre si pre.length j := by
  unfold Writes
  rw [List.take_append_of_le_length le_rfl, List.take_length, List.getElem?_concat_length]
  simp only [touches_append le_rfl]
  constructor
  · rintro ⟨si, other, hother, hmaster, hfirst, htouch⟩
    obtain rfl := Option.some.inj hother
    exact ⟨si, hmaster, hfirst, htouch⟩
  · rintro ⟨si, hmaster, hfirst, htouch⟩
    exact ⟨si, cell, rfl, hmaster, hfirst, htouch⟩

end Masters

section Stored

variable (book : BookParts)

/-- The formula that is stored for a cell once the cells so far are read. -/
def StoredFormula (cells : List PendingCell) (j : ℕ) (cell : PendingCell)
    (formula : Option String) : Prop :=
  (∀ m master, LastWrites cells m master j → formula = master.shifted book cell.col cell.row) ∧
    ((∀ m master, ¬Writes cells m master j) →
      formula = formulaUnder book (mastersOf (cells.take j)) cell)

variable {book} {pre : List PendingCell} {cell : PendingCell}

theorem storedFormula_new : StoredFormula book (pre ++ [cell]) pre.length cell
    (formulaUnder book (mastersOf pre) cell) := by
  constructor
  · intro m master hlast
    have hlt := hlast.1.lt
    simp only [List.length_append, List.length_singleton] at hlt
    omega
  · intro _
    rw [List.take_append_of_le_length le_rfl, List.take_length]

theorem StoredFormula.untouched {j : ℕ} {other : PendingCell} {formula : Option String}
    (h : StoredFormula book pre j other formula) (hj : j < pre.length)
    (hnew : ∀ master, ¬Writes (pre ++ [cell]) pre.length master j) :
    StoredFormula book (pre ++ [cell]) j other formula := by
  have hwrites (m : ℕ) (master : Master) :
      Writes (pre ++ [cell]) m master j ↔ Writes pre m master j := by
    rcases Nat.lt_trichotomy m pre.length with hm | rfl | hm
    · exact writes_append hm
    · exact iff_of_false (hnew master) fun h => absurd h.lt.2 (lt_irrefl _)
    · constructor
      · intro h
        have hlt := h.lt.2
        simp only [List.length_append, List.length_singleton] at hlt
        omega
      · intro h
        exact absurd h.lt.2 (by omega)
  unfold StoredFormula LastWrites
  simp only [hwrites]
  rw [List.take_append_of_le_length hj.le]
  exact h

theorem storedFormula_touched {si j : ℕ} {master : Master} {other : PendingCell}
    (hmaster : masterOf cell = some (si, master)) (hfirst : get si (mastersOf pre) = none)
    (htouch : Touches pre si pre.length j) :
    StoredFormula book (pre ++ [cell]) j other (master.shifted book other.col other.row) := by
  have hwrites : Writes (pre ++ [cell]) pre.length master j :=
    writes_last.mpr ⟨si, hmaster, hfirst, htouch⟩
  constructor
  · intro m master' hlast
    have hlt := hlast.1.lt.2
    simp only [List.length_append, List.length_singleton] at hlt
    have hm : m = pre.length := by
      by_contra hne
      exact hlast.2 pre.length master (by omega) hwrites
    subst hm
    obtain ⟨si', hmaster', -⟩ := writes_last.mp hlast.1
    rw [hmaster] at hmaster'
    obtain ⟨-, rfl⟩ := Prod.mk.inj (Option.some.inj hmaster')
    rfl
  · exact fun hnone => absurd hwrites (hnone _ _)

end Stored

section Tables

variable (book : BookParts)

theorem getElem?_foldl_modify (places : List ℕ) (f : RawCell → RawCell) (hf : ∀ row, f (f row) = f row)
    (rows : List RawCell) (j : ℕ) :
    (places.foldl (fun rows place => rows.modify place f) rows)[j]? =
      if j ∈ places then (rows[j]?).map f else rows[j]? := by
  induction places generalizing rows with
  | nil => simp
  | cons place places ih =>
    rw [List.foldl_cons, ih, List.getElem?_modify]
    by_cases hplace : place = j
    · subst hplace
      simp [Function.comp_def, hf]
    · simp [hplace, Ne.symm hplace]

theorem length_foldl_modify (places : List ℕ) (f : RawCell → RawCell) (rows : List RawCell) :
    (places.foldl (fun rows place => rows.modify place f) rows).length = rows.length := by
  induction places generalizing rows with
  | nil => rfl
  | cons place places ih => rw [List.foldl_cons, ih, List.length_modify]

theorem refill_refill (master : Master) (row : RawCell) :
    refill book master (refill book master row) = refill book master row := rfl

theorem PendingCell.addr_inj {cell cell' : PendingCell} (h : cell.addr = cell'.addr) :
    cell.col = cell'.col ∧ cell.row = cell'.row :=
  formatAddr_inj cell.colPos cell'.colPos h

theorem memberOf_of_masterOf {cell : PendingCell} {found : ℕ × Master}
    (h : masterOf cell = some found) : memberOf cell = none := by
  unfold masterOf at h
  unfold memberOf
  cases hsi : cell.sharedSi <;> cases hformula : cell.formula <;> simp_all

theorem get_push {V : Type} (k k' : ℕ) (v : V) (d : List (ℕ × List V)) :
    (get k' (push k v d)).getD [] = (get k' d).getD [] ++ if k = k' then [v] else [] := by
  unfold push
  rw [get_set]
  split_ifs with h
  · subst h
    rfl
  · simp

theorem nodup_keys_push {V : Type} {k : ℕ} {v : V} {d : List (ℕ × List V)}
    (h : (d.map Prod.fst).Nodup) : ((push k v d).map Prod.fst).Nodup :=
  nodup_keys_set h

end Tables

section Buffer

variable (book : BookParts)

/-- What the buffer holds once the cells so far are read; the batch may be full. -/
structure BufferHolds (st : CellBuffer) (cells : List PendingCell) : Prop where
  masters : st.masters = mastersOf cells
  length : st.stored.length + st.batch.length = cells.length
  whole : flushRows ∣ st.stored.length
  nodup : (st.unresolved.map Prod.fst).Nodup
  unresolved : ∀ si place, place ∈ (get si st.unresolved).getD [] ↔
    get si st.masters = none ∧ place < st.batch.length ∧
      MemberAt cells si (st.stored.length + place)
  flushed : ∀ si entry, entry ∈ (get si st.flushed).getD [] ↔
    get si st.masters = none ∧ ∃ i < st.stored.length, ∃ cell, cells[i]? = some cell ∧
      memberOf cell = some si ∧ entry = (cell.addr, cell.col, cell.row)
  rows : ∀ j cell, cells[j]? = some cell → ∃ formula,
    (st.stored ++ st.batch)[j]? = some (rawCell cell formula) ∧
      StoredFormula book cells j cell formula

variable {book} {st : CellBuffer} {pre : List PendingCell} {cell : PendingCell}

theorem bufferHolds_empty : BufferHolds book {} [] where
  masters := rfl
  length := rfl
  whole := Nat.dvd_zero _
  nodup := List.nodup_nil
  unresolved := by simp [get_nil]
  flushed := by simp [get_nil]
  rows := by simp

theorem memberAt_last {si : ℕ} : MemberAt (pre ++ [cell]) si pre.length ↔ memberOf cell = some si := by
  unfold MemberAt
  rw [List.getElem?_concat_length]
  constructor
  · rintro ⟨other, hother, hmember⟩
    rwa [Option.some.inj hother]
  · exact fun h => ⟨cell, rfl, h⟩

theorem BufferHolds.unresolved_append (h : BufferHolds book st pre) (cell : PendingCell)
    (si place : ℕ) :
    place ∈ (get si (st.append book cell).unresolved).getD [] ↔
      get si st.masters = none ∧ place < st.batch.length + 1 ∧
        MemberAt (pre ++ [cell]) si (st.stored.length + place) := by
  have hlength := h.length
  have hold : place ∈ (get si st.unresolved).getD [] ↔ get si st.masters = none ∧
      place < st.batch.length ∧ MemberAt (pre ++ [cell]) si (st.stored.length + place) := by
    rw [h.unresolved]
    refine and_congr_right fun _ => and_congr_right fun hplace => ?_
    rw [memberAt_append (by omega)]
  have hlast : MemberAt (pre ++ [cell]) si (st.stored.length + st.batch.length) ↔
      memberOf cell = some si := by
    rw [hlength, memberAt_last]
  have hsplit : (get si st.masters = none ∧ place < st.batch.length + 1 ∧
      MemberAt (pre ++ [cell]) si (st.stored.length + place)) ↔
        place ∈ (get si st.unresolved).getD [] ∨
          (get si st.masters = none ∧ place = st.batch.length ∧ memberOf cell = some si) := by
    rw [hold]
    constructor
    · rintro ⟨hnone, hplace, hmember⟩
      rcases Nat.lt_succ_iff_lt_or_eq.mp hplace with hlt | rfl
      · exact .inl ⟨hnone, hlt, hmember⟩
      · exact .inr ⟨hnone, rfl, hlast.mp hmember⟩
    · rintro (⟨hnone, hplace, hmember⟩ | ⟨hnone, rfl, hmember⟩)
      · exact ⟨hnone, by omega, hmember⟩
      · exact ⟨hnone, by omega, hlast.mpr hmember⟩
  rw [hsplit]
  unfold CellBuffer.append
  cases hmember : memberOf cell with
  | none => simp
  | some own =>
    by_cases hnone : get own st.masters = none
    · simp only [hnone, Option.isNone_none, if_true]
      rw [get_push, List.mem_append]
      refine or_congr_right ?_
      constructor
      · intro hplace
        split_ifs at hplace with hsi
        · subst hsi
          exact ⟨hnone, by simpa using hplace, rfl⟩
        · cases hplace
      · rintro ⟨-, rfl, hsi⟩
        obtain rfl := Option.some.inj hsi
        simp
    · have hsome : (get own st.masters).isNone = false := by
        cases hgot : get own st.masters with
        | none => exact absurd hgot hnone
        | some _ => rfl
      simp only [hsome, Bool.false_eq_true, if_false]
      constructor
      · exact .inl
      · rintro (hplace | ⟨hsi, -, hown⟩)
        · exact hplace
        · rw [← Option.some.inj hown] at hsi
          exact absurd hsi hnone

theorem BufferHolds.nodup_append (h : BufferHolds book st pre) :
    ((st.append book cell).unresolved.map Prod.fst).Nodup := by
  unfold CellBuffer.append
  cases memberOf cell with
  | none => exact h.nodup
  | some own =>
    dsimp only
    split_ifs
    · exact nodup_keys_push h.nodup
    · exact h.nodup

theorem BufferHolds.rows_before (h : BufferHolds book st pre) {j : ℕ} {other : PendingCell}
    (hj : j < pre.length) (hother : (pre ++ [cell])[j]? = some other) :
    ∃ formula, ((st.append book cell).stored ++ (st.append book cell).batch)[j]? =
      some (rawCell other formula) ∧ StoredFormula book pre j other formula := by
  rw [getElem?_before hj] at hother
  obtain ⟨formula, hrow, hstored⟩ := h.rows j other hother
  refine ⟨formula, ?_, hstored⟩
  have hlength : j < (st.stored ++ st.batch).length := by
    rw [List.length_append, h.length]
    exact hj
  simp only [CellBuffer.append]
  rw [← List.append_assoc, List.getElem?_append_left hlength, hrow]

theorem BufferHolds.row_last (h : BufferHolds book st pre) :
    ((st.append book cell).stored ++ (st.append book cell).batch)[pre.length]? =
      some (rawCell cell (formulaUnder book (mastersOf pre) cell)) := by
  have hlength : pre.length = (st.stored ++ st.batch).length := by
    rw [List.length_append, h.length]
  simp only [CellBuffer.append]
  rw [← List.append_assoc, hlength, List.getElem?_concat_length, h.masters]

theorem BufferHolds.flushed_before (h : BufferHolds book st pre) (cell : PendingCell) (si : ℕ)
    (entry : String × ℕ × ℕ) :
    entry ∈ (get si st.flushed).getD [] ↔ get si st.masters = none ∧
      ∃ i < st.stored.length, ∃ other, (pre ++ [cell])[i]? = some other ∧
        memberOf other = some si ∧ entry = (other.addr, other.col, other.row) := by
  have hlength := h.length
  rw [h.flushed]
  refine and_congr_right fun _ => exists_congr fun i => and_congr_right fun hi => ?_
  rw [getElem?_before (by omega)]

theorem BufferHolds.append (h : BufferHolds book st pre) (hmaster : masterOf cell = none) :
    BufferHolds book (st.append book cell) (pre ++ [cell]) where
  masters := by
    rw [mastersOf_concat, addMaster, hmaster]
    exact h.masters
  length := by
    have hlength := h.length
    simp only [CellBuffer.append, List.length_append, List.length_singleton]
    omega
  whole := h.whole
  nodup := h.nodup_append
  unresolved si place := by
    rw [h.unresolved_append cell]
    simp [CellBuffer.append]
  flushed := h.flushed_before cell
  rows j other hother := by
    have hnew (master : Master) : ¬Writes (pre ++ [cell]) pre.length master j := by
      rw [writes_last, hmaster]
      rintro ⟨si, hsome, -⟩
      cases hsome
    have hj := (List.getElem?_eq_some_iff.mp hother).1
    rw [List.length_append, List.length_singleton] at hj
    rcases Nat.lt_succ_iff_lt_or_eq.mp hj with hlt | rfl
    · obtain ⟨formula, hrow, hstored⟩ := h.rows_before hlt hother
      exact ⟨formula, hrow, hstored.untouched hlt hnew⟩
    · rw [List.getElem?_concat_length] at hother
      obtain rfl := Option.some.inj hother
      exact ⟨_, h.row_last, storedFormula_new⟩

theorem getElem?_setFormulas {held : List (String × ℕ × ℕ)} {master : Master}
    (hheld : ∀ entry ∈ held, ∃ cell : PendingCell, entry = (cell.addr, cell.col, cell.row))
    {rows : List RawCell} {j : ℕ} {other : PendingCell} {formula : Option String}
    (hrow : rows[j]? = some (rawCell other formula)) :
    (setFormulas (updates book master held) rows)[j]? = some (rawCell other
      (if other.addr ∈ held.map Prod.fst then master.shifted book other.col other.row
        else formula)) := by
  have hget : get other.addr (updates book master held) =
      if other.addr ∈ held.map Prod.fst then some (master.shifted book other.col other.row)
      else none := by
    induction held with
    | nil => rfl
    | cons entry held ih =>
      have hrest := ih fun e he => hheld e (List.mem_cons_of_mem _ he)
      obtain ⟨cell, rfl⟩ := hheld entry List.mem_cons_self
      rw [updates, List.map_cons, get_cons, ← updates, hrest]
      by_cases haddr : cell.addr = other.addr
      · obtain ⟨hcol, hrow⟩ := PendingCell.addr_inj haddr
        simp [haddr, hcol, hrow]
      · simp only [haddr, Ne.symm haddr, if_false, List.map_cons, List.mem_cons, false_or]
  rw [setFormulas, List.getElem?_map, hrow]
  have haddr : (rawCell other formula).addr = other.addr := rfl
  simp only [Option.map_some, haddr, hget]
  split_ifs <;> rfl

theorem BufferHolds.rows_complete (h : BufferHolds book st pre) (hshort : st.batch.length < flushRows)
    (si : ℕ) (master : Master) {j : ℕ} {other : PendingCell} {formula : Option String}
    (hother : pre[j]? = some other) {rest : List RawCell}
    (hrow : (st.stored ++ (st.batch ++ rest))[j]? = some (rawCell other formula)) :
    ∃ left, (setFormulas (updates book master ((get si st.flushed).getD [])) st.stored ++
        ((get si st.unresolved).getD []).foldl
          (fun batch place => batch.modify place (refill book master)) (st.batch ++ rest))[j]? =
        some (rawCell other left) ∧
      (get si st.masters = none ∧ Touches pre si pre.length j →
        left = master.shifted book other.col other.row) ∧
      (¬(get si st.masters = none ∧ Touches pre si pre.length j) → left = formula) := by
  have hlength := h.length
  have hflushed := flushedBefore_of hlength h.whole hshort
  have hj := (List.getElem?_eq_some_iff.mp hother).1
  have hstored : (setFormulas (updates book master ((get si st.flushed).getD [])) st.stored).length =
      st.stored.length := by rw [setFormulas, List.length_map]
  by_cases hin : j < st.stored.length
  · rw [List.getElem?_append_left (by rw [hstored]; exact hin)]
    rw [List.getElem?_append_left hin] at hrow
    have hheld : ∀ entry ∈ (get si st.flushed).getD [], ∃ cell : PendingCell,
        entry = (cell.addr, cell.col, cell.row) := by
      intro entry hentry
      obtain ⟨-, i, -, cell, -, -, rfl⟩ := (h.flushed si entry).mp hentry
      exact ⟨cell, rfl⟩
    refine ⟨_, getElem?_setFormulas hheld hrow, ?_⟩
    have htouch : other.addr ∈ ((get si st.flushed).getD []).map Prod.fst ↔
        get si st.masters = none ∧ Touches pre si pre.length j := by
      rw [List.mem_map, Touches, hflushed]
      constructor
      · rintro ⟨entry, hentry, haddr⟩
        obtain ⟨hnone, i, hi, cell, hcell, hmember, rfl⟩ := (h.flushed si entry).mp hentry
        refine ⟨hnone, .inr ⟨hin, i, hi, ⟨cell, hcell, hmember⟩, ?_⟩⟩
        rw [hcell, hother]
        exact congrArg some haddr
      · rintro ⟨hnone, ⟨-, cell, hcell, hmember⟩ | ⟨-, i, hi, ⟨cell, hcell, hmember⟩, haddr⟩⟩
        · rw [hother] at hcell
          obtain rfl := Option.some.inj hcell
          exact ⟨_, (h.flushed si _).mpr ⟨hnone, j, hin, other, hother, hmember, rfl⟩, rfl⟩
        · rw [hcell, hother] at haddr
          exact ⟨_, (h.flushed si _).mpr ⟨hnone, i, hi, cell, hcell, hmember, rfl⟩,
            Option.some.inj haddr⟩
    rw [← htouch]
    exact ⟨fun hin => if_pos hin, fun hout => if_neg hout⟩
  · rw [List.getElem?_append_right (by rw [hstored]; omega), hstored]
    rw [List.getElem?_append_right (by omega)] at hrow
    have htouch : j - st.stored.length ∈ (get si st.unresolved).getD [] ↔
        get si st.masters = none ∧ Touches pre si pre.length j := by
      rw [h.unresolved, Nat.add_sub_cancel' (by omega), Touches, hflushed]
      refine and_congr_right fun _ => ?_
      constructor
      · exact fun h => .inl ⟨hj, h.2⟩
      · rintro (⟨-, hmember⟩ | ⟨hlt, -⟩)
        · exact ⟨by omega, hmember⟩
        · exact absurd hlt hin
    rw [getElem?_foldl_modify _ _ (refill_refill book master), hrow, ← htouch]
    by_cases hplace : j - st.stored.length ∈ (get si st.unresolved).getD []
    · exact ⟨_, if_pos hplace, fun _ => rfl, fun hout => absurd hplace hout⟩
    · exact ⟨_, if_neg hplace, fun hin => absurd hin hplace, fun _ => rfl⟩

theorem BufferHolds.complete (h : BufferHolds book st pre) (hshort : st.batch.length < flushRows)
    {si : ℕ} {master : Master} (hmaster : masterOf cell = some (si, master)) :
    BufferHolds book ((st.append book cell).complete book cell) (pre ++ [cell]) := by
  have hmember := memberOf_of_masterOf hmaster
  have hcomplete : (st.append book cell).complete book cell =
      { stored := setFormulas (updates book master ((get si st.flushed).getD [])) st.stored
        batch := ((get si st.unresolved).getD []).foldl
          (fun batch place => batch.modify place (refill book master))
          (st.batch ++ [rawCell cell (formulaUnder book st.masters cell)])
        unresolved := st.unresolved.filter (·.1 ≠ si)
        flushed := st.flushed.filter (·.1 ≠ si)
        masters := set si master st.masters } := by
    simp only [CellBuffer.complete, hmaster, CellBuffer.append, hmember]
  have hstored : (setFormulas (updates book master ((get si st.flushed).getD [])) st.stored).length =
      st.stored.length := by rw [setFormulas, List.length_map]
  have hlength := h.length
  have hmasters : mastersOf (pre ++ [cell]) = set si master st.masters := by
    rw [mastersOf_concat, addMaster, hmaster, h.masters]
  rw [hcomplete]
  refine ⟨hmasters.symm, ?_, ?_, ?_, ?_, ?_, ?_⟩
  · rw [hstored, length_foldl_modify]
    simp only [List.length_append, List.length_singleton]
    omega
  · rw [hstored]
    exact h.whole
  · exact h.nodup.sublist ((List.filter_sublist).map _)
  · intro si' place
    have hold := h.unresolved_append cell si' place
    simp only [CellBuffer.append, hmember] at hold
    rw [hstored, length_foldl_modify, get_filter (· ≠ si) si', get_set]
    by_cases hsi : si = si'
    · simp [hsi]
    · simp only [ne_eq, Ne.symm hsi, not_false_eq_true, decide_true, if_true, if_neg hsi]
      rw [hold, List.length_append, List.length_singleton]
  · intro si' entry
    have hold := h.flushed_before cell si' entry
    rw [hstored, get_filter (· ≠ si) si', get_set]
    by_cases hsi : si = si'
    · simp [hsi]
    · simp only [ne_eq, Ne.symm hsi, not_false_eq_true, decide_true, if_true, if_neg hsi]
      rw [hold]
  · intro j other hother
    have hj := (List.getElem?_eq_some_iff.mp hother).1
    rw [List.length_append, List.length_singleton] at hj
    rcases Nat.lt_succ_iff_lt_or_eq.mp hj with hlt | rfl
    · obtain ⟨formula, hrow, hformula⟩ := h.rows_before hlt hother
      rw [getElem?_before hlt] at hother
      obtain ⟨left, hleft, htouched, huntouched⟩ :=
        h.rows_complete hshort si master hother hrow
      refine ⟨left, hleft, ?_⟩
      by_cases htouch : get si st.masters = none ∧ Touches pre si pre.length j
      · rw [htouched htouch]
        rw [h.masters] at htouch
        exact storedFormula_touched hmaster htouch.1 htouch.2
      · rw [huntouched htouch]
        apply hformula.untouched hlt
        intro master' hwrites
        obtain ⟨si', hsome, hfirst, htouched⟩ := writes_last.mp hwrites
        rw [hmaster] at hsome
        obtain ⟨rfl, rfl⟩ := Prod.mk.inj (Option.some.inj hsome)
        exact htouch ⟨by rw [h.masters]; exact hfirst, htouched⟩
    · rw [List.getElem?_concat_length] at hother
      obtain rfl := Option.some.inj hother
      refine ⟨_, ?_, storedFormula_new⟩
      have hplace : st.batch.length ∉ (get si st.unresolved).getD [] := by
        rw [h.unresolved]
        exact fun hplace => absurd hplace.2.1 (lt_irrefl _)
      rw [List.getElem?_append_right (by rw [hstored]; omega), hstored,
        getElem?_foldl_modify _ _ (refill_refill book master), ← hlength, Nat.add_sub_cancel_left,
        if_neg hplace, List.getElem?_concat_length, h.masters]

theorem mem_get_flushed {unresolved : List (ℕ × List ℕ)} (hnodup : (unresolved.map Prod.fst).Nodup)
    (entries : List ℕ → List (String × ℕ × ℕ)) (flushed : List (ℕ × List (String × ℕ × ℕ)))
    (si : ℕ) (entry : String × ℕ × ℕ) :
    entry ∈ (get si (unresolved.foldl (fun flushed (si, places) =>
        set si ((get si flushed).getD [] ++ entries places) flushed) flushed)).getD [] ↔
      entry ∈ (get si flushed).getD [] ∨ ∃ places, get si unresolved = some places ∧
        entry ∈ entries places := by
  induction unresolved generalizing flushed with
  | nil => simp [get_nil]
  | cons held unresolved ih =>
    obtain ⟨own, places⟩ := held
    rw [List.map_cons, List.nodup_cons] at hnodup
    rw [List.foldl_cons, ih hnodup.2, get_set, get_cons]
    by_cases hown : own = si
    · subst hown
      have hnone : get own unresolved = none := by
        by_contra hsome
        exact hnodup.1 ((mem_keys_iff own unresolved).mpr hsome)
      simp [hnone]
    · simp [hown]

theorem BufferHolds.flush (h : BufferHolds book st pre) (hfull : flushRows ∣ st.batch.length) :
    BufferHolds book st.flush pre where
  masters := h.masters
  length := by
    have hlength := h.length
    simp only [CellBuffer.flush, List.length_append, List.length_nil]
    omega
  whole := by
    simp only [CellBuffer.flush, List.length_append]
    exact Nat.dvd_add h.whole hfull
  nodup := List.nodup_nil
  unresolved si place := by simp [CellBuffer.flush, get_nil]
  flushed si entry := by
    have hplaces : (∃ places, get si st.unresolved = some places ∧
        entry ∈ places.filterMap fun place =>
          (st.batch[place]?).map fun row => (row.addr, row.col, row.row)) ↔
        ∃ place ∈ (get si st.unresolved).getD [],
          (st.batch[place]?).map (fun row => (row.addr, row.col, row.row)) = some entry := by
      cases get si st.unresolved <;> simp
    simp only [CellBuffer.flush]
    rw [mem_get_flushed h.nodup, hplaces, h.flushed, List.length_append]
    have hrow (place : ℕ) (cell : PendingCell) (hcell : pre[st.stored.length + place]? = some cell) :
        (st.batch[place]?).map (fun row => (row.addr, row.col, row.row)) =
          some (cell.addr, cell.col, cell.row) := by
      obtain ⟨formula, hstored, -⟩ := h.rows _ cell hcell
      rw [List.getElem?_append_right (by omega), Nat.add_sub_cancel_left] at hstored
      rw [hstored]
      rfl
    constructor
    · rintro (⟨hnone, i, hi, cell, hcell⟩ | ⟨place, hplace, hentry⟩)
      · exact ⟨hnone, i, by omega, cell, hcell⟩
      · obtain ⟨hnone, hlt, cell, hcell, hmember⟩ := (h.unresolved si place).mp hplace
        rw [hrow place cell hcell] at hentry
        exact ⟨hnone, _, by omega, cell, hcell, hmember, (Option.some.inj hentry).symm⟩
    · rintro ⟨hnone, i, hi, cell, hcell, hmember, rfl⟩
      by_cases hin : i < st.stored.length
      · exact .inl ⟨hnone, i, hin, cell, hcell, hmember, rfl⟩
      · obtain ⟨place, rfl⟩ := Nat.exists_eq_add_of_le (Nat.le_of_not_lt hin)
        have hplace : place ∈ (get si st.unresolved).getD [] :=
          (h.unresolved si place).mpr ⟨hnone, by omega, cell, hcell, hmember⟩
        exact .inr ⟨place, hplace, hrow place cell hcell⟩
  rows j cell hcell := by
    obtain ⟨formula, hrow, hformula⟩ := h.rows j cell hcell
    refine ⟨formula, ?_, hformula⟩
    simpa only [CellBuffer.flush, List.append_nil] using hrow

theorem BufferHolds.feed (h : BufferHolds book st pre) (hshort : st.batch.length < flushRows)
    (cell : PendingCell) :
    BufferHolds book (st.feed book cell) (pre ++ [cell]) ∧
      (st.feed book cell).batch.length < flushRows := by
  have hread : BufferHolds book ((st.append book cell).complete book cell) (pre ++ [cell]) := by
    cases hmaster : masterOf cell with
    | none =>
      have hsame : (st.append book cell).complete book cell = st.append book cell := by
        rw [CellBuffer.complete, hmaster]
      rw [hsame]
      exact h.append hmaster
    | some found => exact h.complete hshort hmaster
  have hbatch : ((st.append book cell).complete book cell).batch.length = st.batch.length + 1 := by
    unfold CellBuffer.complete
    split
    · simp [CellBuffer.append]
    · simp [CellBuffer.append, length_foldl_modify]
  unfold CellBuffer.feed
  dsimp only
  split_ifs with hfull
  · have hexact : ((st.append book cell).complete book cell).batch.length = flushRows := by omega
    refine ⟨hread.flush (by rw [hexact]), ?_⟩
    simp only [CellBuffer.flush, List.length_nil]
    omega
  · exact ⟨hread, by omega⟩

end Buffer

section Agreement

variable (book : BookParts)

def keptCells (sheet : Worksheet) : List PendingCell :=
  sheet.rows.flatMap fun row => row.cells.filterMap fun cell =>
    (pendingFromCell book sheet row cell).1

/-- The readers after the same part of a sheet. -/
structure Alike (dom : DomState) (stream : StreamState) : Prop where
  presence : dom.presence = stream.presence ++ stream.presenceBatch
  runs : dom.runs = stream.runs
  hiddenRows : dom.hiddenRows = stream.hiddenRows
  masters : dom.masters = mastersOf dom.pending
  cells : BufferHolds book stream.cells dom.pending
  short : stream.cells.batch.length < flushRows

variable {book} {dom : DomState} {stream : StreamState}

theorem Alike.see (h : Alike book dom stream) (seen : Option ((ℕ × ℕ) × PresenceKind)) :
    Alike book (dom.see seen) (stream.see seen) := by
  cases seen with
  | none => exact h
  | some seen =>
    obtain ⟨⟨col, row⟩, kind⟩ := seen
    unfold DomState.see StreamState.see
    dsimp only
    rw [← h.runs]
    split
    · refine ⟨?_, rfl, h.hiddenRows, h.masters, h.cells, h.short⟩
      simp only [h.presence, List.append_assoc, List.append_nil]
    · refine ⟨?_, rfl, h.hiddenRows, h.masters, h.cells, h.short⟩
      simp only [h.presence, List.append_assoc]

theorem Alike.keep (h : Alike book dom stream) (built : Option PendingCell) :
    Alike book (dom.keep built) (stream.keep book built) := by
  cases built with
  | none => exact h
  | some cell =>
    obtain ⟨hcells, hshort⟩ := h.cells.feed h.short cell
    refine ⟨h.presence, h.runs, h.hiddenRows, ?_, hcells, hshort⟩
    simp only [DomState.keep]
    rw [mastersOf_concat, h.masters]

theorem Alike.readCells (h : Alike book dom stream) (sheet : Worksheet) (row : RowElement)
    (cells : List CellElement) :
    Alike book (cells.foldl (DomState.readCell book sheet row) dom)
      (cells.foldl (StreamState.readCell book sheet row) stream) := by
  induction cells generalizing dom stream with
  | nil => exact h
  | cons cell cells ih => exact ih ((h.see _).keep _)

theorem Alike.readRows (h : Alike book dom stream) (sheet : Worksheet) (rows : List RowElement) :
    Alike book (rows.foldl (DomState.readRow book sheet) dom)
      (rows.foldl (StreamState.readRow book sheet) stream) := by
  induction rows generalizing dom stream with
  | nil => exact h
  | cons row rows ih =>
    apply ih
    apply Alike.readCells
    exact ⟨h.presence, h.runs, by simp only [h.hiddenRows], h.masters, h.cells, h.short⟩

theorem alike_start : Alike book {} {} :=
  ⟨rfl, rfl, rfl, rfl, bufferHolds_empty, by decide⟩

theorem pending_readCells (sheet : Worksheet) (row : RowElement) (cells : List CellElement)
    (dom : DomState) :
    (cells.foldl (DomState.readCell book sheet row) dom).pending =
      dom.pending ++ cells.filterMap fun cell => (pendingFromCell book sheet row cell).1 := by
  induction cells generalizing dom with
  | nil => simp
  | cons cell cells ih =>
    have hsee (seen : Option ((ℕ × ℕ) × PresenceKind)) : (dom.see seen).pending = dom.pending := by
      cases seen <;> rfl
    rw [List.foldl_cons, ih]
    unfold DomState.readCell
    dsimp only
    rw [List.filterMap_cons]
    cases (pendingFromCell book sheet row cell).1 with
    | none => simp [DomState.keep, hsee]
    | some kept => simp [DomState.keep, hsee]

theorem pending_readRows (sheet : Worksheet) (rows : List RowElement) (dom : DomState) :
    (rows.foldl (DomState.readRow book sheet) dom).pending =
      dom.pending ++ rows.flatMap fun row => row.cells.filterMap fun cell =>
        (pendingFromCell book sheet row cell).1 := by
  induction rows generalizing dom with
  | nil => simp
  | cons row rows ih =>
    rw [List.foldl_cons, ih, DomState.readRow, pending_readCells, List.flatMap_cons,
      List.append_assoc]

variable (book)

/-- Every cell gets from the master the stream takes for it the text of its index's last master:
from the first master of an index where that one writes the cell, and else from the last before. -/
structure SameTexts (cells : List PendingCell) : Prop where
  written : ∀ j cell m master, cells[j]? = some cell → LastWrites cells m master j →
    master.shifted book cell.col cell.row = formulaUnder book (mastersOf cells) cell
  unwritten : ∀ j cell, cells[j]? = some cell → (∀ m master, ¬Writes cells m master j) →
    formulaUnder book (mastersOf (cells.take j)) cell = formulaUnder book (mastersOf cells) cell

variable {book}

theorem exists_lastWrites {cells : List PendingCell} {j : ℕ}
    (h : ∃ m master, Writes cells m master j) : ∃ m master, LastWrites cells m master j := by
  classical
  obtain ⟨m₀, master₀, h₀⟩ := h
  let found (m : ℕ) : Prop := ∃ master, Writes cells m master j
  have hbound : found (Nat.findGreatest found cells.length) :=
    Nat.findGreatest_spec h₀.lt.2.le ⟨master₀, h₀⟩
  obtain ⟨master, hmaster⟩ := hbound
  refine ⟨_, master, hmaster, ?_⟩
  intro m' master' hlt hwrites
  exact Nat.findGreatest_is_greatest hlt hwrites.lt.2.le ⟨master', hwrites⟩

theorem sameTexts_iff {cells : List PendingCell} (formulas : ℕ → Option String)
    (h : ∀ j cell, cells[j]? = some cell → StoredFormula book cells j cell (formulas j)) :
    SameTexts book cells ↔ ∀ j cell, cells[j]? = some cell →
      formulas j = formulaUnder book (mastersOf cells) cell := by
  constructor
  · intro hsame j cell hcell
    obtain ⟨hwritten, hunwritten⟩ := h j cell hcell
    by_cases hsome : ∃ m master, Writes cells m master j
    · obtain ⟨m, master, hlast⟩ := exists_lastWrites hsome
      rw [hwritten m master hlast]
      exact hsame.written j cell m master hcell hlast
    · have hnone : ∀ m master, ¬Writes cells m master j :=
        fun m master hwrites => hsome ⟨m, master, hwrites⟩
      rw [hunwritten hnone]
      exact hsame.unwritten j cell hcell hnone
  · intro hsame
    constructor
    · intro j cell m master hcell hlast
      rw [← (h j cell hcell).1 m master hlast]
      exact hsame j cell hcell
    · intro j cell hcell hnone
      rw [← (h j cell hcell).2 hnone]
      exact hsame j cell hcell

variable (book)

/-- The streaming reader stores what the document reader stores exactly when each cell gets the
same text from the masters the two take for it. -/
theorem readers_agree_iff (sheet : Worksheet) :
    parseSheetStream book sheet = parseSheet book sheet ↔ SameTexts book (keptCells book sheet) := by
  have halike : Alike book _ _ := alike_start.readRows sheet sheet.rows
  have hpending : (sheet.rows.foldl (DomState.readRow book sheet) {}).pending =
      keptCells book sheet := by
    rw [pending_readRows, List.nil_append, keptCells]
  unfold parseSheetStream parseSheet
  dsimp only
  generalize sheet.rows.foldl (DomState.readRow book sheet) {} = dom at halike hpending ⊢
  generalize sheet.rows.foldl (StreamState.readRow book sheet) {} = stream at halike ⊢
  rw [← hpending, halike.presence, halike.runs, halike.hiddenRows, halike.masters,
    List.append_assoc]
  let rows := stream.cells.stored ++ stream.cells.batch
  have hrows : ∀ j cell, dom.pending[j]? = some cell → ∃ formula,
      rows[j]? = some (rawCell cell formula) ∧ StoredFormula book dom.pending j cell formula :=
    halike.cells.rows
  have hlength : rows.length = dom.pending.length := by
    rw [List.length_append, halike.cells.length]
  have hstored : ∀ j cell, dom.pending[j]? = some cell →
      StoredFormula book dom.pending j cell ((rows[j]?).bind (·.formulaRaw)) := by
    intro j cell hcell
    obtain ⟨formula, hrow, hformula⟩ := hrows j cell hcell
    rw [hrow]
    exact hformula
  rw [sameTexts_iff _ hstored]
  constructor
  · intro heq j cell hcell
    have hcells : rows = dom.pending.map fun cell =>
        rawCell cell (formulaUnder book (mastersOf dom.pending) cell) :=
      congrArg SheetTables.cells heq
    rw [hcells, List.getElem?_map, hcell]
    rfl
  · intro hsame
    have hcells : rows = dom.pending.map fun cell =>
        rawCell cell (formulaUnder book (mastersOf dom.pending) cell) := by
      apply List.ext_getElem?
      intro j
      rw [List.getElem?_map]
      cases hcell : dom.pending[j]? with
      | none =>
        rw [List.getElem?_eq_none_iff] at hcell
        exact List.getElem?_eq_none_iff.mpr (by omega)
      | some cell =>
        obtain ⟨formula, hrow, -⟩ := hrows j cell hcell
        have hformula := hsame j cell hcell
        rw [hrow] at hformula ⊢
        exact congrArg (fun f => some (rawCell cell f)) hformula
    simp only [CellBuffer.flush]
    rw [← hcells]

def twoMasters : Worksheet where
  rows :=
    [{ r := 1, cells := [{ r := some "A1", formula := some ⟨"1+1", true, some 0⟩ }] },
      { r := 2, cells := [{ r := some "A2", formula := some ⟨"", true, some 0⟩ }] },
      { r := 3, cells := [{ r := some "A3", formula := some ⟨"2+2", true, some 0⟩ }] }]

def plainBook : BookParts where
  decimal ch := if ch.isDigit then some (ch.toNat - 48) else none
  parseInt _ := none
  shiftFormula text _ _ := text

theorem twoMasters_differ :
    (parseSheetStream plainBook twoMasters).cells.map (·.formulaRaw) =
        [some "1+1", some "1+1", some "2+2"] ∧
      (parseSheet plainBook twoMasters).cells.map (·.formulaRaw) =
        [some "1+1", some "2+2", some "2+2"] ∧
      parseSheetStream plainBook twoMasters ≠ parseSheet plainBook twoMasters := by
  have hstream : (parseSheetStream plainBook twoMasters).cells.map (·.formulaRaw) =
      [some "1+1", some "1+1", some "2+2"] := by decide +kernel
  have hdom : (parseSheet plainBook twoMasters).cells.map (·.formulaRaw) =
      [some "1+1", some "2+2", some "2+2"] := by decide +kernel
  refine ⟨hstream, hdom, ?_⟩
  intro heq
  rw [heq, hdom] at hstream
  revert hstream
  decide

end Agreement

end FinanceContext.Sheets
