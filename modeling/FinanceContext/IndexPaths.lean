import FinanceContext.GraphIndex
import FinanceContext.RangeNodes

namespace FinanceContext.GraphIndex

open Csr Dictionaries

section EmptyNodes

variable {edges : List CellEdge} {existing : List String} {node : String}

theorem emptyRangeNodes_append (existing : List String) (edges : List CellEdge)
    (edge : CellEdge) : emptyRangeNodes existing (edges ++ [edge]) =
      if edge.status = some "empty" ∧ edge.target ≠ "" ∧ edge.target ∉ existing ∧
        edge.target ∉ emptyRangeNodes existing edges then
        emptyRangeNodes existing edges ++ [edge.target]
      else emptyRangeNodes existing edges := by
  unfold emptyRangeNodes
  rw [List.foldl_append, List.foldl_cons, List.foldl_nil]
  by_cases hstatus : edge.status = some "empty"
  · rw [if_neg (not_not_intro hstatus)]
    by_cases htarget : edge.target = ""
    · simp [htarget]
    · simp only [hstatus, htarget, List.mem_append, ne_eq, not_false_eq_true, true_and, false_or]
      split_ifs with hold hnew hnew
      · exact absurd hold (not_or.mpr hnew)
      · rfl
      · rfl
      · exact absurd (not_or.mp hold) hnew
  · rw [if_pos hstatus, if_neg fun h => hstatus h.1]

theorem mem_emptyRangeNodes : node ∈ emptyRangeNodes existing edges ↔
    node ∉ existing ∧ node ≠ "" ∧
      ∃ edge ∈ edges, edge.status = some "empty" ∧ edge.target = node := by
  induction edges using List.reverseRecOn with
  | nil => simp [emptyRangeNodes]
  | append_singleton edges edge ih =>
    have hlast : (∃ e ∈ edges ++ [edge], e.status = some "empty" ∧ e.target = node) ↔
        (∃ e ∈ edges, e.status = some "empty" ∧ e.target = node) ∨
          edge.status = some "empty" ∧ edge.target = node := by
      simp [or_and_right, exists_or]
    rw [emptyRangeNodes_append, hlast]
    split_ifs with htaken
    · rw [List.mem_append, List.mem_singleton, ih]
      constructor
      · rintro (⟨hnew, hne, hex⟩ | rfl)
        · exact ⟨hnew, hne, .inl hex⟩
        · exact ⟨htaken.2.2.1, htaken.2.1, .inr ⟨htaken.1, rfl⟩⟩
      · rintro ⟨hnew, hne, hex | ⟨-, rfl⟩⟩
        · exact .inl ⟨hnew, hne, hex⟩
        · exact .inr rfl
    · rw [ih]
      constructor
      · rintro ⟨hnew, hne, hex⟩
        exact ⟨hnew, hne, .inl hex⟩
      · rintro ⟨hnew, hne, hex | ⟨hstatus, rfl⟩⟩
        · exact ⟨hnew, hne, hex⟩
        · by_contra hnot
          apply htaken
          refine ⟨hstatus, hne, hnew, fun hmem => hnot ?_⟩
          exact ih.mp hmem

theorem emptyRangeNodes_eq_filter (existing : List String) (edges : List CellEdge) :
    emptyRangeNodes existing edges = (emptyRangeNodes [] edges).filter (· ∉ existing) := by
  induction edges using List.reverseRecOn with
  | nil => rfl
  | append_singleton edges edge ih =>
    rw [emptyRangeNodes_append, emptyRangeNodes_append]
    by_cases hexists : edge.target ∈ existing
    · rw [if_neg fun h => h.2.2.1 hexists, ih]
      split_ifs
      · simp [hexists]
      · rfl
    · have hfound : edge.target ∈ emptyRangeNodes existing edges ↔
          edge.target ∈ emptyRangeNodes [] edges := by
        rw [ih, List.mem_filter]
        simp [hexists]
      simp only [hexists, hfound, not_false_eq_true, List.not_mem_nil, true_and]
      split_ifs
      · rw [List.filter_append, ← ih]
        simp [hexists]
      · exact ih

def firstRows (rows : List (String × ℕ)) : List (String × ℕ) :=
  rows.filter fun row => rows.all fun other => other.1 ≠ row.1 ∨ row.2 ≤ other.2

theorem firstRows_zipIdx_append (targets : List String) (target : String) :
    firstRows (targets ++ [target]).zipIdx =
      if target ∈ targets then firstRows targets.zipIdx
      else firstRows targets.zipIdx ++ [(target, targets.length)] := by
  have hrows : (targets ++ [target]).zipIdx = targets.zipIdx ++ [(target, targets.length)] := by
    simp [List.zipIdx_append]
  have hbound : ∀ row ∈ targets.zipIdx, row.2 < targets.length := by
    intro row hrow
    simpa using List.snd_lt_of_mem_zipIdx hrow
  unfold firstRows
  rw [hrows, List.filter_append]
  have hold : targets.zipIdx.filter (fun row => (targets.zipIdx ++ [(target, targets.length)]).all
      fun other => other.1 ≠ row.1 ∨ row.2 ≤ other.2) =
      targets.zipIdx.filter fun row => targets.zipIdx.all
        fun other => other.1 ≠ row.1 ∨ row.2 ≤ other.2 := by
    apply List.filter_congr
    intro row hrow
    have hlt := hbound row hrow
    have hlast : row.2 ≤ targets.length := hlt.le
    simp [List.all_append, hlast]
  have hnew : [(target, targets.length)].filter (fun row =>
      (targets.zipIdx ++ [(target, targets.length)]).all
        fun other => other.1 ≠ row.1 ∨ row.2 ≤ other.2) =
      if target ∈ targets then [] else [(target, targets.length)] := by
    split_ifs with hmem
    · obtain ⟨i, hi, hget⟩ := List.mem_iff_getElem.mp hmem
      have hrow : (target, i) ∈ targets.zipIdx := by
        rw [List.mk_mem_zipIdx_iff_getElem?, List.getElem?_eq_getElem hi, hget]
      apply List.filter_eq_nil_iff.mpr
      intro row hlast hall
      obtain rfl := List.mem_singleton.mp hlast
      have hfirst := List.all_eq_true.mp hall _ (List.mem_append_left _ hrow)
      simp only [ne_eq, not_true_eq_false, false_or, decide_eq_true_eq] at hfirst
      omega
    · apply List.filter_eq_self.mpr
      intro row hlast
      obtain rfl := List.mem_singleton.mp hlast
      apply List.all_eq_true.mpr
      intro other hother
      rcases List.mem_append.mp hother with hother | hother
      · have hin : other.1 ∈ targets := by
          obtain ⟨value, i⟩ := other
          exact List.fst_mem_of_mem_zipIdx hother
        have hne : other.1 ≠ target := fun h => hmem (h ▸ hin)
        simp [hne]
      · obtain rfl := List.mem_singleton.mp hother
        simp
  rw [hold, hnew]
  split_ifs <;> simp

theorem firstRows_sorted (targets : List String) :
    (firstRows targets.zipIdx).Pairwise fun row other => row.2 ≤ other.2 := by
  induction targets using List.reverseRecOn with
  | nil => exact List.Pairwise.nil
  | append_singleton targets target ih =>
    rw [firstRows_zipIdx_append]
    split_ifs
    · exact ih
    · refine List.pairwise_append.mpr ⟨ih, List.pairwise_singleton _ _, fun row hrow last hlast => ?_⟩
      obtain rfl := List.mem_singleton.mp hlast
      have hlt := List.snd_lt_of_mem_zipIdx (List.mem_of_mem_filter hrow)
      exact hlt.le

def blankTargets (edges : List CellEdge) : List String :=
  (edges.filter fun edge => edge.status = some "empty" ∧ edge.target ≠ "").map (·.target)

theorem emptyTargetRows_def (edges : List CellEdge) :
    emptyTargetRows edges = (firstRows (blankTargets edges).zipIdx).map (·.1) := by
  have hsorted : (firstRows (blankTargets edges).zipIdx).insertionSort
      (fun row other => row.2 ≤ other.2) = firstRows (blankTargets edges).zipIdx :=
    List.Pairwise.insertionSort_eq (firstRows_sorted _)
  rw [← hsorted]
  rfl

theorem blankTargets_append (edges : List CellEdge) (edge : CellEdge) :
    blankTargets (edges ++ [edge]) =
      if edge.status = some "empty" ∧ edge.target ≠ "" then blankTargets edges ++ [edge.target]
      else blankTargets edges := by
  unfold blankTargets
  rw [List.filter_append, List.map_append]
  split_ifs with hedge
  · simp [hedge]
  · have hlast : [edge].filter (fun e => decide (e.status = some "empty" ∧ e.target ≠ "")) = [] :=
      List.filter_eq_nil_iff.mpr fun e he => by
        rw [List.mem_singleton.mp he]
        simpa using hedge
    rw [hlast, List.map_nil, List.append_nil]

theorem mem_blankTargets : node ∈ blankTargets edges ↔ node ∈ emptyRangeNodes [] edges := by
  rw [mem_emptyRangeNodes, blankTargets, List.mem_map]
  constructor
  · rintro ⟨edge, hedge, rfl⟩
    have hkept := of_decide_eq_true (List.mem_filter.mp hedge).2
    exact ⟨List.not_mem_nil, hkept.2, edge, List.mem_of_mem_filter hedge, hkept.1, rfl⟩
  · rintro ⟨-, hne, edge, hedge, hstatus, rfl⟩
    exact ⟨edge, List.mem_filter.mpr ⟨hedge, decide_eq_true ⟨hstatus, hne⟩⟩, rfl⟩

theorem emptyTargetRows_eq (edges : List CellEdge) :
    emptyTargetRows edges = emptyRangeNodes [] edges := by
  rw [emptyTargetRows_def]
  induction edges using List.reverseRecOn with
  | nil => rfl
  | append_singleton edges edge ih =>
    rw [emptyRangeNodes_append, blankTargets_append]
    by_cases hedge : edge.status = some "empty" ∧ edge.target ≠ ""
    · rw [if_pos hedge, firstRows_zipIdx_append]
      by_cases hmem : edge.target ∈ blankTargets edges
      · rw [if_pos hmem, if_neg fun h => h.2.2.2 (mem_blankTargets.mp hmem), ih]
      · have hnew : edge.target ∉ emptyRangeNodes [] edges := fun h => hmem (mem_blankTargets.mpr h)
        rw [if_neg hmem, if_pos ⟨hedge.1, hedge.2, List.not_mem_nil, hnew⟩, List.map_append, ih]
        rfl
    · rw [if_neg hedge, if_neg fun h => hedge ⟨h.1, h.2.1⟩, ih]

theorem emptyTargetIds_eq (source : EdgeSource) :
    emptyTargetIds source = emptyRangeNodes [] source.edges := by
  cases source with
  | listed edges => rfl
  | stored edges => exact emptyTargetRows_eq edges

end EmptyNodes

variable {text : GraphText} {layout : Layout}

section Rows

theorem foldl_step (cells : List Cell) (empty : List String) :
    cells.foldl (IndexStream.step text layout) { stillEmpty := empty } =
      { rows := cells.map (graphRow layout)
        circularIds := collected ((cells.filter fun cell =>
          (cell.sheet, cell.row) ∈ circularKeys text layout).map fun cell =>
            ((cell.sheet, cell.row), cell.node))
        stillEmpty := empty.filter (· ∉ cells.map Cell.node) } := by
  induction cells using List.reverseRecOn with
  | nil => simp [collected]
  | append_singleton cells cell ih =>
    rw [List.foldl_append, ih]
    simp only [List.foldl_cons, List.foldl_nil, IndexStream.step, List.map_append, List.map_cons,
      List.map_nil, List.filter_append, List.filter_filter]
    congr 1
    · by_cases hcell : (cell.sheet, cell.row) ∈ circularKeys text layout
      · simp [hcell, collected_concat]
      · simp [hcell]
    · apply List.filter_congr
      intro node _
      by_cases hnode : node = cell.node <;> simp [hnode, List.mem_append]

theorem nodeId_emptyIndexRow (node : String) : (emptyIndexRow text layout node).nodeId = node := by
  unfold emptyIndexRow
  split <;> rfl

theorem nodeId_indexRows (edges : List CellEdge) (cells : List Cell) :
    (indexRows text layout edges cells).map (·.nodeId) =
      cells.map Cell.node ++ emptyRangeNodes (cells.map Cell.node) edges := by
  have hnodes : (cells.map (graphRow layout)).map (·.nodeId) = cells.map Cell.node := by
    rw [List.map_map]
    rfl
  have hempty (found : List String) :
      (found.map (emptyIndexRow text layout)).map (·.nodeId) = found := by
    rw [List.map_map]
    exact (List.map_congr_left fun node _ => nodeId_emptyIndexRow node).trans (List.map_id _)
  unfold indexRows
  simp only [List.map_append, hnodes, hempty]

theorem streamIndex_rows (source : EdgeSource) (cells : List Cell) :
    (streamIndex text layout source cells).1 = indexRows text layout source.edges cells := by
  have hnodes : (cells.map (graphRow layout)).map (·.nodeId) = cells.map Cell.node := by
    rw [List.map_map]
    rfl
  unfold streamIndex indexRows
  simp only [foldl_step, hnodes]
  rw [emptyRangeNodes_eq_filter (cells.map Cell.node), emptyTargetIds_eq]
  congr 2
  apply List.filter_congr
  intro node hnode
  simp [hnode]

end Rows

section Hints

abbrev IdsByRow := List ((String × ℕ) × List String)

variable {cells : List Cell} {key : String × ℕ} {node : String}

theorem cellsByRow_eq (rows : List GraphRow) : cellsByRow text rows =
    collected (rows.filterMap fun row => (rowOf text row.nodeId).map fun key =>
      (key, row.nodeId)) := by
  induction rows using List.reverseRecOn with
  | nil => rfl
  | append_singleton rows row ih =>
    rw [cellsByRow, List.foldl_append, List.filterMap_append, ← cellsByRow, ih]
    cases hrow : rowOf text row.nodeId with
    | none => simp [hrow]
    | some key => simp [hrow, collected_concat]

theorem mem_cellsByRow {rows : List GraphRow} :
    node ∈ (get key (cellsByRow text rows)).getD [] ↔
      node ∈ rows.map (·.nodeId) ∧ rowOf text node = some key := by
  rw [cellsByRow_eq, mem_get_collected, List.mem_filterMap, List.mem_map]
  constructor
  · rintro ⟨row, hrow, hkey⟩
    obtain ⟨found, hfound, heq⟩ := Option.map_eq_some_iff.mp hkey
    obtain ⟨rfl, rfl⟩ := Prod.mk.inj heq
    exact ⟨⟨row, hrow, rfl⟩, hfound⟩
  · rintro ⟨⟨row, hrow, rfl⟩, hkey⟩
    exact ⟨row, hrow, by rw [hkey]; rfl⟩

theorem nodup_cellsByRow (rows : List GraphRow) :
    ((get key (cellsByRow text rows)).getD []).Nodup := by
  rw [cellsByRow_eq]
  exact nodup_get_collected _ _

theorem circularIds_eq (source : EdgeSource) (cells : List Cell) :
    (streamIndex text layout source cells).2 = collected ((cells.filter fun cell =>
      (cell.sheet, cell.row) ∈ circularKeys text layout).map fun cell =>
        ((cell.sheet, cell.row), cell.node)) := by
  simp only [streamIndex, foldl_step]

theorem mem_circularIds {source : EdgeSource} (hkey : key ∈ circularKeys text layout) :
    node ∈ (get key (streamIndex text layout source cells).2).getD [] ↔
      ∃ cell ∈ cells, (cell.sheet, cell.row) = key ∧ cell.node = node := by
  rw [circularIds_eq, mem_get_collected, List.mem_map]
  constructor
  · rintro ⟨cell, hcell, heq⟩
    obtain ⟨rfl, rfl⟩ := Prod.mk.inj heq
    exact ⟨cell, List.mem_of_mem_filter hcell, rfl, rfl⟩
  · rintro ⟨cell, hcell, rfl, rfl⟩
    exact ⟨cell, List.mem_filter.mpr ⟨hcell, decide_eq_true hkey⟩, rfl⟩

def hintIds (ids : IdsByRow) (key : String × ℕ) : List String :=
  ((get key ids).getD []).insertionSort (· ≤ ·)

theorem hintIds_eq_iff {ids ids' : IdsByRow} (hids : ((get key ids).getD []).Nodup)
    (hids' : ((get key ids').getD []).Nodup) : hintIds ids key = hintIds ids' key ↔
      ∀ node, node ∈ (get key ids).getD [] ↔ node ∈ (get key ids').getD [] := by
  constructor
  · intro h node
    have hleft : node ∈ hintIds ids key ↔ node ∈ (get key ids).getD [] := List.mem_insertionSort _
    have hright : node ∈ hintIds ids' key ↔ node ∈ (get key ids').getD [] :=
      List.mem_insertionSort _
    rw [← hleft, ← hright, h]
  · intro h
    have hperm := (List.perm_ext_iff_of_nodup hids hids').mpr h
    have hleft : (hintIds ids key).Pairwise (· ≤ ·) := List.pairwise_insertionSort _ _
    have hright : (hintIds ids' key).Pairwise (· ≤ ·) := List.pairwise_insertionSort _ _
    refine List.Perm.eq_of_pairwise ?_ hleft hright ?_
    · intro a b _ _ hab hba
      exact String.le_antisymm hab hba
    · exact (List.perm_insertionSort _ _).trans (hperm.trans (List.perm_insertionSort _ _).symm)

theorem any_hints (ids : IdsByRow) (entries : List (String × LayoutRow)) (key : String × ℕ) :
    ((entries.foldl (addHint ids) []).any fun hint => (hint.sheet, hint.row) = key) = true ↔
      ∃ entry ∈ entries, (entry.1, entry.2.row) = key := by
  induction entries using List.reverseRecOn with
  | nil => simp
  | append_singleton entries entry ih =>
    have hlast : (∃ e ∈ entries ++ [entry], (e.1, e.2.row) = key) ↔
        (∃ e ∈ entries, (e.1, e.2.row) = key) ∨ (entry.1, entry.2.row) = key := by
      simp only [List.mem_append, List.mem_singleton, or_and_right, exists_or, exists_eq_left]
    rw [List.foldl_append, List.foldl_cons, List.foldl_nil, addHint, hlast, ← ih]
    split_ifs with hold
    · constructor
      · exact .inl
      · rintro (hany | rfl)
        · exact hany
        · exact hold
    · simp only [List.any_append, List.any_cons, List.any_nil, Bool.or_false, Bool.or_eq_true,
        decide_eq_true_eq]

theorem foldl_addHint_eq_iff (ids ids' : IdsByRow) (entries : List (String × LayoutRow)) :
    entries.foldl (addHint ids) [] = entries.foldl (addHint ids') [] ↔
      ∀ entry ∈ entries, hintIds ids (entry.1, entry.2.row) =
        hintIds ids' (entry.1, entry.2.row) := by
  induction entries using List.reverseRecOn with
  | nil => simp
  | append_singleton entries entry ih =>
    have hsplit : (∀ e ∈ entries ++ [entry], hintIds ids (e.1, e.2.row) =
        hintIds ids' (e.1, e.2.row)) ↔
        (∀ e ∈ entries, hintIds ids (e.1, e.2.row) = hintIds ids' (e.1, e.2.row)) ∧
          hintIds ids (entry.1, entry.2.row) = hintIds ids' (entry.1, entry.2.row) := by
      simp [or_imp, forall_and]
    rw [List.foldl_append, List.foldl_append, hsplit, ← ih]
    simp only [List.foldl_cons, List.foldl_nil, addHint]
    by_cases hold : ∃ e ∈ entries, (e.1, e.2.row) = (entry.1, entry.2.row)
    · rw [if_pos ((any_hints ids entries _).mpr hold), if_pos ((any_hints ids' entries _).mpr hold)]
      constructor
      · intro h
        obtain ⟨e, he, hkey⟩ := hold
        refine ⟨h, ?_⟩
        rw [← hkey]
        exact ih.mp h e he
      · exact And.left
    · rw [if_neg (mt (any_hints ids entries _).mp hold),
        if_neg (mt (any_hints ids' entries _).mp hold)]
      constructor
      · intro h
        obtain ⟨hbefore, hhint⟩ := List.append_inj' h rfl
        have hids := (CircularityHint.mk.inj (List.singleton_inj.mp hhint)).2.2.2
        exact ⟨hbefore, hids⟩
      · rintro ⟨hbefore, hids⟩
        rw [hbefore]
        simp only [hintIds] at hids
        rw [hids]

end Hints

/-- Both ways give the same rows and the same hints. -/
def PathsAgree {Cycle : Type} (text : GraphText) (layout : Layout) (source : EdgeSource)
    (cells : List Cell) (cycles : List Cycle) : Prop :=
  let streamed := streamIndex text layout source cells
  let rows := indexRows text layout source.edges cells
  streamed.1 = rows ∧
    circularityHints text layout cycles streamed.2 =
      circularityHints text layout cycles (cellsByRow text rows)

/-- A row that the ids of its cells name, and in which no empty range member lies. -/
def SameCells (text : GraphText) (edges : List CellEdge) (cells : List Cell)
    (key : String × ℕ) : Prop :=
  (∀ cell ∈ cells, (cell.sheet, cell.row) = key ↔ rowOf text cell.node = some key) ∧
    ∀ edge ∈ edges, edge.status = some "empty" → edge.target ≠ "" →
      rowOf text edge.target = some key → edge.target ∈ cells.map Cell.node

theorem sameCells_iff {source : EdgeSource} {cells : List Cell} {key : String × ℕ}
    (hkey : key ∈ circularKeys text layout) :
    hintIds (streamIndex text layout source cells).2 key =
      hintIds (cellsByRow text (indexRows text layout source.edges cells)) key ↔
        SameCells text source.edges cells key := by
  have hnodup : ((get key (streamIndex text layout source cells).2).getD []).Nodup := by
    rw [circularIds_eq]
    exact nodup_get_collected _ _
  rw [hintIds_eq_iff hnodup (nodup_cellsByRow _)]
  have hnodes : (indexRows text layout source.edges cells).map (·.nodeId) =
      cells.map Cell.node ++ emptyRangeNodes (cells.map Cell.node) source.edges :=
    nodeId_indexRows _ _
  simp only [mem_circularIds hkey, mem_cellsByRow, hnodes, List.mem_append, mem_emptyRangeNodes]
  constructor
  · intro h
    refine ⟨fun cell hcell => ⟨fun hrow => ?_, fun hread => ?_⟩,
      fun edge hedge hstatus hne hread => ?_⟩
    · exact ((h cell.node).mp ⟨cell, hcell, hrow, rfl⟩).2
    · obtain ⟨other, -, hrow, hnode⟩ :=
        (h cell.node).mpr ⟨.inl (List.mem_map_of_mem hcell), hread⟩
      obtain ⟨hsheet, hnumber, -⟩ := Cell.node_inj hnode
      rw [← hrow, hsheet, hnumber]
    · by_contra hnew
      obtain ⟨cell, hcell, -, hnode⟩ :=
        (h edge.target).mpr ⟨.inr ⟨hnew, hne, edge, hedge, hstatus, rfl⟩, hread⟩
      exact hnew (hnode ▸ List.mem_map_of_mem hcell)
  · rintro ⟨hcells, hedges⟩ node
    constructor
    · rintro ⟨cell, hcell, hrow, rfl⟩
      exact ⟨.inl (List.mem_map_of_mem hcell), (hcells cell hcell).mp hrow⟩
    · rintro ⟨hnode | ⟨hnew, hne, edge, hedge, hstatus, rfl⟩, hread⟩
      · obtain ⟨cell, hcell, rfl⟩ := List.mem_map.mp hnode
        exact ⟨cell, hcell, (hcells cell hcell).mpr hread, rfl⟩
      · exact absurd (hedges edge hedge hstatus hne hread) hnew

/-- With no cycle the paths agree when each circular row has the same cells in both. -/
theorem index_paths_agree_iff {Cycle : Type} (text : GraphText) (layout : Layout)
    (source : EdgeSource) (cells : List Cell) (cycles : List Cycle) :
    PathsAgree text layout source cells cycles ↔
      cycles ≠ [] ∨ ∀ key ∈ circularKeys text layout, SameCells text source.edges cells key := by
  unfold PathsAgree
  simp only [streamIndex_rows, true_and]
  by_cases hcycles : cycles = []
  · simp only [circularityHints, if_pos hcycles, foldl_addHint_eq_iff]
    rw [or_iff_right (not_not_intro hcycles), circularKeys, List.forall_mem_map]
    constructor
    · intro h entry hentry
      exact (sameCells_iff (List.mem_map_of_mem hentry)).mp (h entry hentry)
    · intro h entry hentry
      exact (sameCells_iff (List.mem_map_of_mem hentry)).mpr (h entry hentry)
  · simp [circularityHints, hcycles]

section Sample

def checkLayout : Layout where
  sheets := [{ name := "S", blocks := [⟨"b1", 1, none, [], [], [⟨2, "circular check", none, 0,
    false, false, .fact, [], none, []⟩], .timeline⟩] }]

/-- `S!C1` adds `A2` and `B2`, of which only `B2` is stored. -/
def checkCells : List Cell :=
  [{ sheet := "S", row := 1, col := 3, row_pos := place_one, col_pos := place_three,
     formulaRaw := some "=A2+B2" },
   { sheet := "S", row := 2, col := 2, row_pos := place_two, col_pos := place_two,
     cachedValue := some "1" }]

def checkEdges : List CellEdge :=
  [{ sampleEdge "S!C1" "S!A2" "ref" with status := some "empty" },
   sampleEdge "S!C1" "S!B2" "ref"]

theorem blank_member_tested_in_memory_only :
    circularityHints yearText checkLayout ([] : List CycleRecord)
        (streamIndex yearText checkLayout (.listed checkEdges) checkCells).2 =
      [⟨"S", 2, "circular check", ["S!B2"]⟩] ∧
    circularityHints yearText checkLayout ([] : List CycleRecord)
        (cellsByRow yearText (indexRows yearText checkLayout checkEdges checkCells)) =
      [⟨"S", 2, "circular check", ["S!A2", "S!B2"]⟩] ∧
    ¬PathsAgree yearText checkLayout (.listed checkEdges) checkCells ([] : List CycleRecord) := by
  have hstream : circularityHints yearText checkLayout ([] : List CycleRecord)
      (streamIndex yearText checkLayout (.listed checkEdges) checkCells).2 =
        [⟨"S", 2, "circular check", ["S!B2"]⟩] := by decide +kernel
  have hmemory : circularityHints yearText checkLayout ([] : List CycleRecord)
      (cellsByRow yearText (indexRows yearText checkLayout checkEdges checkCells)) =
        [⟨"S", 2, "circular check", ["S!A2", "S!B2"]⟩] := by decide +kernel
  refine ⟨hstream, hmemory, fun h => ?_⟩
  have hhints := hstream.symm.trans (h.2.trans hmemory)
  exact absurd hhints (by decide)

end Sample

end FinanceContext.GraphIndex
