import FinanceContext.RangeNodes
import FinanceContext.TraceWalk

namespace FinanceContext.Trace

open Csr Dictionaries GraphIndex BreadthFirst NestedGroups IntervalRuns

variable (text : GraphText) (files : Files)

section Relations

/-- A filled cell is filed at the place, under the spelling the grid has for the sheet. -/
def Filed (sheet : String) (col row : ℕ) : Prop :=
  ∃ entry ∈ index files, isFilled entry.2 = true ∧ splitCell text.toCharTable entry.1 =
    some ((folding text).sheetName (grid text files) sheet, col, row)

def Member (node : RangeNode) (cell : String) : Prop :=
  ∃ col row, cell = nodeId node.sheet (formatAddr col row) ∧
    CoverIndex.holds node.sheet col row node = true ∧ Filed text files node.sheet col row

def Covered (node : RangeNode) (cell : String) : Prop :=
  ∃ sheet col row, parseNodeId text.toCharTable cell = some (sheet, col, row) ∧
    cell.toList.contains ':' = false ∧ CoverIndex.holds sheet col row node = true ∧
      (isWhole node = true → Expansion.cellPresent files.usage sheet row col = true)

/-- `cell` is a direct precedent of `formula`: it is referenced, or a filled member of a range. -/
def DirectPrecedent (formula cell : String) : Prop :=
  ∃ edge ∈ fwd files formula,
    edge.target = cell ∧ parseRangeNode text.toCharTable cell = none ∧
        nodeTypeOf files cell ≠ some .empty ∨
      ∃ node, parseRangeNode text.toCharTable edge.target = some node ∧
        hasCells text files node = true ∧ Member text files node cell

/-- `formula` is a direct dependent of `cell`: it references the cell, or reads it in a range. -/
def DirectDependent (cell formula : String) : Prop :=
  ∃ edge ∈ fwd files formula,
    edge.target = cell ∧ nodeTypeOf files formula ≠ some .empty ∨
      ∃ node, parseRangeNode text.toCharTable edge.target = some node ∧ Covered text files node cell

end Relations

variable {text files} {node : RangeNode} {cell : String}

section Ranges

theorem mem_fwd {edge : CellEdge} {source : String} : edge ∈ fwd files source ↔
    edge ∈ files.edges ∧ isUsable edge = true ∧ edge.source = source := by
  simp [fwd, List.mem_filter]

theorem mem_rev {edge : CellEdge} {target : String} : edge ∈ rev files target ↔
    edge ∈ files.edges ∧ isUsable edge = true ∧ edge.target = target := by
  simp [rev, List.mem_filter]

theorem get_nodesById {edge : CellEdge} (hedge : edge ∈ files.edges) (husable : isUsable edge) :
    get edge.target (nodesById text files) = parseRangeNode text.toCharTable edge.target := by
  apply get_filled_of_forall
  intro node
  rw [List.mem_filterMap]
  constructor
  · rintro ⟨other, -, hother⟩
    obtain ⟨found, hfound, heq⟩ := Option.map_eq_some_iff.mp hother
    obtain ⟨htarget, rfl⟩ := Prod.mk.inj heq
    rwa [← htarget]
  · intro hnode
    exact ⟨edge, List.mem_filter.mpr ⟨hedge, husable⟩, by rw [hnode]; rfl⟩

theorem mem_nodes : node ∈ (nodesById text files).map Prod.snd ↔
    ∃ edge ∈ files.edges, isUsable edge = true ∧
      parseRangeNode text.toCharTable edge.target = some node := by
  rw [List.mem_map]
  constructor
  · rintro ⟨⟨target, found⟩, hmem, rfl⟩
    obtain ⟨edge, hedge, hparsed⟩ := List.mem_filterMap.mp (mem_of_mem_filled hmem)
    obtain ⟨found', hfound, heq⟩ := Option.map_eq_some_iff.mp hparsed
    obtain ⟨-, rfl⟩ := Prod.mk.inj heq
    obtain ⟨hedge, husable⟩ := List.mem_filter.mp hedge
    exact ⟨edge, hedge, husable, hfound⟩
  · rintro ⟨edge, hedge, husable, hparsed⟩
    have hget : get edge.target (nodesById text files) = some node :=
      (get_nodesById hedge husable).trans hparsed
    exact ⟨(edge.target, node), mem_of_get hget, rfl⟩

theorem mem_filledSpans {span : Span} : span ∈ filledSpans text files ↔
    span.rowEnd = span.rowStart ∧ ∃ entry ∈ index files, isFilled entry.2 = true ∧
      splitCell text.toCharTable entry.1 = some (span.sheet, span.col, span.rowStart) := by
  obtain ⟨sheet, col, row, row'⟩ := span
  rw [filledSpans, List.mem_filterMap]
  constructor
  · rintro ⟨entry, hentry, hspan⟩
    split_ifs at hspan with hfilled
    obtain ⟨⟨s, c, r⟩, hread, heq⟩ := Option.map_eq_some_iff.mp hspan
    obtain ⟨rfl, rfl, rfl, rfl⟩ := Span.mk.inj heq
    exact ⟨rfl, entry, hentry, hfilled, hread⟩
  · rintro ⟨hrow, entry, hentry, hfilled, hread⟩
    simp only at hrow hread
    refine ⟨entry, hentry, ?_⟩
    rw [if_pos hfilled, hread, hrow]
    rfl

theorem mem_members : cell ∈ members text files node ↔ Member text files node cell := by
  have hkeys := Expansion.nodup_columnsOf (folding text) (filledSpans text files) node.sheet
  have hfiled (row col : ℕ) : Covers (itemsAt ((folding text).sheetName (grid text files)
      node.sheet) col (grid text files).rowsByCol) row ↔ Filed text files node.sheet col row := by
    rw [grid, Expansion.covers_itemsAt_iff, ← grid]
    constructor
    · rintro ⟨span, hspan, hsheet, rfl, hrow⟩
      obtain ⟨hend, entry, hentry, hfilled, hread⟩ := mem_filledSpans.mp hspan
      rw [Span.rows, if_neg (by omega), hend] at hrow
      obtain rfl : span.rowStart = row := by
        simp only at hrow
        omega
      exact ⟨entry, hentry, hfilled, hsheet ▸ hread⟩
    · rintro ⟨entry, hentry, hfilled, hread⟩
      refine ⟨⟨_, col, row, row⟩, mem_filledSpans.mpr ⟨rfl, entry, hentry, hfilled, hread⟩, rfl,
        rfl, ?_⟩
      simp [Span.rows]
  rw [members, List.mem_map]
  constructor
  · rintro ⟨⟨row, col⟩, hpair, rfl⟩
    obtain ⟨hc1, hc2, hr1, hr2, hcovers⟩ := (Expansion.mem_nodePairs hkeys).mp hpair
    refine ⟨col, row, rfl, ?_, (hfiled row col).mp hcovers⟩
    simp [CoverIndex.holds, hc1, hc2, hr1, hr2]
  · rintro ⟨col, row, rfl, hholds, hplace⟩
    simp only [CoverIndex.holds, decide_true, Bool.true_and, Bool.and_eq_true,
      decide_eq_true_eq] at hholds
    obtain ⟨⟨hc1, hc2⟩, hr1, hr2⟩ := hholds
    refine ⟨(row, col), (Expansion.mem_nodePairs hkeys).mpr ?_, rfl⟩
    exact ⟨hc1, hc2, hr1, hr2, (hfiled row col).mpr hplace⟩

theorem mem_covering : node ∈ covering text files cell ↔
    node ∈ (nodesById text files).map Prod.snd ∧ Covered text files node cell := by
  unfold covering Covered
  cases hparsed : parseNodeId text.toCharTable cell with
  | none => simp
  | some place =>
    obtain ⟨sheet, col, row⟩ := place
    simp only
    cases hcolon : cell.toList.contains ':' with
    | true => simp
    | false =>
      have hperm := (CoverIndex.covering_perm ((nodesById text files).map Prod.snd) sheet col
        row).1
      rw [if_neg Bool.false_ne_true, List.mem_filter, hperm.mem_iff, List.mem_filter]
      constructor
      · rintro ⟨⟨hnode, hholds⟩, hpresent⟩
        refine ⟨hnode, sheet, col, row, rfl, rfl, hholds, fun hwhole => ?_⟩
        simpa [hwhole] using hpresent
      · rintro ⟨hnode, _, _, _, heq, -, hholds, hpresent⟩
        obtain ⟨rfl, rfl, rfl⟩ : sheet = _ ∧ col = _ ∧ row = _ := by simpa using heq
        refine ⟨⟨hnode, hholds⟩, ?_⟩
        cases hwhole : isWhole node with
        | false => rfl
        | true => simpa using hpresent hwhole

end Ranges

section Followed

variable {query : Query} {u v : String}

theorem mem_filledNext : v ∈ filledNext files u ↔ v = u ∧ nodeTypeOf files v ≠ some .empty := by
  unfold filledNext
  split_ifs with hempty
  · simp only [List.not_mem_nil, false_iff, not_and, not_not]
    rintro rfl
    exact hempty
  · simp only [List.mem_singleton, ne_eq, iff_self_and]
    rintro rfl
    exact hempty

theorem mem_followed_precedents (hdirection : query.direction = .precedents)
    (hmembers : query.rangeMembers = 0) :
    v ∈ followed text files query u ↔ DirectPrecedent text files u v := by
  have hreaders : readersOf text files query u = [] := by rw [readersOf, hdirection]
  have houtgoing : outgoing files query u = fwd files u := by rw [outgoing, hdirection]
  rw [followed, hreaders, List.map_nil, List.append_nil, List.mem_flatMap, houtgoing]
  unfold DirectPrecedent
  refine exists_congr fun edge => and_congr_right fun hedge => ?_
  obtain ⟨hmem, husable, -⟩ := mem_fwd.mp hedge
  have hshown (members : List String) : shown query members = members := by
    rw [shown, if_pos (by omega)]
  rw [edgeNext, hdirection]
  simp only
  rw [get_nodesById hmem husable]
  cases hnode : parseRangeNode text.toCharTable edge.target with
  | none =>
    simp only [mem_filledNext, reduceCtorEq, false_and, exists_false, or_false]
    constructor
    · rintro ⟨rfl, hfilled⟩
      exact ⟨rfl, hnode, hfilled⟩
    · rintro ⟨rfl, -, hfilled⟩
      exact ⟨rfl, hfilled⟩
  | some node =>
    simp only [hshown, Option.some.injEq, exists_eq_left']
    constructor
    · intro hv
      split_ifs at hv with hcells
      · exact .inr ⟨hcells, mem_members.mp hv⟩
      · cases hv
    · rintro (⟨rfl, hnone, -⟩ | ⟨hcells, hmember⟩)
      · rw [hnode] at hnone
        cases hnone
      · rw [if_pos hcells]
        exact mem_members.mpr hmember

theorem mem_followed_dependents (hdirection : query.direction = .dependents) :
    v ∈ followed text files query u ↔ DirectDependent text files u v := by
  have hreaders : readersOf text files query u = readers text files u := by
    rw [readersOf, hdirection]
  have houtgoing : outgoing files query u = rev files u := by rw [outgoing, hdirection]
  have hnext (edge : CellEdge) : edgeNext text files query edge = filledNext files edge.source := by
    rw [edgeNext, hdirection]
  rw [followed, hreaders, houtgoing, List.mem_append, List.mem_flatMap, List.mem_map]
  simp only [hnext, mem_filledNext]
  constructor
  · rintro (⟨edge, hedge, rfl, hfilled⟩ | ⟨reader, hreader, rfl⟩)
    · obtain ⟨hmem, husable, rfl⟩ := mem_rev.mp hedge
      exact ⟨edge, mem_fwd.mpr ⟨hmem, husable, rfl⟩, .inl ⟨rfl, hfilled⟩⟩
    · obtain ⟨node, hnode, hreader⟩ := List.mem_flatMap.mp hreader
      obtain ⟨edge, hedge, rfl⟩ := List.mem_map.mp hreader
      obtain ⟨hmem, husable, htarget⟩ := mem_rev.mp hedge
      obtain ⟨hnode, hcovered⟩ := mem_covering.mp hnode
      obtain ⟨other, -, -, hparsed⟩ := mem_nodes.mp hnode
      rw [nodeId_of_parseRangeNode hparsed] at htarget
      exact ⟨edge, mem_fwd.mpr ⟨hmem, husable, rfl⟩, .inr ⟨node, htarget ▸ hparsed, hcovered⟩⟩
  · rintro ⟨edge, hedge, hread⟩
    obtain ⟨hmem, husable, rfl⟩ := mem_fwd.mp hedge
    rcases hread with ⟨rfl, hfilled⟩ | ⟨node, hparsed, hcovered⟩
    · exact .inl ⟨edge, mem_rev.mpr ⟨hmem, husable, rfl⟩, rfl, hfilled⟩
    · refine .inr ⟨(edge, edge.source), List.mem_flatMap.mpr ⟨node, ?_, ?_⟩, rfl⟩
      · exact mem_covering.mpr ⟨mem_nodes.mpr ⟨edge, hmem, husable, hparsed⟩, hcovered⟩
      · apply List.mem_map_of_mem
        exact mem_rev.mpr ⟨hmem, husable, (nodeId_of_parseRangeNode hparsed).symm⟩

end Followed

end FinanceContext.Trace
