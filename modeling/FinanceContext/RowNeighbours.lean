import FinanceContext.RowAdjacency

namespace FinanceContext.RowAdjacency

open Csr Dictionaries

/-- An expansion and a reader of ids that know the same digits. -/
structure RowReader extends Expansion where
  chars : CharTable
  decimal_chars : decimal = chars.decimal

namespace RowReader

variable (r : RowReader)

/-- `row_adjacency` as the context builder calls it, with no limit on a list. -/
def adjacency (ranges : Option RangeReads) (rows : Option (List Row)) (edges : List Csr.Edge) :
    Adjacency := rowAdjacency r.chars r.toExpansion 0 ranges rows edges

def rebuiltPrecedents (found : Adjacency) (row : Row) : List String :=
  (get row found.precedents).getD [] ++
    (found.reads.map fun reads => (reads.forRow row).flatMap fun id =>
      match get id reads.nodes with
      | some node => ((memberRows r.chars r.toExpansion node).filter (· ≠ row)).map rowKeyRef
      | none => []).getD []

def rebuiltDependents (found : Adjacency) (row : Row) : List String :=
  (get row found.dependents).getD [] ++
    (found.reads.map fun reads => reads.nodes.flatMap fun (id, node) =>
      if row ∈ memberRows r.chars r.toExpansion node then
        ((get id reads.readers).getD []).filter (· ≠ rowKeyRef row)
      else []).getD []

/-- No range that is kept as a node has more cells than an expansion may have. -/
def Uncut (edges : List Csr.Edge) : Prop :=
  ∀ p ∈ edges.filterMap (nodeRead r.chars r.toExpansion), r.BelowCap p.2

end RowReader

theorem rowKeyRef_inj {row row' : Row} (h : rowKeyRef row = rowKeyRef row') : row = row' := by
  have hbang (n : ℕ) : '!' ∉ (toString n).toList := fun hmem =>
    absurd (isDigit_toString hmem).1 (by decide)
  obtain ⟨hsheet, hrow⟩ := nodeId_inj (hbang row.2) (hbang row'.2) h
  exact Prod.ext hsheet (toString_nat_inj (congrArg String.toList hrow))

section Entries

variable {keep : Option (List Row)} {pairs : List (Row × Row)}

theorem get_neighborLists (row : Row) (es : List (Row × String)) :
    get row (neighborLists 0 (collected es)) = get row (collected es) := by
  have hvalues : neighborLists 0 (collected es) = (collected es).reverse := by
    unfold neighborLists
    simp
  rw [hvalues, get_reverse (nodup_keys_collected es)]

theorem mem_precedentEntries {row : Row} {ref : String} :
    (row, ref) ∈ precedentEntries keep pairs ↔
      kept keep row = true ∧ ∃ target, (row, target) ∈ pairs ∧ ref = rowKeyRef target := by
  unfold precedentEntries
  rw [List.mem_filter, List.mem_map]
  constructor
  · rintro ⟨⟨⟨source, target⟩, hp, heq⟩, hkept⟩
    obtain ⟨rfl, rfl⟩ := Prod.mk.inj heq
    exact ⟨hkept, target, hp, rfl⟩
  · rintro ⟨hkept, target, hp, rfl⟩
    exact ⟨⟨(row, target), hp, rfl⟩, hkept⟩

theorem mem_dependentEntries {row : Row} {ref : String} :
    (row, ref) ∈ dependentEntries keep pairs ↔
      kept keep row = true ∧ ∃ source, (source, row) ∈ pairs ∧ ref = rowKeyRef source := by
  unfold dependentEntries
  rw [List.mem_filter, List.mem_map]
  constructor
  · rintro ⟨⟨⟨source, target⟩, hp, heq⟩, hkept⟩
    obtain ⟨rfl, rfl⟩ := Prod.mk.inj heq
    exact ⟨hkept, source, hp, rfl⟩
  · rintro ⟨hkept, source, hp, rfl⟩
    exact ⟨⟨(source, row), hp, rfl⟩, hkept⟩

end Entries

section Reader

variable (r : RowReader) {ranges : Option RangeReads} {rows : Option (List Row)}
  {edges : List Csr.Edge}

theorem get_precedents (row : Row) :
    get row (r.adjacency ranges rows edges).precedents =
      get row (collected (precedentEntries rows
        (edges.flatMap (links r.chars r.toExpansion ranges.isSome)))) := by
  unfold RowReader.adjacency rowAdjacency
  rw [foldl_visit]
  exact get_neighborLists _ _

theorem get_dependents (row : Row) :
    get row (r.adjacency ranges rows edges).dependents =
      get row (collected (dependentEntries rows
        (edges.flatMap (links r.chars r.toExpansion ranges.isSome)))) := by
  unfold RowReader.adjacency rowAdjacency
  rw [foldl_visit]
  exact get_neighborLists _ _

theorem reads_adjacency :
    (r.adjacency ranges rows edges).reads =
      edges.foldl (readsAfter r.chars r.toExpansion) ranges := by
  unfold RowReader.adjacency rowAdjacency
  rw [foldl_visit]

theorem mem_precedents {row : Row} {ref : String} :
    ref ∈ (get row (r.adjacency ranges rows edges).precedents).getD [] ↔ kept rows row = true ∧
      ∃ target, (row, target) ∈ edges.flatMap (links r.chars r.toExpansion ranges.isSome) ∧
        ref = rowKeyRef target := by
  rw [get_precedents, mem_get_collected, mem_precedentEntries]

theorem mem_dependents {row : Row} {ref : String} :
    ref ∈ (get row (r.adjacency ranges rows edges).dependents).getD [] ↔ kept rows row = true ∧
      ∃ source, (source, row) ∈ edges.flatMap (links r.chars r.toExpansion ranges.isSome) ∧
        ref = rowKeyRef source := by
  rw [get_dependents, mem_get_collected, mem_dependentEntries]

theorem targets_of_readNode {edge : Csr.Edge} {node : RangeNode}
    (h : readNode r.toExpansion edge = some node) (hcap : r.BelowCap node) :
    targets r.toExpansion edge = r.memberCells node := by
  unfold readNode at h
  split_ifs at h with hrange
  obtain ⟨usage, sheet, body, -, hsplit, hrect, -, -⟩ := r.rangeNodeFor_spec h
  have hcolon := colon_mem_of_rectangle hrect
  rw [r.decimal_chars] at hrect
  have hbang := bang_notMem_of_rectangle hrect
  obtain ⟨truncated, hexpand⟩ := r.expandRange_of_node r.decimal_chars h hcap
  cases htarget : edge.target with
  | none =>
    rw [htarget] at hsplit
    cases hsplit
  | some target =>
    rw [htarget, Option.getD_some] at hsplit hexpand
    have hne : target ≠ "" := by
      rintro rfl
      cases hsplit
    obtain ⟨before, hlast⟩ := rsplitBang_of_splitSheetRef hsplit hbang
    unfold targets
    simp only [htarget, if_neg hne, hlast, hrange.1, hrange.2, hcolon, hexpand]
    rfl

theorem mem_links_expanded {edge : Csr.Edge} {row row' : Row}
    (hcap : ∀ p ∈ nodeRead r.chars r.toExpansion edge, r.BelowCap p.2) :
    (row, row') ∈ links r.chars r.toExpansion false edge ↔
      (row, row') ∈ links r.chars r.toExpansion true edge ∨
        ∃ node, nodeRead r.chars r.toExpansion edge = some (row, node) ∧
          row' ∈ memberRows r.chars r.toExpansion node ∧ row ≠ row' := by
  unfold links nodeRead at *
  by_cases hnamed : edge.named = true
  · simp [hnamed]
  simp only [if_neg hnamed] at hcap ⊢
  cases hsource : cellRefRow r.chars edge.source with
  | none => simp
  | some source =>
    simp only [hsource, Option.bind_eq_bind, Option.bind_some] at hcap
    cases hnode : readNode r.toExpansion edge with
    | none => simp
    | some node =>
      have hbelow : r.BelowCap node := hcap (source, node) (by simp [hnode])
      have hmembers : (targets r.toExpansion edge).filterMap (cellRefRow r.chars) =
          memberRows r.chars r.toExpansion node := by
        rw [targets_of_readNode r hnode hbelow]
        rfl
      simp only [hmembers, Bool.false_and, Bool.false_eq_true, if_false, Option.isSome_some,
        Bool.true_and, if_true, List.not_mem_nil, false_or, Option.bind_eq_bind, Option.bind_some]
      constructor
      · intro h
        obtain ⟨target, htarget, heq⟩ := List.mem_map.mp h
        obtain ⟨rfl, rfl⟩ := Prod.mk.inj heq
        obtain ⟨hmem, hne⟩ := List.mem_filter.mp htarget
        exact ⟨node, rfl, hmem, by simpa using hne⟩
      · rintro ⟨other, hother, hmem, hne⟩
        obtain ⟨rfl, rfl⟩ := Prod.mk.inj (Option.some.inj hother)
        exact List.mem_map.mpr ⟨row', List.mem_filter.mpr ⟨hmem, by simpa using hne⟩, rfl⟩

theorem mem_flatMap_links (hcap : r.Uncut edges) {row row' : Row} :
    (row, row') ∈ edges.flatMap (links r.chars r.toExpansion false) ↔
      (row, row') ∈ edges.flatMap (links r.chars r.toExpansion true) ∨
        ∃ node, (row, node) ∈ edges.filterMap (nodeRead r.chars r.toExpansion) ∧
          row' ∈ memberRows r.chars r.toExpansion node ∧ row ≠ row' := by
  have hedge : ∀ edge ∈ edges, ∀ p ∈ nodeRead r.chars r.toExpansion edge, r.BelowCap p.2 :=
    fun edge hedge p hp => hcap p (List.mem_filterMap.mpr ⟨edge, hedge, hp⟩)
  simp only [List.mem_flatMap, List.mem_filterMap]
  constructor
  · rintro ⟨edge, hmem, h⟩
    rcases (mem_links_expanded r (hedge edge hmem)).mp h with h | ⟨node, hnode, hrow⟩
    · exact .inl ⟨edge, hmem, h⟩
    · exact .inr ⟨node, ⟨edge, hmem, hnode⟩, hrow⟩
  · rintro (⟨edge, hmem, h⟩ | ⟨node, ⟨edge, hmem, hnode⟩, hrow⟩)
    · exact ⟨edge, hmem, (mem_links_expanded r (hedge edge hmem)).mpr (.inl h)⟩
    · exact ⟨edge, hmem, (mem_links_expanded r (hedge edge hmem)).mpr (.inr ⟨node, hnode, hrow⟩)⟩

theorem rangeNodeFor_of_nodeRead {p : Row × RangeNode}
    (h : p ∈ edges.filterMap (nodeRead r.chars r.toExpansion)) :
    ∃ target, r.rangeNodeFor target = some p.2 := by
  obtain ⟨edge, -, h⟩ := List.mem_filterMap.mp h
  unfold nodeRead at h
  split_ifs at h
  obtain ⟨source, -, h⟩ := Option.bind_eq_some_iff.mp h
  obtain ⟨node, hnode, h⟩ := Option.bind_eq_some_iff.mp h
  obtain rfl := Option.some.inj h
  unfold readNode at hnode
  split_ifs at hnode
  exact ⟨_, hnode⟩

theorem get_nodes {p : Row × RangeNode}
    (h : p ∈ edges.filterMap (nodeRead r.chars r.toExpansion)) :
    get p.2.nodeId (RangeReads.recorded
      (edges.filterMap (nodeRead r.chars r.toExpansion))).nodes = some p.2 := by
  rw [RangeReads.get_nodes_recorded]
  cases hfind : (edges.filterMap (nodeRead r.chars r.toExpansion)).find?
      (·.2.nodeId = p.2.nodeId) with
  | none =>
    have hnone := List.find?_eq_none.mp hfind p h
    simp at hnone
  | some q =>
    have hid : q.2.nodeId = p.2.nodeId := by simpa using List.find?_some hfind
    obtain ⟨target, hq⟩ := rangeNodeFor_of_nodeRead r (List.mem_of_find?_eq_some hfind)
    obtain ⟨target', hp⟩ := rangeNodeFor_of_nodeRead r h
    rw [Option.map_some, r.rangeNodeFor_inj hq hp hid]

theorem reads_noded :
    (r.adjacency (some .empty) rows edges).reads =
      some (.recorded (edges.filterMap (nodeRead r.chars r.toExpansion))) := by
  rw [reads_adjacency, foldl_readsAfter]

theorem mem_rebuiltPrecedents {row : Row} {ref : String} :
    ref ∈ r.rebuiltPrecedents (r.adjacency (some .empty) rows edges) row ↔
      ref ∈ (get row (r.adjacency (some .empty) rows edges).precedents).getD [] ∨
        ∃ node, (row, node) ∈ edges.filterMap (nodeRead r.chars r.toExpansion) ∧
          ∃ target ∈ memberRows r.chars r.toExpansion node, row ≠ target ∧
            ref = rowKeyRef target := by
  unfold RowReader.rebuiltPrecedents
  rw [List.mem_append, reads_noded, Option.map_some, Option.getD_some, List.mem_flatMap]
  apply or_congr_right
  simp only [RangeReads.forRow, RangeReads.byRow_recorded, mem_get_collected, List.mem_map]
  constructor
  · rintro ⟨id, ⟨⟨source, node⟩, hread, heq⟩, href⟩
    obtain ⟨rfl, rfl⟩ := Prod.mk.inj heq
    have hnode := get_nodes r hread
    rw [hnode] at href
    obtain ⟨target, htarget, rfl⟩ := List.mem_map.mp href
    obtain ⟨hmem, hne⟩ := List.mem_filter.mp htarget
    exact ⟨node, hread, target, hmem, fun he => of_decide_eq_true hne he.symm, rfl⟩
  · rintro ⟨node, hread, target, hmem, hne, rfl⟩
    refine ⟨node.nodeId, ⟨(row, node), hread, rfl⟩, ?_⟩
    have hnode := get_nodes r hread
    rw [hnode]
    apply List.mem_map_of_mem
    exact List.mem_filter.mpr ⟨hmem, decide_eq_true fun he => hne he.symm⟩

theorem mem_rebuiltDependents {row : Row} {ref : String} :
    ref ∈ r.rebuiltDependents (r.adjacency (some .empty) rows edges) row ↔
      ref ∈ (get row (r.adjacency (some .empty) rows edges).dependents).getD [] ∨
        ∃ source node, (source, node) ∈ edges.filterMap (nodeRead r.chars r.toExpansion) ∧
          row ∈ memberRows r.chars r.toExpansion node ∧ source ≠ row ∧
            ref = rowKeyRef source := by
  unfold RowReader.rebuiltDependents
  rw [List.mem_append, reads_noded, Option.map_some, Option.getD_some, List.mem_flatMap]
  apply or_congr_right
  constructor
  · rintro ⟨⟨id, node⟩, hnode, href⟩
    have hget := get_of_mem (RangeReads.nodup_nodes_recorded _) hnode
    dsimp only at href
    split_ifs at href with hmem
    · obtain ⟨hreader, hne⟩ := List.mem_filter.mp href
      rw [RangeReads.readers_recorded, mem_get_collected] at hreader
      obtain ⟨⟨source, node'⟩, hread, heq⟩ := List.mem_map.mp hreader
      obtain ⟨rfl, rfl⟩ := Prod.mk.inj heq
      have hnode' := get_nodes r hread
      rw [hget] at hnode'
      obtain rfl := Option.some.inj hnode'
      refine ⟨source, node, hread, hmem, ?_, rfl⟩
      rintro rfl
      simp at hne
    · cases href
  · rintro ⟨source, node, hread, hmem, hne, rfl⟩
    refine ⟨(node.nodeId, node), mem_of_get (get_nodes r hread), ?_⟩
    dsimp only
    rw [if_pos hmem, List.mem_filter, RangeReads.readers_recorded, mem_get_collected]
    refine ⟨List.mem_map.mpr ⟨(source, node), hread, rfl⟩, ?_⟩
    have hdiff : rowKeyRef source ≠ rowKeyRef row := fun h => hne (rowKeyRef_inj h)
    simpa using hdiff

theorem rebuiltPrecedents_iff (hcap : r.Uncut edges) {row : Row} (hrow : kept rows row = true)
    {ref : String} :
    ref ∈ r.rebuiltPrecedents (r.adjacency (some .empty) rows edges) row ↔
      ref ∈ (get row (r.adjacency none rows edges).precedents).getD [] := by
  rw [mem_rebuiltPrecedents, mem_precedents, mem_precedents]
  simp only [hrow, true_and, Option.isSome_some, Option.isSome_none]
  constructor
  · rintro (⟨target, hlink, rfl⟩ | ⟨node, hread, target, hmem, hne, rfl⟩)
    · exact ⟨target, (mem_flatMap_links r hcap).mpr (.inl hlink), rfl⟩
    · exact ⟨target, (mem_flatMap_links r hcap).mpr (.inr ⟨node, hread, hmem, hne⟩), rfl⟩
  · rintro ⟨target, hlink, rfl⟩
    rcases (mem_flatMap_links r hcap).mp hlink with hlink | ⟨node, hread, hmem, hne⟩
    · exact .inl ⟨target, hlink, rfl⟩
    · exact .inr ⟨node, hread, target, hmem, hne, rfl⟩

theorem rebuiltDependents_iff (hcap : r.Uncut edges) {row : Row} (hrow : kept rows row = true)
    {ref : String} :
    ref ∈ r.rebuiltDependents (r.adjacency (some .empty) rows edges) row ↔
      ref ∈ (get row (r.adjacency none rows edges).dependents).getD [] := by
  rw [mem_rebuiltDependents, mem_dependents, mem_dependents]
  simp only [hrow, true_and, Option.isSome_some, Option.isSome_none]
  constructor
  · rintro (⟨source, hlink, rfl⟩ | ⟨source, node, hread, hmem, hne, rfl⟩)
    · exact ⟨source, (mem_flatMap_links r hcap).mpr (.inl hlink), rfl⟩
    · exact ⟨source, (mem_flatMap_links r hcap).mpr (.inr ⟨node, hread, hmem, hne⟩), rfl⟩
  · rintro ⟨source, hlink, rfl⟩
    rcases (mem_flatMap_links r hcap).mp hlink with hlink | ⟨node, hread, hmem, hne⟩
    · exact .inl ⟨source, hlink, rfl⟩
    · exact .inr ⟨source, node, hread, hmem, hne, rfl⟩

theorem adjacency_filter (row : Row) :
    get row (r.adjacency ranges rows edges).precedents =
        (if kept rows row then get row (r.adjacency ranges none edges).precedents else none) ∧
      get row (r.adjacency ranges rows edges).dependents =
        (if kept rows row then get row (r.adjacency ranges none edges).dependents else none) := by
  have hall (es : List (Row × String)) : es.filter (fun e => kept none e.1) = es :=
    List.filter_eq_self.mpr fun _ _ => rfl
  simp only [get_precedents, get_dependents, precedentEntries, dependentEntries, hall]
  exact ⟨get_collected_restrict _ _ _, get_collected_restrict _ _ _⟩

theorem adjacency_converse (row row' : Row) :
    rowKeyRef row' ∈ (get row (r.adjacency ranges none edges).precedents).getD [] ↔
      rowKeyRef row ∈ (get row' (r.adjacency ranges none edges).dependents).getD [] := by
  rw [mem_precedents, mem_dependents]
  constructor
  · rintro ⟨-, target, hlink, href⟩
    obtain rfl := rowKeyRef_inj href
    exact ⟨rfl, row, hlink, rfl⟩
  · rintro ⟨-, source, hlink, href⟩
    obtain rfl := rowKeyRef_inj href
    exact ⟨rfl, row', hlink, rfl⟩

/-- Range nodes lose no neighbour of a row, a filter is a restriction, and the two relations
are converses of each other. -/
theorem row_neighbours_of_nodes (hcap : r.Uncut edges) :
    (∀ row, kept rows row = true → ∀ ref,
      (ref ∈ r.rebuiltPrecedents (r.adjacency (some .empty) rows edges) row ↔
        ref ∈ (get row (r.adjacency none rows edges).precedents).getD []) ∧
      (ref ∈ r.rebuiltDependents (r.adjacency (some .empty) rows edges) row ↔
        ref ∈ (get row (r.adjacency none rows edges).dependents).getD [])) ∧
    (∀ ranges row,
      get row (r.adjacency ranges rows edges).precedents =
        (if kept rows row then get row (r.adjacency ranges none edges).precedents else none) ∧
      get row (r.adjacency ranges rows edges).dependents =
        (if kept rows row then get row (r.adjacency ranges none edges).dependents else none) ∧
      (r.adjacency ranges rows edges).reads = (r.adjacency ranges none edges).reads) ∧
    ∀ ranges row row',
      rowKeyRef row' ∈ (get row (r.adjacency ranges none edges).precedents).getD [] ↔
        rowKeyRef row ∈ (get row' (r.adjacency ranges none edges).dependents).getD [] := by
  refine ⟨fun row hrow ref => ?_, fun ranges row => ?_, fun ranges => adjacency_converse r⟩
  · exact ⟨rebuiltPrecedents_iff r hcap hrow, rebuiltDependents_iff r hcap hrow⟩
  · have hprecedents : get row (r.adjacency ranges rows edges).precedents = _ :=
      (adjacency_filter r row).1
    have hdependents : get row (r.adjacency ranges rows edges).dependents = _ :=
      (adjacency_filter r row).2
    exact ⟨hprecedents, hdependents, by rw [reads_adjacency, reads_adjacency]⟩

end Reader

def sampleReader (rangeCap : ℕ) : RowReader where
  casefold text := text
  decimal := asciiTable.decimal
  rangeCap := rangeCap
  nodeMinCells := 1
  usage := some ⟨[("S", [(1, [(1, 3)])])], [("S", "S")]⟩
  chars := asciiTable
  decimal_chars := rfl

/-- `S!B1` reads three rows, its own among them. -/
def sampleReads : List Csr.Edge := [{ kind := "range", source := "S!B1", target := some "S!A1:A3" }]

theorem row_neighbours_sample :
    "S!3" ∈ (sampleReader 9).rebuiltPrecedents
        ((sampleReader 9).adjacency (some .empty) none sampleReads) ("S", 1) ∧
      "S!3" ∈ (get ("S", 1) ((sampleReader 9).adjacency none none sampleReads).precedents).getD [] := by
  have hfull : "S!3" ∈
      (get ("S", 1) ((sampleReader 9).adjacency none none sampleReads).precedents).getD [] := by
    decide +kernel
  have hcap : (sampleReader 9).Uncut sampleReads := by
    unfold RowReader.Uncut
    decide +kernel
  have hnodes : ∀ row, kept none row = true → _ :=
    (row_neighbours_of_nodes (sampleReader 9) hcap).1
  exact ⟨(hnodes ("S", 1) rfl "S!3").1.mpr hfull, hfull⟩

/-- An expansion that stops at its first cell misses the rows the node has. -/
theorem cut_expansion_loses_rows :
    "S!3" ∈ (sampleReader 1).rebuiltPrecedents
        ((sampleReader 1).adjacency (some .empty) none sampleReads) ("S", 1) ∧
      "S!3" ∉ (get ("S", 1) ((sampleReader 1).adjacency none none sampleReads).precedents).getD [] := by
  constructor <;> decide +kernel

end FinanceContext.RowAdjacency
