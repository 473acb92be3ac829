import FinanceContext.CycleRecords
import FinanceContext.RangeExpansion

/-!
Range nodes join the formula cells of a workbook exactly as one edge for each formula cell
inside a range does, so the cycles are the same.
-/

namespace FinanceContext

open Csr Dictionaries HopReachability RangeHops Relation

theorem place_of_cellId {table : CharTable} {cell sheet : String} {col row : ℕ}
    (h : CellId table cell sheet col row) : place table cell = some ((sheet, col), row) := by
  simp [place, h.noColon, h.parsed]

theorem cell_of_place {table : CharTable} {cell sheet : String} {col row : ℕ}
    (hcell : IsCellName table cell) (hplace : place table cell = some ((sheet, col), row)) :
    1 ≤ col ∧ cell = nodeId sheet (formatAddr col row) ∧
      CellId table cell sheet col row := by
  obtain ⟨sheet', col', row', hsheet, hcol, hname⟩ := hcell
  have hid : CellId table cell sheet' col' row' := hname ▸ cellId_nodeId table hsheet row' hcol
  rw [place_of_cellId hid] at hplace
  simp only [Option.some.injEq, Prod.mk.injEq] at hplace
  obtain ⟨⟨rfl, rfl⟩, rfl⟩ := hplace
  exact ⟨hcol, hname, hid⟩

section Members

variable {table : CharTable} {formulaCells : List String}
  (hcells : ∀ cell ∈ formulaCells, IsCellName table cell)

include hcells

theorem one_le_of_mem_cols {node : RangeNode} {col : ℕ}
    (hcol : col ∈ (create table formulaCells).cols node) : 1 ≤ col := by
  obtain ⟨⟨row, hrow⟩, -⟩ := (mem_cols (indexed_create table formulaCells)).mp hcol
  obtain ⟨cell, hcell, hplace⟩ := (mem_rowsAt_create table formulaCells).mp hrow
  exact (cell_of_place (hcells cell hcell) hplace).1

theorem mem_members_create {node : RangeNode} {cell : String} :
    cell ∈ (create table formulaCells).members node ↔
      cell ∈ formulaMembers table formulaCells node := by
  rw [mem_members (indexed_create table formulaCells), formulaMembers, List.mem_filter]
  constructor
  · rintro ⟨col, i, hcol, ⟨row, hrow, hlo, hhi⟩, rfl⟩
    obtain ⟨-, hc1, hc2⟩ := (mem_cols (indexed_create table formulaCells)).mp hcol
    obtain ⟨cell, hcell, hplace⟩ :=
      (mem_rowsAt_create table formulaCells).mp (List.mem_of_getElem? hrow)
    obtain ⟨-, hname, hid⟩ := cell_of_place (hcells cell hcell) hplace
    have hat : (create table formulaCells).cellAt node.sheet col i = cell := by
      rw [hname, cellAt, hrow, Option.getD_some]
    rw [hat]
    refine ⟨hcell, ?_⟩
    simp [inRange, hid.parsed, hc1, hc2, hlo, hhi]
  · rintro ⟨hcell, hin⟩
    obtain ⟨sheet, col, row, hsheet, hcol, hname⟩ := hcells cell hcell
    have hid : CellId table cell sheet col row := hname ▸ cellId_nodeId table hsheet row hcol
    simp only [inRange, hid.parsed, decide_eq_true_eq] at hin
    obtain ⟨rfl, hc1, hc2, hr1, hr2⟩ := hin
    have hrow : row ∈ (create table formulaCells).rowsAt node.sheet col :=
      (mem_rowsAt_create table formulaCells).mpr ⟨cell, hcell, place_of_cellId hid⟩
    obtain ⟨i, hi⟩ := List.mem_iff_getElem?.mp hrow
    refine ⟨col, i, (mem_cols (indexed_create table formulaCells)).mpr ⟨⟨row, hrow⟩, hc1, hc2⟩,
      ⟨row, hi, hr1, hr2⟩, ?_⟩
    rw [hname, cellAt, hi, Option.getD_some]

end Members

/-- The cells a hop stands for: those of a range node or of a segment. -/
def below (table : CharTable) (hops : RangeHops) (hop cell : String) : Prop :=
  (∃ node, parseRangeNode table hop = some node ∧ cell ∈ hops.members node) ∨
    ∃ sheet col lo hi i, hop = segmentName sheet col lo hi ∧ lo ≤ i ∧ i ≤ hi ∧
      cell = hops.cellAt sheet col i

section Names

variable {table : CharTable} {hops : RangeHops}

theorem forall_below_name {P : String → Prop} {sheet : String} (hsheet : SheetName table sheet)
    {col lo hi : ℕ} (hcol : 1 ≤ col) (hle : lo ≤ hi)
    (hP : ∀ i, lo ≤ i → i ≤ hi → P (hops.cellAt sheet col i)) :
    (isCellId table (hops.name sheet col lo hi) = true → P (hops.name sheet col lo hi)) ∧
      (¬isCellId table (hops.name sheet col lo hi) = true →
        ∀ c, below table hops (hops.name sheet col lo hi) c → P c) := by
  rcases Nat.eq_or_lt_of_le hle with rfl | hlt
  · rw [name_self]
    refine ⟨fun _ => hP lo hle hle, fun hnot => ?_⟩
    exact absurd (cellId_nodeId table hsheet _ hcol).isCellId hnot
  · rw [name_of_lt hlt]
    refine ⟨fun hcell => ?_, fun _ c hc => ?_⟩
    · rw [isCellId_segmentName] at hcell
      cases hcell
    · rcases hc with ⟨node, hnode, -⟩ | ⟨sheet', col', lo', hi', i, hname, hlo, hhi, rfl⟩
      · rw [parseRangeNode_segmentName] at hnode
        cases hnode
      · obtain ⟨rfl, rfl, rfl, rfl⟩ := segmentName_inj hname
        exact hP i hlo hhi

theorem isCellId_name_of_lt {sheet : String} {col lo hi : ℕ} (h : lo < hi) :
    isCellId table (hops.name sheet col lo hi) = false := by
  rw [name_of_lt h, isCellId_segmentName]

theorem hopEdge_spec (hindexed : hops.Indexed) {nodes : List RangeNode}
    (hnodes : ∀ node ∈ nodes, parseRangeNode table node.nodeId = some node ∧
      SheetName table node.sheet ∧ ∀ col ∈ hops.cols node, 1 ≤ col)
    {h b : String} (he : HopEdge hops nodes (h, b)) :
    isCellId table h = false ∧ (isCellId table b = true → below table hops h b) ∧
      (¬isCellId table b = true → ∀ c, below table hops b c → below table hops h c) := by
  generalize hedge : (h, b) = edge at he
  cases he with
  | fromNode node col lo hi hnode hs =>
    obtain ⟨rfl, rfl⟩ := Prod.mk.inj hedge
    obtain ⟨hparse, hsheet, hcols⟩ := hnodes node hnode
    obtain ⟨hcol, hle, hin⟩ := mem_segments hindexed hs
    refine ⟨isCellId_of_parseRangeNode hparse, ?_⟩
    apply forall_below_name hsheet (hcols col hcol) hle
    intro i hlo hhi
    left
    exact ⟨node, hparse, (mem_members hindexed).mpr ⟨col, i, hcol, hin i hlo hhi, rfl⟩⟩
  | fromSegment node col lo hi lo' hi' hnode hcol hlt hlo hle hhi =>
    obtain ⟨rfl, rfl⟩ := Prod.mk.inj hedge
    obtain ⟨-, hsheet, hcols⟩ := hnodes node hnode
    refine ⟨isCellId_name_of_lt hlt, ?_⟩
    apply forall_below_name hsheet (hcols col hcol) hle
    intro i hi₁ hi₂
    right
    exact ⟨node.sheet, col, lo, hi, i, name_of_lt hlt, by omega, by omega, rfl⟩

end Names

theorem mem_of_mem_nodesOf {users : List (String × RangeNode)} {node : RangeNode}
    (h : node ∈ nodesOf users) : ∃ source, (source, node) ∈ users := by
  obtain ⟨p, hp, rfl⟩ := List.mem_map.mp h
  obtain ⟨user, huser, rfl⟩ := List.mem_map.mp (mem_of_mem_filled hp)
  exact ⟨user.1, huser⟩

theorem mem_nodesOf {table : CharTable} {users : List (String × RangeNode)}
    (husers : ∀ user ∈ users, parseRangeNode table user.2.nodeId = some user.2)
    {source : String} {node : RangeNode} (h : (source, node) ∈ users) :
    node ∈ nodesOf users := by
  have hget : get node.nodeId (filled (users.map fun e => (e.2.nodeId, e.2))) = some node := by
    apply get_filled_of_forall
    intro other
    constructor
    · intro hother
      obtain ⟨user, huser, heq⟩ := List.mem_map.mp hother
      obtain ⟨hid, rfl⟩ := Prod.mk.inj heq
      have hparse := husers user huser
      rw [hid] at hparse
      exact (husers _ h).symm.trans hparse
    · intro hother
      obtain rfl := Option.some.inj hother
      exact List.mem_map.mpr ⟨(source, node), h, rfl⟩
  exact List.mem_map.mpr ⟨_, mem_of_get hget, rfl⟩

namespace FormulaGraph

variable {text : GraphText} (graph : FormulaGraph text)

def hops : RangeHops := create text.toCharTable graph.formulaCells

def users : List (String × RangeNode) := rangeUsers text graph.edges

/-- The edges between cells: those to a cell, and one for each formula cell inside a range. -/
def Edge (x y : String) : Prop :=
  ∃ edge ∈ graph.edges, Usable edge ∧ edge.source = x ∧
    (parseRangeNode text.toCharTable edge.target = none ∧ edge.target = y ∨
      ∃ node, parseRangeNode text.toCharTable edge.target = some node ∧
        y ∈ formulaMembers text.toCharTable graph.formulaCells node)

def pairs : List (String × String) :=
  (graph.edges.filter Usable).map (fun e => (e.source, e.target)) ++
    (graph.hops.structural (nodesOf graph.users)).1

theorem isCellId_of_mem {cell : String} (h : cell ∈ graph.formulaCells) :
    isCellId text.toCharTable cell = true := (graph.cell cell h).isCellId

theorem mem_members {node : RangeNode} {cell : String} :
    cell ∈ graph.hops.members node ↔
      cell ∈ formulaMembers text.toCharTable graph.formulaCells node :=
  mem_members_create graph.cell

theorem parse_of_mem_users {user : String × RangeNode} (h : user ∈ graph.users) :
    parseRangeNode text.toCharTable user.2.nodeId = some user.2 ∧
      SheetName text.toCharTable user.2.sheet := by
  obtain ⟨edge, hedge, -, -, hnode⟩ := (mem_rangeUsers text).mp h
  rw [nodeId_of_parseRangeNode hnode]
  exact ⟨hnode, (graph.range edge hedge user.2 hnode).2.1⟩

theorem isCellId_of_edge {x y : String} (h : graph.Edge x y) :
    isCellId text.toCharTable x = true ∧ isCellId text.toCharTable y = true := by
  obtain ⟨edge, hedge, husable, rfl, htarget⟩ := h
  refine ⟨graph.isCellId_of_mem (graph.source edge hedge), ?_⟩
  rcases htarget with ⟨hnone, rfl⟩ | ⟨node, -, hy⟩
  · exact (graph.target edge hedge husable hnone).isCellId
  · exact graph.isCellId_of_mem (List.mem_filter.mp hy).1

theorem mem_pairs_of_edge {edge : CellEdge} (hedge : edge ∈ graph.edges) (h : Usable edge) :
    (edge.source, edge.target) ∈ graph.pairs :=
  List.mem_append_left _
    (List.mem_map.mpr ⟨edge, List.mem_filter.mpr ⟨hedge, decide_eq_true h⟩, rfl⟩)

theorem reaches_of_mem_members {source : String} {node : RangeNode}
    (huser : (source, node) ∈ graph.users) {cell : String}
    (hcell : cell ∈ formulaMembers text.toCharTable graph.formulaCells node) :
    ReflTransGen (fun x y => (x, y) ∈ graph.pairs) node.nodeId cell := by
  have hnode : node ∈ nodesOf graph.users :=
    mem_nodesOf (fun user h => (graph.parse_of_mem_users h).1) huser
  have hle : (fun x y => (x, y) ∈ (graph.hops.structural (nodesOf graph.users)).1) ≤
      fun x y => (x, y) ∈ graph.pairs := fun _ _ h => List.mem_append_right _ h
  exact ReflTransGen.mono hle _ _
    (reaches_member (indexed_create _ _) hnode (graph.mem_members.mpr hcell))

theorem mem_pairs_cases {x y : String} (h : (x, y) ∈ graph.pairs) :
    (∃ edge ∈ graph.edges, Usable edge ∧ edge.source = x ∧ edge.target = y) ∨
      isCellId text.toCharTable x = false ∧
        (isCellId text.toCharTable y = true → below text.toCharTable graph.hops x y) ∧
        (¬isCellId text.toCharTable y = true → ∀ c, below text.toCharTable graph.hops y c →
          below text.toCharTable graph.hops x c) := by
  rcases List.mem_append.mp h with h | h
  · obtain ⟨edge, hedge, heq⟩ := List.mem_map.mp h
    obtain ⟨hmem, husable⟩ := List.mem_filter.mp hedge
    obtain ⟨hx, hy⟩ := Prod.mk.inj heq
    exact .inl ⟨edge, hmem, of_decide_eq_true husable, hx, hy⟩
  · right
    apply hopEdge_spec (indexed_create _ _) ?_ (hopEdge_of_mem_structural (indexed_create _ _) _ _ h)
    intro node hnode
    obtain ⟨source, huser⟩ := mem_of_mem_nodesOf hnode
    obtain ⟨hparse, hsheet⟩ := graph.parse_of_mem_users huser
    exact ⟨hparse, hsheet, fun col hcol => one_le_of_mem_cols graph.cell hcol⟩

theorem contracts : Contracts (fun x y => (x, y) ∈ graph.pairs) graph.Edge
    (fun name => isCellId text.toCharTable name = true) (below text.toCharTable graph.hops) where
  fromCell := by
    intro a b ha hab
    rcases graph.mem_pairs_cases hab with ⟨edge, hedge, husable, rfl, rfl⟩ | ⟨hnot, -⟩
    · cases hnode : parseRangeNode text.toCharTable edge.target with
      | none =>
        refine ⟨fun _ => ⟨edge, hedge, husable, rfl, .inl ⟨hnode, rfl⟩⟩, fun hnot => ?_⟩
        exact absurd (graph.target edge hedge husable hnode).isCellId hnot
      | some node =>
        refine ⟨fun hcell => ?_, fun _ c hc => ?_⟩
        · rw [isCellId_of_parseRangeNode hnode] at hcell
          cases hcell
        · rcases hc with ⟨node', hnode', hc⟩ | ⟨sheet, col, lo, hi, i, hname, -⟩
          · obtain rfl : node = node' := Option.some.inj (hnode.symm.trans hnode')
            exact ⟨edge, hedge, husable, rfl, .inr ⟨node, hnode, graph.mem_members.mp hc⟩⟩
          · rw [hname, parseRangeNode_segmentName] at hnode
            cases hnode
    · rw [hnot] at ha
      cases ha
  fromHop := by
    intro h b hhop hhb
    rcases graph.mem_pairs_cases hhb with ⟨edge, hedge, -, rfl, -⟩ | ⟨-, hbelow⟩
    · exact absurd (graph.isCellId_of_mem (graph.source edge hedge)) hhop
    · exact hbelow
  edge := by
    intro a c ha hac
    refine ⟨(graph.isCellId_of_edge hac).2, ?_⟩
    obtain ⟨edge, hedge, husable, rfl, htarget⟩ := hac
    have hpair := graph.mem_pairs_of_edge hedge husable
    rcases htarget with ⟨-, rfl⟩ | ⟨node, hnode, hc⟩
    · exact .single hpair
    · have huser : (edge.source, node) ∈ graph.users :=
        (mem_rangeUsers text).mpr ⟨edge, hedge, rfl, husable.1, hnode⟩
      rw [← nodeId_of_parseRangeNode hnode] at hpair
      exact .head' hpair (graph.reaches_of_mem_members huser hc)

section Records

variable {components : Components} (periods : PeriodByCell)

theorem mem_hopFlags {labels : Labels} {flag : ℕ × Bool × Bool}
    {chain : String → String → Bool} :
    flag ∈ hopFlags labels graph.users graph.hops chain ↔
      ∃ source node member, (source, node) ∈ graph.users ∧
        member ∈ formulaMembers text.toCharTable graph.formulaCells node ∧
        labels.labelOf source = some flag.1 ∧ labels.labelOf node.nodeId = some flag.1 ∧
        labels.labelOf member = some flag.1 ∧
        flag.2 = (chain source member, decide (member = source)) := by
  unfold hopFlags
  rw [List.mem_flatMap]
  constructor
  · rintro ⟨⟨source, node⟩, huser, h⟩
    dsimp only at h
    cases hlabel : labels.labelOf source with
    | none => simp [hlabel] at h
    | some label =>
      simp only [hlabel] at h
      split_ifs at h with hnode
      · cases h
      · obtain ⟨member, hmember, h⟩ := List.mem_filterMap.mp h
        split_ifs at h with hin
        obtain rfl := Option.some.inj h
        exact ⟨source, node, member, huser, graph.mem_members.mp hmember, hlabel,
          not_not.mp hnode, not_not.mp hin, rfl⟩
  · rintro ⟨source, node, member, huser, hmember, hsource, hnode, hin, hbits⟩
    refine ⟨(source, node), huser, ?_⟩
    simp only [hsource, hnode, ne_eq, not_true_eq_false, if_false]
    refine List.mem_filterMap.mpr ⟨member, graph.mem_members.mpr hmember, ?_⟩
    simp only [hin, not_true_eq_false, if_false, ← hbits]

theorem labelOf_eq_some {labels : Labels} {name : String} {label : ℕ} :
    labels.labelOf name = some label ↔ name ∈ labels.nodes ∧ labels.label name = label := by
  unfold Labels.labelOf
  split_ifs with hname
  · simp [hname]
  · simp [hname]

theorem represents (hcomponents : FindsComponents components) :
    Represents text graph.Edge (memberChain text periods) graph.pairs
      (labelsOf components graph.pairs).label
      ((graph.edges.filter Usable).map (enrichEdge text periods graph.usage))
      (hopFlags (labelsOf components graph.pairs) graph.users graph.hops
        (memberChain text periods)) where
  contracts := ⟨_, graph.contracts⟩
  isCell x y hxy := (graph.isCellId_of_edge hxy).1
  edge := by
    intro enriched hmem hrange
    obtain ⟨edge, hedge, rfl⟩ := List.mem_map.mp hmem
    obtain ⟨hedge, husable⟩ := List.mem_filter.mp hedge
    rw [enrichEdge_target] at hrange ⊢
    have hnone : parseRangeNode text.toCharTable edge.target = none :=
      parseRangeNode_of_not hrange
    rw [enrichEdge_source, isPeriodChain_enrichEdge text periods graph.usage hnone]
    exact ⟨⟨edge, hedge, of_decide_eq_true husable, rfl, .inl ⟨hnone, rfl⟩⟩, rfl⟩
  flag := by
    intro flag hflag
    obtain ⟨source, node, member, huser, hmember, hsource, -, hin, hbits⟩ :=
      graph.mem_hopFlags.mp hflag
    obtain ⟨edge, hedge, rfl, -, hnode⟩ := (mem_rangeUsers text).mp huser
    refine ⟨edge.source, member, ?_, (labelOf_eq_some.mp hsource).2, (labelOf_eq_some.mp hin).2,
      hbits⟩
    exact ⟨edge, hedge, (graph.range edge hedge node hnode).1, rfl, .inr ⟨node, hnode, hmember⟩⟩
  vote := by
    intro x y hxy hlabel
    obtain ⟨edge, hedge, husable, rfl, htarget⟩ := hxy
    rcases htarget with ⟨hnone, rfl⟩ | ⟨node, hnode, hy⟩
    · left
      refine ⟨enrichEdge text periods graph.usage edge, ?_, ?_, by simp, by simp⟩
      · exact List.mem_map.mpr ⟨edge, List.mem_filter.mpr ⟨hedge, decide_eq_true husable⟩, rfl⟩
      · rw [enrichEdge_target]
        exact (graph.target edge hedge husable hnone).isRangeNode
    · right
      have huser : (edge.source, node) ∈ graph.users :=
        (mem_rangeUsers text).mpr ⟨edge, hedge, rfl, husable.1, hnode⟩
      have hpair := graph.mem_pairs_of_edge hedge husable
      rw [← nodeId_of_parseRangeNode hnode] at hpair
      have hreach := graph.reaches_of_mem_members huser hy
      have hsource : edge.source ∈ (labelsOf components graph.pairs).nodes :=
        mem_nodes_labelsOf.mpr ⟨_, hpair, .inl rfl⟩
      have hid : node.nodeId ∈ (labelsOf components graph.pairs).nodes :=
        mem_nodes_labelsOf.mpr ⟨_, hpair, .inr rfl⟩
      have hmember : y ∈ (labelsOf components graph.pairs).nodes := by
        obtain ⟨z, -, hzy⟩ := TransGen.tail'_iff.mp (TransGen.head' hpair hreach)
        exact mem_nodes_labelsOf.mpr ⟨_, hzy, .inr rfl⟩
      -- The node lies on the way from the formula to the member and back.
      have hback := ((FinanceContext.label_eq_iff hcomponents graph.pairs hsource hmember).mp
        hlabel).2
      have hnodeLabel : (labelsOf components graph.pairs).label node.nodeId =
          (labelsOf components graph.pairs).label edge.source :=
        (FinanceContext.label_eq_iff hcomponents graph.pairs hid hsource).mpr
          ⟨hreach.trans hback, .single hpair⟩
      exact graph.mem_hopFlags.mpr ⟨edge.source, node, y, huser, hy,
        labelOf_eq_some.mpr ⟨hsource, rfl⟩, labelOf_eq_some.mpr ⟨hid, hnodeLabel⟩,
        labelOf_eq_some.mpr ⟨hmember, hlabel.symm⟩, rfl⟩

variable (components)

theorem records_graphCycles :
    (graphCycles components text periods graph.usage graph.formulaCells graph.edges).map
        (fun r => (r.members, r.cycleClass)) =
      (labelsOf components graph.pairs).order.filterMap
        (cycleRecord text (labelsOf components graph.pairs)
          ((graph.edges.filter Usable).map (enrichEdge text periods graph.usage))
          (hopFlags (labelsOf components graph.pairs) graph.users graph.hops
            (memberChain text periods))) := by
  have husers : rangeUsers text (graph.edges.map (enrichEdge text periods graph.usage)) =
      graph.users := rangeUsers_enriched text periods graph.usage graph.edges
  have hpairs : ((graph.edges.filter Usable).map (enrichEdge text periods graph.usage)).map
      (fun e => (e.source, e.target)) =
        (graph.edges.filter Usable).map fun e => (e.source, e.target) := by
    simp [Function.comp_def]
  unfold graphCycles classifyCycles
  dsimp only
  rw [filter_usable_enriched, husers, hpairs, records_numberCycles]
  by_cases hnone : graph.users = []
  · simp [hnone, pairs, nodesOf, filled, structural, hopFlags]
  · rw [if_neg hnone]
    rfl

end Records

def expanded : List CellEdge :=
  expandRanges text.toCharTable (formulaMembers text.toCharTable graph.formulaCells) graph.edges

def expandedPairs : List (String × String) :=
  (graph.expanded.filter Usable).map fun e => (e.source, e.target)

theorem parse_of_mem_expanded {edge : CellEdge} (h : edge ∈ graph.expanded) :
    parseRangeNode text.toCharTable edge.target = none := by
  rcases (mem_expandRanges text.toCharTable).mp h with ⟨-, hnone⟩ | ⟨_, -, _, -, cell, hcell, rfl⟩
  · exact hnone
  · exact parseRangeNode_of_not (graph.cell cell (List.mem_filter.mp hcell).1).isRangeNode

theorem cellName_ne_empty {table : CharTable} {name : String} (h : IsCellName table name) :
    name ≠ "" := by
  rintro rfl
  have hcell := h.isCellId
  simp [isCellId, parseNodeId, rsplitBang] at hcell

theorem edge_iff {x y : String} :
    graph.Edge x y ↔ ∃ edge ∈ graph.expanded, Usable edge ∧ edge.source = x ∧ edge.target = y := by
  constructor
  · rintro ⟨edge, hedge, husable, rfl, ⟨hnone, rfl⟩ | ⟨node, hnode, hy⟩⟩
    · exact ⟨edge, (mem_expandRanges _).mpr (.inl ⟨hedge, hnone⟩), husable, rfl, rfl⟩
    · refine ⟨{ edge with target := y },
        (mem_expandRanges _).mpr (.inr ⟨edge, hedge, node, hnode, y, hy, rfl⟩), ?_, rfl, rfl⟩
      have hne := cellName_ne_empty (graph.cell y (List.mem_filter.mp hy).1)
      exact ⟨husable.1, hne, husable.2.2⟩
  · rintro ⟨e, he, husable, rfl, rfl⟩
    rcases (mem_expandRanges _).mp he with ⟨hedge, hnone⟩ | ⟨edge, hedge, node, hnode, y, hy, rfl⟩
    · exact ⟨e, hedge, husable, rfl, .inl ⟨hnone, rfl⟩⟩
    · exact ⟨edge, hedge, (graph.range edge hedge node hnode).1, rfl, .inr ⟨node, hnode, hy⟩⟩

theorem mem_expandedPairs {x y : String} :
    (x, y) ∈ graph.expandedPairs ↔ graph.Edge x y := by
  rw [edge_iff, expandedPairs, List.mem_map]
  constructor
  · rintro ⟨edge, hedge, heq⟩
    obtain ⟨hmem, husable⟩ := List.mem_filter.mp hedge
    obtain ⟨rfl, rfl⟩ := Prod.mk.inj heq
    exact ⟨edge, hmem, of_decide_eq_true husable, rfl, rfl⟩
  · rintro ⟨edge, hmem, husable, rfl, rfl⟩
    exact ⟨edge, List.mem_filter.mpr ⟨hmem, decide_eq_true husable⟩, rfl⟩

theorem contracts_expanded : Contracts (fun x y => (x, y) ∈ graph.expandedPairs) graph.Edge
    (fun name => isCellId text.toCharTable name = true) (fun _ _ => False) where
  fromCell _ _ _ hab := ⟨fun _ => graph.mem_expandedPairs.mp hab, fun _ _ hc => hc.elim⟩
  fromHop _ _ hhop hhb :=
    absurd (graph.isCellId_of_edge (graph.mem_expandedPairs.mp hhb)).1 hhop
  edge _ _ _ hac :=
    ⟨(graph.isCellId_of_edge hac).2, .single (graph.mem_expandedPairs.mpr hac)⟩

theorem represents_expanded (components : Components) (periods : PeriodByCell) :
    Represents text graph.Edge (memberChain text periods) graph.expandedPairs
      (labelsOf components graph.expandedPairs).label
      ((graph.expanded.filter Usable).map (enrichEdge text periods graph.usage)) [] where
  contracts := ⟨_, graph.contracts_expanded⟩
  isCell x y hxy := (graph.isCellId_of_edge hxy).1
  edge := by
    intro enriched hmem hrange
    obtain ⟨edge, hedge, rfl⟩ := List.mem_map.mp hmem
    obtain ⟨hedge, husable⟩ := List.mem_filter.mp hedge
    rw [enrichEdge_target, enrichEdge_source,
      isPeriodChain_enrichEdge text periods graph.usage (graph.parse_of_mem_expanded hedge)]
    exact ⟨graph.edge_iff.mpr ⟨edge, hedge, of_decide_eq_true husable, rfl, rfl⟩, rfl⟩
  flag := by
    intro flag hflag
    cases hflag
  vote := by
    intro x y hxy _
    left
    have htarget := (graph.isCellId_of_edge hxy).2
    obtain ⟨edge, hedge, husable, rfl, rfl⟩ := graph.edge_iff.mp hxy
    refine ⟨enrichEdge text periods graph.usage edge, ?_, ?_, by simp, by simp⟩
    · exact List.mem_map.mpr ⟨edge, List.mem_filter.mpr ⟨hedge, decide_eq_true husable⟩, rfl⟩
    · rw [enrichEdge_target]
      apply isRangeNode_of_noColon
      simpa using (Bool.and_eq_true_iff.mp htarget).2

theorem records_expanded (components : Components) (periods : PeriodByCell) :
    (graphCycles components text periods graph.usage graph.formulaCells graph.expanded).map
        (fun r => (r.members, r.cycleClass)) =
      (labelsOf components graph.expandedPairs).order.filterMap
        (cycleRecord text (labelsOf components graph.expandedPairs)
          ((graph.expanded.filter Usable).map (enrichEdge text periods graph.usage)) []) := by
  have husers : rangeUsers text (graph.expanded.map (enrichEdge text periods graph.usage)) =
      [] := by
    rw [rangeUsers_enriched, rangeUsers, List.filterMap_eq_nil_iff]
    intro edge hedge
    simp [viewNode, graph.parse_of_mem_expanded hedge]
  have hpairs : ((graph.expanded.filter Usable).map (enrichEdge text periods graph.usage)).map
      (fun e => (e.source, e.target)) = graph.expandedPairs := by
    simp [Function.comp_def, expandedPairs]
  unfold graphCycles classifyCycles
  dsimp only
  rw [filter_usable_enriched, husers, hpairs, records_numberCycles]
  simp

theorem cycles_perm {components : Components} (hcomponents : FindsComponents components)
    (periods : PeriodByCell) :
    ((graphCycles components text periods graph.usage graph.formulaCells graph.edges).map
        fun r => (r.members, r.cycleClass)).Perm
      ((graphCycles components text periods graph.usage graph.formulaCells graph.expanded).map
        fun r => (r.members, r.cycleClass)) := by
  rw [records_graphCycles, records_expanded]
  apply (List.perm_ext_iff_of_nodup (nodup_records _ _ _ _) (nodup_records _ _ _ _)).mpr
  intro record
  rw [(graph.represents periods hcomponents).mem_records_iff hcomponents,
    (graph.represents_expanded components periods).mem_records_iff hcomponents]

end FormulaGraph

end FinanceContext
