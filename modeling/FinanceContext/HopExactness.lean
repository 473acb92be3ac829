import FinanceContext.NodeCodecs

namespace FinanceContext

open Csr Relation

structure FormulaCell where
  sheet : String
  col : ℕ
  row : ℕ
  one_le_col : 1 ≤ col

namespace FormulaCell

def id (cell : FormulaCell) : String := nodeId cell.sheet (formatAddr cell.col cell.row)

def Inside (cell : FormulaCell) (node : RangeNode) : Prop :=
  cell.sheet = node.sheet ∧ node.c1 ≤ cell.col ∧ cell.col ≤ node.c2 ∧ node.r1 ≤ cell.row ∧
    cell.row ≤ node.r2

theorem id_eq_iff {cell : FormulaCell} {sheet : String} {col row : ℕ} (hcol : 1 ≤ col) :
    cell.id = nodeId sheet (formatAddr col row) ↔
      cell.sheet = sheet ∧ cell.col = col ∧ cell.row = row := by
  constructor
  · intro h
    obtain ⟨hsheet, haddr⟩ :=
      nodeId_inj (bang_notMem_formatAddr _ _) (bang_notMem_formatAddr _ _) h
    exact ⟨hsheet, formatAddr_inj cell.one_le_col hcol haddr⟩
  · rintro ⟨rfl, rfl, rfl⟩
    rfl

theorem id_inj {cell cell' : FormulaCell} (h : cell.id = cell'.id) : cell = cell' := by
  obtain ⟨hsheet, hcol, hrow⟩ := (id_eq_iff cell'.one_le_col).mp h
  obtain ⟨sheet, col, row, hone⟩ := cell
  obtain ⟨sheet', col', row', hone'⟩ := cell'
  dsimp only at hsheet hcol hrow
  subst hsheet hcol hrow
  rfl

end FormulaCell

theorem segmentName_ne_nodeId (name sheet : String) (col lo hi c r : ℕ) :
    segmentName name col lo hi ≠ nodeId sheet (formatAddr c r) := by
  intro h
  have hsplit := rsplitBang_nodeId sheet c r
  rw [← h] at hsplit
  have hbar := bar_mem_of_rsplitBang_segmentName hsplit
  exact mem_formatAddr_ne hbar (by decide) (by decide)

namespace RangeHops

section Once

variable (hops : RangeHops)

def halves (sheet : String) (col lo hi : ℕ) : List (String × String) :=
  [(segmentName sheet col lo hi, hops.name sheet col lo ((lo + hi) / 2)),
    (segmentName sheet col lo hi, hops.name sheet col ((lo + hi) / 2 + 1) hi)]

def edgesOf (name : String) (edges : List (String × String)) : List (String × String) :=
  edges.filter fun e => e.1 = name

/-- The edges out of a segment are those below it, once it is made. -/
def LaidOnce (state : List (String × String) × List Segment) : Prop :=
  ∀ sheet col lo hi, lo < hi → edgesOf (segmentName sheet col lo hi) state.1 =
    if (sheet, col, lo, hi) ∈ state.2 then hops.halves sheet col lo hi else []

theorem edgesOf_append (name : String) (edges edges' : List (String × String)) :
    edgesOf name (edges ++ edges') = edgesOf name edges ++ edgesOf name edges' :=
  List.filter_append ..

theorem made_subset_tree (sheet : String) (col fuel a b : ℕ) (made : List Segment) :
    made ⊆ (hops.tree sheet col fuel a b made).2 := by
  induction fuel generalizing a b made with
  | zero => exact List.Subset.refl made
  | succ fuel ih =>
    rw [tree]
    split_ifs with hskip
    · exact List.Subset.refl made
    · dsimp only
      have hself := List.subset_cons_self (sheet, col, a, b) made
      have hright := ih ((a + b) / 2 + 1) b ((sheet, col, a, b) :: made)
      have hleft := ih a ((a + b) / 2)
        (hops.tree sheet col fuel ((a + b) / 2 + 1) b ((sheet, col, a, b) :: made)).2
      exact fun s hs => hleft (hright (hself hs))

theorem edgesOf_tree {sheet : String} {col fuel a b : ℕ} {made : List Segment} (hab : a ≤ b)
    (name : String) (c lo hi : ℕ) :
    edgesOf (segmentName name c lo hi) (hops.tree sheet col fuel a b made).1 =
      if (name, c, lo, hi) ∈ (hops.tree sheet col fuel a b made).2 ∧ (name, c, lo, hi) ∉ made
        then hops.halves name c lo hi else [] := by
  induction fuel generalizing a b made with
  | zero => simp [tree, edgesOf]
  | succ fuel ih =>
    rw [tree]
    by_cases hskip : a = b ∨ (sheet, col, a, b) ∈ made
    · simp [hskip, edgesOf]
    · rw [if_neg hskip]
      have hlt : a < b := by omega
      have hright := @ih ((a + b) / 2 + 1) b ((sheet, col, a, b) :: made) (by omega)
      have hkept := made_subset_tree hops sheet col fuel ((a + b) / 2 + 1) b
        ((sheet, col, a, b) :: made)
      dsimp only
      set right := hops.tree sheet col fuel ((a + b) / 2 + 1) b ((sheet, col, a, b) :: made)
      have hleft := @ih a ((a + b) / 2) right.2 (by omega)
      have hkept' := made_subset_tree hops sheet col fuel a ((a + b) / 2) right.2
      set left := hops.tree sheet col fuel a ((a + b) / 2) right.2
      have hown : edgesOf (segmentName name c lo hi) [(hops.name sheet col a b,
          hops.name sheet col a ((a + b) / 2)), (hops.name sheet col a b,
          hops.name sheet col ((a + b) / 2 + 1) b)] =
            if (name, c, lo, hi) = (sheet, col, a, b) then hops.halves name c lo hi else [] := by
        rw [name_of_lt hlt]
        by_cases hsame : (name, c, lo, hi) = (sheet, col, a, b)
        · obtain ⟨rfl, rfl, rfl, rfl⟩ := by simpa only [Prod.mk.injEq] using hsame
          simp [edgesOf, halves]
        · have hne : segmentName sheet col a b ≠ segmentName name c lo hi := by
            intro heq
            obtain ⟨rfl, rfl, rfl, rfl⟩ := segmentName_inj heq
            exact hsame rfl
          simp [edgesOf, hne, hsame]
      have hsplit : (hops.name sheet col a b, hops.name sheet col a ((a + b) / 2)) ::
          (hops.name sheet col a b, hops.name sheet col ((a + b) / 2 + 1) b) ::
            (right.1 ++ left.1) = [(hops.name sheet col a b,
          hops.name sheet col a ((a + b) / 2)), (hops.name sheet col a b,
          hops.name sheet col ((a + b) / 2 + 1) b)] ++ (right.1 ++ left.1) := rfl
      rw [hsplit, edgesOf_append, edgesOf_append, hown, hright, hleft]
      by_cases hsame : (name, c, lo, hi) = (sheet, col, a, b)
      · have hin : (name, c, lo, hi) ∈ right.2 := hkept (hsame ▸ List.mem_cons_self)
        have hnew : (name, c, lo, hi) ∉ made := fun hmem => hskip (.inr (hsame ▸ hmem))
        rw [if_pos hsame, if_neg fun h => h.2 (hsame ▸ List.mem_cons_self),
          if_neg fun h => h.2 hin, if_pos ⟨hkept' hin, hnew⟩, List.append_nil, List.append_nil]
      · rw [if_neg hsame, List.nil_append]
        by_cases hold : (name, c, lo, hi) ∈ made
        · have hin := hkept (List.mem_cons_of_mem _ hold)
          rw [if_neg fun h => h.2 (List.mem_cons_of_mem _ hold), if_neg fun h => h.2 hin,
            if_neg fun h => h.2 hold, List.append_nil]
        · have hnew : (name, c, lo, hi) ∉ (sheet, col, a, b) :: made := by
            rw [List.mem_cons, not_or]
            exact ⟨hsame, hold⟩
          by_cases hin : (name, c, lo, hi) ∈ right.2
          · rw [if_pos ⟨hin, hnew⟩, if_neg fun h => h.2 hin, if_pos ⟨hkept' hin, hold⟩,
              List.append_nil]
          · rw [if_neg fun h => hin h.1, List.nil_append]
            by_cases hlast : (name, c, lo, hi) ∈ left.2
            · rw [if_pos ⟨hlast, hin⟩, if_pos ⟨hlast, hold⟩]
            · rw [if_neg fun h => hlast h.1, if_neg fun h => hlast h.1]

variable {hops}

theorem LaidOnce.segmentEdges {node : RangeNode}
    (hnode : ∀ sheet col lo hi, node.nodeId ≠ segmentName sheet col lo hi)
    {state : List (String × String) × List Segment} (h : hops.LaidOnce state) {col a b : ℕ}
    (hab : a ≤ b) : hops.LaidOnce (hops.segmentEdges node state (col, a, b)) := by
  intro sheet c lo hi hlt
  have hbelow := @edgesOf_tree hops node.sheet col (b + 1) a b state.2 hab sheet c lo hi
  have hkept := made_subset_tree hops node.sheet col (b + 1) a b state.2
  have hpoint : edgesOf (segmentName sheet c lo hi)
      ((node.nodeId, hops.name node.sheet col a b) ::
        (hops.tree node.sheet col (b + 1) a b state.2).1) =
      edgesOf (segmentName sheet c lo hi) (hops.tree node.sheet col (b + 1) a b state.2).1 := by
    simp [edgesOf, hnode sheet c lo hi]
  rw [RangeHops.segmentEdges]
  dsimp only
  rw [edgesOf_append, hpoint, h sheet c lo hi hlt, hbelow]
  by_cases hold : (sheet, c, lo, hi) ∈ state.2
  · rw [if_pos hold, if_neg fun h => h.2 hold, if_pos (hkept hold), List.append_nil]
  · rw [if_neg hold, List.nil_append]
    by_cases hnew : (sheet, c, lo, hi) ∈ (hops.tree node.sheet col (b + 1) a b state.2).2
    · rw [if_pos ⟨hnew, hold⟩, if_pos hnew]
    · rw [if_neg fun h => hnew h.1, if_neg hnew]

theorem laidOnce_structural (h : hops.Indexed) (nodes : List RangeNode)
    (hnodes : ∀ node ∈ nodes, ∀ sheet col lo hi, node.nodeId ≠ segmentName sheet col lo hi) :
    hops.LaidOnce (hops.structural nodes) := by
  have hrun (node : RangeNode) (hnode : ∀ sheet col lo hi,
      node.nodeId ≠ segmentName sheet col lo hi) (segments : List (ℕ × ℕ × ℕ))
      (hsegments : ∀ s ∈ segments, s.2.1 ≤ s.2.2)
      (state : List (String × String) × List Segment) (hstate : hops.LaidOnce state) :
      hops.LaidOnce (segments.foldl (hops.segmentEdges node) state) := by
    induction segments generalizing state with
    | nil => exact hstate
    | cons s segments ih =>
      apply ih fun t ht => hsegments t (List.mem_cons_of_mem _ ht)
      exact hstate.segmentEdges hnode (hsegments s List.mem_cons_self)
  unfold structural
  have hinit : hops.LaidOnce ([], []) := fun _ _ _ _ _ => by simp [edgesOf]
  generalize (([], []) : List (String × String) × List Segment) = state at hinit
  induction nodes generalizing state with
  | nil => exact hinit
  | cons node nodes ih =>
    apply ih fun n hn => hnodes n (List.mem_cons_of_mem _ hn)
    apply hrun node (hnodes node List.mem_cons_self) _ _ state hinit
    intro s hs
    exact (mem_segments h (a := s.2.1) (b := s.2.2) hs).2.1

end Once

section Exactness

variable (table : CharTable) (cells : List FormulaCell) (nodes : List RangeNode)

def ofCells : RangeHops := create table (cells.map FormulaCell.id)

def emitted : List (String × String) := ((ofCells table cells).structural nodes).1

def Reaches (a b : String) : Prop :=
  ReflTransGen (fun x y => (x, y) ∈ emitted table cells nodes) a b

/-- Ids that tell the nodes apart and are neither cells nor segments. -/
structure NamedApart : Prop where
  inj : ∀ m ∈ nodes, ∀ n ∈ nodes, m.nodeId = n.nodeId → m = n
  notCell : ∀ n ∈ nodes, ∀ cell ∈ cells, n.nodeId ≠ cell.id
  notSegment : ∀ n ∈ nodes, ∀ sheet col lo hi, n.nodeId ≠ segmentName sheet col lo hi

theorem namedApart_of_parsed (h : ∀ n ∈ nodes, parseRangeNode table n.nodeId = some n) :
    NamedApart cells nodes where
  inj m hm n hn hid := by
    have hsame := h m hm
    rw [hid, h n hn] at hsame
    exact (Option.some.inj hsame).symm
  notCell n hn cell _ hid := by
    have hrange := h n hn
    rw [hid, parseRangeNode] at hrange
    split_ifs at hrange with hcolon
    rw [isRangeNode, FormulaCell.id, rsplitBang_nodeId] at hcolon
    have hmem : ':' ∈ (formatAddr cell.col cell.row).toList := by simpa using hcolon
    exact mem_formatAddr_ne hmem (by decide) (by decide)
  notSegment n hn sheet col lo hi hid := by
    have hrange := h n hn
    rw [hid, parseRangeNode_segmentName] at hrange
    cases hrange

/-- Inside the bounds of a node, the places where `parse_node_id` finds a formula cell on the
sheet of the node are those of its formula cells. -/
def ReadInPlace (node : RangeNode) : Prop :=
  ∀ col row, node.c1 ≤ col → col ≤ node.c2 → node.r1 ≤ row → row ≤ node.r2 →
    ((∃ cell ∈ cells, place table cell.id = some ((node.sheet, col), row)) ↔
      ∃ cell ∈ cells, cell.sheet = node.sheet ∧ cell.col = col ∧ cell.row = row)

/-- The cells reached from each node are its members and the formula cells inside it; segments
are apart from cells and from each other, and each is laid out once. -/
structure Exact : Prop where
  reached : ∀ node ∈ nodes, ∀ x, Reaches table cells nodes node.nodeId x →
    x = node.nodeId ∨ (∃ sheet col lo hi, x = segmentName sheet col lo hi) ∨
      ∃ cell ∈ cells, cell.Inside node ∧ x = cell.id
  reaches : ∀ node ∈ nodes, ∀ cell ∈ cells,
    Reaches table cells nodes node.nodeId cell.id ↔ cell.Inside node
  members : ∀ node ∈ nodes, ∀ x, x ∈ (ofCells table cells).members node ↔
    ∃ cell ∈ cells, cell.Inside node ∧ x = cell.id
  notCell : ∀ sheet col lo hi, (∀ cell : FormulaCell, segmentName sheet col lo hi ≠ cell.id) ∧
    isCellId table (segmentName sheet col lo hi) = false
  apart : ∀ sheet col lo hi sheet' col' lo' hi',
    segmentName sheet col lo hi = segmentName sheet' col' lo' hi' →
      sheet = sheet' ∧ col = col' ∧ lo = lo' ∧ hi = hi'
  once : ∀ sheet col lo hi, lo < hi →
    edgesOf (segmentName sheet col lo hi) (emitted table cells nodes) = [] ∨
      edgesOf (segmentName sheet col lo hi) (emitted table cells nodes) =
        (ofCells table cells).halves sheet col lo hi

variable {table cells nodes}

theorem one_le_col_of_mem_rowsAt {sheet : String} {col row : ℕ}
    (h : row ∈ (ofCells table cells).rowsAt sheet col) : 1 ≤ col := by
  obtain ⟨cell, -, hplace⟩ := (mem_rowsAt_create table _).mp h
  unfold place at hplace
  split_ifs at hplace
  obtain ⟨⟨name, c, r⟩, hparsed, hcell⟩ := Option.map_eq_some_iff.mp hplace
  simp only [Prod.mk.injEq] at hcell
  obtain ⟨⟨-, rfl⟩, -⟩ := hcell
  obtain ⟨⟨before, addr⟩, -, hparsed⟩ := Option.bind_eq_some_iff.mp hparsed
  obtain ⟨⟨c', r'⟩, haddr, hparsed⟩ := Option.bind_eq_some_iff.mp hparsed
  dsimp only at hparsed
  split_ifs at hparsed
  simp only [Option.pure_def, Option.some.injEq, Prod.mk.injEq] at hparsed
  obtain ⟨-, rfl, -⟩ := hparsed
  exact one_le_col_of_parseAddr haddr

theorem mem_rowsAt_ofCells {sheet : String} {col row : ℕ} :
    row ∈ (ofCells table cells).rowsAt sheet col ↔
      ∃ cell ∈ cells, place table cell.id = some ((sheet, col), row) := by
  rw [ofCells, mem_rowsAt_create]
  constructor
  · rintro ⟨name, hname, hplace⟩
    obtain ⟨cell, hcell, rfl⟩ := List.mem_map.mp hname
    exact ⟨cell, hcell, hplace⟩
  · rintro ⟨cell, hcell, hplace⟩
    exact ⟨_, List.mem_map_of_mem hcell, hplace⟩

theorem mem_members_ofCells {node : RangeNode} {x : String} :
    x ∈ (ofCells table cells).members node ↔
      ∃ col row, row ∈ (ofCells table cells).rowsAt node.sheet col ∧ node.c1 ≤ col ∧
        col ≤ node.c2 ∧ node.r1 ≤ row ∧ row ≤ node.r2 ∧
        x = nodeId node.sheet (formatAddr col row) := by
  have h : (ofCells table cells).Indexed := indexed_create table _
  rw [mem_members h]
  constructor
  · rintro ⟨col, i, hcol, ⟨row, hrow, hlo, hhi⟩, rfl⟩
    obtain ⟨-, hc1, hc2⟩ := (mem_cols h).mp hcol
    refine ⟨col, row, List.mem_of_getElem? hrow, hc1, hc2, hlo, hhi, ?_⟩
    rw [cellAt, hrow, Option.getD_some]
  · rintro ⟨col, row, hrow, hc1, hc2, hlo, hhi, rfl⟩
    obtain ⟨i, hi⟩ := List.mem_iff_getElem?.mp hrow
    refine ⟨col, i, (mem_cols h).mpr ⟨⟨row, hrow⟩, hc1, hc2⟩, ⟨row, hi, hlo, hhi⟩, ?_⟩
    rw [cellAt, hi, Option.getD_some]

theorem members_iff_readInPlace {node : RangeNode} :
    (∀ x, x ∈ (ofCells table cells).members node ↔
      ∃ cell ∈ cells, cell.Inside node ∧ x = cell.id) ↔ ReadInPlace table cells node := by
  constructor
  · intro h col row hc1 hc2 hr1 hr2
    rw [← mem_rowsAt_ofCells]
    constructor
    · intro hrow
      obtain ⟨cell, hcell, ⟨hsheet, -⟩, hid⟩ := (h _).mp
        (mem_members_ofCells.mpr ⟨col, row, hrow, hc1, hc2, hr1, hr2, rfl⟩)
      have hcol := one_le_col_of_mem_rowsAt hrow
      exact ⟨cell, hcell, (FormulaCell.id_eq_iff hcol).mp hid.symm⟩
    · rintro ⟨cell, hcell, hsheet, rfl, rfl⟩
      obtain ⟨col, row, hrow, -, -, -, -, hid⟩ := mem_members_ofCells.mp
        ((h cell.id).mpr ⟨cell, hcell, ⟨hsheet, hc1, hc2, hr1, hr2⟩, rfl⟩)
      obtain ⟨-, rfl, rfl⟩ :=
        (FormulaCell.id_eq_iff (one_le_col_of_mem_rowsAt hrow)).mp hid
      exact hrow
  · intro h x
    rw [mem_members_ofCells]
    constructor
    · rintro ⟨col, row, hrow, hc1, hc2, hr1, hr2, rfl⟩
      obtain ⟨cell, hcell, hsheet, rfl, rfl⟩ :=
        (h col row hc1 hc2 hr1 hr2).mp (mem_rowsAt_ofCells.mp hrow)
      exact ⟨cell, hcell, ⟨hsheet, hc1, hc2, hr1, hr2⟩, by rw [FormulaCell.id, hsheet]⟩
    · rintro ⟨cell, hcell, ⟨hsheet, hc1, hc2, hr1, hr2⟩, rfl⟩
      have hrow := (h cell.col cell.row hc1 hc2 hr1 hr2).mpr ⟨cell, hcell, hsheet, rfl, rfl⟩
      exact ⟨cell.col, cell.row, mem_rowsAt_ofCells.mpr hrow, hc1, hc2, hr1, hr2,
        by rw [FormulaCell.id, hsheet]⟩

theorem readInPlace_of_sheetNames (h : ∀ cell ∈ cells, SheetName table cell.sheet)
    (node : RangeNode) : ReadInPlace table cells node := by
  have hread : ∀ cell ∈ cells,
      place table cell.id = some ((cell.sheet, cell.col), cell.row) := fun cell hcell =>
    place_of_cellId (cellId_nodeId table (h cell hcell) cell.row cell.one_le_col)
  intro col row _ _ _ _
  constructor
  · rintro ⟨cell, hcell, hplace⟩
    rw [hread cell hcell] at hplace
    simp only [Option.some.injEq, Prod.mk.injEq] at hplace
    exact ⟨cell, hcell, hplace.1.1, hplace.1.2, hplace.2⟩
  · rintro ⟨cell, hcell, hsheet, rfl, rfl⟩
    exact ⟨cell, hcell, hsheet ▸ hread cell hcell⟩

/-- A segment of a column, all of whose cells lie inside the node. -/
def Below (hops : RangeHops) (node : RangeNode) (x : String) : Prop :=
  ∃ col a b, col ∈ hops.cols node ∧ a ≤ b ∧ (∀ i, a ≤ i → i ≤ b → hops.InSpan node col i) ∧
    x = hops.name node.sheet col a b

theorem Below.cases {hops : RangeHops} (h : hops.Indexed) {node : RangeNode} {x : String}
    (hx : hops.Below node x) :
    (∃ col a b, x = segmentName node.sheet col a b) ∨ x ∈ hops.members node := by
  obtain ⟨col, a, b, hcol, hab, hspan, rfl⟩ := hx
  by_cases hlt : a < b
  · exact .inl ⟨col, a, b, name_of_lt hlt⟩
  · obtain rfl : a = b := by omega
    rw [name_self]
    exact .inr ((mem_members h).mpr ⟨col, a, hcol, hspan a (Nat.le_refl a) hab, rfl⟩)

theorem below_of_reaches (hnames : NamedApart cells nodes) {node : RangeNode}
    (hnode : node ∈ nodes) (hplace : ReadInPlace table cells node) {x : String}
    (hx : Reaches table cells nodes node.nodeId x) :
    x = node.nodeId ∨ (ofCells table cells).Below node x := by
  have h : (ofCells table cells).Indexed := indexed_create table _
  have hmember : ∀ y ∈ (ofCells table cells).members node, ∃ cell ∈ cells, y = cell.id := by
    intro y hy
    obtain ⟨cell, hcell, -, hid⟩ := (members_iff_readInPlace.mpr hplace y).mp hy
    exact ⟨cell, hcell, hid⟩
  induction hx with
  | refl => exact .inl rfl
  | tail hwalk hedge ih =>
    right
    have hhop := hopEdge_of_mem_structural h nodes _ hedge
    generalize hpair : (_, _) = edge at hhop
    rcases ih with rfl | hbelow
    · cases hhop with
      | fromNode other col a b hother hs =>
        obtain ⟨hid, rfl⟩ := Prod.mk.inj hpair
        obtain rfl := hnames.inj _ hnode _ hother hid
        obtain ⟨hcol, hab, hspan⟩ := mem_segments h hs
        exact ⟨col, a, b, hcol, hab, hspan, rfl⟩
      | fromSegment other col lo hi lo' hi' hother hcol hlt hlo hle hhi =>
        have hid := (Prod.mk.inj hpair).1
        rw [name_of_lt hlt] at hid
        exact absurd hid (hnames.notSegment _ hnode _ _ _ _)
    · cases hhop with
      | fromNode other col a b hother hs =>
        have hid := (Prod.mk.inj hpair).1
        rcases hbelow.cases h with ⟨c, lo, hi, hname⟩ | hin
        · exact absurd (hid.symm.trans hname) (hnames.notSegment _ hother _ _ _ _)
        · obtain ⟨cell, hcell, hname⟩ := hmember _ hin
          exact absurd (hid.symm.trans hname) (hnames.notCell _ hother _ hcell)
      | fromSegment other col lo hi lo' hi' hother hcol hlt hlo hle hhi =>
        obtain ⟨hid, rfl⟩ := Prod.mk.inj hpair
        rw [name_of_lt hlt] at hid
        obtain ⟨c, a, b, hc, hab, hspan, hname⟩ := hbelow
        by_cases hlt' : a < b
        · rw [hid, name_of_lt hlt'] at hname
          obtain ⟨hsheet, rfl, rfl, rfl⟩ := segmentName_inj hname
          refine ⟨col, lo', hi', hc, hle, fun i hi₁ hi₂ => hspan i (by omega) (by omega), ?_⟩
          rw [hsheet]
        · obtain rfl : a = b := by omega
          rw [hid, name_self, cellAt] at hname
          exact absurd hname (segmentName_ne_nodeId _ _ _ _ _ _ _)

/-- The hops of a sequence of nodes are exact if and only if the formula cells inside them are
read in place. -/
theorem exact_iff_readInPlace (hnames : NamedApart cells nodes) :
    Exact table cells nodes ↔ ∀ node ∈ nodes, ReadInPlace table cells node := by
  have h : (ofCells table cells).Indexed := indexed_create table _
  constructor
  · intro hexact node hnode
    exact members_iff_readInPlace.mp (hexact.members node hnode)
  · intro hplace
    have hmembers : ∀ node ∈ nodes, ∀ x, x ∈ (ofCells table cells).members node ↔
        ∃ cell ∈ cells, cell.Inside node ∧ x = cell.id :=
      fun node hnode => members_iff_readInPlace.mpr (hplace node hnode)
    have hreached : ∀ node ∈ nodes, ∀ x, Reaches table cells nodes node.nodeId x →
        x = node.nodeId ∨ (∃ sheet col lo hi, x = segmentName sheet col lo hi) ∨
          ∃ cell ∈ cells, cell.Inside node ∧ x = cell.id := by
      intro node hnode x hx
      rcases below_of_reaches hnames hnode (hplace node hnode) hx with rfl | hbelow
      · exact .inl rfl
      · rcases hbelow.cases h with ⟨col, a, b, rfl⟩ | hin
        · exact .inr (.inl ⟨node.sheet, col, a, b, rfl⟩)
        · exact .inr (.inr ((hmembers node hnode x).mp hin))
    exact
      { reached := hreached
        reaches := by
          intro node hnode cell hcell
          constructor
          · intro hx
            rcases hreached node hnode _ hx with hid | ⟨sheet, col, lo, hi, hid⟩ | ⟨c, -, hc, hid⟩
            · exact absurd hid.symm (hnames.notCell node hnode cell hcell)
            · exact absurd hid.symm (segmentName_ne_nodeId _ _ _ _ _ _ _)
            · rw [FormulaCell.id_inj hid]
              exact hc
          · intro hinside
            exact reaches_member h hnode
              ((hmembers node hnode cell.id).mpr ⟨cell, hcell, hinside, rfl⟩)
        members := hmembers
        notCell := fun sheet col lo hi =>
          ⟨fun cell => segmentName_ne_nodeId _ _ _ _ _ _ _,
            isCellId_segmentName table sheet col lo hi⟩
        apart := fun _ _ _ _ _ _ _ _ => segmentName_inj
        once := by
          intro sheet col lo hi hlt
          have honce := laidOnce_structural h nodes hnames.notSegment sheet col lo hi hlt
          rw [emitted, honce]
          split_ifs
          · exact .inr rfl
          · exact .inl rfl }

end Exactness

section Sample

def sumCells : List FormulaCell :=
  [⟨"S", 1, 1, by decide⟩, ⟨"S", 1, 2, by decide⟩, ⟨"S", 1, 5, by decide⟩, ⟨"S", 2, 2, by decide⟩]

def sumNodes : List RangeNode :=
  [⟨"S!A:A", "S", 1, 1, 1, 1048576⟩, ⟨"S!A2:B9", "S", 1, 2, 2, 9⟩,
    ⟨"S!A:A", "S", 1, 1, 1, 1048576⟩]

theorem exact_sumNodes : Exact asciiTable sumCells sumNodes := by
  have hparsed : ∀ n ∈ sumNodes, parseRangeNode asciiTable n.nodeId = some n := by
    decide +kernel
  apply (exact_iff_readInPlace (namedApart_of_parsed asciiTable sumCells sumNodes hparsed)).mpr
  intro node _
  apply readInPlace_of_sheetNames
  intro cell hcell
  have hsheet : ∀ cell ∈ sumCells, cell.sheet = "S" := by decide
  rw [hsheet cell hcell]
  exact sheetName_s

def blankCells : List FormulaCell := [⟨" Data", 1, 1, by decide⟩]

def blankNode : RangeNode := ⟨" Data!A:A", " Data", 1, 1, 1, 1048576⟩

/-- On a sheet whose name starts with a blank no formula cell is a member of a node, and none is
reached. -/
theorem blank_sheet_inexact :
    parseRangeNode asciiTable " Data!A:A" = some blankNode ∧
      (ofCells asciiTable blankCells).members blankNode = [] ∧
      emitted asciiTable blankCells [blankNode] = [] ∧
      ¬ Exact asciiTable blankCells [blankNode] := by
  have hnone : (ofCells asciiTable blankCells).members blankNode = [] := by decide +kernel
  refine ⟨by decide +kernel, hnone, by decide +kernel, ?_⟩
  intro hexact
  have hin := (hexact.members _ List.mem_cons_self " Data!A1").mpr
    ⟨_, List.mem_cons_self, ⟨rfl, by decide, by decide, by decide, by decide⟩, by decide⟩
  rw [hnone] at hin
  cases hin

end Sample

end RangeHops

end FinanceContext
