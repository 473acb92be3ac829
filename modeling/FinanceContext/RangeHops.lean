import FinanceContext.NodeIds
import Mathlib.Data.List.Dedup
import Mathlib.Data.List.Sort
import Mathlib.Logic.Relation
import Mathlib.Tactic.Set

namespace FinanceContext

open Csr Dictionaries Relation

def bisectLeft (l : List ℕ) (x : ℕ) : ℕ := l.countP (· < x)

def bisectRight (l : List ℕ) (x : ℕ) : ℕ := l.countP (· ≤ x)

theorem lt_countP_iff {l : List ℕ} {p : ℕ → Bool} (hl : l.Pairwise (· < ·))
    (hp : ∀ a b, a < b → p b = true → p a = true) {i : ℕ} (hi : i < l.length) :
    i < l.countP p ↔ p l[i] = true := by
  induction l generalizing i with
  | nil => simp at hi
  | cons a l ih =>
    obtain ⟨ha, hl⟩ := List.pairwise_cons.mp hl
    by_cases hpa : p a = true
    · rw [List.countP_cons_of_pos hpa]
      cases i with
      | zero => simp [hpa]
      | succ i =>
        have hlt : i < l.length := by simpa using hi
        rw [List.getElem_cons_succ, ← ih hl hlt]
        omega
    · have hnone : ∀ b ∈ l, ¬p b = true := fun b hb h => hpa (hp a b (ha b hb) h)
      rw [List.countP_cons_of_neg hpa, List.countP_eq_zero.mpr hnone]
      cases i with
      | zero => simpa using hpa
      | succ i =>
        have hlt : i < l.length := by simpa using hi
        simpa using hnone _ (List.getElem_mem hlt)

theorem lt_bisectRight_iff {l : List ℕ} (hl : l.Pairwise (· < ·)) {x i : ℕ} (hi : i < l.length) :
    i < bisectRight l x ↔ l[i] ≤ x := by
  rw [bisectRight, lt_countP_iff hl (fun a b hab hb => by simp at hb ⊢; omega) hi]
  simp

theorem bisectLeft_le_iff {l : List ℕ} (hl : l.Pairwise (· < ·)) {x i : ℕ} (hi : i < l.length) :
    bisectLeft l x ≤ i ↔ x ≤ l[i] := by
  rw [← Nat.not_lt, bisectLeft, lt_countP_iff hl (fun a b hab hb => by simp at hb ⊢; omega) hi]
  simp

def sortedSet (values : List ℕ) : List ℕ := values.dedup.insertionSort (· ≤ ·)

theorem mem_sortedSet {values : List ℕ} {x : ℕ} : x ∈ sortedSet values ↔ x ∈ values := by
  simp [sortedSet]

theorem pairwise_sortedSet (values : List ℕ) : (sortedSet values).Pairwise (· < ·) := by
  have hsorted := List.pairwise_insertionSort (· ≤ ·) values.dedup
  have hnodup : (sortedSet values).Nodup :=
    (List.perm_insertionSort (· ≤ ·) values.dedup).nodup_iff.mpr (List.nodup_dedup values)
  refine (hsorted.and hnodup).imp fun h => ?_
  omega

abbrev Segment := String × ℕ × ℕ × ℕ

structure RangeHops where
  rows : List ((String × ℕ) × List ℕ)
  columns : List (String × List ℕ)

namespace RangeHops

variable (table : CharTable)

def place (cell : String) : Option ((String × ℕ) × ℕ) :=
  if ':' ∈ cell.toList then none
  else (parseNodeId table cell).map fun (sheet, col, row) => ((sheet, col), row)

def create (formulaCells : List String) : RangeHops :=
  let rows := (grouped (formulaCells.filterMap (place table))).map fun e => (e.1, sortedSet e.2)
  { rows := rows
    columns := (grouped (rows.map Prod.fst)).map fun e => (e.1, e.2.insertionSort (· ≤ ·)) }

variable (hops : RangeHops)

def rowsAt (sheet : String) (col : ℕ) : List ℕ := (get (sheet, col) hops.rows).getD []

def cols (node : RangeNode) : List ℕ :=
  let cols := (get node.sheet hops.columns).getD []
  (cols.take (bisectRight cols node.c2)).drop (bisectLeft cols node.c1)

def span (node : RangeNode) (col : ℕ) : Option (ℕ × ℕ) :=
  let rows := hops.rowsAt node.sheet col
  let lo := bisectLeft rows node.r1
  let hi := bisectRight rows node.r2
  if lo < hi then some (lo, hi - 1) else none

def cellAt (sheet : String) (col index : ℕ) : String :=
  nodeId sheet (formatAddr col ((hops.rowsAt sheet col)[index]?.getD 0))

/-- `members`: formula cells inside the node. -/
def members (node : RangeNode) : List String :=
  (hops.cols node).flatMap fun col =>
    match hops.span node col with
    | none => []
    | some (lo, hi) => (List.range' lo (hi + 1 - lo)).map fun i => hops.cellAt node.sheet col i

def name (sheet : String) (col lo hi : ℕ) : String :=
  if lo = hi then hops.cellAt sheet col lo else segmentName sheet col lo hi

/-- `_cover`; the stack of the source is the recursion, bounded by the width of the segment. -/
def cover : ℕ → ℕ → ℕ → ℕ → ℕ → List (ℕ × ℕ)
  | 0, _, _, _, _ => []
  | fuel + 1, a, b, wantLo, wantHi =>
    if b < wantLo ∨ wantHi < a then []
    else if wantLo ≤ a ∧ b ≤ wantHi then [(a, b)]
    else
      let mid := (a + b) / 2
      cover fuel a mid wantLo wantHi ++ cover fuel (mid + 1) b wantLo wantHi

/-- `_tree`: the edges below a segment, less those below a segment made before. -/
def tree (sheet : String) (col : ℕ) :
    ℕ → ℕ → ℕ → List Segment → List (String × String) × List Segment
  | 0, _, _, made => ([], made)
  | fuel + 1, a, b, made =>
    if a = b ∨ (sheet, col, a, b) ∈ made then ([], made)
    else
      let mid := (a + b) / 2
      let parent := hops.name sheet col a b
      let (right, made) := tree sheet col fuel (mid + 1) b ((sheet, col, a, b) :: made)
      let (left, made) := tree sheet col fuel a mid made
      ((parent, hops.name sheet col a mid) :: (parent, hops.name sheet col (mid + 1) b) ::
        (right ++ left), made)

def segments (node : RangeNode) : List (ℕ × ℕ × ℕ) :=
  (hops.cols node).flatMap fun col =>
    match hops.span node col with
    | none => []
    | some (lo, hi) =>
      let size := (hops.rowsAt node.sheet col).length
      (cover size 0 (size - 1) lo hi).map fun (a, b) => (col, a, b)

/-- One turn of the loop of `edges`. -/
def segmentEdges (node : RangeNode) (state : List (String × String) × List Segment)
    (segment : ℕ × ℕ × ℕ) : List (String × String) × List Segment :=
  let (col, a, b) := segment
  let below := hops.tree node.sheet col (b + 1) a b state.2
  (state.1 ++ (node.nodeId, hops.name node.sheet col a b) :: below.1, below.2)

/-- The hops of several nodes; segments made for one node are not made again for the next. -/
def structural (nodes : List RangeNode) : List (String × String) × List Segment :=
  nodes.foldl (fun state node => (hops.segments node).foldl (hops.segmentEdges node) state)
    ([], [])

section Rows

variable (formulaCells : List String)

theorem rowsAt_create (sheet : String) (col : ℕ) :
    (create table formulaCells).rowsAt sheet col =
      sortedSet (((formulaCells.filterMap (place table)).filter (·.1 = (sheet, col))).map
        Prod.snd) := by
  rw [← getD_get_grouped, rowsAt, create, get_mapValues]
  cases get (sheet, col) (grouped (formulaCells.filterMap (place table))) <;> rfl

theorem mem_rowsAt_create {sheet : String} {col row : ℕ} :
    row ∈ (create table formulaCells).rowsAt sheet col ↔
      ∃ cell ∈ formulaCells, place table cell = some ((sheet, col), row) := by
  rw [rowsAt_create, mem_sortedSet]
  constructor
  · intro h
    obtain ⟨p, hp, rfl⟩ := List.mem_map.mp h
    obtain ⟨hp, hkey⟩ := List.mem_filter.mp hp
    obtain ⟨cell, hcell, hplace⟩ := List.mem_filterMap.mp hp
    exact ⟨cell, hcell, by rw [hplace, ← of_decide_eq_true hkey]⟩
  · rintro ⟨cell, hcell, hplace⟩
    have hmem : ((sheet, col), row) ∈ formulaCells.filterMap (place table) :=
      List.mem_filterMap.mpr ⟨cell, hcell, hplace⟩
    exact List.mem_map.mpr ⟨_, List.mem_filter.mpr ⟨hmem, by simp⟩, rfl⟩

theorem pairwise_rowsAt_create (sheet : String) (col : ℕ) :
    ((create table formulaCells).rowsAt sheet col).Pairwise (· < ·) := by
  rw [rowsAt_create]
  exact pairwise_sortedSet _

theorem columns_create (sheet : String) :
    (get sheet (create table formulaCells).columns).getD [] =
      ((((grouped (formulaCells.filterMap (place table))).map Prod.fst).filter
        (·.1 = sheet)).map Prod.snd).insertionSort (· ≤ ·) := by
  have hkeys : (create table formulaCells).rows.map Prod.fst =
      (grouped (formulaCells.filterMap (place table))).map Prod.fst := by
    simp [create]
  rw [← getD_get_grouped, ← hkeys]
  change (get sheet ((grouped ((create table formulaCells).rows.map Prod.fst)).map
    fun e => (e.1, e.2.insertionSort (· ≤ ·)))).getD [] = _
  rw [get_mapValues]
  cases get sheet (grouped ((create table formulaCells).rows.map Prod.fst)) <;> rfl

theorem mem_columns_create {sheet : String} {col : ℕ} :
    col ∈ (get sheet (create table formulaCells).columns).getD [] ↔
      ∃ row, row ∈ (create table formulaCells).rowsAt sheet col := by
  rw [columns_create, List.mem_insertionSort]
  have hkey : (sheet, col) ∈ (grouped (formulaCells.filterMap (place table))).map Prod.fst ↔
      ∃ row, row ∈ (create table formulaCells).rowsAt sheet col := by
    rw [mem_keys_iff, Ne, get_grouped_eq_none_iff, not_forall]
    constructor
    · rintro ⟨⟨key, row⟩, hrow⟩
      obtain ⟨hmem, hkey⟩ := Classical.not_imp.mp hrow
      obtain rfl : key = (sheet, col) := not_not.mp hkey
      obtain ⟨cell, hcell, hplace⟩ := List.mem_filterMap.mp hmem
      exact ⟨row, (mem_rowsAt_create table formulaCells).mpr ⟨cell, hcell, hplace⟩⟩
    · rintro ⟨row, hrow⟩
      obtain ⟨cell, hcell, hplace⟩ := (mem_rowsAt_create table formulaCells).mp hrow
      have hmem : ((sheet, col), row) ∈ formulaCells.filterMap (place table) :=
        List.mem_filterMap.mpr ⟨cell, hcell, hplace⟩
      exact ⟨_, fun h => h hmem rfl⟩
  rw [← hkey]
  simp

theorem pairwise_columns_create (sheet : String) :
    ((get sheet (create table formulaCells).columns).getD []).Pairwise (· < ·) := by
  rw [columns_create]
  have hnodup : ((((grouped (formulaCells.filterMap (place table))).map Prod.fst).filter
      (·.1 = sheet)).map Prod.snd).Nodup := by
    apply List.Nodup.map_on
    · rintro ⟨s, c⟩ hx ⟨s', c'⟩ hy hxy
      have hs : s = sheet := of_decide_eq_true (List.mem_filter.mp hx).2
      have hs' : s' = sheet := of_decide_eq_true (List.mem_filter.mp hy).2
      exact Prod.ext (hs.trans hs'.symm) hxy
    · exact (nodup_keys_grouped _).filter _
  have hsorted := List.pairwise_insertionSort (· ≤ ·) ((((grouped
    (formulaCells.filterMap (place table))).map Prod.fst).filter (·.1 = sheet)).map Prod.snd)
  refine (hsorted.and ((List.perm_insertionSort (· ≤ ·) _).nodup_iff.mpr hnodup)).imp fun h => ?_
  omega

end Rows

/-- Rows and columns are in order, and a column is listed exactly when it has rows. -/
structure Indexed (hops : RangeHops) : Prop where
  rows : ∀ sheet col, (hops.rowsAt sheet col).Pairwise (· < ·)
  columns : ∀ sheet, ((get sheet hops.columns).getD []).Pairwise (· < ·)
  mem_columns : ∀ sheet col, col ∈ (get sheet hops.columns).getD [] ↔
    ∃ row, row ∈ hops.rowsAt sheet col

theorem indexed_create (formulaCells : List String) : (create table formulaCells).Indexed where
  rows := pairwise_rowsAt_create table formulaCells
  columns := pairwise_columns_create table formulaCells
  mem_columns _ _ := mem_columns_create table formulaCells

theorem mem_window {l : List ℕ} (hl : l.Pairwise (· < ·)) {lo hi x : ℕ} :
    x ∈ (l.take (bisectRight l hi)).drop (bisectLeft l lo) ↔ x ∈ l ∧ lo ≤ x ∧ x ≤ hi := by
  constructor
  · intro h
    obtain ⟨i, hi', rfl⟩ := List.mem_iff_getElem.mp h
    rw [List.length_drop, List.length_take] at hi'
    have hlt : bisectLeft l lo + i < l.length := by omega
    rw [List.getElem_drop, List.getElem_take]
    refine ⟨List.getElem_mem hlt, ?_, ?_⟩
    · exact (bisectLeft_le_iff hl hlt).mp (Nat.le_add_right _ _)
    · exact (lt_bisectRight_iff hl hlt).mp (by omega)
  · rintro ⟨hx, hlo, hhi⟩
    obtain ⟨i, hi', rfl⟩ := List.mem_iff_getElem.mp hx
    have hleft := (bisectLeft_le_iff hl hi').mpr hlo
    have hright := (lt_bisectRight_iff hl hi').mpr hhi
    apply List.mem_iff_getElem.mpr
    refine ⟨i - bisectLeft l lo, ?_, ?_⟩
    · rw [List.length_drop, List.length_take]
      omega
    · rw [List.getElem_drop, List.getElem_take]
      congr 1
      omega

variable {hops}

theorem mem_cols (h : hops.Indexed) {node : RangeNode} {col : ℕ} :
    col ∈ hops.cols node ↔
      (∃ row, row ∈ hops.rowsAt node.sheet col) ∧ node.c1 ≤ col ∧ col ≤ node.c2 := by
  rw [cols, mem_window (h.columns node.sheet), h.mem_columns]

/-- The places of the rows of a column that lie inside a node. -/
def InSpan (hops : RangeHops) (node : RangeNode) (col i : ℕ) : Prop :=
  ∃ row, (hops.rowsAt node.sheet col)[i]? = some row ∧ node.r1 ≤ row ∧ row ≤ node.r2

theorem inSpan_iff (h : hops.Indexed) {node : RangeNode} {col i : ℕ} :
    hops.InSpan node col i ↔ bisectLeft (hops.rowsAt node.sheet col) node.r1 ≤ i ∧
      i < bisectRight (hops.rowsAt node.sheet col) node.r2 := by
  have hsorted := h.rows node.sheet col
  unfold InSpan
  generalize hops.rowsAt node.sheet col = rows at hsorted
  constructor
  · rintro ⟨row, hrow, hlo, hhi⟩
    obtain ⟨hi, rfl⟩ := List.getElem?_eq_some_iff.mp hrow
    exact ⟨(bisectLeft_le_iff hsorted hi).mpr hlo, (lt_bisectRight_iff hsorted hi).mpr hhi⟩
  · rintro ⟨hleft, hright⟩
    have hi : i < rows.length := Nat.lt_of_lt_of_le hright List.countP_le_length
    exact ⟨rows[i], List.getElem?_eq_getElem hi, (bisectLeft_le_iff hsorted hi).mp hleft,
      (lt_bisectRight_iff hsorted hi).mp hright⟩

theorem span_eq_some_iff (h : hops.Indexed) {node : RangeNode} {col lo hi : ℕ}
    (hspan : hops.span node col = some (lo, hi)) {i : ℕ} :
    hops.InSpan node col i ↔ lo ≤ i ∧ i ≤ hi := by
  unfold span at hspan
  dsimp only at hspan
  split_ifs at hspan with hlt
  obtain ⟨rfl, rfl⟩ := Prod.mk.inj (Option.some.inj hspan)
  rw [inSpan_iff h]
  omega

theorem not_inSpan_of_span_eq_none (h : hops.Indexed) {node : RangeNode} {col : ℕ}
    (hspan : hops.span node col = none) (i : ℕ) : ¬hops.InSpan node col i := by
  unfold span at hspan
  dsimp only at hspan
  split_ifs at hspan with hlt
  rw [inSpan_iff h]
  omega

theorem cover_within {fuel a b wantLo wantHi : ℕ} (hab : a ≤ b) {s : ℕ × ℕ}
    (hs : s ∈ cover fuel a b wantLo wantHi) :
    s.1 ≤ s.2 ∧ s.2 ≤ b ∧ wantLo ≤ s.1 ∧ s.2 ≤ wantHi := by
  induction fuel generalizing a b with
  | zero => cases hs
  | succ fuel ih =>
    rw [cover] at hs
    split_ifs at hs with hout hin
    · cases hs
    · rw [List.mem_singleton.mp hs]
      exact ⟨hab, Nat.le_refl b, hin.1, hin.2⟩
    · by_cases heq : a = b
      · omega
      · rcases List.mem_append.mp hs with hs | hs
        · obtain ⟨h₁, h₂, h₃, h₄⟩ := ih (by omega) hs
          exact ⟨h₁, by omega, h₃, h₄⟩
        · obtain ⟨h₁, h₂, h₃, h₄⟩ := ih (by omega) hs
          exact ⟨h₁, h₂, h₃, h₄⟩

theorem exists_mem_cover {fuel a b wantLo wantHi i : ℕ} (hfuel : b - a < fuel) (hai : a ≤ i)
    (hib : i ≤ b) (hlo : wantLo ≤ i) (hhi : i ≤ wantHi) :
    ∃ s ∈ cover fuel a b wantLo wantHi, s.1 ≤ i ∧ i ≤ s.2 := by
  induction fuel generalizing a b with
  | zero => omega
  | succ fuel ih =>
    rw [cover]
    split_ifs with hout hin
    · omega
    · exact ⟨(a, b), List.mem_singleton_self _, hai, hib⟩
    · by_cases hmid : i ≤ (a + b) / 2
      · obtain ⟨s, hs, hsi⟩ := ih (a := a) (b := (a + b) / 2) (by omega) hai hmid
        exact ⟨s, List.mem_append_left _ hs, hsi⟩
      · obtain ⟨s, hs, hsi⟩ := ih (a := (a + b) / 2 + 1) (b := b) (by omega) (by omega) hib
        exact ⟨s, List.mem_append_right _ hs, hsi⟩

theorem name_self (sheet : String) (col i : ℕ) :
    hops.name sheet col i i = hops.cellAt sheet col i := by
  simp [name]

theorem name_of_lt {sheet : String} {col lo hi : ℕ} (h : lo < hi) :
    hops.name sheet col lo hi = segmentName sheet col lo hi := by
  rw [name, if_neg (by omega)]

theorem tree_sound {sheet : String} {col fuel a b : ℕ} {made : List Segment} (hab : a ≤ b)
    {e : String × String} (he : e ∈ (hops.tree sheet col fuel a b made).1) :
    ∃ lo hi lo' hi', lo < hi ∧ lo ≤ lo' ∧ lo' ≤ hi' ∧ hi' ≤ hi ∧
      e = (hops.name sheet col lo hi, hops.name sheet col lo' hi') := by
  induction fuel generalizing a b made with
  | zero => cases he
  | succ fuel ih =>
    rw [tree] at he
    split_ifs at he with hskip
    · cases he
    · have hlt : a < b := by omega
      dsimp only at he
      rcases List.mem_cons.mp he with rfl | he
      · exact ⟨a, b, a, (a + b) / 2, hlt, Nat.le_refl a, by omega, by omega, rfl⟩
      · rcases List.mem_cons.mp he with rfl | he
        · exact ⟨a, b, (a + b) / 2 + 1, b, hlt, by omega, by omega, Nat.le_refl b, rfl⟩
        · rcases List.mem_append.mp he with he | he
          · exact ih (by omega) he
          · exact ih (by omega) he

/-- The edges lead from a segment to each of its cells. -/
def Good (hops : RangeHops) (edges : List (String × String)) (s : Segment) : Prop :=
  ∀ i, s.2.2.1 ≤ i → i ≤ s.2.2.2 →
    ReflTransGen (fun x y => (x, y) ∈ edges) (hops.name s.1 s.2.1 s.2.2.1 s.2.2.2)
      (hops.cellAt s.1 s.2.1 i)

theorem Good.mono {edges edges' : List (String × String)} {s : Segment}
    (h : hops.Good edges s) (hsub : ∀ e ∈ edges, e ∈ edges') : hops.Good edges' s := by
  intro i hlo hhi
  have hle : (fun x y => (x, y) ∈ edges) ≤ fun x y => (x, y) ∈ edges' := fun _ _ he => hsub _ he
  exact ReflTransGen.mono hle _ _ (h i hlo hhi)

theorem tree_complete {sheet : String} {col fuel a b : ℕ} {made : List Segment}
    {edges : List (String × String)} (hab : a ≤ b) (hfuel : b - a < fuel)
    (hmade : ∀ lo hi, (sheet, col, lo, hi) ∈ made → a ≤ lo → hi ≤ b →
      hops.Good edges (sheet, col, lo, hi)) :
    hops.Good (edges ++ (hops.tree sheet col fuel a b made).1) (sheet, col, a, b) ∧
      ∀ s ∈ (hops.tree sheet col fuel a b made).2,
        s ∈ made ∨ hops.Good (edges ++ (hops.tree sheet col fuel a b made).1) s := by
  induction fuel generalizing a b made edges with
  | zero => omega
  | succ fuel ih =>
    rw [tree]
    split_ifs with hskip
    · rw [List.append_nil]
      refine ⟨?_, fun s hs => .inl hs⟩
      rcases hskip with rfl | hskip
      · intro i hlo hhi
        dsimp only at hlo hhi ⊢
        obtain rfl : i = a := by omega
        rw [name_self]
      · exact hmade a b hskip (Nat.le_refl a) (Nat.le_refl b)
    · have hlt : a < b := by omega
      dsimp only
      set mid := (a + b) / 2 with hmid
      set parent := hops.name sheet col a b
      set made₁ := (sheet, col, a, b) :: made
      set edges₁ := edges ++ [(parent, hops.name sheet col a mid),
        (parent, hops.name sheet col (mid + 1) b)] with hedges₁
      have hsub₁ : ∀ e ∈ edges, e ∈ edges₁ := fun e he => List.mem_append_left _ he
      -- The segment just made contains both halves, so neither half meets it again.
      have hhalf : ∀ lo hi, (sheet, col, lo, hi) ∈ made₁ → a ≤ lo → hi ≤ b →
          (a < lo ∨ hi < b) → hops.Good edges₁ (sheet, col, lo, hi) := by
        intro lo hi hs hlo hhi hpart
        rcases List.mem_cons.mp hs with heq | hs
        · simp only [Prod.mk.injEq, true_and] at heq
          omega
        · exact (hmade lo hi hs hlo hhi).mono hsub₁
      obtain ⟨hright, hmadeRight⟩ := @ih (mid + 1) b made₁ edges₁
        (by omega) (by omega) (fun lo hi hs hlo hhi => hhalf lo hi hs (by omega) hhi (by omega))
      set right := hops.tree sheet col fuel (mid + 1) b made₁
      have hsub₂ : ∀ e ∈ edges₁, e ∈ edges₁ ++ right.1 := fun e he => List.mem_append_left _ he
      obtain ⟨hleft, hmadeLeft⟩ := @ih a mid right.2 (edges₁ ++ right.1)
        (by omega) (by omega) (by
          intro lo hi hs hlo hhi
          rcases hmadeRight _ hs with hs | hgood
          · exact (hhalf lo hi hs hlo (by omega) (by omega)).mono hsub₂
          · exact hgood)
      set left := hops.tree sheet col fuel a mid right.2
      have hsub₃ : ∀ e ∈ edges₁ ++ right.1, e ∈ edges₁ ++ right.1 ++ left.1 :=
        fun e he => List.mem_append_left _ he
      have hall : edges ++ (parent, hops.name sheet col a mid) ::
          (parent, hops.name sheet col (mid + 1) b) :: (right.1 ++ left.1) =
            edges₁ ++ right.1 ++ left.1 := by
        simp [edges₁]
      rw [hall]
      have hself : hops.Good (edges₁ ++ right.1 ++ left.1) (sheet, col, a, b) := by
        intro i hlo hhi
        dsimp only at hlo hhi ⊢
        by_cases hi : i ≤ mid
        · refine .head ?_ (hleft i hlo hi)
          simp [edges₁, parent]
        · refine .head ?_ (hright.mono hsub₃ i (by dsimp only; omega) hhi)
          simp [edges₁, parent]
      refine ⟨hself, fun s hs => ?_⟩
      rcases hmadeLeft s hs with hs | hgood
      · rcases hmadeRight s hs with hs | hgood
        · rcases List.mem_cons.mp hs with rfl | hs
          · exact .inr hself
          · exact .inl hs
        · exact .inr (hgood.mono hsub₃)
      · exact .inr hgood

theorem mem_segments (h : hops.Indexed) {node : RangeNode} {col a b : ℕ}
    (hs : (col, a, b) ∈ hops.segments node) :
    col ∈ hops.cols node ∧ a ≤ b ∧ ∀ i, a ≤ i → i ≤ b → hops.InSpan node col i := by
  obtain ⟨col', hcol, hs⟩ := List.mem_flatMap.mp hs
  cases hspan : hops.span node col' with
  | none => simp [hspan] at hs
  | some ends =>
    obtain ⟨lo, hi⟩ := ends
    simp only [hspan] at hs
    obtain ⟨⟨a', b'⟩, hcover, heq⟩ := List.mem_map.mp hs
    simp only [Prod.mk.injEq] at heq
    obtain ⟨rfl, rfl, rfl⟩ := heq
    obtain ⟨hab, -, hlo, hhi⟩ := cover_within (Nat.zero_le _) hcover
    exact ⟨hcol, hab, fun i hai hib => (span_eq_some_iff h hspan).mpr ⟨by omega, by omega⟩⟩

theorem exists_mem_segments (h : hops.Indexed) {node : RangeNode} {col i : ℕ}
    (hcol : col ∈ hops.cols node) (hi : hops.InSpan node col i) :
    ∃ a b, (col, a, b) ∈ hops.segments node ∧ a ≤ i ∧ i ≤ b := by
  cases hspan : hops.span node col with
  | none => exact absurd hi (not_inSpan_of_span_eq_none h hspan i)
  | some ends =>
    obtain ⟨lo, hi'⟩ := ends
    obtain ⟨hlo, hhi⟩ := (span_eq_some_iff h hspan).mp hi
    obtain ⟨row, hrow, -, -⟩ := hi
    obtain ⟨hlen, -⟩ := List.getElem?_eq_some_iff.mp hrow
    have hfuel : (hops.rowsAt node.sheet col).length - 1 - 0 <
        (hops.rowsAt node.sheet col).length := by omega
    obtain ⟨⟨a, b⟩, hs, hai, hib⟩ := exists_mem_cover hfuel (Nat.zero_le i) (by omega) hlo hhi
    refine ⟨a, b, List.mem_flatMap.mpr ⟨col, hcol, ?_⟩, hai, hib⟩
    simp only [hspan]
    exact List.mem_map.mpr ⟨(a, b), hs, rfl⟩

theorem mem_members (h : hops.Indexed) {node : RangeNode} {cell : String} :
    cell ∈ hops.members node ↔
      ∃ col i, col ∈ hops.cols node ∧ hops.InSpan node col i ∧
        cell = hops.cellAt node.sheet col i := by
  unfold members
  rw [List.mem_flatMap]
  constructor
  · rintro ⟨col, hcol, hmem⟩
    cases hspan : hops.span node col with
    | none => simp [hspan] at hmem
    | some ends =>
      obtain ⟨lo, hi⟩ := ends
      simp only [hspan] at hmem
      obtain ⟨i, hi', rfl⟩ := List.mem_map.mp hmem
      rw [List.mem_range'_1] at hi'
      exact ⟨col, i, hcol, (span_eq_some_iff h hspan).mpr ⟨by omega, by omega⟩, rfl⟩
  · rintro ⟨col, i, hcol, hi, rfl⟩
    refine ⟨col, hcol, ?_⟩
    cases hspan : hops.span node col with
    | none => exact absurd hi (not_inSpan_of_span_eq_none h hspan i)
    | some ends =>
      obtain ⟨lo, hi'⟩ := ends
      obtain ⟨hlo, hhi⟩ := (span_eq_some_iff h hspan).mp hi
      simp only
      refine List.mem_map.mpr ⟨i, ?_, rfl⟩
      rw [List.mem_range'_1]
      omega

/-- Where an edge between hops leads. -/
inductive HopEdge (hops : RangeHops) (nodes : List RangeNode) : String × String → Prop where
  | fromNode (node : RangeNode) (col a b : ℕ) (hnode : node ∈ nodes)
    (hs : (col, a, b) ∈ hops.segments node) :
    HopEdge hops nodes (node.nodeId, hops.name node.sheet col a b)
  | fromSegment (node : RangeNode) (col lo hi lo' hi' : ℕ) (hnode : node ∈ nodes)
    (hcol : col ∈ hops.cols node) (hlt : lo < hi) (hlo : lo ≤ lo') (hle : lo' ≤ hi')
    (hhi : hi' ≤ hi) :
    HopEdge hops nodes (hops.name node.sheet col lo hi, hops.name node.sheet col lo' hi')

theorem hopEdge_segmentEdges (h : hops.Indexed) {nodes : List RangeNode} {node : RangeNode}
    (hnode : node ∈ nodes) (segments : List (ℕ × ℕ × ℕ))
    (hsegments : ∀ s ∈ segments, s ∈ hops.segments node)
    {state : List (String × String) × List Segment}
    (hstate : ∀ e ∈ state.1, HopEdge hops nodes e) :
    ∀ e ∈ (segments.foldl (hops.segmentEdges node) state).1, HopEdge hops nodes e := by
  induction segments generalizing state with
  | nil => exact hstate
  | cons s segments ih =>
    apply ih (fun t ht => hsegments t (List.mem_cons_of_mem _ ht))
    obtain ⟨col, a, b⟩ := s
    have hs := hsegments _ List.mem_cons_self
    intro e he
    rcases List.mem_append.mp he with he | he
    · exact hstate e he
    · rcases List.mem_cons.mp he with rfl | he
      · exact .fromNode node col a b hnode hs
      · obtain ⟨lo, hi, lo', hi', hlt, hlo, hle, hhi, rfl⟩ :=
          tree_sound (mem_segments h hs).2.1 he
        exact .fromSegment node col lo hi lo' hi' hnode (mem_segments h hs).1 hlt hlo hle hhi

theorem hopEdge_of_mem_structural (h : hops.Indexed) (nodes : List RangeNode) :
    ∀ e ∈ (hops.structural nodes).1, HopEdge hops nodes e := by
  have hrun (done todo : List RangeNode) (hdone : done ++ todo = nodes)
      (state : List (String × String) × List Segment)
      (hstate : ∀ e ∈ state.1, HopEdge hops nodes e) :
      ∀ e ∈ (todo.foldl (fun state node =>
        (hops.segments node).foldl (hops.segmentEdges node) state) state).1,
          HopEdge hops nodes e := by
    induction todo generalizing done state with
    | nil => exact hstate
    | cons node todo ih =>
      apply ih (done ++ [node]) (by simpa using hdone)
      apply hopEdge_segmentEdges h (by rw [← hdone]; simp) _ (fun s hs => hs) hstate
  exact hrun [] nodes rfl ([], []) (fun e he => nomatch he)

theorem segmentEdges_spec {node : RangeNode} {state : List (String × String) × List Segment}
    (hstate : ∀ s ∈ state.2, hops.Good state.1 s) {col a b : ℕ} (hab : a ≤ b) :
    (∀ s ∈ (hops.segmentEdges node state (col, a, b)).2,
        hops.Good (hops.segmentEdges node state (col, a, b)).1 s) ∧
      (∀ e ∈ state.1, e ∈ (hops.segmentEdges node state (col, a, b)).1) ∧
      (node.nodeId, hops.name node.sheet col a b) ∈
        (hops.segmentEdges node state (col, a, b)).1 ∧
      hops.Good (hops.segmentEdges node state (col, a, b)).1 (node.sheet, col, a, b) := by
  have hsub : ∀ e ∈ state.1, e ∈ state.1 ++ [(node.nodeId, hops.name node.sheet col a b)] :=
    fun e he => List.mem_append_left _ he
  obtain ⟨hself, hmade⟩ := @tree_complete hops node.sheet col (b + 1) a b state.2
    (state.1 ++ [(node.nodeId, hops.name node.sheet col a b)]) hab (by omega)
    (fun lo hi hs _ _ => (hstate _ hs).mono hsub)
  have hedges : (hops.segmentEdges node state (col, a, b)).1 =
      state.1 ++ [(node.nodeId, hops.name node.sheet col a b)] ++
        (hops.tree node.sheet col (b + 1) a b state.2).1 := by
    simp [segmentEdges]
  rw [hedges]
  refine ⟨fun s hs => ?_, fun e he => ?_, by simp, hself⟩
  · rcases hmade s hs with hs | hgood
    · exact (hstate s hs).mono fun e he => List.mem_append_left _ (hsub e he)
    · exact hgood
  · exact List.mem_append_left _ (hsub e he)

/-- The edges lead from a node to the segment and from the segment to its cells. -/
def Served (hops : RangeHops) (edges : List (String × String)) (node : RangeNode)
    (s : ℕ × ℕ × ℕ) : Prop :=
  (node.nodeId, hops.name node.sheet s.1 s.2.1 s.2.2) ∈ edges ∧
    hops.Good edges (node.sheet, s.1, s.2.1, s.2.2)

theorem segments_spec {node : RangeNode} (segments : List (ℕ × ℕ × ℕ))
    (hsegments : ∀ s ∈ segments, s.2.1 ≤ s.2.2)
    {state : List (String × String) × List Segment}
    (hstate : ∀ s ∈ state.2, hops.Good state.1 s) :
    (∀ s ∈ (segments.foldl (hops.segmentEdges node) state).2,
        hops.Good (segments.foldl (hops.segmentEdges node) state).1 s) ∧
      (∀ e ∈ state.1, e ∈ (segments.foldl (hops.segmentEdges node) state).1) ∧
      ∀ s ∈ segments, hops.Served (segments.foldl (hops.segmentEdges node) state).1 node s := by
  induction segments generalizing state with
  | nil => exact ⟨hstate, fun e he => he, fun s hs => nomatch hs⟩
  | cons s segments ih =>
    obtain ⟨col, a, b⟩ := s
    obtain ⟨hgood, hsub, hpoint, hself⟩ :=
      segmentEdges_spec hstate (hsegments (col, a, b) List.mem_cons_self)
    obtain ⟨hgood', hsub', hserved⟩ :=
      ih (fun t ht => hsegments t (List.mem_cons_of_mem _ ht)) hgood
    refine ⟨hgood', fun e he => hsub' e (hsub e he), fun t ht => ?_⟩
    rcases List.mem_cons.mp ht with rfl | ht
    · exact ⟨hsub' _ hpoint, hself.mono hsub'⟩
    · exact hserved t ht

theorem nodes_spec (h : hops.Indexed) (nodes : List RangeNode)
    {state : List (String × String) × List Segment}
    (hstate : ∀ s ∈ state.2, hops.Good state.1 s) :
    let final := nodes.foldl (fun state node =>
      (hops.segments node).foldl (hops.segmentEdges node) state) state
    (∀ e ∈ state.1, e ∈ final.1) ∧
      ∀ node ∈ nodes, ∀ s ∈ hops.segments node, hops.Served final.1 node s := by
  induction nodes generalizing state with
  | nil => exact ⟨fun e he => he, fun node hnode => nomatch hnode⟩
  | cons node nodes ih =>
    obtain ⟨hgood, hsub, hserved⟩ := segments_spec (hops.segments node)
      (fun s hs => (mem_segments h (a := s.2.1) (b := s.2.2) hs).2.1) hstate
    obtain ⟨hsub', hserved'⟩ := ih hgood
    refine ⟨fun e he => hsub' e (hsub e he), fun n hn s hs => ?_⟩
    rcases List.mem_cons.mp hn with rfl | hn
    · obtain ⟨hpoint, hself⟩ := hserved s hs
      exact ⟨hsub' _ hpoint, hself.mono hsub'⟩
    · exact hserved' n hn s hs

theorem reaches_member (h : hops.Indexed) {nodes : List RangeNode} {node : RangeNode}
    (hnode : node ∈ nodes) {cell : String} (hcell : cell ∈ hops.members node) :
    ReflTransGen (fun x y => (x, y) ∈ (hops.structural nodes).1) node.nodeId cell := by
  obtain ⟨col, i, hcol, hi, rfl⟩ := (mem_members h).mp hcell
  obtain ⟨a, b, hs, hai, hib⟩ := exists_mem_segments h hcol hi
  have hinit : ∀ s ∈ (([], []) : List (String × String) × List Segment).2,
      hops.Good [] s := fun s hs => nomatch hs
  obtain ⟨hpoint, hgood⟩ := (nodes_spec h nodes hinit).2 node hnode _ hs
  exact .head hpoint (hgood i hai hib)

end RangeHops

end FinanceContext
