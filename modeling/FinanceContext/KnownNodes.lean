import FinanceContext.IntervalRuns
import FinanceContext.NestedGroups
import FinanceContext.NodeIds
import Mathlib.Data.Finset.Card

/-!
`formulas/known.py`: the canonical ids of the cells compile has seen, kept as row runs.
-/

namespace FinanceContext

open Csr Dictionaries IntervalRuns NestedGroups

/-- `_open`, `_closed`, `_literals`, `_rows` and `_ready`. -/
structure KnownNodes where
  opened : List ((String × ℕ) × Run) := []
  closed : Nested String ℕ (List Run) := []
  literals : List String := []
  rows : Nested String ℕ (List Run) := []
  ready : Bool := false

namespace KnownNodes

variable (table : CharTable)

def canonicalNodeId (sheet addr : String) : String :=
  match parseAddr table.decimal addr.toList with
  | none => nodeId sheet addr
  | some (col, row) => nodeId sheet (formatAddr col row)

def finalize (s : KnownNodes) : KnownNodes :=
  if s.ready then s
  else
    let closed := s.opened.foldl (fun closed entry =>
      pushAt entry.1.1 entry.1.2 entry.2 closed) s.closed
    { s with opened := [], rows := mapItems mergeRuns closed, closed := [], ready := true }

def reopen (s : KnownNodes) : KnownNodes :=
  { s with
    closed := s.rows.foldl (fun closed group => group.2.foldl (fun closed item =>
      extendAt group.1 item.1 item.2 closed) closed) s.closed
    rows := []
    ready := false }

def touch (sheet : String) (col row : ℕ) (s : KnownNodes) : KnownNodes :=
  match get (sheet, col) s.opened with
  | none => { s with opened := set (sheet, col) (row, row) s.opened }
  | some run =>
    if row ≤ run.2 + 1 ∧ run.1 ≤ row + 1 then
      let run := (if row < run.1 then row else run.1, if run.2 < row then row else run.2)
      { s with opened := set (sheet, col) run s.opened }
    else
      { s with
        closed := pushAt sheet col run s.closed
        opened := set (sheet, col) (row, row) s.opened }

def add (sheet addr : String) (s : KnownNodes) : KnownNodes :=
  let s := if s.ready then s.reopen else s
  match parseAddr table.decimal addr.toList with
  | none => { s with literals := s.literals.insert (nodeId sheet addr) }
  | some (col, row) => s.touch sheet col row

def inRuns (item : String) (s : KnownNodes) : Bool :=
  match rsplitBang item.toList with
  | none => false
  | some (sheet, body) =>
    match parseAddr table.decimal body with
    | none => false
    | some (col, row) =>
      if formatAddr col row ≠ String.ofList body then false
      else runsHave (itemsAt (String.ofList sheet) col s.rows) row

def contains (item : String) (s : KnownNodes) : Bool × KnownNodes :=
  if '!' ∉ item.toList then (false, s)
  else
    let s := s.finalize
    (item ∈ s.literals || s.inRuns table item, s)

def len (s : KnownNodes) : ℕ × KnownNodes :=
  let s := s.finalize
  let total := (s.rows.flatMap fun group => group.2.flatMap fun item =>
    item.2.map fun run => run.2 - run.1 + 1).sum
  (total + (s.literals.filter fun literal => !s.inRuns table literal).length, s)

def truth (s : KnownNodes) : Bool :=
  if !s.literals.isEmpty || !s.opened.isEmpty || !s.closed.isEmpty then true
  else s.rows.any fun group => !group.2.isEmpty

def clear (_ : KnownNodes) : KnownNodes := {}

inductive Call where
  | add (sheet addr : String)
  | contains (item : String)
  | len
  | truth
  | clear

inductive Answer where
  | done
  | truth (value : Bool)
  | count (n : ℕ)
  deriving DecidableEq

def Call.run : Call → KnownNodes → Answer × KnownNodes
  | add sheet addr, s => (.done, s.add table sheet addr)
  | contains item, s => ((.truth (s.contains table item).1), (s.contains table item).2)
  | len, s => (.count (s.len table).1, (s.len table).2)
  | truth, s => (.truth s.truth, s)
  | clear, s => (.done, s.clear)

def Call.onSet : Call → Finset String → Answer × Finset String
  | add sheet addr, ids => (.done, insert (canonicalNodeId table sheet addr) ids)
  | contains item, ids => (.truth (item ∈ ids), ids)
  | len, ids => (.count ids.card, ids)
  | truth, ids => (.truth (0 < ids.card), ids)
  | clear, _ => (.done, ∅)

def answers {σ : Type} (run : Call → σ → Answer × σ) : List Call → σ → List Answer
  | [], _ => []
  | call :: calls, s => (run call s).1 :: answers run calls (run call s).2

/-- A cell in the open run of its column, in a closed run or in a merged one. -/
def Held (s : KnownNodes) (sheet : String) (col row : ℕ) : Prop :=
  (∃ run, get (sheet, col) s.opened = some run ∧ run.1 ≤ row ∧ row ≤ run.2) ∨
    Covers (itemsAt sheet col s.closed) row ∨ Covers (itemsAt sheet col s.rows) row

structure Inv (s : KnownNodes) : Prop where
  openKeys : (s.opened.map Prod.fst).Nodup
  openProper : ∀ entry ∈ s.opened, entry.2.1 ≤ entry.2.2
  closedKeyed : WellKeyed s.closed
  closedFilled : Filled s.closed
  closedProper : ∀ sheet col, Proper (itemsAt sheet col s.closed)
  rowsKeyed : WellKeyed s.rows
  rowsFilled : Filled s.rows
  rowsSeparated : ∀ sheet col, Separated (itemsAt sheet col s.rows)
  colPos : ∀ sheet col row, s.Held sheet col row → 1 ≤ col
  literalsNodup : s.literals.Nodup
  bangs : ∀ literal ∈ s.literals, '!' ∈ literal.toList
  settled : s.ready = true → s.opened = [] ∧ s.closed = []
  building : s.ready = false → s.rows = []

theorem separated_nil : Separated [] := ⟨List.forall_mem_nil _, .nil⟩

theorem filled_nil : Filled ([] : Nested String ℕ (List Run)) := List.forall_mem_nil _

theorem not_covers_nil (x : ℕ) : ¬Covers [] x := by
  rintro ⟨run, hrun, -⟩
  cases hrun

theorem inv_empty : Inv {} where
  openKeys := List.nodup_nil
  openProper := List.forall_mem_nil _
  closedKeyed := wellKeyed_nil
  closedFilled := filled_nil
  closedProper _ _ := List.forall_mem_nil _
  rowsKeyed := wellKeyed_nil
  rowsFilled := filled_nil
  rowsSeparated _ _ := separated_nil
  colPos := by
    rintro sheet col row (⟨run, hrun, -⟩ | h | h)
    · cases hrun
    · exact absurd h (not_covers_nil row)
    · exact absurd h (not_covers_nil row)
  literalsNodup := List.nodup_nil
  bangs := List.forall_mem_nil _
  settled h := by cases h
  building _ := rfl

section Finalizing

def openParts (s : KnownNodes) : List (String × ℕ × List Run) :=
  s.opened.map fun entry => (entry.1.1, entry.1.2, [entry.2])

theorem finalize_of_ready {s : KnownNodes} (h : s.ready = true) : s.finalize = s := if_pos h

theorem finalize_of_building {s : KnownNodes} (h : s.ready = false) :
    s.finalize = { s with
      opened := []
      rows := mapItems mergeRuns (extendAll s.closed s.openParts)
      closed := []
      ready := true } := by
  have hready : ¬s.ready = true := by simp [h]
  unfold finalize extendAll openParts
  rw [if_neg hready, List.foldl_map]
  rfl

theorem mem_itemsAt_openParts {s : KnownNodes} (hinv : s.Inv) {sheet : String} {col : ℕ}
    {run : Run} :
    run ∈ itemsAt sheet col (extendAll s.closed s.openParts) ↔
      run ∈ itemsAt sheet col s.closed ∨ get (sheet, col) s.opened = some run := by
  rw [mem_itemsAt_extendAll]
  apply or_congr_right
  simp only [openParts, List.mem_map]
  constructor
  · rintro ⟨_, ⟨entry, hentry, rfl⟩, rfl, rfl, hrun⟩
    rw [List.mem_singleton.mp hrun]
    exact get_of_mem hinv.openKeys hentry
  · intro hget
    exact ⟨_, ⟨_, mem_of_get hget, rfl⟩, rfl, rfl, List.mem_singleton.mpr rfl⟩

theorem finalize_spec {s : KnownNodes} (hinv : s.Inv) :
    s.finalize.Inv ∧ s.finalize.ready = true ∧ s.finalize.literals = s.literals ∧
      ∀ sheet col row, s.finalize.Held sheet col row ↔ s.Held sheet col row := by
  cases hready : s.ready with
  | true =>
    rw [finalize_of_ready hready]
    exact ⟨hinv, hready, rfl, fun _ _ _ => Iff.rfl⟩
  | false =>
    rw [finalize_of_building hready]
    have hproper (sheet : String) (col : ℕ) :
        Proper (itemsAt sheet col (extendAll s.closed s.openParts)) := by
      intro run hrun
      rcases (mem_itemsAt_openParts hinv).mp hrun with hold | hopen
      · exact hinv.closedProper sheet col run hold
      · exact hinv.openProper _ (mem_of_get hopen)
    have hitems (sheet : String) (col : ℕ) :
        itemsAt sheet col (mapItems mergeRuns (extendAll s.closed s.openParts)) =
          mergeRuns (itemsAt sheet col (extendAll s.closed s.openParts)) :=
      itemsAt_mapItems mergeRuns mergeRuns_nil sheet col _
    have hheld (sheet : String) (col row : ℕ) :
        Covers (itemsAt sheet col (mapItems mergeRuns (extendAll s.closed s.openParts))) row ↔
          s.Held sheet col row := by
      rw [hitems, (mergeRuns_spec (hproper sheet col)).2]
      unfold Held
      rw [hinv.building hready]
      constructor
      · rintro ⟨run, hrun, hrow⟩
        rcases (mem_itemsAt_openParts hinv).mp hrun with hold | hopen
        · exact .inr (.inl ⟨run, hold, hrow⟩)
        · exact .inl ⟨run, hopen, hrow⟩
      · rintro (⟨run, hopen, hrow⟩ | ⟨run, hold, hrow⟩ | hnone)
        · exact ⟨run, (mem_itemsAt_openParts hinv).mpr (.inr hopen), hrow⟩
        · exact ⟨run, (mem_itemsAt_openParts hinv).mpr (.inl hold), hrow⟩
        · exact absurd hnone (not_covers_nil row)
    have hheld' (sheet : String) (col row : ℕ) :
        Held { s with
          opened := []
          rows := mapItems mergeRuns (extendAll s.closed s.openParts)
          closed := []
          ready := true } sheet col row ↔ s.Held sheet col row := by
      rw [← hheld]
      constructor
      · rintro (⟨run, hrun, -⟩ | hnone | hrows)
        · cases hrun
        · exact absurd hnone (not_covers_nil row)
        · exact hrows
      · exact fun h => .inr (.inr h)
    have hparts : ∀ part ∈ s.openParts, part.2.2 ≠ [] := by
      intro part hpart
      obtain ⟨entry, -, rfl⟩ := List.mem_map.mp hpart
      exact List.cons_ne_nil _ _
    refine ⟨?_, rfl, rfl, hheld'⟩
    exact
      { openKeys := List.nodup_nil
        openProper := List.forall_mem_nil _
        closedKeyed := wellKeyed_nil
        closedFilled := filled_nil
        closedProper := fun _ _ => List.forall_mem_nil _
        rowsKeyed := (hinv.closedKeyed.extendAll _).mapItems _
        rowsFilled := (hinv.closedFilled.extendAll hparts).mapItems fun _ => mergeRuns_ne_nil
        rowsSeparated := fun sheet col => by
          change Separated (itemsAt sheet col (mapItems mergeRuns _))
          rw [hitems]
          exact (mergeRuns_spec (hproper sheet col)).1
        colPos := fun sheet col row h => hinv.colPos sheet col row ((hheld' sheet col row).mp h)
        literalsNodup := hinv.literalsNodup
        bangs := hinv.bangs
        settled := fun _ => ⟨rfl, rfl⟩
        building := fun h => by cases h }

end Finalizing

section Building

theorem reopen_eq (s : KnownNodes) :
    s.reopen = { s with closed := extendAll s.closed (flat s.rows), rows := [], ready := false } := by
  unfold reopen extendAll flat
  rw [List.foldl_flatMap]
  simp only [List.foldl_map]

theorem mem_itemsAt_flat {rows closed : Nested String ℕ (List Run)} (hrows : WellKeyed rows)
    {sheet : String} {col : ℕ} {run : Run} :
    run ∈ itemsAt sheet col (extendAll closed (flat rows)) ↔
      run ∈ itemsAt sheet col closed ∨ run ∈ itemsAt sheet col rows := by
  rw [mem_itemsAt_extendAll]
  apply or_congr_right
  constructor
  · rintro ⟨⟨k, j, runs⟩, hpart, rfl, rfl, hrun⟩
    rw [itemsAt, hrows.mem_flat.mp hpart]
    exact hrun
  · intro hrun
    unfold itemsAt at hrun
    cases hget : get col (groupsAt sheet rows) with
    | none =>
      rw [hget] at hrun
      cases hrun
    | some runs =>
      rw [hget] at hrun
      exact ⟨_, hrows.mem_flat.mpr hget, rfl, rfl, hrun⟩

theorem reopen_spec {s : KnownNodes} (hinv : s.Inv) (hready : s.ready = true) :
    s.reopen.Inv ∧ s.reopen.ready = false ∧ s.reopen.literals = s.literals ∧
      ∀ sheet col row, s.reopen.Held sheet col row ↔ s.Held sheet col row := by
  obtain ⟨hopened, hclosed⟩ := hinv.settled hready
  rw [reopen_eq]
  have hmem {sheet : String} {col : ℕ} {run : Run} :
      run ∈ itemsAt sheet col (extendAll s.closed (flat s.rows)) ↔
        run ∈ itemsAt sheet col s.rows := by
    rw [mem_itemsAt_flat hinv.rowsKeyed, hclosed]
    exact or_iff_right List.not_mem_nil
  have hheld (sheet : String) (col row : ℕ) :
      Held { s with closed := extendAll s.closed (flat s.rows), rows := [], ready := false }
        sheet col row ↔ s.Held sheet col row := by
    unfold Held Covers
    simp only [hmem]
    simp only [hopened, hclosed]
    constructor
    · rintro (⟨run, hrun, -⟩ | hrows | hnone)
      · cases hrun
      · exact .inr (.inr hrows)
      · exact absurd hnone (not_covers_nil row)
    · rintro (⟨run, hrun, -⟩ | hnone | hrows)
      · cases hrun
      · exact absurd hnone (not_covers_nil row)
      · exact .inr (.inl hrows)
  have hparts : ∀ part ∈ flat s.rows, part.2.2 ≠ [] := by
    intro part hpart
    obtain ⟨group, hgroup, hitem⟩ := List.mem_flatMap.mp hpart
    obtain ⟨item, hmember, rfl⟩ := List.mem_map.mp hitem
    exact (hinv.rowsFilled group hgroup).2 item hmember
  refine ⟨?_, rfl, rfl, hheld⟩
  exact
    { openKeys := hinv.openKeys
      openProper := hinv.openProper
      closedKeyed := hinv.closedKeyed.extendAll _
      closedFilled := hinv.closedFilled.extendAll hparts
      closedProper := fun sheet col run hrun =>
        (hinv.rowsSeparated sheet col).1 run (hmem.mp hrun)
      rowsKeyed := wellKeyed_nil
      rowsFilled := filled_nil
      rowsSeparated := fun _ _ => separated_nil
      colPos := fun sheet col row h => hinv.colPos sheet col row ((hheld sheet col row).mp h)
      literalsNodup := hinv.literalsNodup
      bangs := hinv.bangs
      settled := fun h => by cases h
      building := fun _ => rfl }

theorem held_touch {s : KnownNodes} (hinv : s.Inv) (sheet : String) (col row : ℕ)
    (sheet' : String) (col' row' : ℕ) :
    (s.touch sheet col row).Held sheet' col' row' ↔
      s.Held sheet' col' row' ∨ (sheet', col', row') = (sheet, col, row) := by
  have hother (run : Run) (hkey : ¬(sheet, col) = (sheet', col')) :
      get (sheet', col') (set (sheet, col) run s.opened) = get (sheet', col') s.opened := by
    rw [get_set, if_neg hkey]
  have hsame (run : Run) : get (sheet, col) (set (sheet, col) run s.opened) = some run := by
    rw [get_set, if_pos rfl]
  by_cases hkey : (sheet, col) = (sheet', col')
  · obtain ⟨rfl, rfl⟩ := Prod.mk.inj hkey
    have hnew : (sheet, col, row') = (sheet, col, row) ↔ row' = row := by simp
    rw [hnew]
    unfold touch Held
    cases hget : get (sheet, col) s.opened with
    | none =>
      simp only [hsame, Option.some.injEq, exists_eq_left']
      have hrow : row ≤ row' ∧ row' ≤ row ↔ row' = row := by omega
      simp only [hrow, reduceCtorEq, false_and, exists_false, false_or]
      exact or_comm
    | some run =>
      have hrun := hinv.openProper _ (mem_of_get hget)
      by_cases hnear : row ≤ run.2 + 1 ∧ run.1 ≤ row + 1
      · simp only [if_pos hnear, hsame, Option.some.injEq, exists_eq_left']
        have hgrown : ((if row < run.1 then row else run.1) ≤ row' ∧
            row' ≤ if run.2 < row then row else run.2) ↔
            (run.1 ≤ row' ∧ row' ≤ run.2) ∨ row' = row := by
          simp only at hrun
          split_ifs <;> omega
        rw [hgrown]
        exact or_right_comm
      · simp only [if_neg hnear, hsame, Option.some.injEq, exists_eq_left', itemsAt_pushAt, and_self,
          if_true, covers_append, covers_cons]
        have hrow : row ≤ row' ∧ row' ≤ row ↔ row' = row := by omega
        rw [hrow, or_iff_left (not_covers_nil row'), or_comm]
        apply or_congr_left
        rw [or_comm (a := Covers _ _), or_assoc]
  · have hnew : ¬(sheet', col', row') = (sheet, col, row) := by
      intro h
      simp only [Prod.mk.injEq] at h
      exact hkey (Prod.ext h.1.symm h.2.1.symm)
    have hkey' : ¬(sheet = sheet' ∧ col = col') := fun h => hkey (Prod.ext h.1 h.2)
    rw [or_iff_left hnew]
    unfold touch Held
    cases hget : get (sheet, col) s.opened with
    | none => simp only [hother _ hkey]
    | some run =>
      by_cases hnear : row ≤ run.2 + 1 ∧ run.1 ≤ row + 1
      · simp only [if_pos hnear, hother _ hkey]
      · simp only [if_neg hnear, hother _ hkey, itemsAt_pushAt, if_neg hkey']

theorem mem_opened_set {s : KnownNodes} (hinv : s.Inv) {key : String × ℕ} {run : Run}
    (hrun : run.1 ≤ run.2) : ∀ entry ∈ set key run s.opened, entry.2.1 ≤ entry.2.2 := by
  intro entry hentry
  rcases mem_of_mem_set hentry with rfl | hold
  · exact hrun
  · exact hinv.openProper entry hold

theorem literals_touch (s : KnownNodes) (sheet : String) (col row : ℕ) :
    (s.touch sheet col row).literals = s.literals := by
  unfold touch
  split
  · rfl
  · split_ifs <;> rfl

theorem inv_touch {s : KnownNodes} (hinv : s.Inv) (hready : s.ready = false) (sheet : String)
    {col : ℕ} (hcol : 1 ≤ col) (row : ℕ) :
    (s.touch sheet col row).Inv := by
  have hpos (sheet' : String) (col' row' : ℕ)
      (h : (s.touch sheet col row).Held sheet' col' row') : 1 ≤ col' := by
    rcases (held_touch hinv sheet col row sheet' col' row').mp h with hold | hnew
    · exact hinv.colPos sheet' col' row' hold
    · simp only [Prod.mk.injEq] at hnew
      rw [hnew.2.1]
      exact hcol
  have hnotReady {t : KnownNodes} (ht : t.ready = s.ready) (h : t.ready = true) :
      t.opened = [] ∧ t.closed = [] := by
    rw [ht, hready] at h
    cases h
  revert hpos
  unfold touch
  cases hget : get (sheet, col) s.opened with
  | none =>
    intro hpos
    exact { hinv with
      openKeys := nodup_keys_set hinv.openKeys
      openProper := mem_opened_set hinv le_rfl
      colPos := hpos
      settled := hnotReady rfl }
  | some run =>
    have hrun := hinv.openProper _ (mem_of_get hget)
    by_cases hnear : row ≤ run.2 + 1 ∧ run.1 ≤ row + 1
    · simp only [if_pos hnear]
      intro hpos
      refine { hinv with
        openKeys := nodup_keys_set hinv.openKeys
        openProper := mem_opened_set hinv ?_
        colPos := hpos
        settled := hnotReady rfl }
      simp only at hrun ⊢
      split_ifs <;> omega
    · simp only [if_neg hnear]
      intro hpos
      refine { hinv with
        openKeys := nodup_keys_set hinv.openKeys
        openProper := mem_opened_set hinv le_rfl
        closedKeyed := hinv.closedKeyed.pushAt _ _ _
        closedFilled := hinv.closedFilled.extendAt _ _ (List.cons_ne_nil _ _)
        closedProper := ?_
        colPos := hpos
        settled := hnotReady rfl }
      intro sheet' col' run' hrun'
      simp only [itemsAt_pushAt] at hrun'
      split_ifs at hrun' with hkey
      · rcases List.mem_append.mp hrun' with hold | hnew
        · exact hinv.closedProper _ _ run' hold
        · rw [List.mem_singleton.mp hnew]
          exact hrun
      · exact hinv.closedProper _ _ run' hrun'

end Building

section Answers

/-- The set that the index stands for. -/
structure Holds (s : KnownNodes) (ids : Finset String) : Prop where
  inv : s.Inv
  mem_iff : ∀ item, item ∈ ids ↔ item ∈ s.literals ∨
    ∃ sheet col row, s.Held sheet col row ∧ item = nodeId sheet (formatAddr col row)

theorem bang_mem_nodeId (sheet addr : String) : '!' ∈ (nodeId sheet addr).toList := by
  simp [nodeId]

theorem Holds.of_held {s t : KnownNodes} {ids : Finset String} (h : s.Holds ids) (ht : t.Inv)
    (hliterals : t.literals = s.literals)
    (hheld : ∀ sheet col row, t.Held sheet col row ↔ s.Held sheet col row) : t.Holds ids where
  inv := ht
  mem_iff item := by
    rw [h.mem_iff, hliterals]
    simp only [hheld]

theorem holds_finalize {s : KnownNodes} {ids : Finset String} (h : s.Holds ids) :
    s.finalize.Holds ids := by
  obtain ⟨hinv, -, hliterals, hheld⟩ := finalize_spec h.inv
  exact h.of_held hinv hliterals hheld

theorem inv_insert_literal {s : KnownNodes} (hinv : s.Inv) (sheet addr : String) :
    Inv { s with literals := s.literals.insert (nodeId sheet addr) } :=
  { hinv with
    literalsNodup := hinv.literalsNodup.insert
    bangs := by
      intro literal hliteral
      rcases List.mem_insert_iff.mp hliteral with rfl | hold
      · exact bang_mem_nodeId sheet addr
      · exact hinv.bangs literal hold }

theorem holds_add {s : KnownNodes} {ids : Finset String} (h : s.Holds ids) (sheet addr : String) :
    (s.add table sheet addr).Holds (insert (canonicalNodeId table sheet addr) ids) := by
  obtain ⟨t, ht, hready, hadd⟩ : ∃ t : KnownNodes, t.Holds ids ∧ t.ready = false ∧
      s.add table sheet addr = match parseAddr table.decimal addr.toList with
        | none => { t with literals := t.literals.insert (nodeId sheet addr) }
        | some (col, row) => t.touch sheet col row := by
    cases hready : s.ready with
    | true =>
      obtain ⟨hinv, hopen, hliterals, hheld⟩ := reopen_spec h.inv hready
      refine ⟨s.reopen, h.of_held hinv hliterals hheld, hopen, ?_⟩
      simp only [add, hready, if_true]
    | false =>
      refine ⟨s, h, hready, ?_⟩
      simp only [add, hready, Bool.false_eq_true, if_false]
  rw [hadd]
  unfold canonicalNodeId
  cases hparse : parseAddr table.decimal addr.toList with
  | none =>
    refine ⟨inv_insert_literal ht.inv sheet addr, fun item => ?_⟩
    rw [Finset.mem_insert, ht.mem_iff, List.mem_insert_iff, or_assoc]
    rfl
  | some cell =>
    obtain ⟨col, row⟩ := cell
    have hcol : 1 ≤ col := one_le_col_of_parseAddr hparse
    refine ⟨inv_touch ht.inv hready sheet hcol row, fun item => ?_⟩
    rw [Finset.mem_insert, ht.mem_iff, literals_touch, or_left_comm]
    apply or_congr_right
    simp only [held_touch ht.inv, or_and_right, exists_or, Prod.mk.injEq]
    rw [or_comm]
    apply or_congr_right
    constructor
    · rintro rfl
      exact ⟨sheet, col, row, ⟨rfl, rfl, rfl⟩, rfl⟩
    · rintro ⟨_, _, _, ⟨rfl, rfl, rfl⟩, rfl⟩
      rfl

theorem inRuns_iff {s : KnownNodes} (hinv : s.Inv) (item : String) :
    s.inRuns table item = true ↔ ∃ sheet col row,
      Covers (itemsAt sheet col s.rows) row ∧ item = nodeId sheet (formatAddr col row) := by
  constructor
  · intro h
    unfold inRuns at h
    cases hsplit : rsplitBang item.toList with
    | none => simp [hsplit] at h
    | some parts =>
      obtain ⟨sheet, body⟩ := parts
      simp only [hsplit] at h
      cases hparse : parseAddr table.decimal body with
      | none => simp [hparse] at h
      | some cell =>
        obtain ⟨col, row⟩ := cell
        simp only [hparse] at h
        split_ifs at h with hbody
        refine ⟨String.ofList sheet, col, row, ?_, ?_⟩
        · exact (runsHave_iff (hinv.rowsSeparated _ _) row).mp h
        · rw [not_not.mp hbody, ← String.toList_inj, eq_append_of_rsplitBang hsplit]
          simp [nodeId]
  · rintro ⟨sheet, col, row, hcovers, rfl⟩
    have hcol := hinv.colPos sheet col row (.inr (.inr hcovers))
    have hsplit : rsplitBang (nodeId sheet (formatAddr col row)).toList =
        some (sheet.toList, (formatAddr col row).toList) := by
      have hname : (nodeId sheet (formatAddr col row)).toList =
          sheet.toList ++ '!' :: (formatAddr col row).toList := by simp [nodeId]
      rw [hname, rsplitBang_append (bang_notMem_formatAddr col row)]
    unfold inRuns
    simp only [hsplit, parseAddr_formatAddr table row hcol, String.ofList_toList, ne_eq,
      not_true_eq_false, if_false]
    exact (runsHave_iff (hinv.rowsSeparated _ _) row).mpr hcovers

theorem held_iff_rows {s : KnownNodes} (hinv : s.Inv) (hready : s.ready = true) (sheet : String)
    (col row : ℕ) : s.Held sheet col row ↔ Covers (itemsAt sheet col s.rows) row := by
  obtain ⟨hopened, hclosed⟩ := hinv.settled hready
  unfold Held
  rw [hopened, hclosed]
  constructor
  · rintro (⟨run, hrun, -⟩ | hnone | hrows)
    · cases hrun
    · exact absurd hnone (not_covers_nil row)
    · exact hrows
  · exact fun h => .inr (.inr h)

theorem mem_iff_of_ready {s : KnownNodes} {ids : Finset String} (h : s.Holds ids)
    (hready : s.ready = true) (item : String) :
    item ∈ ids ↔ item ∈ s.literals ∨ s.inRuns table item = true := by
  rw [h.mem_iff, inRuns_iff table h.inv]
  simp only [held_iff_rows h.inv hready]

theorem contains_eq {s : KnownNodes} {ids : Finset String} (h : s.Holds ids) (item : String) :
    (s.contains table item).1 = decide (item ∈ ids) ∧ (s.contains table item).2.Holds ids := by
  unfold contains
  by_cases hbang : '!' ∈ item.toList
  · rw [if_neg (not_not.mpr hbang)]
    obtain ⟨hinv, hready, -⟩ := finalize_spec h.inv
    refine ⟨?_, holds_finalize h⟩
    rw [Bool.eq_iff_iff, decide_eq_true_iff,
      mem_iff_of_ready table (holds_finalize h) hready item]
    simp
  · rw [if_pos hbang]
    refine ⟨?_, h⟩
    have hnot : item ∉ ids := by
      rw [h.mem_iff]
      rintro (hliteral | ⟨sheet, col, row, -, rfl⟩)
      · exact hbang (h.inv.bangs item hliteral)
      · exact hbang (bang_mem_nodeId _ _)
    simp [hnot]

def cellIds (s : KnownNodes) : List String :=
  (flat s.rows).flatMap fun part =>
    (numbers part.2.2).map fun row => nodeId part.1 (formatAddr part.2.1 row)

theorem itemsAt_of_mem_flat {s : KnownNodes} (hinv : s.Inv) {part : String × ℕ × List Run}
    (h : part ∈ flat s.rows) : itemsAt part.1 part.2.1 s.rows = part.2.2 := by
  rw [itemsAt, hinv.rowsKeyed.mem_flat.mp h]
  rfl

theorem mem_cellIds {s : KnownNodes} (hinv : s.Inv) (item : String) :
    item ∈ s.cellIds ↔ s.inRuns table item = true := by
  rw [inRuns_iff table hinv, cellIds, List.mem_flatMap]
  simp only [List.mem_map, mem_numbers]
  constructor
  · rintro ⟨part, hpart, row, hrow, rfl⟩
    exact ⟨part.1, part.2.1, row, itemsAt_of_mem_flat hinv hpart ▸ hrow, rfl⟩
  · rintro ⟨sheet, col, row, hcovers, rfl⟩
    unfold itemsAt at hcovers
    cases hget : get col (groupsAt sheet s.rows) with
    | none =>
      rw [hget] at hcovers
      exact absurd hcovers (not_covers_nil row)
    | some runs =>
      rw [hget] at hcovers
      exact ⟨_, hinv.rowsKeyed.mem_flat.mpr hget, row, hcovers, rfl⟩

theorem nodup_cellIds {s : KnownNodes} (hinv : s.Inv) : s.cellIds.Nodup := by
  have hcol {part : String × ℕ × List Run} (hpart : part ∈ flat s.rows) {row : ℕ}
      (hrow : row ∈ numbers part.2.2) : 1 ≤ part.2.1 := by
    refine hinv.colPos part.1 part.2.1 row (.inr (.inr ?_))
    rw [itemsAt_of_mem_flat hinv hpart]
    exact mem_numbers.mp hrow
  have hinj {part part' : String × ℕ × List Run} (hpart : part ∈ flat s.rows)
      (hpart' : part' ∈ flat s.rows) {row row' : ℕ} (hrow : row ∈ numbers part.2.2)
      (hrow' : row' ∈ numbers part'.2.2)
      (h : nodeId part.1 (formatAddr part.2.1 row) = nodeId part'.1 (formatAddr part'.2.1 row')) :
      (part.1, part.2.1) = (part'.1, part'.2.1) ∧ row = row' := by
    obtain ⟨hsheet, haddr⟩ :=
      nodeId_inj (bang_notMem_formatAddr _ _) (bang_notMem_formatAddr _ _) h
    obtain ⟨hcols, hrows⟩ := formatAddr_inj (hcol hpart hrow) (hcol hpart' hrow') haddr
    exact ⟨Prod.ext hsheet hcols, hrows⟩
  have hkeys := List.pairwise_map.mp hinv.rowsKeyed.nodup_flat
  unfold cellIds
  refine List.nodup_flatMap.mpr ⟨fun part hpart => ?_, ?_⟩
  · have hnumbers : (numbers part.2.2).Nodup := by
      rw [← itemsAt_of_mem_flat hinv hpart]
      exact nodup_numbers (hinv.rowsSeparated _ _)
    refine List.Nodup.map_on (fun row hrow row' hrow' h => ?_) hnumbers
    exact (hinj hpart hpart hrow hrow' h).2
  · refine List.Pairwise.imp_of_mem ?_ hkeys
    intro part part' hpart hpart' hne item hitem hitem'
    obtain ⟨row, hrow, rfl⟩ := List.mem_map.mp hitem
    obtain ⟨row', hrow', h⟩ := List.mem_map.mp hitem'
    exact hne (hinj hpart hpart' hrow hrow' h.symm).1

theorem length_flatMap_eq_sum {α β : Type} {l : List α} {f : α → List β} {g : α → List ℕ}
    (h : ∀ a ∈ l, (f a).length = (g a).sum) : (l.flatMap f).length = (l.flatMap g).sum := by
  induction l with
  | nil => rfl
  | cons a l ih =>
    obtain ⟨ha, hl⟩ := List.forall_mem_cons.mp h
    rw [List.flatMap_cons, List.flatMap_cons, List.length_append, List.sum_append, ha, ih hl]

theorem length_cellIds {s : KnownNodes} (hinv : s.Inv) :
    s.cellIds.length = (s.rows.flatMap fun group => group.2.flatMap fun item =>
      item.2.map fun run => run.2 - run.1 + 1).sum := by
  have hproper {group : String × List (ℕ × List Run)} (hgroup : group ∈ s.rows)
      {item : ℕ × List Run} (hitem : item ∈ group.2) : Proper item.2 := by
    have hpart : (group.1, item.1, item.2) ∈ flat s.rows :=
      List.mem_flatMap.mpr ⟨group, hgroup, List.mem_map_of_mem hitem⟩
    rw [← itemsAt_of_mem_flat hinv hpart]
    exact (hinv.rowsSeparated _ _).1
  unfold cellIds flat
  rw [List.flatMap_assoc]
  apply length_flatMap_eq_sum
  intro group hgroup
  rw [List.flatMap_map]
  apply length_flatMap_eq_sum
  intro item hitem
  rw [List.length_map]
  exact length_numbers (hproper hgroup hitem)

theorem len_eq {s : KnownNodes} {ids : Finset String} (h : s.Holds ids) :
    (s.len table).1 = ids.card ∧ (s.len table).2.Holds ids := by
  obtain ⟨-, hready, -⟩ := finalize_spec h.inv
  have ht := holds_finalize h
  refine ⟨?_, ht⟩
  unfold len
  simp only
  generalize s.finalize = t at hready ht
  have hids : ids =
      (t.cellIds ++ t.literals.filter fun literal => !t.inRuns table literal).toFinset := by
    ext item
    rw [mem_iff_of_ready table ht hready, List.mem_toFinset, List.mem_append,
      mem_cellIds table ht.inv, List.mem_filter]
    cases t.inRuns table item <;> simp
  have hnodup : (t.cellIds ++ t.literals.filter fun literal => !t.inRuns table literal).Nodup := by
    refine List.nodup_append.mpr ⟨nodup_cellIds ht.inv, ht.inv.literalsNodup.filter _, ?_⟩
    rintro item hcell _ hliteral rfl
    rw [mem_cellIds table ht.inv] at hcell
    have hnot := (List.mem_filter.mp hliteral).2
    rw [hcell] at hnot
    cases hnot
  rw [hids, List.toFinset_card_of_nodup hnodup, List.length_append, length_cellIds ht.inv]

theorem exists_covers {d : Nested String ℕ (List Run)} (hkeyed : WellKeyed d) (hfilled : Filled d)
    (hproper : ∀ sheet col, Proper (itemsAt sheet col d)) (hne : d ≠ []) :
    ∃ sheet col row, Covers (itemsAt sheet col d) row := by
  obtain ⟨group, rest, hd⟩ := List.exists_cons_of_ne_nil hne
  have hgroup : group ∈ d := hd ▸ List.mem_cons_self
  obtain ⟨hcolumns, hitems⟩ := hfilled group hgroup
  obtain ⟨item, columns, hcolumn⟩ := List.exists_cons_of_ne_nil hcolumns
  have hitem : item ∈ group.2 := hcolumn ▸ List.mem_cons_self
  obtain ⟨run, runs, hruns⟩ := List.exists_cons_of_ne_nil (hitems item hitem)
  have hpart : (group.1, item.1, item.2) ∈ flat d :=
    List.mem_flatMap.mpr ⟨group, hgroup, List.mem_map_of_mem hitem⟩
  have hat : itemsAt group.1 item.1 d = item.2 := by
    rw [itemsAt, hkeyed.mem_flat.mp hpart]
    rfl
  have hrun : run ∈ itemsAt group.1 item.1 d := by
    rw [hat, hruns]
    exact List.mem_cons_self
  exact ⟨group.1, item.1, run.1, run, hrun, le_rfl, hproper _ _ run hrun⟩

theorem ne_nil_of_covers {d : Nested String ℕ (List Run)} {sheet : String} {col row : ℕ}
    (h : Covers (itemsAt sheet col d) row) : d ≠ [] := by
  rintro rfl
  exact not_covers_nil row h

theorem truth_eq {s : KnownNodes} {ids : Finset String} (h : s.Holds ids) :
    s.truth = decide (0 < ids.card) := by
  have hheld : (∃ sheet col row, s.Held sheet col row) ↔
      s.opened ≠ [] ∨ s.closed ≠ [] ∨ s.rows ≠ [] := by
    constructor
    · rintro ⟨sheet, col, row, ⟨run, hget, -⟩ | hclosed | hrows⟩
      · exact .inl (List.ne_nil_of_mem (mem_of_get hget))
      · exact .inr (.inl (ne_nil_of_covers hclosed))
      · exact .inr (.inr (ne_nil_of_covers hrows))
    · rintro (hopened | hclosed | hrows)
      · obtain ⟨entry, rest, hcons⟩ := List.exists_cons_of_ne_nil hopened
        have hentry : entry ∈ s.opened := hcons ▸ List.mem_cons_self
        exact ⟨entry.1.1, entry.1.2, entry.2.1,
          .inl ⟨entry.2, get_of_mem h.inv.openKeys hentry, le_rfl, h.inv.openProper entry hentry⟩⟩
      · obtain ⟨sheet, col, row, hcovers⟩ :=
          exists_covers h.inv.closedKeyed h.inv.closedFilled h.inv.closedProper hclosed
        exact ⟨sheet, col, row, .inr (.inl hcovers)⟩
      · obtain ⟨sheet, col, row, hcovers⟩ := exists_covers h.inv.rowsKeyed h.inv.rowsFilled
          (fun sheet col => (h.inv.rowsSeparated sheet col).1) hrows
        exact ⟨sheet, col, row, .inr (.inr hcovers)⟩
  have hrows : (s.rows.any fun group => !group.2.isEmpty) = true ↔ s.rows ≠ [] := by
    constructor
    · intro hany hnil
      rw [hnil] at hany
      cases hany
    · intro hne
      obtain ⟨group, rest, hcons⟩ := List.exists_cons_of_ne_nil hne
      have hgroup : group ∈ s.rows := hcons ▸ List.mem_cons_self
      exact List.any_eq_true.mpr ⟨group, hgroup, by simpa using (h.inv.rowsFilled group hgroup).1⟩
  have hids : 0 < ids.card ↔ s.literals ≠ [] ∨ ∃ sheet col row, s.Held sheet col row := by
    rw [Finset.card_pos]
    constructor
    · rintro ⟨item, hitem⟩
      rcases (h.mem_iff item).mp hitem with hliteral | ⟨sheet, col, row, hcell, -⟩
      · exact .inl (List.ne_nil_of_mem hliteral)
      · exact .inr ⟨sheet, col, row, hcell⟩
    · rintro (hliteral | ⟨sheet, col, row, hcell⟩)
      · obtain ⟨literal, rest, hcons⟩ := List.exists_cons_of_ne_nil hliteral
        exact ⟨literal, (h.mem_iff literal).mpr (.inl (hcons ▸ List.mem_cons_self))⟩
      · exact ⟨_, (h.mem_iff _).mpr (.inr ⟨sheet, col, row, hcell, rfl⟩)⟩
  rw [Bool.eq_iff_iff, decide_eq_true_iff, hids, hheld, ← hrows]
  unfold truth
  by_cases hparts : (!s.literals.isEmpty || !s.opened.isEmpty || !s.closed.isEmpty) = true
  · rw [if_pos hparts]
    simp only [Bool.or_eq_true, Bool.not_eq_true', List.isEmpty_eq_false_iff] at hparts
    simp only [true_iff]
    rcases hparts with (hliteral | hopened) | hclosed
    · exact .inl hliteral
    · exact .inr (.inl hopened)
    · exact .inr (.inr (.inl hclosed))
  · rw [if_neg hparts]
    simp only [Bool.or_eq_true, Bool.not_eq_true', List.isEmpty_eq_false_iff, not_or] at hparts
    obtain ⟨⟨hliteral, hopened⟩, hclosed⟩ := hparts
    simp only [hliteral, hopened, hclosed, false_or]

theorem holds_empty : Holds {} ∅ where
  inv := inv_empty
  mem_iff item := by
    refine iff_of_false (Finset.notMem_empty item) ?_
    rintro (hliteral | ⟨sheet, col, row, hcell, -⟩)
    · cases hliteral
    · have hcol := inv_empty.colPos sheet col row hcell
      rcases hcell with ⟨run, hrun, -⟩ | h | h
      · cases hrun
      · exact not_covers_nil row h
      · exact not_covers_nil row h

theorem run_spec (call : Call) {s : KnownNodes} {ids : Finset String} (h : s.Holds ids) :
    (call.run table s).1 = (call.onSet table ids).1 ∧
      (call.run table s).2.Holds (call.onSet table ids).2 := by
  cases call with
  | add sheet addr => exact ⟨rfl, holds_add table h sheet addr⟩
  | contains item =>
    obtain ⟨hanswer, hnext⟩ := contains_eq table h item
    exact ⟨congrArg Answer.truth hanswer, hnext⟩
  | len =>
    obtain ⟨hanswer, hnext⟩ := len_eq table h
    exact ⟨congrArg Answer.count hanswer, hnext⟩
  | truth => exact ⟨congrArg Answer.truth (truth_eq h), h⟩
  | clear => exact ⟨rfl, holds_empty⟩

theorem answers_eq_of_holds (calls : List Call) {s : KnownNodes} {ids : Finset String}
    (h : s.Holds ids) :
    answers (Call.run table) calls s = answers (Call.onSet table) calls ids := by
  induction calls generalizing s ids with
  | nil => rfl
  | cons call calls ih =>
    obtain ⟨hanswer, hnext⟩ := run_spec table call h
    simp only [answers, hanswer, ih hnext]

/-- Whatever is called in whatever order, the packed index answers as a plain set of the
canonical ids of the pairs added since the last clear. -/
theorem answers_eq_onSet (calls : List Call) :
    answers (Call.run table) calls {} = answers (Call.onSet table) calls ∅ :=
  answers_eq_of_holds table calls holds_empty

end Answers

end KnownNodes

end FinanceContext
