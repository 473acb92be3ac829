import FinanceContext.IntervalRuns
import FinanceContext.NestedGroups
import FinanceContext.NodeCodecs
import FinanceContext.PresenceRows

namespace FinanceContext.Sheets

open Csr Dictionaries IntervalRuns NestedGroups

/-- The open run of each column, and the runs put away. -/
structure RunTable where
  openRuns : List ((String × ℕ) × Run) := []
  closed : Nested String ℕ (List Run) := []

def RunTable.touchRun (table : RunTable) (sheet : String) (col start stop : ℕ) : RunTable :=
  let (start, stop) := if stop < start then (stop, start) else (start, stop)
  match get (sheet, col) table.openRuns with
  | none => { table with openRuns := set (sheet, col) (start, stop) table.openRuns }
  | some run =>
    if start ≤ run.2 + 1 ∧ run.1 ≤ stop + 1 then
      { table with
        openRuns := set (sheet, col) (min run.1 start, max run.2 stop) table.openRuns }
    else
      { openRuns := set (sheet, col) (start, stop) table.openRuns
        closed := pushAt sheet col run table.closed }

def RunTable.closeRuns (table : RunTable) : Nested String ℕ (List Run) :=
  mapItems mergeRuns (table.openRuns.foldl
    (fun closed entry => pushAt entry.1.1 entry.1.2 entry.2 closed) table.closed)

/-- A row of the presence table; a table without ends has one cell a row. -/
structure PresenceRow where
  sheet : String
  addr : String
  presence : PresenceKind
  rowEnd : Option ℕ

structure PresenceIndex where
  populated : Nested String ℕ (List Run)
  blanks : Nested String ℕ (List Run)

structure Loading where
  values : RunTable := {}
  blanks : RunTable := {}

section Load

variable (chars : CharTable)

def Loading.read (st : Loading) (row : PresenceRow) : Loading :=
  match parseAddr chars.decimal row.addr.toList with
  | none => st
  | some (col, start) =>
    let stop := row.rowEnd.getD start
    match row.presence with
    | .populated => { st with values := st.values.touchRun row.sheet col start stop }
    | .styledBlank => { st with blanks := st.blanks.touchRun row.sheet col start stop }

def loadPresence (rows : List PresenceRow) : PresenceIndex :=
  let st := rows.foldl (Loading.read chars) {}
  ⟨st.values.closeRuns, st.blanks.closeRuns⟩

def PresenceIndex.get (index : PresenceIndex) (target : String) : Option PresenceKind :=
  match targetCell chars target with
  | none => none
  | some (sheet, col, row) =>
    if runsHave (itemsAt sheet col index.populated) row then some .populated
    else if runsHave (itemsAt sheet col index.blanks) row then some .styledBlank
    else none

end Load

namespace RunTable

variable {table : RunTable} {sheet s : String} {col c start stop x : ℕ}

def Holds (table : RunTable) (sheet : String) (col x : ℕ) : Prop :=
  (∃ run, Dictionaries.get (sheet, col) table.openRuns = some run ∧ run.1 ≤ x ∧ x ≤ run.2) ∨
    Covers (itemsAt sheet col table.closed) x

structure Ok (table : RunTable) : Prop where
  nodup : (table.openRuns.map Prod.fst).Nodup
  openProper : ∀ entry ∈ table.openRuns, entry.2.1 ≤ entry.2.2
  closedProper : ∀ sheet col, Proper (itemsAt sheet col table.closed)

theorem ok_empty : Ok {} := ⟨List.nodup_nil, List.forall_mem_nil _, fun _ _ =>
  List.forall_mem_nil _⟩

theorem Ok.setOpen (h : table.Ok) {run : Run} (hrun : run.1 ≤ run.2) :
    Ok { table with openRuns := set (sheet, col) run table.openRuns } := by
  refine ⟨nodup_keys_set h.nodup, fun entry hentry => ?_, h.closedProper⟩
  rcases mem_of_mem_set hentry with rfl | hmem
  · exact hrun
  · exact h.openProper entry hmem

theorem holds_setOpen {run : Run} :
    Holds { table with openRuns := set (sheet, col) run table.openRuns } s c x ↔
      if (sheet, col) = (s, c) then run.1 ≤ x ∧ x ≤ run.2 ∨ Covers (itemsAt s c table.closed) x
      else table.Holds s c x := by
  unfold Holds
  rw [get_set]
  split_ifs with hkey
  · simp
  · rfl

theorem Ok.touchRun (h : table.Ok) (sheet : String) (col : ℕ) (hle : start ≤ stop) :
    (table.touchRun sheet col start stop).Ok ∧ ∀ s c x,
      (table.touchRun sheet col start stop).Holds s c x ↔
        table.Holds s c x ∨ (sheet, col) = (s, c) ∧ start ≤ x ∧ x ≤ stop := by
  unfold RunTable.touchRun
  rw [if_neg (by omega)]
  dsimp only
  cases hget : Dictionaries.get (sheet, col) table.openRuns with
  | none =>
    refine ⟨h.setOpen hle, fun s c x => ?_⟩
    rw [holds_setOpen]
    split_ifs with hkey
    · obtain ⟨rfl, rfl⟩ := Prod.mk.inj hkey
      simp [Holds, hget, or_comm]
    · simp [hkey]
  | some run =>
    have hrun := h.openProper _ (mem_of_get hget)
    dsimp only at hrun ⊢
    split_ifs with hnear
    · refine ⟨h.setOpen (by dsimp only; omega), fun s c x => ?_⟩
      rw [holds_setOpen]
      split_ifs with hkey
      · obtain ⟨rfl, rfl⟩ := Prod.mk.inj hkey
        have hunion : min run.1 start ≤ x ∧ x ≤ max run.2 stop ↔
            (run.1 ≤ x ∧ x ≤ run.2) ∨ start ≤ x ∧ x ≤ stop := by omega
        simp only [Holds, hget, Option.some.injEq, exists_eq_left', hunion, true_and]
        exact or_right_comm
      · simp [hkey]
    · refine ⟨⟨nodup_keys_set h.nodup, (h.setOpen hle).openProper, fun s c => ?_⟩,
        fun s c x => ?_⟩
      · rw [itemsAt_pushAt]
        split_ifs
        · exact List.forall_mem_append.mpr
            ⟨h.closedProper s c, List.forall_mem_singleton.mpr hrun⟩
        · exact h.closedProper s c
      · unfold Holds
        rw [get_set, itemsAt_pushAt]
        by_cases hkey : (sheet, col) = (s, c)
        · obtain ⟨rfl, rfl⟩ := Prod.mk.inj hkey
          have hlast : Covers [run] x ↔ run.1 ≤ x ∧ x ≤ run.2 := by simp [Covers]
          simp only [if_pos, and_self, covers_append, hlast, hget, Option.some.injEq,
            exists_eq_left', true_and]
          exact or_comm.trans (or_congr_left or_comm)
        · have hskip : ¬(sheet = s ∧ col = c) := fun hboth => hkey (Prod.ext hboth.1 hboth.2)
          rw [if_neg hkey, if_neg hskip]
          simp only [hkey, false_and, or_false]

theorem Ok.closeRuns (h : table.Ok) (sheet : String) (col x : ℕ) :
    runsHave (itemsAt sheet col table.closeRuns) x = true ↔ table.Holds sheet col x := by
  have hfold (entries : List ((String × ℕ) × Run)) (closed : Nested String ℕ (List Run)) :
      entries.foldl (fun closed entry => pushAt entry.1.1 entry.1.2 entry.2 closed) closed =
        extendAll closed (entries.map fun entry => (entry.1.1, entry.1.2, [entry.2])) := by
    rw [extendAll, List.foldl_map]
    rfl
  have hmem (run : Run) : run ∈ itemsAt sheet col (table.openRuns.foldl
      (fun closed entry => pushAt entry.1.1 entry.1.2 entry.2 closed) table.closed) ↔
      run ∈ itemsAt sheet col table.closed ∨ ((sheet, col), run) ∈ table.openRuns := by
    rw [hfold, mem_itemsAt_extendAll]
    apply or_congr_right
    constructor
    · rintro ⟨part, hpart, rfl, rfl, hrun⟩
      obtain ⟨entry, hentry, rfl⟩ := List.mem_map.mp hpart
      rwa [List.mem_singleton.mp hrun]
    · intro hrun
      exact ⟨_, List.mem_map_of_mem hrun, rfl, rfl, List.mem_singleton_self run⟩
  have hproper : Proper (itemsAt sheet col (table.openRuns.foldl
      (fun closed entry => pushAt entry.1.1 entry.1.2 entry.2 closed) table.closed)) := by
    intro run hrun
    rcases (hmem run).mp hrun with hclosed | hopen
    · exact h.closedProper sheet col run hclosed
    · exact h.openProper _ hopen
  obtain ⟨hseparated, hcovers⟩ := mergeRuns_spec hproper
  rw [RunTable.closeRuns, itemsAt_mapItems mergeRuns mergeRuns_nil, runsHave_iff hseparated,
    hcovers]
  constructor
  · rintro ⟨run, hrun, hx⟩
    rcases (hmem run).mp hrun with hclosed | hopen
    · exact .inr ⟨run, hclosed, hx⟩
    · exact .inl ⟨run, get_of_mem h.nodup hopen, hx⟩
  · rintro (⟨run, hrun, hx⟩ | ⟨run, hrun, hx⟩)
    · exact ⟨run, (hmem run).mpr (.inr (mem_of_get hrun)), hx⟩
    · exact ⟨run, (hmem run).mpr (.inl hrun), hx⟩

end RunTable

section Loaded

variable {chars : CharTable}

/-- The cells a presence row of a kind stands for. -/
def PresenceRow.Names (chars : CharTable) (row : PresenceRow) (kind : PresenceKind)
    (sheet : String) (col x : ℕ) : Prop :=
  row.presence = kind ∧ row.sheet = sheet ∧
    ∃ start, parseAddr chars.decimal row.addr.toList = some (col, start) ∧ start ≤ x ∧
      x ≤ row.rowEnd.getD start

/-- No row ends above its address. -/
def ProperRows (chars : CharTable) (rows : List PresenceRow) : Prop :=
  ∀ row ∈ rows, ∀ col start, parseAddr chars.decimal row.addr.toList = some (col, start) →
    start ≤ row.rowEnd.getD start

/-- The tables after some rows hold the cells the rows stand for. -/
structure Loaded (chars : CharTable) (rows : List PresenceRow) (st : Loading) : Prop where
  valuesOk : st.values.Ok
  blanksOk : st.blanks.Ok
  values : ∀ sheet col x, st.values.Holds sheet col x ↔
    ∃ row ∈ rows, row.Names chars .populated sheet col x
  blanks : ∀ sheet col x, st.blanks.Holds sheet col x ↔
    ∃ row ∈ rows, row.Names chars .styledBlank sheet col x

theorem Loaded.step {rows : List PresenceRow} {st : Loading} (h : Loaded chars rows st)
    (row : PresenceRow) (hproper : ProperRows chars [row]) :
    Loaded chars (rows ++ [row]) (st.read chars row) := by
  have hsplit (kind : PresenceKind) (sheet : String) (col x : ℕ) :
      (∃ r ∈ rows ++ [row], r.Names chars kind sheet col x) ↔
        (∃ r ∈ rows, r.Names chars kind sheet col x) ∨ row.Names chars kind sheet col x := by
    simp [or_and_right, exists_or]
  unfold Loading.read
  cases hparse : parseAddr chars.decimal row.addr.toList with
  | none =>
    have hnone (kind : PresenceKind) (sheet : String) (col x : ℕ) :
        ¬row.Names chars kind sheet col x := by simp [PresenceRow.Names, hparse]
    refine ⟨h.valuesOk, h.blanksOk, fun sheet col x => ?_, fun sheet col x => ?_⟩
    · rw [hsplit, or_iff_left (hnone _ _ _ _), h.values]
    · rw [hsplit, or_iff_left (hnone _ _ _ _), h.blanks]
  | some place =>
    obtain ⟨col, start⟩ := place
    have hle := hproper row (List.mem_singleton_self row) col start hparse
    have hnames (kind : PresenceKind) (sheet : String) (c x : ℕ) :
        row.Names chars kind sheet c x ↔ row.presence = kind ∧ (row.sheet, col) = (sheet, c) ∧
          start ≤ x ∧ x ≤ row.rowEnd.getD start := by
      simp only [PresenceRow.Names, hparse, Option.some.injEq, Prod.mk.injEq]
      constructor
      · rintro ⟨hkind, hsheet, first, ⟨rfl, rfl⟩, hx⟩
        exact ⟨hkind, ⟨hsheet, rfl⟩, hx⟩
      · rintro ⟨hkind, ⟨hsheet, rfl⟩, hx⟩
        exact ⟨hkind, hsheet, start, ⟨rfl, rfl⟩, hx⟩
    dsimp only
    cases hkind : row.presence with
    | populated =>
      obtain ⟨hok, hholds⟩ := h.valuesOk.touchRun row.sheet col hle
      refine ⟨hok, h.blanksOk, fun sheet c x => ?_, fun sheet c x => ?_⟩
      · rw [hsplit, hnames, hholds, h.values, hkind]
        simp
      · rw [hsplit, hnames, h.blanks, hkind]
        simp
    | styledBlank =>
      obtain ⟨hok, hholds⟩ := h.blanksOk.touchRun row.sheet col hle
      refine ⟨h.valuesOk, hok, fun sheet c x => ?_, fun sheet c x => ?_⟩
      · rw [hsplit, hnames, h.values, hkind]
        simp
      · rw [hsplit, hnames, hholds, h.blanks, hkind]
        simp

theorem loaded_foldl {rows : List PresenceRow} (hproper : ProperRows chars rows) :
    Loaded chars rows (rows.foldl (Loading.read chars) {}) := by
  induction rows using List.reverseRecOn with
  | nil =>
    refine ⟨RunTable.ok_empty, RunTable.ok_empty, ?_, ?_⟩ <;>
      simp [RunTable.Holds, Covers, itemsAt, groupsAt]
  | append_singleton rows row ih =>
    obtain ⟨hrows, hrow⟩ := List.forall_mem_append.mp hproper
    rw [List.foldl_append]
    exact (ih hrows).step row hrow

end Loaded

end FinanceContext.Sheets
