import FinanceContext.RangeExpansion

namespace FinanceContext

open Csr Dictionaries

def lagsAt (source : String) (lags : List (String × List String)) : List String :=
  (get source lags).getD []

theorem mem_addLag {lags : List (String × List String)} {source s l lag : String} :
    lag ∈ lagsAt s (addLag lags source l) ↔ lag ∈ lagsAt s lags ∨ source = s ∧ lag = l := by
  unfold lagsAt addLag
  dsimp only
  rw [get_set]
  by_cases hs : source = s
  · subst hs
    rw [if_pos rfl, Option.getD_some]
    split_ifs with hl
    · constructor
      · exact .inl
      · rintro (h | ⟨-, rfl⟩)
        · exact h
        · exact hl
    · simp
  · simp [hs]

theorem mem_lagsAt_foldl {α : Type}
    {step : List (String × List String) → α → List (String × List String)}
    {P : α → String → String → Prop}
    (hstep : ∀ lags a s lag, lag ∈ lagsAt s (step lags a) ↔ lag ∈ lagsAt s lags ∨ P a s lag)
    (items : List α) (lags : List (String × List String)) (s lag : String) :
    lag ∈ lagsAt s (items.foldl step lags) ↔
      lag ∈ lagsAt s lags ∨ ∃ a ∈ items, P a s lag := by
  induction items generalizing lags with
  | nil => simp
  | cons a items ih =>
    rw [List.foldl_cons, ih, hstep, or_assoc]
    simp

theorem mem_lagsBySource {edges : List CellEdge} {s lag : String} :
    lag ∈ lagsAt s (lagsBySource edges) ↔
      ∃ edge ∈ edges, edge.source = s ∧ s ≠ "" ∧ edge.periodLag = some lag := by
  unfold lagsBySource
  rw [mem_lagsAt_foldl (P := fun edge s lag => edge.source = s ∧ s ≠ "" ∧
    edge.periodLag = some lag)]
  · simp [lagsAt]
  · intro lags edge s lag
    cases hlag : edge.periodLag with
    | none => simp
    | some l =>
      dsimp only
      by_cases hempty : edge.source = ""
      · rw [if_pos hempty]
        constructor
        · exact .inl
        · rintro (h | ⟨rfl, hne, -⟩)
          · exact h
          · exact absurd hempty hne
      · rw [if_neg hempty, mem_addLag]
        constructor
        · rintro (h | ⟨rfl, rfl⟩)
          · exact .inl h
          · exact .inr ⟨rfl, hempty, rfl⟩
        · rintro (h | ⟨rfl, -, h⟩)
          · exact .inl h
          · exact .inr ⟨rfl, (Option.some.inj h).symm⟩

section Lags

variable (text : GraphText) (periods : PeriodByCell) (usage : SheetUsage)

theorem mem_memberPeriods {node : RangeNode} {period : Option String} :
    period ∈ memberPeriods periods usage node ↔
      ∃ col ∈ memberColumns usage node, period = get (node.sheet, col) periods := by
  unfold memberPeriods
  rw [List.mem_insertionSort, List.mem_dedup, List.mem_map]
  constructor
  · rintro ⟨col, hcol, rfl⟩
    exact ⟨col, hcol, rfl⟩
  · rintro ⟨col, hcol, rfl⟩
    exact ⟨col, hcol, rfl⟩

theorem mem_addRangeLags {lags : List (String × List String)}
    {users : List (String × RangeNode)} {s lag : String} :
    lag ∈ lagsAt s (addRangeLags text periods usage lags users) ↔
      lag ∈ lagsAt s lags ∨ ∃ node, (s, node) ∈ users ∧ ∃ col ∈ memberColumns usage node,
        lag = lagBetween text (periodOf text periods s) (get (node.sheet, col) periods) := by
  unfold addRangeLags
  rw [mem_lagsAt_foldl (P := fun user s lag => user.1 = s ∧
    ∃ col ∈ memberColumns usage user.2,
      lag = lagBetween text (periodOf text periods s) (get (user.2.sheet, col) periods))]
  · constructor
    · rintro (h | ⟨⟨source, node⟩, huser, rfl, hcol⟩)
      · exact .inl h
      · exact .inr ⟨node, huser, hcol⟩
    · rintro (h | ⟨node, huser, hcol⟩)
      · exact .inl h
      · exact .inr ⟨(s, node), huser, rfl, hcol⟩
  · rintro lags ⟨source, node⟩ s lag
    dsimp only
    rw [mem_lagsAt_foldl (P := fun period s lag => source = s ∧
      lag = lagBetween text (periodOf text periods source) period)]
    · constructor
      · rintro (h | ⟨period, hperiod, rfl, rfl⟩)
        · exact .inl h
        · obtain ⟨col, hcol, rfl⟩ := (mem_memberPeriods periods usage).mp hperiod
          exact .inr ⟨rfl, col, hcol, rfl⟩
      · rintro (h | ⟨rfl, col, hcol, rfl⟩)
        · exact .inl h
        · exact .inr ⟨_, (mem_memberPeriods periods usage).mpr ⟨col, hcol, rfl⟩, rfl, rfl⟩
    · intro lags period s lag
      exact mem_addLag

theorem classifyFormula_congr {lags lags' : List String}
    (h : ∀ lag, lag ≠ "unaligned" → (lag ∈ lags ↔ lag ∈ lags')) (formula : Option String)
    (refs : List String) :
    classifyFormula text formula refs lags = classifyFormula text formula refs lags' := by
  have hnumbers (n : ℤ) : n ∈ lagNumbers text lags ↔ n ∈ lagNumbers text lags' := by
    unfold lagNumbers
    rw [List.mem_filterMap, List.mem_filterMap]
    constructor
    · rintro ⟨lag, hlag, hn⟩
      have hne : lag ≠ "unaligned" := by
        rintro rfl
        simp at hn
      exact ⟨lag, (h lag hne).mp hlag, hn⟩
    · rintro ⟨lag, hlag, hn⟩
      have hne : lag ≠ "unaligned" := by
        rintro rfl
        simp at hn
      exact ⟨lag, (h lag hne).mpr hlag, hn⟩
  have hfilter (p : ℤ → Bool) :
      (lagNumbers text lags).filter p = [] ↔ (lagNumbers text lags').filter p = [] := by
    rw [List.filter_eq_nil_iff, List.filter_eq_nil_iff]
    exact forall_congr' fun n => imp_congr (hnumbers n) Iff.rfl
  have hall : (∀ n ∈ (lagNumbers text lags).filter (· < 0), n = -1) ↔
      ∀ n ∈ (lagNumbers text lags').filter (· < 0), n = -1 := by
    refine forall_congr' fun n => imp_congr ?_ Iff.rfl
    rw [List.mem_filter, List.mem_filter, hnumbers]
  unfold classifyFormula
  simp only [ne_eq, hfilter, hall]

end Lags

theorem one_le_colToIndex {letters : List Char} (h : letters ≠ [])
    (hletters : ∀ ch ∈ letters, isLetter ch = true) :
    1 ≤ colToIndex (letters.map upperLetter) := by
  apply one_le_colToIndex_of_forall (by simpa using h)
  intro ch hch
  obtain ⟨letter, hmem, rfl⟩ := List.mem_map.mp hch
  have hlow : 65 ≤ letter.toNat := by
    have hletter := hletters letter hmem
    simp only [isLetter, Bool.or_eq_true, decide_eq_true_eq] at hletter
    rcases hletter with (((halpha | rfl) | rfl) | rfl) | rfl
    · exact (alpha_range halpha).1
    all_goals decide
  unfold upperLetter
  split_ifs
  · decide
  · decide
  · exact le_toNat_toUpper hlow

theorem one_le_of_takeCol {chars rest : List Char} {col : ℕ}
    (h : takeCol chars = some (col, rest)) : 1 ≤ col := by
  unfold takeCol at h
  dsimp only at h
  split_ifs at h with hempty
  obtain ⟨rfl, -⟩ := Prod.mk.inj (Option.some.inj h)
  apply one_le_colToIndex
  · simpa using hempty
  · intro ch hch
    exact List.mem_takeWhile_imp hch

theorem exists_of_takeEnds {α : Type} {take : List Char → Option (α × List Char)}
    {chars : List Char} {a b : α} (h : takeEnds take chars = some (a, b)) :
    (∃ rest, take chars = some (a, rest)) ∧ ∃ chars' rest, take chars' = some (b, rest) := by
  obtain ⟨⟨a', mid⟩, ha, h⟩ := Option.bind_eq_some_iff.mp h
  obtain ⟨afterColon, -, h⟩ := Option.bind_eq_some_iff.mp h
  obtain ⟨⟨b', last⟩, hb, h⟩ := Option.bind_eq_some_iff.mp h
  dsimp only at h
  split_ifs at h
  obtain ⟨rfl, rfl⟩ := Prod.mk.inj (Option.some.inj h)
  exact ⟨⟨mid, ha⟩, afterColon, last, hb⟩

theorem one_le_of_takeCell {decimal : Char → Option ℕ} {chars rest : List Char} {cell : ℕ × ℕ}
    (h : takeCell decimal chars = some (cell, rest)) : 1 ≤ cell.1 := by
  obtain ⟨⟨col, mid⟩, hcol, h⟩ := Option.bind_eq_some_iff.mp h
  obtain ⟨⟨row, last⟩, -, h⟩ := Option.bind_eq_some_iff.mp h
  obtain ⟨rfl, -⟩ := Prod.mk.inj (Option.some.inj h)
  exact one_le_of_takeCol hcol

theorem bounds_of_rectangle {decimal : Char → Option ℕ} {body : String} {c1 c2 r1 r2 : ℕ}
    (h : rectangle decimal body = some (c1, c2, r1, r2)) : 1 ≤ c1 ∧ c1 ≤ c2 ∧ r1 ≤ r2 := by
  unfold rectangle at h
  split at h
  · rename_i a b c d hends
    obtain ⟨⟨_, hfrom⟩, _, _, hto⟩ := exists_of_takeEnds hends
    have hfirst := one_le_of_takeCell hfrom
    have hlast := one_le_of_takeCell hto
    simp only [Option.some.injEq, Prod.mk.injEq] at h
    dsimp only at hfirst hlast
    omega
  · split at h
    · rename_i a b hends
      obtain ⟨⟨_, hfrom⟩, _, _, hto⟩ := exists_of_takeEnds hends
      have hfirst := one_le_of_takeCol hfrom
      have hlast := one_le_of_takeCol hto
      have hmax : 1 ≤ Csr.excelMaxRow := by decide
      simp only [Option.some.injEq, Prod.mk.injEq] at h
      omega
    · obtain ⟨⟨a, b⟩, -, heq⟩ := Option.map_eq_some_iff.mp h
      have hmax : 1 ≤ Csr.excelMaxCol := by decide
      simp only [Prod.mk.injEq] at heq
      omega

theorem bounds_of_parseRangeNode {table : CharTable} {name : String} {node : RangeNode}
    (h : parseRangeNode table name = some node) :
    1 ≤ node.c1 ∧ node.c1 ≤ node.c2 ∧ node.r1 ≤ node.r2 := by
  unfold parseRangeNode at h
  split_ifs at h
  obtain ⟨parts, -, h⟩ := Option.bind_eq_some_iff.mp h
  obtain ⟨⟨c1, c2, r1, r2⟩, hrect, h⟩ := Option.bind_eq_some_iff.mp h
  obtain rfl := Option.some.inj h
  exact bounds_of_rectangle hrect

section Columns

variable {text : GraphText} {periods : PeriodByCell} {usage : SheetUsage}

/-- A column of a node with a present cell in its rows. -/
def PresentColumn (usage : SheetUsage) (node : RangeNode) (col : ℕ) : Prop :=
  ∃ spans, (col, spans) ∈ columnsOf usage node.sheet ∧ node.c1 ≤ col ∧ col ≤ node.c2 ∧
    ∃ span ∈ spans, node.r1 ≤ span.2 ∧ span.1 ≤ node.r2

theorem mem_memberColumns {node : RangeNode} {col : ℕ} :
    col ∈ memberColumns usage node ↔
      if wholeAxis node.c1 node.c2 node.r1 node.r2 then PresentColumn usage node col
      else node.c1 ≤ col ∧ col ≤ node.c2 := by
  unfold memberColumns
  split_ifs with hwhole
  · dsimp only
    rw [List.mem_insertionSort, List.mem_filterMap]
    constructor
    · rintro ⟨⟨col', spans⟩, hmem, h⟩
      dsimp only at h
      split_ifs at h with hout hany
      obtain rfl := Option.some.inj h
      obtain ⟨span, hspan, hover⟩ := List.any_eq_true.mp hany
      have hover := of_decide_eq_true hover
      exact ⟨spans, hmem, by omega, by omega, span, hspan, by omega, by omega⟩
    · rintro ⟨spans, hmem, hc1, hc2, span, hspan, hlo, hhi⟩
      refine ⟨(col, spans), hmem, ?_⟩
      dsimp only
      rw [if_neg (by omega), if_pos]
      exact List.any_eq_true.mpr ⟨span, hspan, decide_eq_true (by omega)⟩
  · rw [List.mem_range'_1]
    omega

theorem exists_span_of_firstSpanRow {spans : List (ℕ × ℕ)} {lo hi row : ℕ}
    (h : firstSpanRow spans lo hi = some row) : ∃ span ∈ spans, lo ≤ span.2 ∧ span.1 ≤ hi := by
  induction spans with
  | nil => cases h
  | cons span spans ih =>
    obtain ⟨start, stop⟩ := span
    rw [firstSpanRow] at h
    split_ifs at h with hbefore hafter
    · obtain ⟨span, hspan, hover⟩ := ih h
      exact ⟨span, List.mem_cons_of_mem _ hspan, hover⟩
    · exact ⟨(start, stop), List.mem_cons_self, by omega, by omega⟩

theorem mem_memberColumns_of_firstColumn {node : RangeNode} {col : ℕ}
    (hsheet : (get (text.casefold node.sheet) usage.canonical).getD node.sheet = node.sheet)
    (hle : node.c1 ≤ node.c2) (h : firstColumn text usage node = some col) :
    col ∈ memberColumns usage node := by
  rw [mem_memberColumns]
  unfold firstColumn at h
  split_ifs at h ⊢ with hwhole
  · obtain ⟨⟨row, col'⟩, hfirst, rfl⟩ := Option.map_eq_some_iff.mp h
    unfold firstPresent at hfirst
    rw [hsheet] at hfirst
    -- Every candidate of the fold is a present column.
    refine List.foldlRecOn (motive := fun best => ∀ p, best = some p →
      PresentColumn usage node p.2) _ _ ?_ ?_ (row, col') hfirst
    · intro p hp
      cases hp
    · rintro best hbest ⟨col, spans⟩ hcolumn p hp
      dsimp only at hp
      split_ifs at hp with hout
      · exact hbest p hp
      · have hnew {row : ℕ} (hrow : firstSpanRow spans node.r1 node.r2 = some row) :
            PresentColumn usage node col :=
          ⟨spans, hcolumn, by omega, by omega, exists_span_of_firstSpanRow hrow⟩
        split at hp
        · exact hbest p hp
        · rename_i row hrow
          obtain rfl := Option.some.inj hp
          exact hnew hrow
        · rename_i row b hrow
          split_ifs at hp
          · obtain rfl := Option.some.inj hp
            exact hnew hrow
          · exact hbest p hp
  · obtain rfl := Option.some.inj h
    exact ⟨Nat.le_refl _, hle⟩

theorem one_le_of_mem_memberColumns {node : RangeNode} (hc1 : 1 ≤ node.c1)
    (hcolumns : ∀ column ∈ columnsOf usage node.sheet, 1 ≤ column.1) {col : ℕ}
    (hcol : col ∈ memberColumns usage node) : 1 ≤ col := by
  have hin := mem_memberColumns.mp hcol
  split_ifs at hin
  · obtain ⟨spans, hcolumn, -⟩ := hin
    exact hcolumns _ hcolumn
  · omega

theorem column_of_mem_rangeMembers {node : RangeNode} {cell : String}
    (hcell : cell ∈ rangeMembers usage node) :
    ∃ col ∈ memberColumns usage node, ∃ row, cell = nodeId node.sheet (formatAddr col row) := by
  unfold rangeMembers at hcell
  split_ifs at hcell with hwhole
  · obtain ⟨⟨col, spans⟩, hcolumn, hcell⟩ := List.mem_flatMap.mp hcell
    dsimp only at hcell
    split_ifs at hcell with hout
    · cases hcell
    · obtain ⟨⟨lo, hi⟩, hspan, hcell⟩ := List.mem_flatMap.mp hcell
      obtain ⟨row, hrow, rfl⟩ := List.mem_map.mp hcell
      rw [List.mem_range'_1] at hrow
      refine ⟨col, mem_memberColumns.mpr ?_, row, rfl⟩
      rw [if_pos hwhole]
      exact ⟨spans, hcolumn, by omega, by omega, (lo, hi), hspan, by omega, by omega⟩
  · obtain ⟨row, -, hcell⟩ := List.mem_flatMap.mp hcell
    obtain ⟨col, hcol, rfl⟩ := List.mem_map.mp hcell
    rw [List.mem_range'_1] at hcol
    refine ⟨col, mem_memberColumns.mpr ?_, row, rfl⟩
    rw [if_neg hwhole]
    omega

theorem exists_mem_rangeMembers {node : RangeNode} (hrows : node.r1 ≤ node.r2)
    (hspans : ∀ column ∈ columnsOf usage node.sheet, ∀ span ∈ column.2, span.1 ≤ span.2)
    {col : ℕ} (hcol : col ∈ memberColumns usage node) :
    ∃ row, nodeId node.sheet (formatAddr col row) ∈ rangeMembers usage node := by
  rw [mem_memberColumns] at hcol
  unfold rangeMembers
  split_ifs at hcol ⊢ with hwhole
  · obtain ⟨spans, hcolumn, hc1, hc2, span, hspan, hlo, hhi⟩ := hcol
    have hle := hspans _ hcolumn span hspan
    refine ⟨max span.1 node.r1, List.mem_flatMap.mpr ⟨(col, spans), hcolumn, ?_⟩⟩
    dsimp only
    rw [if_neg (by omega)]
    refine List.mem_flatMap.mpr ⟨span, hspan, List.mem_map.mpr ⟨_, ?_, rfl⟩⟩
    rw [List.mem_range'_1]
    omega
  · refine ⟨node.r1, List.mem_flatMap.mpr ⟨node.r1, ?_, List.mem_map.mpr ⟨col, ?_, rfl⟩⟩⟩
    · rw [List.mem_range'_1]
      omega
    · rw [List.mem_range'_1]
      omega

end Columns

namespace FormulaGraph

variable {text : GraphText} (graph : FormulaGraph text) (periods : PeriodByCell)

/-- A lag of a formula: to a cell it reads, or to a column of a range it reads. -/
def HasLag (source lag : String) : Prop :=
  source ≠ "" ∧ ∃ edge ∈ graph.edges, edge.source = source ∧
    (parseRangeNode text.toCharTable edge.target = none ∧
        lag = lagBetween text (periodOf text periods source) (periodOf text periods edge.target) ∨
      ∃ node, parseRangeNode text.toCharTable edge.target = some node ∧
        ∃ col ∈ memberColumns graph.usage node,
          lag = lagBetween text (periodOf text periods source)
            (get (node.sheet, col) periods))

theorem periodLag_enrichEdge (usage : SheetUsage) {edge : CellEdge}
    (h : parseRangeNode text.toCharTable edge.target = none) :
    (enrichEdge text periods usage edge).periodLag =
      some (lagBetween text (periodOf text periods edge.source)
        (periodOf text periods edge.target)) := by
  simp [enrichEdge, viewNode, h, offsetAndLag]

theorem mem_formulaLags {source lag : String} (hlag : lag ≠ "unaligned") :
    lag ∈ lagsAt source (formulaLags text periods graph.usage graph.edges) ↔
      graph.HasLag periods source lag := by
  unfold formulaLags
  dsimp only
  rw [mem_addRangeLags, mem_lagsBySource, rangeUsers_enriched]
  constructor
  · rintro (⟨enriched, hmem, hsource, hne, hperiod⟩ | ⟨node, huser, hcol⟩)
    · obtain ⟨edge, hedge, rfl⟩ := List.mem_map.mp hmem
      rw [enrichEdge_source] at hsource
      subst hsource
      refine ⟨hne, edge, hedge, rfl, ?_⟩
      cases hnode : parseRangeNode text.toCharTable edge.target with
      | none =>
        rw [periodLag_enrichEdge periods graph.usage hnode] at hperiod
        exact .inl ⟨rfl, (Option.some.inj hperiod).symm⟩
      | some node =>
        -- The lag to the first member is a lag to its column.
        right
        have hview : viewNode text edge.target = some node := hnode
        simp only [enrichEdge, hview, nodeOffsetAndLag, Option.some.injEq] at hperiod
        cases hfirst : firstColumn text graph.usage node with
        | none =>
          simp only [hfirst] at hperiod
          exact absurd hperiod.symm hlag
        | some col =>
          simp only [hfirst] at hperiod
          obtain ⟨-, hle, -⟩ := bounds_of_parseRangeNode hnode
          have hsheet := (graph.range edge hedge node hnode).2.2
          exact ⟨node, rfl, col, mem_memberColumns_of_firstColumn hsheet hle hfirst,
            hperiod.symm⟩
    · obtain ⟨edge, hedge, rfl, hne, hnode⟩ := (mem_rangeUsers text).mp huser
      exact ⟨hne, edge, hedge, rfl, .inr ⟨node, hnode, hcol⟩⟩
  · rintro ⟨hne, edge, hedge, rfl, ⟨hnone, rfl⟩ | ⟨node, hnode, hcol⟩⟩
    · left
      exact ⟨enrichEdge text periods graph.usage edge, List.mem_map_of_mem hedge, by simp, hne,
        periodLag_enrichEdge periods graph.usage hnone⟩
    · right
      exact ⟨node, (mem_rangeUsers text).mpr ⟨edge, hedge, rfl, hne, hnode⟩, hcol⟩

def memberEdges : List CellEdge :=
  expandRanges text.toCharTable (rangeMembers graph.usage) graph.edges

theorem one_le_member {edge : CellEdge} {node : RangeNode}
    (hnode : parseRangeNode text.toCharTable edge.target = some node) {col : ℕ}
    (hcol : col ∈ memberColumns graph.usage node) : 1 ≤ col :=
  one_le_of_mem_memberColumns (bounds_of_parseRangeNode hnode).1
    (fun column hcolumn => (graph.columns _ column hcolumn).1) hcol

theorem member_spec {edge : CellEdge} (hedge : edge ∈ graph.edges) {node : RangeNode}
    (hnode : parseRangeNode text.toCharTable edge.target = some node) {cell : String}
    (hcell : cell ∈ rangeMembers graph.usage node) :
    parseRangeNode text.toCharTable cell = none ∧ ∃ col ∈ memberColumns graph.usage node,
      periodOf text periods cell = get (node.sheet, col) periods := by
  obtain ⟨col, hcol, row, rfl⟩ := column_of_mem_rangeMembers hcell
  have hsheet := (graph.range edge hedge node hnode).2.1
  have hone := graph.one_le_member hnode hcol
  have hname : IsCellName text.toCharTable (nodeId node.sheet (formatAddr col row)) :=
    ⟨node.sheet, col, row, hsheet, hone, rfl⟩
  refine ⟨parseRangeNode_of_not hname.isRangeNode, col, hcol, ?_⟩
  simp [periodOf, parseNodeId_nodeId text.toCharTable hsheet row hone]

theorem mem_memberLags {source lag : String} :
    lag ∈ lagsAt source (formulaLags text periods graph.usage graph.memberEdges) ↔
      graph.HasLag periods source lag := by
  have hparse : ∀ edge ∈ graph.memberEdges,
      parseRangeNode text.toCharTable edge.target = none := by
    intro e he
    rcases (mem_expandRanges _).mp he with ⟨-, hnone⟩ | ⟨edge, hedge, node, hnode, c, hc, rfl⟩
    · exact hnone
    · exact (graph.member_spec periods hedge hnode hc).1
  have husers : rangeUsers text (graph.memberEdges.map (enrichEdge text periods graph.usage)) =
      [] := by
    rw [rangeUsers_enriched, rangeUsers, List.filterMap_eq_nil_iff]
    intro edge hedge
    simp [viewNode, hparse edge hedge]
  unfold formulaLags
  dsimp only
  rw [husers, addRangeLags, List.foldl_nil, mem_lagsBySource]
  constructor
  · rintro ⟨enriched, hmem, hsource, hne, hperiod⟩
    obtain ⟨e, he, rfl⟩ := List.mem_map.mp hmem
    rw [enrichEdge_source] at hsource
    subst hsource
    rw [periodLag_enrichEdge periods graph.usage (hparse e he)] at hperiod
    obtain rfl := Option.some.inj hperiod
    rcases (mem_expandRanges _).mp he with ⟨hedge, hnone⟩ | ⟨edge, hedge, node, hnode, c, hc, rfl⟩
    · exact ⟨hne, e, hedge, rfl, .inl ⟨hnone, rfl⟩⟩
    · obtain ⟨-, col, hcol, hcolumn⟩ := graph.member_spec periods hedge hnode hc
      exact ⟨hne, edge, hedge, rfl, .inr ⟨node, hnode, col, hcol, by rw [hcolumn]⟩⟩
  · rintro ⟨hne, edge, hedge, rfl, ⟨hnone, rfl⟩ | ⟨node, hnode, col, hcol, rfl⟩⟩
    · have hmem : edge ∈ graph.memberEdges := (mem_expandRanges _).mpr (.inl ⟨hedge, hnone⟩)
      exact ⟨enrichEdge text periods graph.usage edge, List.mem_map_of_mem hmem, by simp, hne,
        periodLag_enrichEdge periods graph.usage hnone⟩
    · obtain ⟨-, -, hrows⟩ := bounds_of_parseRangeNode hnode
      obtain ⟨row, hcell⟩ := exists_mem_rangeMembers hrows
        (fun column hcolumn => (graph.columns _ column hcolumn).2) hcol
      have hsheet := (graph.range edge hedge node hnode).2.1
      have hmem : { edge with target := nodeId node.sheet (formatAddr col row) } ∈
          graph.memberEdges :=
        (mem_expandRanges _).mpr (.inr ⟨edge, hedge, node, hnode, _, hcell, rfl⟩)
      have hone := graph.one_le_member hnode hcol
      refine ⟨_, List.mem_map_of_mem hmem, by simp, hne, ?_⟩
      rw [periodLag_enrichEdge periods graph.usage (hparse _ hmem)]
      simp [periodOf, parseNodeId_nodeId text.toCharTable hsheet row hone]

theorem formulaClass_memberEdges (cell : String) (formula : Option String)
    (refs : List String) :
    formulaClass text periods graph.usage graph.edges cell formula refs =
      formulaClass text periods graph.usage graph.memberEdges cell formula refs := by
  apply classifyFormula_congr
  intro lag hlag
  exact (graph.mem_formulaLags periods hlag).trans (graph.mem_memberLags periods).symm

end FormulaGraph

end FinanceContext
