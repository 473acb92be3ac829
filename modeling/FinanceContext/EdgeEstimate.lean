import FinanceContext.RangeTargets
import FinanceContext.UsageQueries

namespace FinanceContext.Csr

namespace Expansion

section Counting

variable (ex : Expansion)

def rectangleCount (usage : SheetUsage) (sheet : String) (c1 c2 r1 r2 : ℕ) : ℤ :=
  ex.presentCount usage ⟨rangeNodeId sheet c1 c2 r1 r2, sheet, c1, c2, r1, r2⟩

/-- How many cells `expand_range` would emit. -/
def expansionCount (target : String) : ℤ :=
  match splitSheetRef target with
  | none => 1
  | some (sheet, body) =>
    if (cellBody ex.decimal body).isSome then 1
    else
      match rectangle ex.decimal body with
      | none => 1
      | some (c1, c2, r1, r2) =>
        if area c1 c2 r1 r2 = 0 then 0
        else
          match ex.usage, wholeAxis c1 c2 r1 r2 with
          | some usage, true => ex.rectangleCount usage sheet c1 c2 r1 r2
          | _, _ => if area c1 c2 r1 r2 ≤ ex.rangeCap then area c1 c2 r1 r2 else ex.rangeCap

/-- One turn of the loop of `expanded_edge_count`. -/
def countEdge (total : ℤ) (edge : Edge) : ℤ :=
  match edge.target with
  | none => total
  | some target =>
    if target = "" then total
    else if IsRange edge target then
      if (ex.rangeNodeFor target).isSome then total + 1 else total + ex.expansionCount target
    else total + 1

def expandedEdgeCount (edges : List Edge) : ℤ := edges.foldl ex.countEdge 0

def ofSpans (spans : Option (List Span)) : Expansion :=
  { ex with usage := spans.map ex.sheetUsageSpans }

end Counting

section Lengths

variable (ex : Expansion)

theorem length_takeCells {cap total : ℕ} {out cells : List String} (h : out.length ≤ cap) :
    (takeCells cap total out cells).1.length = min cap (out.length + cells.length) := by
  induction cells generalizing out with
  | nil =>
    rw [takeCells, List.length_nil, Nat.add_zero, Nat.min_eq_right h]
  | cons cell cells ih =>
    rw [takeCells, List.length_cons]
    split_ifs with hfull
    · rw [Nat.min_eq_left (by omega)]
      exact Nat.le_antisymm h hfull
    · have hnext : (out ++ [cell]).length = out.length + 1 := by simp
      rw [ih (by omega), hnext]
      omega

theorem sheetName_of_unknown {usage : SheetUsage} {sheet : String}
    (h : Dictionaries.get (ex.casefold sheet) usage.canonical = none) :
    ex.sheetName usage sheet = sheet := by
  rw [sheetName, h]
  rfl

theorem unknown_of_rangeNodeFor {target sheet body : String} {usage : SheetUsage}
    {c1 c2 r1 r2 : ℕ} (husage : ex.usage = some usage)
    (hsplit : splitSheetRef target = some (sheet, body))
    (hrect : rectangle ex.decimal body = some (c1, c2, r1, r2))
    (hwhole : wholeAxis c1 c2 r1 r2 = true) (hnone : ex.rangeNodeFor target = none) :
    Dictionaries.get (ex.casefold sheet) usage.canonical = none := by
  cases hget : Dictionaries.get (ex.casefold sheet) usage.canonical with
  | none => rfl
  | some name =>
    unfold rangeNodeFor at hnone
    rw [husage] at hnone
    simp [hsplit, hget, hrect, hwhole] at hnone

theorem rectangleCount_eq (spans : List Span) (sheet : String) {c1 c2 r1 r2 : ℕ} (hrows : r1 ≤ r2) :
    ex.rectangleCount (ex.sheetUsageSpans spans) sheet c1 c2 r1 r2 =
      (ex.presentPairs (ex.sheetUsageSpans spans) sheet c1 c2 r1 r2).length := by
  have hpairs := (perm_nodePairs ex (ex.sheetUsageSpans spans)
    ⟨rangeNodeId sheet c1 c2 r1 r2, sheet, c1, c2, r1, r2⟩).length_eq
  have hsep : ∀ column ∈ ex.columnsOf (ex.sheetUsageSpans spans) sheet,
      IntervalRuns.Separated column.2 := fun column hcolumn => separated_columnsOf hcolumn
  have hcells := @length_columnCells ⟨rangeNodeId sheet c1 c2 r1 r2, sheet, c1, c2, r1, r2⟩ hrows
    (ex.columnsOf (ex.sheetUsageSpans spans) sheet) hsep
  rw [rectangleCount, presentCount, ← hcells, ← hpairs]
  rfl

variable (spans : Option (List Span))

theorem expansionCount_eq {target : String} (hnone : (ex.ofSpans spans).rangeNodeFor target = none) :
    (ex.ofSpans spans).expansionCount target =
      (((ex.ofSpans spans).expandRange target).map fun found => (found.1.length : ℤ)).getD 1 := by
  unfold expansionCount expandRange
  cases hsplit : splitSheetRef target with
  | none => rfl
  | some parts =>
    obtain ⟨sheet, body⟩ := parts
    simp only [Option.bind_eq_bind, Option.bind_some]
    cases hcell : cellBody (ex.ofSpans spans).decimal body with
    | some cell => rfl
    | none =>
      simp only [Option.isSome_none, Bool.false_eq_true, if_false]
      cases hrect : rectangle (ex.ofSpans spans).decimal body with
      | none => rfl
      | some rect =>
        obtain ⟨c1, c2, r1, r2⟩ := rect
        obtain ⟨hone, hcols, hrows⟩ := bounds_of_rectangle hrect
        have harea : area c1 c2 r1 r2 ≠ 0 := Nat.mul_ne_zero (by omega) (by omega)
        have htaken : ((takeCells (ex.ofSpans spans).rangeCap (area c1 c2 r1 r2) []
            ((List.range' r1 (r2 + 1 - r1)).flatMap fun row =>
              (List.range' c1 (c2 + 1 - c1)).map fun col =>
                nodeId (((ex.ofSpans spans).usage.map fun usage =>
                  (ex.ofSpans spans).sheetName usage sheet).getD sheet)
                  (formatAddr col row))).1.length : ℤ) =
            if area c1 c2 r1 r2 ≤ (ex.ofSpans spans).rangeCap then (area c1 c2 r1 r2 : ℤ)
            else (ex.ofSpans spans).rangeCap := by
          rw [length_takeCells (by simp), length_rectangle, List.length_nil]
          split_ifs with hcap
          · rw [Nat.zero_add, Nat.min_eq_right hcap]
          · rw [Nat.zero_add, Nat.min_eq_left (by omega)]
        simp only [if_neg harea]
        cases hspans : spans with
        | none =>
          rw [hspans] at htaken
          exact htaken.symm
        | some found =>
          rw [hspans] at htaken hrect hnone
          cases hwhole : wholeAxis c1 c2 r1 r2 with
          | false => exact htaken.symm
          | true =>
            have hunknown := (ex.ofSpans (some found)).unknown_of_rangeNodeFor rfl hsplit hrect
              hwhole hnone
            have hname := (ex.ofSpans (some found)).sheetName_of_unknown hunknown
            have hcount := @Expansion.rectangleCount_eq ex found sheet c1 c2 r1 r2 hrows
            change (ex.ofSpans (some found)).rectangleCount (ex.sheetUsageSpans found) sheet
              c1 c2 r1 r2 = ((((ex.ofSpans (some found)).presentPairs (ex.sheetUsageSpans found)
                ((ex.ofSpans (some found)).sheetName (ex.sheetUsageSpans found) sheet)
                c1 c2 r1 r2).map _).length : ℤ)
            rw [List.length_map]
            change (ex.ofSpans (some found)).sheetName (ex.sheetUsageSpans found) sheet = sheet at hname
            rw [hname]
            exact hcount

theorem countEdge_eq (total : ℤ) (edge : Edge) :
    (ex.ofSpans spans).countEdge total edge =
      total + ((ex.ofSpans spans).edgeRows edge).length := by
  have hplain (hnone : (ex.ofSpans spans).edgeNode edge = none) :
      ((ex.ofSpans spans).edgeRows edge).length =
        ((ex.ofSpans spans).expandedTargets edge).length := by
    rw [edgeRows, hnone]
    exact List.length_map _
  unfold countEdge
  cases htarget : edge.target with
  | none =>
    have hnone : (ex.ofSpans spans).edgeNode edge = none := by simp [edgeNode, htarget]
    rw [hplain hnone]
    simp [expandedTargets, htarget]
  | some target =>
    dsimp only
    by_cases hempty : target = ""
    · have hnone : (ex.ofSpans spans).edgeNode edge = none := by simp [edgeNode, htarget, hempty]
      rw [hplain hnone]
      simp [expandedTargets, htarget, hempty]
    · by_cases hrange : IsRange edge target
      · have hnode : (ex.ofSpans spans).edgeNode edge =
            (ex.ofSpans spans).rangeNodeFor target := by
          simp [edgeNode, htarget, hempty, hrange]
        rw [if_neg hempty, if_pos hrange]
        cases hfor : (ex.ofSpans spans).rangeNodeFor target with
        | some node =>
          rw [hfor] at hnode
          simp [edgeRows, hnode]
        | none =>
          rw [hplain (hnode.trans hfor), ex.expansionCount_eq spans hfor]
          simp only [Option.isSome_none, Bool.false_eq_true, if_false, expandedTargets, htarget,
            if_neg hempty, if_pos hrange]
          cases (ex.ofSpans spans).expandRange target with
          | none => simp
          | some found => simp
      · have hnone : (ex.ofSpans spans).edgeNode edge = none := by
          simp [edgeNode, htarget, hrange]
        rw [if_neg hempty, if_neg hrange, hplain hnone]
        simp only [expandedTargets, htarget, if_neg hempty, if_neg hrange]
        split_ifs <;> simp

/-- The estimate is the number of rows of the expansion, before any row is dropped. -/
theorem expandedEdgeCount_eq (edges : List Edge) :
    (ex.ofSpans spans).expandedEdgeCount edges =
      (edges.flatMap (ex.ofSpans spans).edgeRows).length := by
  unfold expandedEdgeCount
  induction edges using List.reverseRecOn with
  | nil => rfl
  | append_singleton edges edge ih =>
    rw [List.foldl_append, List.foldl_cons, List.foldl_nil, ih, countEdge_eq, List.flatMap_append,
      List.flatMap_singleton, List.length_append, Nat.cast_add]

end Lengths

end Expansion

end FinanceContext.Csr
