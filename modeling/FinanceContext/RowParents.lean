import FinanceContext.LayoutModel
import FinanceContext.ParentScans
import Mathlib.Data.List.TakeWhile

namespace FinanceContext.Rows

open ParentScans

structure LabelText where
  strip : String → String
  casefold : String → String
  isUnitText : String → Bool
  isCheck : String → Bool
  isUnitText_strip : ∀ label, isUnitText (strip label) = isUnitText label

/-- A row as the loop reads it from the sheet. Header rows, empty rows, counters and rows without
a label are skipped; `hasData` tells a scalar value or a blank data row. -/
structure RowRead where
  row : ℕ
  label : String
  labelCol : ℕ
  hidden : Bool
  indent : ℕ
  outline : ℕ
  kind : RowKind
  hasData : Bool

/-- The rows below one header, and the title in the header row. -/
structure Band where
  rows : List RowRead
  seed : Option LayoutRow
  summaryBelow : Bool
  ascending : rows.Pairwise fun a b => a.row < b.row
  seedOutside : ∀ seed' ∈ seed, ∀ r ∈ rows, r.row ≠ seed'.row

section Reading

variable (text : LabelText)

def ancestors (rows : List LayoutRow) (indent : ℕ) : List LayoutRow :=
  (rows.reverse.foldl (fun (found, level) prev =>
    if prev.indent < level then (found ++ [prev], prev.indent) else (found, level))
    ([], indent)).1

def totals : List String := ["total", "subtotal", "sub total", "sum", "итого", "всего"]

def isTotal (label : String) : Bool := text.casefold (text.strip label) ∈ totals

/-- `_indent_parent`; the top of the stack is first. -/
def indentParent (stack : List LayoutRow) (indent : ℕ) : Option ℕ :=
  (stack.find? fun prev => prev.indent < indent).map (·.row)

/-- The loop between two rows; both stacks have their top first. -/
structure Reading where
  out : List LayoutRow
  parentStack : List LayoutRow
  sectionStack : List LayoutRow

def finalKind (s : Reading) (r : RowRead) : RowKind :=
  if r.kind = .abstract && r.hasData then
    if s.sectionStack.any (fun item => text.isCheck item.label) ||
        (ancestors s.out r.indent).any (·.checkRow) then .helper else .fact
  else r.kind

def popSections (kind : RowKind) (stack : List LayoutRow) (r : RowRead) : List LayoutRow :=
  if text.isUnitText r.label then stack
  else if kind = .abstract then stack.dropWhile fun item => r.indent ≤ item.indent
  else stack.dropWhile fun item => r.indent < item.indent

def parentOf (kind : RowKind) (parents sections : List LayoutRow) (r : RowRead) : Option ℕ :=
  let parent := indentParent parents r.indent
  match sections with
  | [] => parent
  | top :: _ =>
    let parent := if parent = none ∧ kind ≠ .abstract then some top.row else parent
    if isTotal text r.label ∧ (parent = none ∨ parent ∈ sections.map fun item => some item.row) then
      some top.row
    else parent

def layoutRow (s : Reading) (r : RowRead) : LayoutRow :=
  let kind := finalKind text s r
  let sections := popSections text kind s.sectionStack r
  { row := r.row
    label := text.strip r.label
    parentRow := parentOf text kind s.parentStack sections r
    indent := r.indent
    checkRow := text.isCheck r.label
    hidden := r.hidden
    kind := kind
    sectionPath := sections.reverse.map (·.label)
    labelCol := some r.labelCol }

def readRow (s : Reading) (r : RowRead) : Reading :=
  let item := layoutRow text s r
  let sections := popSections text item.kind s.sectionStack r
  { out := s.out ++ [item]
    parentStack :=
      if text.isUnitText r.label then s.parentStack
      else item :: s.parentStack.dropWhile fun prev => r.indent ≤ prev.indent
    sectionStack :=
      if item.kind = .abstract && !text.isUnitText r.label then item :: sections else sections }

def readRows (seed : Option LayoutRow) (rows : List RowRead) : Reading :=
  rows.foldl (readRow text) ⟨[], [], seed.toList⟩

end Reading

section Outlines

variable (levels : List ℕ) (unit : List Bool)

def levelAt (index : ℕ) : ℕ := levels.getD index 0

def unitAt (index : ℕ) : Bool := unit.getD index false

def outlineStep (state : List (Option ℕ) × List ℕ) (index : ℕ) : List (Option ℕ) × List ℕ :=
  if unitAt unit index then state
  else
    let stack := state.2.dropWhile fun i => levelAt levels index ≤ levelAt levels i
    match stack with
    | [] => (state.1, [index])
    | top :: _ => (state.1.set index (some top), index :: stack)

def outlineOrder (count : ℕ) (summaryBelow : Bool) : List ℕ :=
  if summaryBelow then (List.range count).reverse else List.range count

def outlineParentAt (summaryBelow : Bool) : List (Option ℕ) :=
  ((outlineOrder levels.length summaryBelow).foldl (outlineStep levels unit)
    (List.replicate levels.length none, [])).1

/-- One turn of the loop of `_apply_outline_parents`. -/
def outlineRow (rows : List LayoutRow) (parentAt : List (Option ℕ)) (summaryBelow : Bool)
    (index : ℕ) (row : LayoutRow) : LayoutRow :=
  if levelAt levels index ≤ 1 || unitAt unit index then row
  else
    match parentAt.getD index none with
    | none => row
    | some parentIndex =>
      match rows[parentIndex]? with
      | none => row
      | some parent =>
        if levelAt levels parentIndex = 0 then row
        else
          match row.parentRow with
          | none => { row with parentRow := some parent.row }
          | some above =>
            if (!summaryBelow && above < parent.row) || (summaryBelow && parent.row < above) then
              { row with parentRow := some parent.row }
            else row

def applyOutlineParents (text : LabelText) (rows : List LayoutRow) (summaryBelow : Bool) :
    List LayoutRow :=
  let unit := rows.map fun row => text.isUnitText row.label
  let parentAt := outlineParentAt levels unit summaryBelow
  rows.mapIdx (outlineRow levels unit rows parentAt summaryBelow)

end Outlines

namespace Band

variable (text : LabelText) (band : Band)

def outlines : List ℕ := band.rows.map (·.outline)

def indentRows : List LayoutRow := (readRows text band.seed band.rows).out

def dataRows : List LayoutRow :=
  if band.outlines.any (0 < ·) then
    applyOutlineParents band.outlines text (band.indentRows text) band.summaryBelow
  else band.indentRows text

end Band

section Scans

def scanIndent (text : LabelText) (above : List RowRead) (indent : ℕ) : Option ℕ :=
  (above.reverse.find? fun prev => !text.isUnitText prev.label && prev.indent < indent).map (·.row)

def sideOf (count : ℕ) (summaryBelow : Bool) (index : ℕ) : List ℕ :=
  if summaryBelow then List.range' (index + 1) (count - (index + 1)) else (List.range index).reverse

/-- The nearest row on one side that is no unit row and has a smaller level. Unit rows are not
looked at. -/
def scanOutline (levels : List ℕ) (unit : List Bool) (summaryBelow : Bool) (index : ℕ) :
    Option ℕ :=
  if unitAt unit index then none
  else (sideOf levels.length summaryBelow index).find? fun i =>
    !unitAt unit i && levelAt levels i < levelAt levels index

variable (text : LabelText)

theorem out_readRows (seed : Option LayoutRow) (rows : List RowRead) (r : RowRead) :
    (readRows text seed (rows ++ [r])).out =
      (readRows text seed rows).out ++ [layoutRow text (readRows text seed rows) r] := by
  rw [readRows, List.foldl_append]
  rfl

theorem readRows_append (seed : Option LayoutRow) (rows : List RowRead) (r : RowRead) :
    readRows text seed (rows ++ [r]) = readRow text (readRows text seed rows) r := by
  rw [readRows, List.foldl_append]
  rfl

theorem isUnitText_layoutRow (s : Reading) (r : RowRead) :
    text.isUnitText (layoutRow text s r).label = text.isUnitText r.label :=
  text.isUnitText_strip r.label

theorem keys_readRows (seed : Option LayoutRow) (rows : List RowRead) :
    (readRows text seed rows).out.map (fun item =>
        (item.row, item.indent, text.isUnitText item.label)) =
      rows.map fun r => (r.row, r.indent, text.isUnitText r.label) := by
  induction rows using List.reverseRecOn with
  | nil => rfl
  | append_singleton rows r ih =>
    rw [out_readRows, List.map_append, List.map_append, ih, List.map_singleton,
      List.map_singleton, isUnitText_layoutRow]
    rfl

theorem parentStack_readRows (seed : Option LayoutRow) (rows : List RowRead) :
    (readRows text seed rows).parentStack =
      stackOf (·.indent) (fun item => text.isUnitText item.label)
        (readRows text seed rows).out := by
  induction rows using List.reverseRecOn with
  | nil => rfl
  | append_singleton rows r ih =>
    rw [out_readRows, stackOf, List.foldl_append, List.foldl_cons, List.foldl_nil]
    change _ = push (·.indent) (fun item => text.isUnitText item.label) (stackOf (·.indent)
      (fun item => text.isUnitText item.label) (readRows text seed rows).out) _
    rw [← ih, push, isUnitText_layoutRow, readRows_append]
    rfl

theorem indentParent_eq_nearest (seed : Option LayoutRow) (rows : List RowRead) (indent : ℕ) :
    indentParent (readRows text seed rows).parentStack indent =
      (nearest (·.indent) (fun item => text.isUnitText item.label)
        (readRows text seed rows).out indent).map (·.row) := by
  rw [parentStack_readRows, ← find?_stackOf]
  rfl

theorem indentParent_readRows (seed : Option LayoutRow) (rows : List RowRead) (indent : ℕ) :
    indentParent (readRows text seed rows).parentStack indent = scanIndent text rows indent := by
  have hkeys := congrArg (fun l => (l.reverse.find? fun p : ℕ × ℕ × Bool =>
    !p.2.2 && decide (p.2.1 < indent)).map Prod.fst) (keys_readRows text seed rows)
  simp only [← List.map_reverse, List.find?_map, Option.map_map] at hkeys
  exact (indentParent_eq_nearest text seed rows indent).trans hkeys

section Outline

variable (levels : List ℕ) (unit : List Bool)

/-- What the loop has found once it has passed some of the rows. -/
structure Passed (count : ℕ) (seen : List ℕ) (state : List (Option ℕ) × List ℕ) : Prop where
  stack : state.2 = stackOf (levelAt levels) (unitAt unit) seen
  length : state.1.length = count
  found : ∀ i, i < count → state.1[i]? = some (
    if i ∈ seen ∧ unitAt unit i = false then
      nearest (levelAt levels) (unitAt unit) (seen.takeWhile (· ≠ i)) (levelAt levels i)
    else none)

variable {levels unit}

theorem takeWhile_append_singleton {i : ℕ} {seen : List ℕ} (index : ℕ) (h : i ∈ seen) :
    (seen ++ [index]).takeWhile (· ≠ i) = seen.takeWhile (· ≠ i) := by
  induction seen with
  | nil => cases h
  | cons j seen ih =>
    rw [List.cons_append]
    by_cases hj : j = i
    · simp [hj]
    · have hmem : i ∈ seen := (List.mem_cons.mp h).resolve_left fun he => hj he.symm
      rw [List.takeWhile_cons_of_pos (by simpa using hj),
        List.takeWhile_cons_of_pos (by simpa using hj), ih hmem]

theorem Passed.step {count index : ℕ} {seen : List ℕ} {state : List (Option ℕ) × List ℕ}
    (h : Passed levels unit count seen state) (hindex : index < count) (hnew : index ∉ seen) :
    Passed levels unit count (seen ++ [index]) (outlineStep levels unit state index) := by
  have hpush : stackOf (levelAt levels) (unitAt unit) (seen ++ [index]) =
      push (levelAt levels) (unitAt unit) state.2 index := by
    rw [h.stack, stackOf, List.foldl_append]
    rfl
  have hother {i : ℕ} (hi : i ≠ index) : (i ∈ seen ++ [index] ↔ i ∈ seen) ∧
      (i ∈ seen → (seen ++ [index]).takeWhile (· ≠ i) = seen.takeWhile (· ≠ i)) :=
    ⟨by simp [hi], takeWhile_append_singleton index⟩
  have hprefix : (seen ++ [index]).takeWhile (· ≠ index) = seen := by
    rw [List.takeWhile_append_of_pos]
    · simp
    · intro j hj
      have hne : j ≠ index := fun he => hnew (he ▸ hj)
      simpa using hne
  have hfound (i : ℕ) (hi : i < count) (hne : i ≠ index) : state.1[i]? = some (
      if i ∈ seen ++ [index] ∧ unitAt unit i = false then
        nearest (levelAt levels) (unitAt unit) ((seen ++ [index]).takeWhile (· ≠ i))
          (levelAt levels i)
      else none) := by
    obtain ⟨hmem, htake⟩ := hother hne
    rw [h.found i hi]
    by_cases hseen : i ∈ seen ∧ unitAt unit i = false
    · rw [if_pos hseen, if_pos ⟨hmem.mpr hseen.1, hseen.2⟩, htake hseen.1]
    · rw [if_neg hseen, if_neg fun hboth => hseen ⟨hmem.mp hboth.1, hboth.2⟩]
  have hhead := @head?_stackOf _ (levelAt levels) (unitAt unit) seen
    (levelAt levels index)
  rw [← h.stack] at hhead
  unfold outlineStep
  cases hunit : unitAt unit index with
  | true =>
    rw [if_pos rfl]
    refine ⟨?_, h.length, fun i hi => ?_⟩
    · rw [hpush, push, if_pos hunit]
    · by_cases hne : i = index
      · subst hne
        rw [h.found i hi, if_neg fun hmem => hnew hmem.1, if_neg fun hmem => by simp [hunit] at hmem]
      · exact hfound i hi hne
  | false =>
    rw [if_neg Bool.false_ne_true]
    dsimp only
    have hstack : stackOf (levelAt levels) (unitAt unit) (seen ++ [index]) =
        index :: state.2.dropWhile fun i => levelAt levels index ≤ levelAt levels i := by
      rw [hpush, push, if_neg (by simp [hunit])]
    have hown : index ∈ seen ++ [index] ∧ unitAt unit index = false :=
      ⟨List.mem_append_right _ (List.mem_singleton_self index), hunit⟩
    cases htop : state.2.dropWhile fun i => levelAt levels index ≤ levelAt levels i with
    | nil =>
      rw [htop] at hhead
      refine ⟨by rw [hstack, htop], h.length, fun i hi => ?_⟩
      by_cases hne : i = index
      · subst hne
        rw [h.found i hi, if_neg fun hmem => hnew hmem.1, if_pos hown, hprefix, ← hhead]
        rfl
      · exact hfound i hi hne
    | cons top stack =>
      rw [htop] at hhead
      refine ⟨by rw [hstack, htop], by rw [List.length_set, h.length], fun i hi => ?_⟩
      by_cases hne : i = index
      · subst hne
        rw [List.getElem?_set_self (by rw [h.length]; exact hi), if_pos hown, hprefix, ← hhead]
        rfl
      · rw [List.getElem?_set_ne (Ne.symm hne)]
        exact hfound i hi hne

theorem passed_foldl {count : ℕ} {seen : List ℕ} (hnodup : seen.Nodup)
    (hlt : ∀ i ∈ seen, i < count) :
    Passed levels unit count seen
      (seen.foldl (outlineStep levels unit) (List.replicate count none, [])) := by
  induction seen using List.reverseRecOn with
  | nil =>
    refine ⟨rfl, List.length_replicate, fun i hi => ?_⟩
    simp [hi]
  | append_singleton seen index ih =>
    obtain ⟨hseen, hnew⟩ : seen.Nodup ∧ index ∉ seen := by
      have hparts := List.nodup_append.mp hnodup
      refine ⟨hparts.1, fun hmem => ?_⟩
      exact hparts.2.2 index hmem index (List.mem_singleton_self index) rfl
    rw [List.foldl_append, List.foldl_cons, List.foldl_nil]
    apply (ih hseen fun i hi => hlt i (List.mem_append_left _ hi)).step
    · exact hlt index (List.mem_append_right _ (List.mem_singleton_self index))
    · exact hnew

theorem takeWhile_outlineOrder {count i : ℕ} (hi : i < count) (summaryBelow : Bool) :
    ((outlineOrder count summaryBelow).takeWhile (· ≠ i)).reverse =
      sideOf count summaryBelow i := by
  obtain ⟨rest, rfl⟩ : ∃ n, count = i + 1 + n := ⟨count - (i + 1), by omega⟩
  have hrange : List.range (i + 1 + rest) =
      List.range i ++ i :: List.range' (i + 1) rest := by
    rw [List.range_eq_range', List.range_eq_range', ← List.range'_append_1,
      ← List.range'_append_1, List.append_assoc]
    simp
  have hbefore : ∀ j ∈ List.range i, decide (j ≠ i) = true := by
    intro j hj
    have := List.mem_range.mp hj
    simp only [decide_eq_true_eq]
    omega
  have hbehind : ∀ j ∈ (List.range' (i + 1) rest).reverse, decide (j ≠ i) = true := by
    intro j hj
    have := List.mem_range'_1.mp (List.mem_reverse.mp hj)
    simp only [decide_eq_true_eq]
    omega
  cases summaryBelow with
  | false =>
    simp only [outlineOrder, sideOf, Bool.false_eq_true, if_false]
    rw [hrange, List.takeWhile_append_of_pos hbefore]
    simp
  | true =>
    simp only [outlineOrder, sideOf, if_true]
    rw [hrange, List.reverse_append, List.reverse_cons, List.append_assoc,
      List.takeWhile_append_of_pos hbehind]
    simp

theorem outlineParentAt_eq (levels : List ℕ) (unit : List Bool) (summaryBelow : Bool) :
    outlineParentAt levels unit summaryBelow =
      (List.range levels.length).map (scanOutline levels unit summaryBelow) := by
  have hmem (i : ℕ) : i ∈ outlineOrder levels.length summaryBelow ↔ i < levels.length := by
    unfold outlineOrder
    split_ifs <;> simp
  have hnodup : (outlineOrder levels.length summaryBelow).Nodup := by
    unfold outlineOrder
    split_ifs
    · exact (List.reverse_perm _).nodup_iff.mpr List.nodup_range
    · exact List.nodup_range
  have hpassed := @passed_foldl levels unit _ _ hnodup fun i hi => (hmem i).mp hi
  apply List.ext_getElem?
  intro i
  unfold outlineParentAt
  by_cases hi : i < levels.length
  · rw [hpassed.found i hi, List.getElem?_map, List.getElem?_range hi, Option.map_some,
      scanOutline, ← takeWhile_outlineOrder hi]
    cases hunit : unitAt unit i with
    | true => simp
    | false =>
      rw [if_pos ⟨(hmem i).mpr hi, rfl⟩, if_neg Bool.false_ne_true]
      rfl
  · rw [List.getElem?_eq_none (by rw [hpassed.length]; omega),
      List.getElem?_eq_none (by simpa using hi)]

end Outline

/-- Both stacks find what the scans find, for every band and every list of levels. -/
theorem stack_parents_eq_scans (text : LabelText) (seed : Option LayoutRow) :
    (∀ above indent, indentParent (readRows text seed above).parentStack indent =
      scanIndent text above indent) ∧
    ∀ levels unit summaryBelow, outlineParentAt levels unit summaryBelow =
      (List.range levels.length).map (scanOutline levels unit summaryBelow) :=
  ⟨indentParent_readRows text seed, outlineParentAt_eq⟩

end Scans

end FinanceContext.Rows
