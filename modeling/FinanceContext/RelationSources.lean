import FinanceContext.Relations

namespace FinanceContext

open Dictionaries

/-- What a formula refers to; a range without rows covers its whole columns. -/
structure Reference where
  external : Option String
  sheet : Option String
  rows : Option (ℕ × ℕ)

def CellRef.reference (r : CellRef) : Reference := ⟨r.external, r.sheet, some (r.row, r.row)⟩

def RangeRef.reference (r : RangeRef) : Reference where
  external := r.external
  sheet := r.sheet
  rows := match r.start.row, r.finish.row with
    | some first, some last => some (min first last, max first last)
    | _, _ => none

mutual

def Ast.references : Ast → List Reference
  | .ref r => [r.reference]
  | .range r => [r.reference]
  | .unary _ expr => expr.references
  | .percent expr => expr.references
  | .bin _ left right => left.references ++ right.references
  | .func _ args => argReferences args
  | .num _ | .str _ | .err _ | .name _ | .array _ | .namedRange _ _ => []

def argReferences : List Ast → List Reference
  | [] => []
  | arg :: args => arg.references ++ argReferences args

end

namespace Reference

variable (casefold : String → String)

/-- In a formula on `own`, the reference is into this sheet of this workbook. -/
def OnSheet (own sheet : String) (r : Reference) : Prop :=
  r.external = none ∧
    if Cell.given r.sheet then casefold (sheetOr r.sheet own) = casefold sheet else sheet = own

instance (own sheet : String) (r : Reference) : Decidable (r.OnSheet casefold own sheet) :=
  inferInstanceAs (Decidable (_ ∧ _))

def Names (own sheet : String) (row : ℕ) (r : Reference) : Prop :=
  r.OnSheet casefold own sheet ∧ ∀ span ∈ r.rows, span.1 ≤ row ∧ row ≤ span.2

instance (own sheet : String) (row : ℕ) (r : Reference) :
    Decidable (r.Names casefold own sheet row) :=
  inferInstanceAs (Decidable (_ ∧ _))

end Reference

/-- The rows of one sheet that a shape looks up. -/
structure Spot where
  sheet : String
  lo : ℕ
  hi : ℕ
  needsId : Bool

def Spot.Reaches (layout : Layout) (key : RowKey) (spot : Spot) : Prop :=
  key.sheet = spot.sheet ∧ spot.lo ≤ key.row ∧ key.row ≤ spot.hi ∧
    layout.blockIdAt spot.sheet key.row = some key.blockId ∧
      (spot.needsId = true → key.blockId ≠ "")

def Shape.spots (own : String) : Shape → List Spot
  | .alias sheet row => [⟨sheet, row, row, false⟩]
  | .roll _ row => [⟨own, row, row, false⟩]
  | .aggregate lo hi => [⟨own, lo, hi, true⟩]
  | .diff left right => [⟨own, left, left, true⟩, ⟨own, right, right, true⟩]
  | .prorate | .ratio => []

/-- The operands a shape is read from, in the order of its spots. -/
def Ast.operands : Ast → List Reference
  | .ref r => [r.reference]
  | .func _ [.range r] => [r.reference]
  | .bin _ (.ref left) (.ref right) => [left.reference, right.reference]
  | _ => []

theorem operands_subset (ast : Ast) : ∀ r ∈ ast.operands, r ∈ ast.references := by
  intro r hr
  unfold Ast.operands at hr
  split at hr
  · exact hr
  · simpa [Ast.references, argReferences] using hr
  · simpa [Ast.references] using hr
  · cases hr

section

variable (casefold upper : String → String)

/-- The rows a formula's shape looks up, each with the operand it comes from. -/
def readings (own : String) (row : ℕ) (formula : ℕ × Ast) : List (Spot × Reference) :=
  match shape casefold upper own formula.1 row formula.2 with
  | some s => (s.spots own).zip formula.2.operands
  | none => []

/-- The formula whose shape stands for the row: the first one of the kind most have. -/
def decidingFormula (own : String) (row : ℕ) (formulas : List (ℕ × Ast)) : Option (ℕ × Ast) :=
  (majorityKind (rowShapes casefold upper own row formulas)).bind fun top =>
    formulas.find? fun f => (shape casefold upper own f.1 row f.2).any (·.kind = top)

def rowFormulas (cells : List RelationCell) (sheet : SheetLayout) (block : Block) (row : ℕ) :
    List (ℕ × Ast) :=
  match get (sheet.name, row) (filled (rowRuns cells)) with
  | some run => periodFormulas (colmap run) (Layout.periodCols sheet block)
  | none => []

end

theorem sheetOr_sheetOr (named : Option String) (own : String) :
    sheetOr (some (sheetOr named own)) own = sheetOr named own := by
  unfold sheetOr Cell.given
  cases named with
  | none => by_cases h : own = "" <;> simp [h]
  | some s => by_cases h : s = "" <;> by_cases h' : own = "" <;> simp [h, h']

section

variable {casefold upper : String → String}

theorem rows_of_rangeRows {r : RangeRef} {col : ℕ} {span : ℕ × ℕ}
    (h : rangeRows r col = some span) : r.reference.rows = some span := by
  unfold rangeRows at h
  unfold RangeRef.reference
  split at h
  · cases h
  · split at h
    · next first last hfirst hlast =>
      split_ifs at h
      simpa only [hfirst, hlast] using h
    · cases h

/-- The formulas that have a shape with spots, and what the shape keeps of them. -/
inductive ReadFrom (casefold : String → String) (own : String) (col : ℕ) : Ast → Shape → Prop where
  | roll (r : CellRef) (h : casefold (sheetOr r.sheet own) = casefold own) :
    ReadFrom casefold own col (.ref r) (.roll (sheetOr r.sheet own) r.row)
  | cell (r : CellRef) : ReadFrom casefold own col (.ref r) (.alias (sheetOr r.sheet own) r.row)
  | sum (name : String) (r : RangeRef) (lo hi : ℕ) (h : rangeRows r col = some (lo, hi)) :
    ReadFrom casefold own col (.func name [.range r]) (.aggregate lo hi)
  | difference (l r : CellRef) :
    ReadFrom casefold own col (.bin .sub (.ref l) (.ref r)) (.diff l.row r.row)
  | quotient (l r : Ast) (s : Shape) (h : s = .prorate ∨ s = .ratio) :
    ReadFrom casefold own col (.bin .div l r) s

theorem refRow_eq_some {own : String} {col : ℕ} {ast : Ast} {p : String × ℕ}
    (h : refRow own col ast = some p) : ∃ r, ast = .ref r ∧ p.2 = r.row := by
  unfold refRow at h
  split at h
  · next r =>
    split_ifs at h
    exact ⟨r, rfl, by rw [← Option.some.inj h]⟩
  · cases h

theorem readFrom_of_shape {own : String} {col row : ℕ} {ast : Ast} {s : Shape}
    (h : shape casefold upper own col row ast = some s) : ReadFrom casefold own col ast s := by
  unfold shape at h
  split at h
  · next r =>
    simp only at h
    split_ifs at h with hroll
    · rw [← Option.some.inj h]
      exact .roll r hroll.1
    · rw [← Option.some.inj h]
      exact .cell r
  · next name r =>
    split_ifs at h
    obtain ⟨⟨lo, hi⟩, hspan, rfl⟩ := Option.map_eq_some_iff.mp h
    exact .sum name r lo hi hspan
  · next left right =>
    split at h
    · next l r hl hr =>
      obtain ⟨cl, rfl, hlrow⟩ := refRow_eq_some hl
      obtain ⟨cr, rfl, hrrow⟩ := refRow_eq_some hr
      rw [← Option.some.inj h, hlrow, hrrow]
      exact .difference cl cr
    · cases h
  · next left right =>
    refine .quotient left right s ?_
    rw [← Option.some.inj h]
    split_ifs
    · exact .inl rfl
    · exact .inr rfl
  · cases h

theorem sheetOr_of_readFrom {own : String} {col : ℕ} {ast : Ast} {target : String} {n : ℕ}
    (h : ReadFrom casefold own col ast (.alias target n)) : sheetOr (some target) own = target := by
  cases h with
  | cell r => exact sheetOr_sheetOr _ _
  | quotient l r _ hq => rcases hq with hq | hq <;> cases hq

theorem rows_of_readings {own : String} {row : ℕ} {formula : ℕ × Ast} {p : Spot × Reference}
    (h : p ∈ readings casefold upper own row formula) :
    p.2.rows = some (p.1.lo, p.1.hi) ∧ p.2 ∈ formula.2.references := by
  obtain ⟨col, ast⟩ := formula
  unfold readings at h
  split at h
  · next s hs =>
    refine ⟨?_, operands_subset _ _ (List.of_mem_zip h).2⟩
    cases readFrom_of_shape hs with
    | roll r _ | cell r => rw [List.mem_singleton.mp h]; rfl
    | sum name r lo hi hspan =>
      rw [List.mem_singleton.mp h]
      exact rows_of_rangeRows hspan
    | difference l r =>
      rcases List.mem_cons.mp h with rfl | h
      · rfl
      · rw [List.mem_singleton.mp h]; rfl
    | quotient l r _ hq => rcases hq with rfl | rfl <;> cases h
  · cases h

theorem spot_mem_readings {own : String} {row : ℕ} {formula : ℕ × Ast} {s : Shape} {spot : Spot}
    (hs : shape casefold upper own formula.1 row formula.2 = some s) (h : spot ∈ s.spots own) :
    ∃ ref, (spot, ref) ∈ readings casefold upper own row formula := by
  obtain ⟨col, ast⟩ := formula
  simp only [readings, hs]
  cases readFrom_of_shape hs with
  | roll r _ | cell r => exact ⟨r.reference, by rw [List.mem_singleton.mp h]; simp [Shape.spots, Ast.operands]⟩
  | sum name r lo hi hspan =>
    exact ⟨r.reference, by rw [List.mem_singleton.mp h]; simp [Shape.spots, Ast.operands]⟩
  | difference l r =>
    rcases List.mem_cons.mp h with rfl | h
    · exact ⟨l.reference, by simp [Shape.spots, Ast.operands]⟩
    · exact ⟨r.reference, by rw [List.mem_singleton.mp h]; simp [Shape.spots, Ast.operands]⟩
  | quotient l r _ hq => rcases hq with rfl | rfl <;> cases h

theorem reaches_row {layout : Layout} {sheet : String} {n : ℕ} {needsId : Bool} {key : RowKey} :
    (⟨sheet, n, n, needsId⟩ : Spot).Reaches layout key ↔
      ∃ id, layout.blockIdAt sheet n = some id ∧ (needsId = true → id ≠ "") ∧
        key = ⟨sheet, n, id⟩ := by
  constructor
  · rintro ⟨rfl, hlo, hhi, hid, hne⟩
    obtain rfl := Nat.le_antisymm hlo hhi
    exact ⟨key.blockId, hid, hne, rfl⟩
  · rintro ⟨id, hid, hne, rfl⟩
    exact ⟨rfl, Nat.le_refl n, Nat.le_refl n, hid, hne⟩

theorem mem_keys_pattern {layout : Layout} {own : String} {block : Block} {row : ℕ} {s : Shape}
    {template : Option String} {key : RowKey} (hs : ∀ sheet n, s = .alias sheet n →
      sheetOr (some sheet) own = sheet) :
    (∃ relation ∈ relationFromPattern layout own block row (s.pattern template),
      key ∈ relation.keys) ↔ ∃ spot ∈ s.spots own, spot.Reaches layout key := by
  cases s with
  | «alias» sheet n =>
    simp only [Shape.pattern, relationFromPattern, hs sheet n rfl, Shape.spots,
      List.mem_singleton, exists_eq_left, reaches_row, Option.bind_some, Option.mem_def,
      Option.map_eq_some_iff]
    constructor
    · rintro ⟨relation, ⟨id, hid, rfl⟩, hkey⟩
      exact ⟨id, hid, by simp, by simpa [RowRelation.keys] using hkey⟩
    · rintro ⟨id, hid, -, rfl⟩
      exact ⟨_, ⟨id, hid, rfl⟩, by simp [RowRelation.keys]⟩
  | roll sheet n =>
    simp only [Shape.pattern, relationFromPattern, Shape.spots,
      List.mem_singleton, exists_eq_left, reaches_row, Option.bind_some, Option.mem_def,
      Option.map_eq_some_iff]
    constructor
    · rintro ⟨relation, ⟨id, hid, rfl⟩, hkey⟩
      exact ⟨id, hid, by simp, by simpa [RowRelation.keys] using hkey⟩
    · rintro ⟨id, hid, -, rfl⟩
      exact ⟨_, ⟨id, hid, rfl⟩, by simp [RowRelation.keys]⟩
  | aggregate lo hi =>
    simp only [Shape.pattern, relationFromPattern, Shape.spots, List.mem_singleton,
      exists_eq_left, Option.map_some, Option.mem_def, Option.some.injEq]
    constructor
    · rintro ⟨relation, rfl, hkey⟩
      obtain ⟨rfl, hlo, hhi, hid, hne⟩ :=
        mem_memberKeysInSpan.mp (by simpa [RowRelation.keys] using hkey)
      exact ⟨rfl, hlo, hhi, hid, fun _ => hne⟩
    · rintro ⟨hsheet, hlo, hhi, hid, hne⟩
      refine ⟨_, rfl, ?_⟩
      simp only [RowRelation.keys, Option.toList_none, List.nil_append]
      exact mem_memberKeysInSpan.mpr ⟨hsheet, hlo, hhi, hid, hne rfl⟩
  | diff left right =>
    have hmember (n : ℕ) : (layout.blockIdAt own n).bind (fun id =>
        if id = "" then none else some (⟨own, n, id⟩ : RowKey)) = some key ↔
          (⟨own, n, n, true⟩ : Spot).Reaches layout key := by
      rw [reaches_row, Option.bind_eq_some_iff]
      constructor
      · rintro ⟨id, hid, hif⟩
        split_ifs at hif with hne
        exact ⟨id, hid, fun _ => hne, (Option.some.inj hif).symm⟩
      · rintro ⟨id, hid, hne, rfl⟩
        exact ⟨id, hid, if_neg (hne rfl)⟩
    simp only [Shape.pattern, relationFromPattern, Shape.spots, Option.map_some, Option.mem_def,
      Option.some.injEq, exists_eq_left', RowRelation.keys, Option.toList_none, List.nil_append,
      List.mem_filterMap, List.mem_cons, List.not_mem_nil, or_false, exists_eq_or_imp,
      exists_eq_left, hmember]
  | prorate => simp [Shape.pattern, relationFromPattern, Shape.spots]
  | ratio => simp [Shape.pattern, relationFromPattern, Shape.spots]

variable (casefold upper) in
theorem relationFromPattern_patternForRow (layout : Layout) (own : String) (block : Block)
    (row : ℕ) (cells : ℕ → Option RelationCell) (cols : List ℕ) :
    ∃ template, relationFromPattern layout own block row
        (patternForRow casefold upper cells own row cols) =
      ((decidingFormula casefold upper own row (periodFormulas cells cols)).bind fun f =>
        shape casefold upper own f.1 row f.2).bind fun s =>
          relationFromPattern layout own block row (s.pattern template) := by
  refine ⟨(mostCommon (cols.filterMap fun col => (cells col).bind fun cell =>
    if Cell.given cell.formulaTemplate then cell.formulaTemplate else none)).map Prod.fst, ?_⟩
  unfold patternForRow decidingFormula
  simp only
  generalize hshapes : rowShapes casefold upper own row (periodFormulas cells cols) = shapes
  split_ifs with hnil
  · rw [hnil]
    rfl
  · cases hmajor : majorityKind shapes with
    | none => rfl
    | some top =>
      have hfind : shapes.find? (·.kind = top) =
          ((periodFormulas cells cols).find? fun f =>
            (shape casefold upper own f.1 row f.2).any (·.kind = top)).bind fun f =>
              shape casefold upper own f.1 row f.2 := by
        rw [← hshapes, rowShapes, List.find?_filterMap]
      simp only [Option.bind_some, ← hfind]
      cases hsample : shapes.find? (·.kind = top) with
      | some sample => rfl
      | none => cases top <;> rfl

theorem periodCols_mem_periodsAt {layout : Layout} {sheet : SheetLayout} {block : Block}
    {row : LayoutRow} (hs : sheet ∈ layout.sheets) (hb : block ∈ sheet.blocks)
    (hr : row ∈ block.rows) :
    Layout.periodCols sheet block ∈ layout.periodsAt (sheet.name, row.row) := by
  refine List.mem_flatMap.mpr ⟨(sheet, block), ?_, ?_⟩
  · refine List.mem_flatMap.mpr ⟨sheet, List.mem_filter.mpr ⟨hs, decide_eq_true rfl⟩, ?_⟩
    exact List.mem_map.mpr ⟨block, hb, rfl⟩
  · exact List.mem_map.mpr ⟨row, List.mem_filter.mpr ⟨hr, decide_eq_true rfl⟩, rfl⟩

variable (casefold upper) in
theorem mem_keys_relationOf {layout : Layout} (cells : List RelationCell) {sheet : SheetLayout}
    {block : Block} {row : LayoutRow} (hs : sheet ∈ layout.sheets) (hb : block ∈ sheet.blocks)
    (hr : row ∈ block.rows) (key : RowKey) :
    (∃ relation ∈ relationOf casefold upper layout cells sheet block row, key ∈ relation.keys) ↔
      ∃ f ∈ decidingFormula casefold upper sheet.name row.row
          (rowFormulas cells sheet block row.row),
        ∃ p ∈ readings casefold upper sheet.name row.row f, p.1.Reaches layout key := by
  unfold relationOf rowFormulas
  rw [get_rowPatterns (periodCols_mem_periodsAt hs hb hr)]
  cases get (sheet.name, row.row) (filled (rowRuns cells)) with
  | none => simp [decidingFormula, rowShapes, majorityKind, mostCommon, tally]
  | some run =>
    obtain ⟨template, hrel⟩ := relationFromPattern_patternForRow casefold upper layout
      sheet.name block row.row (colmap run)
      (Layout.periodCols sheet block)
    simp only [Option.map_some, Option.bind_some, hrel]
    cases hf : decidingFormula casefold upper sheet.name row.row
      (periodFormulas (colmap run) (Layout.periodCols sheet block)) with
    | none => simp
    | some f =>
      simp only [Option.bind_some, Option.mem_def, Option.some.injEq, exists_eq_left']
      cases hshape : shape casefold upper sheet.name f.1 row.row f.2 with
      | none => simp [readings, hshape]
      | some s =>
        have halias : ∀ target n, s = .alias target n →
            sheetOr (some target) sheet.name = target := by
          rintro target n rfl
          exact sheetOr_of_readFrom (readFrom_of_shape hshape)
        rw [Option.bind_some]
        refine (mem_keys_pattern halias).trans ?_
        constructor
        · rintro ⟨spot, hspot, hreach⟩
          obtain ⟨ref, href⟩ := spot_mem_readings hshape hspot
          exact ⟨(spot, ref), href, hreach⟩
        · rintro ⟨p, hp, hreach⟩
          simp only [readings, hshape] at hp
          exact ⟨p.1, (List.of_mem_zip hp).1, hreach⟩

end

section

variable (casefold upper : String → String)

/-- The key names a layout row that one of the formulas refers to, on its sheet. -/
def KeySound (layout : Layout) (own : String) (formulas : List (ℕ × Ast)) (key : RowKey) : Prop :=
  layout.blockIdAt key.sheet key.row = some key.blockId ∧
    ∃ f ∈ formulas, ∃ ref ∈ f.2.references, ref.Names casefold own key.sheet key.row

instance (layout : Layout) (own : String) (formulas : List (ℕ × Ast)) (key : RowKey) :
    Decidable (KeySound casefold layout own formulas key) :=
  inferInstanceAs (Decidable (_ ∧ ∃ f ∈ formulas, ∃ ref ∈ f.2.references,
    ref.Names casefold own key.sheet key.row))

/-- The deciding formula's operands are on the sheets they are looked up on, or what is found
there is referred to by another formula of the row. -/
def Grounded (layout : Layout) (own : String) (row : ℕ) (formulas : List (ℕ × Ast)) : Prop :=
  ∀ f ∈ decidingFormula casefold upper own row formulas,
    ∀ p ∈ readings casefold upper own row f, p.2.OnSheet casefold own p.1.sheet ∨
      ∀ key : RowKey, p.1.Reaches layout key →
        ∃ g ∈ formulas, ∃ ref ∈ g.2.references, ref.Names casefold own key.sheet key.row

theorem relation_sound_iff (layout : Layout) (cells : List RelationCell) {sheet : SheetLayout}
    {block : Block} {row : LayoutRow} (hs : sheet ∈ layout.sheets) (hb : block ∈ sheet.blocks)
    (hr : row ∈ block.rows) :
    (∀ relation ∈ relationOf casefold upper layout cells sheet block row,
      ∀ key ∈ relation.keys,
        KeySound casefold layout sheet.name (rowFormulas cells sheet block row.row) key) ↔
      Grounded casefold upper layout sheet.name row.row (rowFormulas cells sheet block row.row) := by
  have hkeys (key : RowKey) := mem_keys_relationOf casefold upper cells hs hb hr key
  constructor
  · intro hsound f hf p hp
    refine Classical.or_iff_not_imp_left.mpr fun _ key hreach => ?_
    obtain ⟨relation, hrel, hkey⟩ := (hkeys key).mpr ⟨f, hf, p, hp, hreach⟩
    exact (hsound relation hrel key hkey).2
  · intro hground relation hrel key hkey
    obtain ⟨f, hf, p, hp, hreach⟩ := (hkeys key).mp ⟨relation, hrel, hkey⟩
    obtain ⟨hsheet, hlo, hhi, hid, hne⟩ := hreach
    refine ⟨by rw [hsheet]; exact hid, ?_⟩
    rcases hground f hf p hp with hon | hcovered
    · obtain ⟨hrows, href⟩ := rows_of_readings hp
      have hmem : f ∈ rowFormulas cells sheet block row.row := by
        obtain ⟨top, -, hfind⟩ := Option.bind_eq_some_iff.mp hf
        exact List.mem_of_find?_eq_some hfind
      refine ⟨f, hmem, p.2, href, by rw [hsheet]; exact hon, fun span hspan => ?_⟩
      rw [Option.mem_def, hrows] at hspan
      rw [← Option.some.inj hspan]
      exact ⟨hlo, hhi⟩
    · exact hcovered key ⟨hsheet, hlo, hhi, hid, hne⟩

end

def flowBlock (id : String) (rows : List ℕ) : Block where
  blockId := id
  labelCol := 1
  axis := some ⟨id, 1, [{ col := 4, text := "2024", kind := some .period, periodKey := "2024" }]⟩
  rows := rows.map fun n => { row := n, label := "Line" }

def flowSheet : SheetLayout := ⟨"CF", false, [], [flowBlock "CF!r1" [2, 3, 10]]⟩

def twoSheets : Layout := ⟨[flowSheet, ⟨"Ops", false, [], [flowBlock "Ops!r1" [2, 3]]⟩]⟩

/-- `=SUM(D2:D3)` in `CF!D10`, of this sheet or of the one named. -/
def totalCell (sheet : Option String) : RelationCell where
  sheet := "CF"
  row := 10
  col := 4
  ast := some (.func "SUM" [.range { sheet := sheet, start := ⟨some 4, some 2⟩
                                     finish := ⟨some 4, some 3⟩ }])

def lowered (text : String) : String := String.ofList (text.toList.map Char.toLower)

def uppered (text : String) : String := String.ofList (text.toList.map Char.toUpper)

theorem relation_sound_iff_own :
    (relationOf lowered uppered twoSheets [totalCell none] flowSheet
      (flowBlock "CF!r1" [2, 3, 10]) { row := 10, label := "Line" }).isSome ∧
    ∀ relation ∈ relationOf lowered uppered twoSheets [totalCell none] flowSheet
        (flowBlock "CF!r1" [2, 3, 10]) { row := 10, label := "Line" },
      ∀ key ∈ relation.keys, KeySound lowered twoSheets "CF"
        (rowFormulas [totalCell none] flowSheet (flowBlock "CF!r1" [2, 3, 10]) 10) key := by
  refine ⟨by decide, (relation_sound_iff lowered uppered twoSheets [totalCell none]
    (show flowSheet ∈ twoSheets.sheets from List.mem_cons_self)
    (show flowBlock "CF!r1" [2, 3, 10] ∈ flowSheet.blocks from List.mem_cons_self)
    (by decide)).mpr ?_⟩
  intro f hf p hp
  left
  have hsum : decidingFormula lowered uppered "CF" 10
      (rowFormulas [totalCell none] flowSheet (flowBlock "CF!r1" [2, 3, 10]) 10) =
        some (4, .func "SUM" [.range { start := ⟨some 4, some 2⟩, finish := ⟨some 4, some 3⟩ }]) :=
    rfl
  have hfirst := Option.some.inj (hsum.symm.trans hf)
  rw [← hfirst] at hp
  rw [List.mem_singleton.mp hp]
  exact ⟨rfl, rfl⟩

/-- The total of the operations rows is published as the total of the cash flow rows. -/
theorem foreignSum_misread :
    ∃ relation ∈ relationOf lowered uppered twoSheets [totalCell (some "Ops")]
        flowSheet (flowBlock "CF!r1" [2, 3, 10]) { row := 10, label := "Line" },
      relation.members = [⟨"CF", 2, "CF!r1"⟩, ⟨"CF", 3, "CF!r1"⟩] ∧
        ∀ key ∈ relation.keys, ¬KeySound lowered twoSheets "CF"
          (rowFormulas [totalCell (some "Ops")] flowSheet (flowBlock "CF!r1" [2, 3, 10]) 10)
            key := by
  decide

end FinanceContext
