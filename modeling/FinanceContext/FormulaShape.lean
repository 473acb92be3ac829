import FinanceContext.Cells
import FinanceContext.Dictionaries

namespace FinanceContext

open Dictionaries

inductive BinOp where
  | concat | eq | ne | lt | gt | le | ge | add | sub | mul | div | pow
  deriving DecidableEq, Repr

structure CellRef where
  external : Option String := none
  sheet : Option String := none
  col : ℕ
  row : ℕ

/-- An end of a range; a whole column has no row and a whole row no column. -/
structure Corner where
  col : Option ℕ
  row : Option ℕ

structure RangeRef where
  external : Option String := none
  sheet : Option String := none
  start : Corner
  finish : Corner
  colOnly : Bool := false
  rowOnly : Bool := false

inductive Ast where
  | num (value : String)
  | str (value : String)
  | err (value : String)
  | name (value : String)
  | array (rows : List (List String))
  | namedRange (first last : String)
  | ref (r : CellRef)
  | range (r : RangeRef)
  | unary (minus : Bool) (expr : Ast)
  | percent (expr : Ast)
  | bin (kind : BinOp) (left right : Ast)
  | func (name : String) (args : List Ast)

inductive Shape where
  | roll (sheet : String) (row : ℕ)
  | alias (sheet : String) (row : ℕ)
  | aggregate (lo hi : ℕ)
  | diff (left right : ℕ)
  | prorate
  | ratio
  deriving DecidableEq, Repr

inductive PatternKind where
  | value | mixed | roll | alias | aggregate | diff | prorate | ratio
  deriving DecidableEq, Repr

def Shape.kind : Shape → PatternKind
  | .roll _ _ => .roll
  | .alias _ _ => .alias
  | .aggregate _ _ => .aggregate
  | .diff _ _ => .diff
  | .prorate => .prorate
  | .ratio => .ratio

structure RowPattern where
  kind : PatternKind := .value
  aliasSheet : Option String := none
  aliasRow : Option ℕ := none
  aggregateSpan : Option (ℕ × ℕ) := none
  diffRows : Option (ℕ × ℕ) := none
  rollFromRow : Option ℕ := none
  isRatio : Bool := false
  isTotal : Bool := false
  template : Option String := none

/-- A cell as the relations stage reads it; `ast` is what `_ast_for` finds in it. -/
structure RelationCell where
  sheet : String
  row : ℕ
  col : ℕ
  formulaTemplate : Option String := none
  ast : Option Ast := none

def RelationCell.key (cell : RelationCell) : String × ℕ := (cell.sheet, cell.row)

def excelMaxRow : ℕ := 1048576

/-- `ref.get("sheet") or sheet`. -/
def sheetOr (named : Option String) (own : String) : String :=
  if Cell.given named then named.getD own else own

def rangeRows (r : RangeRef) (col : ℕ) : Option (ℕ × ℕ) :=
  if r.colOnly || r.rowOnly then none
  else match r.start.row, r.finish.row with
    | some first, some last =>
      if r.start.col ≠ some col ∨ r.finish.col ≠ some col then none
      else if excelMaxRow ≤ max first last - min first last + 1 then none
      else some (min first last, max first last)
    | _, _ => none

def refRow (own : String) (col : ℕ) : Ast → Option (String × ℕ)
  | .ref r => if r.col ≠ col then none else some (sheetOr r.sheet own, r.row)
  | _ => none

/-- `_is_proration` of a division with this divisor. -/
def isProration : Ast → Bool
  | .name _ | .num _ => true
  | .bin _ _ right => isProration right
  | _ => false

section

variable (casefold upper : String → String)

def isSum (name : String) : Bool := upper name = "SUM" || upper name = "СУММ"

def shape (own : String) (col row : ℕ) : Ast → Option Shape
  | .ref r =>
    let target := sheetOr r.sheet own
    if casefold target = casefold own ∧ r.col + 1 = col ∧ r.row ≠ row then
      some (.roll target r.row)
    else if r.row ≠ row then some (.alias target r.row)
    else none
  | .func name [.range r] =>
    if isSum upper name then (rangeRows r col).map fun span => .aggregate span.1 span.2 else none
  | .bin .sub left right =>
    match refRow own col left, refRow own col right with
    | some l, some r => some (.diff l.2 r.2)
    | _, _ => none
  | .bin .div _ right => some (if isProration right then .prorate else .ratio)
  | _ => none

end

/-- `Counter`. -/
def tally {α : Type} [DecidableEq α] (items : List α) : List (α × ℕ) :=
  items.foldl (fun counts a => set a ((get a counts).getD 0 + 1) counts) []

/-- `Counter.most_common(1)`: the first key of the highest count. -/
def mostCommon {α : Type} [DecidableEq α] (items : List α) : Option (α × ℕ) :=
  (tally items).foldl (fun best p => match best with
    | none => some p
    | some b => if b.2 < p.2 then some p else some b) none

section

variable (casefold upper : String → String)

def periodFormulas (cells : ℕ → Option RelationCell) (cols : List ℕ) : List (ℕ × Ast) :=
  cols.filterMap fun col => (cells col).bind fun cell => cell.ast.map (col, ·)

def rowShapes (own : String) (row : ℕ) (formulas : List (ℕ × Ast)) : List Shape :=
  formulas.filterMap fun (col, ast) => shape casefold upper own col row ast

/-- The kind that at least 0.6 of the shapes have; the ceiling is taken in integers. -/
def majorityKind (shapes : List Shape) : Option PatternKind :=
  (mostCommon (shapes.map Shape.kind)).bind fun (top, count) =>
    if count < max 1 ((3 * shapes.length + 4) / 5) then none else some top

def Shape.pattern (template : Option String) : Shape → RowPattern
  | .alias sheet row =>
    { kind := .alias, aliasSheet := some sheet, aliasRow := some row, template := template }
  | .aggregate lo hi =>
    { kind := .aggregate, aggregateSpan := some (lo, hi), isTotal := true, template := template }
  | .diff left right => { kind := .diff, diffRows := some (left, right), template := template }
  | .roll _ row => { kind := .roll, rollFromRow := some row, template := template }
  | .ratio => { kind := .ratio, isRatio := true, template := template }
  | .prorate => { kind := .prorate, template := template }

def patternForRow (cells : ℕ → Option RelationCell) (own : String) (row : ℕ) (cols : List ℕ) :
    RowPattern :=
  let templates := cols.filterMap fun col => (cells col).bind fun cell =>
    if Cell.given cell.formulaTemplate then cell.formulaTemplate else none
  let template := (mostCommon templates).map Prod.fst
  let shapes := rowShapes casefold upper own row (periodFormulas cells cols)
  if shapes = [] then { template := template }
  else match majorityKind shapes with
    | none => { kind := .mixed, isRatio := shapes.any (·.kind = .ratio), template := template }
    | some top =>
      match shapes.find? (·.kind = top) with
      | some sample => sample.pattern template
      | none => { kind := top, template := template }

end

end FinanceContext
