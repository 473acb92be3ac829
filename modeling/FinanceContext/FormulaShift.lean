import Mathlib.Data.List.Forall2
import FinanceContext.FormulaEngine
import FinanceContext.FormulaRoundTrip

namespace FinanceContext.Formula

open OperatorParsing

variable {ν : Type}

section Shifting

variable (dc dr : ℤ)

/-- One coordinate of `_shift_point`. -/
def shiftCoord (d : ℤ) (fixed : Bool) (position : ℕ) : ℕ :=
  if fixed then position else (max (position + d) 1).toNat

def shiftPoint (point : CellPoint) : CellPoint :=
  { point with
    col := shiftCoord dc point.absCol point.col
    row := shiftCoord dr point.absRow point.row }

def shiftBody : Body → Body
  | .cell point => .cell (shiftPoint dc dr point)
  | .rect start finish => .rect (shiftPoint dc dr start) (shiftPoint dc dr finish)
  | .cols start finish =>
    .cols { start with col := shiftCoord dc start.absCol start.col }
      { finish with col := shiftCoord dc finish.absCol finish.col }
  | .rows start finish =>
    .rows { start with row := shiftCoord dr start.absRow start.row }
      { finish with row := shiftCoord dr finish.absRow finish.row }

mutual

def shiftAst : Ast ν → Ast ν
  | .ref external sheet body => .ref external sheet (shiftBody dc dr body)
  | .func name args => .func name (shiftArgs args)
  | .bin kind left right => .bin kind (shiftAst left) (shiftAst right)
  | .unary kind expr => .unary kind (shiftAst expr)
  | .percent expr => .percent (shiftAst expr)
  | .num value => .num value
  | .str value => .str value
  | .err value => .err value
  | .name value => .name value
  | .namedRange first last => .namedRange first last
  | .array rows => .array rows

def shiftArgs : List (Ast ν) → List (Ast ν)
  | [] => []
  | arg :: args => shiftAst arg :: shiftArgs args

end

/-- A coordinate that does not fall below 1. -/
def CoordStays (d : ℤ) (fixed : Bool) (position : ℕ) : Prop :=
  fixed = false → 1 ≤ (position : ℤ) + d

def PointStays (point : CellPoint) : Prop :=
  CoordStays dc point.absCol point.col ∧ CoordStays dr point.absRow point.row

def BodyStays : Body → Prop
  | .cell point => PointStays dc dr point
  | .rect start finish => PointStays dc dr start ∧ PointStays dc dr finish
  | .cols start finish =>
    CoordStays dc start.absCol start.col ∧ CoordStays dc finish.absCol finish.col
  | .rows start finish =>
    CoordStays dr start.absRow start.row ∧ CoordStays dr finish.absRow finish.row

mutual

/-- No relative coordinate of the tree falls below 1. -/
def Stays : Ast ν → Prop
  | .ref _ _ body => BodyStays dc dr body
  | .func _ args => ArgsStay args
  | .bin _ left right => Stays left ∧ Stays right
  | .unary _ expr => Stays expr
  | .percent expr => Stays expr
  | .num _ | .str _ | .err _ | .name _ | .namedRange _ _ | .array _ => True

def ArgsStay : List (Ast ν) → Prop
  | [] => True
  | arg :: args => Stays arg ∧ ArgsStay args

end

end Shifting

/-- `shift_parsed`, with the columns and rows of the master and of the member. -/
def shiftParsed (engine : Engine) (table : TextTable) (floats : Floats ν)
    (parsed : ParsedFormula ν) (sheet : String) (fromCol fromRow toCol toRow : ℕ) :
    ParsedFormula ν :=
  match parsed.unparsed, parsed.ast with
  | false, some master =>
    let dc := (toCol : ℤ) - fromCol
    let dr := (toRow : ℤ) - fromRow
    let ast := if dc = 0 ∧ dr = 0 then master else shiftAst dc dr master
    { ast := some ast
      template := some ('=' :: render floats toCol toRow engine.sep engine.decimal ast)
      unparsed := false
      edges := collectEdges table sheet (nodeId sheet (formatAddr toCol toRow)) false ast }
  | _, _ => refused

section Templates

variable {dc dr : ℤ}

theorem cast_shiftCoord {d : ℤ} {position : ℕ} (h : CoordStays d false position) :
    (shiftCoord d false position : ℤ) = position + d := by
  have hpos := h rfl
  have hmax : max ((position : ℤ) + d) 1 = position + d := max_eq_left hpos
  simp only [shiftCoord, hmax, Bool.false_eq_true, if_false]
  omega

theorem offset_shiftCoord {mark : Char} {d : ℤ} {fixed : Bool} {position origin target : ℕ}
    (h : CoordStays d fixed position) (htarget : (target : ℤ) = origin + d) :
    offset mark (shiftCoord d fixed position) target fixed = offset mark position origin fixed := by
  cases fixed with
  | true => rfl
  | false =>
    have hdiff : (shiftCoord d false position : ℤ) - target = position - origin := by
      rw [cast_shiftCoord h, htarget]
      omega
    simp only [offset, Bool.false_eq_true, if_false, hdiff]

theorem renderRef_shift {originCol originRow toCol toRow : ℕ} {body : Body}
    (h : BodyStays dc dr body) (hcol : (toCol : ℤ) = originCol + dc)
    (hrow : (toRow : ℤ) = originRow + dr) (external sheet : Option (List Char)) :
    renderRef toCol toRow external sheet (shiftBody dc dr body) =
      renderRef originCol originRow external sheet body := by
  unfold renderRef
  cases body with
  | cell point =>
    simp only [shiftBody, shiftPoint, r1c1, rowOffset, colOffset]
    rw [offset_shiftCoord h.1 hcol, offset_shiftCoord h.2 hrow]
  | rect start finish =>
    simp only [shiftBody, shiftPoint, r1c1, rowOffset, colOffset]
    rw [offset_shiftCoord h.1.1 hcol, offset_shiftCoord h.1.2 hrow, offset_shiftCoord h.2.1 hcol,
      offset_shiftCoord h.2.2 hrow]
  | cols start finish =>
    simp only [shiftBody, colOffset]
    rw [offset_shiftCoord h.1 hcol, offset_shiftCoord h.2 hcol]
  | rows start finish =>
    simp only [shiftBody, rowOffset]
    rw [offset_shiftCoord h.1 hrow, offset_shiftCoord h.2 hrow]

theorem prec_shiftAst (ast : Ast ν) : prec (shiftAst dc dr ast) = prec ast := by
  cases ast <;> simp only [shiftAst, prec]

variable (floats : Floats ν) (sep decimal : Char) {originCol originRow toCol toRow : ℕ}

mutual

theorem render_shiftAst (hcol : (toCol : ℤ) = originCol + dc)
    (hrow : (toRow : ℤ) = originRow + dr) : ∀ ast : Ast ν, Stays dc dr ast →
      render floats toCol toRow sep decimal (shiftAst dc dr ast) =
        render floats originCol originRow sep decimal ast
  | .num _, _ | .str _, _ | .err _, _ | .name _, _ | .namedRange _ _, _ | .array _, _ => by
    simp only [shiftAst, render]
  | .ref external sheet body, h => by
    simp only [shiftAst, render]
    exact renderRef_shift h hcol hrow external sheet
  | .unary kind expr, h => by
    simp only [shiftAst, render, prec_shiftAst]
    rw [render_shiftAst hcol hrow expr h]
  | .percent expr, h => by
    simp only [shiftAst, render]
    rw [render_shiftAst hcol hrow expr h]
  | .bin kind left right, h => by
    simp only [shiftAst, render, prec_shiftAst]
    rw [render_shiftAst hcol hrow left h.1, render_shiftAst hcol hrow right h.2]
  | .func name args, h => by
    simp only [shiftAst, render]
    rw [renderArgs_shiftArgs hcol hrow args h]

theorem renderArgs_shiftArgs (hcol : (toCol : ℤ) = originCol + dc)
    (hrow : (toRow : ℤ) = originRow + dr) : ∀ args : List (Ast ν), ArgsStay dc dr args →
      renderArgs floats toCol toRow sep decimal (shiftArgs dc dr args) =
        renderArgs floats originCol originRow sep decimal args
  | [], _ => rfl
  | arg :: args, h => by
    simp only [shiftArgs, renderArgs]
    rw [render_shiftAst hcol hrow arg h.1, renderArgs_shiftArgs hcol hrow args h.2]

end

end Templates

section Edges

variable (dc dr : ℤ)

/-- The coordinate of a moved cell: a fixed one is kept, a relative one is displaced. -/
def CoordMoved (d : ℤ) (fixed : Bool) (position moved : ℕ) : Prop :=
  (moved : ℤ) = if fixed then (position : ℤ) else position + d

def PointMoved (point moved : CellPoint) : Prop :=
  CoordMoved dc point.absCol point.col moved.col ∧ CoordMoved dr point.absRow point.row moved.row ∧
    moved.absCol = point.absCol ∧ moved.absRow = point.absRow

def BodyMoved : Body → Body → Prop
  | .cell point, .cell moved => PointMoved dc dr point moved
  | .rect start finish, .rect start' finish' =>
    PointMoved dc dr start start' ∧ PointMoved dc dr finish finish'
  | .cols start finish, .cols start' finish' =>
    CoordMoved dc start.absCol start.col start'.col ∧
      CoordMoved dc finish.absCol finish.col finish'.col ∧
      start'.absCol = start.absCol ∧ finish'.absCol = finish.absCol
  | .rows start finish, .rows start' finish' =>
    CoordMoved dr start.absRow start.row start'.row ∧
      CoordMoved dr finish.absRow finish.row finish'.row ∧
      start'.absRow = start.absRow ∧ finish'.absRow = finish.absRow
  | _, _ => False

/-- An edge of the moved cell: to the same name, or to the moved cell or range of the same sheet. -/
inductive EdgeMoved (source source' : String) : Csr.Edge → Csr.Edge → Prop where
  | unresolved (edge : Csr.Edge) (h : edge.unresolved = true) (hsource : edge.source = source) :
      EdgeMoved source source' edge { edge with source := source' }
  | place (kind sheet : String) {body moved : Body} (h : BodyMoved dc dr body moved) :
      EdgeMoved source source'
        (anchored { kind, source, target := some (nodeId sheet (bodyText body)) } body)
        (anchored { kind, source := source', target := some (nodeId sheet (bodyText moved)) } moved)

variable {dc dr}

theorem coordMoved_shiftCoord {d : ℤ} {fixed : Bool} {position : ℕ}
    (h : CoordStays d fixed position) :
    CoordMoved d fixed position (shiftCoord d fixed position) := by
  cases fixed with
  | true => rfl
  | false => exact cast_shiftCoord h

theorem pointMoved_shiftPoint {point : CellPoint} (h : PointStays dc dr point) :
    PointMoved dc dr point (shiftPoint dc dr point) :=
  ⟨coordMoved_shiftCoord h.1, coordMoved_shiftCoord h.2, rfl, rfl⟩

theorem bodyMoved_shiftBody {body : Body} (h : BodyStays dc dr body) :
    BodyMoved dc dr body (shiftBody dc dr body) := by
  cases body with
  | cell point => exact pointMoved_shiftPoint h
  | rect start finish => exact ⟨pointMoved_shiftPoint h.1, pointMoved_shiftPoint h.2⟩
  | cols start finish => exact ⟨coordMoved_shiftCoord h.1, coordMoved_shiftCoord h.2, rfl, rfl⟩
  | rows start finish => exact ⟨coordMoved_shiftCoord h.1, coordMoved_shiftCoord h.2, rfl, rfl⟩

theorem edgeMoved_refEdge {body : Body} (h : BodyStays dc dr body) (sheet source source' : String)
    (external name : Option (List Char)) :
    EdgeMoved dc dr source source' (refEdge sheet source external name body)
      (refEdge sheet source' external name (shiftBody dc dr body)) := by
  have hmoved := bodyMoved_shiftBody h
  have hbook (book text : String) :
      "[" ++ book ++ "]" ++ nodeId ((filled name).getD sheet) text =
        nodeId ("[" ++ book ++ "]" ++ (filled name).getD sheet) text := by
    simp [nodeId, String.append_assoc]
  unfold refEdge
  cases filled external with
  | some book =>
    simp only [hbook]
    exact .place "external" _ hmoved
  | none => cases body <;> exact .place _ _ hmoved

variable (table : TextTable) {sheet source source' : String}

mutual

theorem collectEdges_shiftAst (suppress : Bool) : ∀ ast : Ast ν, Stays dc dr ast →
    List.Forall₂ (EdgeMoved dc dr source source') (collectEdges table sheet source suppress ast)
      (collectEdges table sheet source' suppress (shiftAst dc dr ast))
  | .num _, _ | .str _, _ | .err _, _ | .array _, _ => by
    simp only [shiftAst, collectEdges]
    exact .nil
  | .name name, _ => by
    simp only [shiftAst, collectEdges]
    split_ifs
    · exact .nil
    · exact .cons (.unresolved (nameEdge source name) rfl rfl) .nil
  | .namedRange first last, _ => by
    simp only [shiftAst, collectEdges]
    split_ifs
    · exact .nil
    · exact .cons (.unresolved (namedRangeEdge source first last) rfl rfl) .nil
  | .ref external name body, h => by
    simp only [shiftAst, collectEdges]
    split_ifs
    · exact .nil
    · exact .cons (edgeMoved_refEdge h sheet source source' external name) .nil
  | .unary kind expr, h => by
    simp only [shiftAst, collectEdges]
    exact collectEdges_shiftAst suppress expr h
  | .percent expr, h => by
    simp only [shiftAst, collectEdges]
    exact collectEdges_shiftAst suppress expr h
  | .bin kind left right, h => by
    simp only [shiftAst, collectEdges]
    exact List.rel_append (collectEdges_shiftAst suppress left h.1)
      (collectEdges_shiftAst suppress right h.2)
  | .func name args, h => by
    simp only [shiftAst, collectEdges]
    apply List.rel_append
    · split_ifs
      · exact .cons (.unresolved (dynamicEdge source) rfl rfl) .nil
      · exact .nil
    · exact collectArgs_shiftArgs _ args h

theorem collectArgs_shiftArgs (suppress : Bool) : ∀ args : List (Ast ν), ArgsStay dc dr args →
    List.Forall₂ (EdgeMoved dc dr source source') (collectArgs table sheet source suppress args)
      (collectArgs table sheet source' suppress (shiftArgs dc dr args))
  | [], _ => .nil
  | arg :: args, h => by
    simp only [shiftArgs, collectArgs]
    exact List.rel_append (collectEdges_shiftAst suppress arg h.1)
      (collectArgs_shiftArgs suppress args h.2)

end

end Edges

theorem shiftCoord_zero {fixed : Bool} {position : ℕ} (h : CoordStays 0 fixed position) :
    shiftCoord 0 fixed position = position := by
  cases fixed with
  | true => rfl
  | false =>
    have hcast := cast_shiftCoord h
    omega

theorem shiftBody_zero {body : Body} (h : BodyStays 0 0 body) : shiftBody 0 0 body = body := by
  have hpoint {point : CellPoint} (h : PointStays 0 0 point) : shiftPoint 0 0 point = point := by
    unfold shiftPoint
    rw [shiftCoord_zero h.1, shiftCoord_zero h.2]
  cases body with
  | cell point => exact congrArg Body.cell (hpoint h)
  | rect start finish => exact congrArg₂ Body.rect (hpoint h.1) (hpoint h.2)
  | cols start finish => simp only [shiftBody, shiftCoord_zero h.1, shiftCoord_zero h.2]
  | rows start finish => simp only [shiftBody, shiftCoord_zero h.1, shiftCoord_zero h.2]

mutual

theorem shiftAst_zero : ∀ ast : Ast ν, Stays 0 0 ast → shiftAst 0 0 ast = ast
  | .num _, _ | .str _, _ | .err _, _ | .name _, _ | .namedRange _ _, _ | .array _, _ => by
    simp only [shiftAst]
  | .ref external sheet body, h => by
    simp only [shiftAst]
    exact congrArg _ (shiftBody_zero h)
  | .unary kind expr, h => by rw [shiftAst, shiftAst_zero expr h]
  | .percent expr, h => by rw [shiftAst, shiftAst_zero expr h]
  | .bin kind left right, h => by rw [shiftAst, shiftAst_zero left h.1, shiftAst_zero right h.2]
  | .func name args, h => by rw [shiftAst, shiftArgs_zero args h]

theorem shiftArgs_zero : ∀ args : List (Ast ν), ArgsStay 0 0 args → shiftArgs 0 0 args = args
  | [], _ => rfl
  | arg :: args, h => by rw [shiftArgs, shiftAst_zero arg h.1, shiftArgs_zero args h.2]

end

/-- Rendered where it was moved to, a tree keeps its template, and its edges are moved with it;
`shift_parsed` gives a member the template of its master. -/
theorem shift_invariant (engine : Engine) (table : TextTable) (floats : Floats ν) (ast : Ast ν)
    (fromCol fromRow toCol toRow : ℕ)
    (h : Stays ((toCol : ℤ) - fromCol) ((toRow : ℤ) - fromRow) ast) :
    let dc := (toCol : ℤ) - fromCol
    let dr := (toRow : ℤ) - fromRow
    let template := render floats fromCol fromRow engine.sep engine.decimal ast
    render floats toCol toRow engine.sep engine.decimal (shiftAst dc dr ast) = template ∧
    (∀ sheet source source' suppress, List.Forall₂ (EdgeMoved dc dr source source')
      (collectEdges table sheet source suppress ast)
      (collectEdges table sheet source' suppress (shiftAst dc dr ast))) ∧
    ∀ parsed sheet, parsed.unparsed = false → parsed.ast = some ast →
      shiftParsed engine table floats parsed sheet fromCol fromRow toCol toRow =
        { ast := some (shiftAst dc dr ast)
          template := some ('=' :: template)
          unparsed := false
          edges := collectEdges table sheet (nodeId sheet (formatAddr toCol toRow)) false
            (shiftAst dc dr ast) } := by
  intro dc dr template
  have hcol : (toCol : ℤ) = fromCol + dc := by omega
  have hrow : (toRow : ℤ) = fromRow + dr := by omega
  have hrender : render floats toCol toRow engine.sep engine.decimal (shiftAst dc dr ast) =
      template := render_shiftAst floats engine.sep engine.decimal hcol hrow ast h
  refine ⟨hrender, ?_, ?_⟩
  · intro sheet source source' suppress
    exact collectEdges_shiftAst table suppress ast h
  · intro parsed sheet hparsed hast
    have hsame : (if dc = 0 ∧ dr = 0 then ast else shiftAst dc dr ast) = shiftAst dc dr ast := by
      split_ifs with hzero
      · have hstays : Stays dc dr ast := h
        rw [hzero.1, hzero.2] at hstays ⊢
        exact (shiftAst_zero ast hstays).symm
      · rfl
    unfold shiftParsed
    rw [hparsed, hast]
    simp only
    rw [hsame, hrender]

/-- `SUM($A1:B$2,C:C)` -/
def anchoredSum : Ast (List Char) :=
  .func "SUM".toList [.ref none none (.rect ⟨1, 1, true, false⟩ ⟨2, 2, false, true⟩),
    .ref none none (.cols ⟨3, false⟩ ⟨3, false⟩)]

/-- The sum moved from `D4` to `C5`. -/
theorem shift_invariant_anchoredSum :
    Stays (((3 : ℕ) : ℤ) - (4 : ℕ)) (((5 : ℕ) : ℤ) - (4 : ℕ)) anchoredSum ∧
    render textFloats.toFloats 3 5 ',' '.'
      (shiftAst (((3 : ℕ) : ℤ) - (4 : ℕ)) (((5 : ℕ) : ℤ) - (4 : ℕ)) anchoredSum) =
      render textFloats.toFloats 4 4 ',' '.' anchoredSum := by
  have hstays : Stays (((3 : ℕ) : ℤ) - (4 : ℕ)) (((5 : ℕ) : ℤ) - (4 : ℕ)) anchoredSum := by
    simp [anchoredSum, Stays, ArgsStay, BodyStays, PointStays, CoordStays]
  exact ⟨hstays, (shift_invariant Engine.en asciiText textFloats.toFloats anchoredSum 4 4 3 5
    hstays).1⟩

end FinanceContext.Formula
