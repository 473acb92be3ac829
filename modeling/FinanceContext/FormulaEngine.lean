import FinanceContext.FormulaTokens

namespace FinanceContext.Formula

open OperatorParsing

variable {ν : Type}

section Edges

variable (table : TextTable)

def filled : Option (List Char) → Option String
  | some (ch :: text) => some (String.ofList (ch :: text))
  | _ => none

def bodyText : Body → String
  | .cell point => formatAddr point.col point.row
  | .rect start finish => formatAddr start.col start.row ++ ":" ++ formatAddr finish.col finish.row
  | .cols start finish =>
    String.ofList (indexToCol start.col) ++ ":" ++ String.ofList (indexToCol finish.col)
  | .rows start finish => toString start.row ++ ":" ++ toString finish.row

def anchored (edge : Csr.Edge) : Body → Csr.Edge
  | .cell point => { edge with absCol := some point.absCol, absRow := some point.absRow }
  | .rect start finish =>
    { edge with
      absCol := some start.absCol
      absRow := some start.absRow
      absColEnd := some finish.absCol
      absRowEnd := some finish.absRow }
  | .cols start finish =>
    { edge with absCol := some start.absCol, absColEnd := some finish.absCol }
  | .rows start finish =>
    { edge with absRow := some start.absRow, absRowEnd := some finish.absRow }

/-- `_ref_edge` and `_range_edge`. -/
def refEdge (currentSheet source : String) (external sheet : Option (List Char)) (body : Body) :
    Csr.Edge :=
  let target := nodeId ((filled sheet).getD currentSheet) (bodyText body)
  match filled external with
  | some book =>
    anchored { kind := "external", source, target := some ("[" ++ book ++ "]" ++ target) } body
  | none =>
    let kind :=
      match body with
      | .cell _ => if (filled sheet).any (· ≠ currentSheet) then "cross_sheet" else "ref"
      | _ => "range"
    anchored { kind, source, target := some target } body

def nameEdge (source : String) (name : List Char) : Csr.Edge :=
  { kind := "ref", source, target := some (String.ofList name), unresolved := true, named := true }

def namedRangeEdge (source : String) (first last : List Char) : Csr.Edge :=
  { kind := "range", source, target := some (String.ofList (first ++ ':' :: last)),
    unresolved := true, named := true }

def dynamicEdge (source : String) : Csr.Edge :=
  { kind := "dynamic", source, target := none, unresolved := true }

def isDynamic (name : List Char) : Bool :=
  (canonicalFuncName name).flatMap table.upper ∈ ["INDIRECT".toList, "OFFSET".toList]

mutual

def collectEdges (currentSheet source : String) (suppress : Bool) : Ast ν → List Csr.Edge
  | .func name args =>
    (if isDynamic table name && !suppress then [dynamicEdge source] else []) ++
      collectArgs currentSheet source (suppress || isDynamic table name) args
  | .bin _ left right =>
    collectEdges currentSheet source suppress left ++
      collectEdges currentSheet source suppress right
  | .unary _ expr => collectEdges currentSheet source suppress expr
  | .percent expr => collectEdges currentSheet source suppress expr
  | .name name => if suppress || name.isEmpty then [] else [nameEdge source name]
  | .ref external sheet body =>
    if suppress then [] else [refEdge currentSheet source external sheet body]
  | .namedRange first last => if suppress then [] else [namedRangeEdge source first last]
  | .num _ | .str _ | .err _ | .array _ => []

def collectArgs (currentSheet source : String) (suppress : Bool) : List (Ast ν) → List Csr.Edge
  | [] => []
  | arg :: args =>
    collectEdges currentSheet source suppress arg ++ collectArgs currentSheet source suppress args

end

end Edges

section Templates

variable (floats : Floats ν) (originCol originRow : ℕ) (sep decimal : Char)

def offset (mark : Char) (position origin : ℕ) (fixed : Bool) : List Char :=
  if fixed then mark :: (toString position).toList
  else mark :: '[' :: (toString ((position : ℤ) - origin)).toList ++ [']']

def rowOffset (row : ℕ) (fixed : Bool) : List Char := offset 'R' row originRow fixed

def colOffset (col : ℕ) (fixed : Bool) : List Char := offset 'C' col originCol fixed

def r1c1 (point : CellPoint) : List Char :=
  rowOffset originRow point.row point.absRow ++ colOffset originCol point.col point.absCol

def opText : BinOp → List Char
  | .concat => ['&']
  | .eq => ['=']
  | .ne => ['<', '>']
  | .lt => ['<']
  | .gt => ['>']
  | .le => ['<', '=']
  | .ge => ['>', '=']
  | .add => ['+']
  | .sub => ['-']
  | .mul => ['*']
  | .div => ['/']
  | .pow => ['^']

def opPrec : BinOp → ℕ
  | .pow => 5
  | .mul | .div => 4
  | .add | .sub => 3
  | .eq | .ne | .lt | .gt | .le | .ge => 2
  | .concat => 1

def prec : Ast ν → ℕ
  | .bin kind _ _ => opPrec kind
  | .unary _ _ => 6
  | .percent _ => 7
  | _ => 8

def parens (text : List Char) : List Char := '(' :: text ++ [')']

def paren (childPrec : ℕ) (text : List Char) (parentPrec : ℕ) (right : Bool) (op : BinOp) :
    List Char :=
  if childPrec < parentPrec then parens text
  else if right && childPrec == parentPrec && op ∈ [BinOp.sub, .div, .mul] then parens text
  else text

def renderNumber (value : ν) : List Char :=
  let text := floats.written value
  if decimal = ',' then text.map fun ch => if ch = '.' then ',' else ch else text

/-- `replace` of a mark by two of it. -/
def doubled (mark : Char) (text : List Char) : List Char :=
  text.flatMap fun ch => if ch = mark then [mark, mark] else [ch]

def renderString (value : List Char) : List Char := '"' :: doubled '"' value ++ ['"']

def bracketed (text : List Char) : List Char := '[' :: text ++ [']']

def sheetPrefix (external sheet : Option (List Char)) : List Char :=
  let extra := ((filled external).map fun book => bracketed book.toList).getD []
  match filled sheet with
  | some name => extra ++ name.toList ++ ['!']
  | none => extra

/-- `_render_ref` and `_render_range`. -/
def renderRef (external sheet : Option (List Char)) (body : Body) : List Char :=
  sheetPrefix external sheet ++
    match body with
    | .cell point => r1c1 originCol originRow point
    | .rect start finish =>
      r1c1 originCol originRow start ++ ':' :: r1c1 originCol originRow finish
    | .cols start finish =>
      colOffset originCol start.col start.absCol ++ ':' ::
        colOffset originCol finish.col finish.absCol
    | .rows start finish =>
      rowOffset originRow start.row start.absRow ++ ':' ::
        rowOffset originRow finish.row finish.absRow

def renderItem : Item ν → List Char
  | .num value => renderNumber floats decimal value
  | .percent value => renderNumber floats decimal value ++ ['%']
  | .str value => renderString value
  | .err value => value
  | .name value => value

def renderRows (rows : List (List (Item ν))) : List Char :=
  '{' :: [';'].intercalate (rows.map fun row =>
    [sep].intercalate (row.map (renderItem floats decimal))) ++ ['}']

mutual

def render : Ast ν → List Char
  | .num value => renderNumber floats decimal value
  | .str value => renderString value
  | .err value => value
  | .name value => value
  | .ref external sheet body => renderRef originCol originRow external sheet body
  | .namedRange first last => first ++ ':' :: last
  | .unary kind expr =>
    opText kind ++ if prec expr < 6 then parens (render expr) else render expr
  | .percent expr => render expr ++ ['%']
  | .bin kind left right =>
    paren (prec left) (render left) (opPrec kind) false kind ++ opText kind ++
      paren (prec right) (render right) (opPrec kind) true kind
  | .func name args => name ++ parens ([sep].intercalate (renderArgs args))
  | .array rows => renderRows floats sep decimal rows

def renderArgs : List (Ast ν) → List (List Char)
  | [] => []
  | arg :: args => render arg :: renderArgs args

end

end Templates

structure ParsedFormula (ν : Type) where
  ast : Option (Ast ν)
  template : Option (List Char)
  unparsed : Bool
  edges : List Csr.Edge

def refused : ParsedFormula ν := ⟨none, none, true, []⟩

structure Engine where
  decimal : Char
  sep : Char

def Engine.en : Engine := ⟨'.', ','⟩

def withoutEquals : List Char → List Char
  | '=' :: text => text
  | formula => formula

/-- `FormulaEngine.parse`; a failure of any kind gives an unparsed formula. -/
def Engine.parse (engine : Engine) (table : TextTable) (floats : Floats ν) (formula : List Char)
    (sheet addr : String) : ParsedFormula ν :=
  let text := withoutEquals formula
  if text.all table.space then refused
  else
    match tokenize table floats engine.decimal engine.sep text >>= parseTokens table floats,
      Csr.parseAddr table.decimal addr.toList with
    | .ok ast, some (originCol, originRow) =>
      { ast := some ast
        template := some ('=' :: render floats originCol originRow engine.sep engine.decimal ast)
        unparsed := false
        edges := collectEdges table sheet (nodeId sheet addr) false ast }
    | _, _ => refused

end FinanceContext.Formula
