import FinanceContext.FormulaEngine

namespace FinanceContext.Formula

structure Digits where
  chars : List Char
  nonempty : chars ≠ []
  digits : ∀ ch ∈ chars, ch.isDigit = true

structure Exponent where
  upper : Bool
  minus : Option Bool
  digits : Digits

/-- A decimal number with a digit in front of its point or behind it. -/
structure Decimal where
  whole : List Char
  wholeDigits : ∀ ch ∈ whole, ch.isDigit = true
  fraction : Option Digits
  exponent : Option Exponent
  shown : whole = [] → fraction.isSome = true

def signText : Option Bool → List Char
  | none => []
  | some true => ['-']
  | some false => ['+']

def fractionText : Option Digits → List Char
  | none => []
  | some digits => '.' :: digits.chars

def exponentText : Option Exponent → List Char
  | none => []
  | some ⟨upper, minus, digits⟩ =>
    (if upper then 'E' else 'e') :: signText minus ++ digits.chars

def Decimal.text (number : Decimal) : List Char :=
  number.whole ++ fractionText number.fraction ++ exponentText number.exponent

/-- `float` reads every decimal number. -/
structure DecimalFloats (ν : Type) extends Floats ν where
  value : Decimal → ν
  read_text : ∀ number, read number.text = some (value number)

structure ErrorValue where
  text : List Char
  known : text ∈ errors

def booleanText (value : Bool) : List Char := if value then "TRUE".toList else "FALSE".toList

section Words

variable (table : TextTable)

/-- A letter or `_`, then letters, digits, `_` and `.`. -/
structure Word where
  first : Char
  others : List Char
  starts : startsName table first = true
  continues : ∀ ch ∈ others, isNameChar table ch = true

def Word.text {table : TextTable} (word : Word table) : List Char := word.first :: word.others

def spellsCell (text : List Char) : Bool :=
  let letters := text.takeWhile Char.isAlpha
  let digits := text.dropWhile Char.isAlpha
  letters.length ≤ 3 && !letters.isEmpty && !digits.isEmpty && digits.all (isDecimal table) &&
    inGrid (columnOf letters) (Csr.readInt table.decimal digits)

structure DefinedName extends Word table where
  notCell : spellsCell table (first :: others) = false

inductive FuncPrefix where
  | xlfn | xlws

def FuncPrefix.text : FuncPrefix → List Char
  | .xlfn => "_xlfn.".toList
  | .xlws => "_xlws.".toList

/-- The name of a function, and the prefixes it is stored under. -/
structure FunctionName extends Word table where
  prefixes : List FuncPrefix
  canonical : canonicalFuncName (first :: others) = first :: others

def FunctionName.text {table : TextTable} (name : FunctionName table) : List Char :=
  name.prefixes.flatMap FuncPrefix.text ++ name.toWord.text

/-- The name of a sheet holds no bracket. -/
structure QuotedSheet where
  text : List Char
  nonempty : text ≠ []
  noBracket : '[' ∉ text

inductive Place where
  | here
  | plain (sheet : Word table)
  | quoted (sheet : QuotedSheet)
  | book (number : ℕ) (bang : Bool)
  | bookPlain (number : ℕ) (sheet : Word table)
  | bookQuoted (number : ℕ) (sheet : QuotedSheet)

def bookText (number : ℕ) : List Char := bracketed (toString number).toList

def quotedText (text : List Char) : List Char := '\'' :: doubled '\'' text ++ ['\'']

namespace Place

variable {table}

def text : Place table → List Char
  | .here => []
  | .plain sheet => sheet.text ++ ['!']
  | .quoted sheet => quotedText sheet.text ++ ['!']
  | .book number bang => bookText number ++ if bang then ['!'] else []
  | .bookPlain number sheet => bookText number ++ sheet.text ++ ['!']
  | .bookQuoted number sheet => quotedText (bookText number ++ sheet.text) ++ ['!']

def external : Place table → Option (List Char)
  | .book number _ | .bookPlain number _ | .bookQuoted number _ => some (toString number).toList
  | _ => none

def sheet : Place table → Option (List Char)
  | .plain sheet | .bookPlain _ sheet => some sheet.text
  | .quoted sheet | .bookQuoted _ sheet => some sheet.text
  | _ => none

end Place

end Words

structure GridCell extends CellPoint where
  inside : inGrid col row = true

structure GridCol extends ColEnd where
  inside : inGrid col 1 = true

structure GridRow extends RowEnd where
  inside : inGrid 1 row = true

inductive Area where
  | cell (point : GridCell)
  | rect (start finish : GridCell)
  | cols (start finish : GridCol)
  | rows (start finish : GridRow)

def dollarText (fixed : Bool) : List Char := if fixed then ['$'] else []

def colText (col : ℕ) (fixed : Bool) : List Char := dollarText fixed ++ indexToCol col

def rowText (row : ℕ) (fixed : Bool) : List Char := dollarText fixed ++ (toString row).toList

def pointText (point : CellPoint) : List Char :=
  colText point.col point.absCol ++ rowText point.row point.absRow

namespace Area

def text : Area → List Char
  | .cell point => pointText point.toCellPoint
  | .rect start finish => pointText start.toCellPoint ++ ':' :: pointText finish.toCellPoint
  | .cols start finish => colText start.col start.absCol ++ ':' :: colText finish.col finish.absCol
  | .rows start finish => rowText start.row start.absRow ++ ':' :: rowText finish.row finish.absRow

def body : Area → Body
  | .cell point => .cell point.toCellPoint
  | .rect start finish => .rect start.toCellPoint finish.toCellPoint
  | .cols start finish => .cols start.toColEnd finish.toColEnd
  | .rows start finish => .rows start.toRowEnd finish.toRowEnd

end Area

structure Reference (table : TextTable) where
  place : Place table
  area : Area

def Reference.text {table : TextTable} (ref : Reference table) : List Char :=
  ref.place.text ++ ref.area.text

/-- Whole rows without a sheet and without `$` in front of the first one. -/
def Reference.startsWithRow {table : TextTable} (ref : Reference table) : Bool :=
  match ref.place, ref.area with
  | .here, .rows start _ => !start.absRow
  | _, _ => false

inductive Constant where
  | number (minus : Option Bool) (number : Decimal) (percent : Bool)
  | string (value : List Char)
  | error (value : ErrorValue)
  | boolean (value : Bool)

/-- Rows of constants, one row at least, all of one positive length. -/
structure ArrayConstant where
  rows : List (List Constant)
  nonempty : rows ≠ []
  width : ℕ
  widthPos : 0 < width
  rectangular : ∀ row ∈ rows, row.length = width

def percentText (percent : Bool) : List Char := if percent then ['%'] else []

def Constant.text : Constant → List Char
  | .number minus value percent => signText minus ++ value.text ++ percentText percent
  | .string value => renderString value
  | .error value => value.text
  | .boolean value => booleanText value

def rowsText (rows : List (List Constant)) : List Char :=
  [';'].intercalate (rows.map fun row => [','].intercalate (row.map Constant.text))

def ArrayConstant.text (array : ArrayConstant) : List Char :=
  '{' :: rowsText array.rows ++ ['}']

section Meaning

variable {ν : Type} (floats : DecimalFloats ν)

def withSign (minus : Option Bool) (value : ν) : ν :=
  if minus = some true then floats.neg value else value

def Constant.item : Constant → Item ν
  | .number minus value marked =>
    if marked then .percent (withSign floats minus (floats.value value))
    else .num (withSign floats minus (floats.value value))
  | .string value => .str value
  | .error value => .err value.text
  | .boolean value => .name (booleanText value)

end Meaning

inductive Tree (table : TextTable) where
  | number (number : Decimal)
  | string (value : List Char)
  | error (value : ErrorValue)
  | boolean (value : Bool)
  | name (name : DefinedName table)
  | reference (ref : Reference table)
  | array (array : ArrayConstant)
  | call (name : FunctionName table) (args : List (Tree table))
  | unary (minus : Bool) (expr : Tree table)
  | percent (expr : Tree table)
  | bin (kind : BinOp) (left right : Tree table)

namespace Tree

variable {table : TextTable}

mutual

def text : Tree table → List Char
  | .number value => value.text
  | .string value => renderString value
  | .error value => value.text
  | .boolean value => booleanText value
  | .name word => word.toWord.text
  | .reference ref => ref.text
  | .array rows => rows.text
  | .call func args => func.text ++ parens (argsText args)
  | .unary minus expr => parens (signText (some minus) ++ expr.text)
  | .percent expr => parens (expr.text ++ ['%'])
  | .bin kind left right => parens (left.text ++ opText kind ++ right.text)

def argsText : List (Tree table) → List Char
  | [] => []
  | [arg] => arg.text
  | arg :: args => arg.text ++ ',' :: argsText args

end

section Meaning

variable {ν : Type} (floats : DecimalFloats ν)

mutual

def ast : Tree table → Ast ν
  | .number value => .num (floats.value value)
  | .string value => .str value
  | .error value => .err value.text
  | .boolean value => .name (booleanText value)
  | .name word => .name word.toWord.text
  | .reference ref => .ref ref.place.external ref.place.sheet ref.area.body
  | .array rows => .array (rows.rows.map (List.map (Constant.item floats)))
  | .call func args => .func func.toWord.text (argAsts args)
  | .unary minus expr => .unary (if minus then .sub else .add) expr.ast
  | .percent expr => .percent expr.ast
  | .bin kind left right => .bin kind left.ast right.ast

def argAsts : List (Tree table) → List (Ast ν)
  | [] => []
  | arg :: args => arg.ast :: argAsts args

end

end Meaning

/-- `INDIRECT` or `OFFSET` in any case. -/
def readsAtRunTime (name : FunctionName table) : Bool :=
  name.toWord.text.flatMap table.upper ∈ ["INDIRECT".toList, "OFFSET".toList]

inductive Mention (table : TextTable) where
  | reference (ref : Reference table)
  | name (name : DefinedName table)
  | boolean (value : Bool)

mutual

/-- The references, names and booleans outside arrays and outside the arguments of `INDIRECT` and
`OFFSET`, in the order they are written. -/
def mentions : Tree table → List (Mention table)
  | .reference ref => [.reference ref]
  | .name word => [.name word]
  | .boolean value => [.boolean value]
  | .call func args => if readsAtRunTime func then [] else argMentions args
  | .unary _ expr => expr.mentions
  | .percent expr => expr.mentions
  | .bin _ left right => left.mentions ++ right.mentions
  | .number _ | .string _ | .error _ | .array _ => []

def argMentions : List (Tree table) → List (Mention table)
  | [] => []
  | arg :: args => arg.mentions ++ argMentions args

end

mutual

/-- Some whole rows are written without a sheet and without `$` in front of the first one. -/
def hasBareRows : Tree table → Bool
  | .reference ref => ref.startsWithRow
  | .call _ args => argsHaveBareRows args
  | .unary _ expr => expr.hasBareRows
  | .percent expr => expr.hasBareRows
  | .bin _ left right => left.hasBareRows || right.hasBareRows
  | .number _ | .string _ | .error _ | .boolean _ | .name _ | .array _ => false

def argsHaveBareRows : List (Tree table) → Bool
  | [] => false
  | arg :: args => arg.hasBareRows || argsHaveBareRows args

end

end Tree

end FinanceContext.Formula
