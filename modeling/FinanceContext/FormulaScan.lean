import FinanceContext.FormulaShape
import FinanceContext.NodeIds
import FinanceContext.OperatorParsing

namespace FinanceContext.Formula

open OperatorParsing Csr

/-- What the standard library knows about the characters of a formula. -/
structure TextTable extends CharTable where
  alpha : Char → Bool
  digit : Char → Bool
  alnum : Char → Bool
  upper : Char → List Char
  digit_of_decimal : ∀ ch, (decimal ch).isSome = true → digit ch = true
  alnum_of_digit : ∀ ch, digit ch = true → alnum ch = true
  alnum_of_alpha : ∀ ch, alpha ch = true → alnum ch = true
  not_digit_of_alpha : ∀ ch, alpha ch = true → digit ch = false
  not_space_of_alnum : ∀ ch, alnum ch = true → space ch = false
  alpha_ascii : ∀ ch : Char, ch.toNat < 128 → alpha ch = ch.isAlpha
  alnum_ascii : ∀ ch : Char, ch.toNat < 128 → alnum ch = ch.isAlphanum
  upper_ascii : ∀ ch : Char, ch.toNat < 128 → upper ch = [ch.toUpper]
  space_ascii : ∀ ch : Char, 32 < ch.toNat → ch.toNat < 127 → space ch = false

/-- What the standard library knows about floating point numbers: `float`, `-` and the text of a
number, without a point where it is whole. -/
structure Floats (ν : Type) where
  read : List Char → Option ν
  neg : ν → ν
  written : ν → List Char

structure CellPoint where
  col : ℕ
  row : ℕ
  absCol : Bool
  absRow : Bool
  deriving DecidableEq

structure ColEnd where
  col : ℕ
  absCol : Bool
  deriving DecidableEq

structure RowEnd where
  row : ℕ
  absRow : Bool
  deriving DecidableEq

inductive Body where
  | cell (point : CellPoint)
  | rect (start finish : CellPoint)
  | cols (start finish : ColEnd)
  | rows (start finish : RowEnd)
  deriving DecidableEq

/-- The constants of an array. -/
inductive Item (ν : Type) where
  | num (value : ν)
  | percent (value : ν)
  | str (value : List Char)
  | err (value : List Char)
  | name (value : List Char)
  deriving DecidableEq

/-- A `ref` or a `range` node is one constructor, told apart by its body. -/
inductive Ast (ν : Type) where
  | num (value : ν)
  | str (value : List Char)
  | err (value : List Char)
  | name (value : List Char)
  | ref (external sheet : Option (List Char)) (body : Body)
  | namedRange (startName endName : List Char)
  | unary (kind : BinOp) (expr : Ast ν)
  | percent (expr : Ast ν)
  | bin (kind : BinOp) (left right : Ast ν)
  | func (name : List Char) (args : List (Ast ν))
  | array (rows : List (List (Item ν)))

/-- `%` apart, the value of an `OP` token is an operator with two operands. -/
inductive Token (ν : Type) where
  | number (value : ν)
  | string (value : List Char)
  | error (value : List Char)
  | ref (node : Ast ν)
  | name (value : List Char)
  | sep
  | rowSep
  | op (value : BinOp)
  | percent
  | colon
  | lparen
  | rparen
  | lbrace
  | rbrace

def errors : List (List Char) :=
  ["#GETTING_DATA!".toList, "#DIV/0!".toList, "#VALUE!".toList, "#NULL!".toList, "#NAME?".toList,
    "#NUM!".toList, "#N/A".toList, "#REF!".toList]

/-- `text.startswith(token)` with what follows the token. -/
def afterPrefix (token text : List Char) : Option (List Char) :=
  if token.isPrefixOf text then some (text.drop token.length) else none

def inGrid (col : ℕ) (row : ℕ) : Bool :=
  1 ≤ col && col ≤ excelMaxCol && 1 ≤ row && row ≤ Csr.excelMaxRow

section Scanning

variable (table : TextTable)

/-- `\w` -/
def isWord (ch : Char) : Bool := table.alnum ch || ch == '_'

/-- `[\w.]` -/
def isNameChar (ch : Char) : Bool := isWord table ch || ch == '.'

/-- `\d` -/
def isDecimal (ch : Char) : Bool := (table.decimal ch).isSome

/-- `_scan_string` behind the opening quote. -/
def scanString : Parser Char (List Char)
  | [] => .error .rejected
  | '"' :: '"' :: rest => do
    let (value, rest) ← scanString rest
    .ok ('"' :: value, rest)
  | '"' :: rest => .ok ([], rest)
  | ch :: rest => do
    let (value, rest) ← scanString rest
    .ok (ch :: value, rest)

def scanFraction (decimal : Char) : List Char → List Char × List Char
  | ch :: next :: rest =>
    if (ch == decimal || (decimal != '.' && ch == '.')) && table.digit next then
      (ch :: (next :: rest).takeWhile table.digit, (next :: rest).dropWhile table.digit)
    else ([], ch :: next :: rest)
  | text => ([], text)

def scanSign : List Char → List Char × List Char
  | '+' :: rest => (['+'], rest)
  | '-' :: rest => (['-'], rest)
  | text => ([], text)

def scanExponent : List Char → List Char × List Char
  | [] => ([], [])
  | ch :: rest =>
    let (sign, digits) := scanSign rest
    if (ch == 'e' || ch == 'E') && digits.head?.any table.digit then
      (ch :: sign ++ digits.takeWhile table.digit, digits.dropWhile table.digit)
    else ([], ch :: rest)

/-- `_scan_number`; a text that `float` does not read is refused. -/
def scanNumber {ν : Type} (floats : Floats ν) (decimal : Char) : Parser Char ν := fun text =>
  let whole := text.takeWhile table.digit
  let (fraction, rest) := scanFraction table decimal (text.dropWhile table.digit)
  let (exponent, rest) := scanExponent table rest
  let raw := (whole ++ fraction ++ exponent).map fun ch => if ch = decimal then '.' else ch
  match floats.read raw with
  | none => .error .rejected
  | some value => .ok (value, rest)

/-- `(\$?)` -/
def scanDollar : List Char → Bool × List Char
  | '$' :: rest => (true, rest)
  | text => (false, text)

/-- `([A-Za-z]{1,3})` -/
def scanLetters (text : List Char) : Option (List Char × List Char) :=
  let letters := (text.take 3).takeWhile Char.isAlpha
  if letters.isEmpty then none else some (letters, text.drop letters.length)

/-- `(\d+)` as an integer -/
def scanRow (text : List Char) : Option (ℕ × List Char) :=
  let digits := text.takeWhile (isDecimal table)
  if digits.isEmpty then none
  else some (readInt table.decimal digits, text.dropWhile (isDecimal table))

/-- `(?![\w.(\[])` -/
def endsToken : List Char → Bool
  | [] => true
  | ch :: _ => !(isNameChar table ch || ch == '(' || ch == '[')

def columnOf (letters : List Char) : ℕ := colToIndex (letters.map Char.toUpper)

/-- `_CELL_BODY` and `_cell_node`. No shorter run of letters or digits matches: the next character
would be a letter where a digit must stand, or a digit behind the row. -/
def cellBody (text : List Char) : Option (CellPoint × List Char) := do
  let (absCol, text) := scanDollar text
  let (letters, text) ← scanLetters text
  let (absRow, text) := scanDollar text
  let (row, rest) ← scanRow table text
  if endsToken table rest then some (⟨columnOf letters, row, absCol, absRow⟩, rest) else none

def gridCell (text : List Char) : Option (CellPoint × List Char) := do
  let (point, rest) ← cellBody table text
  if inGrid point.col point.row then some (point, rest) else none

/-- `_COL_PAIR` inside the grid -/
def colPair (text : List Char) : Option (Body × List Char) := do
  let (absStart, text) := scanDollar text
  let (start, text) ← scanLetters text
  match text with
  | ':' :: text =>
    let (absEnd, text) := scanDollar text
    let (finish, rest) ← scanLetters text
    if endsToken table rest && inGrid (columnOf start) 1 && inGrid (columnOf finish) 1 then
      some (.cols ⟨columnOf start, absStart⟩ ⟨columnOf finish, absEnd⟩, rest)
    else none
  | _ => none

def rowPair (text : List Char) : Option (Body × List Char) := do
  let (absStart, text) := scanDollar text
  let (start, text) ← scanRow table text
  match text with
  | ':' :: text =>
    let (absEnd, text) := scanDollar text
    let (finish, rest) ← scanRow table text
    some (.rows ⟨start, absStart⟩ ⟨finish, absEnd⟩, rest)
  | _ => none

def unquotedSheet : List Char → Option (List Char × List Char)
  | [] => none
  | ch :: rest =>
    if isWord table ch && !isDecimal table ch then
      match rest.dropWhile (isNameChar table) with
      | '!' :: left => some (ch :: rest.takeWhile (isNameChar table), left)
      | _ => none
    else none

def scanQuoted : List Char → Option (List Char × List Char)
  | [] => none
  | '\'' :: '\'' :: rest => (scanQuoted rest).map fun (name, left) => ('\'' :: name, left)
  | '\'' :: rest => some ([], rest)
  | ch :: rest => (scanQuoted rest).map fun (name, left) => (ch :: name, left)

def skipSheetQualifier (text : List Char) : List Char :=
  match text with
  | '\'' :: rest =>
    match scanQuoted rest with
    | some (_, '!' :: left) => left
    | _ => text
  | _ =>
    match unquotedSheet table text with
    | some (_, left) => left
    | none => text

def scanRangeBody (text : List Char) : Option (Body × List Char) :=
  match gridCell table text with
  | some (start, ':' :: rest) =>
    match gridCell table (skipSheetQualifier table rest) with
    | some (finish, left) => some (.rect start finish, left)
    | none => some (.cell start, ':' :: rest)
  | some (start, rest) => some (.cell start, rest)
  | none =>
    match colPair table text with
    | some found => some found
    | none => rowPair table text

variable {ν : Type}

def scanDeletedRef (text : List Char) : Option (Ast ν × List Char) :=
  (afterPrefix "#REF!".toList text).map fun rest => (.err "#REF!".toList, rest)

def quotedNode (quoted : List Char) (body : Body) : Ast ν :=
  match quoted with
  | '[' :: rest =>
    if ']' ∈ rest then
      let sheet := (rest.dropWhile (· ≠ ']')).drop 1
      .ref (some (rest.takeWhile (· ≠ ']'))) (if sheet.isEmpty then none else some sheet) body
    else .ref none (some quoted) body
  | _ => .ref none (some quoted) body

def scanQuotedRef (text : List Char) : Option (Ast ν × List Char) :=
  match scanQuoted text with
  | some (quoted, '!' :: rest) =>
    match scanRangeBody table rest with
    | some (body, left) => some (quotedNode quoted body, left)
    | none => scanDeletedRef rest
  | _ => none

/-- The sheet behind a book, and whether a `!` stands before the body. -/
def bracketSheet (text : List Char) : Option (List Char) × Bool × List Char :=
  match text.takeWhile (isNameChar table), text.dropWhile (isNameChar table) with
  | [], '!' :: rest => (none, true, rest)
  | sheet, '!' :: rest => (some sheet, true, rest)
  | _, _ => (none, false, text)

def scanBracketRef (text : List Char) : Option (Ast ν × List Char) :=
  if ']' ∈ text then
    let (sheet, bang, rest) := bracketSheet table ((text.dropWhile (· ≠ ']')).drop 1)
    match scanRangeBody table rest with
    | some (body, left) => some (.ref (some (text.takeWhile (· ≠ ']'))) sheet body, left)
    | none => if bang then scanDeletedRef rest else none
  else none

def scanReference (text : List Char) : Option (Ast ν × List Char) :=
  match text with
  | '\'' :: rest => scanQuotedRef table rest
  | '[' :: rest => scanBracketRef table rest
  | _ =>
    match unquotedSheet table text with
    | some (sheet, rest) =>
      match scanRangeBody table rest with
      | some (body, left) => some (.ref none (some sheet) body, left)
      | none => scanDeletedRef rest
    | none => (scanRangeBody table text).map fun (body, left) => (.ref none none body, left)

end Scanning

def opOf : Char → Option BinOp
  | '+' => some .add
  | '-' => some .sub
  | '*' => some .mul
  | '/' => some .div
  | '^' => some .pow
  | '&' => some .concat
  | '=' => some .eq
  | '<' => some .lt
  | '>' => some .gt
  | _ => none

def markOf {ν : Type} (ch : Char) : Option (Token ν) :=
  match opOf ch with
  | some op => some (.op op)
  | none =>
    match ch with
    | '%' => some .percent
    | ':' => some .colon
    | '(' => some .lparen
    | ')' => some .rparen
    | '{' => some .lbrace
    | '}' => some .rbrace
    | _ => none

def scanMark {ν : Type} (sep ch : Char) : Parser Char (Token ν) := fun rest =>
  if ch = sep then .ok (.sep, rest)
  else if ch = ';' then .ok (.rowSep, rest)
  else
    match ch, rest with
    | '<', '>' :: rest => .ok (.op .ne, rest)
    | '<', '=' :: rest => .ok (.op .le, rest)
    | '>', '=' :: rest => .ok (.op .ge, rest)
    | _, _ =>
      match markOf ch with
      | some mark => .ok (mark, rest)
      | none => .error .rejected

section Tokens

variable (table : TextTable) {ν : Type} (floats : Floats ν) (decimal sep : Char)

def startsNumber (ch : Char) (rest : List Char) : Bool :=
  table.digit ch || (ch == decimal && rest.head?.any table.digit)

def startsName (ch : Char) : Bool := table.alpha ch || ch == '_'

/-- One pass of the loop of `_tokenize`; a blank gives no token. -/
def scanToken (ch : Char) : Parser Char (Option (Token ν)) := fun rest =>
  if table.space ch then .ok (none, rest)
  else if ch = '"' then do
    let (value, left) ← scanString rest
    .ok (some (.string value), left)
  else if ch = '#' then
    match errors.find? (·.isPrefixOf (ch :: rest)) with
    | none => .error .rejected
    | some err => .ok (some (.error err), (ch :: rest).drop err.length)
  else if startsNumber table decimal ch rest then do
    let (value, left) ← scanNumber table floats decimal (ch :: rest)
    .ok (some (.number value), left)
  else if ch ∈ ['\'', '[', '$'] ∨ startsName table ch then
    match scanReference table (ch :: rest) with
    | some (node, left) => .ok (some (.ref node), left)
    | none =>
      if startsName table ch then
        .ok (some (.name (ch :: rest.takeWhile (isNameChar table))),
          rest.dropWhile (isNameChar table))
      else .error .rejected
  else do
    let (token, left) ← scanMark sep ch rest
    .ok (some token, left)

def tokenizeWithin : ℕ → List Char → Except Failure (List (Token ν))
  | _, [] => .ok []
  | 0, _ :: _ => .error .exhausted
  | fuel + 1, ch :: rest => do
    let (token, left) ← scanToken table floats decimal sep ch rest
    let tokens ← tokenizeWithin fuel left
    .ok (token.toList ++ tokens)

def tokenize (text : List Char) : Except Failure (List (Token ν)) :=
  tokenizeWithin table floats decimal sep text.length text

end Tokens

end FinanceContext.Formula
