import FinanceContext.FormulaScan

namespace FinanceContext.Formula

open OperatorParsing Csr

variable {ν : Type}

def operatorIn (ops : List BinOp) : Token ν → Option BinOp
  | .op kind => if kind ∈ ops then some kind else none
  | _ => none

def percentMark : Token ν → Option Unit
  | .percent => some ()
  | _ => none

def isSep : Token ν → Bool
  | .sep => true
  | _ => false

/-- `_canonical_func_name`; the prefixes hold ASCII letters only. -/
def canonicalFuncName (name : List Char) : List Char :=
  match name with
  | a :: b :: c :: d :: e :: f :: rest =>
    if [a, b, c, d, e, f].map Char.toLower ∈ ["_xlfn.".toList, "_xlws.".toList] then
      canonicalFuncName rest
    else name
  | _ => name

def arrayNumber (value : ν) : List (Token ν) → Item ν × List (Token ν)
  | .percent :: rest => (.percent value, rest)
  | rest => (.num value, rest)

section Arrays

variable (table : TextTable) (floats : Floats ν)

def isBoolean (name : List Char) : Bool :=
  name.flatMap table.upper ∈ ["TRUE".toList, "FALSE".toList]

def parseArrayItem : Parser (Token ν) (Item ν)
  | .op .add :: .number value :: rest => .ok (arrayNumber value rest)
  | .op .sub :: .number value :: rest => .ok (arrayNumber (floats.neg value) rest)
  | .number value :: rest => .ok (arrayNumber value rest)
  | .string value :: rest => .ok (.str value, rest)
  | .error value :: rest => .ok (.err value, rest)
  | .name value :: rest =>
    if isBoolean table value then .ok (.name (value.flatMap table.upper), rest)
    else .error .rejected
  | _ => .error .rejected

/-- The loop of `_parse_array` over rows that are closed and one that is open. -/
def parseArrayRows : ℕ → List (List (Item ν)) → List (Item ν) →
    Parser (Token ν) (List (List (Item ν)))
  | 0, _, _, _ => .error .exhausted
  | fuel + 1, rows, row, .sep :: rest => do
    let (item, rest) ← parseArrayItem table floats rest
    parseArrayRows fuel rows (row ++ [item]) rest
  | fuel + 1, rows, row, .rowSep :: rest => do
    let (item, rest) ← parseArrayItem table floats rest
    parseArrayRows fuel (rows ++ [row]) [item] rest
  | _ + 1, rows, row, .rbrace :: rest => .ok (rows ++ [row], rest)
  | _ + 1, _, _, _ => .error .rejected

/-- `_parse_array` behind its brace. -/
def parseArray (fuel : ℕ) : Parser (Token ν) (Ast ν) := fun tokens => do
  let (item, rest) ← parseArrayItem table floats tokens
  let (rows, rest) ← parseArrayRows table floats fuel [] [item] rest
  if rows.all fun row => row.length == (rows.headD []).length then .ok (.array rows, rest)
  else .error .rejected

end Arrays

section Grammar

variable (table : TextTable) (floats : Floats ν)

/-- `_parse_call` behind its parenthesis. -/
def parseCall (expr : Parser (Token ν) (Ast ν)) (fuel : ℕ) (name : List Char) :
    Parser (Token ν) (Ast ν)
  | .rparen :: rest => .ok (.func (canonicalFuncName name) [], rest)
  | tokens => do
    let (args, rest) ← separated isSep expr fuel tokens
    match rest with
    | .rparen :: rest => .ok (.func (canonicalFuncName name) args, rest)
    | _ => .error .rejected

def parsePrimary (expr : Parser (Token ν) (Ast ν)) (fuel : ℕ) : Parser (Token ν) (Ast ν)
  | .number value :: rest => .ok (.num value, rest)
  | .string value :: rest => .ok (.str value, rest)
  | .error value :: rest => .ok (.err value, rest)
  | .ref node :: rest => .ok (node, rest)
  | .name name :: .lparen :: rest => parseCall expr fuel name rest
  | .name first :: .colon :: .name last :: rest => .ok (.namedRange first last, rest)
  | .name _ :: .colon :: _ => .error .rejected
  | .name name :: rest => .ok (.name name, rest)
  | .lparen :: rest => do
    let (node, rest) ← expr rest
    match rest with
    | .rparen :: rest => .ok (node, rest)
    | _ => .error .rejected
  | .lbrace :: rest => parseArray table floats fuel rest
  | _ => .error .rejected

def parsePostfix (primary : Parser (Token ν) (Ast ν)) : Parser (Token ν) (Ast ν) :=
  marked percentMark (fun _ => .percent) primary

def parseUnary (primary : Parser (Token ν) (Ast ν)) : Parser (Token ν) (Ast ν) :=
  signed (operatorIn [.add, .sub]) .unary (parsePostfix primary)

def parsePow (fuel : ℕ) (primary : Parser (Token ν) (Ast ν)) : Parser (Token ν) (Ast ν) :=
  rightLevel (operatorIn [.pow]) .bin (parseUnary primary) fuel

def parseMul (fuel : ℕ) (primary : Parser (Token ν) (Ast ν)) : Parser (Token ν) (Ast ν) :=
  leftLevel (operatorIn [.mul, .div]) .bin fuel (parsePow fuel primary)

def parseAdd (fuel : ℕ) (primary : Parser (Token ν) (Ast ν)) : Parser (Token ν) (Ast ν) :=
  leftLevel (operatorIn [.add, .sub]) .bin fuel (parseMul fuel primary)

def parseCompare (fuel : ℕ) (primary : Parser (Token ν) (Ast ν)) : Parser (Token ν) (Ast ν) :=
  leftLevel (operatorIn [.eq, .ne, .lt, .gt, .le, .ge]) .bin fuel (parseAdd fuel primary)

def parseConcat (fuel : ℕ) (primary : Parser (Token ν) (Ast ν)) : Parser (Token ν) (Ast ν) :=
  leftLevel (operatorIn [.concat]) .bin fuel (parseCompare fuel primary)

/-- `parse_expr` in a bounded number of nested calls. -/
def parseExpr : ℕ → Parser (Token ν) (Ast ν)
  | 0 => fun _ => .error .exhausted
  | fuel + 1 => parseConcat (fuel + 1) (parsePrimary table floats (parseExpr fuel) (fuel + 1))

def parseTokens (tokens : List (Token ν)) : Except Failure (Ast ν) := do
  let (node, rest) ← parseExpr table floats (tokens.length + 1) tokens
  match rest with
  | [] => .ok node
  | _ => .error .rejected

end Grammar

section Progress

variable (table : TextTable) (floats : Floats ν)

theorem length_arrayNumber (value : ν) (tokens : List (Token ν)) :
    (arrayNumber value tokens).2.length ≤ tokens.length := by
  unfold arrayNumber
  split
  · simp
  · simp

theorem consumes_parseArrayItem (bound : ℕ) : Consumes bound (parseArrayItem table floats) := by
  intro tokens hlen
  have hnumber (value : ν) (rest : List (Token ν)) (hrest : rest.length < tokens.length) :
      Progress tokens.length (.ok (arrayNumber value rest)) :=
    Nat.lt_of_le_of_lt (length_arrayNumber value rest) hrest
  unfold parseArrayItem
  split
  · exact hnumber _ _ (by simp only [List.length_cons]; omega)
  · exact hnumber _ _ (by simp only [List.length_cons]; omega)
  · exact hnumber _ _ (by simp)
  · exact Nat.lt_succ_self _
  · exact Nat.lt_succ_self _
  · split
    · exact Nat.lt_succ_self _
    · rfl
  · rfl

theorem progress_parseArrayRows (fuel : ℕ) (rows : List (List (Item ν))) (row : List (Item ν))
    (tokens : List (Token ν)) (hfuel : tokens.length < fuel) :
    Progress (tokens.length + 1) (parseArrayRows table floats fuel rows row tokens) := by
  induction fuel generalizing rows row tokens with
  | zero => omega
  | succ fuel ih =>
    have hitem (rest : List (Token ν)) (hrest : rest.length < fuel)
        (close : Item ν → List (List (Item ν)) × List (Item ν)) :
        Progress (rest.length + 2) (do
          let (item, rest) ← parseArrayItem table floats rest
          parseArrayRows table floats fuel (close item).1 (close item).2 rest) := by
      apply (consumes_parseArrayItem table floats rest.length rest (Nat.le_refl _)).bind
      intro item left hleft
      exact (ih _ _ left (by omega)).mono (by omega)
    cases tokens with
    | nil => rfl
    | cons token rest =>
      rw [List.length_cons] at hfuel
      match token with
      | .sep => exact hitem rest (by omega) fun item => (rows, row ++ [item])
      | .rowSep => exact hitem rest (by omega) fun item => (rows ++ [row], [item])
      | .rbrace => exact Nat.lt_succ_of_lt (Nat.lt_succ_self _)
      | .number _ | .string _ | .error _ | .ref _ | .name _ | .op _ | .percent | .colon | .lparen
      | .rparen | .lbrace => rfl

theorem consumes_parseArray {bound fuel : ℕ} (hfuel : bound < fuel) :
    Consumes bound (parseArray table floats fuel) := by
  intro tokens hlen
  apply (consumes_parseArrayItem table floats bound tokens hlen).bind
  intro item rest hrest
  apply (progress_parseArrayRows table floats fuel [] [item] rest (by omega)).bind
  intro rows left hleft
  dsimp only
  split
  · exact Nat.lt_of_lt_of_le hleft hrest
  · rfl

theorem consumes_parseCall {expr : Parser (Token ν) (Ast ν)} {bound fuel : ℕ}
    (hexpr : Consumes bound expr) (hfuel : bound < fuel) (name : List Char) :
    Consumes bound (parseCall expr fuel name) := by
  intro tokens hlen
  unfold parseCall
  split
  · exact Nat.lt_succ_self _
  · apply (hexpr.separated isSep hfuel tokens hlen).bind
    intro args rest hrest
    dsimp only
    split
    · exact Nat.lt_of_succ_lt hrest
    · rfl

theorem consumes_parsePrimary {expr : Parser (Token ν) (Ast ν)} {bound fuel : ℕ}
    (hexpr : Consumes bound expr) (hfuel : bound < fuel) :
    Consumes (bound + 1) (parsePrimary table floats expr fuel) := by
  intro tokens hlen
  unfold parsePrimary
  split
  case h_5 name rest =>
    rw [List.length_cons, List.length_cons] at hlen
    exact (consumes_parseCall hexpr hfuel name rest (by omega)).mono (by simp; omega)
  case h_9 rest =>
    rw [List.length_cons] at hlen
    apply (hexpr rest (by omega)).bind
    intro node left hleft
    dsimp only
    split
    · rw [List.length_cons] at hleft
      exact Nat.lt_succ_of_lt (by omega)
    · rfl
  case h_10 rest =>
    rw [List.length_cons] at hlen
    exact (consumes_parseArray table floats hfuel rest (by omega)).mono (by simp)
  case h_6 => exact Nat.lt_succ_of_lt (Nat.lt_succ_of_lt (Nat.lt_succ_self _))
  case h_7 => rfl
  case h_11 => rfl
  all_goals exact Nat.lt_succ_self _

theorem consumes_parseExpr (fuel : ℕ) : Consumes fuel (parseExpr table floats (fuel + 1)) := by
  induction fuel with
  | zero =>
    intro tokens hlen
    rw [List.length_eq_zero_iff.mp (Nat.le_zero.mp hlen)]
    rfl
  | succ fuel ih =>
    have hprimary := consumes_parsePrimary table floats ih (Nat.lt_succ_of_lt (Nat.lt_succ_self fuel))
    have hlt := Nat.lt_succ_self (fuel + 1)
    have hpow : Consumes (fuel + 1) (parsePow (fuel + 1 + 1)
        (parsePrimary table floats (parseExpr table floats (fuel + 1)) (fuel + 1 + 1))) :=
      ((hprimary.marked _).signed _).rightLevel _ hlt
    exact (((hpow.leftLevel _ hlt).leftLevel _ hlt).leftLevel _ hlt).leftLevel _ hlt

theorem parseTokens_ne_exhausted (tokens : List (Token ν)) :
    parseTokens table floats tokens ≠ .error .exhausted := by
  have hexpr := consumes_parseExpr table floats tokens.length tokens (Nat.le_refl _)
  intro hexhausted
  unfold parseTokens at hexhausted
  match h : parseExpr table floats (tokens.length + 1) tokens, hexpr with
  | .error failure, hfailure =>
    rw [h] at hexhausted
    cases hfailure.symm.trans (Except.error.inj hexhausted)
  | .ok (node, rest), _ =>
    rw [h] at hexhausted
    cases rest with
    | nil => cases hexhausted
    | cons token rest => cases hexhausted

end Progress

end FinanceContext.Formula
