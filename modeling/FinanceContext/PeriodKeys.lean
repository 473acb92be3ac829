import FinanceContext.CalendarDays
import FinanceContext.GraphEdges

namespace FinanceContext.Periods

open CalendarDays Csr

variable (table : CharTable)

section Patterns

/-- `\d{2}` -/
def twoDigits : List Char → Option (ℕ × List Char)
  | a :: b :: rest => do
    let tens ← table.decimal a
    let ones ← table.decimal b
    pure (10 * tens + ones, rest)
  | _ => none

/-- `(?:19|20)\d{2}` -/
def yearField : List Char → Option (ℕ × List Char)
  | '1' :: '9' :: rest => (twoDigits table rest).map fun (n, rest) => (1900 + n, rest)
  | '2' :: '0' :: rest => (twoDigits table rest).map fun (n, rest) => (2000 + n, rest)
  | _ => none

def yearKey (key : List Char) : Option ℕ :=
  match yearField table key with
  | some (year, []) => some year
  | _ => none

def halfKey (key : List Char) : Option (ℕ × ℕ) :=
  match yearField table key with
  | some (year, ['H', '1']) => some (year, 1)
  | some (year, ['H', '2']) => some (year, 2)
  | _ => none

def quarterKey (key : List Char) : Option (ℕ × ℕ) :=
  match yearField table key with
  | some (year, ['Q', '1']) => some (year, 1)
  | some (year, ['Q', '2']) => some (year, 2)
  | some (year, ['Q', '3']) => some (year, 3)
  | some (year, ['Q', '4']) => some (year, 4)
  | _ => none

def monthKey (key : List Char) : Option (ℕ × ℕ) :=
  match yearField table key with
  | some (year, '-' :: rest) =>
    match twoDigits table rest with
    | some (month, []) => some (year, month)
    | _ => none
  | _ => none

def dateKey (key : List Char) : Option Date :=
  match yearField table key with
  | some (year, '-' :: rest) =>
    match twoDigits table rest with
    | some (month, '-' :: rest) =>
      match twoDigits table rest with
      | some (day, []) => some ⟨year, month, day⟩
      | _ => none
    | _ => none
  | _ => none

/-- `_ORDINAL_KEY` and `_RELATIVE_STEP` -/
def ordinalKey : List Char → Option (Char × ℕ)
  | letter :: digits =>
    if letter ∈ ['Y', 'Q', 'M', 'P'] ∧ digits ≠ [] ∧
        digits.all fun ch => (table.decimal ch).isSome then
      some (letter, readInt table.decimal digits)
    else none
  | [] => none

end Patterns

section Positions

/-- `date(year, month, day)`; `none` is its `ValueError`. -/
def date? (date : Date) : Option Date := if date.Valid then some date else none

def ordinalPosition (key : List Char) : Option (String × ℤ) :=
  if key = [] then none
  else (ordinalKey table key).map fun (letter, n) => (String.ofList [letter], (n : ℤ))

def calendarPosition (key : List Char) : Option (String × ℤ) :=
  if key = [] then none
  else
    match yearKey table key with
    | some year => some ("year", (year : ℤ))
    | none =>
    match halfKey table key with
    | some (year, half) => some ("half", (year * 2 + half : ℤ))
    | none =>
    match quarterKey table key with
    | some (year, quarter) => some ("quarter", (year * 4 + quarter : ℤ))
    | none =>
    match monthKey table key with
    | some (year, month) => some ("month", (year * 12 + month : ℤ))
    | none =>
    match dateKey table key with
    | none => none
    | some date => (date? date).map fun date => ("day", (date.number : ℤ))

def periodPosition (key : String) : Option (String × ℤ) :=
  match ordinalPosition table key.toList with
  | some ordinal => some ordinal
  | none => calendarPosition table key.toList

end Positions

section Continuation

/-- The fields `parse_period_key` returns. -/
structure KeyFields where
  year : Option ℕ
  quarter : Option ℕ
  month : Option ℕ
  day : Option ℕ

def parsePeriodKey (key : List Char) : KeyFields :=
  match dateKey table key with
  | some date => ⟨some date.year, none, some date.month, some date.day⟩
  | none =>
  match monthKey table key with
  | some (year, month) => ⟨some year, none, some month, none⟩
  | none =>
  match quarterKey table key with
  | some (year, quarter) => ⟨some year, some quarter, none, none⟩
  | none =>
  match yearKey table key with
  | some year => ⟨some year, none, none, none⟩
  | none =>
  match halfKey table key with
  | some (year, _) => ⟨some year, none, none, none⟩
  | none => ⟨none, none, none, none⟩

/-- The truth value of a field: `None` and `0` are false. -/
def truthy (field : Option ℕ) : Bool := field.getD 0 ≠ 0

/-- The branches of `_period_continues` after those for two ordinals and two halves. -/
def fieldsContinue (left right : KeyFields) : Bool :=
  match left.year, right.year with
  | some leftYear, some rightYear =>
    if truthy left.day ∧ truthy right.day ∧ truthy left.month ∧ truthy right.month then
      match date? ⟨leftYear, left.month.getD 0, left.day.getD 0⟩,
        date? ⟨rightYear, right.month.getD 0, right.day.getD 0⟩ with
      | some leftDate, some rightDate =>
        (rightDate.number - leftDate.number : ℤ) ∈ ([1, 7, 14] : List ℤ)
      | _, _ => false
    else if truthy left.quarter ∧ truthy right.quarter then
      rightYear * 4 + right.quarter.getD 0 = leftYear * 4 + left.quarter.getD 0 + 1
    else if truthy left.month ∧ truthy right.month ∧ ¬truthy left.day ∧ ¬truthy right.day then
      rightYear * 12 + right.month.getD 0 = leftYear * 12 + left.month.getD 0 + 1
    else if left.quarter = none ∧ right.quarter = none ∧ left.month = none ∧
        right.month = none ∧ left.day = none ∧ right.day = none then
      rightYear = leftYear + 1
    else false
  | _, _ => false

def periodContinues (leftKey rightKey : String) : Bool :=
  let left := leftKey.toList
  let right := rightKey.toList
  let rest :=
    match halfKey table left, halfKey table right with
    | some (leftYear, leftHalf), some (rightYear, rightHalf) =>
      rightYear * 2 + rightHalf = leftYear * 2 + leftHalf + 1
    | _, _ => fieldsContinue (parsePeriodKey table left) (parsePeriodKey table right)
  match ordinalKey table left, ordinalKey table right with
  | some (leftLetter, leftStep), some (rightLetter, rightStep) =>
    if leftLetter = rightLetter then rightStep = leftStep + 1 else rest
  | _, _ => rest

end Continuation

end FinanceContext.Periods
