import FinanceContext.PeriodKeys
import Mathlib.Data.Int.Basic

namespace FinanceContext.Periods

open CalendarDays Csr

instance neZero_halves : NeZero 2 := inferInstance

instance neZero_quarters : NeZero 4 := inferInstance

/-- The shapes of period keys; halves and quarters are counted from 0. -/
inductive Shape
  | year (year : ℕ)
  | half (year : ℕ) (part : Fin 2)
  | quarter (year : ℕ) (part : Fin 4)
  | month (year month : ℕ)
  | day (date : Date)
  | ordinal (letter : Char) (step : ℕ)
deriving DecidableEq

structure Keys where
  ordinal : Option (Char × ℕ) := none
  year : Option ℕ := none
  half : Option (ℕ × ℕ) := none
  quarter : Option (ℕ × ℕ) := none
  month : Option (ℕ × ℕ) := none
  date : Option Date := none

def Shape.keys : Shape → Keys
  | .year y => { year := some y }
  | .half y part => { half := some (y, part + 1) }
  | .quarter y part => { quarter := some (y, part + 1) }
  | .month y m => { month := some (y, m) }
  | .day d => { date := some d }
  | .ordinal letter step => { ordinal := some (letter, step) }

section Reading

variable (table : CharTable)

def keysOf (key : List Char) : Keys where
  ordinal := ordinalKey table key
  year := yearKey table key
  half := halfKey table key
  quarter := quarterKey table key
  month := monthKey table key
  date := dateKey table key

def shapeAfter (year : ℕ) : List Char → Option Shape
  | [] => some (.year year)
  | ['H', '1'] => some (.half year 0)
  | ['H', '2'] => some (.half year 1)
  | ['Q', '1'] => some (.quarter year 0)
  | ['Q', '2'] => some (.quarter year 1)
  | ['Q', '3'] => some (.quarter year 2)
  | ['Q', '4'] => some (.quarter year 3)
  | '-' :: rest =>
    match twoDigits table rest with
    | some (month, []) => some (.month year month)
    | some (month, '-' :: rest) =>
      match twoDigits table rest with
      | some (day, []) => some (.day ⟨year, month, day⟩)
      | _ => none
    | _ => none
  | _ => none

def shapeOf (key : List Char) : Option Shape :=
  match ordinalKey table key with
  | some (letter, step) => some (.ordinal letter step)
  | none => (yearField table key).bind fun (year, rest) => shapeAfter table year rest

variable {table}

theorem ordinalKey_of_yearField {key rest : List Char} {year : ℕ}
    (hfield : yearField table key = some (year, rest)) : ordinalKey table key = none := by
  unfold yearField at hfield
  split at hfield
  · simp [ordinalKey]
  · simp [ordinalKey]
  · cases hfield

theorem keysOf_of_yearField_none {key : List Char} (hfield : yearField table key = none) :
    keysOf table key = { ordinal := ordinalKey table key } := by
  simp [keysOf, yearKey, halfKey, quarterKey, monthKey, dateKey, hfield]

theorem keysOf_of_yearField {key rest : List Char} {year : ℕ}
    (hfield : yearField table key = some (year, rest)) :
    keysOf table key = ((shapeAfter table year rest).map Shape.keys).getD {} := by
  simp only [keysOf, ordinalKey_of_yearField hfield, yearKey, halfKey, quarterKey, monthKey,
    dateKey, hfield]
  fun_cases shapeAfter table year rest with
  | case8 rest m hmonth => simp only [hmonth]; rfl
  | case9 rest m rest' hmonth d hday => simp only [hmonth, hday]; rfl
  | case10 rest m rest' hmonth hday =>
    rcases htail : twoDigits table rest' with - | ⟨d, - | ⟨ch, tail⟩⟩
    · simp [hmonth, htail]
    · exact absurd htail (hday d)
    · simp [hmonth, htail]
  | case11 rest hmonth hday =>
    rcases htail : twoDigits table rest with - | ⟨m, - | ⟨ch, tail⟩⟩
    · simp [htail]
    · exact absurd htail (hmonth m)
    · have hdash : ch ≠ '-' := fun hch => hday m tail (by rw [htail, hch])
      simp [htail, hdash]
  | case12 => grind
  | _ => rfl

theorem keysOf_eq (key : List Char) :
    keysOf table key = ((shapeOf table key).map Shape.keys).getD {} := by
  rcases hfield : yearField table key with - | ⟨year, rest⟩
  · rw [keysOf_of_yearField_none hfield]
    rcases hordinal : ordinalKey table key with - | ⟨letter, step⟩ <;>
      simp [shapeOf, hordinal, hfield, Shape.keys]
  · rw [keysOf_of_yearField hfield]
    simp [shapeOf, ordinalKey_of_yearField hfield, hfield]

theorem keysOf_fields {key : List Char} {keys : Keys} (h : keysOf table key = keys) :
    ordinalKey table key = keys.ordinal ∧ yearKey table key = keys.year ∧
      halfKey table key = keys.half ∧ quarterKey table key = keys.quarter ∧
      monthKey table key = keys.month ∧ dateKey table key = keys.date := by
  subst h
  exact ⟨rfl, rfl, rfl, rfl, rfl, rfl⟩

end Reading

namespace Shape

def grain : Shape → String
  | .year _ => "year"
  | .half _ _ => "half"
  | .quarter _ _ => "quarter"
  | .month _ _ => "month"
  | .day _ => "day"
  | .ordinal letter _ => String.ofList [letter]

def index : Shape → ℤ
  | .year y => y
  | .half y part => y * 2 + (part + 1)
  | .quarter y part => y * 4 + (part + 1)
  | .month y m => y * 12 + m
  | .day d => d.number
  | .ordinal _ step => step

def position : Shape → Option (String × ℤ)
  | .day d => if d.Valid then some ((Shape.day d).grain, (Shape.day d).index) else none
  | shape => some (shape.grain, shape.index)

/-- `parse_period_key` -/
def fields : Shape → KeyFields
  | .year y => ⟨some y, none, none, none⟩
  | .half y _ => ⟨some y, none, none, none⟩
  | .quarter y part => ⟨some y, some (part + 1), none, none⟩
  | .month y m => ⟨some y, none, some m, none⟩
  | .day d => ⟨some d.year, none, some d.month, some d.day⟩
  | .ordinal _ _ => ⟨none, none, none, none⟩

end Shape

section Readings

variable (table : CharTable)

theorem periodPosition_eq (key : String) :
    periodPosition table key = (shapeOf table key.toList).bind Shape.position := by
  obtain ⟨hordinal, hyear, hhalf, hquarter, hmonth, hdate⟩ :=
    keysOf_fields (@keysOf_eq table key.toList)
  unfold periodPosition ordinalPosition calendarPosition
  by_cases hnil : key.toList = []
  · rw [if_pos hnil, if_pos hnil, hnil]
    rfl
  · rw [if_neg hnil, if_neg hnil, hordinal, hyear, hhalf, hquarter, hmonth, hdate]
    rcases shapeOf table key.toList with - | shape
    · rfl
    · cases shape with
      | day d => by_cases hvalid : d.Valid <;> simp [Shape.keys, Shape.position, date?, hvalid,
          Shape.grain, Shape.index]
      | _ => rfl

theorem parsePeriodKey_eq (key : List Char) :
    parsePeriodKey table key =
      ((shapeOf table key).map Shape.fields).getD ⟨none, none, none, none⟩ := by
  obtain ⟨-, hyear, hhalf, hquarter, hmonth, hdate⟩ :=
    keysOf_fields (@keysOf_eq table key)
  unfold parsePeriodKey
  rw [hyear, hhalf, hquarter, hmonth, hdate]
  rcases shapeOf table key with - | shape
  · rfl
  · cases shape <;> rfl

/-- What `_period_continues` asks of two shapes. -/
def Shape.continues : Shape → Shape → Bool
  | .ordinal letter step, .ordinal letter' step' => letter = letter' ∧ step' = step + 1
  | .half y part, .half y' part' => y' * 2 + part' = y * 2 + part + 1
  | left, right => fieldsContinue left.fields right.fields

theorem periodContinues_eq (left right : String) :
    periodContinues table left right =
      match shapeOf table left.toList, shapeOf table right.toList with
      | some l, some r => l.continues r
      | _, _ => false := by
  obtain ⟨hleft, -, hleftHalf, -⟩ := keysOf_fields (@keysOf_eq table left.toList)
  obtain ⟨hright, -, hrightHalf, -⟩ := keysOf_fields (@keysOf_eq table right.toList)
  simp only [periodContinues, hleft, hright, hleftHalf, hrightHalf, parsePeriodKey_eq]
  rcases shapeOf table left.toList with - | l
  · rfl
  · rcases shapeOf table right.toList with - | r
    · cases l <;> rfl
    · cases l with
      | ordinal letter step =>
        cases r with
        | ordinal letter' step' =>
          by_cases hletter : letter = letter' <;>
            simp [Shape.keys, Shape.continues, hletter, Shape.fields, fieldsContinue]
        | _ => rfl
      | half y part =>
        cases r with
        | half y' part' =>
          simp only [Option.map_some, Option.getD_some, Shape.keys, Shape.continues,
            decide_eq_decide]
          omega
        | _ => rfl
      | _ => cases r <;> rfl

end Readings

end FinanceContext.Periods
