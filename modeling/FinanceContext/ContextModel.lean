import FinanceContext.Relations
import FinanceContext.SelectorRows
import Mathlib.Data.Rat.Defs

namespace FinanceContext

inductive ValueStatus where
  | cached | empty | zeroExplicit | notApplicable
  deriving DecidableEq, Repr

structure NumericSummary where
  first : Option String := none
  last : Option String := none
  minimum : Option String := none
  maximum : Option String := none
  constant : Bool := false
  n : ℕ := 0
  deriving DecidableEq

structure RowHints where
  unit : Option String := none
  unitPer : Option String := none
  currency : Option String := none
  scale : Option String := none
  deriving DecidableEq

structure Measure where
  unit : Option String := none
  per : Option String := none
  currency : Option String := none
  scale : Option String := none
  deriving DecidableEq

structure RoleCell where
  addr : String
  col : ℕ
  role : ColumnRole
  cachedValue : Option String := none
  header : Option String := none
  hidden : Bool := false
  deriving DecidableEq

structure RowSeries where
  axisId : String
  formula : Option String := none
  formulaExceptions : List String := []
  numericSummary : Option NumericSummary := none
  values : List (Option String) := []
  valueStatuses : List ValueStatus := []
  normalizedValues : List (Option String) := []
  deriving DecidableEq

structure BlockRow where
  rowKey : String
  sheet : String
  row : ℕ
  label : String
  parentLabel : Option String := none
  labelPath : List String := []
  kind : RowKind
  unit : Option String := none
  formula : Option String := none
  formulaExceptions : List String := []
  indent : ℕ := 0
  hidden : Bool := false
  checkRow : Bool := false
  neighbors : List String := []
  neighborRanges : List String := []
  numericSummary : Option NumericSummary := none
  hints : RowHints := {}
  cells : List RoleCell := []
  scaleFactor : Option ℕ := none
  values : List (Option String) := []
  valueStatuses : List ValueStatus := []
  normalizedValues : List (Option String) := []
  series : List RowSeries := []
  deriving DecidableEq

structure ContextPeriod where
  col : ℕ
  text : String
  periodKey : String
  groupKey : Option String := none
  index : ℕ
  calendarYear : Option String := none
  startDate : Option String := none
  endDate : Option String := none
  flags : List (String × Bool) := []
  hidden : Bool := false
  deriving DecidableEq

structure ContextAxis where
  id : String
  sheet : String
  grain : Option String := none
  headerRow : ℕ
  timelineId : String
  periods : List ContextPeriod := []
  deriving DecidableEq

/-- What `_period_dict` publishes of a header. -/
structure BlockPeriod where
  col : ℕ
  text : String
  periodKey : String
  role : Option ColumnRole := none
  hidden : Bool := false
  deriving DecidableEq

structure FinancialBlock where
  blockId : String
  sheet : String
  labelCol : ℕ
  kind : BlockKind
  axisIds : List String := []
  periods : List BlockPeriod := []
  rows : List BlockRow := []
  relations : List RowRelation := []
  deriving DecidableEq

structure FormulaStats where
  formulaCount : ℕ := 0
  missingCached : ℕ := 0
  unparsed : ℕ := 0
  missingValues : ℕ := 0
  missingAddrs : List String := []
  unparsedAddrs : List String := []
  deriving DecidableEq

structure WorkbookRaw where
  sheets : List String
  cellCount : ℕ
  definedNames : List (String × Option String)
  formulaCount : ℕ
  missingCachedValues : ℕ
  unparsedFormulas : ℕ
  deriving DecidableEq

@[ext] structure ContextDocument where
  workbook : WorkbookRaw
  axes : List ContextAxis
  blocks : List FinancialBlock
  warnings : List String
  deriving DecidableEq

/-- The rules on texts that the build applies; a number is the exact value of a float. -/
structure ContextText extends SwitchText where
  strip : String → String
  isBlockUnitCaption : String → Bool
  parseText : String → Measure
  combineMeasure : Option String → Measure → Option (List String) → Measure
  parseNumber : String → Option ℚ
  formatNumber : ℚ → String
  isZero : String → Bool
  normalizeNumber : String → ℕ → Option String
  isResidue : List String → String → Bool
  isFlagOn : String → Bool
  normalizeLabel : String → String
  calendarYear : Option String → String → Option String
  periodWarningValue : String → Option String → Option String
  unparsedPeriodShape : String → Bool
  periodHeader : String → Bool

/-- `SCALE_FACTORS`, through `scale_factor_for`. -/
def scaleFactorFor : Option String → Option ℕ
  | some "unit" => some 1
  | some "k" => some 1000
  | some "m" => some 1000000
  | some "bn" => some 1000000000
  | _ => none

namespace ContextText

def literal : ContextText where
  callParts _ _ := []
  plainAddr _ := none
  nameArg _ := false
  casefold name := name
  cellOnSheet _ _ _ := none
  display value _ := some value
  isSelectorLabel _ := false
  strip value := value
  isBlockUnitCaption _ := false
  parseText _ := {}
  combineMeasure _ _ _ := {}
  parseNumber _ := none
  formatNumber _ := ""
  isZero _ := false
  normalizeNumber value _ := some value
  isResidue _ _ := false
  isFlagOn _ := false
  normalizeLabel label := label
  calendarYear _ _ := none
  periodWarningValue _ _ := none
  unparsedPeriodShape _ := false
  periodHeader _ := false

variable (text : ContextText)

def valueStatus (shown : Option String) (applicable : Bool) : ValueStatus :=
  if !applicable then .notApplicable
  else match shown with
    | none => .empty
    | some value =>
      if value = "" then .empty else if text.isZero value then .zeroExplicit else .cached

def normalizeValue (shown : Option String) (factor : Option ℕ) : Option String :=
  shown.bind fun value => if value = "" then none else text.normalizeNumber value (factor.getD 1)

def withoutResidue (amounts : List String) (item : String) : String :=
  if text.isResidue amounts item then "0" else item

def normalizeSeries (values : List (Option String)) (factor : Option ℕ) : List (Option String) :=
  let out := values.map (text.normalizeValue · factor)
  out.map (Option.map (text.withoutResidue out.reduceOption))

def percentFormatted (formats : List String) : Bool :=
  let percents := (formats.filter fun format => '%' ∈ format.toList).length
  decide (0 < percents ∧ formats.length ≤ percents * 2)

def resolvedHints (label : String) (unitText unitFromCell : Option String)
    (formats : List String) : RowHints :=
  let measured := text.parseText label
  let combined := text.combineMeasure unitText measured (some formats)
  let hinted := if combined.unit = some "money" ∧ percentFormatted formats
    then { unit := some "rate" } else combined
  let row : Measure := if hinted.unit = some "rate" then { unit := some "rate" }
    else text.combineMeasure unitFromCell measured none
  { unit := row.unit.or hinted.unit
    unitPer := hinted.per.or row.per
    currency := hinted.currency.or row.currency
    scale := hinted.scale.or row.scale }

@[simp] theorem length_normalizeSeries (values : List (Option String)) (factor : Option ℕ) :
    (text.normalizeSeries values factor).length = values.length := by
  simp [normalizeSeries]

end ContextText

end FinanceContext
