import FinanceContext.PeriodCalendar
import FinanceContext.RangeNodes

namespace FinanceContext.Periods

open CalendarDays

namespace Shape

/-- A year key beside a half key of the following year. -/
def yearBesideHalf : Shape → Shape → Prop
  | .year y, .half y' _ => y' = y + 1
  | .half y _, .year y' => y' = y + 1
  | _, _ => False

/-- The year and month of a month key, or of a date key whose day is `00`. -/
def monthField : Shape → Option (ℕ × ℕ)
  | .month y m => some (y, m)
  | .day d => if d.day = 0 then some (d.year, d.month) else none
  | _ => none

/-- Successive month fields, other than `00`, of keys that are not both periods. -/
def looseMonths (a b : Shape) : Prop :=
  ¬(a.Valid ∧ b.Valid) ∧ ∃ y m y' m', a.monthField = some (y, m) ∧ b.monthField = some (y', m') ∧
    m ≠ 0 ∧ m' ≠ 0 ∧ y' * 12 + m' = y * 12 + m + 1

def follows (a b : Shape) : Prop :=
  a.Valid ∧ b.Valid ∧ a.grain = b.grain ∧ (b.index = a.index + 1 ∨
    a.grain = "day" ∧ (b.index = a.index + 7 ∨ b.index = a.index + 14))

theorem follows_iff {a b : Shape} :
    a.follows b ↔ ∃ p q : Period, a = p.1 ∧ b = q.1 ∧ p.Follows q := by
  constructor
  · rintro ⟨ha, hb, hindex⟩
    exact ⟨⟨a, ha⟩, ⟨b, hb⟩, rfl, rfl, Period.follows_iff.mpr hindex⟩
  · rintro ⟨p, q, rfl, rfl, hfollows⟩
    exact ⟨p.2, q.2, Period.follows_iff.mp hfollows⟩

theorem continues_year {y y' : ℕ} :
    (Shape.year y).continues (.year y') = true ↔ y' = y + 1 := decide_eq_true_iff

theorem continues_quarter {y y' : ℕ} {part part' : Fin 4} :
    (Shape.quarter y part).continues (.quarter y' part') = true ↔
      y' * 4 + (part' + 1 : ℕ) = y * 4 + (part + 1 : ℕ) + 1 := decide_eq_true_iff

theorem continues_month {y m y' m' : ℕ} :
    (Shape.month y m).continues (.month y' m') = true ↔
      m ≠ 0 ∧ m' ≠ 0 ∧ y' * 12 + m' = y * 12 + m + 1 := by
  by_cases hm : m = 0
  · simp [continues, fieldsContinue, fields, truthy, hm]
  · by_cases hm' : m' = 0
    · simp [continues, fieldsContinue, fields, truthy, hm']
    · simp only [continues, fieldsContinue, fields, truthy, Option.getD_some, Option.getD_none,
        hm, hm', ne_eq, not_true_eq_false, not_false_eq_true, decide_true, decide_false,
        Bool.false_eq_true, and_self, and_true, if_true, if_false, true_and]
      exact decide_eq_true_iff

theorem continues_month_day {y m : ℕ} {d : Date} :
    (Shape.month y m).continues (.day d) = true ↔
      d.day = 0 ∧ m ≠ 0 ∧ d.month ≠ 0 ∧ d.year * 12 + d.month = y * 12 + m + 1 := by
  by_cases hm : m = 0 <;> by_cases hm' : d.month = 0 <;> by_cases hd : d.day = 0 <;>
    simp [continues, fieldsContinue, fields, truthy, hm, hm', hd]

theorem continues_day_month {y m : ℕ} {d : Date} :
    (Shape.day d).continues (.month y m) = true ↔
      d.day = 0 ∧ d.month ≠ 0 ∧ m ≠ 0 ∧ y * 12 + m = d.year * 12 + d.month + 1 := by
  by_cases hm : m = 0 <;> by_cases hm' : d.month = 0 <;> by_cases hd : d.day = 0 <;>
    simp [continues, fieldsContinue, fields, truthy, hm, hm', hd]

theorem fields_ne_zero {d : Date} (h : d.Valid) : d.day ≠ 0 ∧ d.month ≠ 0 := by
  have hmonth := h.month
  have hday := h.day
  exact ⟨by omega, by omega⟩

theorem continues_day {d d' : Date} :
    (Shape.day d).continues (.day d') = true ↔
      (d.Valid ∧ d'.Valid ∧ ((d'.number - d.number : ℤ) = 1 ∨ (d'.number - d.number : ℤ) = 7 ∨
        (d'.number - d.number : ℤ) = 14)) ∨
      d.day = 0 ∧ d'.day = 0 ∧ d.month ≠ 0 ∧ d'.month ≠ 0 ∧
        d'.year * 12 + d'.month = d.year * 12 + d.month + 1 := by
  by_cases hall : d.day ≠ 0 ∧ d'.day ≠ 0 ∧ d.month ≠ 0 ∧ d'.month ≠ 0
  · obtain ⟨hd, hd', hm, hm'⟩ := hall
    by_cases hvalid : d.Valid <;> by_cases hvalid' : d'.Valid <;>
      simp [continues, fieldsContinue, fields, truthy, hd, hd', hm, hm', date?, hvalid, hvalid']
  · have hdates : ¬(d.Valid ∧ d'.Valid) := fun h => hall
      ⟨(fields_ne_zero h.1).1, (fields_ne_zero h.2).1, (fields_ne_zero h.1).2,
        (fields_ne_zero h.2).2⟩
    rw [or_iff_right fun h => hdates ⟨h.1, h.2.1⟩]
    by_cases hd : d.day = 0 <;> by_cases hd' : d'.day = 0 <;> by_cases hm : d.month = 0 <;>
      by_cases hm' : d'.month = 0 <;>
      simp_all [continues, fieldsContinue, fields, truthy]

theorem continues_iff {a b : Shape} (ha : a.Lettered) (hb : b.Lettered) :
    a.continues b = true ↔ a.follows b ∨ a.yearBesideHalf b ∨ a.looseMonths b := by
  cases a <;> cases b
  case year.year y y' =>
    rw [continues_year]
    simp [follows, yearBesideHalf, looseMonths, monthField, Valid, grain, index]
    omega
  case half.half y part y' part' =>
    simp [continues, follows, yearBesideHalf, looseMonths, monthField, Valid, grain, index]
    omega
  case quarter.quarter y part y' part' =>
    rw [continues_quarter]
    simp [follows, yearBesideHalf, looseMonths, monthField, Valid, grain, index]
    omega
  case ordinal.ordinal letter step letter' step' =>
    have hcontinues : (ordinal letter step).continues (ordinal letter' step') = true ↔
        letter = letter' ∧ step' = step + 1 := decide_eq_true_iff
    have hgrain : (ordinal letter step).grain = (ordinal letter' step').grain ↔
        letter = letter' := by simp [grain]
    have hday : (ordinal letter step).grain ≠ "day" := by simp [grain, ← String.toList_inj]
    have hindex : (step' : ℤ) = step + 1 ↔ step' = step + 1 := by omega
    have hletter : (ordinal letter step).Valid := ha
    have hletter' : (ordinal letter' step').Valid := hb
    rw [hcontinues, follows, hgrain]
    simp only [index, hday, hindex, yearBesideHalf, looseMonths, hletter, hletter', and_self,
      not_true_eq_false, true_and, false_and, or_false]
  case month.month y m y' m' =>
    rw [continues_month]
    simp [follows, yearBesideHalf, looseMonths, monthField, Valid, grain, index]
    omega
  case month.day y m d =>
    rw [continues_month_day]
    by_cases hzero : d.day = 0
    · have hvalid : ¬d.Valid := fun h => (fields_ne_zero h).1 hzero
      simp [follows, yearBesideHalf, looseMonths, monthField, Valid, grain, hzero, hvalid]
    · simp [follows, yearBesideHalf, looseMonths, monthField, grain, hzero]
  case day.month d y m =>
    rw [continues_day_month]
    by_cases hzero : d.day = 0
    · have hvalid : ¬d.Valid := fun h => (fields_ne_zero h).1 hzero
      simp [follows, yearBesideHalf, looseMonths, monthField, Valid, grain, hzero, hvalid]
    · simp [follows, yearBesideHalf, looseMonths, monthField, grain, hzero]
  case day.day d d' =>
    rw [continues_day]
    apply or_congr
    · simp only [follows, Valid, grain, index, true_and, and_congr_right_iff]
      omega
    · by_cases hzero : d.day = 0
      · have hvalid : ¬d.Valid := fun h => (fields_ne_zero h).1 hzero
        by_cases hzero' : d'.day = 0
        · simp [yearBesideHalf, looseMonths, monthField, Valid, hzero, hzero', hvalid]
        · simp [yearBesideHalf, looseMonths, monthField, hzero']
      · simp [yearBesideHalf, looseMonths, monthField, hzero]
  all_goals
    simp [continues, fieldsContinue, fields, truthy, follows, yearBesideHalf, looseMonths,
      monthField, grain, ← String.toList_inj]

theorem not_follows_of_yearBesideHalf {a b : Shape} (h : a.yearBesideHalf b) :
    ¬a.follows b := by
  rintro ⟨-, -, hgrain, -⟩
  cases a <;> cases b <;> first | exact h | exact absurd hgrain (by simp [grain])

theorem not_follows_of_looseMonths {a b : Shape} (h : a.looseMonths b) : ¬a.follows b :=
  fun hfollows => h.1 ⟨hfollows.1, hfollows.2.1⟩

end Shape

variable (table : CharTable)

def IsKey (key : String) (period : Period) : Prop := shapeOf table key.toList = some period.1

/-- Both keys are periods of one grain and the right one follows. -/
def Continues (left right : String) : Prop :=
  ∃ p q : Period, IsKey table left p ∧ IsKey table right q ∧ p.Follows q

/-- A year key beside a half key, or month fields that no pair of periods has. -/
def Misread (left right : String) : Prop :=
  ∃ a b, shapeOf table left.toList = some a ∧ shapeOf table right.toList = some b ∧
    (a.yearBesideHalf b ∨ a.looseMonths b)

theorem lettered_of_shapeOf {key : List Char} {shape : Shape}
    (h : shapeOf table key = some shape) : shape.Lettered := by
  unfold shapeOf at h
  rcases hordinal : ordinalKey table key with - | ⟨letter, step⟩
  · simp only [hordinal] at h
    obtain ⟨⟨year, rest⟩, -, hrest⟩ := Option.bind_eq_some_iff.mp h
    dsimp only at hrest
    fun_cases shapeAfter table year rest <;> simp_all [shapeAfter] <;> subst hrest <;> trivial
  · simp only [hordinal, Option.some.injEq] at h
    subst h
    unfold ordinalKey at hordinal
    split at hordinal
    · split_ifs at hordinal with hpattern
      cases hordinal
      exact hpattern.1
    · cases hordinal

/-- A header run continues over the next period of the grain, the misread pairs apart. -/
theorem period_continues_iff (left right : String) :
    (periodContinues table left right = true ↔ Continues table left right) ↔
      ¬Misread table left right := by
  have hcode := periodContinues_eq table left right
  unfold Continues Misread IsKey
  rcases hleft : shapeOf table left.toList with - | a
  · simp [hcode, hleft]
  · rcases hright : shapeOf table right.toList with - | b
    · simp [hcode, hleft, hright]
    · have hstep := Shape.continues_iff (lettered_of_shapeOf table hleft)
        (lettered_of_shapeOf table hright)
      have hmisread : a.yearBesideHalf b ∨ a.looseMonths b → ¬a.follows b := by
        rintro (hyear | hmonths)
        · exact Shape.not_follows_of_yearBesideHalf hyear
        · exact Shape.not_follows_of_looseMonths hmonths
      have hspec : (∃ p : Period, a = p.1 ∧ ∃ q : Period, b = q.1 ∧ p.Follows q) ↔
          a.follows b := by
        simp only [Shape.follows_iff, exists_and_left]
      rw [hcode, hleft, hright]
      simp only [Option.some.injEq, exists_and_left, exists_eq_left', hstep, hspec]
      constructor
      · intro heq hread
        exact hmisread hread (heq.mp (.inr hread))
      · intro hnot
        exact or_iff_left hnot

/-- The year 2024 is continued by the first half of 2025. -/
theorem year_continues_over_half :
    periodContinues asciiTable "2024" "2025H1" = true ∧
      ¬Continues asciiTable "2024" "2025H1" := by
  have hyear : shapeOf asciiTable "2024".toList = some (.year 2024) := by decide
  have hhalf : shapeOf asciiTable "2025H1".toList = some (.half 2025 0) := by decide
  refine ⟨by decide, ?_⟩
  rintro ⟨p, q, hp, hq, hfollows⟩
  have hleft : Shape.year 2024 = p.1 := Option.some.inj (hyear.symm.trans hp)
  have hright : Shape.half 2025 0 = q.1 := Option.some.inj (hhalf.symm.trans hq)
  have hgrain := (Period.follows_iff.mp hfollows).1
  rw [← hleft, ← hright] at hgrain
  exact absurd hgrain (by decide)

end FinanceContext.Periods
