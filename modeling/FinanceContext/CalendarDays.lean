import Mathlib.Algebra.GroupWithZero.Nat
import Mathlib.Data.Nat.Init
import Mathlib.Order.Nat

namespace CalendarDays

def isLeap (year : ℕ) : Bool := year % 4 = 0 ∧ (year % 100 ≠ 0 ∨ year % 400 = 0)

def daysInMonth (year month : ℕ) : ℕ :=
  if month = 2 then if isLeap year then 29 else 28
  else if month = 4 ∨ month = 6 ∨ month = 9 ∨ month = 11 then 30 else 31

def daysInYear (year : ℕ) : ℕ := if isLeap year then 366 else 365

def daysBeforeMonth (year month : ℕ) : ℕ :=
  ((List.range' 1 (month - 1)).map (daysInMonth year)).sum

def daysBeforeYear (year : ℕ) : ℕ :=
  (year - 1) * 365 + (year - 1) / 4 - (year - 1) / 100 + (year - 1) / 400

@[ext]
structure Date where
  year : ℕ
  month : ℕ
  day : ℕ
deriving DecidableEq

namespace Date

structure Valid (date : Date) : Prop where
  year : 1 ≤ date.year
  month : 1 ≤ date.month ∧ date.month ≤ 12
  day : 1 ≤ date.day ∧ date.day ≤ daysInMonth date.year date.month

instance (date : Date) : Decidable date.Valid :=
  decidable_of_iff (1 ≤ date.year ∧ (1 ≤ date.month ∧ date.month ≤ 12) ∧
      1 ≤ date.day ∧ date.day ≤ daysInMonth date.year date.month)
    ⟨fun h => ⟨h.1, h.2.1, h.2.2⟩, fun h => ⟨h.year, h.month, h.day⟩⟩

def next (date : Date) : Date :=
  if date.day < daysInMonth date.year date.month then { date with day := date.day + 1 }
  else if date.month < 12 then { date with month := date.month + 1, day := 1 }
  else ⟨date.year + 1, 1, 1⟩

def number (date : Date) : ℕ :=
  daysBeforeYear date.year + daysBeforeMonth date.year date.month + date.day

end Date

theorem daysInMonth_pos (year month : ℕ) : 1 ≤ daysInMonth year month := by
  unfold daysInMonth
  split_ifs <;> omega

theorem daysBeforeMonth_succ {month : ℕ} (year : ℕ) (hmonth : 1 ≤ month) :
    daysBeforeMonth year (month + 1) = daysBeforeMonth year month + daysInMonth year month := by
  obtain ⟨months, rfl⟩ : ∃ months, month = months + 1 := ⟨month - 1, by omega⟩
  simp only [daysBeforeMonth, Nat.add_sub_cancel, List.range'_concat, List.map_append,
    List.sum_append, List.map_cons, List.map_nil, List.sum_cons, List.sum_nil]
  rw [show 1 + 1 * months = months + 1 from by omega]
  omega

theorem daysBeforeMonth_mono (year : ℕ) {a b : ℕ} (ha : 1 ≤ a) (hab : a ≤ b) :
    daysBeforeMonth year a ≤ daysBeforeMonth year b := by
  induction b, hab using Nat.le_induction with
  | base => exact le_rfl
  | succ b hab ih =>
    have hsucc := daysBeforeMonth_succ year (show 1 ≤ b by omega)
    omega

theorem daysBeforeMonth_thirteen (year : ℕ) : daysBeforeMonth year 13 = daysInYear year := by
  cases hleap : isLeap year <;>
    simp [daysBeforeMonth, List.range', daysInMonth, daysInYear, hleap]

theorem daysBeforeYear_succ {year : ℕ} (hyear : 1 ≤ year) :
    daysBeforeYear (year + 1) = daysBeforeYear year + daysInYear year := by
  obtain ⟨before, rfl⟩ : ∃ before, year = before + 1 := ⟨year - 1, by omega⟩
  -- the quotients grow with the remainders that make a year leap
  have hfour : (before + 1) / 4 = before / 4 + if (before + 1) % 4 = 0 then 1 else 0 := by
    split_ifs <;> omega
  have hhundred : (before + 1) / 100 =
      before / 100 + if (before + 1) % 100 = 0 then 1 else 0 := by
    split_ifs <;> omega
  have hera : (before + 1) / 400 = before / 400 + if (before + 1) % 400 = 0 then 1 else 0 := by
    split_ifs <;> omega
  have hcentury : (before + 1) % 400 = 0 → (before + 1) % 100 = 0 := by omega
  have hleap : (before + 1) % 100 = 0 → (before + 1) % 4 = 0 := by omega
  have hless : before / 100 ≤ before / 4 := by omega
  simp only [daysBeforeYear, daysInYear, isLeap, Nat.add_sub_cancel, decide_eq_true_eq, hfour,
    hhundred, hera]
  generalize before / 4 = fours, before / 100 = hundreds, before / 400 = eras at hless ⊢
  by_cases hm4 : (before + 1) % 4 = 0 <;> by_cases hm100 : (before + 1) % 100 = 0 <;>
    by_cases hm400 : (before + 1) % 400 = 0 <;> simp [hm4, hm100, hm400] at hcentury hleap ⊢ <;>
    omega

theorem daysBeforeYear_mono {a b : ℕ} (ha : 1 ≤ a) (hab : a ≤ b) :
    daysBeforeYear a ≤ daysBeforeYear b := by
  induction b, hab using Nat.le_induction with
  | base => exact le_rfl
  | succ b hab ih =>
    have hsucc := daysBeforeYear_succ (show 1 ≤ b by omega)
    omega

namespace Date

variable {a b date : Date}

theorem Valid.next (h : date.Valid) : date.next.Valid := by
  have hyear := h.year
  have hmonth := h.month
  have hday := h.day
  unfold Date.next
  split_ifs with hlast hyearEnd
  · exact ⟨hyear, hmonth, by dsimp only; omega⟩
  · exact ⟨hyear, by dsimp only; omega, Nat.le_refl 1, daysInMonth_pos _ _⟩
  · exact ⟨by dsimp only; omega, by dsimp only; omega, Nat.le_refl 1, daysInMonth_pos _ _⟩

theorem Valid.number_next (h : date.Valid) : date.next.number = date.number + 1 := by
  have hday := h.day
  have hmonth := h.month
  have hstep := daysBeforeMonth_succ date.year hmonth.1
  unfold Date.next number
  split_ifs with hlast hyearEnd
  · dsimp only
    omega
  · dsimp only
    omega
  · have hdecember : date.month = 12 := by omega
    have hyear := daysBeforeYear_succ h.year
    have hlength := daysBeforeMonth_thirteen date.year
    have hfirst : daysBeforeMonth (date.year + 1) 1 = 0 := rfl
    rw [hdecember] at hstep hday hlast ⊢
    rw [hlength] at hstep
    dsimp only
    omega

theorem Valid.number_le (h : date.Valid) :
    date.number ≤ daysBeforeYear date.year + daysBeforeMonth date.year (date.month + 1) := by
  have hstep := daysBeforeMonth_succ date.year h.month.1
  have hday := h.day
  unfold number
  omega

theorem number_lt_of_year (ha : a.Valid) (hb : b.Valid) (hyear : a.year < b.year) :
    a.number < b.number := by
  have hle := ha.number_le
  have hmonth := ha.month
  have hlate := daysBeforeMonth_mono a.year (show 1 ≤ a.month + 1 by omega)
    (show a.month + 1 ≤ 13 by omega)
  rw [daysBeforeMonth_thirteen] at hlate
  have hsucc := daysBeforeYear_succ ha.year
  have hyears := daysBeforeYear_mono (show 1 ≤ a.year + 1 by omega) hyear
  have hday := hb.day
  unfold number at hle ⊢
  omega

theorem number_lt_of_month (ha : a.Valid) (hb : b.Valid) (hyear : a.year = b.year)
    (hmonth : a.month < b.month) : a.number < b.number := by
  have hle := ha.number_le
  have hmonths := daysBeforeMonth_mono a.year (show 1 ≤ a.month + 1 by omega) hmonth
  have hday := hb.day
  unfold number at hle ⊢
  rw [← hyear]
  omega

theorem number_injective (ha : a.Valid) (hb : b.Valid) (hnumber : a.number = b.number) :
    a = b := by
  have hyear : a.year = b.year := by
    rcases lt_trichotomy a.year b.year with hlt | heq | hlt
    · have := number_lt_of_year ha hb hlt
      omega
    · exact heq
    · have := number_lt_of_year hb ha hlt
      omega
  have hmonth : a.month = b.month := by
    rcases lt_trichotomy a.month b.month with hlt | heq | hlt
    · have := number_lt_of_month ha hb hyear hlt
      omega
    · exact heq
    · have := number_lt_of_month hb ha hyear.symm hlt
      omega
  have hday : a.day = b.day := by
    unfold number at hnumber
    rw [hyear, hmonth] at hnumber
    omega
  exact Date.ext hyear hmonth hday

end Date

example : (⟨2023, 12, 31⟩ : Date).next = ⟨2024, 1, 1⟩ ∧
    (⟨2024, 2, 28⟩ : Date).next = ⟨2024, 2, 29⟩ := by decide

end CalendarDays
