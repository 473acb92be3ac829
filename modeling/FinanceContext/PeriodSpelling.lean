import FinanceContext.PeriodShapes
import Mathlib.Data.List.Induction

namespace FinanceContext.Periods

open CalendarDays Csr

variable {table : CharTable}

def Ascii (text : List Char) : Prop := ∀ ch ∈ text, ch.toNat < 128

theorem digit_of_decimal {ch : Char} {n : ℕ} (hascii : ch.toNat < 128)
    (hdecimal : table.decimal ch = some n) : n < 10 ∧ ch = n.digitChar := by
  rw [table.decimal_ascii ch hascii] at hdecimal
  split_ifs at hdecimal with hdigit
  have hrange := digit_range hdigit
  have hn : ch.toNat - 48 = n := Option.some.inj hdecimal
  have hlt : n < 10 := by omega
  refine ⟨hlt, Char.toNat_inj.mp ?_⟩
  rw [Nat.toNat_digitChar_of_lt_ten hlt]
  omega

def twoText (n : ℕ) : List Char := [(n / 10).digitChar, (n % 10).digitChar]

def yearText (year : ℕ) : List Char := twoText (year / 100) ++ twoText (year % 100)

def Shape.keyText : Shape → List Char
  | .year y => yearText y
  | .half y part => yearText y ++ ['H', (part.val + 1).digitChar]
  | .quarter y part => yearText y ++ ['Q', (part.val + 1).digitChar]
  | .month y m => yearText y ++ '-' :: twoText m
  | .day d => yearText d.year ++ '-' :: (twoText d.month ++ '-' :: twoText d.day)
  | .ordinal letter step => letter :: Nat.toDigits 10 step

theorem twoDigits_text {key rest : List Char} {n : ℕ} (hascii : Ascii key)
    (h : twoDigits table key = some (n, rest)) :
    n < 100 ∧ key = twoText n ++ rest ∧ Ascii rest := by
  rcases key with - | ⟨a, - | ⟨b, key⟩⟩
  · cases h
  · cases h
  · simp only [twoDigits, Option.bind_eq_bind, Option.bind_eq_some_iff, Option.pure_def,
      Option.some.injEq, Prod.mk.injEq] at h
    obtain ⟨x, hx, y, hy, hn, rfl⟩ := h
    obtain ⟨hxlt, rfl⟩ := digit_of_decimal (hascii a List.mem_cons_self) hx
    obtain ⟨hylt, rfl⟩ := digit_of_decimal (hascii b (List.mem_cons_of_mem _
      List.mem_cons_self)) hy
    have htens : n / 10 = x := by omega
    have hones : n % 10 = y := by omega
    refine ⟨by omega, ?_, fun ch hch => hascii ch (by simp [hch])⟩
    rw [twoText, htens, hones]
    rfl

theorem yearField_text {key rest : List Char} {year : ℕ} (hascii : Ascii key)
    (h : yearField table key = some (year, rest)) :
    key = yearText year ++ rest ∧ Ascii rest := by
  unfold yearField at h
  split at h
  · rename_i tail
    obtain ⟨⟨n, rest'⟩, hn, hyear⟩ := Option.map_eq_some_iff.mp h
    obtain ⟨rfl, rfl⟩ := Prod.mk.inj hyear
    obtain ⟨hlt, rfl, hrest⟩ := twoDigits_text (fun ch hch => hascii ch (by simp [hch])) hn
    refine ⟨?_, hrest⟩
    rw [yearText, show (1900 + n) / 100 = 19 by omega, show (1900 + n) % 100 = n by omega]
    rfl
  · rename_i tail
    obtain ⟨⟨n, rest'⟩, hn, hyear⟩ := Option.map_eq_some_iff.mp h
    obtain ⟨rfl, rfl⟩ := Prod.mk.inj hyear
    obtain ⟨hlt, rfl, hrest⟩ := twoDigits_text (fun ch hch => hascii ch (by simp [hch])) hn
    refine ⟨?_, hrest⟩
    rw [yearText, show (2000 + n) / 100 = 20 by omega, show (2000 + n) % 100 = n by omega]
    rfl
  · cases h

theorem shapeAfter_text {year : ℕ} {rest : List Char} {shape : Shape} (hascii : Ascii rest)
    (h : shapeAfter table year rest = some shape) :
    shape.keyText = yearText year ++ rest := by
  have htail : ∀ ch tail, rest = ch :: tail → Ascii tail := fun ch tail hrest other hother =>
    hascii other (hrest ▸ List.mem_cons_of_mem _ hother)
  revert h
  fun_cases shapeAfter table year rest with
  | case8 tail m hmonth =>
    intro h
    obtain ⟨-, htext, -⟩ := twoDigits_text (htail _ _ rfl) hmonth
    rw [List.append_nil] at htext
    cases h
    rw [htext]
    rfl
  | case9 tail m tail' hmonth d hday =>
    intro h
    obtain ⟨-, htext, hascii'⟩ := twoDigits_text (htail _ _ rfl) hmonth
    obtain ⟨-, htext', -⟩ := twoDigits_text (fun ch hch => hascii' ch (List.mem_cons_of_mem _ hch))
      hday
    rw [List.append_nil] at htext'
    cases h
    rw [htext, htext']
    rfl
  | _ =>
    intro h
    cases h <;> rfl

theorem pos_of_no_leading_zero {digits : List Char} (hhead : digits.head? ≠ some '0')
    (htext : Nat.toDigits 10 (readInt table.decimal digits) = digits) :
    0 < readInt table.decimal digits := by
  rcases Nat.eq_zero_or_pos (readInt table.decimal digits) with hzero | hpos
  · rw [hzero, Nat.toDigits_zero] at htext
    exact absurd (by rw [← htext]; rfl) hhead
  · exact hpos

theorem toDigits_readInt {digits : List Char} (hne : digits ≠ [])
    (hdigits : ∀ ch ∈ digits, ∃ n < 10, ch = n.digitChar ∧ table.decimal ch = some n)
    (hplain : digits.length ≤ 1 ∨ digits.head? ≠ some '0') :
    Nat.toDigits 10 (readInt table.decimal digits) = digits := by
  induction digits using List.reverseRecOn with
  | nil => exact absurd rfl hne
  | append_singleton digits ch ih =>
    obtain ⟨n, hn, hch, hdecimal⟩ := hdigits ch (List.mem_append_right _ List.mem_cons_self)
    have hread : readInt table.decimal (digits ++ [ch]) =
        10 * readInt table.decimal digits + n := by
      rw [readInt, List.foldl_append, List.foldl_cons, List.foldl_nil, hdecimal, Option.getD_some,
        Nat.mul_comm]
      rfl
    by_cases hfirst : digits = []
    · subst hfirst
      rw [hread, show readInt table.decimal [] = 0 from rfl, Nat.mul_zero, Nat.zero_add,
        Nat.toDigits_of_lt_base hn, hch]
      rfl
    · have hhead : digits.head? ≠ some '0' := by
        rcases hplain with hlength | hhead
        · have hpos := List.length_pos_of_ne_nil hfirst
          rw [List.length_append, List.length_singleton] at hlength
          omega
        · rwa [List.head?_append_of_ne_nil _ hfirst] at hhead
      have htext := ih hfirst (fun ch hch => hdigits ch (List.mem_append_left _ hch)) (.inr hhead)
      have hpos := pos_of_no_leading_zero hhead htext
      rw [hread, ← Nat.toDigits_append_toDigits (by decide) hpos hn, htext,
        Nat.toDigits_of_lt_base hn, hch]

variable (table) in
/-- The number of an ordinal key has no leading zeros. -/
def PlainNumber (key : List Char) : Prop :=
  ∀ letter digits, key = letter :: digits → (ordinalKey table key).isSome →
    digits.length ≤ 1 ∨ digits.head?.bind table.decimal ≠ some 0

theorem keyText_of_shapeOf {key : List Char} {shape : Shape} (hascii : Ascii key)
    (hplain : PlainNumber table key) (h : shapeOf table key = some shape) :
    key = shape.keyText := by
  unfold shapeOf at h
  rcases hordinal : ordinalKey table key with - | ⟨letter, step⟩
  · simp only [hordinal] at h
    obtain ⟨⟨year, rest⟩, hfield, hrest⟩ := Option.bind_eq_some_iff.mp h
    obtain ⟨hkey, hascii'⟩ := yearField_text hascii hfield
    rw [shapeAfter_text hascii' hrest, hkey]
  · simp only [hordinal, Option.some.injEq] at h
    subst h
    rcases key with - | ⟨first, digits⟩
    · cases hordinal
    · have hplain := hplain first digits rfl (by rw [hordinal]; rfl)
      simp only [ordinalKey] at hordinal
      split_ifs at hordinal with hpattern
      obtain ⟨rfl, rfl⟩ := Prod.mk.inj (Option.some.inj hordinal)
      obtain ⟨-, hne, hall⟩ := hpattern
      have hdigits : ∀ ch ∈ digits, ∃ n < 10, ch = n.digitChar ∧ table.decimal ch = some n := by
        intro ch hch
        obtain ⟨n, hn⟩ := Option.isSome_iff_exists.mp (List.all_eq_true.mp hall ch hch)
        obtain ⟨hlt, heq⟩ := digit_of_decimal (hascii ch (List.mem_cons_of_mem _ hch)) hn
        exact ⟨n, hlt, heq, hn⟩
      have hhead : digits.length ≤ 1 ∨ digits.head? ≠ some '0' := by
        apply hplain.imp_right
        intro hzero hhead
        rw [hhead] at hzero
        exact hzero (decimal_digit table (by decide))
      rw [Shape.keyText, toDigits_readInt hne hdigits hhead]

end FinanceContext.Periods
