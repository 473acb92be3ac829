import FinanceContext.PeriodShapes

namespace FinanceContext.Periods

open CalendarDays

namespace Shape

/-- The letter of an ordinal key is one of its pattern. -/
def Lettered : Shape → Prop
  | .ordinal letter _ => letter ∈ ['Y', 'Q', 'M', 'P']
  | _ => True

def Valid : Shape → Prop
  | .month _ m => 1 ≤ m ∧ m ≤ 12
  | .day d => d.Valid
  | .ordinal letter _ => letter ∈ ['Y', 'Q', 'M', 'P']
  | _ => True

instance : DecidablePred Valid
  | .month _ m => inferInstanceAs (Decidable (1 ≤ m ∧ m ≤ 12))
  | .day d => inferInstanceAs (Decidable d.Valid)
  | .ordinal letter _ => inferInstanceAs (Decidable (letter ∈ ['Y', 'Q', 'M', 'P']))
  | .year _ | .half _ _ | .quarter _ _ => isTrue trivial

def next : Shape → Shape
  | .year y => .year (y + 1)
  | .half y part => if part.val < 1 then .half y (part + 1) else .half (y + 1) 0
  | .quarter y part => if part.val < 3 then .quarter y (part + 1) else .quarter (y + 1) 0
  | .month y m => if m < 12 then .month y (m + 1) else .month (y + 1) 1
  | .day d => .day d.next
  | .ordinal letter step => .ordinal letter (step + 1)

variable {shape a b : Shape}

theorem Valid.next (h : shape.Valid) : shape.next.Valid := by
  cases shape with
  | month y m =>
    have hmonth : 1 ≤ m ∧ m ≤ 12 := h
    simp only [Shape.next]
    split_ifs
    · exact ⟨by omega, by omega⟩
    · exact ⟨Nat.le_refl 1, by omega⟩
  | day d => exact Date.Valid.next h
  | half y part =>
    simp only [Shape.next]
    split_ifs <;> trivial
  | quarter y part =>
    simp only [Shape.next]
    split_ifs <;> trivial
  | year y => trivial
  | ordinal letter step => exact h

theorem grain_next (shape : Shape) : shape.next.grain = shape.grain := by
  cases shape <;> simp only [next] <;> (try split_ifs) <;> rfl

theorem Valid.index_next (h : shape.Valid) : shape.next.index = shape.index + 1 := by
  cases shape with
  | month y m =>
    have hmonth : 1 ≤ m ∧ m ≤ 12 := h
    simp only [Shape.next]
    split_ifs <;> simp only [index] <;> omega
  | day d =>
    have hnumber := Date.Valid.number_next h
    simp only [Shape.next, index, hnumber]
    omega
  | half y part =>
    simp only [Shape.next]
    split_ifs <;> simp only [index, Fin.val_add, Fin.val_one, Fin.val_zero] <;> omega
  | quarter y part =>
    simp only [Shape.next]
    split_ifs <;> simp only [index, Fin.val_add, Fin.val_one, Fin.val_zero] <;> omega
  | year y =>
    simp only [Shape.next, index]
    omega
  | ordinal letter step =>
    simp only [Shape.next, index]
    omega

theorem eq_of_index (ha : a.Valid) (hb : b.Valid) (hgrain : a.grain = b.grain)
    (hindex : a.index = b.index) : a = b := by
  cases a <;> cases b <;> simp [grain, ← String.toList_inj] at hgrain
  case year.year y y' =>
    simp only [index] at hindex
    rw [show y = y' by omega]
  case half.half y part y' part' =>
    simp only [index] at hindex
    rw [show y = y' by omega, show part = part' by omega]
  case quarter.quarter y part y' part' =>
    simp only [index] at hindex
    rw [show y = y' by omega, show part = part' by omega]
  case month.month y m y' m' =>
    have hm : 1 ≤ m ∧ m ≤ 12 := ha
    have hm' : 1 ≤ m' ∧ m' ≤ 12 := hb
    simp only [index] at hindex
    rw [show y = y' by omega, show m = m' by omega]
  case day.day d d' =>
    have hnumber : d.number = d'.number := Int.ofNat_inj.mp hindex
    rw [Date.number_injective ha hb hnumber]
  case ordinal.ordinal letter step letter' step' =>
    have hstep : step = step' := Int.ofNat_inj.mp hindex
    rw [hgrain, hstep]

end Shape

abbrev Period := {shape : Shape // shape.Valid}

namespace Period

def next (period : Period) : Period := ⟨period.1.next, period.2.next⟩

/-- `q` is the period after `p`, or for days one or two weeks later. -/
def Follows (p q : Period) : Prop :=
  q = p.next ∨ p.1.grain = "day" ∧ (q = next^[7] p ∨ q = next^[14] p)

theorem grain_iterate (p : Period) (k : ℕ) : (next^[k] p).1.grain = p.1.grain := by
  induction k generalizing p with
  | zero => rfl
  | succ k ih =>
    rw [Function.iterate_succ_apply, ih]
    exact Shape.grain_next p.1

theorem index_iterate (p : Period) (k : ℕ) : (next^[k] p).1.index = p.1.index + k := by
  induction k generalizing p with
  | zero => exact (Int.add_zero _).symm
  | succ k ih =>
    have hnext : p.next.1.index = p.1.index + 1 := p.2.index_next
    rw [Function.iterate_succ_apply, ih, hnext]
    omega

/-- The period `k` steps later is the one of the grain whose index is `k` more. -/
theorem eq_iterate_iff {p q : Period} {k : ℕ} :
    q = next^[k] p ↔ p.1.grain = q.1.grain ∧ q.1.index = p.1.index + k := by
  constructor
  · rintro rfl
    exact ⟨(grain_iterate p k).symm, index_iterate p k⟩
  · rintro ⟨hgrain, hindex⟩
    apply Subtype.ext
    apply Shape.eq_of_index q.2 (next^[k] p).2
    · rw [grain_iterate, hgrain]
    · rw [index_iterate, hindex]

theorem follows_iff {p q : Period} :
    Follows p q ↔ p.1.grain = q.1.grain ∧ (q.1.index = p.1.index + 1 ∨
      p.1.grain = "day" ∧ (q.1.index = p.1.index + 7 ∨ q.1.index = p.1.index + 14)) := by
  have hone : q = p.next ↔ p.1.grain = q.1.grain ∧ q.1.index = p.1.index + 1 :=
    @eq_iterate_iff p q 1
  have hseven := @eq_iterate_iff p q 7
  have hfourteen := @eq_iterate_iff p q 14
  unfold Follows
  rw [hone, hseven, hfourteen]
  constructor
  · rintro (⟨hgrain, hindex⟩ | ⟨hday, ⟨hgrain, hindex⟩ | ⟨hgrain, hindex⟩⟩)
    · exact ⟨hgrain, .inl hindex⟩
    · exact ⟨hgrain, .inr ⟨hday, .inl hindex⟩⟩
    · exact ⟨hgrain, .inr ⟨hday, .inr hindex⟩⟩
  · rintro ⟨hgrain, hindex | ⟨hday, hindex | hindex⟩⟩
    · exact .inl ⟨hgrain, hindex⟩
    · exact .inr ⟨hday, .inl ⟨hgrain, hindex⟩⟩
    · exact .inr ⟨hday, .inr ⟨hgrain, hindex⟩⟩

end Period

end FinanceContext.Periods
