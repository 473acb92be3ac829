import FinanceContext.PeriodContinuation
import FinanceContext.PeriodSpelling

namespace FinanceContext.Periods

open CalendarDays

section LagTexts

def digitText (digits : List Char) : Option ℕ :=
  if digits ≠ [] ∧ digits.all Char.isDigit then some (Nat.ofDigitChars 10 digits 0) else none

def intText : List Char → Option ℤ
  | '-' :: digits => (digitText digits).map fun n : ℕ => -(n : ℤ)
  | digits => (digitText digits).map fun n : ℕ => (n : ℤ)

/-- The answer of `calendar_lag` with `same` read as 0. -/
def readLag (lag : String) : Option ℤ := if lag = "same" then some 0 else intText lag.toList

theorem digitText_repr (n : ℕ) : digitText n.repr.toList = some n := by
  have hdigits : n.repr.toList.all Char.isDigit = true := by
    rw [Nat.toList_repr, List.all_eq_true]
    intro ch hch
    exact Nat.isDigit_of_mem_toDigits (by decide) (by decide) hch
  have hne : n.repr.toList ≠ [] := toString_ne_nil n
  rw [digitText, if_pos ⟨hne, hdigits⟩, Nat.toList_repr, Nat.ofDigitChars_ten_toDigits]

theorem intText_toString (n : ℤ) : intText (toString n).toList = some n := by
  rw [Int.toString_eq_repr, Int.repr_eq_if]
  split_ifs with hn
  · have hread := digitText_repr n.toNat
    have hminus : '-' ∉ n.toNat.repr.toList := by
      rw [Nat.toList_repr]
      intro hmem
      exact absurd (Nat.isDigit_of_mem_toDigits (by decide) (by decide) hmem) (by decide)
    unfold intText
    split
    · rename_i digits hchars
      exact absurd (hchars ▸ List.mem_cons_self) hminus
    · rw [hread, Option.map_some, Int.toNat_of_nonneg hn]
  · rw [String.toList_append, show "-".toList = ['-'] from rfl, List.singleton_append, intText,
      digitText_repr, Option.map_some, Int.toNat_of_nonneg (by omega), Int.neg_neg]

theorem readLag_same : readLag "same" = some 0 := rfl

theorem toString_ne_of_intText {n : ℤ} {word : String} (hword : intText word.toList = none) :
    toString n ≠ word := by
  rintro rfl
  rw [intText_toString] at hword
  cases hword

theorem readLag_toString (n : ℤ) : readLag (toString n) = some n := by
  rw [readLag, if_neg (toString_ne_of_intText (by decide)), intText_toString]

end LagTexts

section Law

variable (text : GraphText)

def keyed : GraphText := { text with periodPosition := periodPosition text.toCharTable }

def lag (source target : String) : String := calendarLag (keyed text) source target

/-- An id of a period, with or without a marker. -/
structure PeriodId (id : String) (period : Period) : Prop where
  key : IsKey text.toCharTable (calendarKey id) period
  plain : PlainNumber text.toCharTable (calendarKey id).toList

/-- What the lags of three period ids are to each other. -/
structure LagLaw (a b c : String) : Prop where
  antisymmetric : ∀ p q : Period, PeriodId text a p → PeriodId text b q → p.1.grain = q.1.grain →
    ∃ n, readLag (lag text a b) = some n ∧ readLag (lag text b a) = some (-n)
  additive : ∀ p q r : Period, PeriodId text a p → PeriodId text b q → PeriodId text c r →
    p.1.grain = q.1.grain → q.1.grain = r.1.grain →
    ∃ n m, readLag (lag text a b) = some n ∧ readLag (lag text b c) = some m ∧
      readLag (lag text a c) = some (n + m)
  zero : ∀ p q : Period, PeriodId text a p → PeriodId text b q → p.1.grain = q.1.grain →
    (readLag (lag text a b) = some 0 ↔ calendarKey a = calendarKey b) ∧
      (readLag (lag text a b) = some 0 → lag text a b = "same")
  next : ∀ p : Period, PeriodId text a p → PeriodId text b p.next →
    readLag (lag text a b) = some 1
  unaligned : (¬∃ p q : Period, IsKey text.toCharTable (calendarKey a) p ∧
      IsKey text.toCharTable (calendarKey b) q ∧ p.1.grain = q.1.grain) →
    lag text a b = "unaligned"

/-- Two ids of one period whose keys are written with different characters. -/
def Respelled (a b : String) : Prop :=
  calendarKey a ≠ calendarKey b ∧ ∃ p : Period, PeriodId text a p ∧ PeriodId text b p

/-- Two month keys, one of them with a month that is not in the calendar. -/
def OutsideMonth (a b : String) : Prop :=
  ∃ y m y' m', shapeOf text.toCharTable (calendarKey a).toList = some (.month y m) ∧
    shapeOf text.toCharTable (calendarKey b).toList = some (.month y' m') ∧
    ¬((Shape.month y m).Valid ∧ (Shape.month y' m').Valid)

variable {text} {a b c : String} {s t : Shape} {p q r : Period}

theorem position_of_valid {shape : Shape} (h : shape.Valid) :
    shape.position = some (shape.grain, shape.index) := by
  cases shape with
  | day d => exact if_pos h
  | _ => rfl

theorem position_of_isSome {shape : Shape} (h : shape.position.isSome) :
    shape.position = some (shape.grain, shape.index) := by
  cases shape with
  | day d =>
    by_cases hvalid : d.Valid
    · exact if_pos hvalid
    · simp [Shape.position, hvalid] at h
  | _ => rfl

theorem month_of_grain {shape : Shape} (h : shape.grain = "month") :
    ∃ y m, shape = .month y m := by
  cases shape with
  | month y m => exact ⟨y, m, rfl⟩
  | ordinal letter step => simp [Shape.grain, ← String.toList_inj] at h
  | _ => simp [Shape.grain] at h

theorem valid_or_month {shape : Shape} (hlettered : shape.Lettered)
    (h : shape.position.isSome) : shape.Valid ∨ ∃ y m, shape = .month y m := by
  cases shape with
  | day d =>
    by_cases hvalid : d.Valid
    · exact .inl hvalid
    · simp [Shape.position, hvalid] at h
  | month y m => exact .inr ⟨y, m, rfl⟩
  | ordinal letter step => exact .inl hlettered
  | _ => exact .inl trivial

theorem lag_of_positions (ha : shapeOf text.toCharTable (calendarKey a).toList = some s)
    (hb : shapeOf text.toCharTable (calendarKey b).toList = some t)
    (hs : s.position = some (s.grain, s.index)) (ht : t.position = some (t.grain, t.index)) :
    lag text a b = if s.grain ≠ t.grain then "unaligned"
      else if calendarKey a = calendarKey b then "same" else toString (t.index - s.index) := by
  unfold lag calendarLag keyed
  simp only [periodPosition_eq, ha, hb, Option.bind_some, hs, ht]

theorem lag_of_none (h : periodPosition text.toCharTable (calendarKey a) = none ∨
    periodPosition text.toCharTable (calendarKey b) = none) : lag text a b = "unaligned" := by
  unfold lag calendarLag keyed
  rcases h with h | h
  · simp only [h]
  · rcases hsource : periodPosition text.toCharTable (calendarKey a) with - | source <;>
      simp only [h, hsource]

theorem lag_of_ids (ha : PeriodId text a p) (hb : PeriodId text b q)
    (hgrain : p.1.grain = q.1.grain) :
    lag text a b = if calendarKey a = calendarKey b then "same"
      else toString (q.1.index - p.1.index) := by
  rw [lag_of_positions ha.key hb.key (position_of_valid p.2) (position_of_valid q.2),
    if_neg (not_not_intro hgrain)]

theorem readLag_lag (ha : PeriodId text a p) (hb : PeriodId text b q)
    (hgrain : p.1.grain = q.1.grain) :
    readLag (lag text a b) = some (q.1.index - p.1.index) := by
  rw [lag_of_ids ha hb hgrain]
  split_ifs with hkeys
  · have hshape : some p.1 = some q.1 := by
      rw [← ha.key, ← hb.key, hkeys]
    rw [Option.some.inj hshape, readLag_same, Int.sub_self]
  · exact readLag_toString _

theorem not_respelled (law : LagLaw text a b c) : ¬Respelled text a b := by
  rintro ⟨hkeys, p, ha, hb⟩
  have hlag := readLag_lag ha hb rfl
  rw [Int.sub_self] at hlag
  exact hkeys ((law.zero p p ha hb rfl).1.mp hlag)

theorem not_outsideMonth (law : LagLaw text a b c) : ¬OutsideMonth text a b := by
  rintro ⟨y, m, y', m', ha, hb, hvalid⟩
  have hlag := law.unaligned fun ⟨p, q, hp, hq, _⟩ => hvalid
    ⟨Option.some.inj (hp.symm.trans ha) ▸ p.2, Option.some.inj (hq.symm.trans hb) ▸ q.2⟩
  rw [lag_of_positions ha hb rfl rfl] at hlag
  split_ifs at hlag with hgrain hkeys
  · exact hgrain rfl
  · exact absurd hlag (by decide)
  · exact toString_ne_of_intText (by decide) hlag

theorem unaligned_of_not_outsideMonth (h : ¬OutsideMonth text a b)
    (hperiods : ¬∃ p q : Period, IsKey text.toCharTable (calendarKey a) p ∧
      IsKey text.toCharTable (calendarKey b) q ∧ p.1.grain = q.1.grain) :
    lag text a b = "unaligned" := by
  rcases hsource : periodPosition text.toCharTable (calendarKey a) with - | source
  · exact lag_of_none (.inl hsource)
  · rcases htarget : periodPosition text.toCharTable (calendarKey b) with - | target
    · exact lag_of_none (.inr htarget)
    · rw [periodPosition_eq] at hsource htarget
      obtain ⟨s, hs, hsource⟩ := Option.bind_eq_some_iff.mp hsource
      obtain ⟨t, ht, htarget⟩ := Option.bind_eq_some_iff.mp htarget
      have hsome : s.position.isSome := by rw [hsource]; rfl
      have hsome' : t.position.isSome := by rw [htarget]; rfl
      rw [lag_of_positions hs ht (position_of_isSome hsome) (position_of_isSome hsome')]
      apply if_pos
      intro hgrain
      have hvalid : s.Valid ∧ t.Valid := by
        rcases valid_or_month (lettered_of_shapeOf _ hs) hsome with hvalid | ⟨y, m, rfl⟩
        · rcases valid_or_month (lettered_of_shapeOf _ ht) hsome' with hvalid' | ⟨y', m', rfl⟩
          · exact ⟨hvalid, hvalid'⟩
          · obtain ⟨y, m, rfl⟩ := month_of_grain hgrain
            by_contra hnot
            exact h ⟨y, m, y', m', hs, ht, hnot⟩
        · obtain ⟨y', m', rfl⟩ := month_of_grain hgrain.symm
          by_contra hnot
          exact h ⟨y, m, y', m', hs, ht, hnot⟩
      exact hperiods ⟨⟨s, hvalid.1⟩, ⟨t, hvalid.2⟩, hs, ht, hgrain⟩

/-- The lag law holds of three ids unless two of them are respelled or name no month. -/
theorem lag_law_iff (text : GraphText) (a b c : String) :
    LagLaw text a b c ↔ ¬Respelled text a b ∧ ¬OutsideMonth text a b := by
  constructor
  · intro law
    exact ⟨not_respelled law, not_outsideMonth law⟩
  · rintro ⟨hspelled, hmonths⟩
    refine ⟨?_, ?_, ?_, ?_, unaligned_of_not_outsideMonth hmonths⟩
    · intro p q ha hb hgrain
      refine ⟨_, readLag_lag ha hb hgrain, ?_⟩
      rw [readLag_lag hb ha hgrain.symm, Int.neg_sub]
    · intro p q r ha hb hc hab hbc
      refine ⟨_, _, readLag_lag ha hb hab, readLag_lag hb hc hbc, ?_⟩
      rw [readLag_lag ha hc (hab.trans hbc)]
      congr 1
      omega
    · intro p q ha hb hgrain
      have hkeys : readLag (lag text a b) = some 0 ↔ calendarKey a = calendarKey b := by
        constructor
        · intro hzero
          rw [readLag_lag ha hb hgrain] at hzero
          have hindex := Option.some.inj hzero
          have hsame : p = q := Subtype.ext (Shape.eq_of_index p.2 q.2 hgrain (by omega))
          subst hsame
          by_contra hne
          exact hspelled ⟨hne, p, ha, hb⟩
        · intro hkey
          rw [lag_of_ids ha hb hgrain, if_pos hkey, readLag_same]
      refine ⟨hkeys, fun hzero => ?_⟩
      rw [lag_of_ids ha hb hgrain, if_pos (hkeys.mp hzero)]
    · intro p ha hb
      have hgrain : p.1.grain = p.next.1.grain := (Shape.grain_next p.1).symm
      have hindex : p.next.1.index = p.1.index + 1 := p.2.index_next
      rw [readLag_lag ha hb hgrain, hindex]
      congr 1
      omega

theorem not_respelled_of_ascii (ha : Ascii (calendarKey a).toList)
    (hb : Ascii (calendarKey b).toList) : ¬Respelled text a b := by
  rintro ⟨hne, p, hap, hbp⟩
  apply hne
  rw [← String.toList_inj, keyText_of_shapeOf ha hap.plain hap.key,
    keyText_of_shapeOf hb hbp.plain hbp.key]

end Law

section Sample

/-- `yearText` whose decimal digits are those of ASCII and the Arabic ones. -/
def arabicText : GraphText where
  toCharTable := {
    decimal := fun ch => if ch.isDigit then some (ch.toNat - 48)
      else if 1632 ≤ ch.toNat ∧ ch.toNat ≤ 1641 then some (ch.toNat - 1632) else none
    space := fun ch => ch = ' '
    decimal_ascii := fun ch hch => by
      split_ifs with hdigit harabic
      · rfl
      · omega
      · rfl }
  int := FinanceContext.yearText.int
  casefold := FinanceContext.yearText.casefold
  periodPosition := FinanceContext.yearText.periodPosition
  strip := FinanceContext.yearText.strip
  conditional := FinanceContext.yearText.conditional
  aggregation := FinanceContext.yearText.aggregation
  hasReference := FinanceContext.yearText.hasReference

/-- The thirteenth month of 2024 lags nothing behind January 2025, and 2024 written with two
Arabic digits is not `same` as `2024`. -/
theorem thirteenth_month_and_arabic_year :
    lag arabicText "2024-13" "2025-01" = "0" ∧
      ¬LagLaw arabicText "2024-13" "2025-01" "2025-01" ∧
      lag arabicText "20\u0662\u0664" "2024" = "0" ∧
      ¬LagLaw arabicText "20\u0662\u0664" "2024" "2024" := by
  have hplain : ∀ key, ordinalKey arabicText.toCharTable key = none →
      PlainNumber arabicText.toCharTable key := fun key hnone letter digits _ hsome => by
    rw [hnone] at hsome
    cases hsome
  refine ⟨by decide, fun law => ?_, by decide, fun law => ?_⟩
  · apply not_outsideMonth law
    exact ⟨2024, 13, 2025, 1, by decide, by decide, by decide⟩
  · apply not_respelled law
    refine ⟨by decide, ⟨.year 2024, trivial⟩, ⟨?_, ?_⟩, ⟨?_, ?_⟩⟩
    · show shapeOf _ _ = some _
      decide
    · exact hplain _ (by decide)
    · show shapeOf _ _ = some _
      decide
    · exact hplain _ (by decide)

end Sample

end FinanceContext.Periods
