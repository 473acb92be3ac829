import FinanceContext.FormulaRoundTrip

namespace FinanceContext

open Csr

section Columns

variable (T : Formula.TextTable)

def columnIndex (col : List Char) : ℤ :=
  (col.flatMap T.upper).foldl (fun n ch => n * 26 + ((ch.toNat : ℤ) - 64)) 0

/-- `index_to_col`, with the letters found and `_COL_LETTERS` after the call. -/
def columnLetters (letters : List (ℕ × List Char)) (n : ℤ) : List Char × List (ℕ × List Char) :=
  let value := (max n 1).toNat
  match letters.lookup value with
  | some found => (found, letters)
  | none =>
    let found := colDigits value value
    (found, (value, found) :: letters)

/-- `_COL_LETTERS` after any calls of `index_to_col`. -/
def lettersAfter (calls : List ℤ) : List (ℕ × List Char) :=
  calls.foldl (fun letters n => (columnLetters letters n).2) []

/-- `format_addr`. -/
def formatColumnRow (letters : List (ℕ × List Char)) (col row : ℤ) : List Char :=
  (columnLetters letters col).1 ++ (toString row).toList

/-- Every entry holds the letters of its number. -/
def Remembered (letters : List (ℕ × List Char)) : Prop :=
  ∀ value found, letters.lookup value = some found → found = colDigits value value

theorem Remembered.value {letters : List (ℕ × List Char)} (h : Remembered letters) (n : ℤ) :
    (columnLetters letters n).1 = colDigits (max n 1).toNat (max n 1).toNat := by
  unfold columnLetters
  dsimp only
  split
  · rename_i found hfound
    exact h _ _ hfound
  · rfl

theorem Remembered.step {letters : List (ℕ × List Char)} (h : Remembered letters) (n : ℤ) :
    Remembered (columnLetters letters n).2 := by
  unfold columnLetters
  dsimp only
  split
  · exact h
  · intro value found hfound
    rw [List.lookup_cons] at hfound
    split at hfound
    · rename_i heq
      rw [eq_of_beq heq]
      exact (Option.some.inj hfound).symm
    · exact h _ _ hfound

theorem remembered_after (calls : List ℤ) : Remembered (lettersAfter calls) := by
  have hfold : ∀ letters, Remembered letters →
      Remembered (calls.foldl (fun letters n => (columnLetters letters n).2) letters) := by
    induction calls with
    | nil => exact fun _ h => h
    | cons n calls ih => exact fun letters h => ih _ (h.step n)
  apply hfold
  intro value found h
  cases h

theorem columnLetters_after (calls : List ℤ) (n : ℕ) (hn : 1 ≤ n) :
    (columnLetters (lettersAfter calls) n).1 = indexToCol n := by
  have hmax : (max (n : ℤ) 1).toNat = n := by omega
  have hself : max n 1 = n := by omega
  rw [(remembered_after calls).value, hmax, indexToCol, hself]

theorem foldl_column (letters : List Char) (h : ∀ ch ∈ letters, 65 ≤ ch.toNat) (start : ℕ) :
    letters.foldl (fun n ch => n * 26 + ((ch.toNat : ℤ) - 64)) (start : ℤ) =
      (letters.foldl (fun n ch => n * 26 + (ch.toNat - 64)) start : ℕ) := by
  induction letters generalizing start with
  | nil => rfl
  | cons ch letters ih =>
    have hch := h ch List.mem_cons_self
    have hstep : (start : ℤ) * 26 + ((ch.toNat : ℤ) - 64) =
        ((start * 26 + (ch.toNat - 64) : ℕ) : ℤ) := by omega
    rw [List.foldl_cons, List.foldl_cons, hstep]
    exact ih (fun other hother => h other (List.mem_cons_of_mem _ hother)) _

/-- The capital letters, the values 65 to 90. -/
def Capital (ch : Char) : Prop := 65 ≤ ch.toNat ∧ ch.toNat ≤ 90

theorem capital_toUpper {ch : Char} (h : ch.isAlpha = true) : Capital ch.toUpper := by
  delta Char.isAlpha Char.isUpper Char.isLower at h
  simp only [Bool.or_eq_true, Bool.and_eq_true, decide_eq_true_eq] at h
  delta Capital Char.toUpper
  split
  · rename_i hlow
    have hlo : 97 ≤ ch.val.toNat := hlow.1
    have hhi : ch.val.toNat ≤ 122 := hlow.2
    have hdiff : ('A'.val - 'a'.val).toNat = 4294967264 := by decide
    change 65 ≤ (ch.val + ('A'.val - 'a'.val)).toNat ∧ (ch.val + ('A'.val - 'a'.val)).toNat ≤ 90
    rw [UInt32.toNat_add, hdiff]
    omega
  · rename_i hlow
    rcases h with ⟨hlo, hhi⟩ | hsmall
    · exact ⟨hlo, hhi⟩
    · exact absurd hsmall hlow

theorem upper_letters {s : List Char} (h : ∀ ch ∈ s, ch.isAlpha = true) :
    s.flatMap T.upper = s.map Char.toUpper := by
  induction s with
  | nil => rfl
  | cons ch s ih =>
    have hrange := alpha_range (h ch List.mem_cons_self)
    rw [List.flatMap_cons, T.upper_ascii ch (by omega), List.map_cons,
      ih fun other hother => h other (List.mem_cons_of_mem _ hother)]
    rfl

theorem columnIndex_letters {s : List Char} (h : ∀ ch ∈ s, ch.isAlpha = true) :
    columnIndex T s = colToIndex (s.map Char.toUpper) := by
  unfold columnIndex
  rw [upper_letters T h]
  apply foldl_column
  intro ch hch
  obtain ⟨letter, hletter, rfl⟩ := List.mem_map.mp hch
  exact (capital_toUpper (h letter hletter)).1

theorem columnIndex_indexToCol {n : ℕ} (hn : 1 ≤ n) : columnIndex T (indexToCol n) = n := by
  have halpha : ∀ ch ∈ indexToCol n, ch.isAlpha = true := fun _ h => isAlpha_of_mem_indexToCol h
  have hupper : (indexToCol n).map Char.toUpper = indexToCol n :=
    (List.map_congr_left fun _ hch => upper_colDigit hch).trans (List.map_id _)
  rw [columnIndex_letters T halpha, hupper, colToIndex_indexToCol hn]

theorem colDigits_colToIndex (letters : List Char) (h : ∀ ch ∈ letters, Capital ch) (fuel : ℕ)
    (hfuel : colToIndex letters ≤ fuel) : colDigits fuel (colToIndex letters) = letters := by
  induction letters using List.reverseRecOn generalizing fuel with
  | nil =>
    cases fuel with
    | zero => rfl
    | succ fuel => rfl
  | append_singleton letters ch ih =>
    obtain ⟨hlow, hhigh⟩ := h ch (by simp)
    have hvalue : colToIndex (letters ++ [ch]) = colToIndex letters * 26 + (ch.toNat - 64) := by
      rw [colToIndex, List.foldl_append]
      rfl
    rw [hvalue] at hfuel ⊢
    cases fuel with
    | zero => omega
    | succ fuel =>
      have hquotient : (colToIndex letters * 26 + (ch.toNat - 64) - 1) / 26 = colToIndex letters := by
        omega
      have hremainder : 65 + (colToIndex letters * 26 + (ch.toNat - 64) - 1) % 26 = ch.toNat := by
        omega
      rw [colDigits, if_neg (by omega), hquotient, hremainder, Char.ofNat_toNat,
        ih (fun other hother => h other (by simp [hother])) fuel (by omega)]

/-- The codec of columns, and of the addresses over it, after any calls that filled the
remembered letters. -/
theorem column_codec (calls : List ℤ) :
    (∀ n : ℕ, 1 ≤ n → columnIndex T (columnLetters (lettersAfter calls) n).1 = n) ∧
      (∀ s : List Char, s ≠ [] → (∀ ch ∈ s, ch.isAlpha = true) →
        (columnLetters (lettersAfter calls) (columnIndex T s)).1 = s.map Char.toUpper) ∧
      ∀ col row : ℕ, 1 ≤ col → 1 ≤ row →
        parseAddr T.decimal (formatColumnRow (lettersAfter calls) col row) = some (col, row) := by
  refine ⟨?_, ?_, ?_⟩
  · intro n hn
    rw [columnLetters_after calls n hn, columnIndex_indexToCol T hn]
  · intro s hne hletters
    have hcapital : ∀ ch ∈ s.map Char.toUpper, Capital ch := by
      intro ch hch
      obtain ⟨letter, hletter, rfl⟩ := List.mem_map.mp hch
      exact capital_toUpper (hletters letter hletter)
    have hone : 1 ≤ colToIndex (s.map Char.toUpper) :=
      one_le_colToIndex_of_forall (by simpa using hne) fun ch hch => (hcapital ch hch).1
    have hself : max (colToIndex (s.map Char.toUpper)) 1 = colToIndex (s.map Char.toUpper) := by
      omega
    rw [columnIndex_letters T hletters, columnLetters_after calls _ hone, indexToCol, hself]
    exact colDigits_colToIndex _ hcapital _ (le_refl _)
  · intro col row hcol _
    have haddr : formatColumnRow (lettersAfter calls) col row = (formatAddr col row).toList := by
      unfold formatColumnRow formatAddr
      rw [columnLetters_after calls col hcol, String.toList_append, String.toList_ofList]
      rfl
    rw [haddr, parseAddr_formatAddr T.toCharTable row hcol]

end Columns

/-- `AZ` and `BA` stand on both sides of a carry. -/
theorem column_codec_carry :
    columnIndex Formula.asciiText (columnLetters (lettersAfter [53, 0, 52]) (52 : ℕ)).1 = (52 : ℕ) ∧
      (columnLetters (lettersAfter [53, 0, 52])
        (columnIndex Formula.asciiText ['b', 'A'])).1 = ['B', 'A'] ∧
      parseAddr Formula.asciiText.decimal (formatColumnRow (lettersAfter [53, 0, 52]) (53 : ℕ)
        (7 : ℕ)) = some (53, 7) := by
  obtain ⟨hnumber, hletters, haddr⟩ := column_codec Formula.asciiText [53, 0, 52]
  have halpha : ['b', 'A'].all Char.isAlpha = true := by decide
  exact ⟨hnumber 52 (by decide), hletters ['b', 'A'] (by decide) (List.all_eq_true.mp halpha),
    haddr 53 7 (by decide) (by decide)⟩

end FinanceContext
