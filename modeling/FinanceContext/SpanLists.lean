import FinanceContext.ColumnLetters
import FinanceContext.ContextBuild

namespace FinanceContext

open Csr

def readSpan (read : List Char → Option ℕ) (piece : List Char) : Option (ℕ × ℕ) :=
  match piece.splitOn ':' with
  | [one] => do
    let n ← read one
    some (n, n)
  | [first, last] => do some (← read first, ← read last)
  | _ => none

def readSpans (read : List Char → Option ℕ) (text : List Char) : Option (List (ℕ × ℕ)) :=
  if text = [] then some [] else (text.splitOn ',').mapM (readSpan read)

/-- The spans are those of a set: they cover it, and between two of them a number is missing. -/
structure SpansCover (values : List ℕ) (spans : List (ℕ × ℕ)) : Prop where
  cover : ∀ n, n ∈ values ↔ ∃ span ∈ spans, span.1 ≤ n ∧ n ≤ span.2
  ordered : ∀ span ∈ spans, span.1 ≤ span.2
  apart : spans.Pairwise fun a b => a.2 + 1 < b.1

section Loop

theorem le_of_mem_spansFrom {start prev : ℕ} {nums : List ℕ} (hle : start ≤ prev)
    (h : (prev :: nums).Pairwise (· < ·)) {span : ℕ × ℕ} (hspan : span ∈ spansFrom start prev nums) :
    start ≤ span.1 ∧ span.1 ≤ span.2 := by
  induction nums generalizing start prev with
  | nil =>
    rw [List.mem_singleton.mp hspan]
    exact ⟨le_refl _, hle⟩
  | cons num nums ih =>
    obtain ⟨hlt, hrest⟩ := List.pairwise_cons.mp h
    have hnum : prev < num := hlt num List.mem_cons_self
    unfold spansFrom at hspan
    split at hspan
    · exact ih (by omega) hrest hspan
    · rcases List.mem_cons.mp hspan with rfl | hspan
      · exact ⟨le_refl _, hle⟩
      · have htail := ih (le_refl num) hrest hspan
        omega

theorem apart_spansFrom {start prev : ℕ} {nums : List ℕ} (hle : start ≤ prev)
    (h : (prev :: nums).Pairwise (· < ·)) :
    (spansFrom start prev nums).Pairwise fun a b => a.2 + 1 < b.1 := by
  induction nums generalizing start prev with
  | nil => exact List.pairwise_singleton _ _
  | cons num nums ih =>
    obtain ⟨hlt, hrest⟩ := List.pairwise_cons.mp h
    have hnum : prev < num := hlt num List.mem_cons_self
    unfold spansFrom
    split
    · exact ih (by omega) hrest
    · rename_i hgap
      apply List.pairwise_cons.mpr
      refine ⟨?_, ih (le_refl num) hrest⟩
      intro span hspan
      have hstart := (le_of_mem_spansFrom (le_refl num) hrest hspan).1
      dsimp only
      omega

theorem flatten_spansFrom {start prev : ℕ} {nums : List ℕ} (hle : start ≤ prev)
    (h : (prev :: nums).Pairwise (· < ·)) :
    ((spansFrom start prev nums).map fun span => List.range' span.1 (span.2 + 1 - span.1)).flatten =
      List.range' start (prev + 1 - start) ++ nums := by
  induction nums generalizing start prev with
  | nil => simp [spansFrom]
  | cons num nums ih =>
    obtain ⟨hlt, hrest⟩ := List.pairwise_cons.mp h
    have hnum : prev < num := hlt num List.mem_cons_self
    unfold spansFrom
    split
    · rename_i hnext
      have hlength : num + 1 - start = prev + 1 - start + 1 := by omega
      have hlast : start + (prev + 1 - start) = num := by omega
      rw [ih (by omega) hrest, hlength, List.range'_concat, Nat.one_mul, hlast, List.append_assoc]
      rfl
    · have hone : num + 1 - num = 1 := by omega
      rw [List.map_cons, List.flatten_cons, ih (le_refl num) hrest, hone]
      rfl

end Loop

theorem sorted_values (values : List ℕ) :
    (values.dedup.insertionSort (· ≤ ·)).Pairwise (· < ·) := by
  have hsorted := List.pairwise_insertionSort (· ≤ ·) values.dedup
  have hnodup : (values.dedup.insertionSort (· ≤ ·)).Nodup :=
    (List.perm_insertionSort (· ≤ ·) _).nodup_iff.mpr values.nodup_dedup
  exact hsorted.imp₂ (fun _ _ hle hne => lt_of_le_of_ne hle hne) hnodup

theorem mem_sorted_values {values : List ℕ} {n : ℕ} :
    n ∈ values.dedup.insertionSort (· ≤ ·) ↔ n ∈ values := by
  rw [(List.perm_insertionSort (· ≤ ·) _).mem_iff, List.mem_dedup]

theorem flatten_spansOf (values : List ℕ) :
    ((spansOf values).map fun span => List.range' span.1 (span.2 + 1 - span.1)).flatten =
      values.dedup.insertionSort (· ≤ ·) := by
  have hsorted := sorted_values values
  unfold spansOf
  cases hnums : values.dedup.insertionSort (· ≤ ·) with
  | nil => rfl
  | cons num nums =>
    rw [hnums] at hsorted
    have hone : num + 1 - num = 1 := by omega
    rw [flatten_spansFrom (le_refl num) hsorted, hone]
    rfl

theorem spansCover (values : List ℕ) : SpansCover values (spansOf values) := by
  have hsorted := sorted_values values
  have hordered : ∀ span ∈ spansOf values, span.1 ≤ span.2 := by
    intro span hspan
    unfold spansOf at hspan
    cases hnums : values.dedup.insertionSort (· ≤ ·) with
    | nil => simp [hnums] at hspan
    | cons num nums =>
      rw [hnums] at hspan hsorted
      exact (le_of_mem_spansFrom (le_refl num) hsorted hspan).2
  refine ⟨?_, hordered, ?_⟩
  · intro n
    rw [← mem_sorted_values, ← flatten_spansOf, List.mem_flatten]
    constructor
    · rintro ⟨_, hrun, hn⟩
      obtain ⟨span, hspan, rfl⟩ := List.mem_map.mp hrun
      have hrange := List.mem_range'_1.mp hn
      exact ⟨span, hspan, by omega⟩
    · rintro ⟨span, hspan, hlow, hhigh⟩
      refine ⟨_, List.mem_map_of_mem hspan, List.mem_range'_1.mpr ?_⟩
      omega
  · unfold spansOf
    cases hnums : values.dedup.insertionSort (· ≤ ·) with
    | nil => exact List.Pairwise.nil
    | cons num nums =>
      rw [hnums] at hsorted
      exact apart_spansFrom (le_refl num) hsorted

section Reading

variable {render : ℕ → List Char} {read : List Char → Option ℕ}

theorem readSpan_spanText {span : ℕ × ℕ} (hfirst : read (render span.1) = some span.1)
    (hlast : read (render span.2) = some span.2) (hcolon : ∀ n, ':' ∉ render n) :
    readSpan read (spanText render span) = some span := by
  have hone : (render span.1).splitOn ':' = [render span.1] := by
    have hsplit : ([':'].intercalate [render span.1]).splitOn ':' = [render span.1] :=
      List.splitOn_intercalate ':' (by simp [hcolon]) (by simp)
    simpa using hsplit
  have htwo : (render span.1 ++ ':' :: render span.2).splitOn ':' =
      [render span.1, render span.2] := by
    have hsplit : ([':'].intercalate [render span.1, render span.2]).splitOn ':' =
        [render span.1, render span.2] :=
      List.splitOn_intercalate ':' (by simp [hcolon]) (by simp)
    simpa using hsplit
  unfold readSpan spanText
  by_cases hsame : span.1 = span.2
  · rw [if_pos hsame, hone]
    rw [hsame] at hfirst
    have hspan : (span.2, span.2) = span := Prod.ext hsame.symm rfl
    simpa [hsame, hfirst] using hspan
  · rw [if_neg hsame, htwo]
    simp [hfirst, hlast]

theorem comma_notMem_spanText (span : ℕ × ℕ) (hcomma : ∀ n, ',' ∉ render n) :
    ',' ∉ spanText render span := by
  unfold spanText
  split
  · exact hcomma _
  · simp [hcomma]

theorem spanText_ne_nil (span : ℕ × ℕ) (hne : ∀ n, render n ≠ []) :
    spanText render span ≠ [] := by
  unfold spanText
  split
  · exact hne _
  · simp

theorem mapM_readSpan {spans : List (ℕ × ℕ)}
    (h : ∀ span ∈ spans, readSpan read (spanText render span) = some span) :
    (spans.map (spanText render)).mapM (readSpan read) = some spans := by
  induction spans with
  | nil => rfl
  | cons span spans ih =>
    rw [List.map_cons, List.mapM_cons, h span List.mem_cons_self,
      ih fun other hother => h other (List.mem_cons_of_mem _ hother)]
    rfl

theorem readSpans_spanListText {values : List ℕ} (hread : ∀ n ∈ values, read (render n) = some n)
    (hne : ∀ n, render n ≠ []) (hcomma : ∀ n, ',' ∉ render n) (hcolon : ∀ n, ':' ∉ render n) :
    readSpans read (spanListText values render) = some (spansOf values) := by
  have hcover := spansCover values
  have hspan : ∀ span ∈ spansOf values, readSpan read (spanText render span) = some span := by
    intro span hspan
    have hle := hcover.ordered span hspan
    have hfirst : span.1 ∈ values := (hcover.cover _).mpr ⟨span, hspan, le_refl _, hle⟩
    have hlast : span.2 ∈ values := (hcover.cover _).mpr ⟨span, hspan, hle, le_refl _⟩
    exact readSpan_spanText (hread _ hfirst) (hread _ hlast) hcolon
  unfold readSpans spanListText
  cases hspans : spansOf values with
  | nil => rfl
  | cons first others =>
    have hpieces : ([','].intercalate ((first :: others).map (spanText render))).splitOn ',' =
        (first :: others).map (spanText render) := by
      apply List.splitOn_intercalate
      · intro piece hpiece
        obtain ⟨span, -, rfl⟩ := List.mem_map.mp hpiece
        exact comma_notMem_spanText span hcomma
      · simp
    have hfull : [','].intercalate ((first :: others).map (spanText render)) ≠ [] := by
      intro hempty
      rw [hempty, List.splitOn_nil, List.map_cons] at hpieces
      exact spanText_ne_nil first hne (List.cons.inj hpieces).1.symm
    rw [if_neg hfull, hpieces]
    apply mapM_readSpan
    rw [← hspans]
    exact hspan

end Reading

section Axes

variable (T : Formula.TextTable)

def readRow (text : List Char) : Option ℕ :=
  match takeRow T.decimal text with
  | some (row, []) => some row
  | _ => none

def readColumn (text : List Char) : Option ℕ := some (columnIndex T text).toNat

/-- Both renderings of `_span_list`, `str` for rows and `index_to_col` for columns. -/
theorem span_list_decode :
    (∀ rows : List ℕ, ∃ spans,
      readSpans (readRow T) (spanListText rows fun row => (toString row).toList) = some spans ∧
        SpansCover rows spans) ∧
      ∀ cols : List ℕ, (∀ col ∈ cols, 1 ≤ col) → ∃ spans,
        readSpans (readColumn T) (spanListText cols indexToCol) = some spans ∧
          SpansCover cols spans := by
  constructor
  · intro rows
    refine ⟨spansOf rows, ?_, spansCover rows⟩
    have hdigit : ∀ row : ℕ, ∀ ch ∈ (toString row).toList, 48 ≤ ch.toNat ∧ ch.toNat ≤ 57 :=
      fun row ch hch => isDigit_toString hch
    apply readSpans_spanListText
    · intro row _
      unfold readRow
      rw [takeRow_toString]
    · exact toString_ne_nil
    · intro row hcomma
      exact absurd (hdigit row _ hcomma).1 (by decide)
    · intro row hcolon
      exact absurd (hdigit row _ hcolon).2 (by decide)
  · intro cols hcols
    refine ⟨spansOf cols, ?_, spansCover cols⟩
    have hletter : ∀ col : ℕ, ∀ ch ∈ indexToCol col, 65 ≤ ch.toNat :=
      fun col ch hch => (isUpper_colDigits hch).1
    apply readSpans_spanListText
    · intro col hcol
      have hnumber := (columnIndex_indexToCol T (hcols col hcol))
      unfold readColumn
      rw [hnumber]
      rfl
    · exact indexToCol_ne_nil
    · intro col hcomma
      exact absurd (hletter col _ hcomma) (by decide)
    · intro col hcolon
      exact absurd (hletter col _ hcolon) (by decide)

end Axes

theorem span_list_decode_gaps :
    ∃ spans, readSpans (readColumn Formula.asciiText) (spanListText [28, 3, 27, 3, 1, 2] indexToCol) =
      some spans ∧ SpansCover [28, 3, 27, 3, 1, 2] spans :=
  (span_list_decode Formula.asciiText).2 [28, 3, 27, 3, 1, 2] (by decide)

end FinanceContext
