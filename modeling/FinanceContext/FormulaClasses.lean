import FinanceContext.GraphLinks
import FinanceContext.LiteralSpans
import FinanceContext.StrippedTexts

namespace FinanceContext.Formula

open Patterns Csr

/-- With the characters that `re.IGNORECASE` takes for the same. -/
structure CaseTable extends TextTable where
  variants : Char → List Char
  alnum_of_variant : ∀ ch, ∀ letter ∈ variants ch, letter.isAlpha = true → alnum ch = true

/-- What Python's `int` reads in a text. -/
def naturalOf (table : CharTable) (digits : List Char) : Option ℕ :=
  if (digits.splitOn '_').all fun run => !run.isEmpty && run.all fun ch => (table.decimal ch).isSome
  then some (readInt table.decimal (digits.filter (· ≠ '_')))
  else none

def integerOf (table : CharTable) (text : List Char) : Option ℤ :=
  match stripChars table.space text with
  | '-' :: digits => (naturalOf table digits).map fun n => -(n : ℤ)
  | '+' :: digits => (naturalOf table digits).map fun n => (n : ℤ)
  | digits => (naturalOf table digits).map fun n => (n : ℤ)

section Searches

variable (table : CaseTable)

def ignoreCase (p : Char → Bool) (ch : Char) : Bool := (table.variants ch).any p

abbrev TextPattern := Pattern Char Unit

def wordOf (name : List Char) : TextPattern :=
  .sequence (name.map fun letter => .one (ignoreCase table (· == letter)))

/-- `\b(?:A|B)\(`; in front of a letter, `\b` asks for no word character before it. -/
def callOf (names : List (List Char)) : TextPattern :=
  .sequence [.notAfter (isWord table.toTextTable), .choice (names.map (wordOf table)),
    .one (· == '(')]

def conditionalNames : List (List Char) := ["IF".toList, "IFS".toList, "SWITCH".toList]

def aggregationNames : List (List Char) :=
  ["SUM".toList, "SUMPRODUCT".toList, "AVERAGE".toList, "MIN".toList, "MAX".toList,
    "COUNT".toList, "COUNTA".toList, "COUNTIF".toList, "COUNTIFS".toList, "SUBTOTAL".toList,
    "AGGREGATE".toList]

def conditional : TextPattern := callOf table conditionalNames

def aggregation : TextPattern := callOf table aggregationNames

def columnLetter : TextPattern := .one (ignoreCase table Char.isUpper)

def dollarMark : TextPattern := .opt (.one (· == '$'))

/-- `\$?[A-Z]{1,3}\$?\d+` -/
def cellRef : TextPattern :=
  .sequence [dollarMark, columnLetter table,
    .opt (.sequence [columnLetter table, .opt (columnLetter table)]), dollarMark,
    .one (isDecimal table.toTextTable), .many (isDecimal table.toTextTable)]

/-- `(?:[^']|'')+'`: the places behind the closing quote; `started` when something is read. -/
def quotedEnds (started : Bool) : List Char → List Char → List (Patterns.Place Char Unit)
  | _, [] => []
  | before, '\'' :: '\'' :: after =>
    quotedEnds true ('\'' :: '\'' :: before) after ++
      if started then [⟨'\'' :: before, '\'' :: after, []⟩] else []
  | before, '\'' :: after => if started then [⟨'\'' :: before, after, []⟩] else []
  | before, ch :: after => quotedEnds true (ch :: before) after

/-- `[A-Za-z_][\w.]*` -/
def sheetWord : TextPattern :=
  .sequence [.one (ignoreCase table fun letter => letter.isAlpha || letter == '_'),
    .many (isNameChar table.toTextTable)]

/-- `(?:'(?:[^']|'')+'|[A-Za-z_][\w.]*)!` -/
def sheetEnds (place : Patterns.Place Char Unit) : List (Patterns.Place Char Unit) :=
  let quoted :=
    match place.after with
    | '\'' :: after => quotedEnds false ('\'' :: place.before) after
    | _ => []
  (quoted ++ run (sheetWord table) place).flatMap (run (.one (· == '!')))

/-- A match of `_A1_REF` at a place. -/
def a1Here (before after : List Char) : Bool :=
  ((sheetEnds table ⟨before, after, []⟩).any fun next =>
    !(run (cellRef table) ⟨next.before, next.after, []⟩).isEmpty) ||
    !(run (cellRef table) ⟨before, after, []⟩).isEmpty

def foundA1From : List Char → List Char → Bool
  | before, [] => a1Here table before []
  | before, ch :: after => a1Here table before (ch :: after) || foundA1From (ch :: before) after

/-- `_A1_REF.search` -/
def foundA1 (text : List Char) : Bool := foundA1From table [] text

def lagNumbers (lags : List String) : List ℤ :=
  lags.filterMap fun lag =>
    if lag ∈ ["", "same", "unaligned"] then none else integerOf table.toCharTable lag.toList

def hasArithmetic (text : List Char) : Bool := text.contains '*' || text.contains '/'

def classifyFormula (formula : Option (List Char)) (refs lags : Option (List String)) :
    Option FormulaClass :=
  match formula with
  | none => none
  | some formula =>
    let text := stripChars table.space formula
    if text.isEmpty then none
    else if found (conditional table) text then some .conditional
    else if found (aggregation table) text then some .aggregation
    else
      let offsets := lagNumbers table (lags.getD [])
      let prior := offsets.filter (· < 0)
      let forward := offsets.filter (0 < ·)
      if !prior.isEmpty || !forward.isEmpty then
        let simplePrior := !prior.isEmpty && forward.isEmpty && prior.all (· == -1)
        if simplePrior && !hasArithmetic text then some .rollforward else some .crossPeriod
      else if !(refs.getD []).isEmpty || foundA1 table text then some .samePeriod
      else some .hardcoded

end Searches

section Fences

variable (table : CaseTable)

/-- A character that none of the patterns reads or looks at. -/
structure Fence (ch : Char) : Prop where
  alnum : table.alnum ch = false
  other : ch ∉ ['_', '(', '$', '*', '/']

theorem fence_quote : Fence table '"' where
  alnum := table.alnum_ascii '"' (by decide)
  other := by decide

theorem fence_space {ch : Char} (h : table.space ch = true) : Fence table ch where
  alnum := by
    cases halnum : table.alnum ch with
    | false => rfl
    | true =>
      rw [table.not_space_of_alnum ch halnum] at h
      cases h
  other := by
    intro hmem
    have hrange : 32 < ch.toNat ∧ ch.toNat < 127 := by
      simp only [List.mem_cons, List.not_mem_nil, or_false] at hmem
      rcases hmem with rfl | rfl | rfl | rfl | rfl <;> decide
    rw [table.space_ascii ch hrange.1 hrange.2] at h
    cases h

variable {table} {ch : Char} (h : Fence table ch)
include h

theorem Fence.ignoreCase {p : Char → Bool}
    (hp : ∀ letter, p letter = true → letter.isAlpha = true) : ignoreCase table p ch = false := by
  apply Bool.eq_false_iff.mpr
  intro hany
  obtain ⟨letter, hmem, hletter⟩ := List.any_eq_true.mp hany
  have halnum := table.alnum_of_variant ch letter hmem (hp letter hletter)
  rw [h.alnum] at halnum
  cases halnum

theorem Fence.isWord : isWord table.toTextTable ch = false := by
  have hne : ch ≠ '_' := fun he => h.other (by rw [he]; decide)
  simp [Formula.isWord, h.alnum, hne]

theorem Fence.isDecimal : isDecimal table.toTextTable ch = false := by
  cases hdecimal : (table.decimal ch).isSome with
  | false => exact hdecimal
  | true =>
    have halnum := table.alnum_of_digit ch (table.digit_of_decimal ch hdecimal)
    rw [h.alnum] at halnum
    cases halnum

theorem Fence.avoids_wordOf {name : List Char} (hname : name.all Char.isAlpha = true) :
    Avoids ch (wordOf table name) := by
  apply avoidsAll_iff.mpr
  intro r hr
  obtain ⟨letter, hletter, rfl⟩ := List.mem_map.mp hr
  apply h.ignoreCase
  intro other hother
  rw [beq_iff_eq] at hother
  rw [hother]
  exact List.all_eq_true.mp hname letter hletter

theorem Fence.avoids_callOf {names : List (List Char)}
    (hnames : (names.all fun name => name.all Char.isAlpha) = true) :
    Avoids ch (callOf table names) := by
  have hne : ch ≠ '(' := fun he => h.other (by rw [he]; decide)
  have hchoice : AvoidsAll ch (names.map (wordOf table)) := by
    apply avoidsAll_iff.mpr
    intro r hr
    obtain ⟨name, hname, rfl⟩ := List.mem_map.mp hr
    exact h.avoids_wordOf (List.all_eq_true.mp hnames name hname)
  exact ⟨h.isWord, hchoice, by simpa [Avoids] using hne, trivial⟩

theorem Fence.avoids_cellRef : Avoids ch (cellRef table) := by
  have hdollar : Avoids ch dollarMark := by
    have hne : ch ≠ '$' := fun he => h.other (by rw [he]; decide)
    simpa [dollarMark, Avoids] using hne
  have hletter : Avoids ch (columnLetter table) := by
    apply h.ignoreCase
    intro letter hupper
    exact Bool.or_eq_true_iff.mpr (.inl hupper)
  exact ⟨hdollar, hletter, ⟨hletter, hletter, trivial⟩, hdollar, h.isDecimal, h.isDecimal, trivial⟩

theorem Fence.found_callOf {names : List (List Char)}
    (hnames : (names.all fun name => name.all Char.isAlpha) = true) :
    FencedBy ch (found (callOf table names)) :=
  fencedBy_found (h.avoids_callOf hnames)
    (.inr (.inr (.inl fun _ _ => trivial)))

theorem Fence.found_conditional : FencedBy ch (found (conditional table)) :=
  h.found_callOf (by decide)

theorem Fence.found_aggregation : FencedBy ch (found (aggregation table)) :=
  h.found_callOf (by decide)

theorem Fence.hasArithmetic : FencedBy ch hasArithmetic := by
  have hstar : '*' ≠ ch := fun he => h.other (by rw [← he]; decide)
  have hslash : '/' ≠ ch := fun he => h.other (by rw [← he]; decide)
  exact (fencedBy_contains hstar).or (fencedBy_contains hslash)

end Fences

section References

variable (table : CaseTable)

theorem between_cons {before after : List Char} {next : Patterns.Place Char Unit} {ch : Char}
    {word : List Char} (h : Patterns.Place.Between ⟨ch :: before, after, []⟩ next word) :
    Patterns.Place.Between ⟨before, ch :: after, []⟩ next (ch :: word) := by
  obtain ⟨hbefore, hafter⟩ := h
  dsimp only at hbefore hafter
  constructor
  · rw [hbefore, List.reverse_cons, List.append_assoc]
    rfl
  · rw [List.cons_append, ← hafter]

theorem quotedEnds_between {started : Bool} {before after : List Char}
    {next : Patterns.Place Char Unit} (h : next ∈ quotedEnds started before after) :
    ∃ word, Patterns.Place.Between ⟨before, after, []⟩ next word := by
  have hclose : ∀ {started : Bool} {before after : List Char},
      (next ∈ if started then [(⟨'\'' :: before, after, []⟩ : Patterns.Place Char Unit)] else []) →
      ∃ word, Patterns.Place.Between ⟨before, '\'' :: after, []⟩ next word := by
    intro started before after hnext
    split at hnext
    · obtain rfl := List.mem_singleton.mp hnext
      exact ⟨['\''], rfl, rfl⟩
    · cases hnext
  induction started, before, after using quotedEnds.induct with
  | case1 => cases h
  | case2 started before after ih =>
    rw [quotedEnds] at h
    rcases List.mem_append.mp h with hmore | hend
    · obtain ⟨word, hword⟩ := ih hmore
      exact ⟨'\'' :: '\'' :: word, between_cons (between_cons hword)⟩
    · exact hclose hend
  | case3 before after hquote =>
    rw [quotedEnds] at h
    · exact hclose h
    · exact hquote
  | case4 started before after hquote hstarted =>
    rw [quotedEnds] at h
    · exact hclose h
    · exact hquote
  | case5 started before ch after hpair hquote ih =>
    rw [quotedEnds] at h
    · obtain ⟨word, hword⟩ := ih h
      exact ⟨ch :: word, between_cons hword⟩
    · exact hpair
    · exact hquote

theorem sheetEnds_between {before after : List Char} {next : Patterns.Place Char Unit}
    (h : next ∈ sheetEnds table ⟨before, after, []⟩) :
    ∃ word, Patterns.Place.Between ⟨before, after, []⟩ next word := by
  obtain ⟨middle, hmiddle, hnext⟩ := List.mem_flatMap.mp h
  obtain ⟨bang, hbang, -⟩ := run_reads _ middle next hnext
  have hname : ∃ word, Patterns.Place.Between ⟨before, after, []⟩ middle word := by
    rcases List.mem_append.mp hmiddle with hquoted | hword
    · dsimp only at hquoted
      split at hquoted
      · obtain ⟨word, hword⟩ := quotedEnds_between hquoted
        exact ⟨'\'' :: word, between_cons hword⟩
      · cases hquoted
    · obtain ⟨word, hword, -⟩ := run_reads _ _ middle hword
      exact ⟨word, hword⟩
  obtain ⟨word, hword⟩ := hname
  exact ⟨word ++ bang, hword.append hbang⟩

theorem foundFrom_here {r : TextPattern} {before after : List Char}
    (h : (run r ⟨before, after, []⟩).isEmpty = false) : foundFrom r before after = true := by
  cases after with
  | nil => rw [foundFrom, h, Bool.not_false]
  | cons ch after => rw [foundFrom, h, Bool.not_false, Bool.true_or]

theorem foundFrom_of_a1Here {before after : List Char} (h : a1Here table before after = true) :
    foundFrom (cellRef table) before after = true := by
  rcases Bool.or_eq_true_iff.mp h with hsheet | hcell
  · obtain ⟨next, hnext, hcell⟩ := List.any_eq_true.mp hsheet
    obtain ⟨word, hword⟩ := sheetEnds_between table hnext
    exact foundFrom_of_between hword (foundFrom_here (by simpa using hcell))
  · exact foundFrom_here (by simpa using hcell)

theorem foundA1From_eq (before after : List Char) :
    foundA1From table before after = foundFrom (cellRef table) before after := by
  induction after generalizing before with
  | nil =>
    apply Bool.eq_iff_iff.mpr
    constructor
    · exact foundFrom_of_a1Here table
    · intro h
      have hhere : (!(run (cellRef table) ⟨before, [], []⟩).isEmpty) = true := h
      rw [foundA1From, a1Here, hhere, Bool.or_true]
  | cons ch after ih =>
    rw [foundA1From, ih]
    apply Bool.eq_iff_iff.mpr
    constructor
    · intro h
      rcases Bool.or_eq_true_iff.mp h with hhere | hlater
      · exact foundFrom_of_a1Here table hhere
      · rw [foundFrom, hlater, Bool.or_true]
    · intro h
      rcases Bool.or_eq_true_iff.mp h with hhere | hlater
      · exact Bool.or_eq_true_iff.mpr (.inl (Bool.or_eq_true_iff.mpr (.inr hhere)))
      · exact Bool.or_eq_true_iff.mpr (.inr hlater)

theorem foundA1_eq (text : List Char) : foundA1 table text = found (cellRef table) text :=
  foundA1From_eq table [] text

variable {table}

theorem Fence.foundA1 {ch : Char} (h : Fence table ch) : FencedBy ch (foundA1 table) := by
  have hcell : FencedBy ch (found (cellRef table)) :=
    fencedBy_found h.avoids_cellRef (.inr (.inl fun _ _ => trivial))
  rwa [← funext (foundA1_eq table)] at hcell

end References

end FinanceContext.Formula
