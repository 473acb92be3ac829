import FinanceContext.FormulaWriting

namespace FinanceContext.Formula

open OperatorParsing Csr

def closers : List Char := [')', '}', ',', ';', '%', '+', '-', '*', '/', '^', '&', '=', '<', '>']

def Delimited (rest : List Char) : Prop := ∀ ch ∈ rest.head?, ch ∈ closers

theorem delimited_nil : Delimited [] := by
  intro ch hch
  cases hch

theorem delimited_cons (ch : Char) (h : ch ∈ closers) (rest : List Char) :
    Delimited (ch :: rest) := by
  intro first hfirst
  cases hfirst
  exact h

theorem takeWhile_run {p : Char → Bool} {run rest : List Char} (hrun : ∀ ch ∈ run, p ch = true)
    (hrest : ∀ ch ∈ rest.head?, p ch = false) : (run ++ rest).takeWhile p = run := by
  rw [List.takeWhile_append_of_pos hrun]
  cases rest with
  | nil => simp
  | cons ch rest => simp [hrest ch rfl]

theorem dropWhile_run {p : Char → Bool} {run rest : List Char} (hrun : ∀ ch ∈ run, p ch = true)
    (hrest : ∀ ch ∈ rest.head?, p ch = false) : (run ++ rest).dropWhile p = rest := by
  rw [List.dropWhile_append_of_pos hrun]
  cases rest with
  | nil => rfl
  | cons ch rest => simp [hrest ch rfl]

section Characters

variable (table : TextTable)

theorem isDecimal_of_isDigit {ch : Char} (h : ch.isDigit = true) : isDecimal table ch = true := by
  rw [isDecimal, decimal_digit table.toCharTable h]
  rfl

theorem digit_of_isDigit {ch : Char} (h : ch.isDigit = true) : table.digit ch = true :=
  table.digit_of_decimal ch (isDecimal_of_isDigit table h)

/-- A character that is no letter, no digit and no blank for the tables. -/
structure Symbol (ch : Char) : Prop where
  alpha : table.alpha ch = false
  digit : table.digit ch = false
  alnum : table.alnum ch = false
  decimal : isDecimal table ch = false
  space : table.space ch = false

theorem symbol_of_ascii (ch : Char)
    (h : 32 < ch.toNat ∧ ch.toNat < 127 ∧ ch.isAlphanum = false) : Symbol table ch := by
  obtain ⟨hlo, hhi, hplain⟩ := h
  have halnum : table.alnum ch = false := by rw [table.alnum_ascii ch (by omega), hplain]
  have hdigit : table.digit ch = false := by
    by_contra hdigit
    rw [table.alnum_of_digit ch (Bool.eq_true_of_not_eq_false hdigit)] at halnum
    cases halnum
  have halpha : table.alpha ch = false := by
    by_contra halpha
    rw [table.alnum_of_alpha ch (Bool.eq_true_of_not_eq_false halpha)] at halnum
    cases halnum
  have hdecimal : isDecimal table ch = false := by
    by_contra hdecimal
    rw [table.digit_of_decimal ch (Bool.eq_true_of_not_eq_false hdecimal)] at hdigit
    cases hdigit
  exact ⟨halpha, hdigit, halnum, hdecimal, table.space_ascii ch hlo hhi⟩

theorem Symbol.isNameChar {ch : Char} (h : Symbol table ch) (hline : ch ≠ '_') (hdot : ch ≠ '.') :
    isNameChar table ch = false := by
  simp [Formula.isNameChar, isWord, h.alnum, hline, hdot]

theorem Symbol.startsName {ch : Char} (h : Symbol table ch) (hline : ch ≠ '_') :
    startsName table ch = false := by
  simp [Formula.startsName, h.alpha, hline]

theorem closers_ascii : closers.all (fun ch =>
    32 < ch.toNat && ch.toNat < 127 && !ch.isAlphanum) = true := by decide

theorem symbol_of_closer {ch : Char} (h : ch ∈ closers) : Symbol table ch := by
  have hascii := List.all_eq_true.mp closers_ascii ch h
  simp only [Bool.and_eq_true, decide_eq_true_eq, Bool.not_eq_true'] at hascii
  exact symbol_of_ascii table ch ⟨hascii.1.1, hascii.1.2, hascii.2⟩

theorem ne_of_closer {ch mark : Char} (h : ch ∈ closers) (hmark : mark ∉ closers) : ch ≠ mark := by
  rintro rfl
  exact hmark h

section Delimited

variable {rest : List Char}

theorem Delimited.digit (h : Delimited rest) : ∀ ch ∈ rest.head?, table.digit ch = false :=
  fun ch hch => (symbol_of_closer table (h ch hch)).digit

theorem Delimited.decimal (h : Delimited rest) : ∀ ch ∈ rest.head?, isDecimal table ch = false :=
  fun ch hch => (symbol_of_closer table (h ch hch)).decimal

theorem Delimited.nameChar (h : Delimited rest) :
    ∀ ch ∈ rest.head?, isNameChar table ch = false := fun ch hch =>
  (symbol_of_closer table (h ch hch)).isNameChar table (ne_of_closer (h ch hch) (by decide))
    (ne_of_closer (h ch hch) (by decide))

theorem Delimited.head_ne (h : Delimited rest) (mark : Char) (hmark : mark ∉ closers) :
    ∀ ch ∈ rest.head?, ch ≠ mark := fun ch hch => ne_of_closer (h ch hch) hmark

theorem Delimited.endsToken (h : Delimited rest) : endsToken table rest = true := by
  cases rest with
  | nil => rfl
  | cons ch rest =>
    have hname := h.nameChar table ch rfl
    have hparen := h.head_ne '(' (by decide) ch rfl
    have hbracket := h.head_ne '[' (by decide) ch rfl
    simp [Formula.endsToken, hname, hparen, hbracket]

end Delimited

end Characters

section Numbers

variable (table : TextTable)

theorem Digits.all_digit (digits : Digits) : ∀ ch ∈ digits.chars, table.digit ch = true :=
  fun ch hch => digit_of_isDigit table (digits.digits ch hch)

/-- What may follow a number: nothing that would belong to it. -/
def EndsNumber (rest : List Char) : Prop :=
  ∀ ch ∈ rest.head?, table.digit ch = false ∧ ch ≠ '.' ∧ ch ≠ 'e' ∧ ch ≠ 'E'

theorem Delimited.endsNumber {rest : List Char} (h : Delimited rest) : EndsNumber table rest :=
  fun ch hch => ⟨h.digit table ch hch, h.head_ne _ (by decide) ch hch, h.head_ne _ (by decide) ch hch,
    h.head_ne _ (by decide) ch hch⟩

theorem endsNumber_colon (rest : List Char) : EndsNumber table (':' :: rest) := by
  intro ch hch
  cases hch
  exact ⟨(symbol_of_ascii table _ (by decide)).digit, by decide, by decide, by decide⟩

theorem EndsNumber.digit {rest : List Char} (h : EndsNumber table rest) :
    ∀ ch ∈ rest.head?, table.digit ch = false := fun ch hch => (h ch hch).1

theorem scanExponent_text (exponent : Option Exponent) {rest : List Char}
    (h : EndsNumber table rest) :
    scanExponent table (exponentText exponent ++ rest) = (exponentText exponent, rest) := by
  match exponent with
  | none =>
    cases rest with
    | nil => rfl
    | cons ch rest =>
      obtain ⟨-, -, he, hE⟩ := h ch rfl
      simp [exponentText, scanExponent, he, hE]
  | some ⟨upper, minus, digits⟩ =>
    have hsign : scanSign (signText minus ++ (digits.chars ++ rest)) =
        (signText minus, digits.chars ++ rest) := by
      match minus with
      | some true => rfl
      | some false => rfl
      | none =>
        obtain ⟨first, others, hchars⟩ := List.exists_cons_of_ne_nil digits.nonempty
        have hfirst := digits.digits first (hchars ▸ List.mem_cons_self)
        rw [hchars]
        unfold scanSign
        split
        · rename_i hc
          cases hc
          cases hfirst
        · rename_i hc
          cases hc
          cases hfirst
        · rfl
    have hhead : (digits.chars ++ rest).head?.any table.digit = true := by
      obtain ⟨first, others, hchars⟩ := List.exists_cons_of_ne_nil digits.nonempty
      have hfirst := digits.all_digit table first (hchars ▸ List.mem_cons_self)
      rw [hchars]
      exact hfirst
    have htake := takeWhile_run (digits.all_digit table) (h.digit table)
    have hdrop := dropWhile_run (digits.all_digit table) (h.digit table)
    simp only [exponentText, List.cons_append, List.append_assoc, scanExponent, hsign, hhead, htake,
      hdrop]
    rw [if_pos (by simp)]

theorem head_exponentText (exponent : Option Exponent) {rest : List Char}
    (h : EndsNumber table rest) :
    ∀ ch ∈ (exponentText exponent ++ rest).head?, table.digit ch = false ∧ ch ≠ '.' := by
  match exponent with
  | none => exact fun ch hch => ⟨(h ch hch).1, (h ch hch).2.1⟩
  | some ⟨upper, minus, digits⟩ =>
    intro ch hch
    have hletter : ch = 'E' ∨ ch = 'e' := by
      simp only [exponentText, List.cons_append, List.head?_cons, Option.mem_some_iff] at hch
      cases upper
      · exact .inr hch.symm
      · exact .inl hch.symm
    have halpha : table.alpha ch = true := by
      rcases hletter with rfl | rfl
      · rw [table.alpha_ascii _ (by decide)]
        rfl
      · rw [table.alpha_ascii _ (by decide)]
        rfl
    refine ⟨table.not_digit_of_alpha ch halpha, ?_⟩
    rcases hletter with rfl | rfl
    · decide
    · decide

theorem scanFraction_text (fraction : Option Digits) {rest : List Char}
    (h : ∀ ch ∈ rest.head?, table.digit ch = false ∧ ch ≠ '.') :
    scanFraction table '.' (fractionText fraction ++ rest) = (fractionText fraction, rest) := by
  match fraction with
  | none =>
    match rest with
    | [] => rfl
    | [ch] => rfl
    | ch :: next :: rest =>
      have hdot := (h ch rfl).2
      simp [fractionText, scanFraction, hdot]
  | some digits =>
    obtain ⟨first, others, hchars⟩ := List.exists_cons_of_ne_nil digits.nonempty
    have hfirst := digits.all_digit table first (hchars ▸ List.mem_cons_self)
    have htake := takeWhile_run (digits.all_digit table) fun ch hch => (h ch hch).1
    have hdrop := dropWhile_run (digits.all_digit table) fun ch hch => (h ch hch).1
    rw [hchars, List.cons_append] at htake hdrop
    simp only [fractionText, List.cons_append, hchars, scanFraction, beq_self_eq_true, Bool.true_or,
      hfirst, Bool.and_self, if_true, htake, hdrop]

variable {ν : Type} (floats : DecimalFloats ν)

theorem head_fractionText (number : Decimal) {rest : List Char} (h : EndsNumber table rest) :
    ∀ ch ∈ (fractionText number.fraction ++ (exponentText number.exponent ++ rest)).head?,
      table.digit ch = false := by
  match number.fraction with
  | none => exact fun ch hch => (head_exponentText table number.exponent h ch hch).1
  | some digits =>
    intro ch hch
    cases hch
    exact (symbol_of_ascii table _ (by decide)).digit

theorem scanNumber_text (number : Decimal) {rest : List Char} (h : EndsNumber table rest) :
    scanNumber table floats.toFloats '.' (number.text ++ rest) =
      .ok (floats.value number, rest) := by
  have hwhole : ∀ ch ∈ number.whole, table.digit ch = true :=
    fun ch hch => digit_of_isDigit table (number.wholeDigits ch hch)
  have htext : number.text ++ rest = number.whole ++
      (fractionText number.fraction ++ (exponentText number.exponent ++ rest)) := by
    simp [Decimal.text]
  have htake := takeWhile_run hwhole (head_fractionText table number h)
  have hdrop := dropWhile_run hwhole (head_fractionText table number h)
  have hfraction := scanFraction_text table number.fraction
    (head_exponentText table number.exponent h)
  have hsame (text : List Char) : (text.map fun ch => if ch = '.' then '.' else ch) = text := by
    have hid : (fun ch : Char => if ch = '.' then '.' else ch) = id := by
      funext ch
      split
      · rename_i hdot
        exact hdot.symm
      · rfl
    rw [hid, List.map_id]
  rw [htext, scanNumber]
  simp only [htake, hdrop, hfraction, scanExponent_text table number.exponent h, hsame]
  rw [show number.whole ++ fractionText number.fraction ++ exponentText number.exponent =
    number.text from rfl, floats.read_text]

theorem exists_head_decimal (number : Decimal) (rest : List Char) :
    ∃ ch left, number.text ++ rest = ch :: left ∧ (ch.isDigit = true ∨ ch = '.') ∧
      startsNumber table '.' ch left = true := by
  obtain ⟨whole, hwhole, fraction, exponent, hshown⟩ := number
  cases whole with
  | cons ch whole =>
    have hch := hwhole ch List.mem_cons_self
    refine ⟨ch, _, rfl, .inl hch, ?_⟩
    simp [startsNumber, digit_of_isDigit table hch]
  | nil =>
    obtain ⟨digits, rfl⟩ := Option.isSome_iff_exists.mp (hshown rfl)
    obtain ⟨first, others, hchars⟩ := List.exists_cons_of_ne_nil digits.nonempty
    have hfirst := digits.all_digit table first (hchars ▸ List.mem_cons_self)
    refine ⟨'.', digits.chars ++ (exponentText exponent ++ rest), by
      simp [Decimal.text, fractionText], .inr rfl, ?_⟩
    simp [startsNumber, hchars, hfirst]

end Numbers

section Quoting

theorem scanString_doubled (value rest : List Char)
    (h : ∀ ch ∈ rest.head?, ch ≠ '"') :
    scanString (doubled '"' value ++ '"' :: rest) = .ok (value, rest) := by
  induction value with
  | nil =>
    cases rest with
    | nil => rfl
    | cons ch rest =>
      have hch := h ch rfl
      rw [doubled, List.flatMap_nil, List.nil_append, scanString]
      rintro _ ⟨⟩
      exact hch rfl
  | cons ch value ih =>
    by_cases hch : ch = '"'
    · rw [hch, show doubled '"' ('"' :: value) ++ '"' :: rest =
        '"' :: '"' :: (doubled '"' value ++ '"' :: rest) from rfl, scanString, ih]
      rfl
    · have htext : doubled '"' (ch :: value) ++ '"' :: rest =
          ch :: (doubled '"' value ++ '"' :: rest) := by simp [doubled, hch]
      rw [htext, scanString, ih]
      · rfl
      · exact fun _ hc => absurd hc hch
      · exact hch

theorem scanQuoted_doubled (name rest : List Char)
    (h : ∀ ch ∈ rest.head?, ch ≠ '\'') :
    scanQuoted (doubled '\'' name ++ '\'' :: rest) = some (name, rest) := by
  induction name with
  | nil =>
    cases rest with
    | nil => rfl
    | cons ch rest =>
      have hch := h ch rfl
      rw [doubled, List.flatMap_nil, List.nil_append, scanQuoted]
      rintro _ ⟨⟩
      exact hch rfl
  | cons ch name ih =>
    by_cases hch : ch = '\''
    · rw [hch, show doubled '\'' ('\'' :: name) ++ '\'' :: rest =
        '\'' :: '\'' :: (doubled '\'' name ++ '\'' :: rest) from rfl, scanQuoted, ih]
      rfl
    · have htext : doubled '\'' (ch :: name) ++ '\'' :: rest =
          ch :: (doubled '\'' name ++ '\'' :: rest) := by simp [doubled, hch]
      rw [htext, scanQuoted, ih]
      · rfl
      · exact fun _ hc => absurd hc hch
      · exact hch

end Quoting

end FinanceContext.Formula
