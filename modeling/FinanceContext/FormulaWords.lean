import FinanceContext.FormulaReading

namespace FinanceContext.Formula

open OperatorParsing Csr

section Characters

variable (table : TextTable)

theorem isNameChar_of_isWord {ch : Char} (h : isWord table ch = true) :
    isNameChar table ch = true := by
  simp [isNameChar, h]

theorem isWord_of_isDecimal {ch : Char} (h : isDecimal table ch = true) :
    isWord table ch = true := by
  have halnum := table.alnum_of_digit ch (table.digit_of_decimal ch h)
  simp [isWord, halnum]

theorem alpha_of_isAlpha {ch : Char} (h : ch.isAlpha = true) : table.alpha ch = true := by
  rw [table.alpha_ascii ch (alpha_range h).2, h]

theorem isWord_of_isAlpha {ch : Char} (h : ch.isAlpha = true) : isWord table ch = true := by
  have halnum := table.alnum_of_alpha ch (alpha_of_isAlpha table h)
  simp [isWord, halnum]

theorem not_isAlpha_of_isDecimal {ch : Char} (h : isDecimal table ch = true) :
    ch.isAlpha = false := by
  by_contra halpha
  have hdigit := table.not_digit_of_alpha ch
    (alpha_of_isAlpha table (Bool.eq_true_of_not_eq_false halpha))
  rw [table.digit_of_decimal ch h] at hdigit
  cases hdigit

theorem isWord_of_startsName {ch : Char} (h : startsName table ch = true) :
    isWord table ch = true := by
  simp only [startsName, Bool.or_eq_true, beq_iff_eq] at h
  rcases h with h | rfl
  · simp [isWord, table.alnum_of_alpha ch h]
  · simp [isWord]

theorem not_digit_of_startsName {ch : Char} (h : startsName table ch = true) :
    table.digit ch = false := by
  simp only [startsName, Bool.or_eq_true, beq_iff_eq] at h
  rcases h with h | rfl
  · exact table.not_digit_of_alpha ch h
  · exact (symbol_of_ascii table _ (by decide)).digit

theorem not_isDecimal_of_startsName {ch : Char} (h : startsName table ch = true) :
    isDecimal table ch = false := by
  by_contra hdecimal
  have hdigit := not_digit_of_startsName table h
  rw [table.digit_of_decimal ch (Bool.eq_true_of_not_eq_false hdecimal)] at hdigit
  cases hdigit

theorem ne_of_class {p : Char → Bool} {ch mark : Char} (h : p ch = true) (hmark : p mark = false) :
    ch ≠ mark := by
  rintro rfl
  rw [h] at hmark
  cases hmark

theorem not_startsName_of_symbol {mark : Char}
    (h : 32 < mark.toNat ∧ mark.toNat < 127 ∧ mark.isAlphanum = false) (hline : mark ≠ '_') :
    startsName table mark = false := (symbol_of_ascii table mark h).startsName table hline

theorem not_isNameChar_of_symbol {mark : Char}
    (h : 32 < mark.toNat ∧ mark.toNat < 127 ∧ mark.isAlphanum = false) (hline : mark ≠ '_')
    (hdot : mark ≠ '.') : isNameChar table mark = false :=
  (symbol_of_ascii table mark h).isNameChar table hline hdot

theorem isNameChar_dollar : isNameChar table '$' = false :=
  not_isNameChar_of_symbol table (by decide) (by decide) (by decide)

theorem isNameChar_colon : isNameChar table ':' = false :=
  not_isNameChar_of_symbol table (by decide) (by decide) (by decide)

theorem isNameChar_bang : isNameChar table '!' = false :=
  not_isNameChar_of_symbol table (by decide) (by decide) (by decide)

end Characters

section Inversion

variable (table : TextTable)

theorem scanDollar_spec (text : List Char) :
    text = dollarText (scanDollar text).1 ++ (scanDollar text).2 := by
  unfold scanDollar
  split
  · rfl
  · rfl

theorem scanDollar_of_head {text : List Char} (h : ∀ ch ∈ text.head?, ch ≠ '$') :
    scanDollar text = (false, text) := by
  unfold scanDollar
  split
  · exact absurd rfl (h '$' rfl)
  · rfl

theorem scanLetters_spec {text letters rest : List Char}
    (h : scanLetters text = some (letters, rest)) :
    text = letters ++ rest ∧ letters ≠ [] ∧ letters.length ≤ 3 ∧
      ∀ ch ∈ letters, ch.isAlpha = true := by
  unfold scanLetters at h
  simp only [Option.ite_none_left_eq_some, Option.some.injEq, Prod.mk.injEq] at h
  obtain ⟨hne, rfl, rfl⟩ := h
  have hleading : (text.take 3).takeWhile Char.isAlpha <+: text :=
    (List.takeWhile_prefix _).trans (List.take_prefix 3 text)
  have hlen : ((text.take 3).takeWhile Char.isAlpha).length ≤ (text.take 3).length :=
    (List.takeWhile_prefix _).length_le
  rw [List.length_take] at hlen
  refine ⟨?_, by simpa using hne, by omega, fun ch hch => List.mem_takeWhile_imp hch⟩
  exact (List.take_append_drop _ text).symm.trans
    (congrArg (· ++ _) (List.prefix_iff_eq_take.mp hleading).symm)

theorem scanRow_spec {text rest : List Char} {row : ℕ} (h : scanRow table text = some (row, rest)) :
    ∃ digits, text = digits ++ rest ∧ digits ≠ [] ∧
      (∀ ch ∈ digits, isDecimal table ch = true) ∧ row = readInt table.decimal digits := by
  unfold scanRow at h
  simp only [Option.ite_none_left_eq_some, Option.some.injEq, Prod.mk.injEq] at h
  obtain ⟨hne, rfl, rfl⟩ := h
  exact ⟨_, List.takeWhile_append_dropWhile.symm, by simpa using hne,
    fun ch hch => List.mem_takeWhile_imp hch, rfl⟩

theorem cellBody_spec {text rest : List Char} {point : CellPoint}
    (h : cellBody table text = some (point, rest)) :
    ∃ letters digits, text =
        dollarText point.absCol ++ (letters ++ (dollarText point.absRow ++ (digits ++ rest))) ∧
      letters ≠ [] ∧ letters.length ≤ 3 ∧ (∀ ch ∈ letters, ch.isAlpha = true) ∧
      digits ≠ [] ∧ (∀ ch ∈ digits, isDecimal table ch = true) ∧
      point.col = columnOf letters ∧ point.row = readInt table.decimal digits ∧
      endsToken table rest = true := by
  unfold cellBody at h
  simp only [Option.bind_eq_bind, Option.bind_eq_some_iff, Option.ite_none_right_eq_some,
    Option.some.injEq, Prod.mk.injEq, Prod.exists] at h
  obtain ⟨letters, left, hletters, row, left', hrow, hends, rfl, rfl⟩ := h
  obtain ⟨htext, hne, hlen, halpha⟩ := scanLetters_spec hletters
  obtain ⟨digits, hleft, hdigits, hdecimal, rfl⟩ := scanRow_spec table hrow
  refine ⟨letters, digits, ?_, hne, hlen, halpha, hdigits, hdecimal, rfl, rfl, hends⟩
  have h1 := scanDollar_spec text
  have h2 := scanDollar_spec left
  rw [htext, h2, hleft] at h1
  exact h1

end Inversion

section Words

variable (table : TextTable)

/-- A run of name characters that begins as a name does, with what may follow it. -/
structure WordBefore (word rest : List Char) : Prop where
  starts : ∀ ch ∈ word.head?, startsName table ch = true
  nonempty : word ≠ []
  name : ∀ ch ∈ word, isNameChar table ch = true
  ends : ∀ ch ∈ rest.head?, isNameChar table ch = false ∧ ch ≠ '$' ∧ ch ≠ ':' ∧ ch ≠ '!'

variable {table} {word rest : List Char}

theorem Word.all_name (word : Word table) : ∀ ch ∈ word.text, isNameChar table ch = true := by
  intro ch hch
  rcases List.mem_cons.mp hch with rfl | hch
  · exact isNameChar_of_isWord table (isWord_of_startsName table word.starts)
  · exact word.continues ch hch

theorem WordBefore.head_ne (h : WordBefore table word rest) (mark : Char)
    (hmark : startsName table mark = false) : ∀ ch ∈ (word ++ rest).head?, ch ≠ mark := by
  obtain ⟨first, others, rfl⟩ := List.exists_cons_of_ne_nil h.nonempty
  intro ch hch
  cases hch
  exact ne_of_class (h.starts _ rfl) hmark

theorem WordBefore.takeWhile (h : WordBefore table word rest) :
    (word ++ rest).takeWhile (isNameChar table) = word :=
  takeWhile_run h.name fun ch hch => (h.ends ch hch).1

theorem WordBefore.dropWhile (h : WordBefore table word rest) :
    (word ++ rest).dropWhile (isNameChar table) = rest :=
  dropWhile_run h.name fun ch hch => (h.ends ch hch).1

theorem WordBefore.scanDollar (h : WordBefore table word rest) :
    scanDollar (word ++ rest) = (false, word ++ rest) :=
  scanDollar_of_head (h.head_ne _ (not_startsName_of_symbol table (by decide) (by decide)))

theorem WordBefore.cellBody (h : WordBefore table word rest) {point : CellPoint}
    {left : List Char} (hcell : cellBody table (word ++ rest) = some (point, left)) :
    left = rest ∧ endsToken table rest = true ∧
      (inGrid point.col point.row = true → spellsCell table word = true) := by
  obtain ⟨letters, digits, htext, hne, hlen, halpha, hdigits, hdecimal, hcol, hrow, hends⟩ :=
    cellBody_spec table hcell
  have hletterName : ∀ ch ∈ letters, isNameChar table ch = true := fun ch hch =>
    isNameChar_of_isWord table (isWord_of_isAlpha table (halpha ch hch))
  have hdigitName : ∀ ch ∈ digits, isNameChar table ch = true := fun ch hch =>
    isNameChar_of_isWord table (isWord_of_isDecimal table (hdecimal ch hch))
  have hcolDollar : point.absCol = false := by
    by_contra hdollar
    rw [Bool.eq_true_of_not_eq_false hdollar] at htext
    exact h.head_ne _ (not_startsName_of_symbol table (by decide) (by decide)) '$'
      (by rw [htext]; rfl) rfl
  have hrowDollar : point.absRow = false := by
    by_contra hdollar
    rw [hcolDollar, Bool.eq_true_of_not_eq_false hdollar] at htext
    have hsplit : word = letters ∧ rest = '$' :: (digits ++ left) := by
      have htake := h.takeWhile
      have hdrop := h.dropWhile
      have hstop : ∀ ch ∈ ('$' :: (digits ++ left)).head?, isNameChar table ch = false := by
        intro ch hch
        cases hch
        exact isNameChar_dollar table
      rw [htext] at htake hdrop
      exact ⟨htake.symm.trans (takeWhile_run hletterName hstop),
        hdrop.symm.trans (dropWhile_run hletterName hstop)⟩
    exact (h.ends '$' (by rw [hsplit.2]; rfl)).2.1 rfl
  have hleft : ∀ ch ∈ left.head?, isNameChar table ch = false := by
    intro ch hch
    cases left with
    | nil => cases hch
    | cons first left =>
      cases hch
      simp only [endsToken, Bool.not_eq_true', Bool.or_eq_false_iff] at hends
      exact hends.1.1
  rw [hcolDollar, hrowDollar] at htext
  have hrun : ∀ ch ∈ letters ++ digits, isNameChar table ch = true := by
    intro ch hch
    rcases List.mem_append.mp hch with hch | hch
    · exact hletterName ch hch
    · exact hdigitName ch hch
  have hflat : word ++ rest = (letters ++ digits) ++ left := by
    rw [htext]
    simp [dollarText]
  have hword : word = letters ++ digits := by
    rw [← h.takeWhile, hflat, takeWhile_run hrun hleft]
  have hrest : left = rest := by
    rw [← h.dropWhile, hflat, dropWhile_run hrun hleft]
  have hdigitHead : ∀ ch ∈ digits.head?, Char.isAlpha ch = false := by
    intro ch hch
    exact not_isAlpha_of_isDecimal table (hdecimal ch (List.mem_of_mem_head? hch))
  refine ⟨hrest, hrest ▸ hends, fun hgrid => ?_⟩
  have hall : digits.all (isDecimal table) = true := by simpa using hdecimal
  have hletters : letters.isEmpty = false := by simpa using hne
  have hdigits' : digits.isEmpty = false := by simpa using hdigits
  rw [spellsCell, hword, takeWhile_run halpha hdigitHead, dropWhile_run halpha hdigitHead]
  simp only [hlen, hletters, hdigits', hall, ← hcol, ← hrow, hgrid]
  rfl

theorem WordBefore.gridCell (h : WordBefore table word rest)
    (hcell : spellsCell table word = false ∨ endsToken table rest = false) :
    gridCell table (word ++ rest) = none := by
  by_contra hsome
  obtain ⟨⟨point, left⟩, hpoint⟩ := Option.ne_none_iff_exists'.mp hsome
  unfold Formula.gridCell at hpoint
  simp only [Option.bind_eq_bind, Option.bind_eq_some_iff, Option.ite_none_right_eq_some,
    Option.some.injEq, Prod.mk.injEq, Prod.exists] at hpoint
  obtain ⟨point', left', hbody, hgrid, rfl, rfl⟩ := hpoint
  obtain ⟨-, hends, hspells⟩ := h.cellBody hbody
  rcases hcell with hcell | hcell
  · rw [hspells hgrid] at hcell
    cases hcell
  · rw [hends] at hcell
    cases hcell

theorem WordBefore.colPair (h : WordBefore table word rest) :
    colPair table (word ++ rest) = none := by
  unfold Formula.colPair
  rw [h.scanDollar]
  simp only [Option.bind_eq_bind]
  cases hletters : scanLetters (word ++ rest) with
  | none => rfl
  | some found =>
    obtain ⟨letters, left⟩ := found
    obtain ⟨htext, hne, -, halpha⟩ := scanLetters_spec hletters
    simp only [Option.bind_some]
    split
    · rename_i left'
      have hstop : ∀ ch ∈ (':' :: left').head?, isNameChar table ch = false := by
        intro ch hch
        cases hch
        exact isNameChar_colon table
      have hdrop := h.dropWhile
      rw [htext, dropWhile_run (fun ch hch =>
        isNameChar_of_isWord table (isWord_of_isAlpha table (halpha ch hch))) hstop] at hdrop
      exact absurd rfl (h.ends ':' (by rw [← hdrop]; rfl)).2.2.1
    · rfl

theorem WordBefore.rowPair (h : WordBefore table word rest) :
    rowPair table (word ++ rest) = none := by
  have hfirst : ∀ ch ∈ (word ++ rest).head?, isDecimal table ch = false := by
    obtain ⟨first, others, rfl⟩ := List.exists_cons_of_ne_nil h.nonempty
    intro ch hch
    cases hch
    exact not_isDecimal_of_startsName table (h.starts _ rfl)
  have htake : (word ++ rest).takeWhile (isDecimal table) = [] :=
    takeWhile_run (List.forall_mem_nil _) hfirst
  have hrow : scanRow table (word ++ rest) = none := by
    rw [scanRow, htake]
    rfl
  unfold Formula.rowPair
  rw [h.scanDollar]
  simp only [Option.bind_eq_bind, hrow, Option.bind_none]

theorem unquotedSheet_of_head {text : List Char}
    (h : ∀ ch ∈ (text.dropWhile (isNameChar table)).head?, ch ≠ '!') :
    unquotedSheet table text = none := by
  cases text with
  | nil => rfl
  | cons ch rest =>
    rw [unquotedSheet]
    split_ifs with hword
    · simp only [Bool.and_eq_true] at hword
      rw [List.dropWhile_cons, if_pos (isNameChar_of_isWord table hword.1)] at h
      split
      · rename_i left hdrop
        exact absurd rfl (h '!' (by rw [hdrop]; rfl))
      · rfl
    · rfl

theorem WordBefore.unquotedSheet (h : WordBefore table word rest) :
    unquotedSheet table (word ++ rest) = none := by
  apply unquotedSheet_of_head
  rw [h.dropWhile]
  exact fun ch hch => (h.ends ch hch).2.2.2

theorem WordBefore.scanReference {ν : Type} (h : WordBefore table word rest)
    (hcell : spellsCell table word = false ∨ endsToken table rest = false) :
    scanReference (ν := ν) table (word ++ rest) = none := by
  have hquote := h.head_ne '\'' (not_startsName_of_symbol table (by decide) (by decide))
  have hbracket := h.head_ne '[' (not_startsName_of_symbol table (by decide) (by decide))
  have hbody : scanRangeBody table (word ++ rest) = none := by
    unfold scanRangeBody
    rw [h.gridCell hcell, h.colPair, h.rowPair]
  unfold Formula.scanReference
  split
  · rename_i htext
    exact absurd rfl (hquote '\'' (by rw [htext]; rfl))
  · rename_i htext
    exact absurd rfl (hbracket '[' (by rw [htext]; rfl))
  · rw [h.unquotedSheet, hbody]
    rfl

end Words

end FinanceContext.Formula
