import FinanceContext.FormulaReferences

namespace FinanceContext.Formula

open OperatorParsing Csr

variable {table : TextTable} {ν : Type}

/-- Tokens in front of those of the rest of a text; `none` is a text that is refused. -/
def emit (tokens : Option (List (Token ν))) (rest : Except Failure (List (Token ν))) :
    Except Failure (List (Token ν)) :=
  match tokens with
  | none => .error .rejected
  | some tokens =>
    match rest with
    | .error failure => .error failure
    | .ok others => .ok (tokens ++ others)

def joined (left right : Option (List (Token ν))) : Option (List (Token ν)) :=
  match left, right with
  | some left, some right => some (left ++ right)
  | _, _ => none

theorem emit_joined (left right : Option (List (Token ν)))
    (rest : Except Failure (List (Token ν))) :
    emit (joined left right) rest = emit left (emit right rest) := by
  cases left with
  | none => rfl
  | some left =>
    cases right with
    | none => rfl
    | some right =>
      cases rest with
      | error failure => rfl
      | ok others => simp [emit, joined]

def rowDecimal (row : ℕ) : Decimal where
  whole := (toString row).toList
  wholeDigits _ := isDigit_of_mem_toString
  fraction := none
  exponent := none
  shown h := absurd h (toString_ne_nil row)

theorem text_rowDecimal (row : ℕ) : (rowDecimal row).text = (toString row).toList := by
  simp [Decimal.text, rowDecimal, fractionText, exponentText]

section Expected

variable (floats : DecimalFloats ν)

/-- Whole rows whose first end is read as a number are two numbers and a colon, or refused. -/
def Reference.tokens (ref : Reference table) : Option (List (Token ν)) :=
  let whole : Token ν := .ref (.ref ref.place.external ref.place.sheet ref.area.body)
  match ref.place, ref.area with
  | .here, .rows start finish =>
    if start.absRow then some [whole]
    else if finish.absRow then none
    else
      some [.number (floats.value (rowDecimal start.row)), .colon,
        .number (floats.value (rowDecimal finish.row))]
  | _, _ => some [whole]

def signToken (minus : Bool) : Token ν := .op (if minus then .sub else .add)

def Constant.tokens : Constant → List (Token ν)
  | .number minus value marked =>
    (minus.map signToken).toList ++ .number (floats.value value) ::
      if marked then [.percent] else []
  | .string value => [.string value]
  | .error value => [.error value.text]
  | .boolean value => [.name (booleanText value)]

def rowsTokens (rows : List (List Constant)) : List (Token ν) :=
  [.rowSep].intercalate (rows.map fun row =>
    [.sep].intercalate (row.map (Constant.tokens floats)))

namespace Tree

mutual

def tokens : Tree table → Option (List (Token ν))
  | .number value => some [.number (floats.value value)]
  | .string value => some [.string value]
  | .error value => some [.error value.text]
  | .boolean value => some [.name (booleanText value)]
  | .name word => some [.name word.toWord.text]
  | .reference ref => ref.tokens floats
  | .array rows => some (.lbrace :: rowsTokens floats rows.rows ++ [.rbrace])
  | .call func args =>
    joined (joined (some [.name func.text, .lparen]) (argsTokens args)) (some [.rparen])
  | .unary minus expr =>
    joined (joined (some [.lparen, signToken minus]) (tokens expr)) (some [.rparen])
  | .percent expr => joined (joined (some [.lparen]) (tokens expr)) (some [.percent, .rparen])
  | .bin kind left right =>
    joined (joined (joined (joined (some [.lparen]) (tokens left)) (some [.op kind]))
      (tokens right)) (some [.rparen])

def argsTokens : List (Tree table) → Option (List (Token ν))
  | [] => some []
  | [arg] => tokens arg
  | arg :: args => joined (joined (tokens arg) (some [.sep])) (argsTokens args)

end

end Tree

end Expected

section Steps

variable (table) (floats : DecimalFloats ν)

/-- `_tokenize` with the separators of the `en` locale. -/
def scan (text : List Char) : Except Failure (List (Token ν)) :=
  tokenize table floats.toFloats '.' ',' text

theorem scan_of_token {ch : Char} {rest left : List Char} {token : Token ν}
    (h : scanToken table floats.toFloats '.' ',' ch rest = .ok (some token, left)) :
    scan table floats (ch :: rest) = emit (some [token]) (scan table floats left) := by
  rw [scan, tokenize_cons, h]
  cases hleft : tokenize table floats.toFloats '.' ',' left with
  | error failure =>
    rw [scan, hleft]
    change (tokenize table floats.toFloats '.' ',' left >>= _) = _
    rw [hleft]
    rfl
  | ok tokens =>
    rw [scan, hleft]
    change (tokenize table floats.toFloats '.' ',' left >>= _) = _
    rw [hleft]
    rfl

theorem scan_of_error {ch : Char} {rest : List Char}
    (h : scanToken table floats.toFloats '.' ',' ch rest = .error .rejected) :
    scan table floats (ch :: rest) = .error .rejected := by
  rw [scan, tokenize_cons, h]
  rfl

/-- The characters that begin no operand. -/
def IsMark (ch : Char) : Prop :=
  (32 < ch.toNat ∧ ch.toNat < 127 ∧ ch.isAlphanum = false) ∧
    ch ∉ ['"', '#', '.', '\'', '[', '$', '_']

instance (ch : Char) : Decidable (IsMark ch) := inferInstanceAs (Decidable (_ ∧ _))

theorem scanToken_mark {ch : Char} (hmark : IsMark ch) {rest left : List Char} {token : Token ν}
    (h : scanMark ',' ch rest = .ok (token, left)) :
    scanToken table floats.toFloats '.' ',' ch rest = .ok (some token, left) := by
  obtain ⟨hascii, hother⟩ := hmark
  simp only [List.mem_cons, List.not_mem_nil, or_false, not_or] at hother
  obtain ⟨hquote, hhash, hdot, hsingle, hbracket, hdollar, hline⟩ := hother
  have hsymbol := symbol_of_ascii table ch hascii
  have hnumber : startsNumber table '.' ch rest = false := by
    simp [startsNumber, hsymbol.digit, hdot]
  have hname := hsymbol.startsName table hline
  unfold scanToken
  rw [if_neg (by simp [hsymbol.space]), if_neg hquote, if_neg hhash, if_neg (by simp [hnumber]),
    if_neg (by simp [hsingle, hbracket, hdollar, hname]), h]
  rfl

theorem scan_mark {ch : Char} (hmark : IsMark ch) {rest left : List Char} {token : Token ν}
    (h : scanMark ',' ch rest = .ok (token, left)) :
    scan table floats (ch :: rest) = emit (some [token]) (scan table floats left) :=
  scan_of_token table floats (scanToken_mark table floats hmark h)

theorem scan_op (kind : BinOp) {rest : List Char}
    (h : ∀ ch ∈ rest.head?, ch ≠ '=' ∧ ch ≠ '>') :
    scan table floats (opText kind ++ rest) =
      emit (some [.op kind]) (scan table floats rest) := by
  have hlt : scanMark (ν := ν) ',' '<' rest = .ok (.op .lt, rest) := by
    cases rest with
    | nil => rfl
    | cons ch rest =>
      obtain ⟨heq, hgt⟩ := h ch rfl
      simp [scanMark, heq, hgt, markOf, opOf]
  have hgt : scanMark (ν := ν) ',' '>' rest = .ok (.op .gt, rest) := by
    cases rest with
    | nil => rfl
    | cons ch rest =>
      obtain ⟨heq, -⟩ := h ch rfl
      simp [scanMark, heq, markOf, opOf]
  cases kind with
  | concat => exact scan_mark table floats (by decide) rfl
  | eq => exact scan_mark table floats (by decide) rfl
  | ne => exact scan_mark table floats (by decide) rfl
  | lt => exact scan_mark table floats (by decide) hlt
  | gt => exact scan_mark table floats (by decide) hgt
  | le => exact scan_mark table floats (by decide) rfl
  | ge => exact scan_mark table floats (by decide) rfl
  | add => exact scan_mark table floats (by decide) rfl
  | sub => exact scan_mark table floats (by decide) rfl
  | mul => exact scan_mark table floats (by decide) rfl
  | div => exact scan_mark table floats (by decide) rfl
  | pow => exact scan_mark table floats (by decide) rfl

end Steps

section Operands

variable (table) (floats : DecimalFloats ν) {rest : List Char}

theorem scan_number (value : Decimal) (h : EndsNumber table rest) :
    scan table floats (value.text ++ rest) =
      emit (some [.number (floats.value value)]) (scan table floats rest) := by
  obtain ⟨ch, left, htext, hfirst, hstart⟩ := exists_head_decimal table value rest
  have hnumber := scanNumber_text table floats value h
  have hspace : table.space ch = false := by
    rcases hfirst with hdigit | rfl
    · exact table.not_space_of_alnum ch
        (table.alnum_of_digit ch (digit_of_isDigit table hdigit))
    · exact (symbol_of_ascii table _ (by decide)).space
  have hquote : ch ≠ '"' := by
    rcases hfirst with hdigit | rfl
    · exact ne_of_class hdigit (by decide)
    · decide
  have hhash : ch ≠ '#' := by
    rcases hfirst with hdigit | rfl
    · exact ne_of_class hdigit (by decide)
    · decide
  rw [htext] at hnumber ⊢
  apply scan_of_token
  unfold scanToken
  rw [if_neg (by simp [hspace]), if_neg hquote, if_neg hhash, if_pos hstart, hnumber]
  rfl

theorem scan_string (value : List Char) (h : Delimited rest) :
    scan table floats (renderString value ++ rest) =
      emit (some [.string value]) (scan table floats rest) := by
  have htext : renderString value ++ rest = '"' :: (doubled '"' value ++ '"' :: rest) := by
    simp [renderString]
  have hvalue := scanString_doubled value rest (h.head_ne '"' (by decide))
  rw [htext]
  apply scan_of_token
  unfold scanToken
  rw [if_neg (by simp [(symbol_of_ascii table '"' (by decide)).space]), if_pos rfl, hvalue]
  rfl

theorem scan_error (value : ErrorValue) :
    scan table floats (value.text ++ rest) =
      emit (some [.error value.text]) (scan table floats rest) := by
  obtain ⟨text, hknown⟩ := value
  have hfind : errors.find? (·.isPrefixOf (text ++ rest)) = some text := by
    simp only [errors, List.mem_cons, List.not_mem_nil, or_false] at hknown
    rcases hknown with rfl | rfl | rfl | rfl | rfl | rfl | rfl | rfl
    all_goals rfl
  have hhead : ∃ others, text = '#' :: others := by
    simp only [errors, List.mem_cons, List.not_mem_nil, or_false] at hknown
    rcases hknown with rfl | rfl | rfl | rfl | rfl | rfl | rfl | rfl
    all_goals exact ⟨_, rfl⟩
  obtain ⟨others, rfl⟩ := hhead
  rw [List.cons_append] at hfind ⊢
  apply scan_of_token
  unfold scanToken
  rw [if_neg (by simp [(symbol_of_ascii table '#' (by decide)).space]), if_neg (by decide),
    if_pos rfl, hfind]
  simp

theorem scan_word {word : List Char} (h : WordBefore table word rest)
    (hcell : spellsCell table word = false ∨ endsToken table rest = false) :
    scan table floats (word ++ rest) = emit (some [.name word]) (scan table floats rest) := by
  have hreference := h.scanReference (ν := ν) hcell
  have htake := h.takeWhile
  have hdrop := h.dropWhile
  obtain ⟨first, others, rfl⟩ := List.exists_cons_of_ne_nil h.nonempty
  have hstarts := h.starts first rfl
  have hname := isNameChar_of_isWord table (isWord_of_startsName table hstarts)
  have hspace : table.space first = false := by
    simp only [startsName, Bool.or_eq_true, beq_iff_eq] at hstarts
    rcases hstarts with halpha | rfl
    · exact table.not_space_of_alnum first (table.alnum_of_alpha first halpha)
    · exact (symbol_of_ascii table _ (by decide)).space
  have hother (mark : Char) (hmark : startsName table mark = false) : first ≠ mark :=
    ne_of_class hstarts hmark
  have hnumber : startsNumber table '.' first (others ++ rest) = false := by
    have hdot := hother '.' (not_startsName_of_symbol table (by decide) (by decide))
    simp [startsNumber, not_digit_of_startsName table hstarts, hdot]
  rw [List.cons_append] at hreference htake hdrop ⊢
  rw [List.takeWhile_cons, if_pos hname] at htake
  rw [List.dropWhile_cons, if_pos hname] at hdrop
  apply scan_of_token
  unfold scanToken
  rw [if_neg (by simp [hspace]),
    if_neg (hother '"' (not_startsName_of_symbol table (by decide) (by decide))),
    if_neg (hother '#' (not_startsName_of_symbol table (by decide) (by decide))),
    if_neg (by simp [hnumber]), if_pos (.inr hstarts), hreference]
  simp only [if_pos hstarts, hdrop, htake]

theorem Delimited.afterWord (h : Delimited rest) : ∀ ch ∈ rest.head?,
    isNameChar table ch = false ∧ ch ≠ '$' ∧ ch ≠ ':' ∧ ch ≠ '!' :=
  fun ch hch => ⟨h.nameChar table ch hch, h.head_ne _ (by decide) ch hch, h.head_ne _ (by decide) ch hch,
    h.head_ne _ (by decide) ch hch⟩

theorem Word.before (word : Word table) {rest : List Char}
    (h : ∀ ch ∈ rest.head?, isNameChar table ch = false ∧ ch ≠ '$' ∧ ch ≠ ':' ∧ ch ≠ '!') :
    WordBefore table word.text rest where
  starts ch hch := by
    cases hch
    exact word.starts
  nonempty := List.cons_ne_nil _ _
  name := word.all_name
  ends := h

theorem scan_name (name : DefinedName table) (h : Delimited rest) :
    scan table floats (name.toWord.text ++ rest) =
      emit (some [.name name.toWord.text]) (scan table floats rest) :=
  scan_word table floats (name.toWord.before table (h.afterWord table)) (.inl name.notCell)

theorem scan_boolean (value : Bool) (h : Delimited rest) :
    scan table floats (booleanText value ++ rest) =
      emit (some [.name (booleanText value)]) (scan table floats rest) := by
  have halpha : ∀ ch ∈ booleanText value, ch.isAlpha = true := by
    cases value
    · exact List.all_eq_true.mp (by decide)
    · exact List.all_eq_true.mp (by decide)
  apply scan_word table floats
  · exact
      { starts := fun ch hch => by
          have hletter := halpha ch (List.mem_of_mem_head? hch)
          simp [startsName, alpha_of_isAlpha table hletter]
        nonempty := by
          cases value
          · decide
          · decide
        name := fun ch hch => isNameChar_of_isWord table (isWord_of_isAlpha table (halpha ch hch))
        ends := h.afterWord table }
  · left
    cases value
    · simp [spellsCell, booleanText]
    · simp [spellsCell, booleanText]

end Operands

section References

variable (table) (floats : DecimalFloats ν) {rest : List Char}

/-- The characters a reference begins with. -/
def OpensReference (ch : Char) : Prop := ch ∈ ['\'', '[', '$'] ∨ startsName table ch = true

theorem scan_reference_of_head {ch : Char} {left : List Char} {node : Ast ν}
    (hopens : OpensReference table ch)
    (h : scanReference table (ch :: left) = some (node, rest)) :
    scan table floats (ch :: left) = emit (some [.ref node]) (scan table floats rest) := by
  have hplain : table.space ch = false ∧ table.digit ch = false ∧ ch ≠ '"' ∧ ch ≠ '#' ∧
      ch ≠ '.' := by
    rcases hopens with hmark | hstarts
    · have hascii : 32 < ch.toNat ∧ ch.toNat < 127 ∧ ch.isAlphanum = false := by
        simp only [List.mem_cons, List.not_mem_nil, or_false] at hmark
        rcases hmark with rfl | rfl | rfl
        all_goals decide
      have hsymbol := symbol_of_ascii table ch hascii
      refine ⟨hsymbol.space, hsymbol.digit, ?_, ?_, ?_⟩
      all_goals
        rintro rfl
        exact absurd hmark (by decide)
    · have hother (mark : Char) (hm : startsName table mark = false) : ch ≠ mark :=
        ne_of_class hstarts hm
      have hspace : table.space ch = false := by
        simp only [startsName, Bool.or_eq_true, beq_iff_eq] at hstarts
        rcases hstarts with halpha | rfl
        · exact table.not_space_of_alnum ch (table.alnum_of_alpha ch halpha)
        · exact (symbol_of_ascii table _ (by decide)).space
      exact ⟨hspace, not_digit_of_startsName table hstarts,
        hother '"' (not_startsName_of_symbol table (by decide) (by decide)),
        hother '#' (not_startsName_of_symbol table (by decide) (by decide)),
        hother '.' (not_startsName_of_symbol table (by decide) (by decide))⟩
  obtain ⟨hspace, hdigit, hquote, hhash, hdot⟩ := hplain
  have hnumber : startsNumber table '.' ch left = false := by simp [startsNumber, hdigit, hdot]
  have hbranch : ch ∈ ['\'', '[', '$'] ∨ startsName table ch = true := hopens
  apply scan_of_token
  unfold scanToken
  rw [if_neg (by simp [hspace]), if_neg hquote, if_neg hhash, if_neg (by simp [hnumber]),
    if_pos hbranch, h]

theorem opensReference_letter {ch : Char} (h : ch.isAlpha = true) : OpensReference table ch := by
  right
  simp [startsName, alpha_of_isAlpha table h]

/-- A text that begins with a column or with a `$` begins a reference. -/
theorem opens_colText (col : ℕ) (fixed : Bool) (text : List Char) :
    ∀ ch ∈ (colText col fixed ++ text).head?, OpensReference table ch := by
  cases fixed with
  | true =>
    intro ch hch
    cases hch
    exact .inl (by decide)
  | false => exact fun ch hch => opensReference_letter table (head_indexToCol col text ch hch)

theorem opens_text (rest : List Char) (ref : Reference table) (hplain : ref.startsWithRow = false) :
    ∀ ch ∈ (ref.text ++ rest).head?, OpensReference table ch := by
  obtain ⟨place, area⟩ := ref
  cases place with
  | here =>
    cases area with
    | cell point =>
      simp only [Reference.text, Place.text, List.nil_append, Area.text, pointText,
        List.append_assoc]
      exact opens_colText table _ _ _
    | rect start finish =>
      simp only [Reference.text, Place.text, List.nil_append, Area.text, pointText,
        List.append_assoc]
      exact opens_colText table _ _ _
    | cols start finish =>
      simp only [Reference.text, Place.text, List.nil_append, Area.text, List.append_assoc]
      exact opens_colText table _ _ _
    | rows start finish =>
      have habs : start.absRow = true := by simpa [Reference.startsWithRow] using hplain
      intro ch hch
      simp only [Reference.text, Place.text, Area.text, rowText, habs, dollarText] at hch
      cases hch
      exact .inl (by decide)
  | plain sheet =>
    intro ch hch
    cases hch
    exact .inr sheet.starts
  | quoted sheet =>
    intro ch hch
    cases hch
    exact .inl (by decide)
  | book number bang =>
    intro ch hch
    cases hch
    exact .inl (by decide)
  | bookPlain number sheet =>
    intro ch hch
    cases hch
    exact .inl (by decide)
  | bookQuoted number sheet =>
    intro ch hch
    cases hch
    exact .inl (by decide)

theorem rowPair_of_head (row : ℕ) (fixed : Bool)
    (h : ∀ ch ∈ rest.head?, isDecimal table ch = false ∧ ch ≠ ':') :
    rowPair table (rowText row fixed ++ rest) = none := by
  unfold rowPair
  rw [rowText, List.append_assoc, scanDollar_text _ fun ch hch =>
    ne_of_class (head_toString row _ ch hch) (by decide)]
  simp only [Option.bind_eq_bind]
  rw [scanRow_toString table _ fun ch hch => (h ch hch).1, Option.bind_some]
  simp only
  split
  · rename_i left
    exact absurd rfl (h ':' rfl).2
  · rfl

theorem scan_dollarRow (row : ℕ) (h : Delimited rest) :
    scan table floats (rowText row true ++ rest) = .error .rejected := by
  have hdollar := symbol_of_ascii table '$' (by decide)
  have hstop : ∀ ch ∈ rest.head?, isDecimal table ch = false ∧ ch ≠ ':' :=
    fun ch hch => ⟨h.decimal table ch hch, h.head_ne _ (by decide) ch hch⟩
  have hbody : scanRangeBody table (rowText row true ++ rest) = none := by
    unfold scanRangeBody
    rw [gridCell_rowText, colPair_rowText, rowPair_of_head table row true hstop]
  have hsheet : unquotedSheet table (rowText row true ++ rest) = none := by
    apply unquotedSheet_of_head
    have hname : isNameChar table '$' = false := isNameChar_dollar table
    simp [rowText, dollarText, hname]
  have hreference : scanReference (ν := ν) table (rowText row true ++ rest) = none := by
    unfold scanReference
    split
    · rename_i htext
      cases htext
    · rename_i htext
      cases htext
    · rw [hsheet, hbody]
      rfl
  have htext : rowText row true ++ rest = '$' :: ((toString row).toList ++ rest) := by
    simp [rowText, dollarText]
  rw [htext] at hreference ⊢
  apply scan_of_error
  have hnumber : startsNumber table '.' '$' ((toString row).toList ++ rest) = false := by
    simp [startsNumber, hdollar.digit]
  unfold scanToken
  rw [if_neg (by simp [hdollar.space]), if_neg (by decide), if_neg (by decide),
    if_neg (Bool.eq_false_iff.mp hnumber), if_pos (.inl (by decide)), hreference]
  simp only
  rw [if_neg (by simp [hdollar.startsName table (by decide)])]

theorem scan_reference (ref : Reference table) (h : Delimited rest) :
    scan table floats (ref.text ++ rest) = emit (ref.tokens floats) (scan table floats rest) := by
  by_cases hplain : ref.startsWithRow = false
  · have htokens : ref.tokens floats =
        some [.ref (.ref ref.place.external ref.place.sheet ref.area.body)] := by
      obtain ⟨place, area⟩ := ref
      cases place with
      | here =>
        cases area with
        | rows start finish =>
          have habs : start.absRow = true := by simpa [Reference.startsWithRow] using hplain
          simp [Reference.tokens, habs]
        | _ => rfl
      | _ => rfl
    have hreference := scanReference_text (ν := ν) table ref h
    have hopens := opens_text table rest ref hplain
    cases htext : ref.text ++ rest with
    | nil =>
      rw [htext] at hreference
      cases hreference
    | cons ch left =>
      rw [htext] at hreference hopens
      rw [htokens]
      exact scan_reference_of_head table floats (hopens ch rfl) hreference
  · obtain ⟨place, area⟩ := ref
    cases place with
    | here =>
      cases area with
      | rows start finish =>
        have habs : start.absRow = false := by simpa [Reference.startsWithRow] using hplain
        have htext : (⟨.here, .rows start finish⟩ : Reference table).text ++ rest =
            (rowDecimal start.row).text ++ ':' :: (rowText finish.row finish.absRow ++ rest) := by
          simp [Reference.text, Place.text, Area.text, text_rowDecimal, rowText, habs, dollarText]
        have hcolon : scanMark (ν := ν) ',' ':' (rowText finish.row finish.absRow ++ rest) =
            .ok (.colon, rowText finish.row finish.absRow ++ rest) := rfl
        rw [htext, scan_number table floats _ (endsNumber_colon table _),
          scan_mark table floats (by decide) hcolon]
        cases hend : finish.absRow with
        | true =>
          rw [scan_dollarRow table floats _ h]
          simp [Reference.tokens, habs, hend, emit]
        | false =>
          have hrow : rowText finish.row false = (rowDecimal finish.row).text := by
            rw [text_rowDecimal]
            rfl
          rw [hrow, scan_number table floats _ (h.endsNumber table), ← emit_joined, ← emit_joined]
          simp [Reference.tokens, habs, hend, joined]
      | _ => exact absurd rfl hplain
    | _ => exact absurd rfl hplain

end References

section Trees

variable (table) (floats : DecimalFloats ν) {rest : List Char}

theorem emit_nil (tokens : Except Failure (List (Token ν))) : emit (some []) tokens = tokens := by
  cases tokens with
  | error failure => rfl
  | ok others => rfl

theorem scan_intercalate {α : Type} {mark : Char} {token : Token ν} (hmark : mark ∈ closers)
    (hscan : ∀ rest, scan table floats (mark :: rest) =
      emit (some [token]) (scan table floats rest))
    (text : α → List Char) (tokens : α → List (Token ν)) (items : List α)
    (hitem : ∀ item ∈ items, ∀ rest, Delimited rest → scan table floats (text item ++ rest) =
      emit (some (tokens item)) (scan table floats rest)) (h : Delimited rest) :
    scan table floats ([mark].intercalate (items.map text) ++ rest) =
      emit (some ([token].intercalate (items.map tokens))) (scan table floats rest) := by
  induction items with
  | nil => exact (emit_nil _).symm
  | cons first items ih =>
    have hfirst := hitem first List.mem_cons_self
    have hitems := ih fun item hmem => hitem item (List.mem_cons_of_mem _ hmem)
    cases items with
    | nil =>
      simp only [List.map_cons, List.map_nil, List.intercalate_singleton]
      exact hfirst rest h
    | cons second items =>
      simp only [List.map_cons, List.intercalate_cons_cons, List.append_assoc, List.cons_append,
        List.nil_append] at hitems ⊢
      rw [hfirst _ (delimited_cons _ hmark _), hscan, hitems, ← emit_joined, ← emit_joined]
      simp [joined]

theorem scan_sign (minus : Option Bool) (text : List Char) :
    scan table floats (signText minus ++ text) =
      emit (some (minus.map signToken).toList) (scan table floats text) := by
  match minus with
  | none => exact (emit_nil _).symm
  | some true => exact scan_mark table floats (by decide) rfl
  | some false => exact scan_mark table floats (by decide) rfl

theorem scan_constant (constant : Constant) (h : Delimited rest) :
    scan table floats (constant.text ++ rest) =
      emit (some (constant.tokens floats)) (scan table floats rest) := by
  cases constant with
  | number minus value marked =>
    have hmark : scan table floats (percentText marked ++ rest) =
        emit (some (if marked then [.percent] else [])) (scan table floats rest) := by
      cases marked with
      | true => exact scan_mark table floats (by decide) rfl
      | false => exact (emit_nil _).symm
    have hrest : Delimited (percentText marked ++ rest) := by
      cases marked with
      | true => exact delimited_cons _ (by decide) rest
      | false => exact h
    simp only [Constant.text, List.append_assoc]
    rw [scan_sign, scan_number table floats value (hrest.endsNumber table), hmark, ← emit_joined,
      ← emit_joined]
    simp [Constant.tokens, joined]
  | string value => exact scan_string table floats value h
  | error value => exact scan_error table floats value
  | boolean value => exact scan_boolean table floats value h

theorem scan_rows (rows : List (List Constant)) (h : Delimited rest) :
    scan table floats (rowsText rows ++ rest) =
      emit (some (rowsTokens floats rows)) (scan table floats rest) := by
  apply scan_intercalate table floats (by decide) (fun rest => scan_mark table floats (by decide) rfl)
    _ _ rows _ h
  intro row hrow rest hrest
  exact scan_intercalate table floats (by decide)
    (fun rest => scan_mark table floats (by decide) rfl) _ _ row
    (fun constant _ rest hrest => scan_constant table floats constant hrest) hrest

theorem FunctionName.before (func : FunctionName table) (rest : List Char) :
    WordBefore table func.text ('(' :: rest) := by
  have hprefixes : ∀ ch ∈ func.prefixes.flatMap FuncPrefix.text, isNameChar table ch = true := by
    intro ch hch
    obtain ⟨stored, -, hch⟩ := List.mem_flatMap.mp hch
    have hascii : (stored.text.all fun ch => ch.isAlpha || ch == '_' || ch == '.') = true := by
      cases stored
      · decide
      · decide
    have hkind := List.all_eq_true.mp hascii ch hch
    simp only [Bool.or_eq_true, beq_iff_eq] at hkind
    rcases hkind with (halpha | rfl) | rfl
    · exact isNameChar_of_isWord table (isWord_of_isAlpha table halpha)
    · simp [isNameChar, isWord]
    · simp [isNameChar]
  exact
    { starts := fun ch hch => by
        unfold FunctionName.text at hch
        cases hleading : func.prefixes with
        | nil =>
          rw [hleading] at hch
          cases hch
          exact func.starts
        | cons stored others =>
          rw [hleading] at hch
          have hline : ch = '_' := by
            cases stored
            · cases hch
              rfl
            · cases hch
              rfl
          simp [startsName, hline]
      nonempty := by simp [FunctionName.text, Word.text]
      name := fun ch hch => by
        rcases List.mem_append.mp hch with hch | hch
        · exact hprefixes ch hch
        · exact func.toWord.all_name ch hch
      ends := fun ch hch => by
        cases hch
        exact ⟨not_isNameChar_of_symbol table (by decide) (by decide) (by decide), by decide,
          by decide, by decide⟩ }

theorem endsToken_paren (rest : List Char) : endsToken table ('(' :: rest) = false := by
  simp [endsToken]

theorem scan_func (func : FunctionName table) (text : List Char) :
    scan table floats (func.text ++ '(' :: text) =
      emit (some [.name func.text, .lparen]) (scan table floats text) := by
  have hparen : scanMark (ν := ν) ',' '(' text = .ok (.lparen, text) := rfl
  rw [scan_word table floats (func.before table text) (.inr (endsToken_paren table text)),
    scan_mark table floats (by decide) hparen, ← emit_joined]
  rfl

theorem head_text (rest : List Char) (tree : Tree table) :
    ∀ ch ∈ (tree.text ++ rest).head?, ch ≠ '=' ∧ ch ≠ '>' := by
  have hstart (ch : Char) (hch : startsName table ch = true) : ch ≠ '=' ∧ ch ≠ '>' :=
    ⟨ne_of_class hch (not_startsName_of_symbol table (by decide) (by decide)),
      ne_of_class hch (not_startsName_of_symbol table (by decide) (by decide))⟩
  have hdigit (ch : Char) (hch : ch.isDigit = true) : ch ≠ '=' ∧ ch ≠ '>' :=
    ⟨ne_of_class hch (by decide), ne_of_class hch (by decide)⟩
  intro ch hch
  cases tree with
  | number value =>
    obtain ⟨first, left, htext, hfirst, -⟩ := exists_head_decimal table value rest
    rw [Tree.text, htext] at hch
    cases hch
    rcases hfirst with hfirst | rfl
    · exact hdigit _ hfirst
    · decide
  | string value =>
    cases hch
    decide
  | error value =>
    obtain ⟨text, hknown⟩ := value
    simp only [errors, List.mem_cons, List.not_mem_nil, or_false] at hknown
    rcases hknown with rfl | rfl | rfl | rfl | rfl | rfl | rfl | rfl
    all_goals
      cases hch
      decide
  | boolean value =>
    cases value
    all_goals
      cases hch
      decide
  | name word =>
    cases hch
    exact hstart _ word.starts
  | reference ref =>
    by_cases hplain : ref.startsWithRow = false
    · rcases opens_text table rest ref hplain ch hch with hmark | hstarts
      · simp only [List.mem_cons, List.not_mem_nil, or_false] at hmark
        rcases hmark with rfl | rfl | rfl
        all_goals decide
      · exact hstart ch hstarts
    · obtain ⟨place, area⟩ := ref
      cases place with
      | here =>
        cases area with
        | rows start finish =>
          have habs : start.absRow = false := by simpa [Reference.startsWithRow] using hplain
          simp only [Tree.text, Reference.text, Place.text, Area.text, rowText, habs, dollarText,
            List.nil_append, List.append_assoc, Bool.false_eq_true, if_false] at hch
          exact hdigit ch (head_toString _ _ ch hch)
        | _ => exact absurd rfl hplain
      | _ => exact absurd rfl hplain
  | array rows =>
    cases hch
    decide
  | call func args =>
    have hword := (func.before table (Tree.argsText args ++ [')'] ++ rest)).starts
    have hne := (func.before table (Tree.argsText args ++ [')'] ++ rest)).nonempty
    obtain ⟨first, others, hfunc⟩ := List.exists_cons_of_ne_nil hne
    rw [Tree.text, hfunc] at hch
    cases hch
    exact hstart _ (hword _ (by rw [hfunc]; rfl))
  | unary minus expr =>
    cases hch
    decide
  | percent expr =>
    cases hch
    decide
  | bin kind left right =>
    cases hch
    decide

theorem scan_lparen (text : List Char) :
    scan table floats ('(' :: text) = emit (some [.lparen]) (scan table floats text) :=
  scan_mark table floats (by decide) rfl

theorem scan_rparen (text : List Char) :
    scan table floats (')' :: text) = emit (some [.rparen]) (scan table floats text) :=
  scan_mark table floats (by decide) rfl

mutual

theorem scan_tree (tree : Tree table) (rest : List Char) (h : Delimited rest) :
    scan table floats (tree.text ++ rest) = emit (tree.tokens floats) (scan table floats rest) := by
  have hclose := delimited_cons ')' (by decide) rest
  match tree with
  | .number value => exact scan_number table floats value (h.endsNumber table)
  | .string value => exact scan_string table floats value h
  | .error value => exact scan_error table floats value
  | .boolean value => exact scan_boolean table floats value h
  | .name word => exact scan_name table floats word h
  | .reference ref => exact scan_reference table floats ref h
  | .array rows =>
    have htext : (Tree.array rows : Tree table).text ++ rest =
        '{' :: (rowsText rows.rows ++ '}' :: rest) := by
      simp [Tree.text, ArrayConstant.text]
    have hopen : scanMark (ν := ν) ',' '{' (rowsText rows.rows ++ '}' :: rest) =
        .ok (.lbrace, rowsText rows.rows ++ '}' :: rest) := rfl
    have hend : scanMark (ν := ν) ',' '}' rest = .ok (.rbrace, rest) := rfl
    rw [htext, scan_mark table floats (by decide) hopen,
      scan_rows table floats rows.rows (delimited_cons _ (by decide) rest),
      scan_mark table floats (by decide) hend, ← emit_joined, ← emit_joined]
    rfl
  | .call func args =>
    have htext : (Tree.call func args).text ++ rest =
        func.text ++ '(' :: (Tree.argsText args ++ ')' :: rest) := by
      simp [Tree.text, parens]
    rw [htext, scan_func, scan_args args _ hclose, scan_rparen, Tree.tokens, emit_joined,
      emit_joined]
  | .unary minus expr =>
    have htext : (Tree.unary minus expr).text ++ rest =
        '(' :: (signText (some minus) ++ (expr.text ++ ')' :: rest)) := by
      simp [Tree.text, parens]
    rw [htext, scan_lparen, scan_sign, scan_tree expr _ hclose, scan_rparen, Tree.tokens,
      emit_joined, emit_joined, ← emit_joined (some [.lparen])]
    rfl
  | .percent expr =>
    have htext : (Tree.percent expr).text ++ rest = '(' :: (expr.text ++ '%' :: ')' :: rest) := by
      simp [Tree.text, parens]
    have hmark : scanMark (ν := ν) ',' '%' (')' :: rest) = .ok (.percent, ')' :: rest) := rfl
    rw [htext, scan_lparen, scan_tree expr _ (delimited_cons _ (by decide) _),
      scan_mark table floats (by decide) hmark, scan_rparen, Tree.tokens, emit_joined, emit_joined,
      ← emit_joined (some [.percent])]
    rfl
  | .bin kind left right =>
    have htext : (Tree.bin kind left right).text ++ rest =
        '(' :: (left.text ++ (opText kind ++ (right.text ++ ')' :: rest))) := by
      simp [Tree.text, parens]
    have hop : Delimited (opText kind ++ (right.text ++ ')' :: rest)) := by
      cases kind
      all_goals exact delimited_cons _ (by decide) _
    rw [htext, scan_lparen, scan_tree left _ hop, scan_op table floats kind (head_text table _ right),
      scan_tree right _ hclose, scan_rparen, Tree.tokens, emit_joined, emit_joined, emit_joined,
      emit_joined]

theorem scan_args (args : List (Tree table)) (rest : List Char) (h : Delimited rest) :
    scan table floats (Tree.argsText args ++ rest) =
      emit (Tree.argsTokens floats args) (scan table floats rest) := by
  match args with
  | [] => exact (emit_nil _).symm
  | [arg] => exact scan_tree arg rest h
  | arg :: second :: args =>
    have hsep : scanMark (ν := ν) ',' ',' (Tree.argsText (second :: args) ++ rest) =
        .ok (.sep, Tree.argsText (second :: args) ++ rest) := rfl
    have htext : Tree.argsText (arg :: second :: args) ++ rest =
        arg.text ++ ',' :: (Tree.argsText (second :: args) ++ rest) := by
      simp [Tree.argsText]
    have htokens : Tree.argsTokens floats (arg :: second :: args) =
        joined (joined (arg.tokens floats) (some [.sep])) (Tree.argsTokens floats (second :: args)) :=
      rfl
    rw [htext, scan_tree arg _ (delimited_cons _ (by decide) _),
      scan_mark table floats (by decide) hsep, scan_args (second :: args) rest h, htokens,
      emit_joined, emit_joined]

end

end Trees

end FinanceContext.Formula
