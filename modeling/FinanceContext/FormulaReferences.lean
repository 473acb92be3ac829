import FinanceContext.FormulaWords

namespace FinanceContext.Formula

open OperatorParsing Csr

section Columns

def lastCol : ℕ → ℕ
  | 0 => 0
  | count + 1 => 26 * lastCol count + 26

theorem length_colDigits (count fuel value : ℕ) (h : value ≤ lastCol count) :
    (colDigits fuel value).length ≤ count := by
  induction fuel generalizing count value with
  | zero => simp [colDigits]
  | succ fuel ih =>
    rw [colDigits]
    split_ifs with hzero
    · simp
    · cases count with
      | zero =>
        rw [lastCol] at h
        omega
      | succ count =>
        rw [lastCol] at h
        have hrest := ih count ((value - 1) / 26) (by omega)
        rw [List.length_append, List.length_singleton]
        omega

theorem length_indexToCol {col : ℕ} (h : inGrid col 1 = true) : (indexToCol col).length ≤ 3 := by
  simp only [inGrid, Bool.and_eq_true, decide_eq_true_eq] at h
  have hmax : col ≤ 16384 := h.1.1.2
  apply length_colDigits
  simp only [lastCol]
  omega

theorem inGrid_col {col row : ℕ} (h : inGrid col row = true) : inGrid col 1 = true := by
  simp only [inGrid, Bool.and_eq_true, decide_eq_true_eq] at h ⊢
  exact ⟨⟨h.1.1, Nat.le_refl 1⟩, by decide⟩

theorem columnOf_indexToCol {col : ℕ} (h : inGrid col 1 = true) :
    columnOf (indexToCol col) = col := by
  have hupper : (indexToCol col).map Char.toUpper = indexToCol col :=
    (List.map_congr_left fun _ hch => upper_colDigit hch).trans (List.map_id _)
  simp only [inGrid, Bool.and_eq_true, decide_eq_true_eq] at h
  rw [columnOf, hupper, colToIndex_indexToCol h.1.1.1]

end Columns

section Scanners

variable (table : TextTable)

theorem scanDollar_text (fixed : Bool) {text : List Char} (h : ∀ ch ∈ text.head?, ch ≠ '$') :
    scanDollar (dollarText fixed ++ text) = (fixed, text) := by
  cases fixed with
  | true => rfl
  | false => exact scanDollar_of_head h

theorem scanLetters_indexToCol {col : ℕ} (h : inGrid col 1 = true) {rest : List Char}
    (hrest : ∀ ch ∈ rest.head?, ch.isAlpha = false) :
    scanLetters (indexToCol col ++ rest) = some (indexToCol col, rest) := by
  have hlen := length_indexToCol h
  have htake : ((indexToCol col ++ rest).take 3).takeWhile Char.isAlpha = indexToCol col := by
    rw [List.take_append, List.take_of_length_le hlen]
    apply takeWhile_run (fun ch hch => isAlpha_of_mem_indexToCol hch)
    intro ch hch
    rw [List.head?_take] at hch
    split_ifs at hch
    · cases hch
    · exact hrest ch hch
  rw [scanLetters, htake, if_neg (by simp [indexToCol_ne_nil col]), List.drop_left]

theorem scanLetters_of_head {text : List Char} (h : ∀ ch ∈ text.head?, ch.isAlpha = false) :
    scanLetters text = none := by
  have htake : (text.take 3).takeWhile Char.isAlpha = [] := by
    cases text with
    | nil => rfl
    | cons ch rest => simp [h ch rfl]
  rw [scanLetters, htake]
  rfl

theorem isDecimal_of_mem_toString {row : ℕ} {ch : Char} (h : ch ∈ (toString row).toList) :
    isDecimal table ch = true := isDecimal_of_isDigit table (isDigit_of_mem_toString h)

theorem scanRow_toString (row : ℕ) {rest : List Char}
    (hrest : ∀ ch ∈ rest.head?, isDecimal table ch = false) :
    scanRow table ((toString row).toList ++ rest) = some (row, rest) := by
  have hrow : ∀ ch ∈ (toString row).toList, isDecimal table ch = true :=
    fun ch hch => isDecimal_of_mem_toString table hch
  rw [scanRow, takeWhile_run hrow hrest, dropWhile_run hrow hrest,
    if_neg (by simp), readInt_toString]

theorem scanRow_of_head {text : List Char} (h : ∀ ch ∈ text.head?, isDecimal table ch = false) :
    scanRow table text = none := by
  rw [scanRow, ← List.nil_append text, takeWhile_run (List.forall_mem_nil _) h]
  rfl

theorem decimal_head_of_endsToken {rest : List Char} (h : endsToken table rest = true) :
    ∀ ch ∈ rest.head?, isDecimal table ch = false := by
  cases rest with
  | nil => exact fun ch hch => by cases hch
  | cons first rest =>
    intro ch hch
    cases hch
    by_contra hdecimal
    have hname := isNameChar_of_isWord table
      (isWord_of_isDecimal table (Bool.eq_true_of_not_eq_false hdecimal))
    rw [endsToken, hname] at h
    cases h

theorem endsToken_colon (rest : List Char) : endsToken table (':' :: rest) = true := by
  have hname := isNameChar_colon table
  simp [endsToken, hname]

theorem head_toString (row : ℕ) (rest : List Char) :
    ∀ ch ∈ ((toString row).toList ++ rest).head?, ch.isDigit = true := by
  intro ch hch
  obtain ⟨first, others, hrow⟩ := List.exists_cons_of_ne_nil (toString_ne_nil row)
  rw [hrow] at hch
  cases hch
  exact isDigit_of_mem_toString (by rw [hrow]; exact List.mem_cons_self)

theorem head_indexToCol (col : ℕ) (rest : List Char) :
    ∀ ch ∈ (indexToCol col ++ rest).head?, ch.isAlpha = true := by
  intro ch hch
  obtain ⟨first, others, hcol⟩ := List.exists_cons_of_ne_nil (indexToCol_ne_nil col)
  rw [hcol] at hch
  cases hch
  exact isAlpha_of_mem_indexToCol (by rw [hcol]; exact List.mem_cons_self)

theorem not_isAlpha_of_isDigit {ch : Char} (h : ch.isDigit = true) : ch.isAlpha = false := by
  have hrange := digit_range h
  by_contra halpha
  have hrange' := alpha_range (Bool.eq_true_of_not_eq_false halpha)
  omega

theorem head_rowText (row : ℕ) (fixed : Bool) (rest : List Char) :
    ∀ ch ∈ (rowText row fixed ++ rest).head?, ch.isAlpha = false := by
  cases fixed with
  | true =>
    intro ch hch
    cases hch
    rfl
  | false => exact fun ch hch => not_isAlpha_of_isDigit (head_toString row rest ch hch)

end Scanners

section Areas

variable (table : TextTable)

theorem cellBody_text (point : GridCell) {rest : List Char} (h : endsToken table rest = true) :
    cellBody table (pointText point.toCellPoint ++ rest) = some (point.toCellPoint, rest) := by
  have hcol := inGrid_col point.inside
  have htext : pointText point.toCellPoint ++ rest = dollarText point.absCol ++
      (indexToCol point.col ++ (rowText point.row point.absRow ++ rest)) := by
    simp [pointText, colText]
  have hrow : rowText point.row point.absRow ++ rest =
      dollarText point.absRow ++ ((toString point.row).toList ++ rest) := by
    simp [rowText]
  unfold cellBody
  rw [htext, scanDollar_text _ fun ch hch =>
    ne_of_class (head_indexToCol point.col _ ch hch) (by decide)]
  simp only [Option.bind_eq_bind]
  rw [scanLetters_indexToCol hcol (head_rowText _ _ _), Option.bind_some]
  simp only
  rw [hrow, scanDollar_text _ fun ch hch =>
    ne_of_class (head_toString point.row _ ch hch) (by decide)]
  simp only
  rw [scanRow_toString table _ (decimal_head_of_endsToken table h), Option.bind_some]
  simp only
  rw [if_pos h, columnOf_indexToCol hcol]

theorem gridCell_text (point : GridCell) {rest : List Char} (h : endsToken table rest = true) :
    gridCell table (pointText point.toCellPoint ++ rest) = some (point.toCellPoint, rest) := by
  unfold gridCell
  simp only [Option.bind_eq_bind]
  rw [cellBody_text table point h, Option.bind_some]
  simp only
  rw [if_pos point.inside]

theorem gridCell_colText (col : GridCol) (rest : List Char)
    (hletter : ∀ ch ∈ rest.head?, ch.isAlpha = false)
    (h : ∀ ch ∈ rest.head?, isDecimal table ch = false ∧ ch ≠ '$') :
    gridCell table (colText col.col col.absCol ++ rest) = none := by
  have hbody : cellBody table (colText col.col col.absCol ++ rest) = none := by
    unfold cellBody
    rw [colText, List.append_assoc, scanDollar_text _ fun ch hch =>
      ne_of_class (head_indexToCol col.col _ ch hch) (by decide)]
    simp only [Option.bind_eq_bind]
    rw [scanLetters_indexToCol col.inside hletter, Option.bind_some]
    simp only
    rw [scanDollar_of_head fun ch hch => (h ch hch).2]
    simp only
    rw [scanRow_of_head table fun ch hch => (h ch hch).1]
    rfl
  rw [gridCell, hbody]
  rfl

theorem gridCell_rowText (row : ℕ) (fixed : Bool) (rest : List Char) :
    gridCell table (rowText row fixed ++ rest) = none := by
  have hbody : cellBody table (rowText row fixed ++ rest) = none := by
    unfold cellBody
    rw [rowText, List.append_assoc, scanDollar_text _ fun ch hch =>
      ne_of_class (head_toString row _ ch hch) (by decide)]
    simp only [Option.bind_eq_bind]
    rw [scanLetters_of_head fun ch hch => not_isAlpha_of_isDigit (head_toString row _ ch hch)]
    rfl
  rw [gridCell, hbody]
  rfl

theorem colPair_rowText (row : ℕ) (fixed : Bool) (rest : List Char) :
    colPair table (rowText row fixed ++ rest) = none := by
  unfold colPair
  rw [rowText, List.append_assoc, scanDollar_text _ fun ch hch =>
    ne_of_class (head_toString row _ ch hch) (by decide)]
  simp only [Option.bind_eq_bind]
  rw [scanLetters_of_head fun ch hch => not_isAlpha_of_isDigit (head_toString row _ ch hch)]
  rfl

theorem alpha_head_of_endsToken {rest : List Char} (h : endsToken table rest = true) :
    ∀ ch ∈ rest.head?, ch.isAlpha = false := by
  cases rest with
  | nil => exact fun ch hch => by cases hch
  | cons first rest =>
    intro ch hch
    cases hch
    by_contra halpha
    have hname := isNameChar_of_isWord table
      (isWord_of_isAlpha table (Bool.eq_true_of_not_eq_false halpha))
    rw [endsToken, hname] at h
    cases h

theorem colPair_text (start finish : GridCol) {rest : List Char}
    (h : endsToken table rest = true) :
    colPair table (colText start.col start.absCol ++ ':' ::
      (colText finish.col finish.absCol ++ rest)) =
        some (.cols start.toColEnd finish.toColEnd, rest) := by
  have hcolon : ∀ ch ∈ (':' :: (colText finish.col finish.absCol ++ rest)).head?,
      ch.isAlpha = false := by
    intro ch hch
    cases hch
    rfl
  have hgrid : (endsToken table rest && inGrid start.col 1 && inGrid finish.col 1) = true := by
    rw [h, start.inside, finish.inside]
    rfl
  unfold colPair
  rw [colText, List.append_assoc, scanDollar_text _ fun ch hch =>
    ne_of_class (head_indexToCol start.col _ ch hch) (by decide)]
  simp only [Option.bind_eq_bind]
  rw [scanLetters_indexToCol start.inside hcolon, Option.bind_some]
  simp only
  rw [colText, List.append_assoc, scanDollar_text _ fun ch hch =>
    ne_of_class (head_indexToCol finish.col _ ch hch) (by decide)]
  simp only
  rw [scanLetters_indexToCol finish.inside (alpha_head_of_endsToken table h), Option.bind_some]
  simp only
  rw [columnOf_indexToCol start.inside, columnOf_indexToCol finish.inside, if_pos hgrid]

theorem rowPair_text (start finish : GridRow) {rest : List Char}
    (h : ∀ ch ∈ rest.head?, isDecimal table ch = false) :
    rowPair table (rowText start.row start.absRow ++ ':' ::
      (rowText finish.row finish.absRow ++ rest)) =
        some (.rows start.toRowEnd finish.toRowEnd, rest) := by
  have hcolon : ∀ ch ∈ (':' :: (rowText finish.row finish.absRow ++ rest)).head?,
      isDecimal table ch = false := by
    intro ch hch
    cases hch
    exact (symbol_of_ascii table _ (by decide)).decimal
  unfold rowPair
  rw [rowText, List.append_assoc, scanDollar_text _ fun ch hch =>
    ne_of_class (head_toString start.row _ ch hch) (by decide)]
  simp only [Option.bind_eq_bind]
  rw [scanRow_toString table _ hcolon, Option.bind_some]
  simp only
  rw [rowText, List.append_assoc, scanDollar_text _ fun ch hch =>
    ne_of_class (head_toString finish.row _ ch hch) (by decide)]
  simp only
  rw [scanRow_toString table _ h, Option.bind_some]

end Areas

section Bodies

variable (table : TextTable)

theorem head_dropWhile_append {p : Char → Bool} {mark : Char} {text rest : List Char}
    (htext : mark ∉ text) (hrest : ∀ ch ∈ rest.head?, p ch = false ∧ ch ≠ mark) :
    ∀ ch ∈ ((text ++ rest).dropWhile p).head?, ch ≠ mark := by
  induction text with
  | nil =>
    have hdrop := dropWhile_run (List.forall_mem_nil _) fun ch hch => (hrest ch hch).1
    rw [hdrop]
    exact fun ch hch => (hrest ch hch).2
  | cons first text ih =>
    rw [List.cons_append, List.dropWhile_cons]
    split_ifs
    · exact ih fun hmark => htext (List.mem_cons_of_mem _ hmark)
    · intro ch hch
      cases hch
      exact fun he => htext (he ▸ List.mem_cons_self)

def isAreaChar (ch : Char) : Bool := ch.isAlpha || ch.isDigit || ch == '$' || ch == ':'

theorem mem_dollarText {fixed : Bool} {ch : Char} (h : ch ∈ dollarText fixed) :
    isAreaChar ch = true := by
  cases fixed with
  | true =>
    rw [List.mem_singleton.mp h]
    rfl
  | false => cases h

theorem mem_colText {col : ℕ} {fixed : Bool} {ch : Char} (h : ch ∈ colText col fixed) :
    isAreaChar ch = true := by
  rcases List.mem_append.mp h with h | h
  · exact mem_dollarText h
  · simp [isAreaChar, isAlpha_of_mem_indexToCol h]

theorem mem_rowText {row : ℕ} {fixed : Bool} {ch : Char} (h : ch ∈ rowText row fixed) :
    isAreaChar ch = true := by
  rcases List.mem_append.mp h with h | h
  · exact mem_dollarText h
  · simp [isAreaChar, isDigit_of_mem_toString h]

theorem mem_pointText {point : CellPoint} {ch : Char} (h : ch ∈ pointText point) :
    isAreaChar ch = true := by
  rcases List.mem_append.mp h with h | h
  · exact mem_colText h
  · exact mem_rowText h

theorem mem_areaText (area : Area) {ch : Char} (h : ch ∈ area.text) : isAreaChar ch = true := by
  cases area with
  | cell point => exact mem_pointText h
  | rect start finish =>
    rcases List.mem_append.mp h with h | h
    · exact mem_pointText h
    · rcases List.mem_cons.mp h with rfl | h
      · rfl
      · exact mem_pointText h
  | cols start finish =>
    rcases List.mem_append.mp h with h | h
    · exact mem_colText h
    · rcases List.mem_cons.mp h with rfl | h
      · rfl
      · exact mem_colText h
  | rows start finish =>
    rcases List.mem_append.mp h with h | h
    · exact mem_rowText h
    · rcases List.mem_cons.mp h with rfl | h
      · rfl
      · exact mem_rowText h

theorem notMem_areaText (mark : Char) (hmark : isAreaChar mark = false) (area : Area) :
    mark ∉ area.text := fun h => by
  rw [mem_areaText area h] at hmark
  cases hmark

theorem Delimited.bang {rest : List Char} (h : Delimited rest) :
    ∀ ch ∈ rest.head?, isNameChar table ch = false ∧ ch ≠ '!' :=
  fun ch hch => ⟨h.nameChar table ch hch, h.head_ne _ (by decide) ch hch⟩

theorem unquotedSheet_area (area : Area) {rest : List Char} (h : Delimited rest) :
    unquotedSheet table (area.text ++ rest) = none :=
  unquotedSheet_of_head (head_dropWhile_append (notMem_areaText _ (by decide) area) (h.bang table))

theorem head_area_ne (area : Area) (rest : List Char) (mark : Char)
    (hmark : isAreaChar mark = false) :
    ∀ ch ∈ (area.text ++ rest).head?, ch ≠ mark := by
  have hne : area.text ≠ [] := by
    cases area with
    | cell point => simp [Area.text, pointText, rowText]
    | rect start finish => simp [Area.text]
    | cols start finish => simp [Area.text]
    | rows start finish => simp [Area.text]
  obtain ⟨first, others, harea⟩ := List.exists_cons_of_ne_nil hne
  intro ch hch
  rw [harea] at hch
  cases hch
  have hfirst := mem_areaText area (harea ▸ List.mem_cons_self)
  exact ne_of_class hfirst hmark

theorem skipSheetQualifier_area (area : Area) {rest : List Char} (h : Delimited rest) :
    skipSheetQualifier table (area.text ++ rest) = area.text ++ rest := by
  unfold skipSheetQualifier
  split
  · rename_i htext
    exact absurd rfl (head_area_ne area rest '\'' (by decide) '\'' (by rw [htext]; rfl))
  · rw [unquotedSheet_area table area h]

theorem scanRangeBody_area (area : Area) {rest : List Char} (h : Delimited rest) :
    scanRangeBody table (area.text ++ rest) = some (area.body, rest) := by
  have hends := h.endsToken table
  cases area with
  | cell point =>
    have hcell := gridCell_text table point hends
    unfold scanRangeBody
    rw [Area.text, hcell]
    cases rest with
    | nil => rfl
    | cons ch rest =>
      have hcolon : ch ≠ ':' := h.head_ne _ (by decide) ch rfl
      split
      · rename_i he
        cases he
        exact absurd rfl hcolon
      · rename_i he
        cases he
        rfl
      · rename_i he
        cases he
  | rect start finish =>
    have hstart := gridCell_text table start
      (endsToken_colon table (pointText finish.toCellPoint ++ rest))
    have hskip := skipSheetQualifier_area table (.cell finish) h
    have hfinish := gridCell_text table finish hends
    unfold scanRangeBody
    rw [Area.text, List.append_assoc, List.cons_append, hstart]
    simp only
    rw [Area.text] at hskip
    rw [hskip, hfinish]
    rfl
  | cols start finish =>
    have hcols := colPair_text table start finish hends
    have hgrid := gridCell_colText table start
      (':' :: (colText finish.col finish.absCol ++ rest))
      (fun ch hch => by cases hch; rfl)
      (fun ch hch => by
        cases hch
        exact ⟨(symbol_of_ascii table _ (by decide)).decimal, by decide⟩)
    unfold scanRangeBody
    rw [Area.text, List.append_assoc, List.cons_append, hgrid, hcols]
    rfl
  | rows start finish =>
    have hrows := rowPair_text table start finish (h.decimal table)
    unfold scanRangeBody
    rw [Area.text, List.append_assoc, List.cons_append, gridCell_rowText, colPair_rowText, hrows]
    rfl

end Bodies

section Places

variable (table : TextTable) {ν : Type}

theorem wordBefore_bang (word : Word table) (rest : List Char) :
    unquotedSheet table (word.text ++ '!' :: rest) = some (word.text, rest) := by
  have hstop : ∀ ch ∈ ('!' :: rest).head?, isNameChar table ch = false := by
    intro ch hch
    cases hch
    exact isNameChar_bang table
  have hfirst : (isWord table word.first && !isDecimal table word.first) = true := by
    rw [isWord_of_startsName table word.starts, not_isDecimal_of_startsName table word.starts]
    rfl
  rw [Word.text, List.cons_append, unquotedSheet, if_pos hfirst,
    dropWhile_run word.continues hstop, takeWhile_run word.continues hstop]
  rfl

theorem bracketSheet_bang (word : Word table) (rest : List Char) :
    bracketSheet table (word.text ++ '!' :: rest) = (some word.text, true, rest) := by
  have hstop : ∀ ch ∈ ('!' :: rest).head?, isNameChar table ch = false := by
    intro ch hch
    cases hch
    exact isNameChar_bang table
  unfold bracketSheet
  rw [takeWhile_run word.all_name hstop, dropWhile_run word.all_name hstop]
  rfl

theorem bracketSheet_area (area : Area) {rest : List Char} (h : Delimited rest) :
    bracketSheet table (area.text ++ rest) = (none, false, area.text ++ rest) := by
  have hhead := head_dropWhile_append (p := isNameChar table)
    (notMem_areaText '!' (by decide) area) (h.bang table)
  unfold bracketSheet
  split
  · rename_i hdrop
    exact absurd rfl (hhead '!' (by rw [hdrop]; rfl))
  · rename_i hdrop _
    exact absurd rfl (hhead '!' (by rw [hdrop]; rfl))
  · rfl

theorem close_notMem_toString (number : ℕ) : ∀ ch ∈ (toString number).toList,
    decide (ch ≠ ']') = true := by
  intro ch hch
  have hne : ch ≠ ']' := ne_of_class (isDigit_of_mem_toString hch) (by decide)
  simpa using hne

theorem head_close (text : List Char) : ∀ ch ∈ (']' :: text).head?, decide (ch ≠ ']') = false := by
  intro ch hch
  cases hch
  rfl

theorem takeWhile_close (number : ℕ) (text : List Char) :
    ((toString number).toList ++ ']' :: text).takeWhile (· ≠ ']') = (toString number).toList :=
  takeWhile_run (close_notMem_toString number) (head_close text)

theorem dropWhile_close (number : ℕ) (text : List Char) :
    (((toString number).toList ++ ']' :: text).dropWhile (· ≠ ']')).drop 1 = text := by
  rw [dropWhile_run (close_notMem_toString number) (head_close text)]
  rfl

theorem quotedNode_sheet (sheet : QuotedSheet) (body : Body) :
    quotedNode (ν := ν) sheet.text body = .ref none (some sheet.text) body := by
  unfold quotedNode
  split
  · rename_i htext
    exact absurd (htext ▸ List.mem_cons_self) sheet.noBracket
  · rfl

theorem quotedNode_book (number : ℕ) (sheet : QuotedSheet) (body : Body) :
    quotedNode (ν := ν) (bookText number ++ sheet.text) body =
      .ref (some (toString number).toList) (some sheet.text) body := by
  have htext : bookText number ++ sheet.text =
      '[' :: ((toString number).toList ++ ']' :: sheet.text) := by
    simp [bookText, bracketed]
  have hsheet : sheet.text.isEmpty = false := by simpa using sheet.nonempty
  rw [htext, quotedNode, if_pos (by simp)]
  simp only [takeWhile_close, dropWhile_close, hsheet]
  rfl

theorem scanQuotedRef_text (quoted : List Char) (area : Area) {rest : List Char}
    (h : Delimited rest) :
    scanQuotedRef (ν := ν) table (doubled '\'' quoted ++ '\'' :: '!' :: (area.text ++ rest)) =
      some (quotedNode quoted area.body, rest) := by
  have hquoted := scanQuoted_doubled quoted ('!' :: (area.text ++ rest)) fun ch hch => by
    cases hch
    decide
  rw [scanQuotedRef, hquoted]
  simp only
  rw [scanRangeBody_area table area h]

/-- Behind a book in brackets stands a sheet, a `!` or the area itself. -/
theorem scanBracketRef_text (number : ℕ) (text : List Char) (area : Area) {rest : List Char}
    (h : Delimited rest) (sheet : Option (List Char)) (bang : Bool)
    (hsheet : bracketSheet table text = (sheet, bang, area.text ++ rest)) :
    scanBracketRef (ν := ν) table ((toString number).toList ++ ']' :: text) =
      some (.ref (some (toString number).toList) sheet area.body, rest) := by
  rw [scanBracketRef, if_pos (by simp)]
  simp only [takeWhile_close, dropWhile_close, hsheet, scanRangeBody_area table area h]

theorem scanReference_text (ref : Reference table) {rest : List Char} (h : Delimited rest) :
    scanReference (ν := ν) table (ref.text ++ rest) =
      some (.ref ref.place.external ref.place.sheet ref.area.body, rest) := by
  obtain ⟨place, area⟩ := ref
  have harea := scanRangeBody_area table area h
  cases place with
  | here =>
    have hquote := head_area_ne area rest '\'' (by decide)
    have hbracket := head_area_ne area rest '[' (by decide)
    change scanReference table (area.text ++ rest) = _
    unfold scanReference
    split
    · rename_i htext
      exact absurd rfl (hquote '\'' (by rw [htext]; rfl))
    · rename_i htext
      exact absurd rfl (hbracket '[' (by rw [htext]; rfl))
    · rw [unquotedSheet_area table area h, harea]
      rfl
  | plain sheet =>
    have htext : (⟨.plain sheet, area⟩ : Reference table).text ++ rest =
        sheet.text ++ '!' :: (area.text ++ rest) := by
      simp [Reference.text, Place.text]
    have hhead : ∀ ch ∈ (sheet.text ++ '!' :: (area.text ++ rest)).head?,
        startsName table ch = true := by
      intro ch hch
      cases hch
      exact sheet.starts
    rw [htext]
    unfold scanReference
    split
    · rename_i he
      have hstart := hhead '\'' (by rw [he]; rfl)
      rw [not_startsName_of_symbol table (by decide) (by decide)] at hstart
      cases hstart
    · rename_i he
      have hstart := hhead '[' (by rw [he]; rfl)
      rw [not_startsName_of_symbol table (by decide) (by decide)] at hstart
      cases hstart
    · rw [wordBefore_bang]
      simp only
      rw [harea]
      rfl
  | quoted sheet =>
    have htext : (⟨.quoted sheet, area⟩ : Reference table).text ++ rest =
        '\'' :: (doubled '\'' sheet.text ++ '\'' :: '!' :: (area.text ++ rest)) := by
      simp [Reference.text, Place.text, quotedText]
    rw [htext, scanReference, scanQuotedRef_text table sheet.text area h, quotedNode_sheet]
    rfl
  | book number bang =>
    have htext : (⟨.book number bang, area⟩ : Reference table).text ++ rest = '[' ::
        ((toString number).toList ++ ']' :: ((if bang then ['!'] else []) ++ area.text ++ rest)) := by
      simp [Reference.text, Place.text, bookText, bracketed]
    rw [htext, scanReference]
    cases bang with
    | true => exact scanBracketRef_text table number _ area h none true (by
        have hstop : isNameChar table '!' = false := isNameChar_bang table
        simp [bracketSheet, hstop])
    | false => exact scanBracketRef_text table number _ area h _ _ (bracketSheet_area table area h)
  | bookPlain number sheet =>
    have htext : (⟨.bookPlain number sheet, area⟩ : Reference table).text ++ rest = '[' ::
        ((toString number).toList ++ ']' :: (sheet.text ++ '!' :: (area.text ++ rest))) := by
      simp [Reference.text, Place.text, bookText, bracketed]
    rw [htext, scanReference]
    exact scanBracketRef_text table number _ area h _ _ (bracketSheet_bang table sheet _)
  | bookQuoted number sheet =>
    have htext : (⟨.bookQuoted number sheet, area⟩ : Reference table).text ++ rest = '\'' ::
        (doubled '\'' (bookText number ++ sheet.text) ++ '\'' :: '!' :: (area.text ++ rest)) := by
      simp [Reference.text, Place.text, quotedText]
    rw [htext, scanReference, scanQuotedRef_text table _ area h, quotedNode_book]
    rfl

end Places

end FinanceContext.Formula
