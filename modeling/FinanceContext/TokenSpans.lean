import FinanceContext.FormulaEngine

namespace FinanceContext.Formula

open OperatorParsing Csr

section Suffixes

variable (table : TextTable)

theorem scanDollar_suffix (text : List Char) : (scanDollar text).2 <:+ text := by
  unfold scanDollar
  split
  · exact List.suffix_cons _ _
  · exact List.suffix_rfl

theorem scanLetters_suffix {text letters rest : List Char}
    (h : scanLetters text = some (letters, rest)) : rest <:+ text := by
  unfold scanLetters at h
  simp only [Option.ite_none_left_eq_some, Option.some.injEq, Prod.mk.injEq] at h
  obtain ⟨-, rfl, rfl⟩ := h
  exact List.drop_suffix _ _

theorem scanRow_suffix {text rest : List Char} {row : ℕ}
    (h : scanRow table text = some (row, rest)) : rest <:+ text := by
  unfold scanRow at h
  simp only [Option.ite_none_left_eq_some, Option.some.injEq, Prod.mk.injEq] at h
  obtain ⟨-, rfl, rfl⟩ := h
  exact List.dropWhile_suffix _

theorem cellBody_suffix {text rest : List Char} {point : CellPoint}
    (h : cellBody table text = some (point, rest)) : rest <:+ text := by
  unfold cellBody at h
  simp only [Option.bind_eq_bind, Option.bind_eq_some_iff, Option.ite_none_right_eq_some,
    Option.some.injEq, Prod.mk.injEq, Prod.exists] at h
  obtain ⟨letters, left, hletters, row, left', hrow, -, -, rfl⟩ := h
  have hcol := (scanLetters_suffix hletters).trans (scanDollar_suffix text)
  have hend := (scanRow_suffix table hrow).trans (scanDollar_suffix left)
  exact hend.trans hcol

theorem gridCell_suffix {text rest : List Char} {point : CellPoint}
    (h : gridCell table text = some (point, rest)) : rest <:+ text := by
  unfold gridCell at h
  simp only [Option.bind_eq_bind, Option.bind_eq_some_iff, Option.ite_none_right_eq_some,
    Option.some.injEq, Prod.mk.injEq, Prod.exists] at h
  obtain ⟨_, _, hbody, -, -, rfl⟩ := h
  exact cellBody_suffix table hbody

theorem colPair_suffix {text rest : List Char} {body : Body}
    (h : colPair table text = some (body, rest)) : rest <:+ text := by
  unfold colPair at h
  simp only [Option.bind_eq_bind, Option.bind_eq_some_iff, Prod.exists] at h
  obtain ⟨letters, left, hletters, h⟩ := h
  have hstart := (scanLetters_suffix hletters).trans (scanDollar_suffix text)
  split at h
  · rename_i left'
    simp only [Option.bind_eq_some_iff, Option.ite_none_right_eq_some,
      Option.some.injEq, Prod.mk.injEq, Prod.exists] at h
    obtain ⟨_, _, hfinish, -, -, rfl⟩ := h
    have hend := (scanLetters_suffix hfinish).trans (scanDollar_suffix left')
    exact hend.trans ((List.suffix_cons _ _).trans hstart)
  · cases h

theorem rowPair_suffix {text rest : List Char} {body : Body}
    (h : rowPair table text = some (body, rest)) : rest <:+ text := by
  unfold rowPair at h
  simp only [Option.bind_eq_bind, Option.bind_eq_some_iff, Prod.exists] at h
  obtain ⟨row, left, hrow, h⟩ := h
  have hstart := (scanRow_suffix table hrow).trans (scanDollar_suffix text)
  split at h
  · rename_i left'
    simp only [Option.bind_eq_some_iff, Option.some.injEq, Prod.mk.injEq, Prod.exists] at h
    obtain ⟨_, _, hfinish, -, rfl⟩ := h
    have hend := (scanRow_suffix table hfinish).trans (scanDollar_suffix left')
    exact hend.trans ((List.suffix_cons _ _).trans hstart)
  · cases h

theorem unquotedSheet_suffix {text rest sheet : List Char}
    (h : unquotedSheet table text = some (sheet, rest)) : rest <:+ text := by
  cases text with
  | nil => cases h
  | cons ch text =>
    rw [unquotedSheet] at h
    split_ifs at h
    · split at h
      · rename_i left hdrop
        cases h
        have hend : '!' :: rest <:+ text := hdrop ▸ List.dropWhile_suffix _
        exact (List.suffix_cons _ _).trans (hend.trans (List.suffix_cons _ _))
      · cases h

theorem scanQuoted_suffix {text rest name : List Char} (h : scanQuoted text = some (name, rest)) :
    rest <:+ text := by
  induction text using scanQuoted.induct generalizing name with
  | case1 => cases h
  | case2 left ih =>
    simp only [scanQuoted, Option.map_eq_some_iff, Prod.mk.injEq, Prod.exists] at h
    obtain ⟨name', rest', hname, -, rfl⟩ := h
    exact (ih hname).trans ((List.suffix_cons _ _).trans (List.suffix_cons _ _))
  | case3 left hquote =>
    rw [scanQuoted] at h
    · cases h
      exact List.suffix_cons _ _
    · exact hquote
  | case4 ch left hch hquote ih =>
    rw [scanQuoted] at h
    · simp only [Option.map_eq_some_iff, Prod.mk.injEq, Prod.exists] at h
      obtain ⟨name', rest', hname, -, rfl⟩ := h
      exact (ih hname).trans (List.suffix_cons _ _)
    · exact hch
    · exact hquote

theorem skipSheetQualifier_suffix (text : List Char) : skipSheetQualifier table text <:+ text := by
  unfold skipSheetQualifier
  split
  · split
    · rename_i hquoted
      have hname := (List.suffix_cons _ _).trans (scanQuoted_suffix hquoted)
      exact hname.trans (List.suffix_cons _ _)
    · exact List.suffix_rfl
  · split
    · rename_i hsheet
      exact unquotedSheet_suffix table hsheet
    · exact List.suffix_rfl

theorem scanRangeBody_suffix {text rest : List Char} {body : Body}
    (h : scanRangeBody table text = some (body, rest)) : rest <:+ text := by
  unfold scanRangeBody at h
  split at h
  · rename_i start left hstart
    have hcell := gridCell_suffix table hstart
    split at h
    · rename_i finish left' hfinish
      cases h
      have hend := (gridCell_suffix table hfinish).trans (skipSheetQualifier_suffix table left)
      exact hend.trans ((List.suffix_cons _ _).trans hcell)
    · cases h
      exact hcell
  · rename_i hstart
    cases h
    exact gridCell_suffix table hstart
  · split at h
    · rename_i hcols
      cases h
      exact colPair_suffix table hcols
    · exact rowPair_suffix table h

variable {ν : Type}

theorem scanDeletedRef_suffix {text rest : List Char} {node : Ast ν}
    (h : scanDeletedRef text = some (node, rest)) : rest <:+ text := by
  simp only [scanDeletedRef, afterPrefix, Option.map_eq_some_iff, Option.ite_none_right_eq_some,
    Option.some.injEq, Prod.mk.injEq] at h
  obtain ⟨_, ⟨-, rfl⟩, -, rfl⟩ := h
  exact List.drop_suffix _ _

theorem scanQuotedRef_suffix {text rest : List Char} {node : Ast ν}
    (h : scanQuotedRef table text = some (node, rest)) : rest <:+ text := by
  unfold scanQuotedRef at h
  split at h
  · rename_i quoted left hquoted
    have hname := (List.suffix_cons _ _).trans (scanQuoted_suffix hquoted)
    split at h
    · rename_i hbody
      cases h
      exact (scanRangeBody_suffix table hbody).trans hname
    · exact (scanDeletedRef_suffix h).trans hname
  · cases h

theorem bracketSheet_suffix (text : List Char) : (bracketSheet table text).2.2 <:+ text := by
  have hname := List.dropWhile_suffix (l := text) (isNameChar table)
  unfold bracketSheet
  split
  · rename_i hbang
    rw [hbang] at hname
    exact (List.suffix_cons _ _).trans hname
  · rename_i hbang _
    rw [hbang] at hname
    exact (List.suffix_cons _ _).trans hname
  · exact List.suffix_rfl

theorem scanBracketRef_suffix {text rest : List Char} {node : Ast ν}
    (h : scanBracketRef table text = some (node, rest)) : rest <:+ text := by
  unfold scanBracketRef at h
  split at h
  · have hsheet := bracketSheet_suffix table ((text.dropWhile (· ≠ ']')).drop 1)
    have hbook := (List.drop_suffix 1 _).trans (List.dropWhile_suffix (l := text) (· ≠ ']'))
    have hhead := hsheet.trans hbook
    generalize bracketSheet table ((text.dropWhile (· ≠ ']')).drop 1) = found at h hhead
    obtain ⟨sheet, bang, left⟩ := found
    dsimp only at h hhead
    split at h
    · rename_i hbody
      cases h
      exact (scanRangeBody_suffix table hbody).trans hhead
    · split at h
      · exact (scanDeletedRef_suffix h).trans hhead
      · cases h
  · cases h

theorem scanReference_suffix {text rest : List Char} {node : Ast ν}
    (h : scanReference table text = some (node, rest)) : rest <:+ text := by
  unfold scanReference at h
  split at h
  · exact (scanQuotedRef_suffix table h).trans (List.suffix_cons _ _)
  · exact (scanBracketRef_suffix table h).trans (List.suffix_cons _ _)
  · split at h
    · rename_i hsheet
      have hhead := unquotedSheet_suffix table hsheet
      split at h
      · rename_i hbody
        cases h
        exact (scanRangeBody_suffix table hbody).trans hhead
      · exact (scanDeletedRef_suffix h).trans hhead
    · simp only [Option.map_eq_some_iff, Prod.mk.injEq, Prod.exists] at h
      obtain ⟨_, _, hbody, -, rfl⟩ := h
      exact scanRangeBody_suffix table hbody

theorem scanSign_suffix (text : List Char) : (scanSign text).2 <:+ text := by
  unfold scanSign
  split
  · exact List.suffix_cons _ _
  · exact List.suffix_cons _ _
  · exact List.suffix_rfl

theorem scanExponent_suffix (text : List Char) : (scanExponent table text).2 <:+ text := by
  cases text with
  | nil => exact List.suffix_rfl
  | cons ch rest =>
    have hdigits := (List.dropWhile_suffix table.digit).trans (scanSign_suffix rest)
    unfold scanExponent
    dsimp only
    split
    · exact hdigits.trans (List.suffix_cons _ _)
    · exact List.suffix_rfl

theorem scanFraction_suffix (decimal : Char) (text : List Char) :
    (scanFraction table decimal text).2 <:+ text := by
  unfold scanFraction
  split
  · rename_i ch next rest
    split
    · exact (List.dropWhile_suffix table.digit).trans (List.suffix_cons _ _)
    · exact List.suffix_rfl
  · exact List.suffix_rfl

variable (floats : Floats ν)

theorem scanNumber_suffix {decimal : Char} {text rest : List Char} {value : ν}
    (h : scanNumber table floats decimal text = .ok (value, rest)) : rest <:+ text := by
  unfold scanNumber at h
  dsimp only at h
  split at h
  · cases h
  · cases h
    have hfraction := scanFraction_suffix table decimal (text.dropWhile table.digit)
    exact (scanExponent_suffix table _).trans (hfraction.trans (List.dropWhile_suffix _))

theorem scanMark_suffix {sep ch : Char} {rest left : List Char} {token : Token ν}
    (h : scanMark sep ch rest = .ok (token, left)) : left <:+ rest := by
  unfold scanMark at h
  split_ifs at h
  · cases h
    exact List.suffix_rfl
  · cases h
    exact List.suffix_rfl
  · split at h
    · cases h
      exact List.suffix_cons _ _
    · cases h
      exact List.suffix_cons _ _
    · cases h
      exact List.suffix_cons _ _
    · split at h
      · cases h
        exact List.suffix_rfl
      · cases h

theorem markOf_ne_string {ch : Char} {token : Token ν} (h : markOf ch = some token)
    (value : List Char) : token ≠ .string value := by
  unfold markOf at h
  split at h
  · cases h
    exact fun h => by cases h
  · split at h <;> cases h <;> exact fun h => by cases h

theorem scanMark_ne_string {sep ch : Char} {rest left value : List Char} {token : Token ν}
    (h : scanMark sep ch rest = .ok (token, left)) : token ≠ .string value := by
  unfold scanMark at h
  split_ifs at h
  · cases h
    exact fun h => by cases h
  · cases h
    exact fun h => by cases h
  · split at h
    · cases h
      exact fun h => by cases h
    · cases h
      exact fun h => by cases h
    · cases h
      exact fun h => by cases h
    · split at h
      · rename_i hmark
        cases h
        exact markOf_ne_string hmark value
      · cases h

end Suffixes

theorem of_scanString {text value left : List Char} (h : scanString text = .ok (value, left)) :
    text = doubled '"' value ++ '"' :: left := by
  induction text using scanString.induct generalizing value with
  | case1 => cases h
  | case2 rest ih =>
    rw [scanString] at h
    cases hrest : scanString rest with
    | error failure =>
      rw [hrest] at h
      cases h
    | ok found =>
      rw [hrest] at h
      cases h
      rw [ih hrest]
      rfl
  | case3 rest hquote =>
    rw [scanString] at h
    · cases h
      rfl
    · exact hquote
  | case4 ch rest hch hquote ih =>
    rw [scanString] at h
    · cases hrest : scanString rest with
      | error failure =>
        rw [hrest] at h
        cases h
      | ok found =>
        rw [hrest] at h
        cases h
        have hne : ch ≠ '"' := hquote
        have hone : doubled '"' (ch :: found.1) = ch :: doubled '"' found.1 := by
          simp [doubled, hne]
        rw [ih hrest, hone]
        rfl
    · exact hch
    · exact hquote

section Spans

variable (table : TextTable) {ν : Type} (floats : Floats ν) (decimal sep : Char)

theorem scanToken_cases {ch : Char} {rest left : List Char} {token : Option (Token ν)}
    (h : scanToken table floats decimal sep ch rest = .ok (token, left)) :
    (∃ value, token = some (.string value) ∧ ch :: rest = renderString value ++ left) ∨
      (∀ value, token ≠ some (.string value)) ∧ left <:+ ch :: rest := by
  unfold scanToken at h
  split at h
  · cases h
    refine .inr ⟨?_, List.suffix_cons _ _⟩
    rintro _ ⟨⟩
  split at h
  · rename_i hquote
    cases hstring : scanString rest with
    | error failure =>
      rw [hstring] at h
      cases h
    | ok found =>
      rw [hstring] at h
      cases h
      refine .inl ⟨found.1, rfl, ?_⟩
      rw [hquote, of_scanString hstring, renderString]
      simp
  split at h
  · split at h
    · cases h
    · cases h
      refine .inr ⟨?_, List.drop_suffix _ _⟩
      rintro _ ⟨⟩
  split at h
  · cases hnumber : scanNumber table floats decimal (ch :: rest) with
    | error failure =>
      rw [hnumber] at h
      cases h
    | ok found =>
      rw [hnumber] at h
      cases h
      refine .inr ⟨?_, scanNumber_suffix table floats hnumber⟩
      rintro _ ⟨⟩
  split at h
  · split at h
    · rename_i hnode
      cases h
      refine .inr ⟨?_, scanReference_suffix table hnode⟩
      rintro _ ⟨⟩
    · split at h
      · cases h
        refine .inr ⟨?_, (List.dropWhile_suffix _).trans (List.suffix_cons _ _)⟩
        rintro _ ⟨⟩
      · cases h
  · cases hmark : scanMark (ν := ν) sep ch rest with
    | error failure =>
      rw [hmark] at h
      cases h
    | ok found =>
      rw [hmark] at h
      cases h
      refine .inr ⟨?_, (scanMark_suffix hmark).trans (List.suffix_cons _ _)⟩
      intro value hvalue
      exact scanMark_ne_string hmark (Option.some.inj hvalue)

end Spans

end FinanceContext.Formula
