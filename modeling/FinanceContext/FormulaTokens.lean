import FinanceContext.FormulaParse

namespace FinanceContext.Formula

open OperatorParsing Csr

section Shrinking

variable (table : TextTable)

theorem length_scanDollar (text : List Char) : (scanDollar text).2.length ≤ text.length := by
  unfold scanDollar
  split
  · exact Nat.le_succ _
  · exact Nat.le_refl _

theorem lt_of_scanLetters {text letters rest : List Char}
    (h : scanLetters text = some (letters, rest)) : rest.length < text.length := by
  unfold scanLetters at h
  simp only [Option.ite_none_left_eq_some, Option.some.injEq, Prod.mk.injEq] at h
  obtain ⟨hne, rfl, rfl⟩ := h
  have hletters : 0 < ((text.take 3).takeWhile Char.isAlpha).length := by
    rw [List.length_pos_iff]
    simpa using hne
  have htake : ((text.take 3).takeWhile Char.isAlpha).length ≤ (text.take 3).length :=
    (List.takeWhile_prefix _).length_le
  rw [List.length_take] at htake
  rw [List.length_drop]
  omega

theorem length_dropWhile_lt {p : Char → Bool} (text : List Char) (h : text.takeWhile p ≠ []) :
    (text.dropWhile p).length < text.length := by
  have hsplit := congrArg List.length (List.takeWhile_append_dropWhile (p := p) (l := text))
  rw [List.length_append] at hsplit
  have hpos := List.length_pos_iff.mpr h
  omega

theorem lt_of_scanRow {text rest : List Char} {row : ℕ}
    (h : scanRow table text = some (row, rest)) : rest.length < text.length := by
  unfold scanRow at h
  simp only [Option.ite_none_left_eq_some, Option.some.injEq, Prod.mk.injEq] at h
  obtain ⟨hne, rfl, rfl⟩ := h
  exact length_dropWhile_lt _ (by simpa using hne)

theorem lt_of_cellBody {text rest : List Char} {point : CellPoint}
    (h : cellBody table text = some (point, rest)) : rest.length < text.length := by
  unfold cellBody at h
  simp only [Option.bind_eq_bind, Option.bind_eq_some_iff, Option.ite_none_right_eq_some,
    Option.some.injEq, Prod.mk.injEq, Prod.exists] at h
  obtain ⟨letters, left, hletters, row, left', hrow, -, -, rfl⟩ := h
  have h1 := length_scanDollar text
  have h2 := lt_of_scanLetters hletters
  have h3 := length_scanDollar left
  have h4 := lt_of_scanRow table hrow
  omega

theorem lt_of_gridCell {text rest : List Char} {point : CellPoint}
    (h : gridCell table text = some (point, rest)) : rest.length < text.length := by
  unfold gridCell at h
  simp only [Option.bind_eq_bind, Option.bind_eq_some_iff, Option.ite_none_right_eq_some,
    Option.some.injEq, Prod.mk.injEq, Prod.exists] at h
  obtain ⟨_, _, hbody, -, -, rfl⟩ := h
  exact lt_of_cellBody table hbody

theorem lt_of_colPair {text rest : List Char} {body : Body}
    (h : colPair table text = some (body, rest)) : rest.length < text.length := by
  unfold colPair at h
  simp only [Option.bind_eq_bind, Option.bind_eq_some_iff, Prod.exists] at h
  obtain ⟨letters, left, hletters, h⟩ := h
  have h1 := length_scanDollar text
  have h2 := lt_of_scanLetters hletters
  split at h
  · rename_i left'
    simp only [Option.bind_eq_some_iff, Option.ite_none_right_eq_some,
      Option.some.injEq, Prod.mk.injEq, Prod.exists] at h
    obtain ⟨_, _, hfinish, -, -, rfl⟩ := h
    have h3 := length_scanDollar left'
    have h4 := lt_of_scanLetters hfinish
    rw [List.length_cons] at h2
    omega
  · cases h

theorem lt_of_rowPair {text rest : List Char} {body : Body}
    (h : rowPair table text = some (body, rest)) : rest.length < text.length := by
  unfold rowPair at h
  simp only [Option.bind_eq_bind, Option.bind_eq_some_iff, Prod.exists] at h
  obtain ⟨row, left, hrow, h⟩ := h
  have h1 := length_scanDollar text
  have h2 := lt_of_scanRow table hrow
  split at h
  · rename_i left'
    simp only [Option.bind_eq_some_iff, Option.some.injEq, Prod.mk.injEq, Prod.exists] at h
    obtain ⟨_, _, hfinish, -, rfl⟩ := h
    have h3 := length_scanDollar left'
    have h4 := lt_of_scanRow table hfinish
    rw [List.length_cons] at h2
    omega
  · cases h

theorem lt_of_unquotedSheet {text rest sheet : List Char}
    (h : unquotedSheet table text = some (sheet, rest)) : rest.length < text.length := by
  cases text with
  | nil => cases h
  | cons ch text =>
    rw [unquotedSheet] at h
    split_ifs at h
    · split at h
      · rename_i left hdrop
        cases h
        have hlen := (List.dropWhile_suffix (l := text) (isNameChar table)).length_le
        rw [hdrop, List.length_cons] at hlen
        rw [List.length_cons]
        omega
      · cases h

theorem lt_of_scanQuoted {text rest name : List Char} (h : scanQuoted text = some (name, rest)) :
    rest.length < text.length := by
  induction text using scanQuoted.induct generalizing name with
  | case1 => cases h
  | case2 left ih =>
    simp only [scanQuoted, Option.map_eq_some_iff, Prod.mk.injEq, Prod.exists] at h
    obtain ⟨name', rest', hname, -, rfl⟩ := h
    have := ih hname
    simp only [List.length_cons]
    omega
  | case3 left hquote =>
    rw [scanQuoted] at h
    · cases h
      exact Nat.lt_succ_self _
    · exact hquote
  | case4 ch left hch hquote ih =>
    rw [scanQuoted] at h
    · simp only [Option.map_eq_some_iff, Prod.mk.injEq, Prod.exists] at h
      obtain ⟨name', rest', hname, -, rfl⟩ := h
      have := ih hname
      simp only [List.length_cons]
      omega
    · exact hch
    · exact hquote

theorem length_skipSheetQualifier (text : List Char) :
    (skipSheetQualifier table text).length ≤ text.length := by
  unfold skipSheetQualifier
  split
  · split
    · rename_i hquoted
      have := lt_of_scanQuoted hquoted
      simp only [List.length_cons] at this ⊢
      omega
    · exact Nat.le_refl _
  · split
    · rename_i hsheet
      exact Nat.le_of_lt (lt_of_unquotedSheet table hsheet)
    · exact Nat.le_refl _

theorem lt_of_scanRangeBody {text rest : List Char} {body : Body}
    (h : scanRangeBody table text = some (body, rest)) : rest.length < text.length := by
  unfold scanRangeBody at h
  split at h
  · rename_i start left hstart
    have h1 := lt_of_gridCell table hstart
    rw [List.length_cons] at h1
    split at h
    · rename_i finish left' hfinish
      cases h
      have h2 := lt_of_gridCell table hfinish
      have h3 := length_skipSheetQualifier table left
      omega
    · cases h
      rw [List.length_cons]
      omega
  · rename_i hstart
    cases h
    exact lt_of_gridCell table hstart
  · split at h
    · rename_i hcols
      cases h
      exact lt_of_colPair table hcols
    · exact lt_of_rowPair table h

variable {ν : Type}

theorem length_scanDeletedRef {text rest : List Char} {node : Ast ν}
    (h : scanDeletedRef text = some (node, rest)) : rest.length ≤ text.length := by
  simp only [scanDeletedRef, afterPrefix, Option.map_eq_some_iff, Option.ite_none_right_eq_some,
    Option.some.injEq, Prod.mk.injEq] at h
  obtain ⟨_, ⟨-, rfl⟩, -, rfl⟩ := h
  rw [List.length_drop]
  omega

theorem length_scanQuotedRef {text rest : List Char} {node : Ast ν}
    (h : scanQuotedRef table text = some (node, rest)) : rest.length ≤ text.length := by
  unfold scanQuotedRef at h
  split at h
  · rename_i quoted left hquoted
    have h1 := lt_of_scanQuoted hquoted
    rw [List.length_cons] at h1
    split at h
    · rename_i hbody
      cases h
      have h2 := lt_of_scanRangeBody table hbody
      omega
    · have h2 := length_scanDeletedRef h
      omega
  · cases h

theorem length_bracketSheet (text : List Char) :
    (bracketSheet table text).2.2.length ≤ text.length := by
  have hdrop := (List.dropWhile_suffix (l := text) (isNameChar table)).length_le
  unfold bracketSheet
  split
  · rename_i hbang
    rw [hbang, List.length_cons] at hdrop
    exact Nat.le_of_succ_le hdrop
  · rename_i hbang _
    rw [hbang, List.length_cons] at hdrop
    exact Nat.le_of_succ_le hdrop
  · exact Nat.le_refl _

theorem length_scanBracketRef {text rest : List Char} {node : Ast ν}
    (h : scanBracketRef table text = some (node, rest)) : rest.length ≤ text.length := by
  unfold scanBracketRef at h
  split at h
  · have h1 := length_bracketSheet table ((text.dropWhile (· ≠ ']')).drop 1)
    have h2 := (List.dropWhile_suffix (l := text) (· ≠ ']')).length_le
    rw [List.length_drop] at h1
    generalize bracketSheet table ((text.dropWhile (· ≠ ']')).drop 1) = found at h h1
    obtain ⟨sheet, bang, left⟩ := found
    dsimp only at h h1
    split at h
    · rename_i hbody
      cases h
      have h3 := lt_of_scanRangeBody table hbody
      omega
    · split at h
      · have h3 := length_scanDeletedRef h
        omega
      · cases h
  · cases h

theorem lt_of_scanReference {text rest : List Char} {node : Ast ν}
    (h : scanReference table text = some (node, rest)) : rest.length < text.length := by
  unfold scanReference at h
  split at h
  · exact Nat.lt_succ_of_le (length_scanQuotedRef table h)
  · exact Nat.lt_succ_of_le (length_scanBracketRef table h)
  · split at h
    · rename_i hsheet
      have h1 := lt_of_unquotedSheet table hsheet
      split at h
      · rename_i hbody
        cases h
        have h2 := lt_of_scanRangeBody table hbody
        omega
      · have h2 := length_scanDeletedRef h
        omega
    · simp only [Option.map_eq_some_iff, Prod.mk.injEq, Prod.exists] at h
      obtain ⟨_, _, hbody, -, rfl⟩ := h
      exact lt_of_scanRangeBody table hbody

theorem progress_scanString (text : List Char) : Progress text.length (scanString text) := by
  induction text using scanString.induct with
  | case1 => rfl
  | case2 left ih =>
    rw [scanString]
    apply ih.bind
    intro value rest hrest
    exact Nat.lt_succ_of_lt (Nat.lt_succ_of_lt hrest)
  | case3 left hquote =>
    rw [scanString]
    · exact Nat.lt_succ_self _
    · exact hquote
  | case4 ch left hch hquote ih =>
    rw [scanString]
    · apply ih.bind
      intro value rest hrest
      exact Nat.lt_succ_of_lt hrest
    · exact hch
    · exact hquote

theorem length_scanSign (text : List Char) : (scanSign text).2.length ≤ text.length := by
  unfold scanSign
  split
  · exact Nat.le_succ _
  · exact Nat.le_succ _
  · exact Nat.le_refl _

theorem length_scanExponent (text : List Char) :
    (scanExponent table text).2.length ≤ text.length := by
  cases text with
  | nil => exact Nat.le_refl _
  | cons ch rest =>
    have hsign := length_scanSign rest
    have hdrop := (List.dropWhile_suffix (l := (scanSign rest).2) table.digit).length_le
    unfold scanExponent
    dsimp only
    split
    · rw [List.length_cons]
      exact Nat.le_succ_of_le (Nat.le_trans hdrop hsign)
    · exact Nat.le_refl _

theorem length_scanFraction (decimal : Char) (text : List Char) :
    (scanFraction table decimal text).2.length ≤ text.length := by
  unfold scanFraction
  split
  · rename_i ch next rest
    have hdrop := (List.dropWhile_suffix (l := next :: rest) table.digit).length_le
    split
    · exact Nat.le_succ_of_le hdrop
    · exact Nat.le_refl _
  · exact Nat.le_refl _

theorem lt_scanFraction {decimal ch : Char} {rest : List Char}
    (h : startsNumber table decimal ch rest = true) :
    (scanFraction table decimal ((ch :: rest).dropWhile table.digit)).2.length ≤ rest.length := by
  by_cases hdigit : table.digit ch = true
  · have hlt := length_dropWhile_lt (p := table.digit) (ch :: rest)
      (by simp [hdigit])
    have hle := length_scanFraction table decimal ((ch :: rest).dropWhile table.digit)
    rw [List.length_cons] at hlt
    omega
  · simp only [startsNumber, hdigit, Bool.false_or, Bool.and_eq_true, beq_iff_eq] at h
    obtain ⟨rfl, hnext⟩ := h
    rw [List.dropWhile_cons, if_neg hdigit]
    cases rest with
    | nil => cases hnext
    | cons next rest =>
      have hnext' : table.digit next = true := hnext
      rw [scanFraction, if_pos (by simp [hnext'])]
      exact (List.dropWhile_suffix _).length_le

variable (floats : Floats ν)

theorem progress_scanNumber {decimal ch : Char} {rest : List Char}
    (hstart : startsNumber table decimal ch rest = true) :
    Progress (rest.length + 1) (scanNumber table floats decimal (ch :: rest)) := by
  have hfraction := lt_scanFraction table hstart
  have hexponent := length_scanExponent table
    (scanFraction table decimal ((ch :: rest).dropWhile table.digit)).2
  unfold scanNumber
  dsimp only
  split
  · rfl
  · exact Nat.lt_succ_of_le (Nat.le_trans hexponent hfraction)

theorem progress_scanMark (sep ch : Char) (rest : List Char) :
    Progress (rest.length + 1) (scanMark (ν := ν) sep ch rest) := by
  unfold scanMark
  split_ifs
  · exact Nat.lt_succ_self _
  · exact Nat.lt_succ_self _
  · split
    · exact Nat.lt_succ_of_le (Nat.le_succ _)
    · exact Nat.lt_succ_of_le (Nat.le_succ _)
    · exact Nat.lt_succ_of_le (Nat.le_succ _)
    · split
      · exact Nat.lt_succ_self _
      · rfl

theorem length_pos_of_mem_errors : ∀ err ∈ errors, 0 < err.length := by decide

theorem progress_scanToken (decimal sep ch : Char) (rest : List Char) :
    Progress (rest.length + 1) (scanToken table floats decimal sep ch rest) := by
  unfold scanToken
  split
  · exact Nat.lt_succ_self _
  split
  · apply (progress_scanString rest).bind
    intro value left hleft
    exact Nat.lt_succ_of_lt hleft
  split
  · split
    · rfl
    · rename_i err hfind
      have herr := length_pos_of_mem_errors err (List.mem_of_find?_eq_some hfind)
      change (List.drop err.length (ch :: rest)).length < rest.length + 1
      rw [List.length_drop, List.length_cons]
      omega
  split
  · rename_i hstart
    apply (progress_scanNumber table floats hstart).bind
    intro value left hleft
    exact hleft
  split
  · split
    · rename_i hnode
      exact lt_of_scanReference table hnode
    · split
      · exact Nat.lt_succ_of_le (List.dropWhile_suffix _).length_le
      · rfl
  · apply (progress_scanMark sep ch rest).bind
    intro token left hleft
    exact hleft

end Shrinking

section Tokens

variable (table : TextTable) {ν : Type} (floats : Floats ν) (decimal sep : Char)

theorem tokenizeWithin_eq (fuel : ℕ) (text : List Char) (h : text.length ≤ fuel) :
    tokenizeWithin table floats decimal sep fuel text =
      tokenizeWithin table floats decimal sep text.length text := by
  induction fuel using Nat.strong_induction_on generalizing text with
  | _ fuel ih =>
    cases text with
    | nil => simp [tokenizeWithin]
    | cons ch rest =>
      cases fuel with
      | zero => cases h
      | succ fuel =>
        rw [List.length_cons] at h ⊢
        have hprogress := progress_scanToken table floats decimal sep ch rest
        rw [tokenizeWithin, tokenizeWithin]
        match hscan : scanToken table floats decimal sep ch rest, hprogress with
        | .error _, _ => rfl
        | .ok (token, left), hlt =>
          have hlt' : left.length < rest.length + 1 := hlt
          have hleft := ih fuel (Nat.lt_succ_self fuel) left (by omega)
          have hrest := ih rest.length (by omega) left (by omega)
          change (tokenizeWithin table floats decimal sep fuel left >>= _) =
            (tokenizeWithin table floats decimal sep rest.length left >>= _)
          rw [hleft, hrest]

theorem tokenize_nil : tokenize table floats decimal sep [] = .ok [] := rfl

theorem tokenize_cons (ch : Char) (rest : List Char) :
    tokenize table floats decimal sep (ch :: rest) = (do
      let (token, left) ← scanToken table floats decimal sep ch rest
      let tokens ← tokenize table floats decimal sep left
      .ok (token.toList ++ tokens)) := by
  have hprogress := progress_scanToken table floats decimal sep ch rest
  unfold tokenize
  rw [List.length_cons, tokenizeWithin]
  match hscan : scanToken table floats decimal sep ch rest, hprogress with
  | .error _, _ => rfl
  | .ok (token, left), hlt =>
    have hlt' : left.length < rest.length + 1 := hlt
    have hrest := tokenizeWithin_eq table floats decimal sep rest.length left (by omega)
    change (tokenizeWithin table floats decimal sep rest.length left >>= _) =
      (tokenizeWithin table floats decimal sep left.length left >>= _)
    rw [hrest]

theorem tokenize_ne_exhausted (text : List Char) :
    tokenize table floats decimal sep text ≠ .error .exhausted := by
  induction hn : text.length using Nat.strong_induction_on generalizing text with
  | _ n ih =>
    cases text with
    | nil => simp [tokenize_nil]
    | cons ch rest =>
      have hprogress := progress_scanToken table floats decimal sep ch rest
      rw [tokenize_cons]
      match hscan : scanToken table floats decimal sep ch rest, hprogress with
      | .error failure, hfailure =>
        cases hfailure
        exact fun h => by cases h
      | .ok (token, left), hlt =>
        have hlt' : left.length < rest.length + 1 := hlt
        rw [List.length_cons] at hn
        have hleft := ih left.length (by omega) left rfl
        change (tokenize table floats decimal sep left >>= _) ≠ _
        match htokens : tokenize table floats decimal sep left with
        | .error .rejected => exact fun h => by cases h
        | .error .exhausted => exact absurd htokens hleft
        | .ok tokens => exact fun h => by cases h

end Tokens

end FinanceContext.Formula
