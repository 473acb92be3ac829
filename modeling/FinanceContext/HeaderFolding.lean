import FinanceContext.HeaderNormalization

namespace FinanceContext.Headers

open TokenGaps Formula

/-- Folding changes letters into letters and leaves the rest. -/
def Folds (f : Char → Char) : Prop := ∀ ch, f ch = ch ∨ (IsFolded ch ∧ IsFolded (f ch))

theorem translate_cases (pairs : List (Char × Char)) (ch : Char) :
    translate pairs ch = ch ∨ (ch, translate pairs ch) ∈ pairs := by
  unfold translate
  cases h : pairs.lookup ch with
  | none => exact Or.inl rfl
  | some ch' =>
    right
    obtain ⟨before, after, hpairs, -⟩ := List.lookup_eq_some_iff.mp h
    rw [hpairs]
    simp

theorem folds_translate {pairs : List (Char × Char)}
    (h : ∀ pair ∈ pairs, IsFolded pair.1 ∧ IsFolded pair.2) : Folds (translate pairs) := by
  intro ch
  rcases translate_cases pairs ch with hsame | hpair
  · exact Or.inl hsame
  · exact Or.inr (h _ hpair)

theorem folds_id : Folds id := fun _ => Or.inl rfl

theorem folds_toLatin : Folds toLatin := folds_translate (by decide)

theorem folds_toCyrillic : Folds toCyrillic := folds_translate (by decide)

theorem translate_translate {pairs : List (Char × Char)}
    (h : ∀ pair ∈ pairs, pairs.lookup pair.2 = none) (ch : Char) :
    translate pairs (translate pairs ch) = translate pairs ch := by
  rcases translate_cases pairs ch with hsame | hpair
  · rw [hsame, hsame]
  · have hnone := h _ hpair
    generalize translate pairs ch = ch' at hnone
    rw [translate, hnone]
    rfl

theorem toLatin_toLatin (ch : Char) : toLatin (toLatin ch) = toLatin ch :=
  translate_translate (by decide) ch

theorem toCyrillic_toCyrillic (ch : Char) : toCyrillic (toCyrillic ch) = toCyrillic ch :=
  translate_translate (by decide) ch

section Letters

variable {T : HeaderTable} {ch : Char}

theorem IsFolded.alpha (h : IsFolded ch) : T.alpha ch = true := by
  rcases h with hascii | ⟨hlo, hhi⟩
  · have hlt : ch.toNat < 128 := by
      have hrange := alpha_range hascii
      omega
    rw [T.alpha_ascii ch hlt, hascii]
  · apply T.alpha_cyrillic <;> omega

theorem IsFolded.not_digit (h : IsFolded ch) : isDigit T ch = false := by
  have hdigit := T.not_digit_of_alpha ch h.alpha
  by_contra hne
  have hdecimal := T.digit_of_decimal ch (Bool.eq_true_of_not_eq_false hne)
  rw [hdigit] at hdecimal
  cases hdecimal

theorem IsFolded.not_space (h : IsFolded ch) : T.space ch = false :=
  T.not_space_of_alnum ch (T.alnum_of_alpha ch h.alpha)

theorem IsFolded.settled (h : IsFolded ch) : T.settled ch = true := by
  rcases h with hascii | ⟨hlo, hhi⟩
  · apply T.settled_ascii
    have hrange := alpha_range hascii
    omega
  · apply T.settled_cyrillic <;> omega

theorem IsFolded.normal (h : IsFolded ch) : T.nfkc [ch] = [ch] := by
  rcases h with hascii | ⟨hlo, hhi⟩
  · apply T.nfkc_ascii
    have hrange := alpha_range hascii
    omega
  · apply T.nfkc_cyrillic <;> omega

theorem IsFolded.ne {other : Char} (h : IsFolded ch) (hother : ¬IsFolded other) : ch ≠ other := by
  rintro rfl
  exact hother h

theorem Folds.eq_iff {f : Char → Char} (hf : Folds f) {other : Char} (hother : ¬IsFolded other) :
    f ch = other ↔ ch = other := by
  rcases hf ch with hsame | ⟨hch, hfold⟩
  · rw [hsame]
  · exact iff_of_false (hfold.ne hother) (hch.ne hother)

theorem Folds.isDigit {f : Char → Char} (hf : Folds f) (ch : Char) :
    isDigit T (f ch) = isDigit T ch := by
  rcases hf ch with hsame | ⟨hch, hfold⟩
  · rw [hsame]
  · rw [hch.not_digit, hfold.not_digit]

theorem Folds.space {f : Char → Char} (hf : Folds f) (ch : Char) : T.space (f ch) = T.space ch := by
  rcases hf ch with hsame | ⟨hch, hfold⟩
  · rw [hsame]
  · rw [hch.not_space, hfold.not_space]

theorem Folds.alpha {f : Char → Char} (hf : Folds f) (ch : Char) : T.alpha (f ch) = T.alpha ch := by
  rcases hf ch with hsame | ⟨hch, hfold⟩
  · rw [hsame]
  · rw [hch.alpha, hfold.alpha]

theorem isFolded_of_mem_markerSuffix (h : ch ∈ markerSuffix) : IsFolded ch := by
  have hall : markerSuffix.all (fun ch => decide (IsFolded ch)) = true := by decide
  exact of_decide_eq_true (List.all_eq_true.mp hall ch h)

theorem not_digit_blank : isDigit T ' ' = false := by
  have h := T.decimal_ascii ' ' (by decide)
  unfold isDigit isDecimal
  rw [h]
  rfl

end Letters

section Edges

variable (T : HeaderTable)

/-- A passage that digit runs and date marks do not see. -/
structure Unseen (φ : List Char → List Char) : Prop where
  run : ∀ sizes text, digitRun T sizes (φ text) = (digitRun T sizes text).map φ
  mark : ∀ text, dateMark (φ text) = (dateMark text).map φ

variable {T} {φ : List Char → List Char}

theorem bind_unseen {f : List Char → Option (List Char)} (h : ∀ text, f (φ text) = (f text).map φ)
    (found : Option (List Char)) : (found.map φ).bind f = (found.bind f).map φ := by
  cases found with
  | none => rfl
  | some text => exact h text

theorem Unseen.shortDateEdge (h : Unseen T φ) (text : List Char) :
    shortDateEdge T (φ text) = shortDateEdge T text := by
  unfold Headers.shortDateEdge
  rw [h.run, bind_unseen h.mark, bind_unseen (h.run _), bind_unseen h.mark, bind_unseen (h.run _)]
  generalize ((((digitRun T [4, 2] text).bind dateMark).bind (digitRun T [2, 1])).bind dateMark).bind
    (digitRun T [2, 1]) = found
  cases found with
  | none => rfl
  | some rest =>
    have hmark := h.mark rest
    simp only [Option.map_some, Option.any_some]
    rw [hmark, Option.isNone_map]

theorem unseen_map {f : Char → Char} (hf : Folds f) : Unseen T (List.map f) where
  run sizes text := by
    have hdigit : isDigit T ∘ f = isDigit T := funext fun ch => hf.isDigit ch
    unfold digitRun
    rw [List.takeWhile_map, List.dropWhile_map, hdigit, List.length_map]
    split <;> rfl
  mark text := by
    cases text with
    | nil => rfl
    | cons ch rest =>
      have hdot : f ch = '.' ↔ ch = '.' := hf.eq_iff (by decide)
      have hslash : f ch = '/' ↔ ch = '/' := hf.eq_iff (by decide)
      simp only [dateMark, List.map_cons, hdot, hslash]
      split <;> rfl

theorem unseen_append {before : List Char} (h : ∀ ch ∈ before.head?, ch = ' ') :
    Unseen T (· ++ before) where
  run sizes text := by
    have hempty : before.takeWhile (isDigit T) = [] ∧ before.dropWhile (isDigit T) = before := by
      cases before with
      | nil => exact ⟨rfl, rfl⟩
      | cons ch rest =>
        have hch : isDigit T ch = false := by
          rw [h ch rfl]
          exact not_digit_blank
        simp [hch]
    have htake : (text ++ before).takeWhile (isDigit T) = text.takeWhile (isDigit T) := by
      induction text with
      | nil => exact hempty.1
      | cons ch text ih => simp only [List.cons_append, List.takeWhile_cons, ih]
    have hdrop : (text ++ before).dropWhile (isDigit T) = text.dropWhile (isDigit T) ++ before := by
      clear htake
      induction text with
      | nil => exact hempty.2
      | cons ch text ih =>
        simp only [List.cons_append, List.dropWhile_cons]
        split
        · exact ih
        · rfl
    unfold digitRun
    rw [htake, hdrop]
    split <;> rfl
  mark text := by
    cases text with
    | nil =>
      cases before with
      | nil => rfl
      | cons ch rest =>
        rw [h ch rfl]
        rfl
    | cons ch rest =>
      simp only [dateMark, List.cons_append]
      split <;> rfl

theorem digit_of_shortDateEdge {text : List Char} (h : shortDateEdge T text = true) :
    text.head?.any (isDigit T) = true := by
  cases text with
  | nil => cases h
  | cons ch rest =>
    by_contra hne
    have hch : isDigit T ch = false := by simpa using hne
    have hrun : digitRun T [4, 2] (ch :: rest) = none := by
      unfold digitRun
      rw [List.takeWhile_cons, hch]
      rfl
    unfold Headers.shortDateEdge at h
    rw [hrun] at h
    cases h

end Edges

section Tokens

variable (T : HeaderTable)

def joins (t u : List Char) : Bool := splitsNumber T t.reverse u

def glues (t u : List Char) : Bool := splitsMarker T t.reverse u

variable {T}

theorem joins_iff {t u : List Char} : joins T t u = true ↔
    t.getLast?.any (isDigit T) = true ∧ u.head?.any (isDigit T) = true ∧
      shortDateEdge T t.reverse = false := by
  unfold joins splitsNumber
  rw [List.head?_reverse]
  simp [and_assoc]

theorem local_joins : Local ' ' (splitsNumber T) (joins T) := by
  intro before t u after ht hu hbefore _
  obtain ⟨last, init, hrev⟩ := List.exists_cons_of_ne_nil (mt List.reverse_eq_nil_iff.mp ht.1)
  obtain ⟨first, tail, rfl⟩ := List.exists_cons_of_ne_nil hu.1
  have hedge : shortDateEdge T (t.reverse ++ before) = shortDateEdge T t.reverse :=
    (unseen_append hbefore).shortDateEdge t.reverse
  unfold joins splitsNumber
  rw [hedge, hrev]
  rfl

theorem joins_map {f g : Char → Char} (hf : Folds f) (hg : Folds g) (t u : List Char) :
    joins T (t.map f) (u.map g) = joins T t u := by
  have hedge : shortDateEdge T (t.reverse.map f) = shortDateEdge T t.reverse :=
    (unseen_map hf).shortDateEdge t.reverse
  unfold joins splitsNumber
  rw [← List.map_reverse, hedge, List.head?_map, List.head?_map, Option.any_map, Option.any_map]
  simp only [hf.isDigit, hg.isDigit]

theorem yearEdge_append {before text : List Char} (h : ∀ ch ∈ before.head?, ch = ' ') :
    yearEdge T (text ++ before) = yearEdge T text := by
  have hblank : isDigit T ' ' = false := not_digit_blank
  match text, before with
  | _, [] => rw [List.append_nil]
  | [], ch :: rest =>
    obtain rfl := h ch rfl
    match rest with
    | [] | [_] | [_, _] => rfl
    | _ :: _ :: _ :: _ => simp [yearEdge, hblank]
  | [_], ch :: rest =>
    obtain rfl := h ch rfl
    match rest with
    | [] | [_] => rfl
    | _ :: _ :: _ => simp [yearEdge, hblank]
  | [_, _], ch :: rest =>
    obtain rfl := h ch rfl
    match rest with
    | [] => rfl
    | _ :: _ => simp [yearEdge]
  | [_, _, _], ch :: rest =>
    obtain rfl := h ch rfl
    simp [yearEdge]
  | _ :: _ :: _ :: _ :: _, _ => rfl

theorem yearEdge_map {f : Char → Char} (hf : Folds f) (text : List Char) :
    yearEdge T (text.map f) = yearEdge T text := by
  match text with
  | [] | [_] | [_, _] | [_, _, _] => rfl
  | d₂ :: d₁ :: c₂ :: c₁ :: _ =>
    have hone : f c₁ = '1' ↔ c₁ = '1' := hf.eq_iff (by decide)
    have htwo : f c₁ = '2' ↔ c₁ = '2' := hf.eq_iff (by decide)
    have hnine : f c₂ = '9' ↔ c₂ = '9' := hf.eq_iff (by decide)
    have hzero : f c₂ = '0' ↔ c₂ = '0' := hf.eq_iff (by decide)
    simp only [List.map_cons, yearEdge, hf.isDigit, hone, htwo, hnine, hzero]

theorem local_glues : Local ' ' (splitsMarker T) (glues T) := by
  intro before t u after ht hu hbefore hafter
  obtain ⟨first, tail, rfl⟩ := List.exists_cons_of_ne_nil hu.1
  have hlone : loneMarker T (first :: tail ++ after) = loneMarker T (first :: tail) := by
    cases tail with
    | cons ch tail => rfl
    | nil =>
      cases after with
      | nil => rfl
      | cons ch after =>
        obtain rfl := hafter ch rfl
        simp [loneMarker, T.space_blank]
  unfold glues splitsMarker
  rw [yearEdge_append hbefore, hlone]

end Tokens

section Folding

variable (T : HeaderTable)

/-- What `foldPeriodToken` makes of each letter. -/
def foldOf (token : List Char) : Char → Char :=
  if ordinalToken T token || !token.any (isDigit T) then id
  else if (letters T token).length = 0 then id
  else if (letters T token).length = 1 then toLatin
  else if (latinLetters T token).length = 1 ∧ 2 ≤ (cyrillicLetters T token).length then toCyrillic
  else if (cyrillicLetters T token).length = 1 ∧ 2 ≤ (latinLetters T token).length then toLatin
  else id

theorem foldPeriodToken_eq (token : List Char) :
    foldPeriodToken T token = token.map (foldOf T token) := by
  rw [foldPeriodToken, foldOf]
  split_ifs <;> simp

theorem folds_foldOf (token : List Char) : Folds (foldOf T token) := by
  rw [foldOf]
  split_ifs
  · exact folds_id
  · exact folds_id
  · exact folds_toLatin
  · exact folds_toCyrillic
  · exact folds_toLatin
  · exact folds_id

theorem exists_folds (token : List Char) :
    ∃ f, Folds f ∧ foldPeriodToken T token = token.map f :=
  ⟨foldOf T token, folds_foldOf T token, foldPeriodToken_eq T token⟩

variable {T}

theorem letters_map {f : Char → Char} (hf : Folds f) (token : List Char) :
    letters T (token.map f) = (letters T token).map f := by
  have halpha : T.alpha ∘ f = T.alpha := funext fun ch => hf.alpha ch
  unfold letters
  rw [List.filter_map, halpha]

theorem length_filter_map_le {f : Char → Char} {p : Char → Bool} (token : List Char)
    (h : ∀ ch, p ch = true → p (f ch) = true) :
    (token.filter p).length ≤ ((token.map f).filter p).length := by
  rw [← List.countP_eq_length_filter, ← List.countP_eq_length_filter, List.countP_map]
  apply List.countP_mono_left
  intro ch _ hch
  exact h ch hch

theorem length_latinLetters_le (token : List Char) :
    (latinLetters T token).length ≤ (latinLetters T (token.map toLatin)).length := by
  unfold latinLetters
  rw [letters_map folds_toLatin]
  apply length_filter_map_le
  intro ch hch
  have hascii : ∀ pair ∈ lookalikes, pair.2.toNat < 128 := by decide
  rcases translate_cases lookalikes ch with hsame | hpair
  · rwa [toLatin, hsame]
  · exact decide_eq_true (hascii _ hpair)

theorem length_cyrillicLetters_le (token : List Char) :
    (cyrillicLetters T token).length ≤ (cyrillicLetters T (token.map toCyrillic)).length := by
  unfold cyrillicLetters
  rw [letters_map folds_toCyrillic]
  apply length_filter_map_le
  intro ch hch
  have hblock : ∀ pair ∈ lookalikes.map Prod.swap, 0x400 ≤ pair.2.toNat ∧ pair.2.toNat ≤ 0x4ff := by
    decide
  rcases translate_cases (lookalikes.map Prod.swap) ch with hsame | hpair
  · rwa [toCyrillic, hsame]
  · exact decide_eq_true (hblock _ hpair)

theorem length_cyrillicLetters_le_letters (token : List Char) :
    (cyrillicLetters T token).length ≤ (letters T token).length :=
  List.length_filter_le _ _

theorem foldPeriodToken_latin {token : List Char}
    (h : (letters T token).length = 1 ∨ 2 ≤ (latinLetters T token).length) :
    foldPeriodToken T (token.map toLatin) = token.map toLatin := by
  have hagain : (token.map toLatin).map toLatin = token.map toLatin := by
    rw [List.map_map]
    exact List.map_congr_left fun ch _ => toLatin_toLatin ch
  have hletters : (letters T (token.map toLatin)).length = (letters T token).length := by
    rw [letters_map folds_toLatin, List.length_map]
  have hlatin : (latinLetters T token).length ≤ _ := length_latinLetters_le token
  unfold foldPeriodToken
  split_ifs with _ _ hone hmixed
  · rfl
  · rfl
  · exact hagain
  · rw [hletters] at hone
    omega
  · exact hagain
  · rfl

theorem foldPeriodToken_cyrillic {token : List Char} (h : 2 ≤ (cyrillicLetters T token).length) :
    foldPeriodToken T (token.map toCyrillic) = token.map toCyrillic := by
  have hagain : (token.map toCyrillic).map toCyrillic = token.map toCyrillic := by
    rw [List.map_map]
    exact List.map_congr_left fun ch _ => toCyrillic_toCyrillic ch
  have hcyrillic : (cyrillicLetters T token).length ≤ _ := length_cyrillicLetters_le token
  have hletters : (cyrillicLetters T (token.map toCyrillic)).length ≤ _ :=
    length_cyrillicLetters_le_letters (token.map toCyrillic)
  unfold foldPeriodToken
  split_ifs with _ _ hone _ hmixed
  · rfl
  · rfl
  · omega
  · exact hagain
  · omega
  · rfl

theorem foldPeriodToken_fold (token : List Char) :
    foldPeriodToken T (foldPeriodToken T token) = foldPeriodToken T token := by
  by_cases hplain : foldPeriodToken T token = token
  · rw [hplain, hplain]
  · have hcases : foldPeriodToken T token = token.map toLatin ∧
          ((letters T token).length = 1 ∨ 2 ≤ (latinLetters T token).length) ∨
        foldPeriodToken T token = token.map toCyrillic ∧
          2 ≤ (cyrillicLetters T token).length := by
      unfold foldPeriodToken at hplain ⊢
      split_ifs at hplain ⊢ with _ _ hone hmost hmost'
      · exact absurd rfl hplain
      · exact absurd rfl hplain
      · exact Or.inl ⟨rfl, Or.inl hone⟩
      · exact Or.inr ⟨rfl, hmost.2⟩
      · exact Or.inl ⟨rfl, Or.inr hmost'.2⟩
      · exact absurd rfl hplain
    obtain ⟨hlatin, hcount⟩ | ⟨hcyrillic, hcount⟩ := hcases
    · rw [hlatin, foldPeriodToken_latin hcount]
    · rw [hcyrillic, foldPeriodToken_cyrillic hcount]

end Folding

end FinanceContext.Headers
