import FinanceContext.HeaderIntegers

namespace FinanceContext.Headers

open TokenGaps Formula

variable {T : WordTable}

section Integers

theorem windowHit_single {text : List Char} (h : calendarHit T text = none) (lastDigit : ℕ) :
    windowHit T [text] lastDigit 1 = none := by
  have hone : spaced ' ' ([text].take 1) = text := by simp [spaced]
  rw [windowHit]
  split
  · rfl
  · rw [hone, h]
    rfl

theorem spansFrom_single {text : List Char} (h : calendarHit T text = none) :
    spansFrom T 1 0 [text] = [] := by
  rw [spansFrom]
  split
  · rename_i husable
    have hrun : [text].takeWhile (canSitInCalendar T) = [text] := by
      rw [List.takeWhile_cons, husable]
      rfl
    dsimp only
    rw [hrun]
    split
    · rfl
    · rw [List.length_singleton, windowHit_single h]
      rfl
  · rfl

theorem Digits.matchHeader {text : List Char} (h : Digits text)
    (hyear : asciiDigitsOutsideYears T text = true) : Headers.matchHeader T text = none := by
  have hstub : isStub T text = false := by
    rw [← Bool.not_eq_true]
    intro hstub
    obtain ⟨-, hletters⟩ := stubSurfaces_folded (stub_surface hstub)
    have hdots : stripDots text = text := by
      apply stripChars_eq_self.mpr
      have hne : ∀ ch ∈ text, decide (ch = '.') = false := by
        intro ch hch
        apply decide_eq_false
        rintro rfl
        exact absurd (h.all _ hch) (by decide)
      exact ⟨fun ch hch => hne ch (List.mem_of_mem_head? hch),
        fun ch hch => hne ch (List.mem_of_mem_getLast? hch)⟩
    rw [h.fold, hdots] at hletters
    obtain ⟨ch, hch⟩ := List.exists_mem_of_ne_nil text h.nonempty
    have hdigit : isDigit T.toHeaderTable ch = true := h.digit hch
    rw [(hletters ch hch).not_digit] at hdigit
    cases hdigit
  have hhit : calendarHit T text = none := by
    rw [calendarHit, h.matchCalendarText hyear]
    rfl
  have htokens : scanTokens T text = [text] := by
    have hplain : text.map (fun ch => if ch ∈ brackets then ' ' else ch) = text := by
      conv_rhs => rw [← List.map_id text]
      apply List.map_congr_left
      intro ch hch
      have hnot : ch ∉ brackets := by
        intro hbracket
        have hall : brackets.all (fun ch => !ch.isDigit) = true := by decide
        have hno := List.all_eq_true.mp hall ch hbracket
        rw [h.all ch hch] at hno
        cases hno
      rw [if_neg hnot]
      rfl
    have hwordy : ∀ word ∈ [text], Wordy T.toHeaderTable word := by
      simpa using h.wordy
    have hone : spaced ' ' [text] = text := by simp [spaced]
    have hkept := words_spaced hwordy
    rw [hone] at hkept
    rw [scanTokens, hplain, hkept]
  have hresidual : residualHit T [text] = none := by
    rw [residualHit, List.length_singleton, spansFrom_single hhit]
  unfold Headers.matchHeader
  rw [hstub]
  unfold oneCalendar
  dsimp only
  rw [htokens, hhit, hresidual]
  simp

theorem digits_of_asciiDigits {text : List Char} (h : asciiDigitsOutsideYears T text = true) :
    Digits text := by
  have hdigits : isAsciiDigits text = true := by
    unfold asciiDigitsOutsideYears at h
    split at h
    · exact (Bool.and_eq_true_iff.mp h).1
    · exact h
  obtain ⟨hne, hall⟩ := Bool.and_eq_true_iff.mp hdigits
  exact ⟨of_decide_eq_true hne, List.all_eq_true.mp hall⟩

theorem matchNormalized_integer {text : List Char} (h : asciiDigitsOutsideYears T text = true) :
    matchNormalized T (some text) = none := by
  have hdigits := digits_of_asciiDigits h
  rw [matchNormalized, hdigits.normalizeHeader, Option.bind_some, hdigits.matchHeader h]

end Integers

section Stubs

theorem fold_append (first second : List Char) :
    fold T (first ++ second) = fold T first ++ fold T second := by
  unfold fold
  rw [List.flatMap_append, List.map_append]

theorem length_le_fold (text : List Char) : text.length ≤ (fold T text).length := by
  induction text with
  | nil => exact Nat.zero_le _
  | cons ch text ih =>
    have hpos := List.length_pos_of_ne_nil (T.casefold_ne_nil ch)
    unfold fold at ih ⊢
    rw [List.length_map] at ih
    rw [List.flatMap_cons, List.length_map, List.length_append, List.length_cons]
    omega

theorem fold_dots {dots : List Char} (h : ∀ ch ∈ dots, decide (ch = '.') = true) :
    fold T dots = dots := by
  apply fold_small
  intro ch hch
  rw [of_decide_eq_true (h ch hch)]
  exact Or.inr (by decide)

theorem dot_of_mem_fold {text : List Char} (h : '.' ∈ fold T text) : '.' ∈ text := by
  obtain ⟨folded, hfolded, hdot⟩ := List.mem_map.mp h
  split_ifs at hdot with hyo
  · exact absurd hdot (by decide)
  · obtain ⟨ch, hch, hmem⟩ := List.mem_flatMap.mp hfolded
    rw [hdot] at hmem
    rwa [← T.dot_of_casefold ch hmem]

theorem stripDots_fold (text : List Char) : stripDots (fold T text) = fold T (stripDots text) := by
  obtain ⟨a, b, htext, ha, hb⟩ := exists_stripChars (· = '.') text
  have hcore : stripDots (fold T (stripDots text)) = fold T (stripDots text) := by
    obtain ⟨hhead, hlast⟩ := stripChars_eq_self.mp (ends_stripChars (· = '.') text)
    have hone : ∀ ch ≠ '.', ∀ other ∈ fold T [ch], decide (other = '.') = false := by
      intro ch hne other hother
      apply decide_eq_false
      rintro rfl
      exact hne (List.mem_singleton.mp (dot_of_mem_fold hother)).symm
    have hfold : ∀ ch, fold T [ch] ≠ [] := by
      intro ch hnil
      have hle := length_le_fold (T := T) [ch]
      rw [hnil, List.length_singleton, List.length_nil] at hle
      omega
    unfold stripDots
    generalize stripChars (· = '.') text = core at hhead hlast ⊢
    apply stripChars_eq_self.mpr
    constructor
    · intro other hother
      cases core with
      | nil => cases hother
      | cons ch rest =>
        rw [← List.singleton_append, fold_append, List.head?_append_of_ne_nil _ (hfold ch)] at hother
        exact hone ch (of_decide_eq_false (hhead ch rfl)) other (List.mem_of_mem_head? hother)
    · intro other hother
      rcases List.eq_nil_or_concat' core with rfl | ⟨init, ch, rfl⟩
      · cases hother
      · rw [fold_append, List.getLast?_append_of_ne_nil _ (hfold ch)] at hother
        exact hone ch (of_decide_eq_false (hlast ch List.getLast?_concat)) other
          (List.mem_of_mem_getLast? hother)
  have hfold : fold T text = a ++ fold T (stripDots text) ++ b := by
    conv_lhs => rw [htext]
    rw [fold_append, fold_append, fold_dots ha, fold_dots hb]
    rfl
  rw [hfold]
  exact stripChars_frame ha hb hcore

theorem notMem_of_stub {raw : List Char} (h : isStub T raw = true) {ch : Char}
    (hfold : fold T [ch] = [ch]) (hdot : ch ≠ '.') (hletter : ¬IsFolded ch) : ch ∉ raw := by
  obtain ⟨-, hletters⟩ := stubSurfaces_folded (stub_surface h)
  obtain ⟨a, b, hframe, ha, hb⟩ := exists_stripChars (· = '.') (fold T raw)
  intro hmem
  obtain ⟨before, after, rfl⟩ := List.append_of_mem hmem
  have hin : ch ∈ fold T (before ++ ch :: after) := by
    rw [← List.singleton_append, fold_append, fold_append, hfold]
    simp
  rw [hframe, List.mem_append, List.mem_append] at hin
  rcases hin with (hch | hch) | hch
  · exact hdot (of_decide_eq_true (ha ch hch))
  · exact hletter (hletters ch hch)
  · exact hdot (of_decide_eq_true (hb ch hch))

theorem fold_singleton {ch : Char} (h : IsSmall ch) : fold T [ch] = [ch] :=
  fold_small (by simpa using h)

theorem bracket_notMem_of_stub {raw : List Char} (h : isStub T raw = true) :
    ∀ ch ∈ brackets, ch ∉ raw := by
  intro ch hch
  have hall : brackets.all (fun ch => ch ≠ '.' && !decide (IsFolded ch) && ch ≠ 'ё' &&
      (ch = '«' || ch = '»' || (ch.toNat < 128 && ch.toLower = ch))) = true := by decide
  have hfacts := List.all_eq_true.mp hall ch hch
  simp only [Bool.and_eq_true, Bool.or_eq_true, decide_eq_true_eq, Bool.not_eq_true',
    decide_eq_false_iff_not] at hfacts
  obtain ⟨⟨⟨hdot, hfolded⟩, hyo⟩, hkind⟩ := hfacts
  refine notMem_of_stub h ?_ hdot hfolded
  rcases hkind with hquote | hascii
  · have hone : T.casefold ch = [ch] := T.casefold_quotes ch (by simpa using hquote)
    unfold fold
    rw [List.flatMap_singleton, hone, List.map_singleton, if_neg hyo]
  · exact fold_singleton (Or.inr hascii)

theorem length_stripPunctuation_of_stub {raw : List Char} (h : isStub T raw = true) :
    (stripPunctuation raw).length ≤ 24 := by
  obtain ⟨hlength, -⟩ := stubSurfaces_folded (stub_surface h)
  rw [stripDots_fold] at hlength
  have hdots : (stripDots raw).length ≤ (fold T (stripDots raw)).length := length_le_fold _
  have hpunctuation : (stripPunctuation raw).length ≤ (stripDots raw).length := by
    apply length_stripChars_le
    intro ch hch
    rw [of_decide_eq_true hch]
    decide
  omega

theorem scanTokens_of_stub {text raw : List Char}
    (hraw : normalizeHeader T.toHeaderTable (some text) = some raw) (h : isStub T raw = true) :
    scanTokens T raw = [] ∨ scanTokens T raw = [raw] := by
  have hblank : ' ' ∉ raw :=
    notMem_of_stub h (fold_singleton (Or.inr (by decide))) (by decide) (by decide)
  have hplain : raw.map (fun ch => if ch ∈ brackets then ' ' else ch) = raw := by
    conv_rhs => rw [← List.map_id raw]
    apply List.map_congr_left
    intro ch hch
    rw [if_neg fun hmem => bracket_notMem_of_stub h ch hmem hch]
    rfl
  obtain ⟨tokens, hwordy, rfl⟩ : ∃ tokens, (∀ token ∈ tokens, Wordy T.toHeaderTable token) ∧
      raw = spaced ' ' tokens := by
    rw [normalizeHeader_some] at hraw
    split at hraw
    · cases hraw
    · exact ⟨_, wordy_periodTokens (wordy_headerWords text), (Option.some.inj hraw).symm⟩
  rw [scanTokens, hplain, words_spaced hwordy]
  match tokens with
  | [] => exact Or.inl rfl
  | [t] =>
    right
    simp [spaced]
  | t :: u :: rest =>
    rw [spaced_cons_cons] at hblank
    exact absurd (by simp) hblank

theorem not_outsideTooMany_of_stub {text raw : List Char}
    (hraw : normalizeHeader T.toHeaderTable (some text) = some raw) (h : isStub T raw = true) :
    ¬OutsideTooMany T raw := by
  have hwordy : ∀ token ∈ outsideTokens T raw, Wordy T.toHeaderTable token :=
    fun token htoken => wordy_scanTokens raw token (List.mem_of_mem_filter htoken)
  have hcases : outsideTokens T raw = [] ∨ outsideTokens T raw = [raw] := by
    have hsub : (outsideTokens T raw).Sublist (scanTokens T raw) := List.filter_sublist
    rcases scanTokens_of_stub hraw h with hnone | hone
    · rw [hnone] at hsub
      exact Or.inl (List.sublist_nil.mp hsub)
    · rw [hone] at hsub
      exact List.sublist_singleton.mp hsub
  have hshort := length_stripPunctuation_of_stub h
  rw [OutsideTooMany, cleanResidual_spaced hwordy]
  rcases hcases with hnone | hone
  · rw [hnone]
    simp [residualWords, spaced]
  · rw [hone]
    by_cases hempty : stripPunctuation raw = []
    · simp [residualWords, spaced, hempty]
    · have hwords : residualWords [raw] = [stripPunctuation raw] := by
        simp [residualWords, hempty]
      have htext : spaced ' ' [stripPunctuation raw] = stripPunctuation raw := by simp [spaced]
      rw [hwords, htext, List.length_singleton]
      omega

end Stubs

section Caches

/-- Every remembered header has the result of its match. -/
def CacheSound (T : WordTable) (cache : HeaderCache) : Prop :=
  ∀ entry ∈ cache, entry.2 = matchHeader T entry.1

theorem classify_fst {cache : HeaderCache} (h : CacheSound T cache) (raw : List Char) :
    (classify T cache raw).1 = matchHeader T raw := by
  unfold classify
  cases hlookup : cache.lookup raw with
  | none => rfl
  | some hit =>
    obtain ⟨before, after, hcache, -⟩ := List.lookup_eq_some_iff.mp hlookup
    exact h (raw, hit) (by rw [hcache]; simp)

theorem classify_sound {cache : HeaderCache} (h : CacheSound T cache) (raw : List Char) :
    CacheSound T (classify T cache raw).2 := by
  intro entry hentry
  have hmem := List.mem_of_mem_take hentry
  rcases List.mem_cons.mp hmem with rfl | hmem
  · exact classify_fst h raw
  · exact h entry (List.mem_of_mem_filter hmem)

theorem classifyRaw_fst {cache : HeaderCache} (h : CacheSound T cache) (raw : List Char) :
    (classifyRaw T cache raw).1 = matchHeader T raw := by
  unfold classifyRaw
  split
  · rfl
  · exact classify_fst h raw

theorem classifyHeader_sound {cache : HeaderCache} (h : CacheSound T cache)
    (text : Option (List Char)) : CacheSound T (classifyHeader T cache text).2 := by
  unfold classifyHeader
  cases text with
  | none => exact h
  | some text =>
    dsimp only
    split_ifs
    · exact h
    · exact h
    · exact h
    · split
      · exact h
      · unfold classifyRaw
        split
        · exact h
        · exact classify_sound h _

theorem cacheAfter_sound (texts : List (Option (List Char))) :
    CacheSound T (cacheAfter T texts) := by
  have hrun : ∀ cache, CacheSound T cache →
      CacheSound T (texts.foldl (fun cache text => (classifyHeader T cache text).2) cache) := by
    induction texts with
    | nil => exact fun cache h => h
    | cons text texts ih => exact fun cache h => ih _ (classifyHeader_sound h text)
  exact hrun [] (by intro entry hentry; cases hentry)

end Caches

section Shortcuts

/-- One of the two counts of a long text turns it away. -/
def turnedAway (T : WordTable) (text : List Char) : Bool :=
  isLong text && (stableLetters text && tooManyOutsideWords T text ||
    proseBlocksCalendar T (collapseHeader T.toHeaderTable text))

/-- A count that turns a text away counts too many on the normalised text as well. -/
def CountsRight (T : WordTable) (text : List Char) : Prop :=
  turnedAway T text = true →
    ∀ raw ∈ normalizeHeader T.toHeaderTable (some text), OutsideTooMany T raw

end Shortcuts

section Sample

def smallLetter (ch : Char) : Char :=
  if 0x410 ≤ ch.toNat ∧ ch.toNat ≤ 0x42f then Char.ofNat (ch.toNat + 32)
  else if ch = 'Ё' then 'ё' else ch.toLower

def capitalLetter (ch : Char) : Char :=
  if 0x430 ≤ ch.toNat ∧ ch.toNat ≤ 0x44f then Char.ofNat (ch.toNat - 32)
  else if ch = 'ё' then 'Ё' else ch.toUpper

theorem toLower_of_not_ascii {ch : Char} (h : 128 ≤ ch.toNat) : ch.toLower = ch := by
  have hnot : ¬(ch.val ≥ 'A'.val ∧ ch.val ≤ 'Z'.val) := by
    rintro ⟨-, hhi⟩
    have hle : ch.toNat ≤ 90 := hhi
    omega
  unfold Char.toLower
  rw [dif_neg hnot]

theorem smallLetter_ascii {ch : Char} (h : ch.toNat < 128) : smallLetter ch = ch.toLower := by
  have hyo : ch ≠ 'Ё' := by
    rintro rfl
    exact absurd h (by decide)
  unfold smallLetter
  rw [if_neg (by omega), if_neg hyo]

theorem dot_of_smallLetter {ch : Char} (h : smallLetter ch = '.') : ch = '.' := by
  by_cases hascii : ch.toNat < 128
  · have hall : ∀ n < 128, (Char.ofNat n).toLower = '.' → Char.ofNat n = '.' := by decide +kernel
    rw [smallLetter_ascii hascii] at h
    have hch := hall ch.toNat hascii
    rw [Char.ofNat_toNat] at hch
    exact hch h
  · unfold smallLetter at h
    split_ifs at h with hrussian
    · have hall : ∀ n < 32, Char.ofNat (0x410 + n + 32) ≠ '.' := by decide +kernel
      have hsum : 0x410 + (ch.toNat - 0x410) + 32 = ch.toNat + 32 := by omega
      exact absurd h (hsum ▸ hall (ch.toNat - 0x410) (by omega))
    · exact absurd h (by decide)
    · rwa [toLower_of_not_ascii (by omega)] at h

/-- The letters of `plainTable` with their two cases. -/
def plainWords : WordTable where
  toHeaderTable := plainTable
  casefold ch := [smallLetter ch]
  variants ch := if ch.isDigit then [ch] else [ch, smallLetter ch, capitalLetter ch]
  casefold_ne_nil _ := List.cons_ne_nil _ _
  casefold_ascii _ h := congrArg (fun ch => [ch]) (smallLetter_ascii h)
  casefold_quotes ch hch := by
    have hall : ['«', '»'].all (fun ch => smallLetter ch = ch) = true := by decide +kernel
    rw [of_decide_eq_true (List.all_eq_true.mp hall ch hch)]
  casefold_small ch hlo hhi := by
    have hyo : ch ≠ 'Ё' := by
      rintro rfl
      exact absurd hlo (by decide)
    unfold smallLetter
    rw [if_neg (by omega), if_neg hyo, toLower_of_not_ascii (by omega)]
  dot_of_casefold _ h := dot_of_smallLetter (List.mem_singleton.mp h).symm
  variants_decimal ch h := by
    have hdigit : ch.isDigit = true := by
      by_contra hnot
      have hnone : plainTable.decimal ch = none := if_neg hnot
      rw [hnone] at h
      cases h
    rw [if_pos hdigit]

end Sample

end FinanceContext.Headers
