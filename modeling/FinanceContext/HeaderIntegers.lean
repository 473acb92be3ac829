import FinanceContext.HeaderWindows

namespace FinanceContext.Headers

open TokenGaps Formula Patterns Csr

variable {T : WordTable}

section Classes

def NotDigit (T : WordTable) (ch : Char) : Prop := isDigit T.toHeaderTable ch = false

theorem isDigit_ascii {ch : Char} (h : ch.toNat < 128) :
    isDigit T.toHeaderTable ch = ch.isDigit := by
  unfold isDigit isDecimal
  rw [T.decimal_ascii ch h]
  cases ch.isDigit <;> rfl

theorem notDigit_ascii {ch : Char} (h : ch.toNat < 128) (hdigit : ch.isDigit = false) :
    NotDigit T ch := by
  rw [NotDigit, isDigit_ascii h, hdigit]

theorem notDigit_anyCase {p : Char → Bool} (hp : ∀ ch, p ch = true → NotDigit T ch) {ch : Char}
    (h : anyCase T p ch = true) : NotDigit T ch := by
  rw [NotDigit, ← Bool.not_eq_true]
  intro hdigit
  rw [anyCase, T.variants_decimal ch hdigit, List.any_cons, List.any_nil, Bool.or_false] at h
  have hnot := hp ch h
  rw [NotDigit, hdigit] at hnot
  cases hnot

theorem needs_one {p : Char → Bool} (hp : ∀ ch, p ch = true → NotDigit T ch) :
    Needs (NotDigit T) (.one p : HeaderPattern) := hp

theorem needs_anyCase {p : Char → Bool} (hp : ∀ ch, p ch = true → NotDigit T ch) :
    Needs (NotDigit T) (.one (anyCase T p) : HeaderPattern) :=
  fun _ h => notDigit_anyCase hp h

theorem needs_anyCaseIn {chars : List Char} (h : ∀ ch ∈ chars, NotDigit T ch) :
    Needs (NotDigit T) (anyCaseIn T chars) :=
  needs_anyCase fun ch hch => h ch (by simpa using hch)

theorem needs_charIn {chars : List Char} (h : ∀ ch ∈ chars, NotDigit T ch) :
    Needs (NotDigit T) (charIn chars) :=
  needs_one fun ch hch => h ch (by simpa using hch)

theorem needs_wordPattern {word : List Char} {ch : Char} (hmem : ch ∈ word)
    (h : NotDigit T ch) : Needs (NotDigit T) (wordPattern T word) := by
  obtain ⟨before, after, rfl⟩ := List.append_of_mem hmem
  unfold wordPattern
  rw [List.map_append, List.map_cons]
  change NeedsSequence _ _
  induction before with
  | nil =>
    left
    apply needs_anyCase
    intro other hother
    rwa [of_decide_eq_true hother]
  | cons _ before ih => exact Or.inr (ih (by simp))

theorem needsChoice_iff {q : Char → Prop} {parts : List HeaderPattern} :
    NeedsChoice q parts ↔ ∀ r ∈ parts, Needs q r := by
  induction parts with
  | nil => exact iff_of_true trivial (by simp)
  | cons r parts ih => rw [NeedsChoice, ih, List.forall_mem_cons]

theorem reads_opt_digits {r : HeaderPattern} {word : List Char} (hneeds : Needs (NotDigit T) r)
    (h : Reads (.opt r) word) (hdigits : ∀ ch ∈ word, isDigit T.toHeaderTable ch = true) :
    word = [] := by
  rcases h with rfl | h
  · rfl
  · obtain ⟨ch, hch, hnot⟩ := needs_reads r word hneeds h
    rw [NotDigit, hdigits ch hch] at hnot
    cases hnot

end Classes

section Words

def IsSmall (ch : Char) : Prop := isSmallRussian ch = true ∨ (ch.toNat < 128 ∧ ch.toLower = ch)

instance (ch : Char) : Decidable (IsSmall ch) := inferInstanceAs (Decidable (_ ∨ _))

theorem fold_small {word : List Char} (h : ∀ ch ∈ word, IsSmall ch) : fold T word = word := by
  induction word with
  | nil => rfl
  | cons ch word ih =>
    obtain ⟨hch, hword⟩ := List.forall_mem_cons.mp h
    have hone : T.casefold ch = [ch] ∧ ch ≠ 'ё' := by
      rcases hch with hrussian | ⟨hascii, hlower⟩
      · obtain ⟨hlo, hhi⟩ := of_decide_eq_true hrussian
        refine ⟨T.casefold_small ch hlo hhi, ?_⟩
        rintro rfl
        exact absurd hhi (by decide)
      · refine ⟨by rw [T.casefold_ascii ch hascii, hlower], ?_⟩
        rintro rfl
        exact absurd hascii (by decide)
    have hrest := ih hword
    unfold fold at hrest ⊢
    rw [List.flatMap_cons, hone.1, List.singleton_append, List.map_cons, if_neg hone.2, hrest]

theorem paradigm_stem {root stem : List Char} {forms : List (List Char)}
    (h : paradigm root = some (stem, forms)) : ∃ n, 0 < n ∧ stem = root.take n := by
  obtain ⟨⟨ending, endings⟩, hfind, hstem⟩ := Option.map_eq_some_iff.mp h
  have hlong := List.find?_some hfind
  simp only [Bool.and_eq_true, decide_eq_true_eq] at hlong
  obtain ⟨-, hlength⟩ := hlong
  dsimp only at hstem
  split_ifs at hstem with hie
  · refine ⟨root.length - 1, by omega, ?_⟩
    rw [← (Prod.mk.inj hstem).1, List.dropLast_eq_take]
  · exact ⟨root.length - ending.length, by omega, (Prod.mk.inj hstem).1.symm⟩

theorem needs_candidate {entry : List Char} {ch : Char} (hfold : fold T entry = entry)
    (hhead : entry.head? = some ch) (h : NotDigit T ch) :
    Needs (NotDigit T) (candidate T entry) := by
  have hmem : ∀ n, 0 < n → ch ∈ entry.take n := by
    intro n hn
    cases entry with
    | nil => cases hhead
    | cons first entry =>
      obtain rfl := Option.some.inj hhead
      obtain ⟨n, rfl⟩ := Nat.exists_eq_add_of_lt hn
      rw [List.take_succ_cons]
      exact List.mem_cons_self
  have hentry : ch ∈ entry := List.mem_of_mem_head? hhead
  unfold candidate
  dsimp only
  rw [hfold]
  split_ifs
  · exact needs_wordPattern hentry h
  · split
    · rename_i stem forms hparadigm
      obtain ⟨n, hn, rfl⟩ := paradigm_stem hparadigm
      exact Or.inl (needs_wordPattern (hmem n hn) h)
    · exact Or.inl (needs_wordPattern hentry h)

theorem notDigit_russian {ch : Char} (h : isSmallRussian ch = true) : NotDigit T ch := by
  obtain ⟨hlo, hhi⟩ := of_decide_eq_true h
  have hfolded : IsFolded ch := Or.inr ⟨by omega, hhi⟩
  exact hfolded.not_digit

theorem needs_yearWords : Needs (NotDigit T) (entriesPattern T yearWords) := by
  left
  apply needsChoice_iff.mpr
  intro r hr
  obtain ⟨entry, hentry, rfl⟩ := List.mem_map.mp hr
  have hmem : entry ∈ yearWords := (List.mem_insertionSort _).mp hentry
  have hall : yearWords.all (fun entry => entry ≠ [] && entry.all isSmallRussian) = true := by
    decide
  obtain ⟨hne, hsmall⟩ := Bool.and_eq_true_iff.mp (List.all_eq_true.mp hall entry hmem)
  obtain ⟨ch, rest, rfl⟩ := List.exists_cons_of_ne_nil (of_decide_eq_true hne)
  have hletters := List.all_eq_true.mp hsmall
  exact needs_candidate (fold_small fun other hother => Or.inl (hletters other hother)) rfl
    (notDigit_russian (hletters ch List.mem_cons_self))

def stubSurfaces : List (List Char) :=
  stubWords.flatMap fun root => root :: inflections.map (root ++ ·) ++
    match paradigm root with
    | none => []
    | some (stem, forms) => forms.map (stem ++ ·)

theorem prefix_split {root token : List Char} {endings : List (List Char)}
    (hstarts : root.isPrefixOf token = true) (h : token.drop root.length ∈ endings) :
    token ∈ endings.map (root ++ ·) := by
  obtain ⟨rest, rfl⟩ := List.isPrefixOf_iff_prefix.mp hstarts
  rw [List.drop_left] at h
  exact List.mem_map_of_mem h

theorem stub_surface {raw : List Char} (h : isStub T raw = true) :
    stripDots (fold T raw) ∈ stubSurfaces := by
  obtain ⟨entry, hentry, hmatch⟩ := List.any_eq_true.mp h
  have hall : stubWords.all (fun entry => entry.all (fun ch => IsSmall ch) &&
      stripDots entry = entry) = true := by decide
  obtain ⟨hsmall, hdots⟩ := Bool.and_eq_true_iff.mp (List.all_eq_true.mp hall entry hentry)
  have hfold : fold T entry = entry :=
    fold_small fun ch hch => of_decide_eq_true (List.all_eq_true.mp hsmall ch hch)
  have hroot : stripDots (fold T entry) = entry := by
    rw [hfold, of_decide_eq_true hdots]
  apply List.mem_flatMap.mpr
  refine ⟨entry, hentry, ?_⟩
  unfold matchesEntry at hmatch
  dsimp only at hmatch
  rw [hroot] at hmatch
  split_ifs at hmatch with _ hsame _ hending
  · rw [hsame]
    exact List.mem_append_left _ List.mem_cons_self
  · apply List.mem_append_left
    exact List.mem_cons_of_mem _ (prefix_split hending.1 hending.2)
  · apply List.mem_append_right
    unfold sameParadigm at hmatch
    cases hparadigm : paradigm entry with
    | none =>
      rw [hparadigm] at hmatch
      cases hmatch
    | some pair =>
      rw [hparadigm] at hmatch
      obtain ⟨hstarts, hform⟩ := Bool.and_eq_true_iff.mp hmatch
      exact prefix_split hstarts (by simpa using hform)

theorem stubSurfaces_folded {surface : List Char} (h : surface ∈ stubSurfaces) :
    surface.length ≤ 24 ∧ ∀ ch ∈ surface, IsFolded ch := by
  have hall : stubSurfaces.all (fun surface => surface.length ≤ 24 &&
      surface.all fun ch => IsFolded ch) = true := by decide +kernel
  obtain ⟨hlength, hletters⟩ := Bool.and_eq_true_iff.mp (List.all_eq_true.mp hall surface h)
  exact ⟨of_decide_eq_true hlength,
    fun ch hch => of_decide_eq_true (List.all_eq_true.mp hletters ch hch)⟩

end Words

section Integers

variable {text : List Char}

/-- Nothing but ASCII digits. -/
structure Digits (text : List Char) : Prop where
  nonempty : text ≠ []
  all : ∀ ch ∈ text, ch.isDigit = true

theorem Digits.ascii (h : Digits text) {ch : Char} (hch : ch ∈ text) : ch.toNat < 128 := by
  have hrange := digit_range (h.all ch hch)
  omega

theorem Digits.digit (h : Digits text) {ch : Char} (hch : ch ∈ text) :
    isDigit T.toHeaderTable ch = true := by
  rw [isDigit_ascii (h.ascii hch), h.all ch hch]

theorem Digits.not_notDigit (h : Digits text) : ∀ ch ∈ text, ¬NotDigit T ch := by
  intro ch hch hnot
  rw [NotDigit, h.digit hch] at hnot
  cases hnot

theorem Digits.wordy (h : Digits text) : Wordy T.toHeaderTable text := by
  refine ⟨h.nonempty, ?_⟩
  intro ch hch
  exact T.not_space_of_alnum ch (T.alnum_of_digit ch (T.digit_of_decimal ch (h.digit hch)))

theorem nfkc_ascii_text (h : ∀ ch ∈ text, ch.toNat < 128) : T.nfkc text = text := by
  induction text with
  | nil => exact nfkc_nil
  | cons ch text ih =>
    obtain ⟨hch, htext⟩ := List.forall_mem_cons.mp h
    have hhead : ∀ other ∈ text.head?, T.settled other = true := by
      intro other hother
      exact T.settled_ascii other (htext other (List.mem_of_mem_head? hother))
    rw [← List.singleton_append, T.nfkc_append [ch] text hhead, T.nfkc_ascii ch hch, ih htext]

theorem Digits.fold (h : Digits text) : Headers.fold T text = text := by
  apply fold_small
  intro ch hch
  have hrange := digit_range (h.all ch hch)
  have hnot : ¬(ch.val ≥ 'A'.val ∧ ch.val ≤ 'Z'.val) := by
    rintro ⟨hlo, -⟩
    have hle : 65 ≤ ch.toNat := hlo
    omega
  refine Or.inr ⟨by omega, ?_⟩
  unfold Char.toLower
  rw [dif_neg hnot]

theorem Digits.normalizeHeader (h : Digits text) :
    Headers.normalizeHeader T.toHeaderTable (some text) = some text := by
  have hplain : text.map plainChar = text := by
    conv_rhs => rw [← List.map_id text]
    apply List.map_congr_left
    intro ch hch
    have hascii := h.ascii hch
    have hne : ∀ other : Char, 128 ≤ other.toNat → ch ≠ other := by
      rintro other hother rfl
      omega
    unfold plainChar
    rw [if_neg (hne _ (by decide)), if_neg (hne _ (by decide)), if_neg (hne _ (by decide))]
    rfl
  have hwords : headerWords T.toHeaderTable text = [text] := by
    have hwordy : ∀ word ∈ [text], Wordy T.toHeaderTable word := by
      simpa using h.wordy
    have hone : spaced ' ' [text] = text := by simp [spaced]
    have hkept := words_spaced hwordy
    rw [hone] at hkept
    rw [headerWords, nfkc_ascii_text fun ch hch => h.ascii hch, hplain, hkept]
  have hletters : letters T.toHeaderTable text = [] := by
    unfold letters
    rw [List.filter_eq_nil_iff]
    intro ch hch halpha
    have hnot := T.not_digit_of_alpha ch halpha
    rw [T.digit_of_decimal ch (h.digit hch)] at hnot
    cases hnot
  have hfold : foldPeriodToken T.toHeaderTable text = text := by
    unfold foldPeriodToken
    split_ifs with _ hnone
    · rfl
    · rfl
    all_goals exact absurd (by rw [hletters]; rfl) hnone
  rw [normalizeHeader_some, hwords, if_neg (List.cons_ne_nil _ _)]
  unfold periodTokens markerTokens numberTokens
  rw [merged_singleton, merged_singleton, List.map_singleton, hfold]
  simp [spaced]

theorem needs_letters {chars : List Char} (h : (chars.all fun ch => IsFolded ch) = true) :
    Needs (NotDigit T) (anyCaseIn T chars) := by
  apply needs_anyCaseIn
  intro ch hch
  have hletter : IsFolded ch := of_decide_eq_true (List.all_eq_true.mp h ch hch)
  exact hletter.not_digit

theorem needs_word {ch : Char} {word : List Char} (h : IsFolded ch) :
    Needs (NotDigit T) (wordPattern T (ch :: word)) :=
  needs_wordPattern List.mem_cons_self h.not_digit

theorem needs_dateMarks : Needs (NotDigit T) (charIn ['.', '/']) := by
  apply needs_charIn
  intro ch hch
  apply notDigit_ascii
  · have hall : ['.', '/'].all (fun ch => ch.toNat < 128) = true := by decide
    exact of_decide_eq_true (List.all_eq_true.mp hall ch hch)
  · have hall : ['.', '/'].all (fun ch => !ch.isDigit) = true := by decide
    simpa using List.all_eq_true.mp hall ch hch

theorem needs_dash : Needs (NotDigit T) (char '-') := by
  apply needs_one
  intro ch hch
  rw [of_decide_eq_true hch]
  exact notDigit_ascii (by decide) (by decide)

theorem needs_partMarker : Needs (NotDigit T) (partMarker T) := by
  refine ⟨?_, ?_, ?_, ?_, ?_, ?_, ?_, ?_, ?_, ?_, trivial⟩
  · exact Or.inl (needs_letters (by decide))
  · exact Or.inr (Or.inr (Or.inl (needs_letters (by decide))))
  · exact Or.inl (needs_letters (by decide))
  · exact Or.inr (Or.inr (Or.inl (needs_letters (by decide))))
  · exact needs_word (by decide)
  · exact needs_word (by decide)
  · exact needs_word (by decide)
  · exact needs_word (by decide)
  · exact needs_word (by decide)
  · exact Or.inr (Or.inr (Or.inl (needs_letters (by decide))))

theorem notDigit_nameLetter {ch : Char} (h : isNameLetter ch = true) : NotDigit T ch := by
  have hletter : IsFolded ch ∨ ch = 'ё' ∨ ch = 'Ё' := by
    simp only [isNameLetter, Bool.or_eq_true, Bool.and_eq_true, decide_eq_true_eq] at h
    rcases h with ((hascii | hrussian) | hsmall) | hcap
    · exact Or.inl (Or.inl hascii)
    · exact Or.inl (Or.inr hrussian)
    · exact Or.inr (Or.inl hsmall)
    · exact Or.inr (Or.inr hcap)
  have hcyrillic : ∀ other : Char, 0x400 ≤ other.toNat → other.toNat ≤ 0x481 →
      NotDigit T other := by
    intro other hlo hhi
    rw [NotDigit, ← Bool.not_eq_true]
    intro hdigit
    have hnot := T.not_digit_of_alpha other (T.alpha_cyrillic other hlo hhi)
    rw [T.digit_of_decimal other hdigit] at hnot
    cases hnot
  rcases hletter with hfolded | rfl | rfl
  · exact hfolded.not_digit
  · exact hcyrillic _ (by decide) (by decide)
  · exact hcyrillic _ (by decide) (by decide)

theorem needs_isoDay : Needs (NotDigit T) (isoDayPattern T) := Or.inr (Or.inl needs_dash)

theorem needs_isoMonth : Needs (NotDigit T) (isoMonthPattern T) := Or.inr (Or.inl needs_dash)

theorem needs_shortDate : Needs (NotDigit T) (shortDatePattern T) :=
  Or.inr (Or.inl needs_dateMarks)

theorem needs_monthYear : Needs (NotDigit T) (monthYearPattern T) :=
  Or.inr (Or.inl needs_dateMarks)

theorem needs_namedMonth : Needs (NotDigit T) (namedMonthPattern T) :=
  Or.inl (Or.inl (needs_anyCase fun _ hch => notDigit_nameLetter hch))

theorem needs_fy : Needs (NotDigit T) (wordPattern T ['F', 'Y']) := needs_word (by decide)

theorem needs_fyShort : Needs (NotDigit T) (fyShortPattern T) := Or.inl needs_fy

theorem reads_fullYear (h : Reads (fullYearPattern T) text) : ∃ a b c d, text = [a, b, c, d] ∧
    ((a = '1' ∧ b = '9') ∨ (a = '2' ∧ b = '0')) := by
  obtain ⟨u, v, rfl, hcentury, hrest⟩ := h
  obtain ⟨w, v, rfl, ⟨c, -, rfl⟩, hrest⟩ := hrest
  obtain ⟨w, v, rfl, ⟨d, -, rfl⟩, rfl⟩ := hrest
  have hpair : ∀ {x y : Char} {word : List Char},
      ReadsSequence [char x, char y] word → word = [x, y] := by
    intro x y word hword
    obtain ⟨_, _, rfl, ⟨ch, hch, rfl⟩, hrest⟩ := hword
    obtain ⟨_, _, rfl, ⟨ch', hch', rfl⟩, rfl⟩ := hrest
    rw [of_decide_eq_true hch, of_decide_eq_true hch']
    rfl
  rcases hcentury with hnineteen | htwenty | hnone
  · rw [hpair hnineteen]
    exact ⟨_, _, c, d, rfl, Or.inl ⟨rfl, rfl⟩⟩
  · rw [hpair htwenty]
    exact ⟨_, _, c, d, rfl, Or.inr ⟨rfl, rfl⟩⟩
  · exact absurd hnone not_false

theorem Digits.year (h : Digits text) {groups : List (PatternGroup × List Char)}
    (hmatch : fullMatch (yearPattern T) text = some groups) :
    ∃ a b c d, text = [a, b, c, d] ∧ ((a = '1' ∧ b = '9') ∨ (a = '2' ∧ b = '0')) := by
  have hdigits : ∀ ch ∈ text, isDigit T.toHeaderTable ch = true := fun ch hch => h.digit hch
  obtain ⟨fy, rest, rfl, hfy, hrest⟩ := reads_of_fullMatch hmatch
  obtain ⟨year, rest, rfl, hyear, hrest⟩ := hrest
  obtain ⟨word, rest, rfl, hword, hrest⟩ := hrest
  obtain ⟨sfx, rest, rfl, hsfx, rfl⟩ := hrest
  have hfy : fy = [] := by
    have hneeds : Needs (NotDigit T) (.sequence [wordPattern T ['F', 'Y'], spaces T]) :=
      Or.inl needs_fy
    exact reads_opt_digits hneeds hfy fun ch hch => hdigits ch (by simp [hch])
  have hword : word = [] := by
    have hneeds : Needs (NotDigit T)
        (.sequence [spaces T, entriesPattern T yearWords, .opt (char '.')]) :=
      Or.inr (Or.inl needs_yearWords)
    exact reads_opt_digits hneeds hword fun ch hch => hdigits ch (by simp [hch])
  have hsfx : sfx = [] := by
    have hneeds : Needs (NotDigit T) (anyCaseIn T markerSuffix) :=
      needs_letters (by decide)
    exact reads_opt_digits hneeds hsfx fun ch hch => hdigits ch (by simp [hch])
  subst hfy hword hsfx
  simpa using reads_fullYear hyear

theorem Digits.yearFloat (h : Digits text) {groups : List (PatternGroup × List Char)}
    (hmatch : fullMatch (yearFloatPattern T) text = some groups) :
    ∃ a b c d, text = [a, b, c, d] ∧ ((a = '1' ∧ b = '9') ∨ (a = '2' ∧ b = '0')) := by
  have hdigits : ∀ ch ∈ text, isDigit T.toHeaderTable ch = true := fun ch hch => h.digit hch
  obtain ⟨year, rest, rfl, hyear, hrest⟩ := reads_of_fullMatch hmatch
  obtain ⟨zeros, rest, rfl, hzeros, rfl⟩ := hrest
  have hneeds : Needs (NotDigit T) (.sequence [char '.', char '0', .many (· = '0')]) := by
    left
    apply needs_one
    intro ch hch
    rw [of_decide_eq_true hch]
    exact notDigit_ascii (by decide) (by decide)
  have hzeros : zeros = [] :=
    reads_opt_digits hneeds hzeros fun ch hch => hdigits ch (by simp [hch])
  subst hzeros
  simpa using reads_fullYear hyear

theorem Digits.readNumber_year (h : Digits text) {a b c d : Char} (htext : text = [a, b, c, d])
    (hcentury : (a = '1' ∧ b = '9') ∨ (a = '2' ∧ b = '0')) :
    1900 ≤ readNumber T text ∧ readNumber T text ≤ 2099 := by
  have hvalue : ∀ ch ∈ text, (T.decimal ch).getD 0 = ch.toNat - 48 := by
    intro ch hch
    rw [T.decimal_ascii ch (h.ascii hch), if_pos (h.all ch hch)]
    rfl
  subst htext
  have hc := digit_range (h.all c (by simp))
  have hd := digit_range (h.all d (by simp))
  have hsum : readNumber T [a, b, c, d] = (((a.toNat - 48) * 10 + (b.toNat - 48)) * 10 +
      (c.toNat - 48)) * 10 + (d.toNat - 48) := by
    unfold readNumber readInt
    simp only [List.foldl_cons, List.foldl_nil]
    rw [hvalue a (by simp), hvalue b (by simp), hvalue c (by simp), hvalue d (by simp)]
    omega
  rw [hsum]
  rcases hcentury with ⟨rfl, rfl⟩ | ⟨rfl, rfl⟩
  · have hone : '1'.toNat = 49 := rfl
    have hnine : '9'.toNat = 57 := rfl
    omega
  · have htwo : '2'.toNat = 50 := rfl
    have hzero : '0'.toNat = 48 := rfl
    omega

theorem Digits.matchCalendarText (h : Digits text)
    (hyear : asciiDigitsOutsideYears T text = true) :
    Headers.matchCalendarText T text = none := by
  have hnone : ∀ {r : HeaderPattern}, Needs (NotDigit T) r → fullMatch r text = none :=
    fun hneeds => fullMatch_eq_none hneeds h.not_notDigit
  have hoff : ¬∃ a b c d, text = [a, b, c, d] ∧ ((a = '1' ∧ b = '9') ∨ (a = '2' ∧ b = '0')) := by
    rintro ⟨a, b, c, d, htext, hcentury⟩
    have hrange := h.readNumber_year (T := T) htext hcentury
    unfold asciiDigitsOutsideYears at hyear
    rw [if_pos (by rw [htext]; rfl)] at hyear
    simp only [Bool.and_eq_true, Bool.or_eq_true, decide_eq_true_eq] at hyear
    omega
  have hisoDay : isoDayHit T text = none := by
    rw [isoDayHit, hnone needs_isoDay]
    rfl
  have hisoMonth : isoMonthHit T text = none := by
    rw [isoMonthHit, hnone needs_isoMonth]
    rfl
  have hshort : shortDateHit T text = none := by
    rw [shortDateHit, hnone needs_shortDate]
    rfl
  have hmonthYear : monthYearHit T text = none := by
    rw [monthYearHit, hnone needs_monthYear]
    rfl
  have hmonth : monthHit T text = none := by
    rw [monthHit, hnone needs_namedMonth]
    rfl
  have hpart : partHit T text = none := by
    rw [partHit, partOfYear, found_eq_false needs_partMarker h.not_notDigit]
    rfl
  have hfy : fyHit T text = none := by
    rw [fyHit, hnone needs_fyShort]
    rfl
  have hyearHit : yearHit T text = none := by
    rw [yearHit]
    cases hmatch : fullMatch (yearPattern T) text with
    | none => rfl
    | some groups => exact absurd (h.year hmatch) hoff
  have hfloat : yearFloatHit T text = none := by
    rw [yearFloatHit]
    cases hmatch : fullMatch (yearFloatPattern T) text with
    | none => rfl
    | some groups => exact absurd (h.yearFloat hmatch) hoff
  unfold Headers.matchCalendarText
  rw [hisoDay, hisoMonth, hshort, hmonthYear, hmonth, hpart, hfy, hyearHit, hfloat]
  simp

end Integers

end FinanceContext.Headers
