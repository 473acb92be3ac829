import FinanceContext.HeaderClassification
import FinanceContext.HeaderFixpoint
import FinanceContext.StrippedTexts

namespace FinanceContext.Headers

open TokenGaps

variable {T : WordTable}

section Spans

theorem windowHit_le {usableRun : List (List Char)} {lastDigit stop taken : ℕ} {hit : PeriodHit}
    (h : windowHit T usableRun lastDigit stop = some (taken, hit)) : taken ≤ stop := by
  induction stop with
  | zero => cases h
  | succ stop ih =>
    rw [windowHit] at h
    split at h
    · cases h
    · split at h
      · obtain ⟨rfl, -⟩ := Prod.mk.inj (Option.some.inj h)
        exact le_rfl
      · have hle := ih h
        omega

def UsableSpan (T : WordTable) (index : ℕ) (tokens : List (List Char))
    (span : ℕ × ℕ × PeriodHit) : Prop :=
  ∃ skipped taken, span.1 = index + skipped ∧ span.2.1 = index + skipped + taken ∧
    ∀ token ∈ (tokens.drop skipped).take taken, canSitInCalendar T token = true

theorem UsableSpan.drop {index passed : ℕ} {tokens : List (List Char)} {span : ℕ × ℕ × PeriodHit}
    (h : UsableSpan T (index + passed) (tokens.drop passed) span) :
    UsableSpan T index tokens span := by
  obtain ⟨skipped, taken, hstart, hstop, husable⟩ := h
  refine ⟨passed + skipped, taken, by omega, by omega, ?_⟩
  rwa [List.drop_drop] at husable

theorem spansFrom_usable {fuel index : ℕ} {tokens : List (List Char)}
    {span : ℕ × ℕ × PeriodHit} (h : span ∈ spansFrom T fuel index tokens) :
    UsableSpan T index tokens span := by
  induction fuel generalizing index tokens with
  | zero => cases h
  | succ fuel ih =>
    cases tokens with
    | nil => cases h
    | cons token tokens =>
      have hnext : span ∈ spansFrom T fuel (index + 1) tokens →
          UsableSpan T index (token :: tokens) span := by
        intro hmem
        have hspan := ih hmem
        exact UsableSpan.drop hspan
      rw [spansFrom] at h
      split at h
      · dsimp only at h
        split at h
        · exact (ih h).drop
        · split at h
          · exact hnext h
          · rename_i taken hit hwindow
            rcases List.mem_cons.mp h with rfl | h
            · have hle := windowHit_le hwindow
              refine ⟨0, taken, rfl, rfl, ?_⟩
              intro other hother
              rw [List.drop_zero] at hother
              have hstarts : (token :: tokens).take taken <+:
                  (token :: tokens).takeWhile (canSitInCalendar T) := by
                apply List.prefix_of_prefix_length_le (List.take_prefix taken _)
                  (List.takeWhile_prefix _)
                rw [List.length_take]
                omega
              exact List.mem_takeWhile_imp (hstarts.subset hother)
            · exact (ih h).drop
      · exact hnext h

theorem outside_sublist {tokens : List (List Char)} {start stop : ℕ} {hit : PeriodHit}
    (h : (start, stop, hit) ∈ spansFrom T tokens.length 0 tokens) :
    (tokens.filter (!canSitInCalendar T ·)).Sublist (tokens.take start ++ tokens.drop stop) := by
  obtain ⟨skipped, taken, hstart, hstop, husable⟩ := spansFrom_usable h
  dsimp only at hstart hstop
  rw [Nat.zero_add] at hstart hstop
  have hwindow : ((tokens.drop skipped).take taken).filter (!canSitInCalendar T ·) = [] := by
    rw [List.filter_eq_nil_iff]
    intro token htoken
    simp [husable token htoken]
  have hparts : tokens =
      tokens.take start ++ ((tokens.drop skipped).take taken ++ tokens.drop stop) := by
    rw [hstop, ← List.drop_drop, List.take_append_drop, hstart, List.take_append_drop]
  conv_lhs => rw [hparts]
  rw [List.filter_append, List.filter_append, hwindow, List.nil_append]
  exact List.filter_sublist.append List.filter_sublist

end Spans

section Residuals

theorem wordy_scanTokens (raw : List Char) :
    ∀ token ∈ scanTokens T raw, Wordy T.toHeaderTable token :=
  fun _ htoken => wordy_of_mem_words htoken

theorem wordy_stripPunctuation {token : List Char} (h : Wordy T.toHeaderTable token)
    (hne : stripPunctuation token ≠ []) : Wordy T.toHeaderTable (stripPunctuation token) :=
  ⟨hne, fun ch hch => h.2 ch ((stripChars_sublist _ token).subset hch)⟩

theorem wordy_residualWords {tokens : List (List Char)}
    (h : ∀ token ∈ tokens, Wordy T.toHeaderTable token) :
    ∀ token ∈ residualWords tokens, Wordy T.toHeaderTable token := by
  intro token htoken
  obtain ⟨hmem, hne⟩ := List.mem_filter.mp htoken
  obtain ⟨whole, hwhole, rfl⟩ := List.mem_map.mp hmem
  exact wordy_stripPunctuation (h whole hwhole) (by simpa using hne)

theorem residualWords_residualWords (tokens : List (List Char)) :
    residualWords (residualWords tokens) = residualWords tokens := by
  have hstripped : ∀ token ∈ residualWords tokens, stripPunctuation token = token ∧ token ≠ [] := by
    intro token htoken
    obtain ⟨hmem, hne⟩ := List.mem_filter.mp htoken
    obtain ⟨token, -, rfl⟩ := List.mem_map.mp hmem
    exact ⟨ends_stripChars _ token, by simpa using hne⟩
  generalize residualWords tokens = kept at hstripped
  induction kept with
  | nil => rfl
  | cons token kept ih =>
    obtain ⟨⟨hstrip, hne⟩, hkept⟩ := List.forall_mem_cons.mp hstripped
    have hrest := ih hkept
    unfold residualWords at hrest ⊢
    rw [List.map_cons, hstrip, List.filter_cons_of_pos (by simpa using hne), hrest]

theorem residualWords_append (first second : List (List Char)) :
    residualWords (first ++ second) = residualWords first ++ residualWords second := by
  unfold residualWords
  rw [List.map_append, List.filter_append]

theorem cleanResidual_spaced {tokens : List (List Char)}
    (h : ∀ token ∈ tokens, Wordy T.toHeaderTable token) :
    cleanResidual T (spaced ' ' tokens) = spaced ' ' (residualWords tokens) := by
  rw [cleanResidual, words_spaced h]

theorem words_append_blank (first second : List Char) :
    words T.toHeaderTable (first ++ ' ' :: second) =
      words T.toHeaderTable first ++ words T.toHeaderTable second := by
  unfold words
  rw [List.splitOnP_append_cons _ _ T.space_blank, List.filter_append]

end Residuals

/-- More than three words, or more than 24 characters, that cannot sit in a date. -/
def OutsideTooMany (T : WordTable) (raw : List Char) : Prop :=
  3 < (residualWords (outsideTokens T raw)).length ∨
    24 < (cleanResidual T (spaced ' ' (outsideTokens T raw))).length

section Blocking

theorem withResidual_eq_none {hit : PeriodHit} {outside rest : List (List Char)}
    (hrest : ∀ token ∈ rest, Wordy T.toHeaderTable token) (hsub : outside.Sublist rest)
    (hmany : 3 < (residualWords outside).length ∨
      24 < (spaced ' ' (residualWords outside)).length) :
    withResidual T hit (spaced ' ' (residualWords rest)) = none := by
  have hwords := wordy_residualWords hrest
  have hkept : (residualWords outside).Sublist (residualWords rest) :=
    (hsub.map stripPunctuation).filter _
  have hne : residualWords rest ≠ [] := by
    intro hnil
    rw [hnil, List.sublist_nil] at hkept
    rw [hkept] at hmany
    simp [spaced] at hmany
  have hresidual : spaced ' ' (residualWords rest) ≠ [] := mt (spaced_eq_nil_iff hwords).mp hne
  -- The marker of the hit only adds words in front.
  have hparts : ∃ marker, residualWords (words T.toHeaderTable (spaced ' '
      ((hit.variant.toList ++ [spaced ' ' (residualWords rest)]).filter (· ≠ [])))) =
        residualWords marker ++ residualWords rest ∧
      ∀ token ∈ marker, Wordy T.toHeaderTable token := by
    have hlast : words T.toHeaderTable (spaced ' ' (residualWords rest)) = residualWords rest :=
      words_spaced hwords
    have hone : spaced ' ' [spaced ' ' (residualWords rest)] =
        spaced ' ' (residualWords rest) := by simp [spaced]
    by_cases hmark : hit.variant.toList.filter (· ≠ []) = []
    · refine ⟨[], ?_, by simp⟩
      rw [List.filter_append, hmark, List.nil_append, List.filter_cons_of_pos (by simpa),
        List.filter_nil, hone, hlast, residualWords_residualWords]
      rfl
    · obtain ⟨marker, hvariant⟩ : ∃ marker, hit.variant = some marker := by
        apply Option.ne_none_iff_exists'.mp
        intro hnone
        rw [hnone] at hmark
        exact hmark rfl
      have hmarker : marker ≠ [] := by
        rintro rfl
        rw [hvariant] at hmark
        exact hmark rfl
      refine ⟨words T.toHeaderTable marker, ?_, fun _ h => wordy_of_mem_words h⟩
      rw [hvariant, Option.toList_some, List.singleton_append,
        List.filter_cons_of_pos (by simpa), List.filter_cons_of_pos (by simpa), List.filter_nil,
        spaced_cons_cons, hone, words_append_blank, hlast, residualWords_append,
        residualWords_residualWords]
  obtain ⟨marker, htext, hmarker⟩ := hparts
  have hall : ∀ token ∈ residualWords marker ++ residualWords rest,
      Wordy T.toHeaderTable token := by
    intro token htoken
    exact (List.mem_append.mp htoken).elim (wordy_residualWords hmarker token) (hwords token)
  have hwhole : (residualWords outside).Sublist (residualWords marker ++ residualWords rest) :=
    hkept.trans (List.sublist_append_right _ _)
  unfold withResidual
  dsimp only
  rw [if_pos]
  refine ⟨hresidual, ?_⟩
  rw [cleanResidual, htext]
  unfold residualOk
  rw [words_spaced hall]
  rcases hmany with hcount | hlength
  · have hle := hwhole.length_le
    have hmore : ¬(residualWords marker ++ residualWords rest).length ≤ 3 := by omega
    rw [decide_eq_false hmore]
    simp
  · have hle := length_spaced_le ' ' hwhole
    have hmore : ¬(spaced ' ' (residualWords marker ++ residualWords rest)).length ≤ 24 := by omega
    rw [decide_eq_false hmore]
    simp

theorem oneCalendar_eq_none {raw : List Char} (h : OutsideTooMany T raw) :
    oneCalendar T raw = none := by
  have hscan := wordy_scanTokens (T := T) raw
  have houtside : ∀ token ∈ outsideTokens T raw, Wordy T.toHeaderTable token :=
    fun token htoken => hscan token (List.mem_of_mem_filter htoken)
  have hresidual : residualHit T (scanTokens T raw) = none := by
    unfold residualHit
    split
    · rename_i start stop hit hspans
      have hmem : (start, stop, hit) ∈
          spansFrom T (scanTokens T raw).length 0 (scanTokens T raw) := by simp [hspans]
      have hrest : ∀ token ∈ (scanTokens T raw).take start ++ (scanTokens T raw).drop stop,
          Wordy T.toHeaderTable token := by
        intro token htoken
        rcases List.mem_append.mp htoken with htoken | htoken
        · exact hscan token (List.mem_of_mem_take htoken)
        · exact hscan token (List.mem_of_mem_drop htoken)
      rw [OutsideTooMany, cleanResidual_spaced houtside] at h
      rw [cleanResidual_spaced hrest]
      exact withResidual_eq_none hrest (outside_sublist hmem) h
    · rfl
  unfold oneCalendar
  dsimp only
  split_ifs with hempty husable
  · rfl
  · have hnone : outsideTokens T raw = [] := by
      unfold outsideTokens
      rw [List.filter_eq_nil_iff]
      intro token htoken
      simp [List.all_eq_true.mp husable token htoken]
    rw [OutsideTooMany, hnone] at h
    simp [residualWords, cleanResidual, spaced, words] at h
  · exact hresidual

end Blocking

end FinanceContext.Headers
