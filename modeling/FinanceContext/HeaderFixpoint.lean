import FinanceContext.FormulaRoundTrip
import FinanceContext.HeaderFolding
import Mathlib.Algebra.Order.BigOperators.Group.List

namespace FinanceContext.Headers

open TokenGaps Formula

section Words

variable {T : HeaderTable}

/-- A word by itself: something in it, and no white space. -/
def Wordy (T : HeaderTable) (word : List Char) : Prop :=
  word ≠ [] ∧ ∀ ch ∈ word, T.space ch = false

theorem Wordy.solid {word : List Char} (h : Wordy T word) : Solid ' ' word := by
  refine ⟨h.1, ?_⟩
  intro hblank
  have hspace := h.2 ' ' hblank
  rw [T.space_blank] at hspace
  cases hspace

theorem Wordy.append {t u : List Char} (ht : Wordy T t) (hu : Wordy T u) : Wordy T (t ++ u) := by
  refine ⟨List.append_ne_nil_of_left_ne_nil ht.1 u, ?_⟩
  intro ch hch
  rcases List.mem_append.mp hch with hch | hch
  · exact ht.2 ch hch
  · exact hu.2 ch hch

theorem Wordy.map {f : Char → Char} (hf : Folds f) {word : List Char} (h : Wordy T word) :
    Wordy T (word.map f) := by
  refine ⟨by simpa using h.1, ?_⟩
  intro ch hch
  obtain ⟨ch, hmem, rfl⟩ := List.mem_map.mp hch
  rw [hf.space]
  exact h.2 ch hmem

theorem splitOnP_pieces {p : Char → Bool} (text : List Char) :
    ∃ first others, text.splitOnP p = first :: others ∧ first <+: text ∧
      (∀ piece ∈ others, piece <:+: text) ∧
      ∀ piece ∈ first :: others, ∀ ch ∈ piece, p ch = false := by
  induction text with
  | nil => exact ⟨[], [], rfl, List.prefix_rfl, by simp, by simp⟩
  | cons ch text ih =>
    obtain ⟨first, others, hsplit, hfirst, hothers, hclean⟩ := ih
    rw [List.splitOnP_cons_eq_if_modifyHead, hsplit]
    cases hch : p ch with
    | true =>
      refine ⟨[], first :: others, rfl, List.nil_prefix, ?_, ?_⟩
      · intro piece hpiece
        apply List.infix_cons
        rcases List.mem_cons.mp hpiece with rfl | hpiece
        · exact hfirst.isInfix
        · exact hothers piece hpiece
      · exact List.forall_mem_cons.mpr ⟨by simp, hclean⟩
    | false =>
      refine ⟨ch :: first, others, rfl, List.cons_prefix_cons.mpr ⟨rfl, hfirst⟩, ?_, ?_⟩
      · exact fun piece hpiece => List.infix_cons (hothers piece hpiece)
      · obtain ⟨hcleanFirst, hcleanOthers⟩ := List.forall_mem_cons.mp hclean
        exact List.forall_mem_cons.mpr ⟨List.forall_mem_cons.mpr ⟨hch, hcleanFirst⟩, hcleanOthers⟩

theorem infix_of_mem_words {text word : List Char} (h : word ∈ words T text) : word <:+: text := by
  obtain ⟨first, others, hsplit, hfirst, hothers, -⟩ := splitOnP_pieces (p := T.space) text
  have hmem := (List.mem_filter.mp h).1
  rw [hsplit] at hmem
  rcases List.mem_cons.mp hmem with rfl | hmem
  · exact hfirst.isInfix
  · exact hothers word hmem

theorem wordy_of_mem_words {text word : List Char} (h : word ∈ words T text) : Wordy T word := by
  obtain ⟨first, others, hsplit, -, -, hclean⟩ := splitOnP_pieces (p := T.space) text
  obtain ⟨hmem, hne⟩ := List.mem_filter.mp h
  rw [hsplit] at hmem
  exact ⟨by simpa using hne, hclean word hmem⟩

theorem words_spaced {tokens : List (List Char)} (h : ∀ token ∈ tokens, Wordy T token) :
    words T (spaced ' ' tokens) = tokens := by
  induction tokens with
  | nil => rfl
  | cons t tokens ih =>
    have ht := h t List.mem_cons_self
    have hrest := ih fun u hu => h u (List.mem_cons_of_mem t hu)
    unfold words at hrest ⊢
    cases tokens with
    | nil =>
      have hone : spaced ' ' [t] = t := by simp [spaced]
      rw [hone, List.splitOnP_eq_singleton ht.2]
      simp [ht.1]
    | cons u rest =>
      rw [spaced_cons_cons, List.splitOnP_append_cons_of_forall_mem ht.2 ' ' T.space_blank,
        List.filter_cons_of_pos (by simpa using ht.1), hrest]

theorem splitOn_spaced {tokens : List (List Char)} (h : ∀ token ∈ tokens, Solid ' ' token)
    (hne : tokens ≠ []) : (spaced ' ' tokens).splitOn ' ' = tokens :=
  List.splitOn_intercalate ' ' (fun token ht => (h token ht).2) hne

end Words

section Normal

variable (T : HeaderTable)

def marks (text : List Char) : List Char := text.takeWhile (!T.settled ·)

/-- Where `f` writes another letter, no mark behind it joins it. -/
def Firm (f : Char → Char) : List Char → Prop
  | [] => True
  | ch :: after =>
    (f ch ≠ ch → T.nfkc (f ch :: marks T after) = f ch :: marks T after) ∧ Firm f after

def Respells (f : Char → Char) (text : List Char) : Prop :=
  ∀ ch ∈ text, f ch ≠ ch → T.settled ch = true ∧ IsFolded (f ch)

variable {T} {f : Char → Char}

theorem nfkc_piece {text piece : List Char} (h : T.nfkc text = text) (hpiece : piece <:+: text) :
    T.nfkc piece = piece := by
  obtain ⟨front, back, rfl⟩ := hpiece
  exact T.nfkc_piece front piece back h

theorem nfkc_nil : T.nfkc [] = [] := nfkc_piece (T.nfkc_nfkc []) List.nil_infix

theorem not_settled_of_mem_marks {text : List Char} {mark : Char} (h : mark ∈ marks T text) :
    T.settled mark = false := by
  have hmark := List.mem_takeWhile_imp h
  simpa using hmark

theorem firm_or_shorter {text : List Char} (hf : Respells T f text) (h : T.nfkc text = text) :
    Firm T f text ∧ T.nfkc (text.map f) = text.map f ∨
      ¬Firm T f text ∧ (T.nfkc (text.map f)).length < text.length := by
  induction text with
  | nil => exact .inl ⟨trivial, nfkc_nil⟩
  | cons ch text ih =>
    obtain ⟨hch, htext⟩ := List.forall_mem_cons.mp hf
    have hnormal : T.nfkc text = text := nfkc_piece h (List.suffix_cons ch text).isInfix
    let rest := text.dropWhile (!T.settled ·)
    have hsplit : marks T text ++ rest = text := List.takeWhile_append_dropWhile
    have hkept : (marks T text).map f = marks T text := by
      conv_rhs => rw [← List.map_id (marks T text)]
      apply List.map_congr_left
      intro mark hmark
      by_contra hne
      have hsettled := (htext mark ((List.takeWhile_prefix _).subset hmark) hne).1
      rw [not_settled_of_mem_marks hmark] at hsettled
      cases hsettled
    have hmap : text.map f = marks T text ++ rest.map f := by
      rw [← hkept, ← List.map_append, hsplit]
    have hhead : ∀ other ∈ (rest.map f).head?, T.settled other = true := by
      intro other hother
      rw [List.head?_map, Option.mem_map] at hother
      obtain ⟨old, hold, rfl⟩ := hother
      have hsettled : T.settled old = true := by
        have hstop := List.head?_dropWhile_not (!T.settled ·) text
        rw [show (text.dropWhile (!T.settled ·)).head? = some old from hold] at hstop
        simpa using hstop
      by_cases hsame : f old = old
      · rwa [hsame]
      · have hmem : old ∈ text := (List.dropWhile_suffix _).subset (List.mem_of_mem_head? hold)
        exact (htext old hmem hsame).2.settled
    have hmarks : T.nfkc (marks T text) = marks T text :=
      nfkc_piece hnormal (List.takeWhile_prefix _).isInfix
    have hafter : T.nfkc (text.map f) = marks T text ++ T.nfkc (rest.map f) := by
      rw [hmap, T.nfkc_append _ _ hhead, hmarks]
    have hall : T.nfkc ((ch :: text).map f) =
        T.nfkc (f ch :: marks T text) ++ T.nfkc (rest.map f) := by
      rw [List.map_cons, hmap, ← List.cons_append, T.nfkc_append _ _ hhead]
    by_cases hblock : T.nfkc (f ch :: marks T text) = f ch :: marks T text
    · have hcons : T.nfkc ((ch :: text).map f) = f ch :: T.nfkc (text.map f) := by
        rw [hall, hblock, hafter, List.cons_append]
      have hfirm : Firm T f (ch :: text) ↔ Firm T f text := and_iff_right fun _ => hblock
      rw [hcons, hfirm, List.map_cons, List.length_cons, List.length_cons]
      rcases ih htext hnormal with ⟨hsteady, hsame⟩ | ⟨hnot, hshort⟩
      · exact .inl ⟨hsteady, by rw [hsame]⟩
      · exact .inr ⟨hnot, by omega⟩
    · have hne : f ch ≠ ch := by
        intro hsame
        apply hblock
        rw [hsame]
        apply nfkc_piece h
        exact ⟨[], rest, by rw [List.nil_append, List.cons_append, hsplit]⟩
      right
      refine ⟨fun hfirm => hblock (hfirm.1 hne), ?_⟩
      have hshorter := T.nfkc_marks (f ch) (marks T text) (hch hne).2 hmarks
        (fun mark hmark => not_settled_of_mem_marks hmark) hblock
      have hle : (T.nfkc (text.map f)).length ≤ text.length := by
        rcases ih htext hnormal with ⟨-, hsame⟩ | ⟨-, hshort⟩
        · rw [hsame, List.length_map]
        · exact hshort.le
      rw [hafter, List.length_append] at hle
      rw [List.length_cons] at hshorter
      rw [hall, List.length_append, List.length_cons]
      omega

theorem nfkc_spaced (tokens : List (List Char)) :
    T.nfkc (spaced ' ' tokens) = spaced ' ' (tokens.map T.nfkc) := by
  induction tokens with
  | nil => exact nfkc_nil
  | cons t tokens ih =>
    cases tokens with
    | nil => simp [spaced]
    | cons u rest =>
      have hhead : ∀ ch ∈ (' ' :: spaced ' ' (u :: rest)).head?, T.settled ch = true := by
        rintro _ ⟨⟩
        exact T.settled_ascii ' ' (by decide)
      rw [spaced_cons_cons, T.nfkc_append _ _ hhead, T.nfkc_space, ih]
      simp only [List.map_cons]
      rw [spaced_cons_cons]

end Normal

section Passes

variable (T : HeaderTable)

def headerWords (text : List Char) : List (List Char) := words T ((T.nfkc text).map plainChar)

def numberTokens (tokens : List (List Char)) : List (List Char) := merged (joins T) tokens

def markerTokens (tokens : List (List Char)) : List (List Char) := merged (glues T) tokens

def periodTokens (tokens : List (List Char)) : List (List Char) :=
  (markerTokens T (numberTokens T tokens)).map (foldPeriodToken T)

/-- The words of a header in its own letters, put together as they are after `plainChar`. -/
def headerTokens (text : List Char) : List (List Char) :=
  merged (fun t u => glues T (t.map plainChar) (u.map plainChar))
    (merged (fun t u => joins T (t.map plainChar) (u.map plainChar)) (words T (T.nfkc text)))

def spelling (token : List Char) (ch : Char) : Char := foldOf T (token.map plainChar) (plainChar ch)

/-- No letter is respelled in front of a mark that joins its new spelling. -/
def Steady (text : List Char) : Prop :=
  ∀ token ∈ headerTokens T text, Firm T (spelling T token) token

/-- Where a finished date keeps the space before a digit, it is still a finished date with the
digits that are joined to its front. -/
def DatesStayFinished (words : List (List Char)) : Prop :=
  (words.splitBy (joins T)).IsChain fun run next =>
    run.getLast?.any (fun word => shortDateEdge T word.reverse) = true →
      next.flatten.head?.any (isDigit T) = true → shortDateEdge T run.flatten.reverse = true

variable {T}

theorem wordy_merged {p : List Char → List Char → Bool} {tokens : List (List Char)}
    (h : ∀ token ∈ tokens, Wordy T token) : ∀ token ∈ merged p tokens, Wordy T token :=
  forall_merged (fun _ _ _ _ _ ht hm => ht.append hm) (fun token ht => (h token ht).1) h

theorem settled_of_joins {t u : List Char} (h : joins T t u = true) :
    ∀ ch ∈ u.head?, T.settled ch = true := by
  intro ch hch
  have hdigit := (joins_iff.mp h).2.1
  rw [Option.mem_def.mp hch] at hdigit
  exact T.settled_decimal ch hdigit

theorem marker_of_glues {t u : List Char} (h : glues T t u = true) :
    ∃ ch rest, u = ch :: rest ∧ ch ∈ markerSuffix ∧ rest.head?.all T.space = true := by
  have hlone := (Bool.and_eq_true_iff.mp h).2
  cases u with
  | nil => cases hlone
  | cons ch rest =>
    obtain ⟨hch, hrest⟩ := Bool.and_eq_true_iff.mp hlone
    exact ⟨ch, rest, rfl, by simpa using hch, hrest⟩

theorem settled_of_glues {t u : List Char} (h : glues T t u = true) :
    ∀ ch ∈ u.head?, T.settled ch = true := by
  obtain ⟨ch, rest, rfl, hch, -⟩ := marker_of_glues h
  intro ch' hhead
  obtain rfl := Option.some.inj hhead
  exact (isFolded_of_mem_markerSuffix hch).settled

theorem eq_singleton_of_glues {t u : List Char} (hu : Wordy T u) (h : glues T t u = true) :
    ∃ ch ∈ markerSuffix, u = [ch] := by
  obtain ⟨ch, rest, rfl, hch, hrest⟩ := marker_of_glues h
  cases rest with
  | nil => exact ⟨ch, hch, rfl⟩
  | cons next rest =>
    have hspace := hu.2 next (by simp)
    have hspace' : T.space next = true := hrest
    rw [hspace] at hspace'
    cases hspace'

theorem glues_marker_left {t u : List Char} {ch : Char} (hch : ch ∈ markerSuffix)
    (h : t.getLast? = some ch) : glues T t u = false := by
  have hdigit : isDigit T ch = false := (isFolded_of_mem_markerSuffix hch).not_digit
  have hrev : t.reverse.head? = some ch := by rw [List.head?_reverse, h]
  cases hback : t.reverse with
  | nil =>
    rw [hback] at hrev
    cases hrev
  | cons last init =>
    rw [hback] at hrev
    obtain rfl := Option.some.inj hrev
    have hyear : yearEdge T (last :: init) = false := by
      match init with
      | [] | [_] | [_, _] => rfl
      | _ :: _ :: _ :: _ => simp [yearEdge, hdigit]
    unfold glues splitsMarker
    rw [hback, hyear]
    rfl

theorem joins_marker_left {t u : List Char} {ch : Char} (hch : ch ∈ markerSuffix)
    (h : t.getLast? = some ch) : joins T t u = false := by
  have hdigit : isDigit T ch = false := (isFolded_of_mem_markerSuffix hch).not_digit
  apply Bool.eq_false_of_not_eq_true
  intro hjoins
  have hlast := (joins_iff.mp hjoins).1
  rw [h, Option.any_some, hdigit] at hlast
  cases hlast

theorem joins_head {t u m : List Char} (h : m.head? = u.head?) : joins T t m = joins T t u := by
  unfold joins splitsNumber
  rw [h]

theorem glues_fixed {t u v : List Char} (hu : Wordy T u) (h : glues T t u = true) :
    glues T u v = false ∧ glues T (t ++ u) v = false := by
  obtain ⟨ch, hch, rfl⟩ := eq_singleton_of_glues hu h
  exact ⟨glues_marker_left hch rfl, glues_marker_left hch List.getLast?_concat⟩

theorem isChain_markerTokens {tokens : List (List Char)} (h : ∀ token ∈ tokens, Wordy T token) :
    (markerTokens T tokens).IsChain fun a b => glues T a b = false := by
  apply isChain_merged (fun t u v hu htu => (glues_fixed hu htu).1) ?_
    (fun t u v hu htu => (glues_fixed hu htu).2) h
  intro t u w hu hw
  apply Bool.eq_false_of_not_eq_true
  intro htuw
  obtain ⟨ch, -, hone⟩ := eq_singleton_of_glues (hu.append hw) htuw
  have hlength := congrArg List.length hone
  have hulength := List.length_pos_of_ne_nil hu.1
  have hwlength := List.length_pos_of_ne_nil hw.1
  rw [List.length_append, List.length_singleton] at hlength
  omega

theorem joins_markerTokens {tokens : List (List Char)} (h : ∀ token ∈ tokens, Wordy T token) :
    ((markerTokens T tokens).IsChain fun a b => joins T a b = false) ↔
      tokens.IsChain fun a b => joins T a b = false := by
  have hne : ∀ u, Wordy T u → u ≠ [] := fun u hu => hu.1
  have hno : ∀ t u v, Wordy T u → glues T t u = true → glues T u v = false :=
    fun t u v hu htu => (glues_fixed hu htu).1
  have hhead : ∀ t u m, m.head? = u.head? → joins T t m = joins T t u :=
    fun t u m hhead => joins_head hhead
  refine isChain_merged_iff hne hno hhead ?_ h
  intro t u v hu htu
  obtain ⟨ch, hch, rfl⟩ := eq_singleton_of_glues hu htu
  refine ⟨?_, joins_marker_left hch rfl, joins_marker_left hch List.getLast?_concat⟩
  apply Bool.eq_false_of_not_eq_true
  intro hjoins
  have hdigit := (joins_iff.mp hjoins).2.1
  have hnot : isDigit T ch = false := (isFolded_of_mem_markerSuffix hch).not_digit
  rw [List.head?_cons, Option.any_some, hnot] at hdigit
  cases hdigit

theorem joins_fold (t u : List Char) :
    joins T (foldPeriodToken T t) (foldPeriodToken T u) = joins T t u := by
  obtain ⟨f, hf, hft⟩ := exists_folds T t
  obtain ⟨g, hg, hgu⟩ := exists_folds T u
  rw [hft, hgu, joins_map hf hg]

theorem isChain_iff_of_gaps {G R S : List (List Char) → List (List Char) → Prop}
    {runs : List (List (List Char))} (hgaps : runs.IsChain G)
    (h : ∀ a ∈ runs, ∀ b ∈ runs, G a b → (R a b ↔ S a b)) : runs.IsChain R ↔ runs.IsChain S := by
  induction runs with
  | nil => exact iff_of_true List.isChain_nil List.isChain_nil
  | cons a runs ih =>
    cases runs with
    | nil => exact iff_of_true (List.isChain_singleton a) (List.isChain_singleton a)
    | cons b runs =>
      obtain ⟨hab, hrest⟩ := List.isChain_cons_cons.mp hgaps
      rw [List.isChain_cons_cons, List.isChain_cons_cons, h a (by simp) b (by simp) hab,
        ih hrest fun x hx y hy => h x (List.mem_cons_of_mem a hx) y (List.mem_cons_of_mem a hy)]

theorem joins_runs {run next : List (List Char)} (hwords : ∀ word ∈ run, word ≠ [])
    (hnext : ∀ word ∈ next, word ≠ [])
    (hgap : ∃ ha hb, joins T (run.getLast ha) (next.head hb) = false) :
    joins T run.flatten next.flatten = false ↔
      (run.getLast?.any (fun word => shortDateEdge T word.reverse) = true →
        next.flatten.head?.any (isDigit T) = true → shortDateEdge T run.flatten.reverse = true) := by
  obtain ⟨ha, hb, hgap⟩ := hgap
  obtain ⟨init, last, rfl⟩ := (List.eq_nil_or_concat' run).resolve_left ha
  obtain ⟨first, others, rfl⟩ := List.exists_cons_of_ne_nil hb
  have hlast : last ≠ [] := hwords last (by simp)
  have hfirst : first ≠ [] := hnext first List.mem_cons_self
  have hhead : (first :: others).flatten.head? = first.head? := by
    rw [List.flatten_cons, List.head?_append_of_ne_nil _ hfirst]
  have hend : (init ++ [last]).flatten.getLast? = last.getLast? := by
    rw [List.flatten_append, List.flatten_singleton, List.getLast?_append_of_ne_nil _ hlast]
  rw [List.getLast_append_singleton, List.head_cons, ← Bool.not_eq_true, joins_iff] at hgap
  rw [List.getLast?_concat, Option.any_some, ← Bool.not_eq_true, joins_iff, hend, hhead]
  constructor
  · intro hkept hedge hdigit
    have hdate := digit_of_shortDateEdge hedge
    rw [List.head?_reverse] at hdate
    by_contra hlost
    exact hkept ⟨hdate, hdigit, Bool.eq_false_of_not_eq_true hlost⟩
  · rintro hkept ⟨hdate, hdigit, hlost⟩
    have hedge : shortDateEdge T last.reverse = true := by
      by_contra hnot
      exact hgap ⟨hdate, hdigit, Bool.eq_false_of_not_eq_true hnot⟩
    rw [hkept hedge hdigit] at hlost
    cases hlost

theorem isChain_numberTokens {tokens : List (List Char)} (h : ∀ token ∈ tokens, token ≠ []) :
    ((numberTokens T tokens).IsChain fun a b => joins T a b = false) ↔
      DatesStayFinished T tokens := by
  unfold numberTokens merged DatesStayFinished
  rw [List.isChain_map]
  apply isChain_iff_of_gaps (List.isChain_getLast_head_splitBy (joins T) tokens)
  intro run hrun next hnext hgap
  have hwords : ∀ run ∈ tokens.splitBy (joins T), ∀ word ∈ run, word ≠ [] := by
    intro run hrun word hword
    apply h
    rw [← List.flatten_splitBy (joins T) tokens]
    exact List.mem_flatten_of_mem hrun hword
  exact joins_runs (hwords run hrun) (hwords next hnext) hgap

end Passes

section Twice

variable {T : HeaderTable}

theorem wordy_headerWords (text : List Char) : ∀ word ∈ headerWords T text, Wordy T word :=
  fun _ hword => wordy_of_mem_words hword

theorem wordy_markerTokens {tokens : List (List Char)} (h : ∀ token ∈ tokens, Wordy T token) :
    ∀ token ∈ markerTokens T (numberTokens T tokens), Wordy T token :=
  wordy_merged (wordy_merged h)

theorem wordy_periodTokens {tokens : List (List Char)} (h : ∀ token ∈ tokens, Wordy T token) :
    ∀ token ∈ periodTokens T tokens, Wordy T token := by
  intro token htoken
  obtain ⟨token, hmem, rfl⟩ := List.mem_map.mp htoken
  obtain ⟨f, hf, hfold⟩ := exists_folds T token
  rw [hfold]
  exact (wordy_markerTokens h token hmem).map hf

theorem merged_ne_nil {p : List Char → List Char → Bool} {tokens : List (List Char)}
    (h : tokens ≠ []) : merged p tokens ≠ [] := by
  unfold merged
  rw [ne_eq, List.map_eq_nil_iff, List.splitBy_eq_nil]
  exact h

theorem spaced_eq_nil_iff {tokens : List (List Char)} (h : ∀ token ∈ tokens, Wordy T token) :
    spaced ' ' tokens = [] ↔ tokens = [] := by
  constructor
  · intro hnil
    rw [← words_spaced h, hnil]
    rfl
  · rintro rfl
    rfl

theorem normalizeHeader_some (text : List Char) :
    normalizeHeader T (some text) =
      if headerWords T text = [] then none
      else some (spaced ' ' (periodTokens T (headerWords T text))) := by
  have hwords := wordy_headerWords (T := T) text
  have hnumbers := wordy_merged (p := joins T) hwords
  have hmarkers := wordy_markerTokens hwords
  have hcollapse : collapseHeader T text =
      spaced ' ' (markerTokens T (numberTokens T (headerWords T text))) := by
    have hjoin : joinDigits T (spaced ' ' (headerWords T text)) =
        spaced ' ' (numberTokens T (headerWords T text)) :=
      dropGaps_spaced local_joins (fun word hword => (hwords word hword).solid) (by simp)
    unfold collapseHeader
    rw [← headerWords, hjoin]
    exact dropGaps_spaced local_glues (fun word hword => (hnumbers word hword).solid) (by simp)
  have hempty : markerTokens T (numberTokens T (headerWords T text)) = [] ↔
      headerWords T text = [] := by
    constructor
    · intro hnil
      by_contra hne
      exact merged_ne_nil (merged_ne_nil hne) hnil
    · intro hnil
      rw [hnil]
      rfl
  unfold normalizeHeader
  rw [Option.bind_some]
  dsimp only
  rw [hcollapse]
  by_cases hnone : headerWords T text = []
  · rw [if_pos hnone, if_pos ((spaced_eq_nil_iff hmarkers).mpr (hempty.mpr hnone))]
  · rw [if_neg hnone, if_neg (mt (spaced_eq_nil_iff hmarkers).mp (mt hempty.mp hnone)),
      splitOn_spaced (fun token ht => (hmarkers token ht).solid) (mt hempty.mp hnone)]
    rfl

theorem foldPeriodToken_singleton (ch : Char) : foldPeriodToken T [ch] = [ch] := by
  cases hdigit : isDigit T ch with
  | false =>
    unfold foldPeriodToken
    rw [if_pos (by simp [hdigit])]
  | true =>
    have halpha : T.alpha ch = false := by
      apply Bool.eq_false_of_not_eq_true
      intro halpha
      have hnot := T.not_digit_of_alpha ch halpha
      rw [T.digit_of_decimal ch hdigit] at hnot
      cases hnot
    unfold foldPeriodToken
    split_ifs with _ hletters
    · rfl
    · rfl
    all_goals exact absurd (by simp [letters, halpha]) hletters

theorem glues_of_fold {t u : List Char} (hu : Wordy T u)
    (h : glues T (foldPeriodToken T t) (foldPeriodToken T u) = true) : glues T t u = true := by
  obtain ⟨f, hf, hft⟩ := exists_folds T t
  obtain ⟨g, hg, hgu⟩ := exists_folds T u
  have hword : Wordy T (foldPeriodToken T u) := hgu ▸ hu.map hg
  obtain ⟨ch, hch, hone⟩ := eq_singleton_of_glues hword h
  have hlength : u.length = 1 := by
    rw [← List.length_map g, ← hgu, hone]
    rfl
  obtain ⟨ch', rfl⟩ := List.length_eq_one_iff.mp hlength
  rw [foldPeriodToken_singleton, hft] at h
  unfold glues splitsMarker at h ⊢
  rwa [← List.map_reverse, yearEdge_map hf] at h

theorem plainChar_plainChar (ch : Char) : plainChar (plainChar ch) = plainChar ch := by
  by_cases hsame : plainChar ch = ch
  · rw [hsame, hsame]
  · have hcases : ch ∈ ['Ё', 'ё', '\u00a0'] := by
      by_contra hnot
      simp only [List.mem_cons, List.not_mem_nil, not_or] at hnot
      apply hsame
      unfold plainChar
      rw [if_neg hnot.1, if_neg hnot.2.1, if_neg hnot.2.2.1]
    have hall : ['Ё', 'ё', '\u00a0'].all
        (fun ch => plainChar (plainChar ch) = plainChar ch) = true := by decide
    exact of_decide_eq_true (List.all_eq_true.mp hall ch hcases)

theorem Folds.plainChar {f : Char → Char} (hf : Folds f) {ch : Char} (h : plainChar ch = ch) :
    Headers.plainChar (f ch) = f ch := by
  rcases hf ch with hsame | ⟨-, hfold⟩
  · rw [hsame, h]
  · have hcap : f ch ≠ 'Ё' := hfold.ne (by decide)
    have hsmall : f ch ≠ 'ё' := hfold.ne (by decide)
    have hblank : f ch ≠ '\u00a0' := hfold.ne (by decide)
    rw [Headers.plainChar, if_neg hcap, if_neg hsmall, if_neg hblank]

theorem plain_periodTokens (text : List Char) :
    ∀ token ∈ periodTokens T (headerWords T text), ∀ ch ∈ token, plainChar ch = ch := by
  have hwords : ∀ word ∈ headerWords T text, ∀ ch ∈ word, plainChar ch = ch := by
    intro word hword ch hch
    obtain ⟨ch, -, rfl⟩ := List.mem_map.mp ((infix_of_mem_words hword).subset hch)
    exact plainChar_plainChar ch
  have happend : ∀ t m : List Char, (∀ ch ∈ t, plainChar ch = ch) → (∀ ch ∈ m, plainChar ch = ch) →
      ∀ ch ∈ t ++ m, plainChar ch = ch := by
    intro t m ht hm ch hch
    exact (List.mem_append.mp hch).elim (ht ch) (hm ch)
  have hnumbers := forall_merged (p := joins T) (fun t u m _ _ => happend t m)
    (fun word hword => (wordy_headerWords text word hword).1) hwords
  have hmarkers := forall_merged (p := glues T) (fun t u m _ _ => happend t m)
    (fun word hword => (wordy_merged (wordy_headerWords text) word hword).1) hnumbers
  intro token htoken ch hch
  obtain ⟨token, hmem, rfl⟩ := List.mem_map.mp htoken
  obtain ⟨f, hf, hfold⟩ := exists_folds T token
  rw [hfold] at hch
  obtain ⟨ch', hch', rfl⟩ := List.mem_map.mp hch
  exact hf.plainChar (hmarkers token hmem ch' hch')

theorem plainChar_cases (ch : Char) :
    plainChar ch = ch ∨ ch ∈ ['Ё', 'ё'] ∧ IsFolded (plainChar ch) ∨ ch = '\u00a0' := by
  unfold plainChar
  split_ifs with hcap hsmall hblank
  · exact .inr (.inl ⟨by simp [hcap], by decide⟩)
  · exact .inr (.inl ⟨by simp [hsmall], by decide⟩)
  · exact .inr (.inr hblank)
  · exact .inl rfl

theorem settled_yo {ch : Char} (h : ch ∈ ['Ё', 'ё']) : T.settled ch = true := by
  rw [List.mem_pair] at h
  rcases h with rfl | rfl <;> exact T.settled_cyrillic _ (by decide) (by decide)

theorem settled_of_plainChar {ch : Char} (h : T.settled (plainChar ch) = true) :
    T.settled ch = true := by
  rcases plainChar_cases ch with hsame | ⟨hyo, -⟩ | rfl
  · rwa [hsame] at h
  · exact settled_yo hyo
  · exact T.settled_nbsp

theorem space_plainChar (ch : Char) : T.space (plainChar ch) = T.space ch := by
  rcases plainChar_cases ch with hsame | ⟨hyo, hfold⟩ | rfl
  · rw [hsame]
  · have hyoAlpha : T.alpha ch = true := by
      rw [List.mem_pair] at hyo
      rcases hyo with rfl | rfl <;> exact T.alpha_cyrillic _ (by decide) (by decide)
    rw [hfold.not_space, T.not_space_of_alnum ch (T.alnum_of_alpha ch hyoAlpha)]
  · rw [T.space_nbsp]
    exact T.space_blank

theorem headerWords_eq (text : List Char) :
    headerWords T text = (words T (T.nfkc text)).map (List.map plainChar) := by
  have hsplit (text : List Char) : (text.map plainChar).splitOnP T.space =
      (text.splitOnP T.space).map (List.map plainChar) := by
    induction text with
    | nil => rfl
    | cons ch text ih =>
      rw [List.map_cons, List.splitOnP_cons_eq_if_modifyHead, List.splitOnP_cons_eq_if_modifyHead,
        space_plainChar, ih]
      split_ifs
      · rfl
      · obtain ⟨first, others, hpieces⟩ :=
          List.exists_cons_of_ne_nil (List.splitOnP_ne_nil T.space text)
        rw [hpieces]
        rfl
  rw [headerWords, words, words, hsplit, List.filter_map]
  congr 1
  apply List.filter_congr
  intro word _
  simp

theorem markerTokens_headerWords (text : List Char) :
    markerTokens T (numberTokens T (headerWords T text)) =
      (headerTokens T text).map (List.map plainChar) := by
  rw [headerWords_eq, markerTokens, numberTokens, merged_map, merged_map, headerTokens]

theorem periodTokens_headerWords (text : List Char) :
    periodTokens T (headerWords T text) =
      (headerTokens T text).map fun token => token.map (spelling T token) := by
  rw [periodTokens, markerTokens_headerWords, List.map_map]
  apply List.map_congr_left
  intro token _
  rw [Function.comp_apply, foldPeriodToken_eq, List.map_map]
  rfl

theorem normal_headerTokens {text token : List Char} (h : token ∈ headerTokens T text) :
    T.nfkc token = token ∧ Wordy T token := by
  have happend {t u m : List Char} (hhead : m.head? = u.head?)
      (hu : ∀ ch ∈ (u.map plainChar).head?, T.settled ch = true)
      (ht : T.nfkc t = t ∧ Wordy T t) (hm : T.nfkc m = m ∧ Wordy T m) :
      T.nfkc (t ++ m) = t ++ m ∧ Wordy T (t ++ m) := by
    refine ⟨?_, ht.2.append hm.2⟩
    rw [T.nfkc_append, ht.1, hm.1]
    intro ch hch
    apply settled_of_plainChar
    apply hu
    rw [List.head?_map, ← hhead, Option.mem_def.mp hch]
    rfl
  have hwords : ∀ word ∈ words T (T.nfkc text), T.nfkc word = word ∧ Wordy T word := fun word hword =>
    ⟨nfkc_piece (T.nfkc_nfkc text) (infix_of_mem_words hword), wordy_of_mem_words hword⟩
  have hnumbers : ∀ token ∈ merged (fun t u => joins T (t.map plainChar) (u.map plainChar))
      (words T (T.nfkc text)), T.nfkc token = token ∧ Wordy T token :=
    forall_merged (fun t u m htu hhead ht hm => happend hhead (settled_of_joins htu) ht hm)
      (fun word hword => (hwords word hword).2.1) hwords
  exact forall_merged (fun t u m htu hhead ht hm => happend hhead (settled_of_glues htu) ht hm)
    (fun token htoken => (hnumbers token htoken).2.1) hnumbers token h

theorem respells_spelling {token : List Char} (h : Wordy T token) :
    Respells T (spelling T token) token := by
  intro ch hch hne
  have hfolds := folds_foldOf T (token.map plainChar) (plainChar ch)
  rcases plainChar_cases ch with hsame | ⟨hyo, hfold⟩ | rfl
  · rw [spelling, hsame] at hne ⊢
    rw [hsame] at hfolds
    obtain ⟨hold, hnew⟩ := hfolds.resolve_left hne
    exact ⟨hold.settled, hnew⟩
  · refine ⟨settled_yo hyo, ?_⟩
    rcases hfolds with hkept | ⟨-, hnew⟩
    · rwa [spelling, hkept]
    · exact hnew
  · have hspace := h.2 _ hch
    rw [T.space_nbsp] at hspace
    cases hspace

theorem steady_or_shorter (text : List Char) :
    Steady T text ∧ T.nfkc (spaced ' ' (periodTokens T (headerWords T text))) =
        spaced ' ' (periodTokens T (headerWords T text)) ∨
      ¬Steady T text ∧ (T.nfkc (spaced ' ' (periodTokens T (headerWords T text)))).length <
        (spaced ' ' (periodTokens T (headerWords T text))).length := by
  have hcases : ∀ token ∈ headerTokens T text,
      Firm T (spelling T token) token ∧
          T.nfkc (token.map (spelling T token)) = token.map (spelling T token) ∨
        ¬Firm T (spelling T token) token ∧
          (T.nfkc (token.map (spelling T token))).length < token.length := by
    intro token htoken
    obtain ⟨hnormal, hwordy⟩ := normal_headerTokens htoken
    exact firm_or_shorter (respells_spelling hwordy) hnormal
  rw [nfkc_spaced, periodTokens_headerWords, List.map_map]
  by_cases hsteady : Steady T text
  · refine .inl ⟨hsteady, ?_⟩
    congr 1
    apply List.map_congr_left
    intro token htoken
    exact ((hcases token htoken).resolve_right fun hnot => hnot.1 (hsteady token htoken)).2
  · refine .inr ⟨hsteady, ?_⟩
    simp only [Steady, not_forall] at hsteady
    obtain ⟨token, htoken, hnot⟩ := hsteady
    have hsum : ((headerTokens T text).map fun token =>
          (T.nfkc (token.map (spelling T token))).length + 1).sum <
        ((headerTokens T text).map fun token => token.length + 1).sum := by
      apply List.sum_lt_sum
      · intro token htoken
        rcases hcases token htoken with ⟨-, hsame⟩ | ⟨-, hshort⟩
        · rw [hsame, List.length_map]
        · omega
      · have hshort := ((hcases token htoken).resolve_left fun hfirm => hnot hfirm.1).2
        exact ⟨token, htoken, by omega⟩
    have hpos : (T.nfkc (token.map (spelling T token))).length + 1 ≤
        ((headerTokens T text).map fun token =>
          (T.nfkc (token.map (spelling T token))).length + 1).sum :=
      List.le_sum_of_mem (List.mem_map_of_mem htoken)
    rw [length_spaced, length_spaced, List.map_map, List.map_map]
    simp only [Function.comp_def, List.length_map]
    omega

theorem headerWords_spaced {text : List Char} (h : Steady T text) :
    headerWords T (spaced ' ' (periodTokens T (headerWords T text))) =
      periodTokens T (headerWords T text) := by
  have hwordy := wordy_periodTokens (wordy_headerWords (T := T) text)
  have hnormal := ((steady_or_shorter (T := T) text).resolve_right fun hnot => hnot.1 h).2
  have hplain : (spaced ' ' (periodTokens T (headerWords T text))).map plainChar =
      spaced ' ' (periodTokens T (headerWords T text)) := by
    conv_rhs => rw [← List.map_id (spaced ' ' (periodTokens T (headerWords T text)))]
    apply List.map_congr_left
    intro ch hch
    rcases mem_spaced hch with rfl | ⟨token, htoken, hmem⟩
    · decide
    · exact plain_periodTokens text token htoken ch hmem
  rw [headerWords, hnormal, hplain, words_spaced hwordy]

theorem length_normalizeHeader_le (text : List Char) :
    ∀ normal ∈ normalizeHeader T (some text), normal.length ≤ (T.nfkc text).length := by
  have hwords : (spaced ' ' (words T ((T.nfkc text).map plainChar))).length ≤
      (T.nfkc text).length := by
    have hcuts := length_spaced_splitOnP ' ' T.space ((T.nfkc text).map plainChar)
    rw [List.length_map] at hcuts
    rw [← hcuts]
    exact length_spaced_le ' ' List.filter_sublist
  have hcollapse : (collapseHeader T text).length ≤ (T.nfkc text).length :=
    ((length_dropGaps_le _ _).trans (length_dropGaps_le _ _)).trans hwords
  intro normal hnormal
  rw [normalizeHeader, Option.bind_some] at hnormal
  dsimp only at hnormal
  split_ifs at hnormal with hempty
  · cases hnormal
  · obtain rfl := Option.some.inj hnormal
    have hpieces : ((collapseHeader T text).splitOn ' ').map (fun token => token.length + 1) =
        (((collapseHeader T text).splitOn ' ').map (foldPeriodToken T)).map
          fun token => token.length + 1 := by
      rw [List.map_map]
      apply List.map_congr_left
      intro token _
      rw [Function.comp_apply, foldPeriodToken_eq, List.length_map]
    have hsame : (spaced ' ' ((collapseHeader T text).splitOn ' ')).length =
        (collapseHeader T text).length := by
      rw [spaced, List.intercalate_splitOn]
    rw [length_spaced, ← hpieces, ← length_spaced ' ', hsame]
    exact hcollapse

theorem periodTokens_fixed_iff {tokens : List (List Char)} (h : ∀ token ∈ tokens, Wordy T token) :
    periodTokens T (periodTokens T tokens) = periodTokens T tokens ↔
      DatesStayFinished T tokens := by
  have hnumbers : ∀ token ∈ numberTokens T tokens, Wordy T token := wordy_merged h
  have hsame : ((periodTokens T tokens).IsChain fun a b => joins T a b = false) ↔
      DatesStayFinished T tokens := by
    rw [← isChain_numberTokens fun token ht => (h token ht).1, ← joins_markerTokens hnumbers,
      periodTokens, List.isChain_map]
    simp only [joins_fold]
  rw [← hsame]
  constructor
  · intro hfixed
    by_contra hchain
    have hlt := length_merged_lt hchain
    have hle := length_merged_le (p := glues T) (numberTokens T (periodTokens T tokens))
    have hlength := congrArg List.length hfixed
    rw [periodTokens, List.length_map] at hlength
    unfold markerTokens numberTokens at hlength hle
    omega
  · intro hchain
    have hjoin : numberTokens T (periodTokens T tokens) = periodTokens T tokens :=
      merged_of_isChain hchain
    have hglue : markerTokens T (periodTokens T tokens) = periodTokens T tokens := by
      apply merged_of_isChain
      rw [periodTokens, List.isChain_map]
      refine (isChain_markerTokens hnumbers).imp_of_mem_imp fun t u _ hu htu => ?_
      rw [← Bool.not_eq_true] at htu ⊢
      exact mt (glues_of_fold (wordy_markerTokens h u hu)) htu
    rw [periodTokens, hjoin, hglue, periodTokens, List.map_map]
    exact List.map_congr_left fun token _ => foldPeriodToken_fold token

/-- Normalising a header twice is normalising it once just where no letter is respelled in front of
a mark that joins it and no finished date takes in a digit that was joined to its front. -/
theorem normalizeHeader_idempotent_iff (T : HeaderTable) (text : Option (List Char)) :
    normalizeHeader T (normalizeHeader T text) = normalizeHeader T text ↔
      ∀ raw ∈ text, Steady T raw ∧ DatesStayFinished T (headerWords T raw) := by
  cases text with
  | none => exact iff_of_true rfl (by simp)
  | some raw =>
    have hwordy := wordy_headerWords (T := T) raw
    have hperiod := wordy_periodTokens hwordy
    simp only [Option.mem_def, Option.some_inj, forall_eq']
    rw [normalizeHeader_some]
    by_cases hempty : headerWords T raw = []
    · have htokens : headerTokens T raw = [] := by
        have hnone := markerTokens_headerWords (T := T) raw
        rw [hempty] at hnone
        exact List.map_eq_nil_iff.mp hnone.symm
      rw [if_pos hempty]
      refine iff_of_true rfl ⟨?_, ?_⟩
      · rw [Steady, htokens]
        simp
      · rw [hempty]
        exact List.isChain_nil
    · have hne : periodTokens T (headerWords T raw) ≠ [] := by
        unfold periodTokens
        rw [ne_eq, List.map_eq_nil_iff]
        exact merged_ne_nil (merged_ne_nil hempty)
      rw [if_neg hempty]
      rcases steady_or_shorter (T := T) raw with ⟨hsteady, -⟩ | ⟨hnot, hshort⟩
      · rw [normalizeHeader_some, headerWords_spaced hsteady, if_neg hne, Option.some_inj,
          and_iff_right hsteady, ← periodTokens_fixed_iff hwordy]
        constructor
        · intro hsame
          rw [← words_spaced (wordy_periodTokens hperiod), hsame, words_spaced hperiod]
        · intro hsame
          rw [hsame]
      · refine iff_of_false ?_ fun hboth => hnot hboth.1
        intro hfixed
        have hle := length_normalizeHeader_le _ _ hfixed
        omega

end Twice

section Sample

def isCyrillic (ch : Char) : Bool := 0x400 ≤ ch.toNat ∧ ch.toNat ≤ 0x481

def plainTable : HeaderTable where
  decimal ch := if ch.isDigit then some (ch.toNat - 48) else none
  space ch := ch = ' ' ∨ ch = '\u00a0'
  alpha ch := ch.isAlpha || isCyrillic ch
  digit := Char.isDigit
  alnum ch := ch.isAlphanum || isCyrillic ch
  upper ch := [ch.toUpper]
  nfkc text := text
  settled _ := true
  decimal_ascii := asciiTable.decimal_ascii
  digit_of_decimal := asciiText.digit_of_decimal
  alnum_of_digit ch h := by simp [Char.isAlphanum, h]
  alnum_of_alpha ch h := by
    rcases Bool.or_eq_true_iff.mp h with halpha | hcyrillic
    · simp [Char.isAlphanum, halpha]
    · simp [hcyrillic]
  not_digit_of_alpha ch h := by
    rcases Bool.or_eq_true_iff.mp h with halpha | hcyrillic
    · exact asciiText.not_digit_of_alpha ch halpha
    · by_contra hdigit
      have hrange := digit_range (Bool.eq_true_of_not_eq_false hdigit)
      have hrange' := of_decide_eq_true hcyrillic
      omega
  not_space_of_alnum ch h := by
    have hblank : ch ≠ ' ' := by
      rintro rfl
      cases h
    have hnbsp : ch ≠ '\u00a0' := by
      rintro rfl
      cases h
    simp [hblank, hnbsp]
  alpha_ascii ch h := by
    have hcyrillic : isCyrillic ch = false := decide_eq_false (by omega)
    simp [hcyrillic]
  alnum_ascii ch h := by
    have hcyrillic : isCyrillic ch = false := decide_eq_false (by omega)
    simp [hcyrillic]
  upper_ascii := asciiText.upper_ascii
  space_ascii ch hlo hhi := by
    have hblank : ch ≠ ' ' := by
      rintro rfl
      exact absurd hlo (by decide)
    have hnbsp : ch ≠ '\u00a0' := by
      rintro rfl
      exact absurd hhi (by decide)
    simp [hblank, hnbsp]
  space_blank := rfl
  space_nbsp := rfl
  alpha_cyrillic ch hlo hhi := by
    have hcyrillic : isCyrillic ch = true := decide_eq_true ⟨hlo, hhi⟩
    simp [hcyrillic]
  nfkc_nfkc _ := rfl
  nfkc_piece _ _ _ _ := rfl
  nfkc_append _ _ _ := rfl
  nfkc_space _ := rfl
  nfkc_marks _ _ _ _ _ hne := absurd rfl hne
  settled_decimal _ _ := rfl
  settled_ascii _ _ := rfl
  settled_nbsp := rfl
  settled_cyrillic _ _ _ := rfl
  nfkc_ascii _ _ := rfl
  nfkc_cyrillic _ _ _ := rfl

/-- The day takes in the digit before it, and the second pass no longer sees a date. -/
theorem normalizeHeader_joins_again :
    normalizeHeader plainTable (some "1 01.02.24 5".toList) = some "101.02.24 5".toList ∧
      normalizeHeader plainTable (normalizeHeader plainTable (some "1 01.02.24 5".toList)) ≠
        normalizeHeader plainTable (some "1 01.02.24 5".toList) := by
  decide +kernel

end Sample

end FinanceContext.Headers
