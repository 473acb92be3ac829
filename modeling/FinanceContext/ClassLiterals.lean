import FinanceContext.FormulaClasses
import FinanceContext.FormulaRoundTrip

namespace FinanceContext.Formula

open Patterns OperatorParsing Csr

section Conditions

variable (code : List Char) (values values' : List (List Char))

/-- A reading finds something around the literals, or finds it in literals of both formulas, or in
literals of neither and then `later` counts. -/
def Settled (read : List Char → Bool) (later : Prop) : Prop :=
  read code = true ∨ values.any read = values'.any read ∧ (values.any read = true ∨ later)

/-- The readings of `classify_formula`, in its order. -/
def LiteralsUnread (table : CaseTable) (refs lags : Option (List String)) : Prop :=
  let offsets := lagNumbers table (lags.getD [])
  Settled code values values' (found (conditional table))
    (Settled code values values' (found (aggregation table))
      (if offsets.all (· == 0) then
        refs.getD [] ≠ [] ∨ Settled code values values' (foundA1 table) True
      else if offsets.all fun step => step == 0 || step == -1 then
        Settled code values values' hasArithmetic True
      else True))

variable {code values values'} {read : List Char → Bool} {first second : List Char}

theorem settled_iff {α : Type} {a x y : α}
    (hfirst : read first = (read code || values.any read))
    (hsecond : read second = (read code || values'.any read)) (hx : x ≠ a) (hy : y ≠ a) :
    ((if read first then a else x) = if read second then a else y) ↔
      Settled code values values' read (x = y) := by
  rw [hfirst, hsecond, Settled]
  cases read code with
  | true => simp
  | false =>
    cases values.any read with
    | true =>
      cases values'.any read with
      | true => simp
      | false => simpa using hy.symm
    | false =>
      cases values'.any read with
      | true => simpa using hx
      | false => simp

theorem settled_congr {later later' : Prop} (h : later ↔ later') :
    Settled code values values' read later ↔ Settled code values values' read later' := by
  unfold Settled
  rw [h]

end Conditions

section Lags

variable (offsets : List ℤ)

theorem steps_isEmpty :
    (!(offsets.filter (· < 0)).isEmpty || !(offsets.filter (0 < ·)).isEmpty) =
      !offsets.all (· == 0) := by
  induction offsets with
  | nil => rfl
  | cons step offsets ih =>
    rw [List.filter_cons, List.filter_cons, List.all_cons, Bool.not_and, ← ih]
    rcases lt_trichotomy step 0 with hstep | hstep | hstep
    · have hne : step ≠ 0 := by omega
      simp [hstep, hne]
    · simp [hstep]
    · have hne : step ≠ 0 := by omega
      have hnot : ¬step < 0 := by omega
      simp [hstep, hne, hnot]

theorem simple_prior (h : offsets.all (· == 0) = false) :
    (!(offsets.filter (· < 0)).isEmpty && (offsets.filter (0 < ·)).isEmpty &&
      (offsets.filter (· < 0)).all (· == -1)) =
      offsets.all fun step => step == 0 || step == -1 := by
  have hsome : ∃ step ∈ offsets, step ≠ 0 := by
    rw [List.all_eq_false] at h
    simpa using h
  rw [Bool.eq_iff_iff]
  simp only [Bool.and_eq_true, Bool.not_eq_true', List.isEmpty_eq_false_iff,
    List.isEmpty_iff, List.filter_eq_nil_iff, List.all_eq_true, List.mem_filter, decide_eq_true_eq,
    beq_iff_eq, Bool.or_eq_true, ne_eq, not_forall]
  constructor
  · rintro ⟨⟨-, hforward⟩, hprior⟩ step hstep
    rcases lt_trichotomy step 0 with hneg | hzero | hpos
    · exact .inr (hprior step ⟨hstep, hneg⟩)
    · exact .inl hzero
    · exact absurd hpos (hforward step hstep)
  · intro hall
    refine ⟨⟨?_, ?_⟩, ?_⟩
    · obtain ⟨step, hstep, hne⟩ := hsome
      have hback := (hall step hstep).resolve_left hne
      exact ⟨step, hstep, not_not.mpr (by omega)⟩
    · intro step hstep
      have hback := hall step hstep
      omega
    · rintro step ⟨hstep, hneg⟩
      have hback := hall step hstep
      omega

end Lags

section Classes

variable (table : CaseTable)

def periodClass (text : List Char) (refs lags : Option (List String)) : Option FormulaClass :=
  let offsets := lagNumbers table (lags.getD [])
  if offsets.all (· == 0) then
    if !(refs.getD []).isEmpty || foundA1 table text then some .samePeriod else some .hardcoded
  else if (offsets.all fun step => step == 0 || step == -1) && !hasArithmetic text then
    some .rollforward
  else some .crossPeriod

theorem periodClass_eq (text : List Char) (refs lags : Option (List String)) :
    periodClass table text refs lags =
      (let offsets := lagNumbers table (lags.getD [])
      let prior := offsets.filter (· < 0)
      let forward := offsets.filter (0 < ·)
      if !prior.isEmpty || !forward.isEmpty then
        let simplePrior := !prior.isEmpty && forward.isEmpty && prior.all (· == -1)
        if simplePrior && !hasArithmetic text then some .rollforward else some .crossPeriod
      else if !(refs.getD []).isEmpty || foundA1 table text then some .samePeriod
      else some .hardcoded) := by
  dsimp only
  rw [periodClass, steps_isEmpty]
  cases hall : (lagNumbers table (lags.getD [])).all (· == 0) with
  | true => rw [if_pos rfl, Bool.not_true, if_neg Bool.false_ne_true]
  | false =>
    rw [if_neg Bool.false_ne_true, Bool.not_false, if_pos rfl, simple_prior _ hall]

theorem classifyFormula_eq (formula : List Char) (refs lags : Option (List String))
    (h : stripChars table.space formula ≠ []) :
    classifyFormula table (some formula) refs lags =
      (let text := stripChars table.space formula
      if found (conditional table) text then some .conditional
      else if found (aggregation table) text then some .aggregation
      else periodClass table text refs lags) := by
  have hempty : (stripChars table.space formula).isEmpty = false := by
    rwa [List.isEmpty_eq_false_iff]
  rw [classifyFormula]
  dsimp only
  rw [hempty, if_neg Bool.false_ne_true, ← periodClass_eq]

theorem periodClass_ne_aggregation (text : List Char) (refs lags : Option (List String)) :
    periodClass table text refs lags ≠ some .aggregation := by
  unfold periodClass
  dsimp only
  split_ifs <;> decide

theorem laterClass_ne_conditional (text : List Char) (refs lags : Option (List String)) :
    (if found (aggregation table) text then some FormulaClass.aggregation
      else periodClass table text refs lags) ≠ some .conditional := by
  unfold periodClass
  dsimp only
  split_ifs <;> decide

variable {table} {engine : Engine} {ν : Type} {floats : Floats ν}

theorem Engine.Accepts.strip_ne_nil {formula : List Char}
    (h : engine.Accepts table.toTextTable floats formula) :
    stripChars table.space formula ≠ [] := by
  obtain ⟨sheet, addr, hparse⟩ := h
  intro hstrip
  obtain ⟨a, b, htext, ha, hb⟩ := exists_stripChars table.space formula
  rw [hstrip, List.append_nil] at htext
  have hblank : (withoutEquals formula).all table.space = true := by
    apply List.all_eq_true.mpr
    intro ch hch
    have hmem : ch ∈ formula := by
      unfold withoutEquals at hch
      split at hch
      · exact List.mem_cons_of_mem _ hch
      · exact hch
    rw [htext] at hmem
    exact (List.mem_append.mp hmem).elim (ha ch) (hb ch)
  unfold Engine.parse at hparse
  dsimp only at hparse
  rw [if_pos hblank] at hparse
  cases hparse

theorem read_strip {read : List Char → Bool} (h : ∀ ch, Fence table ch → FencedBy ch read)
    {formula : List Char} (haccepted : engine.Accepts table.toTextTable floats formula) :
    read (stripChars table.space formula) =
      (read (engine.codeText table.toTextTable floats formula) ||
        (engine.literals table.toTextTable floats formula).any read) := by
  have hspace : ∀ ch, table.space ch = true → FencedBy ch read :=
    fun ch hch => h ch (fence_space table hch)
  have hformula := read_formula (h '"' (fence_quote table)) haccepted
  obtain ⟨a, b, htext, ha, hb⟩ := exists_stripChars table.space formula
  have hstrip := read_append_fences hspace hb (a ++ stripChars table.space formula)
  rw [← htext, read_fences_append hspace ha] at hstrip
  rw [← hstrip, hformula]

variable {first second : List Char}

theorem periodClass_eq_iff {code : List Char} {values values' : List (List Char)}
    (hfirst : ∀ read, (∀ ch, Fence table ch → FencedBy ch read) →
      read first = (read code || values.any read))
    (hsecond : ∀ read, (∀ ch, Fence table ch → FencedBy ch read) →
      read second = (read code || values'.any read))
    (refs lags : Option (List String)) :
    periodClass table first refs lags = periodClass table second refs lags ↔
      (if (lagNumbers table (lags.getD [])).all (· == 0) then
        refs.getD [] ≠ [] ∨ Settled code values values' (foundA1 table) True
      else if (lagNumbers table (lags.getD [])).all fun step => step == 0 || step == -1 then
        Settled code values values' hasArithmetic True
      else True) := by
  unfold periodClass
  dsimp only
  cases (lagNumbers table (lags.getD [])).all (· == 0) with
  | true =>
    have href := settled_iff (hfirst _ fun ch hch => hch.foundA1)
      (hsecond _ fun ch hch => hch.foundA1)
      (a := some FormulaClass.samePeriod) (x := some .hardcoded) (y := some .hardcoded)
      (by decide) (by decide)
    cases refs.getD [] with
    | nil => simpa using href
    | cons ref refs => simp
  | false =>
    cases (lagNumbers table (lags.getD [])).all fun step => step == 0 || step == -1 with
    | true =>
      have harith := settled_iff (hfirst _ fun ch hch => hch.hasArithmetic)
        (hsecond _ fun ch hch => hch.hasArithmetic)
        (a := some FormulaClass.crossPeriod) (x := some .rollforward) (y := some .rollforward)
        (by decide) (by decide)
      have hswap : ∀ text, (if (true && !hasArithmetic text) = true then
          some FormulaClass.rollforward else some .crossPeriod) =
          if hasArithmetic text = true then some .crossPeriod else some .rollforward := by
        intro text
        cases hasArithmetic text <;> rfl
      rw [hswap, hswap]
      simpa using harith
    | false => simp

/-- Two formulas with the same text around their literals are of one class exactly where the
literals do not decide what the text around them leaves open. -/
theorem same_class_iff (engine : Engine) (table : CaseTable) {ν : Type} (floats : Floats ν)
    (first second : List Char) (hfirst : engine.Accepts table.toTextTable floats first)
    (hsecond : engine.Accepts table.toTextTable floats second)
    (h : engine.DifferInLiterals table.toTextTable floats first second)
    (refs lags : Option (List String)) :
    classifyFormula table (some first) refs lags = classifyFormula table (some second) refs lags ↔
      LiteralsUnread (engine.codeText table.toTextTable floats first)
        (engine.literals table.toTextTable floats first)
        (engine.literals table.toTextTable floats second) table refs lags := by
  rw [classifyFormula_eq table first refs lags hfirst.strip_ne_nil,
    classifyFormula_eq table second refs lags hsecond.strip_ne_nil]
  have hread : ∀ read, (∀ ch, Fence table ch → FencedBy ch read) →
      read (stripChars table.space first) =
        (read (engine.codeText table.toTextTable floats first) ||
          (engine.literals table.toTextTable floats first).any read) :=
    fun read hfence => read_strip hfence hfirst
  have hread' : ∀ read, (∀ ch, Fence table ch → FencedBy ch read) →
      read (stripChars table.space second) =
        (read (engine.codeText table.toTextTable floats first) ||
          (engine.literals table.toTextTable floats second).any read) := by
    intro read hfence
    rw [h.codeText]
    exact read_strip hfence hsecond
  have hcalls := settled_iff (hread _ fun ch hch => hch.found_conditional)
    (hread' _ fun ch hch => hch.found_conditional)
    (laterClass_ne_conditional table (stripChars table.space first) refs lags)
    (laterClass_ne_conditional table (stripChars table.space second) refs lags)
  have hsums := settled_iff (hread _ fun ch hch => hch.found_aggregation)
    (hread' _ fun ch hch => hch.found_aggregation)
    (periodClass_ne_aggregation table (stripChars table.space first) refs lags)
    (periodClass_ne_aggregation table (stripChars table.space second) refs lags)
  have hperiods := periodClass_eq_iff hread hread' refs lags
  exact hcalls.trans (settled_congr (hsums.trans (settled_congr hperiods)))

end Classes

def asciiCases : CaseTable where
  toTextTable := asciiText
  variants ch := if ch.isAlpha then [ch.toLower, ch.toUpper] else [ch]
  alnum_of_variant ch letter hmem hletter := by
    have halpha : ch.isAlpha = true := by
      by_contra hch
      rw [if_neg hch, List.mem_singleton] at hmem
      rw [hmem] at hletter
      exact hch hletter
    exact asciiText.alnum_of_alpha ch halpha

/-- `=A1&"x"` and `=A1&"y""z"` -/
theorem same_class_of_joins :
    classifyFormula asciiCases (some ['=', 'A', '1', '&', '"', 'x', '"']) none none =
      classifyFormula asciiCases (some ['=', 'A', '1', '&', '"', 'y', '"', '"', 'z', '"'])
        none none := by
  apply (same_class_iff Engine.en asciiCases textFloats.toFloats
    ['=', 'A', '1', '&', '"', 'x', '"'] ['=', 'A', '1', '&', '"', 'y', '"', '"', 'z', '"']
    ⟨"S", "B1", by decide +kernel⟩ ⟨"S", "B1", by decide +kernel⟩ rfl none none).mpr
  refine .inr ⟨by decide +kernel, .inr (.inr ⟨by decide +kernel, .inr ?_⟩)⟩
  exact .inr (.inl (by decide +kernel))

/-- `=A1&"IF("` and `=A1&"x"` -/
theorem class_of_literal :
    let first := ['=', 'A', '1', '&', '"', 'I', 'F', '(', '"']
    let second := ['=', 'A', '1', '&', '"', 'x', '"']
    Engine.en.Accepts asciiText textFloats.toFloats first ∧
      Engine.en.Accepts asciiText textFloats.toFloats second ∧
      Engine.en.DifferInLiterals asciiText textFloats.toFloats first second ∧
      classifyFormula asciiCases (some first) (some ["S!A1"]) (some ["same"]) =
        some .conditional ∧
      classifyFormula asciiCases (some second) (some ["S!A1"]) (some ["same"]) =
        some .samePeriod :=
  ⟨⟨"S", "B1", by decide +kernel⟩, ⟨"S", "B1", by decide +kernel⟩, rfl, by decide +kernel,
    by decide +kernel⟩

end FinanceContext.Formula
