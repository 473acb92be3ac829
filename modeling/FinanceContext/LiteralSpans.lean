import FinanceContext.PatternFences
import FinanceContext.TokenSpans

namespace FinanceContext.Formula

open OperatorParsing Patterns

/-- A literal by its value, anything else as it stands. -/
inductive Span where
  | code (word : List Char)
  | literal (value : List Char)
  deriving DecidableEq

namespace Span

def text : Span → List Char
  | .code word => word
  | .literal value => renderString value

def emptied : Span → Span
  | .code word => .code word
  | .literal _ => .literal []

def value? : Span → Option (List Char)
  | .code _ => none
  | .literal value => some value

end Span

def Token.string? {ν : Type} : Token ν → Option (List Char)
  | .string value => some value
  | _ => none

section Spans

variable (table : TextTable) {ν : Type} (floats : Floats ν) (decimal sep : Char)

def spanOf (text left : List Char) : Option (Token ν) → Span
  | some (.string value) => .literal value
  | _ => .code (text.take (text.length - left.length))

def spansWithin : ℕ → List Char → Except Failure (List Span)
  | _, [] => .ok []
  | 0, _ :: _ => .error .exhausted
  | fuel + 1, ch :: rest => do
    let (token, left) ← scanToken table floats decimal sep ch rest
    let spans ← spansWithin fuel left
    .ok (spanOf (ch :: rest) left token :: spans)

theorem spanOf_text {ch : Char} {rest left : List Char} {token : Option (Token ν)}
    (h : scanToken table floats decimal sep ch rest = .ok (token, left)) :
    (spanOf (ch :: rest) left token).text ++ left = ch :: rest := by
  rcases scanToken_cases table floats decimal sep h with ⟨value, rfl, htext⟩ | ⟨hstring, hleft⟩
  · exact htext.symm
  · have hspan : spanOf (ch :: rest) left token =
        .code ((ch :: rest).take ((ch :: rest).length - left.length)) := by
      unfold spanOf
      split
      · exact absurd rfl (hstring _)
      · rfl
    rw [hspan, Span.text]
    obtain ⟨word, hword⟩ := hleft
    rw [← hword, List.length_append, Nat.add_sub_cancel, List.take_left]

theorem spanOf_value? (text left : List Char) (token : Option (Token ν)) :
    (spanOf text left token).value? = token.bind Token.string? := by
  unfold spanOf
  split
  · rfl
  · rename_i hstring
    cases token with
    | none => rfl
    | some token =>
      cases token with
      | string value => exact absurd rfl (hstring value)
      | _ => rfl

theorem exists_spansWithin {fuel : ℕ} {text : List Char} {tokens : List (Token ν)}
    (h : tokenizeWithin table floats decimal sep fuel text = .ok tokens) :
    ∃ spans, spansWithin table floats decimal sep fuel text = .ok spans ∧
      spans.flatMap Span.text = text ∧
      spans.filterMap Span.value? = tokens.filterMap Token.string? := by
  induction fuel generalizing text tokens with
  | zero =>
    cases text with
    | nil =>
      cases h
      exact ⟨[], rfl, rfl, rfl⟩
    | cons ch rest => cases h
  | succ fuel ih =>
    cases text with
    | nil =>
      cases h
      exact ⟨[], rfl, rfl, rfl⟩
    | cons ch rest =>
      rw [tokenizeWithin] at h
      rw [spansWithin]
      cases hscan : scanToken table floats decimal sep ch rest with
      | error failure =>
        rw [hscan] at h
        cases h
      | ok found =>
        obtain ⟨token, left⟩ := found
        rw [hscan] at h
        cases hleft : tokenizeWithin table floats decimal sep fuel left with
        | error failure =>
          have hfail : (tokenizeWithin table floats decimal sep fuel left >>= fun tokens =>
              Except.ok (token.toList ++ tokens)) = .ok tokens := h
          rw [hleft] at hfail
          cases hfail
        | ok later =>
          have hok : (tokenizeWithin table floats decimal sep fuel left >>= fun tokens =>
              Except.ok (token.toList ++ tokens)) = .ok tokens := h
          rw [hleft] at hok
          cases hok
          obtain ⟨spans, hspans, htext, hvalues⟩ := ih hleft
          refine ⟨spanOf (ch :: rest) left token :: spans, ?_, ?_, ?_⟩
          · change (spansWithin table floats decimal sep fuel left >>= _) = _
            rw [hspans]
            rfl
          · rw [List.flatMap_cons, htext]
            exact spanOf_text table floats decimal sep hscan
          · rw [List.filterMap_append, ← hvalues, List.filterMap_cons, spanOf_value?]
            cases token with
            | none => rfl
            | some token =>
              cases hstring : token.string? <;> simp [hstring]

end Spans

section Engines

variable (engine : Engine) (table : TextTable) {ν : Type} (floats : Floats ν)

def Engine.spans (formula : List Char) : Except Failure (List Span) :=
  match formula with
  | '=' :: text => do
    let spans ← spansWithin table floats engine.decimal engine.sep text.length text
    .ok (.code ['='] :: spans)
  | _ => spansWithin table floats engine.decimal engine.sep formula.length formula

def Engine.Accepts (formula : List Char) : Prop :=
  ∃ sheet addr, (engine.parse table floats formula sheet addr).unparsed = false

/-- Apart from the contents of their literals the formulas are the same. -/
def Engine.DifferInLiterals (first second : List Char) : Prop :=
  (engine.spans table floats first).map (·.map Span.emptied) =
    (engine.spans table floats second).map (·.map Span.emptied)

def Engine.spanList (formula : List Char) : List Span :=
  (engine.spans table floats formula).toOption.getD []

/-- The formula with nothing between the quotes of its literals. -/
def Engine.codeText (formula : List Char) : List Char :=
  ((engine.spanList table floats formula).map Span.emptied).flatMap Span.text

def Engine.literals (formula : List Char) : List (List Char) :=
  (engine.spanList table floats formula).filterMap Span.value?

variable {engine table floats}

theorem Engine.Accepts.tokens {formula : List Char} (h : engine.Accepts table floats formula) :
    ∃ tokens, tokenize table floats engine.decimal engine.sep (withoutEquals formula) =
      .ok tokens := by
  obtain ⟨sheet, addr, hparse⟩ := h
  unfold Engine.parse at hparse
  dsimp only at hparse
  split at hparse
  · cases hparse
  · cases htokens : tokenize table floats engine.decimal engine.sep (withoutEquals formula) with
    | ok tokens => exact ⟨tokens, rfl⟩
    | error failure =>
      rw [htokens] at hparse
      cases hparse

theorem Engine.Accepts.spans {formula : List Char} (h : engine.Accepts table floats formula) :
    ∃ spans, engine.spans table floats formula = .ok spans ∧
      spans.flatMap Span.text = formula := by
  obtain ⟨tokens, htokens⟩ := h.tokens
  obtain ⟨spans, hspans, htext, -⟩ := exists_spansWithin table floats _ _ htokens
  unfold Engine.spans
  split
  · rename_i text
    refine ⟨.code ['='] :: spans, ?_, ?_⟩
    · have hspans' : spansWithin table floats engine.decimal engine.sep text.length text =
        .ok spans := hspans
      rw [hspans']
      rfl
    · rw [List.flatMap_cons, htext]
      rfl
  · rename_i hequals
    have hplain : withoutEquals formula = formula := by
      unfold withoutEquals
      split
      · rename_i text
        exact absurd rfl (hequals text)
      · rfl
    rw [hplain] at hspans htext
    exact ⟨spans, hspans, htext⟩

theorem Engine.Accepts.spanList_text {formula : List Char}
    (h : engine.Accepts table floats formula) :
    (engine.spanList table floats formula).flatMap Span.text = formula := by
  obtain ⟨spans, hspans, htext⟩ := h.spans
  rw [Engine.spanList, hspans]
  exact htext

theorem Engine.DifferInLiterals.codeText {first second : List Char}
    (h : engine.DifferInLiterals table floats first second) :
    engine.codeText table floats first = engine.codeText table floats second := by
  unfold Engine.DifferInLiterals at h
  unfold Engine.codeText Engine.spanList
  cases hfirst : engine.spans table floats first with
  | error failure =>
    cases hsecond : engine.spans table floats second with
    | error failure' => rfl
    | ok spans =>
      rw [hfirst, hsecond] at h
      cases h
  | ok spans =>
    cases hsecond : engine.spans table floats second with
    | error failure' =>
      rw [hfirst, hsecond] at h
      cases h
    | ok spans' =>
      rw [hfirst, hsecond] at h
      exact congrArg (List.flatMap Span.text) (Except.ok.inj h)

end Engines

section Readings

variable {read : List Char → Bool} (h : FencedBy '"' read)
include h

theorem read_doubled (a value : List Char) : read (a ++ doubled '"' value) = read (a ++ value) := by
  induction value generalizing a with
  | nil => rfl
  | cons ch value ih =>
    by_cases hquote : ch = '"'
    · have hpair : doubled '"' (ch :: value) = '"' :: '"' :: doubled '"' value := by
        simp [doubled, hquote]
      have hvalue := ih []
      rw [List.nil_append, List.nil_append] at hvalue
      rw [hpair, h.append_cons_cons, hquote, h.split, hvalue]
    · have hone : doubled '"' (ch :: value) = ch :: doubled '"' value := by
        simp [doubled, hquote]
      have hvalue := ih (a ++ [ch])
      rw [List.append_assoc, List.append_assoc] at hvalue
      rw [hone]
      exact hvalue

theorem read_renderString (a value b : List Char) :
    read (a ++ (renderString value ++ b)) = (read a || (read value || read b)) := by
  have hvalue := read_doubled h [] value
  rw [List.nil_append, List.nil_append] at hvalue
  have htext : a ++ (renderString value ++ b) = a ++ '"' :: (doubled '"' value ++ '"' :: b) := by
    simp [renderString]
  rw [htext, h.split, h.split, hvalue]

theorem read_spans (a : List Char) (spans : List Span) :
    read (a ++ spans.flatMap Span.text) =
      (read (a ++ (spans.map Span.emptied).flatMap Span.text) ||
        (spans.filterMap Span.value?).any read) := by
  induction spans generalizing a with
  | nil => simp
  | cons span spans ih =>
    rw [List.flatMap_cons, List.map_cons, List.flatMap_cons, List.filterMap_cons]
    cases span with
    | code word =>
      have hword := ih (a ++ word)
      rw [List.append_assoc, List.append_assoc] at hword
      exact hword
    | literal value =>
      have hrest := ih []
      rw [List.nil_append, List.nil_append] at hrest
      dsimp only [Span.text, Span.emptied, Span.value?]
      rw [read_renderString h, read_renderString h, h.empty, hrest, List.any_cons]
      simp only [Bool.false_or, Bool.or_assoc, Bool.or_left_comm]

theorem read_formula {engine : Engine} {table : TextTable} {ν : Type} {floats : Floats ν}
    {formula : List Char} (haccepted : engine.Accepts table floats formula) :
    read formula = (read (engine.codeText table floats formula) ||
      (engine.literals table floats formula).any read) := by
  have hspans := read_spans h [] (engine.spanList table floats formula)
  rw [haccepted.spanList_text] at hspans
  exact hspans

end Readings

end FinanceContext.Formula
