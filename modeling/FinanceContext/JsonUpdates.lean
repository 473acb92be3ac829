import FinanceContext.LockedFiles

namespace FinanceContext

open LockedFiles

/-- The text of a document and the document `json.loads` makes of a text, when it is an object. -/
structure DocumentCodec (D β : Type) where
  print : D → List β
  parse : List β → Option D
  parse_print : ∀ d, parse (print d) = some d

section UpdateJson

variable {ι E D β : Type} (codec : DocumentCodec D β) (empty : D)
  (mutate : ι → E → D → Option D)

def DocumentCodec.document (content : Option (List β)) : Option D := content.bind codec.parse

/-- `update_json`; `mutate` gives `none` when it returns the object it was given. -/
def updateJson (i : ι) (sight : E) (content : Option (List β)) : Option (List β) :=
  let loaded := codec.document content
  match mutate i sight (loaded.getD empty) with
  | some updated => some (codec.print updated)
  | none => if loaded.isSome then none else some (codec.print empty)

/-- The document after one call of `update_json`. -/
def updated (entry : Entry ι E) (stored : Option D) : D :=
  let current := if entry.readable then stored.getD empty else empty
  (mutate entry.caller entry.sight current).getD current

theorem document_atOnce (content : Option (List β)) (entry : Entry ι E) :
    codec.document (atOnce (updateJson codec empty mutate) content entry) =
      some (updated empty mutate entry (codec.document content)) := by
  have hprint (d : D) : codec.document (some (codec.print d)) = some d := codec.parse_print d
  have hfound : (codec.document (found entry.readable content)).getD empty =
      if entry.readable then (codec.document content).getD empty else empty := by
    unfold found
    split_ifs <;> rfl
  unfold atOnce updateJson updated
  dsimp only
  rw [hfound]
  cases mutate entry.caller entry.sight
      (if entry.readable then (codec.document content).getD empty else empty) with
  | some next => exact hprint next
  | none =>
    simp only [Option.getD_none]
    cases hread : entry.readable with
    | false =>
      have hlost : codec.document (found false content) = none := rfl
      rw [hlost]
      exact hprint empty
    | true =>
      have hsame : found true content = content := rfl
      rw [hsame]
      cases hdoc : codec.document content with
      | none => exact hprint empty
      | some stored => exact hdoc

theorem atOnce_cases (content : Option (List β)) (entry : Entry ι E) :
    atOnce (updateJson codec empty mutate) content entry = content ∨
      ∃ d, atOnce (updateJson codec empty mutate) content entry = some (codec.print d) := by
  unfold atOnce updateJson
  dsimp only
  cases mutate entry.caller entry.sight
      ((codec.document (found entry.readable content)).getD empty) with
  | some next => exact .inr ⟨next, rfl⟩
  | none =>
    dsimp only
    split_ifs
    · exact .inl rfl
    · exact .inr ⟨empty, rfl⟩

def afterCalls (log : List (Entry ι E)) (stored : Option D) : Option D :=
  log.foldl (fun stored entry => some (updated empty mutate entry stored)) stored

theorem document_inOrder (log : List (Entry ι E)) (content : Option (List β)) :
    codec.document (inOrder (updateJson codec empty mutate) log content) =
      afterCalls empty mutate log (codec.document content) := by
  induction log generalizing content with
  | nil => rfl
  | cons entry log ih =>
    have hstep := document_atOnce codec empty mutate content entry
    have hrest := ih (atOnce (updateJson codec empty mutate) content entry)
    rw [hstep] at hrest
    exact hrest

theorem inOrder_cases (log : List (Entry ι E)) (content : Option (List β)) :
    inOrder (updateJson codec empty mutate) log content = content ∨
      ∃ d, inOrder (updateJson codec empty mutate) log content = some (codec.print d) := by
  induction log generalizing content with
  | nil => exact .inl rfl
  | cons entry log ih =>
    have hcons : inOrder (updateJson codec empty mutate) (entry :: log) content =
        inOrder (updateJson codec empty mutate) log
          (atOnce (updateJson codec empty mutate) content entry) := rfl
    rw [hcons]
    rcases ih (atOnce (updateJson codec empty mutate) content entry) with hsame | hprint
    · rw [hsame]
      exact atOnce_cases codec empty mutate content entry
    · exact .inr hprint

variable [DecidableEq ι]

theorem updates_serial (es : List (Event ι E)) (first : Option (List β)) :
    let s := run (updateJson codec empty mutate) es first
    codec.document s.content = afterCalls empty mutate s.log (codec.document first) ∧
      (s.content = first ∨ ∃ d, s.content = some (codec.print d)) ∧
      (s.log.map (·.caller)).Nodup ∧
      ∀ i, s.phase i = .finished → ∃ entry ∈ s.log, entry.caller = i := by
  intro s
  have hordered : Ordered (updateJson codec empty mutate) first s := ordered_run es first
  refine ⟨?_, ?_, hordered.callers, fun i hi => ?_⟩
  · rw [hordered.content]
    exact document_inOrder codec empty mutate s.log first
  · rw [hordered.content]
    exact inOrder_cases codec empty mutate s.log first
  · apply hordered.effective i
    rw [hi]
    rfl

end UpdateJson

end FinanceContext
