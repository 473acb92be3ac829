import Mathlib.Data.List.Basic

/-!
Parsers of operator expressions over any type of tokens: levels of left and right chains, signs
in front, marks behind and separated lists, each with a bound on the steps it may take.
-/

namespace OperatorParsing

/-- A text that is refused, or a bound on the steps that was too small. -/
inductive Failure where
  | rejected
  | exhausted
  deriving DecidableEq, Repr

abbrev Parser (τ α : Type) := List τ → Except Failure (α × List τ)

variable {τ κ α β : Type}

section Combinators

variable (operator : τ → Option κ)

def chainLeft (combine : κ → α → α → α) (next : Parser τ α) : ℕ → α → Parser τ α
  | 0, _, _ => .error .exhausted
  | _ + 1, node, [] => .ok (node, [])
  | fuel + 1, node, token :: rest =>
    match operator token with
    | none => .ok (node, token :: rest)
    | some kind => do
      let (right, rest) ← next rest
      chainLeft combine next fuel (combine kind node right) rest

def leftLevel (combine : κ → α → α → α) (fuel : ℕ) (next : Parser τ α) : Parser τ α :=
  fun tokens => do
    let (node, rest) ← next tokens
    chainLeft operator combine next fuel node rest

def rightLevel (combine : κ → α → α → α) (next : Parser τ α) : ℕ → Parser τ α
  | 0, _ => .error .exhausted
  | fuel + 1, tokens => do
    let (node, rest) ← next tokens
    match rest with
    | [] => .ok (node, [])
    | token :: rest =>
      match operator token with
      | none => .ok (node, token :: rest)
      | some kind => do
        let (right, rest) ← rightLevel combine next fuel rest
        .ok (combine kind node right, rest)

def signed (wrap : κ → α → α) (next : Parser τ α) : Parser τ α
  | [] => next []
  | token :: rest =>
    match operator token with
    | none => next (token :: rest)
    | some kind => do
      let (node, rest) ← signed wrap next rest
      .ok (wrap kind node, rest)

def marked (wrap : κ → α → α) (next : Parser τ α) : Parser τ α := fun tokens => do
  let (node, rest) ← next tokens
  match rest with
  | [] => .ok (node, [])
  | token :: rest =>
    match operator token with
    | none => .ok (node, token :: rest)
    | some kind => .ok (wrap kind node, rest)

end Combinators

def separated (separator : τ → Bool) (item : Parser τ α) : ℕ → Parser τ (List α)
  | 0, _ => .error .exhausted
  | fuel + 1, tokens => do
    let (first, rest) ← item tokens
    match rest with
    | [] => .ok ([first], [])
    | token :: rest =>
      if separator token then do
        let (others, rest) ← separated separator item fuel rest
        .ok (first :: others, rest)
      else .ok ([first], token :: rest)

/-- What is left is shorter, and the bound was not the reason of a failure. -/
def Progress (size : ℕ) : Except Failure (α × List τ) → Prop
  | .ok (_, rest) => rest.length < size
  | .error failure => failure = .rejected

/-- The parser takes at least one token from any list of at most `bound` tokens, or refuses it. -/
def Consumes (bound : ℕ) (p : Parser τ α) : Prop :=
  ∀ tokens, tokens.length ≤ bound → Progress tokens.length (p tokens)

theorem Progress.mono {m n : ℕ} (hmn : m ≤ n) {result : Except Failure (α × List τ)}
    (h : Progress m result) : Progress n result := by
  match result, h with
  | .ok _, h => exact Nat.lt_of_lt_of_le h hmn
  | .error _, h => exact h

theorem Progress.bind {m n : ℕ} {result : Except Failure (α × List τ)}
    {f : α × List τ → Except Failure (β × List τ)} (h : Progress m result)
    (hf : ∀ node rest, rest.length < m → Progress n (f (node, rest))) :
    Progress n (result >>= f) := by
  match result, h with
  | .ok (node, rest), h => exact hf node rest h
  | .error _, h => exact h

theorem Consumes.mono {m n : ℕ} (hmn : m ≤ n) {p : Parser τ α} (h : Consumes n p) :
    Consumes m p := fun tokens hlen => h tokens (by omega)

section Progress

variable {operator : τ → Option κ} {bound : ℕ}

theorem progress_chainLeft (combine : κ → α → α → α) {next : Parser τ α} (h : Consumes bound next)
    (fuel : ℕ) (node : α) (tokens : List τ) (hbound : tokens.length ≤ bound)
    (hfuel : tokens.length < fuel) :
    Progress (tokens.length + 1) (chainLeft operator combine next fuel node tokens) := by
  induction fuel generalizing node tokens with
  | zero => omega
  | succ fuel ih =>
    cases tokens with
    | nil => simp [chainLeft, Progress]
    | cons token rest =>
      simp only [List.length_cons] at hbound hfuel ⊢
      unfold chainLeft
      split
      · simp [Progress]
      · apply (h rest (by omega)).bind
        intro right left hleft
        exact (ih _ _ (by omega) (by omega)).mono (by omega)

theorem Consumes.leftLevel (combine : κ → α → α → α) {next : Parser τ α} {fuel : ℕ}
    (h : Consumes bound next) (hfuel : bound < fuel) :
    Consumes bound (leftLevel operator combine fuel next) := by
  intro tokens hlen
  apply (h tokens hlen).bind
  intro node rest hrest
  exact (progress_chainLeft combine h fuel node rest (by omega) (by omega)).mono (by omega)

theorem Consumes.rightLevel (combine : κ → α → α → α) {next : Parser τ α} {fuel : ℕ}
    (h : Consumes bound next) (hfuel : bound < fuel) :
    Consumes bound (rightLevel operator combine next fuel) := by
  intro tokens hlen
  have hlt : tokens.length < fuel := by omega
  clear hfuel
  induction fuel generalizing tokens with
  | zero => omega
  | succ fuel ih =>
    apply (h tokens hlen).bind
    intro node rest hrest
    cases rest with
    | nil => exact hrest
    | cons token rest =>
      rw [List.length_cons] at hrest
      dsimp only
      split
      · exact hrest
      · apply (ih rest (by omega) (by omega)).bind
        intro right left hleft
        exact Nat.lt_trans hleft (by omega)

theorem Consumes.signed (wrap : κ → α → α) {next : Parser τ α} (h : Consumes bound next) :
    Consumes bound (signed operator wrap next) := by
  intro tokens hlen
  induction tokens with
  | nil => exact h [] hlen
  | cons token rest ih =>
    unfold OperatorParsing.signed
    split
    · exact h _ hlen
    · rw [List.length_cons] at hlen
      apply (ih (by omega)).bind
      intro node left hleft
      exact Nat.lt_succ_of_lt hleft

theorem Consumes.marked (wrap : κ → α → α) {next : Parser τ α} (h : Consumes bound next) :
    Consumes bound (marked operator wrap next) := by
  intro tokens hlen
  apply (h tokens hlen).bind
  intro node rest hrest
  cases rest with
  | nil => exact hrest
  | cons token rest =>
    dsimp only
    split
    · exact hrest
    · exact Nat.lt_of_succ_lt hrest

theorem Consumes.separated (separator : τ → Bool) {item : Parser τ α} {fuel : ℕ}
    (h : Consumes bound item) (hfuel : bound < fuel) :
    Consumes bound (separated separator item fuel) := by
  intro tokens hlen
  have hlt : tokens.length < fuel := by omega
  clear hfuel
  induction fuel generalizing tokens with
  | zero => omega
  | succ fuel ih =>
    apply (h tokens hlen).bind
    intro first rest hrest
    cases rest with
    | nil => exact hrest
    | cons token rest =>
      rw [List.length_cons] at hrest
      dsimp only
      split
      · apply (ih rest (by omega) (by omega)).bind
        intro others left hleft
        exact Nat.lt_trans hleft (by omega)
      · exact hrest

end Progress

/-- No operator stands at the head of what is left. -/
def Stops (operator : τ → Option κ) (rest : List τ) : Prop :=
  ∀ token ∈ rest.head?, operator token = none

/-- Whatever the parser leaves of the tokens, no operator stands at its head. -/
def StopsAfter (operator : τ → Option κ) (result : Except Failure (α × List τ)) : Prop :=
  ∀ node rest, result = .ok (node, rest) → Stops operator rest

section Passing

variable {operator : τ → Option κ} {next : Parser τ α} {tokens rest : List τ} {node : α}

theorem chainLeft_of_stops (combine : κ → α → α → α) (fuel : ℕ) (h : Stops operator rest) :
    chainLeft operator combine next (fuel + 1) node rest = .ok (node, rest) := by
  cases rest with
  | nil => rfl
  | cons token rest =>
    have htoken : operator token = none := h token rfl
    simp [chainLeft, htoken]

theorem leftLevel_of_stops (combine : κ → α → α → α) (fuel : ℕ)
    (h : StopsAfter operator (next tokens)) :
    leftLevel operator combine (fuel + 1) next tokens = next tokens := by
  rw [leftLevel]
  match hnext : next tokens with
  | .error _ => rfl
  | .ok (node, rest) => exact chainLeft_of_stops combine fuel (h node rest hnext)

theorem rightLevel_of_stops (combine : κ → α → α → α) (fuel : ℕ)
    (h : StopsAfter operator (next tokens)) :
    rightLevel operator combine next (fuel + 1) tokens = next tokens := by
  rw [rightLevel]
  match hnext : next tokens with
  | .error _ => rfl
  | .ok (node, []) => rfl
  | .ok (node, token :: rest) =>
    have htoken : operator token = none := h node _ hnext token rfl
    change (match operator token with
      | none => _
      | some kind => _) = _
    rw [htoken]

theorem signed_of_stops (wrap : κ → α → α) (h : Stops operator tokens) :
    signed operator wrap next tokens = next tokens := by
  cases tokens with
  | nil => rfl
  | cons token tokens =>
    have htoken : operator token = none := h token rfl
    simp [signed, htoken]

theorem marked_of_stops (wrap : κ → α → α) (h : StopsAfter operator (next tokens)) :
    marked operator wrap next tokens = next tokens := by
  rw [marked]
  match hnext : next tokens with
  | .error _ => rfl
  | .ok (node, []) => rfl
  | .ok (node, token :: rest) =>
    have htoken : operator token = none := h node _ hnext token rfl
    change (match operator token with
      | none => _
      | some kind => _) = _
    rw [htoken]

end Passing

section Applying

variable {operator : τ → Option κ} {next : Parser τ α} {tokens others rest : List τ} {token : τ}
  {kind : κ} {node : α}

theorem leftLevel_of_step (combine : κ → α → α → α) (fuel : ℕ)
    (hleft : next tokens = .ok (node, token :: others)) (hkind : operator token = some kind)
    (hright : StopsAfter operator (next others)) :
    leftLevel operator combine (fuel + 2) next tokens =
      (do
        let (right, rest) ← next others
        .ok (combine kind node right, rest)) := by
  rw [leftLevel, hleft]
  change chainLeft operator combine next (fuel + 2) node (token :: others) = _
  rw [chainLeft]
  simp only [hkind]
  match hnext : next others with
  | .error _ => rfl
  | .ok (right, rest) => exact chainLeft_of_stops combine fuel (hright right rest hnext)

theorem rightLevel_of_step (combine : κ → α → α → α) (fuel : ℕ)
    (hleft : next tokens = .ok (node, token :: others)) (hkind : operator token = some kind)
    (hright : StopsAfter operator (next others)) :
    rightLevel operator combine next (fuel + 2) tokens =
      (do
        let (right, rest) ← next others
        .ok (combine kind node right, rest)) := by
  rw [rightLevel, hleft]
  change (match operator token with
    | none => _
    | some kind => _) = _
  rw [hkind]
  simp only
  rw [rightLevel_of_stops combine fuel hright]

theorem signed_of_step (wrap : κ → α → α) (hkind : operator token = some kind)
    (h : Stops operator tokens) :
    signed operator wrap next (token :: tokens) =
      (do
        let (node, rest) ← next tokens
        .ok (wrap kind node, rest)) := by
  rw [signed]
  simp only [hkind]
  rw [signed_of_stops wrap h]

theorem marked_of_step (wrap : κ → α → α) (hnext : next tokens = .ok (node, token :: rest))
    (hkind : operator token = some kind) :
    marked operator wrap next tokens = .ok (wrap kind node, rest) := by
  rw [marked, hnext]
  change (match operator token with
    | none => _
    | some kind => _) = _
  rw [hkind]

end Applying

section Lists

variable {separator : τ → Bool} {item : Parser τ α} {tokens rest : List τ} {first : α}

theorem separated_of_last (fuel : ℕ) (h : item tokens = .ok (first, rest))
    (hrest : ∀ token ∈ rest.head?, separator token = false) :
    separated separator item (fuel + 1) tokens = .ok ([first], rest) := by
  rw [separated, h]
  cases rest with
  | nil => rfl
  | cons token rest =>
    have htoken : separator token = false := hrest token rfl
    change (if separator token then _ else _) = _
    rw [htoken]
    rfl

theorem separated_of_more (fuel : ℕ) {token : τ} (h : item tokens = .ok (first, token :: rest))
    (htoken : separator token = true) :
    separated separator item (fuel + 1) tokens =
      (do
        let (others, rest) ← separated separator item fuel rest
        .ok (first :: others, rest)) := by
  rw [separated, h]
  change (if separator token then _ else _) = _
  rw [htoken]
  rfl

theorem separated_of_error (fuel : ℕ) {failure : Failure} (h : item tokens = .error failure) :
    separated separator item (fuel + 1) tokens = .error failure := by
  rw [separated, h]
  rfl

end Lists

end OperatorParsing
