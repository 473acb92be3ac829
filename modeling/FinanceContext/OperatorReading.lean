import FinanceContext.OperatorGrouping

namespace OperatorParsing

variable {τ κ α β : Type}

section Reading

variable (operator : τ → Option κ) (operand : Parser τ β)

/-- Operators, each with the operand that is read behind it. -/
inductive Tail : List τ → List (κ × β) → List τ → Prop where
  | done (rest : List τ) : Tail rest [] rest
  | more {token : τ} {tokens mid rest : List τ} {kind : κ} {right : β} {others : List (κ × β)}
    (hkind : operator token = some kind) (hright : operand tokens = .ok (right, mid))
    (hothers : Tail mid others rest) : Tail (token :: tokens) ((kind, right) :: others) rest

/-- No operator of a class stands at the head. -/
def StopsFor (ops : κ → Prop) (rest : List τ) : Prop :=
  ∀ token ∈ rest.head?, ∀ kind, operator token = some kind → ¬ops kind

/-- The parser reads a sequence of operands with operators of a class between them, up to the next
operator that is not of the class, and groups it. -/
def Groups (ops : κ → Prop) (group : β → List (κ × β) → α) (p : Parser τ α) : Prop :=
  ∀ tokens node rest, p tokens = .ok (node, rest) → ∃ first mid others,
    operand tokens = .ok (first, mid) ∧ Tail operator operand mid others rest ∧
    (∀ x ∈ others, ops x.1) ∧ StopsFor operator ops rest ∧ node = group first others

variable {operator operand}

theorem Tail.append {a b c : List τ} {xs ys : List (κ × β)} (h : Tail operator operand a xs b)
    (h' : Tail operator operand b ys c) : Tail operator operand a (xs ++ ys) c := by
  induction h with
  | done rest => exact h'
  | more hkind hright _ ih => exact .more hkind hright (ih h')

theorem groups_operand :
    Groups operator operand (fun _ => False) (fun first _ => first) operand := by
  intro tokens node rest h
  exact ⟨node, rest, [], h, .done rest, (fun x hx => nomatch hx), fun _ _ _ _ hno => hno, rfl⟩

variable {ops : κ → Prop} {own : κ → Bool} {level : τ → Option κ} {next : Parser τ α}
  {combine : κ → α → α → α} {group : β → List (κ × β) → α}

section Levels

variable
  (hlevel : ∀ token kind, level token = some kind ↔ operator token = some kind ∧ own kind = true)

include hlevel

theorem stopsFor_of_level {token : τ} {rest : List τ} (hnone : level token = none)
    (hstops : StopsFor operator ops (token :: rest)) :
    StopsFor operator (fun kind => ops kind ∨ own kind = true) (token :: rest) := by
  intro head hhead kind hkind
  obtain rfl := Option.some.inj hhead
  rintro (hops | hown)
  · exact hstops _ rfl kind hkind hops
  · rw [(hlevel token kind).mpr ⟨hkind, hown⟩] at hnone
    cases hnone

variable (h : Groups operator operand ops group next)
  (hdisjoint : ∀ kind, ops kind → own kind = false)

include h hdisjoint

theorem chainLeft_reads (fuel : ℕ) (node : α) (tokens : List τ)
    (hstops : StopsFor operator ops tokens) {result : α} {rest : List τ}
    (hrun : chainLeft level combine next fuel node tokens = .ok (result, rest)) :
    ∃ others, Tail operator operand tokens others rest ∧
      (∀ x ∈ others, ops x.1 ∨ own x.1 = true) ∧
      StopsFor operator (fun kind => ops kind ∨ own kind = true) rest ∧
      (cut own others).1 = [] ∧
      result = (cut own others).2.foldl
        (fun node piece => combine piece.1 node (group piece.2.1 piece.2.2)) node := by
  induction fuel generalizing node tokens with
  | zero => cases hrun
  | succ fuel ih =>
    cases tokens with
    | nil =>
      obtain ⟨rfl, rfl⟩ := Prod.mk.inj (Except.ok.inj hrun)
      exact ⟨[], .done [], (fun x hx => nomatch hx), (fun _ hx => nomatch hx), rfl, rfl⟩
    | cons token tokens =>
      rw [chainLeft] at hrun
      cases hkind : level token with
      | none =>
        rw [hkind] at hrun
        obtain ⟨rfl, rfl⟩ := Prod.mk.inj (Except.ok.inj hrun)
        exact ⟨[], .done _, (fun x hx => nomatch hx),
          stopsFor_of_level hlevel hkind hstops, rfl, rfl⟩
      | some kind =>
        rw [hkind] at hrun
        obtain ⟨hoperator, hown⟩ := (hlevel token kind).mp hkind
        cases hnext : next tokens with
        | error failure =>
          simp only [hnext] at hrun
          cases hrun
        | ok pair =>
          obtain ⟨right, mid⟩ := pair
          simp only [hnext] at hrun
          obtain ⟨first, left, front, hfirst, hfront, hops, hmid, rfl⟩ := h _ _ _ hnext
          obtain ⟨others, hothers, hall, hrest, hcut, rfl⟩ := ih _ _ hmid hrun
          have hnot : ∀ x ∈ front, own x.1 = false := fun x hx => hdisjoint _ (hops x hx)
          refine ⟨(kind, first) :: (front ++ others), .more hoperator hfirst (hfront.append hothers),
            ?_, hrest, ?_, ?_⟩
          · intro x hx
            rcases List.mem_cons.mp hx with rfl | hx
            · exact .inr hown
            · rcases List.mem_append.mp hx with hx | hx
              · exact .inl (hops x hx)
              · exact hall x hx
          · rw [cut_cons_of_own hown]
          · rw [cut_cons_of_own hown, cut_append hnot, hcut, List.append_nil, List.foldl_cons]

variable (combine)

theorem Groups.leftLevel (fuel : ℕ) :
    Groups operator operand (fun kind => ops kind ∨ own kind = true)
      (groupLeft own combine group) (leftLevel level combine fuel next) := by
  intro tokens node rest hrun
  rw [OperatorParsing.leftLevel] at hrun
  cases hnext : next tokens with
  | error failure =>
    rw [hnext] at hrun
    cases hrun
  | ok pair =>
    obtain ⟨left, mid⟩ := pair
    rw [hnext] at hrun
    obtain ⟨first, start, front, hfirst, hfront, hops, hmid, rfl⟩ := h _ _ _ hnext
    obtain ⟨others, hothers, hall, hrest, hcut, rfl⟩ :=
      chainLeft_reads hlevel h hdisjoint fuel _ _ hmid hrun
    have hnot : ∀ x ∈ front, own x.1 = false := fun x hx => hdisjoint _ (hops x hx)
    refine ⟨first, start, front ++ others, hfirst, hfront.append hothers, ?_, hrest, ?_⟩
    · intro x hx
      rcases List.mem_append.mp hx with hx | hx
      · exact .inl (hops x hx)
      · exact hall x hx
    · rw [groupLeft, cut_append hnot, hcut, List.append_nil]

theorem Groups.rightLevel (fuel : ℕ) :
    Groups operator operand (fun kind => ops kind ∨ own kind = true)
      (groupRight own combine group) (rightLevel level combine next fuel) := by
  intro tokens
  induction fuel generalizing tokens with
  | zero =>
    intro node rest hrun
    cases hrun
  | succ fuel ih =>
    intro node rest hrun
    rw [OperatorParsing.rightLevel] at hrun
    cases hnext : next tokens with
    | error failure =>
      rw [hnext] at hrun
      cases hrun
    | ok pair =>
      obtain ⟨left, mid⟩ := pair
      rw [hnext] at hrun
      obtain ⟨first, start, front, hfirst, hfront, hops, hmid, rfl⟩ := h _ _ _ hnext
      have hnot : ∀ x ∈ front, own x.1 = false := fun x hx => hdisjoint _ (hops x hx)
      have halone : groupRight own combine group first front = group first front := by
        rw [groupRight, cut_of_none hnot]
        rfl
      cases mid with
      | nil =>
        obtain ⟨rfl, rfl⟩ := Prod.mk.inj (Except.ok.inj hrun)
        refine ⟨first, start, front, hfirst, hfront, fun x hx => .inl (hops x hx), ?_,
          halone.symm⟩
        rintro _ ⟨⟩
      | cons token mid =>
        dsimp only [bind, Except.bind] at hrun
        cases hkind : level token with
        | none =>
          rw [hkind] at hrun
          obtain ⟨rfl, rfl⟩ := Prod.mk.inj (Except.ok.inj hrun)
          exact ⟨first, start, front, hfirst, hfront, fun x hx => .inl (hops x hx),
            stopsFor_of_level hlevel hkind hmid, halone.symm⟩
        | some kind =>
          rw [hkind] at hrun
          obtain ⟨hoperator, hown⟩ := (hlevel token kind).mp hkind
          cases hright : OperatorParsing.rightLevel level combine next fuel mid with
          | error failure =>
            simp only [hright] at hrun
            cases hrun
          | ok pair =>
            obtain ⟨right, last⟩ := pair
            simp only [hright] at hrun
            obtain ⟨rfl, rfl⟩ := Prod.mk.inj (Except.ok.inj hrun)
            obtain ⟨second, after, others, hsecond, hothers, hall, hrest, rfl⟩ :=
              ih mid right last hright
            refine ⟨first, start, front ++ (kind, second) :: others, hfirst,
              hfront.append (.more hoperator hsecond hothers), ?_, hrest, ?_⟩
            · intro x hx
              rcases List.mem_append.mp hx with hx | hx
              · exact .inl (hops x hx)
              · rcases List.mem_cons.mp hx with rfl | hx
                · exact .inr hown
                · exact hall x hx
            · rw [groupRight, groupRight, cut_append hnot, cut_cons_of_own hown, List.append_nil]
              rfl

end Levels

end Reading

section Sequences

variable (operator : τ → Option κ) (operand : Parser τ β)

def readTail : ℕ → Parser τ (List (κ × β))
  | 0, _ => .error .exhausted
  | _ + 1, [] => .ok ([], [])
  | fuel + 1, token :: rest =>
    match operator token with
    | none => .ok ([], token :: rest)
    | some kind => do
      let (right, rest) ← operand rest
      let (others, rest) ← readTail fuel rest
      .ok ((kind, right) :: others, rest)

def readSequence (fuel : ℕ) : Parser τ (β × List (κ × β)) := fun tokens => do
  let (first, rest) ← operand tokens
  let (others, rest) ← readTail operator operand fuel rest
  .ok ((first, others), rest)

variable {operator operand}

theorem readTail_of_tail {tokens rest : List τ} {others : List (κ × β)}
    (h : Tail operator operand tokens others rest)
    (hrest : StopsFor operator (fun _ => True) rest) {fuel : ℕ} (hfuel : others.length < fuel) :
    readTail operator operand fuel tokens = .ok (others, rest) := by
  induction h generalizing fuel with
  | done rest =>
    cases fuel with
    | zero => cases hfuel
    | succ fuel =>
      cases rest with
      | nil => rfl
      | cons token rest =>
        have hnone : operator token = none := by
          rw [Option.eq_none_iff_forall_ne_some]
          intro kind hkind
          exact hrest token rfl kind hkind trivial
        simp [readTail, hnone]
  | more hkind hright _ ih =>
    cases fuel with
    | zero => cases hfuel
    | succ fuel =>
      have hothers := ih hrest (Nat.lt_of_succ_lt_succ hfuel)
      simp only [readTail, hkind, hright]
      change (do
        let (others, rest) ← readTail operator operand fuel _
        Except.ok (_ :: others, rest)) = _
      rw [hothers]
      rfl

theorem readSequence_of_tail {tokens mid rest : List τ} {first : β} {others : List (κ × β)}
    (hfirst : operand tokens = .ok (first, mid)) (htail : Tail operator operand mid others rest)
    (hrest : StopsFor operator (fun _ => True) rest) {fuel : ℕ} (hfuel : others.length < fuel) :
    readSequence operator operand fuel tokens = .ok ((first, others), rest) := by
  rw [readSequence, hfirst]
  change (do
    let (others, rest) ← readTail operator operand fuel mid
    Except.ok ((first, others), rest)) = _
  rw [readTail_of_tail htail hrest hfuel]
  rfl

end Sequences

section Simulation

variable {γ δ σ : Type} {bound : ℕ} {p : Parser τ β} {q : Parser τ γ} {r : Parser τ δ}
  {u : σ → β} {v : σ → γ} {w : σ → δ}

/-- Two parsers take the tokens that a third one takes, and the three results are the parts of
one. -/
def Simulates (bound : ℕ) (p : Parser τ β) (q : Parser τ γ) (r : Parser τ δ) (u : σ → β)
    (v : σ → γ) (w : σ → δ) : Prop :=
  ∀ tokens, tokens.length ≤ bound → ∀ node rest, p tokens = .ok (node, rest) →
    ∃ c, u c = node ∧ q tokens = .ok (v c, rest) ∧ r tokens = .ok (w c, rest)

theorem Simulates.signed (h : Simulates bound p q r u v w) {sign : τ → Option κ}
    {wrap : κ → β → β} {wrap' : κ → γ → γ} {wrap'' : κ → δ → δ}
    (hwrap : ∀ kind c, ∃ c', u c' = wrap kind (u c) ∧ v c' = wrap' kind (v c) ∧
      w c' = wrap'' kind (w c)) :
    Simulates bound (signed sign wrap p) (signed sign wrap' q) (signed sign wrap'' r) u v w := by
  intro tokens hlen
  induction tokens with
  | nil => exact h [] hlen
  | cons token tokens ih =>
    intro node rest hrun
    unfold OperatorParsing.signed at hrun ⊢
    cases hsign : sign token with
    | none =>
      rw [hsign] at hrun
      exact h _ hlen node rest hrun
    | some kind =>
      rw [hsign] at hrun
      cases hnext : OperatorParsing.signed sign wrap p tokens with
      | error failure =>
        simp only [hnext] at hrun
        cases hrun
      | ok pair =>
        obtain ⟨inner, left⟩ := pair
        simp only [hnext] at hrun
        obtain ⟨rfl, rfl⟩ := Prod.mk.inj (Except.ok.inj hrun)
        rw [List.length_cons] at hlen
        obtain ⟨c, rfl, hq, hr⟩ := ih (by omega) inner left hnext
        obtain ⟨c', hu, hv, hw⟩ := hwrap kind c
        refine ⟨c', hu, ?_, ?_⟩
        · simp only [hq, hv]
          rfl
        · simp only [hr, hw]
          rfl

theorem Simulates.marked (h : Simulates bound p q r u v w) {mark : τ → Option κ}
    {wrap : κ → β → β} {wrap' : κ → γ → γ} {wrap'' : κ → δ → δ}
    (hwrap : ∀ kind c, ∃ c', u c' = wrap kind (u c) ∧ v c' = wrap' kind (v c) ∧
      w c' = wrap'' kind (w c)) :
    Simulates bound (marked mark wrap p) (marked mark wrap' q) (marked mark wrap'' r) u v w := by
  intro tokens hlen node rest hrun
  unfold OperatorParsing.marked at hrun ⊢
  cases hnext : p tokens with
  | error failure =>
    rw [hnext] at hrun
    cases hrun
  | ok pair =>
    obtain ⟨inner, left⟩ := pair
    rw [hnext] at hrun
    obtain ⟨c, rfl, hq, hr⟩ := h tokens hlen inner left hnext
    rw [hq, hr]
    cases left with
    | nil =>
      obtain ⟨rfl, rfl⟩ := Prod.mk.inj (Except.ok.inj hrun)
      exact ⟨c, rfl, rfl, rfl⟩
    | cons token left =>
      change (match mark token with
        | none => _
        | some kind => _) = _ at hrun
      cases hmark : mark token with
      | none =>
        rw [hmark] at hrun
        obtain ⟨rfl, rfl⟩ := Prod.mk.inj (Except.ok.inj hrun)
        refine ⟨c, rfl, ?_, ?_⟩
        · change (match mark token with
            | none => _
            | some kind => _) = _
          rw [hmark]
        · change (match mark token with
            | none => _
            | some kind => _) = _
          rw [hmark]
      | some kind =>
        rw [hmark] at hrun
        obtain ⟨rfl, rfl⟩ := Prod.mk.inj (Except.ok.inj hrun)
        obtain ⟨c', hu, hv, hw⟩ := hwrap kind c
        refine ⟨c', hu, ?_, ?_⟩
        · change (match mark token with
            | none => _
            | some kind => _) = _
          rw [hmark, hv]
        · change (match mark token with
            | none => _
            | some kind => _) = _
          rw [hmark, hw]

theorem Simulates.separated (h : Simulates bound p q r u v w) (hconsumes : Consumes bound p)
    (separator : τ → Bool) (fuel : ℕ) :
    Simulates bound (separated separator p fuel) (separated separator q fuel)
      (separated separator r fuel) (List.map u) (List.map v) (List.map w) := by
  intro tokens hlen
  induction fuel generalizing tokens with
  | zero =>
    intro node rest hrun
    cases hrun
  | succ fuel ih =>
    intro node rest hrun
    unfold OperatorParsing.separated at hrun ⊢
    have hprogress := hconsumes tokens hlen
    cases hnext : p tokens with
    | error failure =>
      rw [hnext] at hrun
      cases hrun
    | ok pair =>
      obtain ⟨first, left⟩ := pair
      rw [hnext] at hrun hprogress
      have hleft : left.length < tokens.length := hprogress
      obtain ⟨c, rfl, hq, hr⟩ := h tokens hlen first left hnext
      rw [hq, hr]
      cases left with
      | nil =>
        obtain ⟨rfl, rfl⟩ := Prod.mk.inj (Except.ok.inj hrun)
        exact ⟨[c], rfl, rfl, rfl⟩
      | cons token left =>
        change (if separator token then _ else _) = _ at hrun
        by_cases hsep : separator token = true
        · rw [if_pos hsep] at hrun
          cases hothers : OperatorParsing.separated separator p fuel left with
          | error failure =>
            rw [hothers] at hrun
            cases hrun
          | ok pair =>
            obtain ⟨others, last⟩ := pair
            rw [hothers] at hrun
            obtain ⟨rfl, rfl⟩ := Prod.mk.inj (Except.ok.inj hrun)
            rw [List.length_cons] at hleft
            obtain ⟨cs, rfl, hq', hr'⟩ := ih left (by omega) others last hothers
            refine ⟨c :: cs, rfl, ?_, ?_⟩
            · change (if separator token then _ else _) = _
              rw [if_pos hsep, hq']
              rfl
            · change (if separator token then _ else _) = _
              rw [if_pos hsep, hr']
              rfl
        · rw [if_neg hsep] at hrun
          obtain ⟨rfl, rfl⟩ := Prod.mk.inj (Except.ok.inj hrun)
          refine ⟨[c], rfl, ?_, ?_⟩
          · change (if separator token then _ else _) = _
            rw [if_neg hsep]
            rfl
          · change (if separator token then _ else _) = _
            rw [if_neg hsep]
            rfl

theorem Tail.simulate {operator : τ → Option κ} (h : Simulates bound p q r u v w)
    (hconsumes : Consumes bound p) {tokens rest : List τ} {others : List (κ × β)}
    (htail : Tail operator p tokens others rest) (hlen : tokens.length ≤ bound) :
    others.length ≤ tokens.length ∧ ∃ cs : List (κ × σ), onOperands u cs = others ∧
      Tail operator q tokens (onOperands v cs) rest ∧
      Tail operator r tokens (onOperands w cs) rest := by
  induction htail with
  | done rest => exact ⟨Nat.zero_le _, [], rfl, .done rest, .done rest⟩
  | @more token tokens mid rest kind right others hkind hright hothers ih =>
    rw [List.length_cons] at hlen
    have hprogress := hconsumes tokens (by omega)
    rw [hright] at hprogress
    have hmid : mid.length < tokens.length := hprogress
    obtain ⟨c, rfl, hq, hr⟩ := h tokens (by omega) right mid hright
    obtain ⟨hcount, cs, rfl, htail, htail'⟩ := ih (by omega)
    refine ⟨?_, (kind, c) :: cs, rfl, .more hkind hq htail, .more hkind hr htail'⟩
    rw [List.length_cons, List.length_cons]
    omega

end Simulation

end OperatorParsing
