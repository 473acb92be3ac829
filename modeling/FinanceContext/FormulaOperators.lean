import FinanceContext.FormulaRoundTrip
import FinanceContext.OperatorReading

namespace FinanceContext.Formula

open OperatorParsing Csr

variable {ν α β : Type}

section Table

def isConcat (kind : BinOp) : Bool := kind = .concat

def isCompare (kind : BinOp) : Bool := kind ∈ [BinOp.eq, .ne, .lt, .gt, .le, .ge]

def isSum (kind : BinOp) : Bool := kind ∈ [BinOp.add, .sub]

def isProduct (kind : BinOp) : Bool := kind ∈ [BinOp.mul, .div]

def isPower (kind : BinOp) : Bool := kind = .pow

/-- Excel's order of operations with two operands, the loosest first. -/
def excelPrec : BinOp → ℕ
  | .eq | .ne | .lt | .gt | .le | .ge => 0
  | .concat => 1
  | .add | .sub => 2
  | .mul | .div => 3
  | .pow => 4

def powersApart : List BinOp → Bool
  | .pow :: .pow :: _ => false
  | _ :: ops => powersApart ops
  | [] => true

/-- The operators of one expression do not both join texts and compare, and no two powers follow
each other. -/
def unmixed (ops : List BinOp) : Bool :=
  (!ops.any isConcat || !ops.any isCompare) && powersApart ops

end Table

section Readings

/-- What a reader makes of the forms of an expression; a sequence is one expression, at top, in
parentheses or as an argument. -/
structure Reading (ν α : Type) where
  leaf : Ast ν → α
  call : List Char → List α → α
  signed : BinOp → α → α
  percent : α → α
  sequence : α → List (BinOp × α) → α

/-- Signs and percent bind tighter than the operators between two operands. -/
def excelReading : Reading ν (Ast ν) where
  leaf node := node
  call name args := .func (canonicalFuncName name) args
  signed := .unary
  percent := .percent
  sequence := precedenceClimbing excelPrec .bin

def plainReading : Reading ν Bool where
  leaf _ := true
  call _ args := args.all id
  signed _ operand := operand
  percent operand := operand
  sequence first rest := unmixed (rest.map Prod.fst) && first && rest.all Prod.snd

def binary : Token ν → Option BinOp
  | .op kind => some kind
  | _ => none

variable (table : TextTable) (floats : Floats ν) (reading : Reading ν α)

def readCall (expr : Parser (Token ν) α) (fuel : ℕ) (name : List Char) : Parser (Token ν) α
  | .rparen :: rest => .ok (reading.call name [], rest)
  | tokens => do
    let (args, rest) ← separated isSep expr fuel tokens
    match rest with
    | .rparen :: rest => .ok (reading.call name args, rest)
    | _ => .error .rejected

def readPrimary (expr : Parser (Token ν) α) (fuel : ℕ) : Parser (Token ν) α
  | .number value :: rest => .ok (reading.leaf (.num value), rest)
  | .string value :: rest => .ok (reading.leaf (.str value), rest)
  | .error value :: rest => .ok (reading.leaf (.err value), rest)
  | .ref node :: rest => .ok (reading.leaf node, rest)
  | .name name :: .lparen :: rest => readCall reading expr fuel name rest
  | .name first :: .colon :: .name last :: rest =>
    .ok (reading.leaf (.namedRange first last), rest)
  | .name _ :: .colon :: _ => .error .rejected
  | .name name :: rest => .ok (reading.leaf (.name name), rest)
  | .lparen :: rest => do
    let (node, rest) ← expr rest
    match rest with
    | .rparen :: rest => .ok (node, rest)
    | _ => .error .rejected
  | .lbrace :: rest => do
    let (node, rest) ← parseArray table floats fuel rest
    .ok (reading.leaf node, rest)
  | _ => .error .rejected

def readOperand (primary : Parser (Token ν) α) : Parser (Token ν) α :=
  signed (operatorIn [.add, .sub]) reading.signed
    (marked percentMark (fun _ => reading.percent) primary)

/-- An expression as a sequence of operands and operators; no operator binds tighter than another
here, the reading sees them all. -/
def readExpr : ℕ → Parser (Token ν) α
  | 0 => fun _ => .error .exhausted
  | fuel + 1 => fun tokens => do
    let ((first, others), rest) ← readSequence binary
      (readOperand reading (readPrimary table floats reading (readExpr fuel) (fuel + 1)))
      (fuel + 1) tokens
    .ok (reading.sequence first others, rest)

def readTokens (tokens : List (Token ν)) : Except Failure α := do
  let (node, rest) ← readExpr table floats reading (tokens.length + 1) tokens
  match rest with
  | [] => .ok node
  | _ => .error .rejected

end Readings

section Trees

def pushPercent : Ast ν → Ast ν
  | .unary kind expr => .unary kind (pushPercent expr)
  | node => .percent node

mutual

def normal : Ast ν → Ast ν
  | .unary kind expr => .unary kind (normal expr)
  | .percent expr => pushPercent (normal expr)
  | .bin kind left right => .bin kind (normal left) (normal right)
  | .func name args => .func name (normalArgs args)
  | node => node

def normalArgs : List (Ast ν) → List (Ast ν)
  | [] => []
  | arg :: args => normal arg :: normalArgs args

end

/-- Equal trees, where the two groupings of `-x%` are one. -/
def SameTree (a b : Ast ν) : Prop := normal a = normal b

def weight : Ast ν → ℕ
  | .bin _ left right => 1 + weight left + weight right
  | _ => 0

theorem pushPercent_inj {a b : Ast ν} (h : pushPercent a = pushPercent b) : a = b := by
  induction a using pushPercent.induct generalizing b with
  | case1 kind expr ih =>
    cases b <;> simp only [pushPercent, Ast.unary.injEq, reduceCtorEq] at h
    obtain ⟨rfl, h⟩ := h
    rw [ih h]
  | case2 a ha =>
    rw [pushPercent] at h
    · cases b <;> simp only [pushPercent, Ast.percent.injEq, reduceCtorEq] at h
      all_goals exact h
    · exact ha

theorem weight_pushPercent (a : Ast ν) : weight (pushPercent a) = 0 := by
  cases a <;> rfl

theorem normalArgs_eq_map (args : List (Ast ν)) : normalArgs args = args.map normal := by
  induction args with
  | nil => rfl
  | cons arg args ih => rw [normalArgs, ih, List.map_cons]

theorem free_bin : Free (Ast.bin : BinOp → Ast ν → Ast ν → Ast ν) := by
  intro k a b k' a' b' h
  simpa only [Ast.bin.injEq] using h

end Trees

section Sequences

def sourceGroup (base : β → Ast ν) : β → List (BinOp × β) → Ast ν :=
  groupLeft isConcat .bin (groupLeft isCompare .bin (groupLeft isSum .bin
    (groupLeft isProduct .bin (groupRight isPower .bin fun first _ => base first))))

def excelGroup (base : β → Ast ν) : β → List (BinOp × β) → Ast ν :=
  groupLeft isCompare .bin (groupLeft isConcat .bin (groupLeft isSum .bin
    (groupLeft isProduct .bin (groupLeft isPower .bin fun first _ => base first))))

theorem precedenceClimbing_eq_excelGroup (first : Ast ν) (rest : List (BinOp × Ast ν)) :
    precedenceClimbing excelPrec .bin first rest = excelGroup id first rest := by
  have hbound (kind : BinOp) : excelPrec kind < 5 := by cases kind <;> decide
  have hcompare : (fun kind => decide (excelPrec kind = 0)) = isCompare := by
    funext kind
    cases kind <;> rfl
  have hconcat : (fun kind => decide (excelPrec kind = 1)) = isConcat := by
    funext kind
    cases kind <;> rfl
  have hsum : (fun kind => decide (excelPrec kind = 2)) = isSum := by
    funext kind
    cases kind <;> rfl
  have hproduct : (fun kind => decide (excelPrec kind = 3)) = isProduct := by
    funext kind
    cases kind <;> rfl
  have hpower : (fun kind => decide (excelPrec kind = 4)) = isPower := by
    funext kind
    cases kind <;> rfl
  rw [precedenceClimbing_eq_levels hbound]
  simp only [levels, Nat.reduceAdd, hcompare, hconcat, hsum, hproduct, hpower]
  rfl

theorem class_of_binOp (kind : BinOp) : isConcat kind = true ∨ isCompare kind = true ∨
    isSum kind = true ∨ isProduct kind = true ∨ isPower kind = true := by
  cases kind <;> decide

theorem normal_sourceGroup (base : β → Ast ν) (first : β) (rest : List (BinOp × β)) :
    normal (sourceGroup base first rest) = sourceGroup (fun z => normal (base z)) first rest := by
  have hbin (kind : BinOp) (a b : Ast ν) :
      normal (.bin kind a b) = .bin kind (normal a) (normal b) := by rw [normal]
  simp only [sourceGroup, map_groupLeft hbin, map_groupRight hbin]

theorem normal_excelGroup (base : β → Ast ν) (first : β) (rest : List (BinOp × β)) :
    normal (excelGroup base first rest) = excelGroup (fun z => normal (base z)) first rest := by
  have hbin (kind : BinOp) (a b : Ast ν) :
      normal (.bin kind a b) = .bin kind (normal a) (normal b) := by rw [normal]
  simp only [excelGroup, map_groupLeft hbin]

theorem sourceGroup_onOperands (base : α → Ast ν) (g : β → α) (first : β)
    (rest : List (BinOp × β)) :
    sourceGroup base (g first) (onOperands g rest) =
      sourceGroup (fun z => base (g z)) first rest := by
  simp only [sourceGroup, groupLeft_map, groupRight_map]

theorem excelGroup_onOperands (base : α → Ast ν) (g : β → α) (first : β)
    (rest : List (BinOp × β)) :
    excelGroup base (g first) (onOperands g rest) =
      excelGroup (fun z => base (g z)) first rest := by
  simp only [excelGroup, groupLeft_map]

theorem weighs_base (base : β → Ast ν) :
    Weighs (fun z => weight (base z)) weight (fun _ : BinOp => False)
      (fun first _ => base first) := by
  intro first rest hrest
  cases rest with
  | nil => simp [total]
  | cons x rest => exact absurd (hrest x List.mem_cons_self) id

theorem weight_bin (kind : BinOp) (a b : Ast ν) :
    weight (.bin kind a b) = 1 + weight a + weight b := rfl

def Arithmetic (kind : BinOp) : Prop :=
  isSum kind = true ∨ isProduct kind = true ∨ isPower kind = true

theorem weighs_arithmetic {base : β → Ast ν} {powers : β → List (BinOp × β) → Ast ν}
    (h : Weighs (fun z => weight (base z)) weight (fun kind => isPower kind = true) powers) :
    Weighs (fun z => weight (base z)) weight Arithmetic
      (groupLeft isSum .bin (groupLeft isProduct .bin powers)) := by
  have hproduct : Weighs (fun z => weight (base z)) weight
      (fun kind => isProduct kind = true ∨ isPower kind = true)
      (groupLeft isProduct .bin powers) :=
    h.groupLeft weight_bin fun kind hkind hnot => by simpa [hnot] using hkind
  exact hproduct.groupLeft weight_bin fun kind hkind hnot => by
    simpa [Arithmetic, hnot] using hkind

theorem weight_groups (f g : β → Ast ν) (h : ∀ z, weight (f z) = weight (g z)) (first : β)
    (rest : List (BinOp × β)) :
    weight (sourceGroup f first rest) = weight (excelGroup g first rest) := by
  have hright : Weighs (fun z => weight (f z)) weight (fun kind => isPower kind = true)
      (groupRight isPower .bin fun first _ => f first) :=
    (weighs_base f).groupRight weight_bin fun kind hkind hnot => by simp [hkind] at hnot
  have hleft : Weighs (fun z => weight (g z)) weight (fun kind => isPower kind = true)
      (groupLeft isPower .bin fun first _ => g first) :=
    (weighs_base g).groupLeft weight_bin fun kind hkind hnot => by simp [hkind] at hnot
  have hcompare : Weighs (fun z => weight (f z)) weight
      (fun kind => isCompare kind = true ∨ Arithmetic kind)
      (groupLeft isCompare .bin (groupLeft isSum .bin (groupLeft isProduct .bin
        (groupRight isPower .bin fun first _ => f first)))) :=
    (weighs_arithmetic hright).groupLeft weight_bin fun kind hkind hnot => by
      simpa [hnot] using hkind
  have hconcat : Weighs (fun z => weight (g z)) weight
      (fun kind => isConcat kind = true ∨ Arithmetic kind)
      (groupLeft isConcat .bin (groupLeft isSum .bin (groupLeft isProduct .bin
        (groupLeft isPower .bin fun first _ => g first)))) :=
    (weighs_arithmetic hleft).groupLeft weight_bin fun kind hkind hnot => by
      simpa [hnot] using hkind
  have hsource : Weighs (fun z => weight (f z)) weight (fun _ => True) (sourceGroup f) :=
    hcompare.groupLeft weight_bin fun kind _ hnot => by
      simpa [hnot, Arithmetic] using class_of_binOp kind
  have hexcel : Weighs (fun z => weight (g z)) weight (fun _ => True) (excelGroup g) :=
    hconcat.groupLeft weight_bin fun kind _ hnot => by
      simpa [hnot, Arithmetic] using class_of_binOp kind
  have hbase : (fun z => weight (f z)) = fun z => weight (g z) := funext h
  rw [hsource first rest fun _ _ => trivial, hexcel first rest fun _ _ => trivial, hbase]

/-- The operands of two groupings agree and no two powers follow each other. -/
def Agrees (f g : β → Ast ν) (first : β) (rest : List (BinOp × β)) : Prop :=
  f first = g first ∧ (∀ x ∈ rest, f x.2 = g x.2) ∧ powersApart (rest.map Prod.fst) = true

theorem powersApart_cons (kind : BinOp) (ops : List BinOp) :
    powersApart (kind :: ops) = true ↔
      ¬(kind = .pow ∧ ops.head? = some .pow) ∧ powersApart ops = true := by
  by_cases hpow : kind = .pow ∧ ops.head? = some .pow
  · obtain ⟨rfl, hhead⟩ := hpow
    obtain ⟨rest, rfl⟩ := List.head?_eq_some_iff.mp hhead
    simp [powersApart]
  · rw [powersApart]
    · simp [hpow]
    · intro rest hkind hops
      exact hpow ⟨hkind, by rw [hops]; rfl⟩

theorem agrees_cons (f g : β → Ast ν) (first operand : β) (kind : BinOp)
    (rest : List (BinOp × β)) :
    Agrees f g first ((kind, operand) :: rest) ↔
      f first = g first ∧ ¬(kind = .pow ∧ (rest.map Prod.fst).head? = some .pow) ∧
        Agrees f g operand rest := by
  simp only [Agrees, List.map_cons, powersApart_cons, List.forall_mem_cons]
  constructor
  · rintro ⟨hfirst, ⟨hoperand, hrest⟩, hkind, hops⟩
    exact ⟨hfirst, hkind, hoperand, hrest, hops⟩
  · rintro ⟨hfirst, hkind, hoperand, hrest, hops⟩
    exact ⟨hfirst, ⟨hoperand, hrest⟩, hkind, hops⟩

theorem parts_agrees {own : BinOp → Bool} (hown : own .pow = false) (f g : β → Ast ν) (first : β)
    (rest : List (BinOp × β)) : Parts own (Agrees f g) first rest ↔ Agrees f g first rest := by
  induction rest generalizing first with
  | nil => simp [Parts, cut]
  | cons x rest ih =>
    obtain ⟨kind, operand⟩ := x
    have hrest := ih operand
    rw [agrees_cons, ← hrest]
    by_cases hkind : own kind = true
    · have hne : kind ≠ .pow := by
        rintro rfl
        rw [hown] at hkind
        cases hkind
      simp only [Parts, cut_cons_of_own hkind, List.forall_mem_cons]
      have hempty : Agrees f g first ([] : List (BinOp × β)) ↔ f first = g first := by
        simp [Agrees, powersApart]
      rw [hempty]
      simp [hne]
    · have hnot : own kind = false := by simpa using hkind
      have hhead : ((cut own rest).1.map Prod.fst).head? = some .pow ↔
          (rest.map Prod.fst).head? = some .pow := by
        cases rest with
        | nil => rfl
        | cons y rest =>
          obtain ⟨k, a⟩ := y
          by_cases hk : own k = true
          · rw [cut_cons_of_own hk]
            have hne : k ≠ .pow := by
              rintro rfl
              rw [hown] at hk
              cases hk
            simp [hne]
          · rw [cut_cons_of_not (by simpa using hk)]
            rfl
      simp only [Parts, cut_cons_of_not hnot, agrees_cons, hhead]
      constructor
      · rintro ⟨⟨hfirst, hpow, hoperand⟩, hpieces⟩
        exact ⟨hfirst, hpow, hoperand, hpieces⟩
      · rintro ⟨hfirst, hpow, hoperand, hpieces⟩
        exact ⟨⟨hfirst, hpow, hoperand⟩, hpieces⟩

theorem level_eq_iff {own : BinOp → Bool} (hown : own .pow = false) {ops ops' : BinOp → Prop}
    (hops : ∀ kind, ops' kind → own kind = false → ops kind) {f g : β → Ast ν}
    {inner inner' : β → List (BinOp × β) → Ast ν}
    (h : ∀ z zs, (∀ x ∈ zs, ops x.1) → (inner z zs = inner' z zs ↔ Agrees f g z zs)) (first : β)
    (rest : List (BinOp × β)) (hrest : ∀ x ∈ rest, ops' x.1) :
    groupLeft own .bin inner first rest = groupLeft own .bin inner' first rest ↔
      Agrees f g first rest := by
  rw [groupLeft_eq_iff free_bin, ← parts_agrees hown]
  apply parts_congr _ first hrest
  intro z zs hzs
  exact h z zs fun x hx => hops _ (hzs x hx).1 (hzs x hx).2

theorem root_foldl (pieces : List (BinOp × β × List (BinOp × β)))
    (inner : β → List (BinOp × β) → Ast ν) (kind : BinOp) (left right : Ast ν) :
    ∃ k a b, pieces.foldl (fun node piece => Ast.bin piece.1 node (inner piece.2.1 piece.2.2))
      (.bin kind left right) = .bin k a b ∧ weight left ≤ weight a := by
  induction pieces generalizing kind left right with
  | nil => exact ⟨kind, left, right, rfl, Nat.le_refl _⟩
  | cons p pieces ih =>
    obtain ⟨k, a, b, heq, hle⟩ := ih p.1 (.bin kind left right) (inner p.2.1 p.2.2)
    refine ⟨k, a, b, heq, ?_⟩
    rw [weight] at hle
    omega

theorem cut_of_all {own : BinOp → Bool} {rest : List (BinOp × β)}
    (h : ∀ x ∈ rest, own x.1 = true) :
    cut own rest = ([], rest.map fun x => (x.1, x.2, [])) := by
  induction rest with
  | nil => rfl
  | cons x rest ih =>
    obtain ⟨kind, operand⟩ := x
    rw [cut_cons_of_own (h _ List.mem_cons_self), ih fun y hy => h y (List.mem_cons_of_mem _ hy)]
    rfl

theorem powers_eq_iff {f g : β → Ast ν} (hweight : ∀ z, weight (f z) = weight (g z)) (first : β)
    (rest : List (BinOp × β)) (hrest : ∀ x ∈ rest, isPower x.1 = true) :
    groupRight isPower .bin (fun first _ => f first) first rest =
        groupLeft isPower .bin (fun first _ => g first) first rest ↔ Agrees f g first rest := by
  have hpow : ∀ x ∈ rest, x.1 = .pow := fun x hx => by simpa [isPower] using hrest x hx
  rw [groupRight, groupLeft, cut_of_all hrest]
  cases rest with
  | nil => simp [joinRight, Agrees, powersApart]
  | cons x rest =>
    obtain ⟨kind, operand⟩ := x
    have hkind : kind = .pow := hpow _ List.mem_cons_self
    cases rest with
    | nil => simp [joinRight, Agrees, powersApart]
    | cons y rest =>
      obtain ⟨kind', operand'⟩ := y
      have hkind' : kind' = .pow := hpow _ (List.mem_cons_of_mem _ List.mem_cons_self)
      constructor
      · intro heq
        obtain ⟨k, a, b, hroot, hle⟩ := root_foldl (rest.map fun x => (x.1, x.2, []))
          (fun first _ => g first) kind' (.bin kind (g first) (g operand)) (g operand')
        simp only [List.map_cons, List.foldl_cons, joinRight] at heq
        rw [hroot] at heq
        have hleft := (Ast.bin.inj heq).2.1
        have hsize := congrArg weight hleft
        rw [hweight] at hsize
        rw [weight] at hle
        omega
      · rintro ⟨-, -, hapart⟩
        rw [hkind, hkind'] at hapart
        cases hapart

def arithmetic (powers : β → List (BinOp × β) → Ast ν) : β → List (BinOp × β) → Ast ν :=
  groupLeft isSum .bin (groupLeft isProduct .bin powers)

theorem arithmetic_eq_iff {f g : β → Ast ν} (hweight : ∀ z, weight (f z) = weight (g z))
    (first : β) (rest : List (BinOp × β)) (hrest : ∀ x ∈ rest, Arithmetic x.1) :
    arithmetic (groupRight isPower .bin fun z _ => f z) first rest =
      arithmetic (groupLeft isPower .bin fun z _ => g z) first rest ↔ Agrees f g first rest := by
  have hops : ∀ kind, (isProduct kind = true ∨ isPower kind = true) → isProduct kind = false →
      isPower kind = true := fun kind hkind hnot => by simpa [hnot] using hkind
  have hsum : ∀ kind, Arithmetic kind → isSum kind = false →
      (isProduct kind = true ∨ isPower kind = true) := fun kind hkind hnot => by
    simpa [Arithmetic, hnot] using hkind
  exact level_eq_iff rfl hsum (level_eq_iff rfl hops (powers_eq_iff hweight)) first rest hrest

theorem groupLeft_skip {own skip : BinOp → Bool} (inner : β → List (BinOp × β) → Ast ν)
    (first : β) {rest : List (BinOp × β)} (hrest : ∀ x ∈ rest, skip x.1 = false) :
    groupLeft own .bin (groupLeft skip .bin inner) first rest =
      groupLeft own .bin inner first rest := by
  rw [groupLeft_eq_iff free_bin]
  constructor
  · exact groupLeft_of_none _ _ fun x hx => hrest x (mem_front hx).1
  · intro piece hpiece
    exact groupLeft_of_none _ _ fun x hx => hrest x (mem_behind hpiece hx).1

theorem agrees_iff_unmixed {f g : β → Ast ν} {first : β} {rest : List (BinOp × β)}
    (h : (∀ x ∈ rest, isConcat x.1 = false) ∨ ∀ x ∈ rest, isCompare x.1 = false) :
    Agrees f g first rest ↔
      unmixed (rest.map Prod.fst) = true ∧ f first = g first ∧ ∀ x ∈ rest, f x.2 = g x.2 := by
  have hlevels : (!(rest.map Prod.fst).any isConcat || !(rest.map Prod.fst).any isCompare) =
      true := by
    have hnone {p : BinOp → Bool} (hp : ∀ x ∈ rest, p x.1 = false) :
        (rest.map Prod.fst).any p = false := by
      rw [List.any_eq_false]
      intro kind hkind
      obtain ⟨x, hx, rfl⟩ := List.mem_map.mp hkind
      simp [hp x hx]
    rcases h with h | h
    · simp [hnone h]
    · simp [hnone h]
  rw [unmixed, hlevels, Bool.true_and, Agrees]
  constructor
  · rintro ⟨hfirst, hrest, hapart⟩
    exact ⟨hapart, hfirst, hrest⟩
  · rintro ⟨hapart, hfirst, hrest⟩
    exact ⟨hfirst, hrest, hapart⟩

theorem unmixed_of_both {rest : List (BinOp × β)} {x y : BinOp × β} (hx : x ∈ rest)
    (hy : y ∈ rest) (hcompare : isCompare x.1 = true) (hconcat : isConcat y.1 = true) :
    unmixed (rest.map Prod.fst) = false := by
  have hany : (rest.map Prod.fst).any isConcat = true :=
    List.any_eq_true.mpr ⟨y.1, List.mem_map_of_mem hy, hconcat⟩
  have hany' : (rest.map Prod.fst).any isCompare = true :=
    List.any_eq_true.mpr ⟨x.1, List.mem_map_of_mem hx, hcompare⟩
  rw [unmixed, hany, hany']
  rfl

theorem groups_ne_of_both (f g : β → Ast ν) (first : β) {rest : List (BinOp × β)}
    {x y : BinOp × β} (hx : x ∈ rest) (hy : y ∈ rest) (hcompare : isCompare x.1 = true)
    (hconcat : isConcat y.1 = true) : sourceGroup f first rest ≠ excelGroup g first rest := by
  intro heq
  have hsource : ∃ k a b, isConcat k = true ∧ sourceGroup f first rest = Ast.bin k a b :=
    exists_root_groupLeft _ first hy hconcat
  have hexcel : ∃ k a b, isCompare k = true ∧ excelGroup g first rest = Ast.bin k a b :=
    exists_root_groupLeft _ first hx hcompare
  obtain ⟨k, a, b, hk, hroot⟩ := hsource
  obtain ⟨k', a', b', hk', hroot'⟩ := hexcel
  have hbin : Ast.bin k a b = Ast.bin k' a' b' := hroot.symm.trans (heq.trans hroot')
  obtain rfl := (Ast.bin.inj hbin).1
  simp only [isConcat, decide_eq_true_eq] at hk
  rw [hk] at hk'
  cases hk'

theorem groups_eq_iff {f g : β → Ast ν} (hweight : ∀ z, weight (f z) = weight (g z)) (first : β)
    (rest : List (BinOp × β)) :
    sourceGroup f first rest = excelGroup g first rest ↔
      unmixed (rest.map Prod.fst) = true ∧ f first = g first ∧ ∀ x ∈ rest, f x.2 = g x.2 := by
  by_cases hcompare : ∃ x ∈ rest, isCompare x.1 = true
  · obtain ⟨x, hx, hcompared⟩ := hcompare
    by_cases hconcat : ∃ x ∈ rest, isConcat x.1 = true
    · obtain ⟨y, hy, hjoined⟩ := hconcat
      rw [unmixed_of_both hx hy hcompared hjoined]
      exact iff_of_false (groups_ne_of_both f g first hx hy hcompared hjoined) (by simp)
    · have hnone : ∀ x ∈ rest, isConcat x.1 = false := by simpa using hconcat
      have hops : ∀ kind, isConcat kind = false → isCompare kind = false → Arithmetic kind :=
        fun kind hkind hnot => by simpa [hkind, hnot, Arithmetic] using class_of_binOp kind
      rw [← agrees_iff_unmixed (.inl hnone),
        ← level_eq_iff rfl hops (arithmetic_eq_iff hweight) first rest hnone]
      have hsource : sourceGroup f first rest = groupLeft isCompare .bin
          (arithmetic (groupRight isPower .bin fun z _ => f z)) first rest :=
        groupLeft_of_none _ first hnone
      have hexcel : excelGroup g first rest = groupLeft isCompare .bin
          (arithmetic (groupLeft isPower .bin fun z _ => g z)) first rest :=
        groupLeft_skip _ first hnone
      rw [hsource, hexcel]
  · have hnone : ∀ x ∈ rest, isCompare x.1 = false := by simpa using hcompare
    have hops : ∀ kind, isCompare kind = false → isConcat kind = false → Arithmetic kind :=
      fun kind hkind hnot => by simpa [hkind, hnot, Arithmetic] using class_of_binOp kind
    rw [← agrees_iff_unmixed (.inr hnone),
      ← level_eq_iff rfl hops (arithmetic_eq_iff hweight) first rest hnone]
    have hsource : sourceGroup f first rest = groupLeft isConcat .bin
        (arithmetic (groupRight isPower .bin fun z _ => f z)) first rest :=
      groupLeft_skip _ first hnone
    have hexcel : excelGroup g first rest = groupLeft isConcat .bin
        (arithmetic (groupLeft isPower .bin fun z _ => g z)) first rest :=
      groupLeft_of_none _ first hnone
    rw [hsource, hexcel]

end Sequences

section Comparison

/-- The tree of the parser for some tokens, the one of Excel's order of operations, and whether all
expressions are unmixed; the trees are the same exactly if they are. -/
structure Compared (ν : Type) where
  tree : Ast ν
  ref : Ast ν
  plain : Bool
  same : SameTree tree ref ↔ plain = true
  weight_eq : weight (normal tree) = weight (normal ref)

namespace Compared

def leaf (node : Ast ν) : Compared ν := ⟨node, node, true, iff_of_true rfl rfl, rfl⟩

def signed (kind : BinOp) (c : Compared ν) : Compared ν where
  tree := .unary kind c.tree
  ref := .unary kind c.ref
  plain := c.plain
  same := by
    rw [← c.same, SameTree, SameTree, normal, normal, Ast.unary.injEq]
    exact and_iff_right rfl
  weight_eq := by
    rw [normal, normal]
    rfl

def percent (c : Compared ν) : Compared ν where
  tree := .percent c.tree
  ref := .percent c.ref
  plain := c.plain
  same := by
    rw [← c.same, SameTree, SameTree, normal, normal]
    exact ⟨pushPercent_inj, congrArg pushPercent⟩
  weight_eq := by rw [normal, normal, weight_pushPercent, weight_pushPercent]

theorem map_normal_iff (args : List (Compared ν)) :
    (args.map tree).map normal = (args.map ref).map normal ↔
      (args.map plain).all id = true := by
  induction args with
  | nil => simp
  | cons arg args ih =>
    simp only [List.map_cons, List.cons.injEq, List.all_cons, Bool.and_eq_true, ih, id_eq]
    exact and_congr_left' arg.same

def call (name : List Char) (args : List (Compared ν)) : Compared ν where
  tree := .func name (args.map tree)
  ref := .func name (args.map ref)
  plain := (args.map plain).all id
  same := by
    rw [← map_normal_iff, SameTree, normal, normal, normalArgs_eq_map, normalArgs_eq_map,
      Ast.func.injEq]
    exact and_iff_right rfl
  weight_eq := by
    rw [normal, normal]
    rfl

def sequence (first : Compared ν) (rest : List (BinOp × Compared ν)) : Compared ν where
  tree := sourceGroup tree first rest
  ref := excelGroup ref first rest
  plain := unmixed (rest.map Prod.fst) && first.plain && rest.all fun x => x.2.plain
  same := by
    rw [SameTree, normal_sourceGroup, normal_excelGroup, groups_eq_iff fun z => z.weight_eq,
      Bool.and_eq_true, Bool.and_eq_true, and_assoc, List.all_eq_true]
    exact and_congr_right' (and_congr first.same (forall₂_congr fun x _ => x.2.same))
  weight_eq := by
    rw [normal_sourceGroup, normal_excelGroup]
    exact weight_groups _ _ (fun z => z.weight_eq) first rest

end Compared

variable (table : TextTable) (floats : Floats ν)

theorem operatorIn_eq_some_iff {ops : List BinOp} {own : BinOp → Bool}
    (h : ∀ kind, kind ∈ ops ↔ own kind = true) (token : Token ν) (kind : BinOp) :
    operatorIn ops token = some kind ↔ binary token = some kind ∧ own kind = true := by
  cases token with
  | op found =>
    simp only [operatorIn, binary, Option.ite_none_right_eq_some, h, Option.some.injEq]
    constructor
    · rintro ⟨hown, rfl⟩
      exact ⟨rfl, hown⟩
    · rintro ⟨rfl, hown⟩
      exact ⟨hown, rfl⟩
  | _ => simp [operatorIn, binary]

theorem parseConcat_reads (fuel : ℕ) (primary : Parser (Token ν) (Ast ν))
    {tokens rest : List (Token ν)} {node : Ast ν}
    (h : parseConcat fuel primary tokens = .ok (node, rest)) : ∃ first mid others,
      parseUnary primary tokens = .ok (first, mid) ∧
      Tail binary (parseUnary primary) mid others rest ∧
      StopsFor binary (fun _ => True) rest ∧ node = sourceGroup id first others := by
  have hpow : ∀ kind, kind ∈ [BinOp.pow] ↔ isPower kind = true := by
    intro kind
    cases kind <;> decide
  have hmul : ∀ kind, kind ∈ [BinOp.mul, .div] ↔ isProduct kind = true := by
    intro kind
    cases kind <;> decide
  have hadd : ∀ kind, kind ∈ [BinOp.add, .sub] ↔ isSum kind = true := by
    intro kind
    cases kind <;> decide
  have hcompare : ∀ kind, kind ∈ [BinOp.eq, .ne, .lt, .gt, .le, .ge] ↔ isCompare kind = true := by
    intro kind
    cases kind <;> decide
  have hconcat : ∀ kind, kind ∈ [BinOp.concat] ↔ isConcat kind = true := by
    intro kind
    cases kind <;> decide
  have hpowers := (@groups_operand _ _ _ binary (parseUnary primary)).rightLevel .bin
    (operatorIn_eq_some_iff hpow) (fun _ hno => hno.elim) fuel
  have hproducts := hpowers.leftLevel .bin (operatorIn_eq_some_iff hmul)
    (by intro kind; cases kind <;> decide) fuel
  have hsums := hproducts.leftLevel .bin (operatorIn_eq_some_iff hadd)
    (by intro kind; cases kind <;> decide) fuel
  have hcompares := hsums.leftLevel .bin (operatorIn_eq_some_iff hcompare)
    (by intro kind; cases kind <;> decide) fuel
  have hall := hcompares.leftLevel .bin (operatorIn_eq_some_iff hconcat)
    (by intro kind; cases kind <;> decide) fuel
  obtain ⟨first, mid, others, hfirst, htail, -, hstops, hnode⟩ := hall tokens node rest h
  refine ⟨first, mid, others, hfirst, htail, ?_, hnode⟩
  intro token htoken kind hkind _
  apply hstops token htoken kind hkind
  cases kind <;> decide

theorem parseCall_simulates {expr expr' : Parser (Token ν) (Ast ν)}
    {expr'' : Parser (Token ν) Bool} {bound : ℕ}
    (hexpr : Simulates bound expr expr' expr'' Compared.tree Compared.ref Compared.plain)
    (hconsumes : Consumes bound expr) (fuel : ℕ) (name : List Char) :
    Simulates bound (parseCall expr fuel name) (readCall excelReading expr' fuel name)
      (readCall plainReading expr'' fuel name) Compared.tree Compared.ref Compared.plain := by
  intro tokens hlen node rest hrun
  by_cases hclosed : ∃ left, tokens = .rparen :: left
  · obtain ⟨left, rfl⟩ := hclosed
    obtain ⟨rfl, rfl⟩ := Prod.mk.inj (Except.ok.inj hrun)
    exact ⟨Compared.call (canonicalFuncName name) [], rfl, rfl, rfl⟩
  · have hopen : ∀ left, tokens = .rparen :: left → False := fun left h => hclosed ⟨left, h⟩
    rw [parseCall.eq_2 _ _ _ _ hopen] at hrun
    rw [readCall.eq_2 _ _ _ _ _ hopen, readCall.eq_2 _ _ _ _ _ hopen]
    cases hargs : separated isSep expr fuel tokens with
    | error failure =>
      rw [hargs] at hrun
      cases hrun
    | ok pair =>
      obtain ⟨args, left⟩ := pair
      rw [hargs] at hrun
      obtain ⟨cs, rfl, hexcel, hplain⟩ :=
        hexpr.separated hconsumes isSep fuel tokens hlen args left hargs
      rw [hexcel, hplain]
      cases left with
      | nil => cases hrun
      | cons token left =>
        cases token with
        | rparen =>
          obtain ⟨rfl, rfl⟩ := Prod.mk.inj (Except.ok.inj hrun)
          exact ⟨Compared.call (canonicalFuncName name) cs, rfl, rfl, rfl⟩
        | _ => cases hrun

theorem parsePrimary_simulates {expr expr' : Parser (Token ν) (Ast ν)}
    {expr'' : Parser (Token ν) Bool} {bound : ℕ}
    (hexpr : Simulates bound expr expr' expr'' Compared.tree Compared.ref Compared.plain)
    (hconsumes : Consumes bound expr) (fuel : ℕ) :
    Simulates (bound + 1) (parsePrimary table floats expr fuel)
      (readPrimary table floats excelReading expr' fuel)
      (readPrimary table floats plainReading expr'' fuel)
      Compared.tree Compared.ref Compared.plain := by
  intro tokens hlen node rest hrun
  unfold parsePrimary at hrun
  split at hrun
  case h_5 name tokens =>
    rw [List.length_cons, List.length_cons] at hlen
    exact parseCall_simulates hexpr hconsumes fuel name tokens (by omega) node rest hrun
  case h_8 name left hcall hrange hcolon =>
    obtain ⟨rfl, rfl⟩ := Prod.mk.inj (Except.ok.inj hrun)
    refine ⟨Compared.leaf (.name name), rfl, ?_, ?_⟩
    · rw [readPrimary]
      · rfl
      all_goals assumption
    · rw [readPrimary]
      · rfl
      all_goals assumption
  case h_9 tokens =>
    rw [List.length_cons] at hlen
    cases hinner : expr tokens with
    | error failure =>
      rw [hinner] at hrun
      cases hrun
    | ok pair =>
      obtain ⟨inner, left⟩ := pair
      rw [hinner] at hrun
      obtain ⟨c, rfl, hexcel, hplain⟩ := hexpr tokens (by omega) inner left hinner
      rw [readPrimary, readPrimary, hexcel, hplain]
      cases left with
      | nil => cases hrun
      | cons token left =>
        cases token with
        | rparen =>
          obtain ⟨rfl, rfl⟩ := Prod.mk.inj (Except.ok.inj hrun)
          exact ⟨c, rfl, rfl, rfl⟩
        | _ => cases hrun
  case h_10 tokens =>
    rw [readPrimary, readPrimary]
    rw [hrun]
    exact ⟨Compared.leaf node, rfl, rfl, rfl⟩
  case h_7 => cases hrun
  case h_11 => cases hrun
  all_goals
    obtain ⟨rfl, rfl⟩ := Prod.mk.inj (Except.ok.inj hrun)
    exact ⟨Compared.leaf _, rfl, rfl, rfl⟩

theorem parseUnary_simulates {primary primary' : Parser (Token ν) (Ast ν)}
    {primary'' : Parser (Token ν) Bool} {bound : ℕ}
    (h : Simulates bound primary primary' primary'' Compared.tree Compared.ref Compared.plain) :
    Simulates bound (parseUnary primary) (readOperand excelReading primary')
      (readOperand plainReading primary'') Compared.tree Compared.ref Compared.plain := by
  unfold parseUnary readOperand
  apply Simulates.signed
  · apply h.marked
    intro _ c
    exact ⟨c.percent, rfl, rfl, rfl⟩
  · intro kind c
    exact ⟨c.signed kind, rfl, rfl, rfl⟩

theorem parseExpr_simulates (fuel : ℕ) :
    Simulates fuel (parseExpr table floats (fuel + 1))
      (readExpr table floats excelReading (fuel + 1))
      (readExpr table floats plainReading (fuel + 1))
      Compared.tree Compared.ref Compared.plain := by
  induction fuel with
  | zero =>
    intro tokens hlen node rest hrun
    have hprogress := consumes_parseExpr table floats 0 tokens hlen
    rw [hrun] at hprogress
    have hlt : rest.length < tokens.length := hprogress
    omega
  | succ fuel ih =>
    have hconsumes := consumes_parseExpr table floats fuel
    have hprimary := parsePrimary_simulates table floats ih hconsumes (fuel + 1 + 1)
    have hoperand := parseUnary_simulates hprimary
    have hprogress : Consumes (fuel + 1) (parseUnary (parsePrimary table floats
        (parseExpr table floats (fuel + 1)) (fuel + 1 + 1))) :=
      ((consumes_parsePrimary table floats hconsumes (by omega)).marked _).signed _
    intro tokens hlen node rest hrun
    obtain ⟨first, mid, others, hfirst, htail, hstops, rfl⟩ := parseConcat_reads _ _ hrun
    obtain ⟨c, rfl, hexcel, hplain⟩ := hoperand tokens hlen first mid hfirst
    have hmid := hprogress tokens hlen
    rw [hfirst] at hmid
    have hlt : mid.length < tokens.length := hmid
    obtain ⟨hcount, cs, rfl, htail', htail''⟩ := htail.simulate hoperand hprogress (by omega)
    rw [onOperands, List.length_map] at hcount
    have href : excelReading.sequence c.ref (onOperands Compared.ref cs) =
        (Compared.sequence c cs).ref :=
      (precedenceClimbing_eq_excelGroup _ _).trans (excelGroup_onOperands id Compared.ref c cs)
    have hplainly : (plainReading : Reading ν Bool).sequence c.plain
        (onOperands Compared.plain cs) =
        (Compared.sequence c cs).plain := by
      simp [plainReading, Compared.sequence, onOperands, List.map_map, List.all_map,
        Function.comp_def]
    have hexcels : readSequence binary (readOperand excelReading (readPrimary table floats
        excelReading (readExpr table floats excelReading (fuel + 1)) (fuel + 1 + 1)))
        (fuel + 1 + 1) tokens = .ok ((c.ref, onOperands Compared.ref cs), rest) := by
      apply readSequence_of_tail hexcel htail' hstops
      rw [onOperands, List.length_map]
      omega
    have hplains : readSequence binary (readOperand plainReading (readPrimary table floats
        plainReading (readExpr table floats plainReading (fuel + 1)) (fuel + 1 + 1)))
        (fuel + 1 + 1) tokens = .ok ((c.plain, onOperands Compared.plain cs), rest) := by
      apply readSequence_of_tail hplain htail'' hstops
      rw [onOperands, List.length_map]
      omega
    refine ⟨Compared.sequence c cs, (sourceGroup_onOperands id Compared.tree c cs).symm, ?_, ?_⟩
    · rw [readExpr]
      dsimp only
      rw [hexcels, ← href]
      rfl
    · rw [readExpr]
      dsimp only
      rw [hplains, ← hplainly]
      rfl

theorem parseTokens_simulates {tokens : List (Token ν)} {ast : Ast ν}
    (h : parseTokens table floats tokens = .ok ast) : ∃ c : Compared ν, c.tree = ast ∧
      readTokens table floats excelReading tokens = .ok c.ref ∧
      readTokens table floats plainReading tokens = .ok c.plain := by
  unfold parseTokens at h
  cases hrun : parseExpr table floats (tokens.length + 1) tokens with
  | error failure =>
    rw [hrun] at h
    cases h
  | ok pair =>
    obtain ⟨node, rest⟩ := pair
    rw [hrun] at h
    obtain ⟨c, rfl, hexcel, hplain⟩ :=
      parseExpr_simulates table floats tokens.length tokens (Nat.le_refl _) node rest hrun
    unfold readTokens
    rw [hexcel, hplain]
    match rest, h with
    | [], h => exact ⟨c, Except.ok.inj h, rfl, rfl⟩

/-- A formula that is parsed is read by Excel's order of operations, and both trees are the same
if and only if none of its expressions is mixed. -/
theorem grouped_as_excel_iff (engine : Engine) (formula : List Char) (sheet addr : String)
    {ast : Ast ν} (h : (engine.parse table floats formula sheet addr).ast = some ast) :
    ∃ tokens ref plain,
      tokenize table floats engine.decimal engine.sep (withoutEquals formula) = .ok tokens ∧
      readTokens table floats excelReading tokens = .ok ref ∧
      readTokens table floats plainReading tokens = .ok plain ∧
      (SameTree ast ref ↔ plain = true) := by
  unfold Engine.parse at h
  dsimp only at h
  split_ifs at h with hblank
  · cases h
  cases htokens : tokenize table floats engine.decimal engine.sep (withoutEquals formula) with
  | error failure =>
    rw [htokens] at h
    cases h
  | ok tokens =>
    have hread : tokenize table floats engine.decimal engine.sep (withoutEquals formula) >>=
        parseTokens table floats = parseTokens table floats tokens := by
      rw [htokens]
      rfl
    rw [hread] at h
    split at h
    · rename_i found _ _ hparse _
      cases h
      obtain ⟨c, rfl, hexcel, hplain⟩ := parseTokens_simulates table floats hparse
      exact ⟨tokens, c.ref, c.plain, rfl, hexcel, hplain, c.same⟩
    · cases h

end Comparison

section Sample

/-- `-1+2*3` -/
def sumTree : Ast (List Char) :=
  .bin .add (.unary .sub (.num ['1'])) (.bin .mul (.num ['2']) (.num ['3']))

theorem ast_of_parse {formula text : List Char} {tokens : List (Token (List Char))}
    {ast : Ast (List Char)} (htext : withoutEquals formula = text)
    (hspace : text.all asciiText.space = false)
    (htokens : tokenize asciiText textFloats.toFloats '.' ',' text = .ok tokens)
    (hparse : parseTokens asciiText textFloats.toFloats tokens = .ok ast) :
    (Engine.en.parse asciiText textFloats.toFloats formula "S" "B1").ast = some ast := by
  have haddr : parseAddr asciiText.decimal "B1".toList = some (2, 1) := by decide +kernel
  have hread : tokenize asciiText textFloats.toFloats Engine.en.decimal Engine.en.sep text >>=
      parseTokens asciiText textFloats.toFloats = .ok ast := by
    change tokenize asciiText textFloats.toFloats '.' ',' text >>= _ = _
    rw [htokens]
    exact hparse
  unfold Engine.parse
  rw [htext]
  dsimp only
  rw [hread, haddr, hspace]
  rfl

theorem sum_of_product_grouped :
    ∃ tokens ref plain,
      tokenize asciiText textFloats.toFloats '.' ',' ['-', '1', '+', '2', '*', '3'] =
        .ok tokens ∧
      readTokens asciiText textFloats.toFloats excelReading tokens = .ok ref ∧
      readTokens asciiText textFloats.toFloats plainReading tokens = .ok plain ∧
      (SameTree sumTree ref ↔ plain = true) :=
  grouped_as_excel_iff asciiText textFloats.toFloats Engine.en ['=', '-', '1', '+', '2', '*', '3']
    "S" "B1" (ast_of_parse rfl (by decide) rfl rfl)

/-- `2^3^2`, as it is parsed and as Excel computes it. -/
def powerTree : Ast (List Char) := .bin .pow (.num ['2']) (.bin .pow (.num ['3']) (.num ['2']))

def powerTreeExcel : Ast (List Char) :=
  .bin .pow (.bin .pow (.num ['2']) (.num ['3'])) (.num ['2'])

/-- `1="x"&"y"` -/
def joinTree : Ast (List Char) :=
  .bin .concat (.bin .eq (.num ['1']) (.str ['x'])) (.str ['y'])

def joinTreeExcel : Ast (List Char) :=
  .bin .eq (.num ['1']) (.bin .concat (.str ['x']) (.str ['y']))

/-- A power of a power is grouped from the right, and a comparison before a join. -/
theorem power_and_join_regrouped :
    ((Engine.en.parse asciiText textFloats.toFloats "=2^3^2".toList "S" "B1").ast =
        some powerTree ∧
      (tokenize asciiText textFloats.toFloats '.' ',' "2^3^2".toList >>=
        readTokens asciiText textFloats.toFloats excelReading) = .ok powerTreeExcel ∧
      ¬ SameTree powerTree powerTreeExcel) ∧
    ((Engine.en.parse asciiText textFloats.toFloats "=1=\"x\"&\"y\"".toList "S" "B1").ast =
        some joinTree ∧
      (tokenize asciiText textFloats.toFloats '.' ',' "1=\"x\"&\"y\"".toList >>=
        readTokens asciiText textFloats.toFloats excelReading) = .ok joinTreeExcel ∧
      ¬ SameTree joinTree joinTreeExcel) := by
  have hpower : "2^3^2".toList = ['2', '^', '3', '^', '2'] := by decide
  have hpower' : "=2^3^2".toList = '=' :: ['2', '^', '3', '^', '2'] := by decide
  have hjoin : "1=\"x\"&\"y\"".toList =
      ['1', '=', '"', 'x', '"', '&', '"', 'y', '"'] := by decide
  have hjoin' : "=1=\"x\"&\"y\"".toList =
      '=' :: ['1', '=', '"', 'x', '"', '&', '"', 'y', '"'] := by decide
  rw [hpower, hpower', hjoin, hjoin']
  refine ⟨⟨ast_of_parse rfl (by decide) rfl rfl, rfl, ?_⟩, ast_of_parse rfl (by decide) rfl rfl,
    rfl, ?_⟩
  · intro h
    cases h
  · intro h
    cases h

end Sample

end FinanceContext.Formula
