import FinanceContext.FormulaScanning

namespace FinanceContext.Formula

open OperatorParsing

variable {ν : Type}

section Levels

/-- No `%` and no operator tighter than a level stands at the head. -/
def Loose (level : ℕ) (rest : List (Token ν)) : Prop :=
  ∀ token ∈ rest.head?, token ≠ .percent ∧ ∀ kind, token = .op kind → opPrec kind ≤ level

def LooseAfter (level : ℕ) (result : Except Failure (Ast ν × List (Token ν))) : Prop :=
  ∀ node rest, result = .ok (node, rest) → Loose level rest

theorem Loose.stops {level : ℕ} {rest : List (Token ν)} (h : Loose level rest) {ops : List BinOp}
    (hops : ∀ kind ∈ ops, level < opPrec kind) : Stops (operatorIn ops) rest := by
  intro token htoken
  obtain ⟨-, hkind⟩ := h token htoken
  unfold operatorIn
  split
  · rename_i kind
    rw [if_neg]
    intro hmem
    have hle := hkind kind rfl
    have hlt := hops kind hmem
    omega
  · rfl

theorem Loose.stopsPercent {level : ℕ} {rest : List (Token ν)} (h : Loose level rest) :
    Stops percentMark rest := by
  intro token htoken
  obtain ⟨hpercent, -⟩ := h token htoken
  unfold percentMark
  split
  · exact absurd rfl hpercent
  · rfl

theorem Loose.mono {low high : ℕ} (hle : low ≤ high) {rest : List (Token ν)} (h : Loose low rest) :
    Loose high rest := fun token htoken =>
  ⟨(h token htoken).1, fun kind hkind => Nat.le_trans ((h token htoken).2 kind hkind) hle⟩

theorem LooseAfter.stops {level : ℕ} {result : Except Failure (Ast ν × List (Token ν))}
    (h : LooseAfter level result) {ops : List BinOp} (hops : ∀ kind ∈ ops, level < opPrec kind) :
    StopsAfter (operatorIn ops) result :=
  fun node rest hresult => (h node rest hresult).stops hops

theorem LooseAfter.mono {low high : ℕ} (hle : low ≤ high)
    {result : Except Failure (Ast ν × List (Token ν))} (h : LooseAfter low result) :
    LooseAfter high result := fun node rest hresult => (h node rest hresult).mono hle

theorem looseAfter_ok {level : ℕ} {node : Ast ν} {rest : List (Token ν)} (h : Loose level rest) :
    LooseAfter level (.ok (node, rest)) := by
  rintro _ _ ⟨⟩
  exact h

theorem loose_op {level : ℕ} {kind : BinOp} (hkind : opPrec kind ≤ level) (rest : List (Token ν)) :
    Loose level (.op kind :: rest) := by
  intro token htoken
  cases htoken
  refine ⟨by simp, fun other hother => ?_⟩
  cases hother
  exact hkind

/-- An operand does not begin with a sign. -/
def Unsigned (tokens : List (Token ν)) : Prop := Stops (operatorIn [.add, .sub]) tokens

variable {primary : Parser (Token ν) (Ast ν)} {tokens others : List (Token ν)} (fuel : ℕ)

theorem parseUnary_of_loose (hhead : Unsigned tokens) (h : LooseAfter 5 (primary tokens)) :
    parseUnary primary tokens = primary tokens := by
  unfold parseUnary parsePostfix
  rw [signed_of_stops _ hhead]
  exact marked_of_stops _ fun node rest hresult => (h node rest hresult).stopsPercent

theorem parsePow_of_loose (hhead : Unsigned tokens) (h : LooseAfter 4 (primary tokens)) :
    parsePow (fuel + 1) primary tokens = primary tokens := by
  have htight := parseUnary_of_loose hhead (h.mono (by decide))
  unfold parsePow
  rw [rightLevel_of_stops _ _ (htight ▸ h.stops (by decide)), htight]

theorem parseMul_of_loose (hhead : Unsigned tokens) (h : LooseAfter 3 (primary tokens)) :
    parseMul (fuel + 1) primary tokens = primary tokens := by
  have htight := parsePow_of_loose fuel hhead (h.mono (by decide))
  unfold parseMul
  rw [leftLevel_of_stops _ _ (htight ▸ h.stops (by decide)), htight]

theorem parseAdd_of_loose (hhead : Unsigned tokens) (h : LooseAfter 2 (primary tokens)) :
    parseAdd (fuel + 1) primary tokens = primary tokens := by
  have htight := parseMul_of_loose fuel hhead (h.mono (by decide))
  unfold parseAdd
  rw [leftLevel_of_stops _ _ (htight ▸ h.stops (by decide)), htight]

theorem parseCompare_of_loose (hhead : Unsigned tokens) (h : LooseAfter 1 (primary tokens)) :
    parseCompare (fuel + 1) primary tokens = primary tokens := by
  have htight := parseAdd_of_loose fuel hhead (h.mono (by decide))
  unfold parseCompare
  rw [leftLevel_of_stops _ _ (htight ▸ h.stops (by decide)), htight]

theorem parseConcat_of_loose (hhead : Unsigned tokens) (h : LooseAfter 0 (primary tokens)) :
    parseConcat (fuel + 1) primary tokens = primary tokens := by
  have htight := parseCompare_of_loose fuel hhead (h.mono (by decide))
  unfold parseConcat
  rw [leftLevel_of_stops _ _ (htight ▸ h.stops (by decide)), htight]

variable {result : Except Failure (Ast ν × List (Token ν))}

theorem parseConcat_of_compare (h : parseCompare (fuel + 1) primary tokens = result)
    (hloose : LooseAfter 0 result) : parseConcat (fuel + 1) primary tokens = result := by
  unfold parseConcat
  rw [leftLevel_of_stops _ _ (h ▸ hloose.stops (by decide)), h]

theorem parseConcat_of_add (h : parseAdd (fuel + 1) primary tokens = result)
    (hloose : LooseAfter 0 result) : parseConcat (fuel + 1) primary tokens = result := by
  apply parseConcat_of_compare fuel _ hloose
  unfold parseCompare
  rw [leftLevel_of_stops _ _ (h ▸ hloose.stops (by decide)), h]

theorem parseConcat_of_mul (h : parseMul (fuel + 1) primary tokens = result)
    (hloose : LooseAfter 0 result) : parseConcat (fuel + 1) primary tokens = result := by
  apply parseConcat_of_add fuel _ hloose
  unfold parseAdd
  rw [leftLevel_of_stops _ _ (h ▸ hloose.stops (by decide)), h]

theorem parseConcat_of_pow (h : parsePow (fuel + 1) primary tokens = result)
    (hloose : LooseAfter 0 result) : parseConcat (fuel + 1) primary tokens = result := by
  apply parseConcat_of_mul fuel _ hloose
  unfold parseMul
  rw [leftLevel_of_stops _ _ (h ▸ hloose.stops (by decide)), h]

theorem parseConcat_of_unary (h : parseUnary primary tokens = result)
    (hloose : LooseAfter 0 result) : parseConcat (fuel + 1) primary tokens = result := by
  apply parseConcat_of_pow fuel _ hloose
  unfold parsePow
  rw [rightLevel_of_stops _ _ (h ▸ hloose.stops (by decide)), h]

end Levels

section Applications

variable {primary : Parser (Token ν) (Ast ν)} {tokens others : List (Token ν)} (fuel : ℕ)

def combined (kind : BinOp) (left : Ast ν) (right : Except Failure (Ast ν × List (Token ν))) :
    Except Failure (Ast ν × List (Token ν)) := do
  let (right, rest) ← right
  .ok (.bin kind left right, rest)

theorem looseAfter_combined {level : ℕ} (kind : BinOp) (left : Ast ν)
    {right : Except Failure (Ast ν × List (Token ν))} (h : LooseAfter level right) :
    LooseAfter level (combined kind left right) := by
  intro node rest hresult
  match right, hresult with
  | .ok (right, rest'), hresult =>
    cases hresult
    exact h right rest rfl

theorem operatorIn_of_mem {kind : BinOp} {ops : List BinOp} (h : kind ∈ ops) :
    operatorIn (ν := ν) ops (.op kind) = some kind := by
  rw [operatorIn, if_pos h]

theorem parseConcat_of_bin {kind : BinOp} {left : Ast ν} (hhead : Unsigned tokens)
    (hothers : Unsigned others) (hleft : primary tokens = .ok (left, .op kind :: others))
    (hright : LooseAfter 0 (primary others)) :
    parseConcat (fuel + 2) primary tokens = combined kind left (primary others) := by
  have hloose (level : ℕ) (hlevel : opPrec kind ≤ level) : LooseAfter level (primary tokens) := by
    rw [hleft]
    exact looseAfter_ok (loose_op hlevel others)
  have hcombined := looseAfter_combined kind left hright
  cases kind with
  | concat =>
    have hl := (parseCompare_of_loose (fuel + 1) hhead (hloose 1 (by decide))).trans hleft
    have hr := parseCompare_of_loose (fuel + 1) hothers (hright.mono (by decide))
    unfold parseConcat
    rw [leftLevel_of_step _ _ hl (operatorIn_of_mem (by decide)) (hr ▸ hright.stops (by decide)), hr]
    rfl
  | eq | ne | lt | gt | le | ge =>
    have hl := (parseAdd_of_loose (fuel + 1) hhead (hloose 2 (by decide))).trans hleft
    have hr := parseAdd_of_loose (fuel + 1) hothers (hright.mono (by decide))
    apply parseConcat_of_compare _ _ hcombined
    unfold parseCompare
    rw [leftLevel_of_step _ _ hl (operatorIn_of_mem (by decide)) (hr ▸ hright.stops (by decide)), hr]
    rfl
  | add | sub =>
    have hl := (parseMul_of_loose (fuel + 1) hhead (hloose 3 (by decide))).trans hleft
    have hr := parseMul_of_loose (fuel + 1) hothers (hright.mono (by decide))
    apply parseConcat_of_add _ _ hcombined
    unfold parseAdd
    rw [leftLevel_of_step _ _ hl (operatorIn_of_mem (by decide)) (hr ▸ hright.stops (by decide)), hr]
    rfl
  | mul | div =>
    have hl := (parsePow_of_loose (fuel + 1) hhead (hloose 4 (by decide))).trans hleft
    have hr := parsePow_of_loose (fuel + 1) hothers (hright.mono (by decide))
    apply parseConcat_of_mul _ _ hcombined
    unfold parseMul
    rw [leftLevel_of_step _ _ hl (operatorIn_of_mem (by decide)) (hr ▸ hright.stops (by decide)), hr]
    rfl
  | pow =>
    have hl := (parseUnary_of_loose hhead (hloose 5 (by decide))).trans hleft
    have hr := parseUnary_of_loose hothers (hright.mono (by decide))
    apply parseConcat_of_pow _ _ hcombined
    unfold parsePow
    rw [rightLevel_of_step _ _ hl (operatorIn_of_mem (by decide)) (hr ▸ hright.stops (by decide)), hr]
    rfl

theorem parseConcat_of_sign {kind : BinOp} (hkind : kind ∈ [BinOp.add, .sub])
    (hhead : Unsigned tokens) (h : LooseAfter 0 (primary tokens)) :
    parseConcat (fuel + 1) primary (.op kind :: tokens) =
      (do
        let (node, rest) ← primary tokens
        .ok (.unary kind node, rest)) := by
  have hmarked : parsePostfix primary tokens = primary tokens :=
    marked_of_stops _ fun node rest hresult => (h node rest hresult).stopsPercent
  apply parseConcat_of_unary
  · unfold parseUnary
    rw [signed_of_step _ (operatorIn_of_mem hkind) hhead, hmarked]
  · intro node rest hresult
    match hprimary : primary tokens, hresult with
    | .ok (inner, rest'), hresult =>
      cases hresult
      exact h inner rest hprimary

theorem parseConcat_of_percent {node : Ast ν} {rest : List (Token ν)} (hhead : Unsigned tokens)
    (h : primary tokens = .ok (node, .percent :: rest)) (hloose : Loose 0 rest) :
    parseConcat (fuel + 1) primary tokens = .ok (.percent node, rest) := by
  apply parseConcat_of_unary fuel _ (looseAfter_ok hloose)
  have hmark : percentMark (ν := ν) .percent = some () := rfl
  unfold parseUnary parsePostfix
  rw [signed_of_stops _ hhead, marked_of_step _ h hmark]

end Applications

section Arrays

variable (table : TextTable) (floats : DecimalFloats ν) {rest : List (Token ν)}

theorem intercalate_cons {α : Type} (mark : α) (first : List α) (others : List (List α)) :
    [mark].intercalate (first :: others) = first ++ others.flatMap fun other => mark :: other := by
  induction others generalizing first with
  | nil => simp
  | cons second others ih =>
    rw [List.intercalate_cons_cons, ih]
    simp

theorem arrayNumber_text (value : ν) (marked : Bool) (h : rest.head?.all fun token =>
    match token with
    | .percent => false
    | _ => true) :
    arrayNumber value ((if marked then [.percent] else []) ++ rest) =
      (if marked then .percent value else .num value, rest) := by
  cases marked with
  | true => rfl
  | false =>
    simp only [Bool.false_eq_true, if_false, List.nil_append]
    unfold arrayNumber
    split
    · cases h
    · rfl

/-- What may follow a constant of an array. -/
def EndsConstant (rest : List (Token ν)) : Prop :=
  (rest.head?.all fun token =>
    match token with
    | .percent => false
    | _ => true) = true

theorem parseArrayItem_tokens (constant : Constant) (h : EndsConstant rest) :
    parseArrayItem table floats.toFloats (constant.tokens floats ++ rest) =
      .ok (constant.item floats, rest) := by
  cases constant with
  | number minus value marked =>
    have hnumber (signed : ν) := arrayNumber_text signed marked h
    match minus with
    | none | some true | some false =>
      cases marked
      all_goals exact congrArg Except.ok (hnumber _)
  | string value => rfl
  | error value => rfl
  | boolean value =>
    have hupper : (booleanText value).flatMap table.upper = booleanText value := by
      cases value
      all_goals simp [booleanText, table.upper_ascii]
    have hboolean : isBoolean table (booleanText value) = true := by
      rw [isBoolean, hupper]
      cases value
      all_goals decide
    change (if isBoolean table (booleanText value) then _ else _) = _
    rw [if_pos hboolean, hupper]
    rfl

theorem endsConstant_sep (tokens : List (Token ν)) : EndsConstant (.sep :: tokens) := rfl

theorem parseArrayRows_row (row : List Constant) (rows : List (List (Item ν)))
    (done : List (Item ν)) (fuel : ℕ) (h : EndsConstant rest)
    (hfuel : (row.flatMap fun constant => Token.sep :: constant.tokens floats).length +
      rest.length < fuel) :
    ∃ left, rest.length < left ∧
      parseArrayRows table floats.toFloats fuel rows done
          ((row.flatMap fun constant => .sep :: constant.tokens floats) ++ rest) =
        parseArrayRows table floats.toFloats left rows
          (done ++ row.map (Constant.item floats)) rest := by
  induction row generalizing done fuel with
  | nil => exact ⟨fuel, by simpa using hfuel, by simp⟩
  | cons constant row ih =>
    cases fuel with
    | zero => omega
    | succ fuel =>
      simp only [List.flatMap_cons, List.cons_append, List.length_cons, List.length_append]
        at hfuel
      obtain ⟨left, hleft, hrow⟩ := ih (done ++ [constant.item floats]) fuel (by omega)
      refine ⟨left, hleft, ?_⟩
      have hends : EndsConstant ((row.flatMap fun constant =>
          .sep :: constant.tokens floats) ++ rest) := by
        cases row with
        | nil => exact h
        | cons _ _ => exact endsConstant_sep _
      have hitem := parseArrayItem_tokens table floats constant hends
      simp only [List.flatMap_cons, List.cons_append, List.append_assoc]
      rw [parseArrayRows, hitem]
      change parseArrayRows table floats.toFloats fuel rows (done ++ [constant.item floats]) _ = _
      rw [hrow]
      simp

theorem parseArrayRows_rows (more : List (List Constant)) (hmore : ∀ row ∈ more, row ≠ [])
    (rows : List (List (Item ν))) (row : List (Item ν)) (fuel : ℕ)
    (hfuel : (more.flatMap fun row => Token.rowSep ::
      [Token.sep].intercalate (row.map (Constant.tokens floats))).length + rest.length + 1 < fuel) :
    parseArrayRows table floats.toFloats fuel rows row
        ((more.flatMap fun row => .rowSep ::
          [Token.sep].intercalate (row.map (Constant.tokens floats))) ++ .rbrace :: rest) =
      .ok (rows ++ row :: more.map (List.map (Constant.item floats)), rest) := by
  induction more generalizing rows row fuel with
  | nil =>
    cases fuel with
    | zero => omega
    | succ fuel => rfl
  | cons next more ih =>
    cases fuel with
    | zero => omega
    | succ fuel =>
      obtain ⟨first, others, rfl⟩ := List.exists_cons_of_ne_nil (hmore next List.mem_cons_self)
      simp only [List.flatMap_cons, List.map_cons, intercalate_cons, List.cons_append,
        List.append_assoc, List.length_cons, List.length_append, List.flatMap_map] at hfuel ⊢
      set tail : List (Token ν) := (more.flatMap fun row => .rowSep ::
        [Token.sep].intercalate (row.map (Constant.tokens floats))) ++ .rbrace :: rest with htail
      have hends : EndsConstant tail := by
        cases more with
        | nil => rfl
        | cons _ _ => rfl
      have hlength : tail.length = (more.flatMap fun row => Token.rowSep ::
          [Token.sep].intercalate (row.map (Constant.tokens floats))).length + rest.length + 1 := by
        simp [htail, Nat.add_assoc]
      have hendsFirst : EndsConstant ((others.flatMap fun constant =>
          .sep :: constant.tokens floats) ++ tail) := by
        cases others with
        | nil => exact hends
        | cons _ _ => exact endsConstant_sep _
      have hitem := parseArrayItem_tokens table floats first hendsFirst
      obtain ⟨left, hleft, hrow⟩ := parseArrayRows_row table floats others (rows ++ [row])
        [first.item floats] fuel hends (by omega)
      rw [parseArrayRows, hitem]
      change parseArrayRows table floats.toFloats fuel (rows ++ [row]) [first.item floats] _ = _
      rw [hrow, htail, ih (fun row hmem => hmore row (List.mem_cons_of_mem _ hmem)) _ _ _
        (by omega)]
      simp

theorem parseArray_tokens (array : ArrayConstant) (rest : List (Token ν)) (fuel : ℕ)
    (hfuel : (rowsTokens floats array.rows ++ .rbrace :: rest).length < fuel) :
    parseArray table floats.toFloats fuel (rowsTokens floats array.rows ++ .rbrace :: rest) =
      .ok (.array (array.rows.map (List.map (Constant.item floats))), rest) := by
  obtain ⟨rows, hne, width, hwidth, hrect⟩ := array
  obtain ⟨row, more, rfl⟩ := List.exists_cons_of_ne_nil hne
  have hrows : ∀ row' ∈ row :: more, row' ≠ [] := by
    rintro row' hmem rfl
    have := hrect [] hmem
    simp only [List.length_nil] at this
    omega
  obtain ⟨first, others, rfl⟩ := List.exists_cons_of_ne_nil (hrows row List.mem_cons_self)
  set tail : List (Token ν) := (more.flatMap fun row => .rowSep ::
    [Token.sep].intercalate (row.map (Constant.tokens floats))) ++ .rbrace :: rest with htail
  have htokens : rowsTokens floats ((first :: others) :: more) ++ .rbrace :: rest =
      first.tokens floats ++
        ((others.flatMap fun constant => .sep :: constant.tokens floats) ++ tail) := by
    simp only [rowsTokens, List.map_cons, intercalate_cons, List.flatMap_map, List.append_assoc,
      htail]
  have hsize := congrArg List.length htokens
  simp only [List.length_append] at hsize hfuel
  rw [htokens]
  have hends : EndsConstant tail := by
    cases more with
    | nil => rfl
    | cons _ _ => rfl
  have hlength : tail.length = (more.flatMap fun row => Token.rowSep ::
      [Token.sep].intercalate (row.map (Constant.tokens floats))).length + rest.length + 1 := by
    simp [htail, Nat.add_assoc]
  have hendsFirst : EndsConstant ((others.flatMap fun constant =>
      .sep :: constant.tokens floats) ++ tail) := by
    cases others with
    | nil => exact hends
    | cons _ _ => exact endsConstant_sep _
  have hitem := parseArrayItem_tokens table floats first hendsFirst
  obtain ⟨left, hleft, hrow⟩ := parseArrayRows_row table floats others []
    [first.item floats] fuel hends (by omega)
  have hall : (((first :: others) :: more).map (List.map (Constant.item floats))).all
      (fun row => row.length == ((((first :: others) :: more).map
        (List.map (Constant.item floats))).headD []).length) = true := by
    rw [List.all_eq_true]
    intro row' hmem
    obtain ⟨row, hrow', rfl⟩ := List.mem_map.mp hmem
    have h1 := hrect row hrow'
    have h2 := hrect (first :: others) List.mem_cons_self
    simp only [List.map_cons, List.headD_cons, List.length_map, beq_iff_eq, List.length_cons]
    rw [h1, ← h2, List.length_cons]
  unfold parseArray
  rw [hitem]
  change (parseArrayRows table floats.toFloats fuel [] [first.item floats] _ >>= _) = _
  rw [hrow, htail, parseArrayRows_rows table floats more
    (fun row hmem => hrows row (List.mem_cons_of_mem _ hmem)) _ _ _ (by omega)]
  change (if _ then _ else _) = _
  rw [if_pos]
  · rfl
  · exact hall

end Arrays

section Trees

variable {table : TextTable} (floats : DecimalFloats ν)

/-- Refused, or stopped in front of a colon that nothing takes. -/
def Stuck {α : Type} (result : Except Failure (α × List (Token ν))) : Prop :=
  result = .error .rejected ∨ ∃ node rest, result = .ok (node, .colon :: rest)

/-- The tree is read whole, or the parser gets stuck on it. -/
def Reads {α : Type} (bare : Bool) (node : α) (rest : List (Token ν))
    (result : Except Failure (α × List (Token ν))) : Prop :=
  if bare then Stuck result else result = .ok (node, rest)

/-- Neither a call nor a range of names follows a name. -/
def EndsName (rest : List (Token ν)) : Prop :=
  ∀ token ∈ rest.head?, token ≠ .lparen ∧ token ≠ .colon

theorem joined_eq_some {left right : Option (List (Token ν))} {tokens : List (Token ν)}
    (h : joined left right = some tokens) :
    ∃ first second, left = some first ∧ right = some second ∧ tokens = first ++ second := by
  match left, right, h with
  | some first, some second, h => exact ⟨first, second, rfl, rfl, (Option.some.inj h).symm⟩

theorem canonicalFuncName_text (func : FunctionName table) :
    canonicalFuncName func.text = func.toWord.text := by
  have hprefixes (stored : List FuncPrefix) :
      canonicalFuncName (stored.flatMap FuncPrefix.text ++ func.toWord.text) =
        func.toWord.text := by
    induction stored with
    | nil => exact func.canonical
    | cons first stored ih =>
      rw [List.flatMap_cons, List.append_assoc]
      cases first with
      | xlfn =>
        change (if _ then canonicalFuncName _ else _) = _
        rw [if_pos (by decide)]
        exact ih
      | xlws =>
        change (if _ then canonicalFuncName _ else _) = _
        rw [if_pos (by decide)]
        exact ih
  exact hprefixes func.prefixes

/-- The tokens, if there are any, begin with this one. -/
def BeginsWith (token : Token ν) (tokens : Option (List (Token ν))) : Prop :=
  ∀ found, tokens = some found → ∃ others, found = token :: others

theorem beginsWith_some (token : Token ν) (others : List (Token ν)) :
    BeginsWith token (some (token :: others)) := by
  rintro _ ⟨⟩
  exact ⟨others, rfl⟩

theorem BeginsWith.joined {token : Token ν} {left : Option (List (Token ν))}
    (h : BeginsWith token left) (right : Option (List (Token ν))) :
    BeginsWith token (joined left right) := by
  intro found hfound
  obtain ⟨first, second, hleft, -, rfl⟩ := joined_eq_some hfound
  obtain ⟨others, rfl⟩ := h first hleft
  exact ⟨others ++ second, rfl⟩

theorem exists_beginsWith (tree : Tree table) :
    ∃ token : Token ν, (operatorIn [.add, .sub] token = none ∧ token ≠ .rparen) ∧
      BeginsWith token (tree.tokens floats) := by
  cases tree with
  | number value => exact ⟨_, ⟨rfl, by simp⟩, beginsWith_some _ _⟩
  | string value => exact ⟨_, ⟨rfl, by simp⟩, beginsWith_some _ _⟩
  | error value => exact ⟨_, ⟨rfl, by simp⟩, beginsWith_some _ _⟩
  | boolean value => exact ⟨_, ⟨rfl, by simp⟩, beginsWith_some _ _⟩
  | name word => exact ⟨_, ⟨rfl, by simp⟩, beginsWith_some _ _⟩
  | array rows => exact ⟨_, ⟨rfl, by simp⟩, beginsWith_some _ _⟩
  | call func args => exact ⟨_, ⟨rfl, by simp⟩, ((beginsWith_some _ _).joined _).joined _⟩
  | unary minus expr => exact ⟨_, ⟨rfl, by simp⟩, ((beginsWith_some _ _).joined _).joined _⟩
  | percent expr => exact ⟨_, ⟨rfl, by simp⟩, ((beginsWith_some _ _).joined _).joined _⟩
  | bin kind left right =>
    exact ⟨_, ⟨rfl, by simp⟩, ((((beginsWith_some _ _).joined _).joined _).joined _).joined _⟩
  | reference ref =>
    rw [Tree.tokens, Reference.tokens]
    split
    · split_ifs
      · exact ⟨_, ⟨rfl, by simp⟩, beginsWith_some _ _⟩
      · exact ⟨.colon, ⟨rfl, by simp⟩, fun found hfound => by cases hfound⟩
      · exact ⟨_, ⟨rfl, by simp⟩, beginsWith_some _ _⟩
    · exact ⟨_, ⟨rfl, by simp⟩, beginsWith_some _ _⟩

theorem unsigned_tokens (tree : Tree table) {tokens : List (Token ν)}
    (h : tree.tokens floats = some tokens) (rest : List (Token ν)) :
    Unsigned (tokens ++ rest) := by
  obtain ⟨token, htoken, hbegins⟩ := exists_beginsWith floats tree
  obtain ⟨others, rfl⟩ := hbegins tokens h
  intro head hhead
  cases hhead
  exact htoken.1

def closed {α : Type} (result : Except Failure (α × List (Token ν))) :
    Except Failure (α × List (Token ν)) := do
  let (node, rest) ← result
  match rest with
  | .rparen :: rest => .ok (node, rest)
  | _ => .error .rejected

theorem closed_of_stuck {α : Type} {result : Except Failure (α × List (Token ν))}
    (h : Stuck result) : closed result = .error .rejected := by
  rcases h with rfl | ⟨node, rest, rfl⟩
  · rfl
  · rfl

theorem Reads.closed {α : Type} {bare : Bool} {node : α} {rest : List (Token ν)}
    {result : Except Failure (α × List (Token ν))} (h : Reads bare node (.rparen :: rest) result) :
    Formula.closed result = if bare then .error .rejected else .ok (node, rest) := by
  cases bare with
  | true => exact closed_of_stuck h
  | false =>
    have hresult : result = .ok (node, .rparen :: rest) := h
    rw [hresult]
    rfl

theorem Reads.of_closed {α : Type} {bare : Bool} {node : α} {rest : List (Token ν)}
    {result : Except Failure (α × List (Token ν))}
    (h : result = if bare then .error .rejected else .ok (node, rest)) :
    Reads bare node rest result := by
  cases bare with
  | true => exact .inl h
  | false => exact h

theorem loose_colon (level : ℕ) (rest : List (Token ν)) : Loose level (.colon :: rest) := by
  intro token htoken
  cases htoken
  exact ⟨by simp, by simp⟩

theorem loose_rparen (level : ℕ) (rest : List (Token ν)) : Loose level (.rparen :: rest) := by
  intro token htoken
  cases htoken
  exact ⟨by simp, by simp⟩

theorem loose_sep (level : ℕ) (rest : List (Token ν)) : Loose level (.sep :: rest) := by
  intro token htoken
  cases htoken
  exact ⟨by simp, by simp⟩

theorem Stuck.looseAfter {level : ℕ} {result : Except Failure (Ast ν × List (Token ν))}
    (h : Stuck result) : LooseAfter level result := by
  rcases h with rfl | ⟨node, rest, rfl⟩
  · intro node rest hresult
    cases hresult
  · exact looseAfter_ok (loose_colon level rest)

theorem Reads.looseAfter {level : ℕ} {bare : Bool} {node : Ast ν} {rest : List (Token ν)}
    {result : Except Failure (Ast ν × List (Token ν))} (h : Reads bare node rest result)
    (hrest : Loose level rest) : LooseAfter level result := by
  cases bare with
  | true => exact Stuck.looseAfter h
  | false =>
    have hresult : result = .ok (node, rest) := h
    rw [hresult]
    exact looseAfter_ok hrest

theorem Reads.mapped {α β : Type} {bare : Bool} {node : α} {rest : List (Token ν)}
    {result : Except Failure (α × List (Token ν))} (h : Reads bare node rest result)
    (wrap : α → β) :
    Reads bare (wrap node) rest (do
      let (node, rest) ← result
      .ok (wrap node, rest)) := by
  cases bare with
  | true =>
    rcases h with rfl | ⟨node, rest, rfl⟩
    · exact .inl rfl
    · exact .inr ⟨wrap node, rest, rfl⟩
  | false =>
    have hresult : result = .ok (node, rest) := h
    rw [hresult]
    rfl

theorem head_argsTokens (arg : Tree table) (others : List (Tree table)) {tokens : List (Token ν)}
    (h : Tree.argsTokens floats (arg :: others) = some tokens) (rest : List (Token ν)) :
    ∀ token ∈ (tokens ++ rest).head?, token ≠ .rparen := by
  obtain ⟨token, htoken, hbegins⟩ := exists_beginsWith floats arg
  have hargs : BeginsWith token (Tree.argsTokens floats (arg :: others)) := by
    cases others with
    | nil => exact hbegins
    | cons second others => exact (hbegins.joined _).joined _
  obtain ⟨tail, rfl⟩ := hargs tokens h
  intro head hhead
  cases hhead
  exact htoken.2

theorem length_argsTokens (args : List (Tree table)) {tokens : List (Token ν)}
    (h : Tree.argsTokens floats args = some tokens) : args.length ≤ tokens.length := by
  induction args generalizing tokens with
  | nil => exact Nat.zero_le _
  | cons arg args ih =>
    obtain ⟨token, -, hbegins⟩ := exists_beginsWith floats arg
    cases args with
    | nil =>
      obtain ⟨tail, rfl⟩ := hbegins tokens h
      simp
    | cons second args =>
      obtain ⟨inner, others, hinner, hargs, rfl⟩ := joined_eq_some h
      obtain ⟨first, sep, hfirst, hsep, rfl⟩ := joined_eq_some hinner
      obtain ⟨tail, rfl⟩ := hbegins first hfirst
      have hothers := ih hargs
      simp only [List.length_append, List.length_cons] at hothers ⊢
      omega

variable (table)

def primaryWithin (bound : ℕ) : Parser (Token ν) (Ast ν) :=
  parsePrimary table floats.toFloats (parseExpr table floats.toFloats bound) (bound + 1)

theorem parseExpr_succ (bound : ℕ) (tokens : List (Token ν)) :
    parseExpr table floats.toFloats (bound + 1) tokens =
      parseConcat (bound + 1) (primaryWithin table floats bound) tokens := rfl

theorem parseExpr_of_loose (bound : ℕ) {tokens : List (Token ν)} (hhead : Unsigned tokens)
    (h : LooseAfter 0 (primaryWithin table floats bound tokens)) :
    parseExpr table floats.toFloats (bound + 1) tokens = primaryWithin table floats bound tokens := by
  rw [parseExpr_succ, parseConcat_of_loose bound hhead h]

theorem primaryWithin_lparen (bound : ℕ) (tokens : List (Token ν)) :
    primaryWithin table floats bound (.lparen :: tokens) =
      closed (parseExpr table floats.toFloats bound tokens) := by
  change (parseExpr table floats.toFloats bound tokens >>= _) = _
  rfl

theorem reads_reference (ref : Reference table) {tokens : List (Token ν)}
    (h : ref.tokens floats = some tokens) (rest : List (Token ν)) (bound : ℕ) :
    Reads ref.startsWithRow (.ref ref.place.external ref.place.sheet ref.area.body) rest
      (primaryWithin table floats bound (tokens ++ rest)) := by
  obtain ⟨place, area⟩ := ref
  cases place with
  | here =>
    cases area with
    | rows start finish =>
      rw [Reference.tokens] at h
      simp only at h
      split_ifs at h with hstart
      · cases h
        have hbare : (⟨.here, .rows start finish⟩ : Reference table).startsWithRow = false := by
          simp [Reference.startsWithRow, hstart]
        rw [hbare]
        rfl
      · cases h
        have hbare : (⟨.here, .rows start finish⟩ : Reference table).startsWithRow = true := by
          simp [Reference.startsWithRow, hstart]
        rw [hbare]
        exact .inr ⟨_, _, rfl⟩
    | _ =>
      cases h
      rfl
  | _ =>
    cases h
    rfl

theorem reads_name (name : List Char) (rest : List (Token ν)) (h : EndsName rest) (bound : ℕ) :
    primaryWithin table floats bound (.name name :: rest) = .ok (.name name, rest) := by
  cases rest with
  | nil => rfl
  | cons token rest =>
    obtain ⟨hparen, hcolon⟩ := h token rfl
    unfold primaryWithin parsePrimary
    split
    all_goals simp_all

theorem parseCall_of_args {expr : Parser (Token ν) (Ast ν)} (fuel : ℕ) (name : List Char)
    {tokens : List (Token ν)} (h : ∀ token ∈ tokens.head?, token ≠ .rparen) :
    parseCall expr fuel name tokens =
      closed (do
        let (args, rest) ← separated isSep expr fuel tokens
        .ok (.func (canonicalFuncName name) args, rest)) := by
  unfold parseCall
  split
  · exact absurd rfl (h .rparen rfl)
  · cases separated isSep expr fuel tokens with
    | error failure => rfl
    | ok found => rfl

theorem stuck_separated {item : Parser (Token ν) (Ast ν)} (fuel : ℕ) {tokens : List (Token ν)}
    (h : Stuck (item tokens)) : Stuck (separated isSep item (fuel + 1) tokens) := by
  rcases h with h | ⟨node, rest, h⟩
  · exact .inl (separated_of_error fuel h)
  · exact .inr ⟨[node], rest, separated_of_last fuel h (by simp [isSep])⟩

theorem endsName_of_mark {token : Token ν} (h : token ≠ .lparen ∧ token ≠ .colon)
    (rest : List (Token ν)) : EndsName (token :: rest) := by
  intro head hhead
  cases hhead
  exact h

mutual

theorem reads_tree (tree : Tree table) (tokens : List (Token ν))
    (h : tree.tokens floats = some tokens) (rest : List (Token ν)) (hends : EndsName rest)
    (bound : ℕ) (hbound : (tokens ++ rest).length ≤ bound) :
    Reads tree.hasBareRows (tree.ast floats) rest
      (primaryWithin table floats bound (tokens ++ rest)) := by
  match tree with
  | .number value =>
    cases h
    rfl
  | .string value =>
    cases h
    rfl
  | .error value =>
    cases h
    rfl
  | .boolean value =>
    cases h
    exact reads_name table floats _ rest hends bound
  | .name word =>
    cases h
    exact reads_name table floats _ rest hends bound
  | .reference ref => exact reads_reference table floats ref h rest bound
  | .array rows =>
    cases h
    have harray := parseArray_tokens table floats rows rest (bound + 1) (by
      simp only [List.length_append, List.length_cons, List.length_nil, List.cons_append] at hbound ⊢
      omega)
    have htokens : Token.lbrace :: rowsTokens floats rows.rows ++ [.rbrace] ++ rest =
        .lbrace :: (rowsTokens floats rows.rows ++ .rbrace :: rest) := by simp
    rw [htokens]
    exact harray
  | .call func args =>
    obtain ⟨inner, _, hinner, hclose, rfl⟩ := joined_eq_some h
    obtain ⟨_, argTokens, hopen, hargs, rfl⟩ := joined_eq_some hinner
    cases hopen
    cases hclose
    have htokens : [Token.name func.text, .lparen] ++ argTokens ++ [.rparen] ++ rest =
        .name func.text :: .lparen :: (argTokens ++ .rparen :: rest) := by simp
    have hcall (arguments : List (Token ν)) :
        primaryWithin table floats bound (.name func.text :: .lparen :: arguments) =
          parseCall (parseExpr table floats.toFloats bound) (bound + 1) func.text arguments := rfl
    rw [htokens] at hbound ⊢
    simp only [List.length_cons] at hbound
    rw [hcall]
    match args with
    | [] =>
      cases hargs
      change Except.ok (Ast.func (canonicalFuncName func.text) [], rest) = _
      rw [canonicalFuncName_text]
      rfl
    | arg :: others =>
      obtain ⟨bound, rfl⟩ : ∃ smaller, bound = smaller + 1 := ⟨bound - 1, by omega⟩
      have hlength := length_argsTokens floats (arg :: others) hargs
      have hread := reads_args (arg :: others) (List.cons_ne_nil _ _) argTokens hargs rest bound
        (bound + 1) (by omega) (by
          simp only [List.length_append, List.length_cons] at hbound hlength ⊢
          omega)
      have hhead := head_argsTokens floats arg others hargs (.rparen :: rest)
      apply Reads.of_closed
      rw [parseCall_of_args _ _ hhead, canonicalFuncName_text]
      exact (hread.mapped (Ast.func func.toWord.text)).closed
  | .unary minus expr =>
    obtain ⟨inner, _, hinner, hclose, rfl⟩ := joined_eq_some h
    obtain ⟨_, exprTokens, hopen, hexpr, rfl⟩ := joined_eq_some hinner
    cases hopen
    cases hclose
    have htokens : [Token.lparen, signToken minus] ++ exprTokens ++ [.rparen] ++ rest =
        .lparen :: signToken minus :: (exprTokens ++ .rparen :: rest) := by simp
    rw [htokens] at hbound ⊢
    simp only [List.length_cons] at hbound
    obtain ⟨bound, rfl⟩ : ∃ smaller, bound = smaller + 1 := ⟨bound - 1, by omega⟩
    have hread := reads_tree expr exprTokens hexpr (.rparen :: rest)
      (endsName_of_mark (by simp) rest) bound (by omega)
    have hkind : (if minus then BinOp.sub else .add) ∈ [BinOp.add, .sub] := by
      cases minus
      all_goals decide
    apply Reads.of_closed
    rw [primaryWithin_lparen, parseExpr_succ, signToken, parseConcat_of_sign bound hkind
      (unsigned_tokens floats expr hexpr _) (hread.looseAfter (loose_rparen 0 rest))]
    exact (hread.mapped _).closed
  | .percent expr =>
    obtain ⟨inner, _, hinner, hclose, rfl⟩ := joined_eq_some h
    obtain ⟨_, exprTokens, hopen, hexpr, rfl⟩ := joined_eq_some hinner
    cases hopen
    cases hclose
    have htokens : [Token.lparen] ++ exprTokens ++ [.percent, .rparen] ++ rest =
        .lparen :: (exprTokens ++ .percent :: .rparen :: rest) := by simp
    rw [htokens] at hbound ⊢
    simp only [List.length_cons] at hbound
    obtain ⟨bound, rfl⟩ : ∃ smaller, bound = smaller + 1 := ⟨bound - 1, by omega⟩
    have hread := reads_tree expr exprTokens hexpr (.percent :: .rparen :: rest)
      (endsName_of_mark (by simp) _) bound (by omega)
    have hhead := unsigned_tokens floats expr hexpr (.percent :: .rparen :: rest)
    apply Reads.of_closed
    rw [primaryWithin_lparen, parseExpr_succ]
    cases hbare : expr.hasBareRows with
    | true =>
      rw [hbare] at hread
      have hstuck : Stuck _ := hread
      rw [parseConcat_of_loose bound hhead hstuck.looseAfter, closed_of_stuck hstuck]
      simp [Tree.hasBareRows, hbare]
    | false =>
      rw [hbare] at hread
      have hresult : primaryWithin table floats bound _ = .ok (expr.ast floats, _) := hread
      rw [parseConcat_of_percent bound hhead hresult (loose_rparen 0 rest)]
      simp [Tree.hasBareRows, hbare, closed, Tree.ast]
      rfl
  | .bin kind left right =>
    obtain ⟨inner, _, hinner, hclose, rfl⟩ := joined_eq_some h
    obtain ⟨inner', rightTokens, hinner', hright, rfl⟩ := joined_eq_some hinner
    obtain ⟨inner'', _, hinner'', hop, rfl⟩ := joined_eq_some hinner'
    obtain ⟨_, leftTokens, hopen, hleft, rfl⟩ := joined_eq_some hinner''
    cases hopen
    cases hclose
    cases hop
    have htokens : [Token.lparen] ++ leftTokens ++ [.op kind] ++ rightTokens ++ [.rparen] ++ rest =
        .lparen :: (leftTokens ++ .op kind :: (rightTokens ++ .rparen :: rest)) := by simp
    rw [htokens] at hbound ⊢
    simp only [List.length_cons, List.length_append] at hbound
    obtain ⟨bound, rfl⟩ : ∃ smaller, bound = smaller + 2 := ⟨bound - 2, by omega⟩
    have hreadLeft := reads_tree left leftTokens hleft
      (.op kind :: (rightTokens ++ .rparen :: rest)) (endsName_of_mark (by simp) _) (bound + 1)
      (by simp only [List.length_cons, List.length_append]; omega)
    have hreadRight := reads_tree right rightTokens hright (.rparen :: rest)
      (endsName_of_mark (by simp) _) (bound + 1)
      (by simp only [List.length_cons, List.length_append]; omega)
    have hheadLeft := unsigned_tokens floats left hleft
      (.op kind :: (rightTokens ++ .rparen :: rest))
    have hheadRight := unsigned_tokens floats right hright (.rparen :: rest)
    apply Reads.of_closed
    rw [primaryWithin_lparen, parseExpr_succ]
    cases hbare : left.hasBareRows with
    | true =>
      rw [hbare] at hreadLeft
      have hstuck : Stuck _ := hreadLeft
      rw [parseConcat_of_loose (bound + 1) hheadLeft hstuck.looseAfter, closed_of_stuck hstuck]
      simp [Tree.hasBareRows, hbare]
    | false =>
      rw [hbare] at hreadLeft
      have hresult : primaryWithin table floats (bound + 1) _ = .ok (left.ast floats, _) :=
        hreadLeft
      rw [parseConcat_of_bin bound hheadLeft hheadRight hresult
        (hreadRight.looseAfter (loose_rparen 0 rest))]
      have hclosed := (hreadRight.mapped (Ast.bin kind (left.ast floats))).closed
      rw [Tree.hasBareRows, hbare, Bool.false_or]
      exact hclosed

theorem reads_args (args : List (Tree table)) (hne : args ≠ []) (tokens : List (Token ν))
    (h : Tree.argsTokens floats args = some tokens) (rest : List (Token ν)) (bound fuel : ℕ)
    (hbound : (tokens ++ .rparen :: rest).length ≤ bound) (hfuel : args.length ≤ fuel) :
    Reads (Tree.argsHaveBareRows args) (Tree.argAsts floats args) (.rparen :: rest)
      (separated isSep (parseExpr table floats.toFloats (bound + 1)) (fuel + 1)
        (tokens ++ .rparen :: rest)) := by
  match args with
  | [] => exact absurd rfl hne
  | [arg] =>
    have hread := reads_tree arg tokens h (.rparen :: rest) (endsName_of_mark (by simp) _) bound
      hbound
    have hitem := parseExpr_of_loose table floats bound (unsigned_tokens floats arg h _)
      (hread.looseAfter (loose_rparen 0 rest))
    rw [← hitem] at hread
    cases hbare : arg.hasBareRows with
    | true =>
      rw [hbare] at hread
      simp only [Tree.argsHaveBareRows, hbare, Bool.true_or]
      exact stuck_separated _ hread
    | false =>
      rw [hbare] at hread
      simp only [Tree.argsHaveBareRows, hbare, Bool.or_self]
      exact separated_of_last _ hread (by simp [isSep])
  | arg :: second :: others =>
    obtain ⟨inner, argTokens, hinner, hargs, rfl⟩ := joined_eq_some h
    obtain ⟨first, _, hfirst, hsep, rfl⟩ := joined_eq_some hinner
    cases hsep
    have htokens : first ++ [.sep] ++ argTokens ++ .rparen :: rest =
        first ++ .sep :: (argTokens ++ .rparen :: rest) := by simp
    rw [htokens] at hbound ⊢
    simp only [List.length_append, List.length_cons] at hbound hfuel
    obtain ⟨fuel, rfl⟩ : ∃ smaller, fuel = smaller + 1 := ⟨fuel - 1, by omega⟩
    have hread := reads_tree arg first hfirst (.sep :: (argTokens ++ .rparen :: rest))
      (endsName_of_mark (by simp) _) bound
      (by simp only [List.length_append, List.length_cons]; omega)
    have hreadArgs := reads_args (second :: others) (List.cons_ne_nil _ _) argTokens hargs rest
      bound fuel (by simp only [List.length_append, List.length_cons]; omega)
      (by simp only [List.length_cons]; omega)
    have hitem := parseExpr_of_loose table floats bound (unsigned_tokens floats arg hfirst _)
      (hread.looseAfter (loose_sep 0 _))
    rw [← hitem] at hread
    cases hbare : arg.hasBareRows with
    | true =>
      rw [hbare] at hread
      rw [Tree.argsHaveBareRows, hbare, Bool.true_or]
      exact stuck_separated _ hread
    | false =>
      rw [hbare] at hread
      rw [Tree.argsHaveBareRows, hbare, Bool.false_or, separated_of_more _ hread rfl]
      exact hreadArgs.mapped (List.cons (arg.ast floats))

end

end Trees

end FinanceContext.Formula
