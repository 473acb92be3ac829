import FinanceContext.FormulaReparsing
import FinanceContext.RangeNodes

namespace FinanceContext.Formula

open OperatorParsing

variable {table : TextTable} {ν : Type} (floats : DecimalFloats ν)

section Edges

/-- The edge a reference stands for: its sheet or the one of the formula, its book if it has one. -/
def Reference.edge (ref : Reference table) (currentSheet source : String) : Csr.Edge :=
  let sheet := (ref.place.sheet.map String.ofList).getD currentSheet
  let target := nodeId sheet (bodyText ref.area.body)
  let kind :=
    match ref.place.external, ref.area with
    | some _, _ => "external"
    | none, .cell _ => if sheet = currentSheet then "ref" else "cross_sheet"
    | none, _ => "range"
  let book := (ref.place.external.map fun book => "[" ++ String.ofList book ++ "]").getD ""
  anchored { kind, source, target := some (book ++ target) } ref.area.body

theorem filled_of_ne_nil {text : List Char} (h : text ≠ []) :
    filled (some text) = some (String.ofList text) := by
  obtain ⟨first, others, rfl⟩ := List.exists_cons_of_ne_nil h
  rfl

theorem filled_external (place : Place table) :
    filled place.external = place.external.map String.ofList := by
  cases place with
  | book number bang => exact filled_of_ne_nil (toString_ne_nil number)
  | bookPlain number sheet => exact filled_of_ne_nil (toString_ne_nil number)
  | bookQuoted number sheet => exact filled_of_ne_nil (toString_ne_nil number)
  | _ => rfl

theorem filled_sheet (place : Place table) :
    filled place.sheet = place.sheet.map String.ofList := by
  cases place with
  | plain sheet => exact filled_of_ne_nil (List.cons_ne_nil _ _)
  | quoted sheet => exact filled_of_ne_nil sheet.nonempty
  | bookPlain number sheet => exact filled_of_ne_nil (List.cons_ne_nil _ _)
  | bookQuoted number sheet => exact filled_of_ne_nil sheet.nonempty
  | _ => rfl

theorem refEdge_eq (ref : Reference table) (currentSheet source : String) :
    refEdge currentSheet source ref.place.external ref.place.sheet ref.area.body =
      ref.edge currentSheet source := by
  unfold refEdge Reference.edge
  rw [filled_external, filled_sheet]
  cases hbook : ref.place.external with
  | some book => rfl
  | none =>
    have hempty : ("" : String) ++ nodeId ((ref.place.sheet.map String.ofList).getD currentSheet)
        (bodyText ref.area.body) = nodeId ((ref.place.sheet.map String.ofList).getD currentSheet)
        (bodyText ref.area.body) := String.empty_append
    simp only [Option.map_none, Option.getD_none, hempty]
    cases ref.area with
    | cell point =>
      cases hsheet : ref.place.sheet with
      | none => simp [Area.body]
      | some sheet =>
        by_cases hsame : String.ofList sheet = currentSheet
        · simp [Area.body, hsame]
        · simp [Area.body, hsame]
    | _ => rfl

theorem kind_refEdge (currentSheet source : String) (external sheet : Option (List Char))
    (body : Body) : (refEdge currentSheet source external sheet body).kind ≠ "dynamic" := by
  unfold refEdge
  cases filled external with
  | some book =>
    cases body
    all_goals simp [anchored]
  | none =>
    cases body with
    | cell point =>
      simp only [anchored]
      split
      all_goals decide
    | _ => simp [anchored]

namespace Tree

/-- The edge that the engine adds at a reference, a name or a boolean. -/
def Mention.added (currentSheet source : String) : Mention table → Csr.Edge
  | .reference ref => ref.edge currentSheet source
  | .name word => nameEdge source word.toWord.text
  | .boolean value => nameEdge source (booleanText value)

def Mention.edge (currentSheet source : String) : Mention table → Option Csr.Edge
  | .reference ref => some (ref.edge currentSheet source)
  | .name word => some (nameEdge source word.toWord.text)
  | .boolean _ => none

def Mention.isBoolean : Mention table → Bool
  | .boolean _ => true
  | _ => false

end Tree

def readEdges (edges : List Csr.Edge) : List Csr.Edge := edges.filter (·.kind ≠ "dynamic")

theorem readEdges_append (first second : List Csr.Edge) :
    readEdges (first ++ second) = readEdges first ++ readEdges second := List.filter_append ..

theorem isDynamic_text (func : FunctionName table) :
    isDynamic table func.toWord.text = Tree.readsAtRunTime func := by
  have hcanonical : canonicalFuncName func.toWord.text = func.toWord.text := func.canonical
  rw [isDynamic, hcanonical]
  rfl

variable (currentSheet source : String)

mutual

theorem readEdges_tree (tree : Tree table) (suppress : Bool) :
    readEdges (collectEdges table currentSheet source suppress (tree.ast floats)) =
      if suppress then [] else tree.mentions.map (Tree.Mention.added currentSheet source) := by
  match tree with
  | .number value => cases suppress <;> rfl
  | .string value => cases suppress <;> rfl
  | .error value => cases suppress <;> rfl
  | .boolean value =>
    cases suppress with
    | true => rfl
    | false =>
      cases value
      all_goals rfl
  | .name word =>
    cases suppress with
    | true => rfl
    | false => rfl
  | .reference ref =>
    cases suppress with
    | true => rfl
    | false =>
      have hkind := kind_refEdge currentSheet source ref.place.external ref.place.sheet
        ref.area.body
      have hsame := refEdge_eq ref currentSheet source
      have hfilter : readEdges [refEdge currentSheet source ref.place.external ref.place.sheet
          ref.area.body] = [refEdge currentSheet source ref.place.external ref.place.sheet
            ref.area.body] := by
        simp [readEdges, hkind]
      exact hfilter.trans (congrArg (fun edge => [edge]) hsame)
  | .array rows => cases suppress <;> rfl
  | .call func args =>
    have hargs := readEdges_args args (suppress || isDynamic table func.toWord.text)
    have hmark : readEdges (if isDynamic table func.toWord.text && !suppress then
        [dynamicEdge source] else []) = [] := by
      split
      all_goals rfl
    simp only [Tree.ast, collectEdges, Tree.mentions]
    rw [readEdges_append, hmark, hargs, isDynamic_text]
    cases suppress
    · cases Tree.readsAtRunTime func
      all_goals rfl
    · rfl
  | .unary minus expr => exact readEdges_tree expr suppress
  | .percent expr => exact readEdges_tree expr suppress
  | .bin kind left right =>
    simp only [Tree.ast, collectEdges, Tree.mentions]
    rw [readEdges_append, readEdges_tree left suppress, readEdges_tree right suppress]
    cases suppress
    · simp
    · rfl

theorem readEdges_args (args : List (Tree table)) (suppress : Bool) :
    readEdges (collectArgs table currentSheet source suppress (Tree.argAsts floats args)) =
      if suppress then []
      else (Tree.argMentions args).map (Tree.Mention.added currentSheet source) := by
  match args with
  | [] => cases suppress <;> rfl
  | arg :: args =>
    simp only [Tree.argAsts, collectArgs, Tree.argMentions]
    rw [readEdges_append, readEdges_tree arg suppress, readEdges_args args suppress]
    cases suppress
    · simp
    · rfl

end

theorem added_eq_edges_iff (mentions : List (Tree.Mention table)) :
    mentions.map (Tree.Mention.added currentSheet source) =
        mentions.filterMap (Tree.Mention.edge currentSheet source) ↔
      mentions.all (fun mention => !mention.isBoolean) = true := by
  have hlength (mentions : List (Tree.Mention table)) :
      (mentions.filterMap (Tree.Mention.edge currentSheet source)).length ≤ mentions.length :=
    List.length_filterMap_le _ _
  induction mentions with
  | nil => simp
  | cons mention mentions ih =>
    cases mention with
    | reference ref => simpa [Tree.Mention.added, Tree.Mention.edge, Tree.Mention.isBoolean] using ih
    | name word => simpa [Tree.Mention.added, Tree.Mention.edge, Tree.Mention.isBoolean] using ih
    | boolean value =>
      have hlt := hlength mentions
      simp only [List.all_cons, Tree.Mention.isBoolean, Bool.not_true, Bool.false_and,
        Bool.false_eq_true, iff_false]
      intro heq
      have hsame := congrArg List.length heq
      simp only [List.map_cons, List.filterMap_cons, Tree.Mention.edge, List.length_cons,
        List.length_map] at hsame
      omega

end Edges

section Whole

variable (table)

mutual

theorem isSome_tokens (tree : Tree table) (h : tree.hasBareRows = false) :
    (tree.tokens floats).isSome = true := by
  match tree with
  | .number _ | .string _ | .error _ | .boolean _ | .name _ | .array _ => rfl
  | .reference ref =>
    obtain ⟨place, area⟩ := ref
    cases place with
    | here =>
      cases area with
      | rows start finish =>
        have hstart : start.absRow = true := by
          simpa [Tree.hasBareRows, Reference.startsWithRow] using h
        simp [Tree.tokens, Reference.tokens, hstart]
      | _ => rfl
    | _ => rfl
  | .call func args =>
    obtain ⟨tokens, hargs⟩ := Option.isSome_iff_exists.mp (isSome_argsTokens args h)
    rw [Tree.tokens, hargs]
    rfl
  | .unary minus expr =>
    obtain ⟨tokens, hexpr⟩ := Option.isSome_iff_exists.mp (isSome_tokens expr h)
    rw [Tree.tokens, hexpr]
    rfl
  | .percent expr =>
    obtain ⟨tokens, hexpr⟩ := Option.isSome_iff_exists.mp (isSome_tokens expr h)
    rw [Tree.tokens, hexpr]
    rfl
  | .bin kind left right =>
    rw [Tree.hasBareRows, Bool.or_eq_false_iff] at h
    obtain ⟨first, hleft⟩ := Option.isSome_iff_exists.mp (isSome_tokens left h.1)
    obtain ⟨second, hright⟩ := Option.isSome_iff_exists.mp (isSome_tokens right h.2)
    rw [Tree.tokens, hleft, hright]
    rfl

theorem isSome_argsTokens (args : List (Tree table)) (h : Tree.argsHaveBareRows args = false) :
    (Tree.argsTokens floats args).isSome = true := by
  match args with
  | [] => rfl
  | [arg] =>
    rw [Tree.argsHaveBareRows, Bool.or_eq_false_iff] at h
    exact isSome_tokens arg h.1
  | arg :: second :: args =>
    rw [Tree.argsHaveBareRows, Bool.or_eq_false_iff] at h
    obtain ⟨first, harg⟩ := Option.isSome_iff_exists.mp (isSome_tokens arg h.1)
    obtain ⟨others, hothers⟩ :=
      Option.isSome_iff_exists.mp (isSome_argsTokens (second :: args) h.2)
    have htokens : Tree.argsTokens floats (arg :: second :: args) =
        joined (joined (arg.tokens floats) (some [.sep])) (Tree.argsTokens floats (second :: args)) :=
      rfl
    rw [htokens, harg, hothers]
    rfl

end

theorem scan_blank {text : List Char} (h : text.all table.space = true) :
    scan table floats text = .ok [] := by
  induction text with
  | nil => rfl
  | cons ch rest ih =>
    rw [List.all_cons, Bool.and_eq_true] at h
    have htoken : scanToken table floats.toFloats '.' ',' ch rest = .ok (none, rest) := by
      rw [scanToken, if_pos h.1]
    have hrest := ih h.2
    rw [scan] at hrest ⊢
    rw [tokenize_cons, htoken]
    change (tokenize table floats.toFloats '.' ',' rest >>= _) = _
    rw [hrest]
    rfl

theorem parse_text (tree : Tree table) :
    scan table floats tree.text >>= parseTokens table floats.toFloats =
      if tree.hasBareRows then .error .rejected else .ok (tree.ast floats) := by
  have hscan := scan_tree table floats tree [] delimited_nil
  rw [List.append_nil] at hscan
  rw [hscan]
  cases htokens : tree.tokens floats with
  | none =>
    have hbare : tree.hasBareRows = true := by
      by_contra hbare
      have hsome := isSome_tokens table floats tree (Bool.eq_false_iff.mpr hbare)
      rw [htokens] at hsome
      cases hsome
    rw [hbare]
    rfl
  | some tokens =>
    have hread := reads_tree table floats tree tokens htokens [] (fun token h => by cases h)
      tokens.length (by simp)
    have hloose := parseExpr_of_loose table floats tokens.length
      (unsigned_tokens floats tree htokens []) (hread.looseAfter fun token h => by cases h)
    rw [List.append_nil] at hread hloose
    have hok : emit (some tokens) (scan table floats []) = .ok tokens := by
      change Except.ok (tokens ++ []) = _
      rw [List.append_nil]
    rw [hok]
    change parseTokens table floats.toFloats tokens = _
    rw [parseTokens, hloose]
    cases hbare : tree.hasBareRows with
    | true =>
      rw [hbare] at hread
      rcases hread with hread | ⟨node, rest, hread⟩
      · rw [hread]
        rfl
      · rw [hread]
        rfl
    | false =>
      rw [hbare] at hread
      have hresult : primaryWithin table floats tokens.length tokens = .ok (tree.ast floats, []) :=
        hread
      rw [hresult]
      rfl

def formulaText (equals : Bool) (tree : Tree table) : List Char :=
  (if equals then ['='] else []) ++ tree.text

/-- The engine accepts the formula of a tree, finds the tree, and yields one edge for each
reference and each name outside the arguments of `INDIRECT` and `OFFSET`, and no other edge. -/
def ReadBack (tree : Tree table) (equals : Bool) (sheet : String) (origin : GridCell) : Prop :=
  let addr := formatAddr origin.col origin.row
  let parsed := Engine.en.parse table floats.toFloats (formulaText table equals tree) sheet addr
  parsed.unparsed = false ∧ parsed.ast = some (tree.ast floats) ∧
    readEdges parsed.edges =
      tree.mentions.filterMap (Tree.Mention.edge sheet (nodeId sheet addr))

theorem parse_formulaText (tree : Tree table) (equals : Bool) (sheet : String)
    (origin : GridCell) :
    Engine.en.parse table floats.toFloats (formulaText table equals tree) sheet
        (formatAddr origin.col origin.row) =
      if tree.hasBareRows then refused
      else
        { ast := some (tree.ast floats)
          template := some ('=' :: render floats.toFloats origin.col origin.row ',' '.'
            (tree.ast floats))
          unparsed := false
          edges := collectEdges table sheet (nodeId sheet (formatAddr origin.col origin.row)) false
            (tree.ast floats) } := by
  have hcol : 1 ≤ origin.col := by
    have hinside := origin.inside
    simp only [inGrid, Bool.and_eq_true, decide_eq_true_eq] at hinside
    exact hinside.1.1.1
  have haddr := parseAddr_formatAddr table.toCharTable origin.row hcol
  have hparse := parse_text table floats tree
  have htext : withoutEquals (formulaText table equals tree) = tree.text := by
    cases equals with
    | true => rfl
    | false =>
      change withoutEquals tree.text = _
      unfold withoutEquals
      split
      · rename_i text hequals
        have hhead := head_text table [] tree '='
        rw [List.append_nil, hequals] at hhead
        exact absurd rfl (hhead rfl).1
      · rfl
  unfold Engine.parse
  simp only [htext]
  by_cases hblank : tree.text.all table.space = true
  · rw [if_pos hblank]
    rw [scan_blank table floats hblank] at hparse
    have hnone : parseTokens table floats.toFloats [] = .error .rejected := rfl
    change parseTokens table floats.toFloats [] = _ at hparse
    rw [hnone] at hparse
    split at hparse
    · rename_i hbare
      rw [if_pos hbare]
    · cases hparse
  · rw [if_neg hblank]
    have hresult : tokenize table floats.toFloats Engine.en.decimal Engine.en.sep tree.text >>=
        parseTokens table floats.toFloats =
          if tree.hasBareRows then .error .rejected else .ok (tree.ast floats) := hparse
    rw [hresult, haddr]
    cases tree.hasBareRows
    all_goals rfl

end Whole

section Sample

def asciiText : TextTable where
  toCharTable := asciiTable
  alpha := Char.isAlpha
  digit := Char.isDigit
  alnum := Char.isAlphanum
  upper ch := [ch.toUpper]
  digit_of_decimal ch h := by
    by_contra hdigit
    simp [asciiTable, hdigit] at h
  alnum_of_digit ch h := by simp [Char.isAlphanum, h]
  alnum_of_alpha ch h := by simp [Char.isAlphanum, h]
  not_digit_of_alpha ch h := by
    by_contra hdigit
    have hrange := digit_range (Bool.eq_true_of_not_eq_false hdigit)
    have hrange' := alpha_range h
    omega
  not_space_of_alnum ch h := by
    have hne : ch ≠ ' ' := by
      rintro rfl
      cases h
    simp [asciiTable, hne]
  alpha_ascii _ _ := rfl
  alnum_ascii _ _ := rfl
  upper_ascii _ _ := rfl
  space_ascii ch hlo _ := by
    have hne : ch ≠ ' ' := by
      rintro rfl
      exact absurd hlo (by decide)
    simp [asciiTable, hne]

def textFloats : DecimalFloats (List Char) where
  read := some
  neg text := '-' :: text
  written text := text
  value number := number.text
  read_text _ := rfl

def ifName : FunctionName asciiText where
  first := 'I'
  others := ['F']
  starts := by decide
  continues := List.all_eq_true.mp (by decide)
  prefixes := []
  canonical := rfl

def sumName : FunctionName asciiText where
  first := 'S'
  others := ['U', 'M']
  starts := by decide
  continues := List.all_eq_true.mp (by decide)
  prefixes := []
  canonical := rfl

def cellA1 : GridCell := ⟨⟨1, 1, false, false⟩, by decide⟩

/-- `IF(TRUE,A1)` -/
def booleanTree : Tree asciiText :=
  .call ifName [.boolean true, .reference ⟨.here, .cell cellA1⟩]

/-- `SUM(1:3)` -/
def rowsTree : Tree asciiText :=
  .call sumName [.reference ⟨.here, .rows ⟨⟨1, false⟩, by decide⟩ ⟨⟨3, false⟩, by decide⟩⟩]

end Sample

end FinanceContext.Formula
