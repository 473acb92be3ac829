import FinanceContext.Dictionaries
import FinanceContext.FormulaRoundTrip
import FinanceContext.SelectorRows

namespace FinanceContext.DefinedNames

open Dictionaries Formula

section Reader

variable (table : TextTable)

/-- A `definedName` element of `workbook.xml`. -/
structure NameNode where
  name : String
  localSheetId : Option ℕ
  text : String

structure Workbook where
  sheetNames : List String
  nodes : List NameNode

def localSheet (book : Workbook) (localSheetId : Option ℕ) : Option String :=
  localSheetId.bind fun index => book.sheetNames[index]?

def strip (text : String) : String := String.ofList (stripChars table.space text.toList)

def loadNames (book : Workbook) : List FinanceContext.DefinedName :=
  (book.nodes.filter (·.name ≠ "")).map fun node =>
    ⟨node.name, some (strip table node.text), localSheet book node.localSheetId⟩

end Reader

section Resolution

variable {ν : Type} (casefold : String → String) (table : TextTable) (floats : Floats ν)

def nameTable (names : List FinanceContext.DefinedName) : List (String × String) :=
  filled (names.filterMap fun item =>
    if item.name = "" then none else item.formula.map fun formula => (casefold item.name, formula))

def hasChar (ch : Char) (text : String) : Bool := text.toList.contains ch

def isOpenName (edge : Csr.Edge) : Bool :=
  let target := edge.target.getD ""
  edge.named && edge.unresolved && edge.kind = "ref" && target ≠ "" && !hasChar '!' target &&
    !hasChar ':' target

def isBroken (formula : String) : Bool := "#REF!".toList <:+: formula.toList

def resolveLocal (edge : Csr.Edge) (formula : String) : Csr.Edge :=
  let text := if formula.toList.head? = some '=' then formula.toList else '=' :: formula.toList
  match (Engine.en.parse table floats text "_" "A1").ast with
  | some (.ref external sheet body) =>
    match Formula.filled external, Formula.filled sheet, body with
    | none, some sheet, .cell point =>
      { edge with
        kind := "ref"
        target := some (nodeId sheet (formatAddr point.col point.row))
        unresolved := false
        absCol := some point.absCol
        absRow := some point.absRow }
    | none, some sheet, .rect start finish =>
      { edge with
        kind := "range"
        target := some (nodeId sheet (formatAddr start.col start.row ++ ":" ++
          formatAddr finish.col finish.row))
        unresolved := false
        named := true
        absCol := some start.absCol
        absRow := some start.absRow
        absColEnd := some finish.absCol
        absRowEnd := some finish.absRow }
    | _, _, _ => edge
  | _ => edge

/-- One turn of the loop of `resolve_defined_name_edges`, by the definition that is found. -/
def resolveEdge (find : String → Option String) (edge : Csr.Edge) : Csr.Edge :=
  if !isOpenName edge then edge
  else
    match find (casefold (edge.target.getD "")) with
    | none => edge
    | some formula =>
      if isBroken formula then edge
      else if hasChar '[' formula then
        { edge with
          kind := "external"
          target := some (String.ofList (withoutEquals formula.toList))
          unresolved := false }
      else resolveLocal table floats edge formula

def resolveDefinedNameEdges (names : List FinanceContext.DefinedName) (edges : List Csr.Edge) :
    List Csr.Edge :=
  let defined := nameTable casefold names
  if defined = [] then edges
  else edges.map (resolveEdge casefold table floats fun name => get name defined)

end Resolution

section Places

variable {ν : Type} (casefold : String → String) (table : TextTable) (floats : Floats ν)

inductive Place
  | external (text : String)
  | cell (target : String) (absCol absRow : Bool)
  | range (target : String) (absCol absRow absColEnd absRowEnd : Bool)
deriving DecidableEq

def localPlace (formula : String) : Option Place :=
  let text := if formula.toList.head? = some '=' then formula.toList else '=' :: formula.toList
  match (Engine.en.parse table floats text "_" "A1").ast with
  | some (.ref external sheet body) =>
    match Formula.filled external, Formula.filled sheet, body with
    | none, some sheet, .cell point =>
      some (.cell (nodeId sheet (formatAddr point.col point.row)) point.absCol point.absRow)
    | none, some sheet, .rect start finish =>
      some (.range (nodeId sheet (formatAddr start.col start.row ++ ":" ++
        formatAddr finish.col finish.row)) start.absCol start.absRow finish.absCol finish.absRow)
    | _, _, _ => none
  | _ => none

def place (formula : String) : Option Place :=
  if isBroken formula then none
  else if hasChar '[' formula then
    some (.external (String.ofList (withoutEquals formula.toList)))
  else localPlace table floats formula

def pointed (edge : Csr.Edge) : Place → Csr.Edge
  | .external text => { edge with kind := "external", target := some text, unresolved := false }
  | .cell target absCol absRow =>
    { edge with
      kind := "ref"
      target := some target
      unresolved := false
      absCol := some absCol
      absRow := some absRow }
  | .range target absCol absRow absColEnd absRowEnd =>
    { edge with
      kind := "range"
      target := some target
      unresolved := false
      named := true
      absCol := some absCol
      absRow := some absRow
      absColEnd := some absColEnd
      absRowEnd := some absRowEnd }

def lastOf (names : List FinanceContext.DefinedName) (scope : Option String) (name : String) :
    Option String :=
  get name (nameTable casefold (names.filter (·.sheet = scope)))

def inScope (names : List FinanceContext.DefinedName) (sheet name : String) : Option String :=
  (lastOf casefold names (some sheet) name).or (lastOf casefold names none name)

/-- The edges are those of the definitions in the scope of the sheet. -/
def ResolvedInScope (names : List FinanceContext.DefinedName) (sheet : String)
    (edges : List Csr.Edge) : Prop :=
  resolveDefinedNameEdges casefold table floats names edges =
    edges.map (resolveEdge casefold table floats (inScope casefold names sheet))

variable {casefold table floats}

theorem resolveLocal_eq (edge : Csr.Edge) (formula : String) :
    resolveLocal table floats edge formula =
      ((localPlace table floats formula).map (pointed edge)).getD edge := by
  unfold resolveLocal localPlace
  simp only
  split
  · split <;> rfl
  · rfl

theorem resolveEdge_eq {find : String → Option String} {edge : Csr.Edge}
    (hopen : isOpenName edge = true) :
    resolveEdge casefold table floats find edge =
      (((find (casefold (edge.target.getD ""))).bind (place table floats)).map
        (pointed edge)).getD edge := by
  unfold resolveEdge place
  rw [hopen]
  cases find (casefold (edge.target.getD "")) with
  | none => rfl
  | some formula =>
    simp only [Bool.not_true, Bool.false_eq_true, if_false, Option.bind_some]
    split_ifs
    · rfl
    · rfl
    · exact resolveLocal_eq edge formula

theorem unresolved_of_open {edge : Csr.Edge} (hopen : isOpenName edge = true) :
    edge.unresolved = true := by
  simp only [isOpenName, Bool.and_eq_true] at hopen
  exact hopen.1.1.1.1.2

theorem pointed_unresolved (edge : Csr.Edge) (p : Place) : (pointed edge p).unresolved = false := by
  cases p <;> rfl

theorem pointed_injective (edge : Csr.Edge) : Function.Injective (pointed edge) := by
  intro p p' h
  cases p <;> cases p' <;> simp_all [pointed]

theorem getD_pointed_inj {edge : Csr.Edge} (hopen : isOpenName edge = true)
    {p p' : Option Place} :
    (p.map (pointed edge)).getD edge = (p'.map (pointed edge)).getD edge ↔ p = p' := by
  have hmoved (q : Place) : pointed edge q ≠ edge := by
    intro h
    have hfalse := pointed_unresolved edge q
    rw [h, unresolved_of_open hopen] at hfalse
    cases hfalse
  constructor
  · intro h
    cases p with
    | none =>
      cases p' with
      | none => rfl
      | some q => exact absurd h.symm (hmoved q)
    | some q =>
      cases p' with
      | none => exact absurd h (hmoved q)
      | some q' => exact congrArg some (pointed_injective edge h)
  · exact fun h => by rw [h]

theorem resolveDefinedNameEdges_eq (names : List FinanceContext.DefinedName)
    (edges : List Csr.Edge) :
    resolveDefinedNameEdges casefold table floats names edges = edges.map
      (resolveEdge casefold table floats fun name => get name (nameTable casefold names)) := by
  rw [resolveDefinedNameEdges]
  split_ifs with hnil
  · have hsame (edge : Csr.Edge) : resolveEdge casefold table floats
        (fun name => get name (nameTable casefold names)) edge = edge := by
      rw [hnil]
      unfold resolveEdge
      split_ifs <;> rfl
    exact ((List.map_congr_left fun edge _ => hsame edge).trans (List.map_id' edges)).symm
  · rfl

/-- Names are resolved in scope when the last definition of each name and the definition in scope
name the same place. -/
theorem resolvedInScope_iff (casefold : String → String) (table : TextTable) (floats : Floats ν)
    (book : Workbook) (sheet : String) (edges : List Csr.Edge) :
    ResolvedInScope casefold table floats (loadNames table book) sheet edges ↔
      ∀ edge ∈ edges, isOpenName edge = true →
        (get (casefold (edge.target.getD "")) (nameTable casefold (loadNames table book))).bind
            (place table floats) =
          (inScope casefold (loadNames table book) sheet (casefold (edge.target.getD ""))).bind
            (place table floats) := by
  rw [ResolvedInScope, resolveDefinedNameEdges_eq, List.map_inj_left]
  refine forall₂_congr fun edge _ => ?_
  by_cases hopen : isOpenName edge = true
  · rw [resolveEdge_eq hopen, resolveEdge_eq hopen, getD_pointed_inj hopen]
    exact ⟨fun h _ => h, fun h => h hopen⟩
  · have hsame (find : String → Option String) :
        resolveEdge casefold table floats find edge = edge := by
      rw [resolveEdge, if_pos (by simpa using hopen)]
    rw [hsame, hsame]
    exact iff_of_true rfl fun h => absurd h hopen

theorem sheet_of_loadNames {book : Workbook}
    (hglobal : ∀ node ∈ book.nodes, node.localSheetId = none) {item : FinanceContext.DefinedName}
    (hitem : item ∈ loadNames table book) : item.sheet = none := by
  obtain ⟨node, hnode, rfl⟩ := List.mem_map.mp hitem
  rw [localSheet, hglobal node (List.mem_of_mem_filter hnode)]
  rfl

theorem resolvedInScope_of_global {book : Workbook}
    (hglobal : ∀ node ∈ book.nodes, node.localSheetId = none) (sheet : String)
    (edges : List Csr.Edge) :
    ResolvedInScope casefold table floats (loadNames table book) sheet edges := by
  have hnone {item : FinanceContext.DefinedName} (hitem : item ∈ loadNames table book) :
      item.sheet = none := sheet_of_loadNames hglobal hitem
  have hall : (loadNames table book).filter (·.sheet = none) = loadNames table book := by
    apply List.filter_eq_self.mpr
    intro item hitem
    exact decide_eq_true (hnone hitem)
  have hlocal : (loadNames table book).filter (·.sheet = some sheet) = [] := by
    apply List.filter_eq_nil_iff.mpr
    intro item hitem
    simp [hnone hitem]
  have hfind (name : String) : inScope casefold (loadNames table book) sheet name =
      get name (nameTable casefold (loadNames table book)) := by
    rw [inScope, lastOf, lastOf, hall, hlocal]
    rfl
  exact (resolveDefinedNameEdges_eq _ _).trans (by simp only [funext hfind])

end Places

section Shadowed

/-- The workbook defines `Rate`, and the sheet `Other` has a `Rate` of its own. -/
def rateBook : Workbook where
  sheetNames := ["Model", "Inputs", "Other"]
  nodes := [⟨"Rate", none, "Inputs!$D$5"⟩, ⟨"Rate", some 2, "Other!$B$2"⟩]

def rateEdges : List Csr.Edge :=
  (Engine.en.parse asciiText textFloats.toFloats "=A1*Rate".toList "Model" "B1").edges

/-- A formula on `Model` gets the `Rate` of `Other`. -/
theorem rate_of_another_sheet :
    (resolveDefinedNameEdges id asciiText textFloats.toFloats (loadNames asciiText rateBook)
      rateEdges).map (·.target) = [some "Model!A1", some "Other!B2"] ∧
    ¬ResolvedInScope id asciiText textFloats.toFloats (loadNames asciiText rateBook) "Model"
      rateEdges := by
  refine ⟨by decide +kernel, ?_⟩
  unfold ResolvedInScope
  decide +kernel

end Shadowed

end FinanceContext.DefinedNames
