import FinanceContext.Addresses
import FinanceContext.Dictionaries
import Mathlib.Data.List.Sort

namespace FinanceContext.Csr

open Dictionaries

def excelMaxRow : ℕ := 1048576

def excelMaxCol : ℕ := 16384

/-- The letters `[A-Za-z]` matches when case is ignored. -/
def isLetter (ch : Char) : Bool :=
  ch.isAlpha || ch = 'İ' || ch = 'ı' || ch = 'ſ' || ch = '\u212a'

def upperLetter (ch : Char) : Char :=
  if ch = 'ı' then 'I' else if ch = 'ſ' then 'S' else ch.toUpper

structure Edge where
  kind : String
  source : String
  target : Option String := none
  unresolved : Bool := false
  truncated : Bool := false
  absCol : Option Bool := none
  absRow : Option Bool := none
  absColEnd : Option Bool := none
  absRowEnd : Option Bool := none
  named : Bool := false
  deriving DecidableEq

/-- The rows of each column, and the spelling kept for each folded sheet name. -/
structure SheetUsage where
  rowsByCol : List (String × List (ℕ × List (ℕ × ℕ)))
  canonical : List (String × String)

structure RangeNode where
  nodeId : String
  sheet : String
  c1 : ℕ
  c2 : ℕ
  r1 : ℕ
  r2 : ℕ
  deriving DecidableEq

structure EdgeRow where
  source : String
  target : String
  kind : String
  unresolved : Bool
  truncated : Bool
  rangeRef : Option String
  absCol : Option Bool
  absRow : Option Bool
  absColEnd : Option Bool
  absRowEnd : Option Bool
  named : Bool
  memberKind : Option String

structure MemberStatus where
  danglingReason : Option String
  dangling : Bool
  status : Option String
  reason : Option String
  evidence : Option String

structure CellEdge where
  source : String
  target : String
  kind : String
  unresolved : Bool
  truncated : Bool
  dangling : Bool
  danglingReason : Option String
  status : Option String
  reason : Option String
  evidence : Option String
  rangeRef : Option String
  absCol : Option Bool
  absRow : Option Bool
  absColEnd : Option Bool
  absRowEnd : Option Bool
  named : Bool
  colOffset : Option ℤ := none
  periodLag : Option String := none
  deriving DecidableEq

def splitFirst (sep : List Char) : List Char → Option (List Char × List Char)
  | [] => if sep.isEmpty then some ([], []) else none
  | ch :: rest =>
    if sep.isPrefixOf (ch :: rest) then some ([], (ch :: rest).drop sep.length)
    else (splitFirst sep rest).map fun (a, b) => (ch :: a, b)

/-- `split_sheet_ref`; `none` is its `ValueError`. -/
def splitSheetRef (target : String) : Option (String × String) :=
  let chars := target.toList
  let parts :=
    if chars.head? = some '\'' then
      (splitFirst ['\'', '!'] chars).map fun (sheet, body) => (sheet.drop 1, body)
    else splitFirst ['!'] chars
  parts.map fun (sheet, body) => (String.ofList sheet, String.ofList body)

section Patterns

variable (decimal : Char → Option ℕ)

/-- `int` of the digits a pattern matched. -/
def readInt (digits : List Char) : ℕ :=
  digits.foldl (fun n ch => n * 10 + (decimal ch).getD 0) 0

def skipDollar : List Char → List Char
  | '$' :: rest => rest
  | rest => rest

def takeCol (chars : List Char) : Option (ℕ × List Char) :=
  let chars := skipDollar chars
  let letters := chars.takeWhile isLetter
  if letters.isEmpty then none
  else some (colToIndex (letters.map upperLetter), chars.dropWhile isLetter)

def takeRow (chars : List Char) : Option (ℕ × List Char) :=
  let chars := skipDollar chars
  let digits := chars.takeWhile fun ch => (decimal ch).isSome
  if digits.isEmpty then none
  else some (readInt decimal digits, chars.dropWhile fun ch => (decimal ch).isSome)

def takeCell (chars : List Char) : Option ((ℕ × ℕ) × List Char) := do
  let (col, rest) ← takeCol chars
  let (row, rest) ← takeRow decimal rest
  pure ((col, row), rest)

/-- `_CELL.fullmatch`. -/
def cellBody (body : String) : Option (ℕ × ℕ) :=
  match takeCell decimal body.toList with
  | some (cell, []) => some cell
  | _ => none

def takeColon : List Char → Option (List Char)
  | ':' :: rest => some rest
  | _ => none

/-- Two ends of a range with a colon between them and nothing after. -/
def takeEnds {α : Type} (take : List Char → Option (α × List Char)) (chars : List Char) :
    Option (α × α) := do
  let (a, rest) ← take chars
  let (b, rest) ← take (← takeColon rest)
  if rest.isEmpty then pure (a, b) else none

/-- `_rectangle`: columns and rows of a range body, bounds included. -/
def rectangle (body : String) : Option (ℕ × ℕ × ℕ × ℕ) :=
  match takeEnds (takeCell decimal) body.toList with
  | some ((c1, r1), (c2, r2)) => some (min c1 c2, max c1 c2, min r1 r2, max r1 r2)
  | none =>
    match takeEnds takeCol body.toList with
    | some (c1, c2) => some (min c1 c2, max c1 c2, 1, excelMaxRow)
    | none =>
      (takeEnds (takeRow decimal) body.toList).map fun (r1, r2) =>
        (1, excelMaxCol, min r1 r2, max r1 r2)

end Patterns

def area (c1 c2 r1 r2 : ℕ) : ℕ := (c2 + 1 - c1) * (r2 + 1 - r1)

def wholeAxis (c1 c2 r1 r2 : ℕ) : Bool :=
  (r1 = 1 && r2 = excelMaxRow) || (c1 = 1 && c2 = excelMaxCol)

def rangeNodeId (sheet : String) (c1 c2 r1 r2 : ℕ) : String :=
  if r1 = 1 ∧ r2 = excelMaxRow then
    nodeId sheet (String.ofList (indexToCol c1) ++ ":" ++ String.ofList (indexToCol c2))
  else if c1 = 1 ∧ c2 = excelMaxCol then nodeId sheet (toString r1 ++ ":" ++ toString r2)
  else nodeId sheet (formatAddr c1 r1 ++ ":" ++ formatAddr c2 r2)

/-- What the expansion reads beside the edges: Unicode tables, the two limits of the job and
the index of present cells. -/
structure Expansion where
  casefold : String → String
  decimal : Char → Option ℕ
  rangeCap : ℕ
  nodeMinCells : ℕ
  usage : Option SheetUsage

namespace Expansion

variable (ex : Expansion)

def sheetName (usage : SheetUsage) (sheet : String) : String :=
  (get (ex.casefold sheet) usage.canonical).getD sheet

/-- `_present_pairs`: rows and columns of the present cells, row first. -/
def presentPairs (usage : SheetUsage) (sheet : String) (c1 c2 r1 r2 : ℕ) : List (ℕ × ℕ) :=
  let columns := (get (ex.sheetName usage sheet) usage.rowsByCol).getD []
  let found := columns.flatMap fun (col, spans) =>
    if col < c1 ∨ c2 < col then []
    else spans.flatMap fun (lo, hi) =>
      (List.range' (max lo r1) (min hi r2 + 1 - max lo r1)).map fun row => (row, col)
  found.insertionSort fun p q => p.1 < q.1 ∨ p.1 = q.1 ∧ p.2 ≤ q.2

def rangeNodeFor (target : String) : Option RangeNode := do
  let usage ← ex.usage
  let (sheet, body) ← splitSheetRef target
  let _ ← get (ex.casefold sheet) usage.canonical
  let (c1, c2, r1, r2) ← rectangle ex.decimal body
  if !wholeAxis c1 c2 r1 r2 && area c1 c2 r1 r2 ≤ ex.nodeMinCells then none
  else
    let sheet := ex.sheetName usage sheet
    pure ⟨rangeNodeId sheet c1 c2 r1 r2, sheet, c1, c2, r1, r2⟩

/-- The loop of `_take`, which stops at the first cell over the cap. -/
def takeCells (cap total : ℕ) (out : List String) : List String → List String × Bool
  | [] => (out, out.length < total)
  | cell :: cells =>
    if cap ≤ out.length then (out, true) else takeCells cap total (out ++ [cell]) cells

def expandRange (target : String) : Option (List String × Bool) := do
  let (sheet, body) ← splitSheetRef target
  let sheet := (ex.usage.map fun usage => ex.sheetName usage sheet).getD sheet
  match cellBody ex.decimal body with
  | some (col, row) => pure ([nodeId sheet (formatAddr col row)], false)
  | none =>
    match rectangle ex.decimal body with
    | none => pure ([target], false)
    | some (c1, c2, r1, r2) =>
      match ex.usage, wholeAxis c1 c2 r1 r2 with
      | some usage, true =>
        let cells := (ex.presentPairs usage sheet c1 c2 r1 r2).map fun (row, col) =>
          nodeId sheet (formatAddr col row)
        pure (cells, false)
      | _, _ =>
        let cells := (List.range' r1 (r2 + 1 - r1)).flatMap fun row =>
          (List.range' c1 (c2 + 1 - c1)).map fun col => nodeId sheet (formatAddr col row)
        pure (takeCells ex.rangeCap (area c1 c2 r1 r2) [] cells)

def canonicalTarget (target : String) : String :=
  match ex.usage, splitSheetRef target with
  | some usage, some (sheet, body) => nodeId (ex.sheetName usage sheet) body
  | _, _ => target

/-- A range the expansion looks into. -/
def IsRange (edge : Edge) (target : String) : Prop :=
  edge.kind = "range" ∧ edge.unresolved = false ∧ '!' ∈ target.toList

instance (edge : Edge) (target : String) : Decidable (IsRange edge target) :=
  inferInstanceAs (Decidable (_ ∧ _ ∧ _))

/-- `_expanded_targets`. The flag it sets on a truncated range edge is read by no row. -/
def expandedTargets (edge : Edge) : List (String × Bool × Bool) :=
  match edge.target with
  | none => []
  | some target =>
    if target = "" then []
    else if IsRange edge target then
      match ex.expandRange target with
      | none => [(target, true, false)]
      | some (cells, trunc) => cells.map fun cell => (cell, false, trunc)
    else if edge.kind = "ref" ∨ edge.kind = "cross_sheet" then
      [(ex.canonicalTarget target, edge.unresolved, edge.truncated)]
    else [(target, true, edge.truncated)]

def edgeNode (edge : Edge) : Option RangeNode :=
  match edge.target with
  | some target => if target ≠ "" ∧ IsRange edge target then ex.rangeNodeFor target else none
  | none => none

def edgeRows (edge : Edge) : List EdgeRow :=
  match ex.edgeNode edge with
  | some node =>
    [{ source := edge.source, target := node.nodeId, kind := edge.kind
       unresolved := false, truncated := false, rangeRef := edge.target
       absCol := edge.absCol, absRow := edge.absRow
       absColEnd := edge.absColEnd, absRowEnd := edge.absRowEnd
       named := edge.named, memberKind := none }]
  | none =>
    (ex.expandedTargets edge).map fun (target, unresolved, truncated) =>
      { source := edge.source, target := target, kind := edge.kind
        unresolved := unresolved, truncated := truncated, rangeRef := edge.target
        absCol := edge.absCol, absRow := edge.absRow
        absColEnd := edge.absColEnd, absRowEnd := edge.absRowEnd
        named := edge.named, memberKind := some edge.kind }

theorem source_of_mem_edgeRows {edge : Edge} {row : EdgeRow} (h : row ∈ ex.edgeRows edge) :
    row.source = edge.source := by
  unfold edgeRows at h
  split at h
  · rw [List.mem_singleton.mp h]
  · obtain ⟨_, _, rfl⟩ := List.mem_map.mp h
    rfl

end Expansion

/-- What a target is checked against. -/
structure Workbook where
  known : String → Bool
  sheets : List String
  presence : List (String × String)

namespace Workbook

variable (book : Workbook)

def unresolvedMember (danglingReason reason evidence : String) : MemberStatus :=
  ⟨some danglingReason, true, some "unresolved", some reason, some evidence⟩

def blankMember (klass evidence : String) : MemberStatus :=
  ⟨some klass, false, some "empty", some "actual_blank_cell", some evidence⟩

def unclassified : MemberStatus := ⟨none, false, none, none, none⟩

def classifyMember (target kind : String) (unresolved : Bool) : MemberStatus :=
  if target = "" ∨ unresolved then unclassified
  else if book.known target then unclassified
  else
    match splitSheetRef target with
    | none =>
      unresolvedMember "parser_resolution_failure" "parser_resolution_failure" "bad_address"
    | some (sheet, _) =>
      let seen := get target book.presence
      if book.sheets ≠ [] ∧ sheet ∉ book.sheets then
        unresolvedMember "missing_sheet" "missing_sheet" "sheet_not_in_workbook"
      else if seen = some "populated" then
        unresolvedMember "parser_resolution_failure" "parser_resolution_failure"
          "populated_missing_from_index"
      else if book.sheets = [] then
        if kind = "range" then blankMember "empty_range_member" "omitted_by_excel"
        else unresolvedMember "missing_cell" "parser_resolution_failure" "not_in_sparse_index"
      else
        let evidence := if seen = some "styled_blank" then "styled_blank" else "omitted_by_excel"
        blankMember (if kind = "range" then "empty_range_member" else "empty_ref") evidence

def classified (row : EdgeRow) : MemberStatus :=
  match row.memberKind with
  | none => unclassified
  | some kind => book.classifyMember row.target kind row.unresolved

def cellEdge (row : EdgeRow) : CellEdge :=
  let member := book.classified row
  { source := row.source, target := row.target, kind := row.kind
    unresolved := row.unresolved, truncated := row.truncated
    dangling := member.dangling, danglingReason := member.danglingReason
    status := member.status, reason := member.reason, evidence := member.evidence
    rangeRef := row.rangeRef, absCol := row.absCol, absRow := row.absRow
    absColEnd := row.absColEnd, absRowEnd := row.absRowEnd, named := row.named }

end Workbook

variable (ex : Expansion) (book : Workbook)

/-- One step of the inner loop of `expand_cell_edges`, over its rows and its `seen` set. -/
def expandRow (state : List CellEdge × List (String × String × String)) (row : EdgeRow) :
    List CellEdge × List (String × String × String) :=
  let key := (row.source, row.target, row.kind)
  if key ∈ state.2 then state else (state.1 ++ [book.cellEdge row], key :: state.2)

def expandCellEdges (edges : List Edge) : List CellEdge :=
  (edges.foldl (fun state edge => (ex.edgeRows edge).foldl (expandRow book) state) ([], [])).1

end FinanceContext.Csr
