import FinanceContext.Cells
import FinanceContext.GraphLinks
import FinanceContext.NodeIds

namespace FinanceContext

open Csr Dictionaries

/-- What the graph stage takes from the rules for period keys and formula text. -/
structure GraphText extends CharTable where
  int : String → Option ℤ
  casefold : String → String
  periodPosition : String → Option (String × ℤ)
  strip : String → String
  conditional : String → Bool
  aggregation : String → Bool
  hasReference : String → Bool

abbrev PeriodByCell := List ((String × ℕ) × String)

variable (text : GraphText) (periods : PeriodByCell)

/-- `calendar_key`: the part of a period id before its marker. -/
def calendarKey (periodId : String) : String :=
  String.ofList (periodId.toList.takeWhile (· ≠ '@'))

def calendarLag (sourceId targetId : String) : String :=
  let source := calendarKey sourceId
  let target := calendarKey targetId
  match text.periodPosition source, text.periodPosition target with
  | some src, some tgt =>
    if src.1 ≠ tgt.1 then "unaligned"
    else if source = target then "same" else toString (tgt.2 - src.2)
  | _, _ => "unaligned"

def periodOf (node : String) : Option String := do
  let (sheet, col, _) ← parseNodeId text.toCharTable node
  get (sheet, col) periods

def lagBetween (source target : Option String) : String :=
  match source, target with
  | some src, some tgt => if src = "" ∨ tgt = "" then "unaligned" else calendarLag text src tgt
  | _, _ => "unaligned"

def offsetAndLag (source target : String) : Option ℤ × String :=
  let offset := do
    let src ← parseNodeId text.toCharTable source
    let tgt ← parseNodeId text.toCharTable target
    pure ((tgt.2.1 : ℤ) - src.2.1)
  (offset, lagBetween text (periodOf text periods source) (periodOf text periods target))

/-- `_period_chain`, and `_is_period_chain` of an edge with this lag and offset. -/
def periodChain (source target : String) (lag : Option String) (offset : Option ℤ) : Bool :=
  if lag = some "same" ∨ lag = some "0" ∨ lag = some "unaligned" then false
  else if lag ≠ none ∧ lag ≠ some "" then
    match lag.bind text.int with
    | some n => n ≠ 0
    | none => false
  else if offset = none ∨ offset = some 0 then false
  else
    match parseNodeId text.toCharTable source, parseNodeId text.toCharTable target with
    | some src, some tgt => src.1 = tgt.1 ∧ src.2.2 = tgt.2.2
    | _, _ => false

def memberChain (source member : String) : Bool :=
  let (offset, lag) := offsetAndLag text periods source member
  periodChain text source member (some lag) offset

section RangeView

variable (usage : SheetUsage)

/-- `view.node`: the range node of an edge target. -/
def viewNode (target : String) : Option RangeNode := parseRangeNode text.toCharTable target

/-- `view.users`: the edges into range nodes. -/
def rangeUsers (edges : List CellEdge) : List (String × RangeNode) :=
  edges.filterMap fun edge =>
    match viewNode text edge.target with
    | some node => if edge.source = "" then none else some (edge.source, node)
    | none => none

def firstSpanRow : List (ℕ × ℕ) → ℕ → ℕ → Option ℕ
  | [], _, _ => none
  | (start, stop) :: spans, lo, hi =>
    if stop < lo then firstSpanRow spans lo hi
    else if hi < start then none else some (max start lo)

def columnsOf (sheet : String) : List (ℕ × List (ℕ × ℕ)) := (get sheet usage.rowsByCol).getD []

/-- `_first_present`: the first present row and column of a node, row first. -/
def firstPresent (node : RangeNode) : Option (ℕ × ℕ) :=
  let sheet := (get (text.casefold node.sheet) usage.canonical).getD node.sheet
  (columnsOf usage sheet).foldl (fun best (col, spans) =>
    if col < node.c1 ∨ node.c2 < col then best
    else
      match firstSpanRow spans node.r1 node.r2, best with
      | none, _ => best
      | some row, none => some (row, col)
      | some row, some b => if row < b.1 ∨ row = b.1 ∧ col < b.2 then some (row, col) else best)
    none

/-- `CellGrid.first`: the column of the first member of a node. -/
def firstColumn (node : RangeNode) : Option ℕ :=
  if wholeAxis node.c1 node.c2 node.r1 node.r2 then (firstPresent text usage node).map Prod.snd
  else some node.c1

def memberColumns (node : RangeNode) : List ℕ :=
  if wholeAxis node.c1 node.c2 node.r1 node.r2 then
    let found := (columnsOf usage node.sheet).filterMap fun (col, spans) =>
      if col < node.c1 ∨ node.c2 < col then none
      else if spans.any fun (start, stop) => ¬(stop < node.r1 ∨ node.r2 < start) then some col
      else none
    found.insertionSort (· ≤ ·)
  else List.range' node.c1 (node.c2 + 1 - node.c1)

/-- `view.offset_and_lag`: those of the first member. -/
def nodeOffsetAndLag (source : String) (node : RangeNode) : Option ℤ × String :=
  match firstColumn text usage node with
  | none => (none, "unaligned")
  | some col =>
    ((parseNodeId text.toCharTable source).map fun src => (col : ℤ) - src.2.1,
      lagBetween text (periodOf text periods source) (get (node.sheet, col) periods))

def enrichEdge (edge : CellEdge) : CellEdge :=
  let (offset, lag) := match viewNode text edge.target with
    | some node => nodeOffsetAndLag text periods usage edge.source node
    | none => offsetAndLag text periods edge.source edge.target
  { edge with colOffset := offset, periodLag := some lag }

/-- The order of the periods of a node: a missing one comes last. -/
def PeriodLe : Option String → Option String → Prop
  | some a, some b => a ≤ b
  | none, some _ => False
  | _, none => True

instance (a b : Option String) : Decidable (PeriodLe a b) :=
  match a, b with
  | some a, some b => inferInstanceAs (Decidable (a ≤ b))
  | none, some _ => isFalse id
  | some _, none => isTrue trivial
  | none, none => isTrue trivial

def memberPeriods (node : RangeNode) : List (Option String) :=
  ((memberColumns usage node).map fun col => get (node.sheet, col) periods).dedup.insertionSort
    PeriodLe

end RangeView

def addLag (lags : List (String × List String)) (source lag : String) :
    List (String × List String) :=
  let bucket := (get source lags).getD []
  set source (if lag ∈ bucket then bucket else bucket ++ [lag]) lags

def lagsBySource (edges : List CellEdge) : List (String × List String) :=
  edges.foldl (fun lags edge =>
    match edge.periodLag with
    | some lag => if edge.source = "" then lags else addLag lags edge.source lag
    | none => lags) []

def addRangeLags (usage : SheetUsage) (lags : List (String × List String))
    (users : List (String × RangeNode)) : List (String × List String) :=
  users.foldl (fun lags (source, node) =>
    (memberPeriods periods usage node).foldl (fun lags period =>
      addLag lags source (lagBetween text (periodOf text periods source) period)) lags) lags

def lagNumbers (lags : List String) : List ℤ :=
  lags.filterMap fun lag =>
    if lag = "" ∨ lag = "same" ∨ lag = "unaligned" then none else text.int lag

def classifyFormula (formula : Option String) (refs : List String) (lags : List String) :
    Option FormulaClass :=
  match formula with
  | none => none
  | some raw =>
    let body := text.strip raw
    if body = "" then none
    else if text.conditional body then some .conditional
    else if text.aggregation body then some .aggregation
    else
      let offsets := lagNumbers text lags
      let prior := offsets.filter (· < 0)
      let forward := offsets.filter (0 < ·)
      if prior ≠ [] ∨ forward ≠ [] then
        let simplePrior := prior ≠ [] ∧ forward = [] ∧ ∀ n ∈ prior, n = -1
        let arithmetic := '*' ∈ body.toList ∨ '/' ∈ body.toList
        if simplePrior ∧ ¬arithmetic then some .rollforward else some .crossPeriod
      else if refs ≠ [] ∨ text.hasReference body then some .samePeriod
      else some .hardcoded

end FinanceContext
