import FinanceContext.GraphStream
import FinanceContext.MarkdownRender
import FinanceContext.QuotedWords

namespace FinanceContext

open Csr GraphIndex JsonStream Markdown TextLines

section Dump

def CycleClass.name : CycleClass → String
  | .iterativeOk => "iterative_ok"
  | .unexpected => "unexpected"

def FormulaClass.name : FormulaClass → String
  | .samePeriod => "same_period"
  | .crossPeriod => "cross_period"
  | .aggregation => "aggregation"
  | .rollforward => "rollforward"
  | .conditional => "conditional"
  | .hardcoded => "hardcoded"

def dumpTexts (texts : List String) : Json := .array (texts.map .str)

def dumpCounts (counts : List (String × ℕ)) : Json :=
  .object (counts.map fun entry => (entry.1, .int entry.2))

def dumpOptional : Option String → Json
  | some text => .str text
  | none => .null

def IdCount.dump (found : IdCount) : Json :=
  .object [("count", .int found.count), ("ids", dumpTexts found.ids)]

def CycleRecord.dump (cycle : CycleRecord) : Json :=
  .object [("id", .str cycle.id), ("members", dumpTexts cycle.members),
    ("class", .str cycle.cycleClass.name), ("breakers", .array [])]

def dumpHint (hint : CircularityHint) : Json :=
  .object [("sheet", .str hint.sheet), ("row", .int hint.row), ("label", .str hint.label),
    ("cell_ids", dumpTexts hint.cellIds)]

def FormulaLink.dump (link : FormulaLink) : Json :=
  .object [("cell", .str link.cell), ("formula", dumpOptional link.formula),
    ("formula_class", dumpOptional (link.formulaClass.map FormulaClass.name)),
    ("refs", dumpTexts link.refs), ("row_key", dumpOptional link.rowKey),
    ("period_id", dumpOptional link.periodId)]

namespace GraphDocument

variable (doc : GraphDocument)

def headFields : List (String × Json) :=
  [("schema_version", .str doc.schemaVersion), ("job_id", .str doc.jobId),
    ("iterate", .bool doc.iterate), ("nodes", .int doc.nodes), ("edges", .int doc.edges),
    ("kinds", dumpCounts doc.kinds),
    ("contract", .object [("source_of_truth", .str doc.contract.sourceOfTruth),
      ("edges", .str doc.contract.edges), ("formulas", .str doc.contract.formulas)]),
    ("unresolved", doc.unresolved.dump), ("dynamic", doc.dynamic.dump),
    ("external", doc.external.dump), ("truncated", doc.truncated.dump),
    ("dangling", doc.dangling.dump), ("dangling_classes", dumpCounts doc.danglingClasses),
    ("cycles", .array (doc.cycles.map CycleRecord.dump)),
    ("circularity_hints", .array (doc.circularityHints.map dumpHint))]

/-- `model_dump` by alias, with something in the place of the links. -/
def dumpWith (links : Json) : Json :=
  .object (doc.headFields ++
    [("links", links), ("artifacts", .object (doc.artifacts.map fun e => (e.1, .str e.2)))])

def dump : Json := doc.dumpWith (.array (doc.links.map FormulaLink.dump))

end GraphDocument

def dumpedGraphJson (doc : GraphDocument) : Text := dumps false doc.dump ++ ['\n']

end Dump

section Rendered

def linkRow (link : FormulaLink) : String :=
  axisRow [cell link.cell, cell (link.rowKey.getD ""), cell (link.periodId.getD ""),
    cell ((link.formulaClass.map FormulaClass.name).getD ""), cell (link.formula.getD ""),
    cell (", ".intercalate link.refs)]

def countLines (title : String) (counts : List (String × ℕ)) : List String :=
  if counts = [] then []
  else [title, ""] ++ counts.map (fun e => "- " ++ e.1 ++ ": " ++ toString e.2) ++ [""]

def cycleLines (cycles : List CycleRecord) : List String :=
  if cycles = [] then []
  else
    ["## Cycles", ""] ++ cycles.map (fun cycle => "- `" ++ cycle.id ++ "` class `" ++
      cycle.cycleClass.name ++ "` members " ++ ", ".intercalate cycle.members) ++ [""]

def hintLines (hints : List CircularityHint) : List String :=
  if hints = [] then []
  else
    ["## Circularity", ""] ++ hints.map (fun hint =>
      "- " ++ hint.sheet ++ " row " ++ toString hint.row ++ ": " ++ cell hint.label) ++ [""]

def titleLines (doc : GraphDocument) : List String :=
  ["# Formula graph", "", "- Schema: `" ++ doc.schemaVersion ++ "`", "- Job: `" ++ doc.jobId ++ "`",
    "- Nodes: " ++ toString doc.nodes, "- Edges: " ++ toString doc.edges,
    "- Iterate: " ++ if doc.iterate then "true" else "false"]

def sectionLines (doc : GraphDocument) : List String :=
  ["- Unresolved: " ++ toString doc.unresolved.count, "- Dangling: " ++ toString doc.dangling.count,
    ""] ++ countLines "## Kinds" doc.kinds ++ countLines "## Empty cells" doc.danglingClasses ++
    cycleLines doc.cycles ++ hintLines doc.circularityHints ++
    ["## Links", "", "| Cell | Row | Period | Class | Formula | Refs |",
      "| --- | --- | --- | --- | --- | --- |"]

def renderGraphMarkdown (doc : GraphDocument) : String :=
  let lines := titleLines doc ++ ["- Links: " ++ toString doc.links.length] ++ sectionLines doc ++
    doc.links.map linkRow ++ [""]
  stripEnd isSpace ("\n".intercalate lines) ++ "\n"

end Rendered

section Streamed

def linksSlot : String := "__FC_LINKS_SLOT__"

/-- `.replace("\n", "\n    ")` of the text of one link. -/
def linkBody (link : FormulaLink) : Text := indentChunk 2 (dumps false link.dump)

def streamedLinks : List FormulaLink → Text
  | [] => "[]".toList
  | first :: rest => "[\n".toList ++ ("    ".toList ++ linkBody first) ++
      rest.flatMap (fun link => ",\n".toList ++ ("    ".toList ++ linkBody link)) ++ "\n  ]".toList

/-- `None` is the failure of `prefix, suffix = text.split(slot, 1)`. -/
def streamedGraphJson (doc : GraphDocument) (links : List FormulaLink) : Option Text :=
  let text := dumps false (doc.dumpWith (.str linksSlot))
  (splitFirst (encodeString linksSlot) text).map fun parts =>
    parts.1 ++ streamedLinks links ++ (parts.2 ++ ['\n'])

def replaceFirst (old new text : Text) : Text :=
  match splitFirst old text with
  | some (before, rest) => before ++ new ++ rest
  | none => text

def linkCount (n : ℕ) : Text := ("- Links: " ++ toString n ++ "\n").toList

def streamedGraphMarkdown (doc : GraphDocument) (links : List FormulaLink) : Text :=
  replaceFirst (linkCount 0) (linkCount links.length) (renderGraphMarkdown doc).toList ++
    links.flatMap fun link => (linkRow link ++ "\n").toList

/-- `_stream_graph_files`: the texts of `graph.json` and `graph.md`. -/
def streamedGraphFiles (doc : GraphDocument) (links : List FormulaLink) : Option (Text × Text) :=
  (streamedGraphJson doc links).map fun json => (json, streamedGraphMarkdown doc links)

def dumpedGraphFiles (doc : GraphDocument) : Text × Text :=
  (dumpedGraphJson doc, (renderGraphMarkdown doc).toList)

end Streamed

end FinanceContext
