import FinanceContext.GraphFiles

namespace FinanceContext

open Csr GraphIndex JsonStream Markdown TextLines

section Links

theorem linkBody_eq (link : FormulaLink) :
    linkBody link = (iterencode false link.dump 2).flatten := by
  have hpieces (chunks : Chunks) : indentChunk 2 chunks.flatten =
      (chunks.map (indentChunk 2)).flatten := by
    induction chunks with
    | nil => rfl
    | cons chunk chunks ih =>
      rw [List.flatten_cons, indentChunk_append, ih, List.map_cons, List.flatten_cons]
  unfold linkBody dumps
  rw [hpieces, indent_iterencode false link.dump 2 0]

theorem encodeItems_eq (items : List Json) (level : ℕ) :
    encodeItems false items level = items.map fun item => iterencode false item level := by
  induction items with
  | nil => rfl
  | cons item items ih => rw [encodeItems, ih, List.map_cons]

theorem encodeFields_eq (fields : List (String × Json)) (level : ℕ) :
    encodeFields false fields level =
      fields.map fun field => (field.1, iterencode false field.2 level) := by
  induction fields with
  | nil => rfl
  | cons field fields ih => rw [encodeFields, ih, List.map_cons]

theorem streamedLinks_eq (links : List FormulaLink) :
    streamedLinks links =
      (iterencode false (.array (links.map FormulaLink.dump)) 1).flatten := by
  rw [iterencode, encodeItems_eq, List.map_map]
  cases links with
  | nil => rfl
  | cons first rest =>
    have hlater : (rest.map ((fun item => iterencode false item 2) ∘ FormulaLink.dump)).flatMap
        (fun item => ((',' :: newline 2) :: item).flatten) =
        rest.flatMap fun link => ",\n".toList ++ ("    ".toList ++ linkBody link) := by
      rw [List.flatMap_map]
      congr
      funext link
      rw [linkBody_eq]
      rfl
    have hopen : "[\n".toList ++ "    ".toList = '[' :: newline 2 := rfl
    have hclose : [newline 1, [']']].flatten = "\n  ]".toList := rfl
    rw [List.map_cons, listChunks, List.cons_append, List.cons_append, List.flatten_cons,
      List.flatten_append, List.flatten_append, flatten_flatMap_chunks, hlater, hclose,
      streamedLinks, linkBody_eq first, ← List.append_assoc, hopen, List.append_assoc,
      List.append_assoc, List.append_assoc]
    rfl

end Links

section Head

variable (doc : GraphDocument)

def headChunks : Chunks :=
  match encodeFields false doc.headFields 1 with
  | [] => []
  | first :: rest => ['{'] :: newline 1 :: (fieldChunks first ++ (laterFields 0 rest ++
      [',' :: newline 1, encodeString "links", [':', ' ']]))

def tailText : Text :=
  (laterFields 0 [("artifacts",
    iterencode false (.object (doc.artifacts.map fun e => (e.1, .str e.2))) 1)]).flatten ++
    (newline 0 ++ ['}'])

theorem encodeFields_headFields : encodeFields false doc.headFields 1 ≠ [] := by
  rw [encodeFields_eq]
  exact List.cons_ne_nil _ _

theorem dumps_dumpWith (links : Json) :
    dumps false (doc.dumpWith links) =
      (headChunks doc).flatten ++ (iterencode false links 1).flatten ++ tailText doc := by
  have hfields : encodeFields false (doc.headFields ++ [("links", links),
      ("artifacts", .object (doc.artifacts.map fun e => (e.1, .str e.2)))]) 1 =
      encodeFields false doc.headFields 1 ++ [("links", iterencode false links 1), ("artifacts",
        iterencode false (.object (doc.artifacts.map fun e => (e.1, .str e.2))) 1)] := by
    rw [encodeFields_eq, encodeFields_eq, List.map_append]
    rfl
  have hhead := encodeFields_headFields doc
  unfold dumps GraphDocument.dumpWith headChunks tailText
  rw [iterencode, byKey, hfields]
  cases hencoded : encodeFields false doc.headFields 1 with
  | nil => exact absurd hencoded hhead
  | cons first rest => simp [dictChunks, laterFields, fieldChunks]

theorem spells_headChunks :
    Spells (headChunks doc) (fieldStrings doc.headFields ++ ["links"]) := by
  have hfields := spells_encodeFields doc.headFields 1
  have hstrings := zip_encodeFields doc.headFields 1
  rw [← fieldStrings_eq] at hstrings
  rw [← hstrings]
  unfold headChunks
  have hlast : Spells [',' :: newline 1, encodeString "links", [':', ' ']] ["links"] := by
    refine .plain (quote_notMem_sep (by decide) 1) (.quoted ?_ (.single (by decide)))
    intro ch hch
    obtain rfl := Option.some.inj hch
    decide
  generalize hencoded : encodeFields false doc.headFields 1 = encoded at hfields
  generalize (doc.headFields.map fun field => strings field.2) = texts at hfields
  cases hfields with
  | nil => exact absurd hencoded (encodeFields_headFields doc)
  | @cons first own rest texts hfirst hrest =>
    have hlater := (spells_laterFields 0 hrest).append hlast (follows_sep 1 _)
    have hfollows : Follows (laterFields 0 rest ++
        [',' :: newline 1, encodeString "links", [':', ' ']]).flatten := by
      cases hrest with
      | nil => exact follows_sep 1 _
      | cons => exact follows_sep _ _
    have hall := (Spells.field first.1 hfirst).append hlater hfollows
    rw [List.zip_cons_cons, List.flatMap_cons, List.append_assoc]
    exact .plain (by decide) (.plain (quote_notMem_newline _) hall)

theorem headChunks_end : ∃ init, (headChunks doc).flatten = init ++ [' '] := by
  unfold headChunks
  cases hencoded : encodeFields false doc.headFields 1 with
  | nil => exact absurd hencoded (encodeFields_headFields doc)
  | cons first rest =>
    exact ⟨['{'] ++ newline 1 ++ (fieldChunks first).flatten ++ (laterFields 0 rest).flatten ++
      (',' :: newline 1) ++ encodeString "links" ++ [':'], by simp⟩

end Head

section Texts

namespace GraphDocument

def texts (doc : GraphDocument) : List String :=
  [doc.schemaVersion, doc.jobId] ++ doc.kinds.map Prod.fst ++
    [doc.contract.sourceOfTruth, doc.contract.edges, doc.contract.formulas] ++
    doc.unresolved.ids ++ doc.dynamic.ids ++ doc.external.ids ++ doc.truncated.ids ++
    doc.dangling.ids ++ doc.danglingClasses.map Prod.fst ++
    doc.cycles.flatMap (fun cycle => cycle.id :: cycle.members) ++
    doc.circularityHints.flatMap fun hint => hint.sheet :: hint.label :: hint.cellIds

end GraphDocument

def fixedTexts : List String :=
  ["schema_version", "job_id", "iterate", "nodes", "edges", "kinds", "contract", "source_of_truth",
    "formulas", "unresolved", "dynamic", "external", "truncated", "dangling", "dangling_classes",
    "cycles", "circularity_hints", "count", "ids", "id", "members", "class", "breakers",
    "iterative_ok", "unexpected", "sheet", "row", "label", "cell_ids", "links"]

theorem strings_dumpTexts (texts : List String) : strings (dumpTexts texts) = texts := by
  rw [dumpTexts, strings, itemStrings_eq, List.map_map, ← List.flatMap_def]
  exact List.flatMap_singleton' texts

theorem strings_dumpCounts (counts : List (String × ℕ)) :
    strings (dumpCounts counts) = counts.map Prod.fst := by
  rw [dumpCounts, strings, fieldStrings_eq, List.flatMap_map]
  exact List.map_eq_flatMap.symm

variable {P : String → Prop} (hfixed : ∀ s ∈ fixedTexts, P s)

include hfixed

theorem forall_idCount (found : IdCount) :
    (∀ s ∈ strings found.dump, P s) ↔ ∀ s ∈ found.ids, P s := by
  have hcount : P "count" := hfixed _ (by decide)
  have hids : P "ids" := hfixed _ (by decide)
  simp [IdCount.dump, strings, fieldStrings, strings_dumpTexts, hcount, hids]

theorem forall_headFields (doc : GraphDocument) :
    (∀ s ∈ fieldStrings doc.headFields ++ ["links"], P s) ↔ ∀ s ∈ doc.texts, P s := by
  have hcycle (cycle : CycleRecord) : (∀ s ∈ strings cycle.dump, P s) ↔
      ∀ s ∈ cycle.id :: cycle.members, P s := by
    have hname : P cycle.cycleClass.name := by
      cases cycle.cycleClass with
      | iterativeOk => exact hfixed _ (by decide)
      | unexpected => exact hfixed _ (by decide)
    have hid : P "id" := hfixed _ (by decide)
    have hmembers : P "members" := hfixed _ (by decide)
    have hclass : P "class" := hfixed _ (by decide)
    have hbreakers : P "breakers" := hfixed _ (by decide)
    simp [CycleRecord.dump, strings, fieldStrings, itemStrings, strings_dumpTexts, or_imp,
      forall_and, hname, hid, hmembers, hclass, hbreakers]
  have hhint (hint : CircularityHint) : (∀ s ∈ strings (dumpHint hint), P s) ↔
      ∀ s ∈ hint.sheet :: hint.label :: hint.cellIds, P s := by
    have hsheet : P "sheet" := hfixed _ (by decide)
    have hrow : P "row" := hfixed _ (by decide)
    have hlabel : P "label" := hfixed _ (by decide)
    have hcells : P "cell_ids" := hfixed _ (by decide)
    simp [dumpHint, strings, fieldStrings, strings_dumpTexts, hsheet, hrow, hlabel, hcells]
  have hcycles : (∀ s ∈ itemStrings (doc.cycles.map CycleRecord.dump), P s) ↔
      ∀ s ∈ doc.cycles.flatMap (fun cycle => cycle.id :: cycle.members), P s := by
    rw [itemStrings_eq, List.map_map, ← List.flatMap_def, List.forall_mem_flatMap,
      List.forall_mem_flatMap]
    exact forall₂_congr fun cycle _ => hcycle cycle
  have hhints : (∀ s ∈ itemStrings (doc.circularityHints.map dumpHint), P s) ↔
      ∀ s ∈ doc.circularityHints.flatMap (fun hint => hint.sheet :: hint.label :: hint.cellIds),
        P s := by
    rw [itemStrings_eq, List.map_map, ← List.flatMap_def, List.forall_mem_flatMap,
      List.forall_mem_flatMap]
    exact forall₂_congr fun hint _ => hhint hint
  have hkeys : ∀ field ∈ doc.headFields, P field.1 := by
    intro field hfield
    apply hfixed
    have hall : doc.headFields.map Prod.fst ⊆ fixedTexts := by
      change ["schema_version", "job_id", "iterate", "nodes", "edges", "kinds", "contract",
        "unresolved", "dynamic", "external", "truncated", "dangling", "dangling_classes",
        "cycles", "circularity_hints"] ⊆ fixedTexts
      decide
    exact hall (List.mem_map_of_mem hfield)
  have hvalues : (∀ s ∈ fieldStrings doc.headFields, P s) ↔
      ∀ field ∈ doc.headFields, ∀ s ∈ strings field.2, P s := by
    rw [fieldStrings_eq, List.forall_mem_flatMap]
    refine forall₂_congr fun field hfield => ?_
    rw [List.forall_mem_cons, and_iff_right (hkeys field hfield)]
  have hlinks : ∀ s ∈ ["links"], P s := by
    intro s hs
    rw [List.mem_singleton.mp hs]
    exact hfixed _ (by decide)
  have hcontract : (∀ s ∈ strings (.object [("source_of_truth", .str doc.contract.sourceOfTruth),
      ("edges", .str doc.contract.edges), ("formulas", .str doc.contract.formulas)]), P s) ↔
      ∀ s ∈ [doc.contract.sourceOfTruth, doc.contract.edges, doc.contract.formulas], P s := by
    have hsource : P "source_of_truth" := hfixed _ (by decide)
    have hedges : P "edges" := hfixed _ (by decide)
    have hformulas : P "formulas" := hfixed _ (by decide)
    simp [strings, fieldStrings, hsource, hedges, hformulas]
  have hone (text : String) : (∀ s ∈ strings (.str text), P s) ↔ P text := by simp [strings]
  have hnone (value : Json) (h : strings value = []) : (∀ s ∈ strings value, P s) ↔ True := by
    simp [h]
  rw [List.forall_mem_append, and_iff_left hlinks, hvalues]
  unfold GraphDocument.headFields GraphDocument.texts
  simp only [List.forall_mem_cons, List.forall_mem_append, hone, strings_dumpCounts,
    hcontract, forall_idCount hfixed, hnone (.bool doc.iterate) rfl, hnone (.int doc.nodes) rfl,
    hnone (.int doc.edges) rfl]
  rw [strings, strings, hcycles, hhints]
  simp only [List.not_mem_nil, false_implies, implies_true, and_true,
    true_and, and_assoc]

end Texts

/-- `graph.json` written around the mark is `json.dumps` of the whole document exactly when no text
before the links is the mark or ends with it after a quote. -/
theorem streamedGraphJson_iff (doc : GraphDocument) (links : List FormulaLink) :
    streamedGraphJson doc links = some (dumpedGraphJson { doc with links := links }) ↔
      ∀ s ∈ doc.texts, ¬EndsWith linksSlot.toList s := by
  have hslot : encodeString linksSlot = inQuotes linksSlot.toList := by decide
  have hall : (linksSlot.toList.all fun ch => escapeChar ch = [ch]) = true := by decide
  have hbare : ∀ ch ∈ linksSlot.toList, escapeChar ch = [ch] := fun ch hch =>
    of_decide_eq_true (List.all_eq_true.mp hall ch hch)
  have hword : Word linksSlot.toList := ⟨hbare, '_', _, rfl, by decide⟩
  have hfixed : ∀ s ∈ fixedTexts, ¬EndsWith linksSlot.toList s := by decide +kernel
  have hstreamed : dumps false (doc.dumpWith (.str linksSlot)) =
      (headChunks doc).flatten ++ inQuotes linksSlot.toList ++ tailText doc := by
    rw [dumps_dumpWith, ← hslot]
    simp [iterencode]
  have hdumped : dumps false (GraphDocument.dump { doc with links := links }) =
      (headChunks doc).flatten ++ streamedLinks links ++ tailText doc := by
    rw [streamedLinks_eq]
    exact dumps_dumpWith doc _
  have hopen : (streamedLinks links).head? = some '[' := by cases links <;> rfl
  obtain ⟨init, hinit⟩ := headChunks_end doc
  have hin : inQuotes linksSlot.toList <:+: (headChunks doc).flatten ↔
      ∃ s ∈ fieldStrings doc.headFields ++ ["links"], EndsWith linksSlot.toList s :=
    infix_spells_iff hword (spells_headChunks doc)
  have hwhere : ¬inQuotes linksSlot.toList <:+: (headChunks doc).flatten ↔
      ∀ s ∈ doc.texts, ¬EndsWith linksSlot.toList s := by
    rw [hin, ← forall_headFields hfixed doc]
    push Not
    rfl
  have hspace : ' ' ∉ linksSlot.toList := by decide
  have hlast (found : Option (Text × Text)) (text : Text) :
      (found.map fun parts => parts.1 ++ streamedLinks links ++ (parts.2 ++ ['\n'])) =
        some (text ++ ['\n']) ↔
      (found.map fun parts => parts.1 ++ streamedLinks links ++ parts.2) = some text := by
    cases found with
    | none => simp
    | some parts =>
      rw [Option.map_some, Option.map_some, Option.some.injEq, Option.some.injEq,
        ← List.append_assoc]
      exact List.append_left_inj _
  unfold streamedGraphJson dumpedGraphJson
  dsimp only
  rw [hstreamed, hdumped, hslot, hlast, ← hwhere, hinit]
  exact filled_slot_iff hspace (tailText doc) hopen

section Rendered

def lineTexts (lines : List String) : Text := lines.flatMap fun line => (line ++ "\n").toList

theorem toList_intercalate_lines (lines : List String) :
    ("\n".intercalate (lines ++ [""])).toList = lineTexts lines := by
  induction lines with
  | nil => rfl
  | cons line lines ih =>
    have hne : lines ++ [""] ≠ [] := by simp
    obtain ⟨next, rest, hnext⟩ := List.exists_cons_of_ne_nil hne
    unfold lineTexts
    rw [List.flatMap_cons, ← lineTexts, ← ih, List.cons_append, hnext,
      String.intercalate_cons_cons]
    simp

theorem renderGraphMarkdown_eq (doc : GraphDocument) :
    (renderGraphMarkdown doc).toList = lineTexts (titleLines doc) ++ linkCount doc.links.length ++
      lineTexts (sectionLines doc) ++ lineTexts (doc.links.map linkRow) := by
  have hbar (cells : List String) : (axisRow cells).toList.getLast? = some '|' := by
    rw [axisRow, String.toList_append, List.getLast?_append]
    rfl
  let lines := titleLines doc ++ ["- Links: " ++ toString doc.links.length] ++ sectionLines doc ++
    doc.links.map linkRow
  have hlast : ∃ line, lines.getLast? = some line ∧ line.toList.getLast? = some '|' := by
    by_cases hlinks : doc.links = []
    · refine ⟨"| --- | --- | --- | --- | --- | --- |", ?_, by decide⟩
      simp only [lines, hlinks, List.map_nil, List.append_nil, sectionLines]
      rw [List.getLast?_append, List.getLast?_append]
      rfl
    · obtain ⟨front, link, hfront⟩ := (List.eq_nil_or_concat doc.links).resolve_left hlinks
      refine ⟨linkRow link, ?_, hbar _⟩
      have hrows : doc.links.map linkRow = front.map linkRow ++ [linkRow link] := by
        rw [hfront, List.concat_eq_append, List.map_append]
        rfl
      simp only [lines, hrows]
      rw [← List.append_assoc, List.getLast?_concat]
  obtain ⟨line, hline, hend⟩ := hlast
  have hclosed : Closed isSpace (lines ++ [""]) := closed_concat hline hend (by decide)
  have hrender : renderGraphMarkdown doc = "\n".intercalate (lines ++ [""]) :=
    stripEnd_intercalate (by decide) hclosed
  have hcount : lineTexts ["- Links: " ++ toString doc.links.length] =
      linkCount doc.links.length := by
    simp [lineTexts, linkCount]
  rw [hrender, toList_intercalate_lines, ← hcount]
  simp only [lines, lineTexts, List.flatMap_append]

theorem replaceFirst_iff {init : Text} (n : ℕ) (suffix rest : Text) :
    replaceFirst (linkCount 0) (linkCount n) (init ++ ['\n'] ++ linkCount 0 ++ suffix) ++ rest =
        init ++ ['\n'] ++ linkCount n ++ suffix ++ rest ↔
      n = 0 ∨ ¬linkCount 0 <:+: init ++ ['\n'] := by
  have htitle (m : ℕ) : linkCount m = "- Links: ".toList ++ ((toString m).toList ++ ['\n']) := by
    simp [linkCount]
  constructor
  · intro h
    by_contra hnot
    obtain ⟨hn, hin⟩ := not_or.mp hnot
    obtain ⟨x, y, hxy⟩ := not_not.mp hin
    have hsome : (splitFirst (linkCount 0)
        (init ++ ['\n'] ++ linkCount 0 ++ suffix)).isSome := splitFirst_isSome rfl
    obtain ⟨⟨a, b⟩, hsplit⟩ := Option.isSome_iff_exists.mp hsome
    have htext := append_of_splitFirst hsplit
    have hxtext : init ++ ['\n'] ++ linkCount 0 ++ suffix =
        x ++ linkCount 0 ++ (y ++ linkCount 0 ++ suffix) := by
      rw [← hxy]
      simp
    have hle : a.length ≤ x.length := splitFirst_first hsplit hxtext
    unfold replaceFirst at h
    rw [hsplit] at h
    dsimp only at h
    have hwithin : a ++ linkCount 0 <+: init ++ ['\n'] := by
      have hlength : (a ++ linkCount 0).length ≤ (init ++ ['\n']).length := by
        have hsize := congrArg List.length hxy
        simp only [List.length_append] at hsize ⊢
        omega
      apply List.prefix_of_prefix_length_le ⟨b, htext.symm⟩ ⟨linkCount 0 ++ suffix, ?_⟩ hlength
      rw [← List.append_assoc]
    obtain ⟨t, ht⟩ := hwithin
    rw [← ht] at h
    have hcounts : a ++ (linkCount n ++ (b ++ rest)) =
        a ++ (linkCount 0 ++ (t ++ linkCount n ++ suffix ++ rest)) := by
      simpa using h
    replace hcounts := List.append_cancel_left hcounts
    rw [htitle n, htitle 0, List.append_assoc, List.append_assoc] at hcounts
    have hdigits := List.append_cancel_left hcounts
    simp only [List.append_assoc, List.singleton_append] at hdigits
    have hnone (m : ℕ) : '\n' ∉ (toString m).toList := fun hmem =>
      absurd (isDigit_toString hmem).1 (by decide)
    have hsame := (append_sep_inj (hnone n) (hnone 0) hdigits).1
    exact hn (toString_nat_inj hsame)
  · rintro (rfl | hnot)
    · unfold replaceFirst
      cases hsplit : splitFirst (linkCount 0) (init ++ ['\n'] ++ linkCount 0 ++ suffix) with
      | none => rfl
      | some parts => rw [append_of_splitFirst hsplit]
    · have hinside : '\n' ∉ (linkCount 0).dropLast := by decide
      unfold replaceFirst
      rw [splitFirst_after hinside suffix hnot]

theorem infix_titleLines (doc : GraphDocument) :
    linkCount 0 <:+: lineTexts (titleLines doc) ↔
      linkCount 0 <:+: doc.schemaVersion.toList ∨ linkCount 0 <:+: doc.jobId.toList := by
  have hletter {text : Text} (h : 'k' ∉ text) : ¬linkCount 0 <:+: text := by
    intro hin
    exact h (hin.subset (by decide))
  have htick : '`' ∉ linkCount 0 := by decide
  have hdigits (n : ℕ) : 'k' ∉ Nat.toDigits 10 n := by
    intro h
    rw [← Nat.toList_repr] at h
    exact absurd (isDigit_toString h).2 (by decide)
  let last := lineTexts ["", "- Nodes: " ++ toString doc.nodes, "- Edges: " ++ toString doc.edges,
    "- Iterate: " ++ if doc.iterate then "true" else "false"]
  have hlast : 'k' ∉ last := by
    cases hiterate : doc.iterate <;> simp [last, lineTexts, hdigits, hiterate]
  have htitle : lineTexts (titleLines doc) = "# Formula graph\n\n- Schema: ".toList ++
      '`' :: (doc.schemaVersion.toList ++ '`' :: ("\n- Job: ".toList ++
        '`' :: (doc.jobId.toList ++ '`' :: last))) := by
    simp [last, lineTexts, titleLines]
  have hfirst : ¬linkCount 0 <:+: "# Formula graph\n\n- Schema: ".toList := hletter (by decide)
  have hjob : ¬linkCount 0 <:+: "\n- Job: ".toList := hletter (by decide)
  rw [htitle, infix_cons_sep_iff htick, infix_cons_sep_iff htick, infix_cons_sep_iff htick,
    infix_cons_sep_iff htick, or_iff_right hfirst, or_iff_right hjob, or_iff_left (hletter hlast)]

theorem streamedGraphMarkdown_iff (doc : GraphDocument) (links : List FormulaLink) :
    streamedGraphMarkdown { doc with links := [] } links =
        (renderGraphMarkdown { doc with links := links }).toList ↔
      links = [] ∨ ¬linkCount 0 <:+: doc.schemaVersion.toList ∧
        ¬linkCount 0 <:+: doc.jobId.toList := by
  have hend : ∃ init, lineTexts (titleLines doc) = init ++ ['\n'] := by
    refine ⟨lineTexts (titleLines doc).dropLast ++
      ("- Iterate: " ++ if doc.iterate then "true" else "false").toList, ?_⟩
    simp [lineTexts, titleLines]
  obtain ⟨init, hinit⟩ := hend
  have hrows : (links.flatMap fun link => (linkRow link ++ "\n").toList) =
      lineTexts (links.map linkRow) := by
    unfold lineTexts
    rw [List.flatMap_map]
  have hreplace : replaceFirst (linkCount 0) (linkCount links.length)
      (lineTexts (titleLines doc) ++ linkCount 0 ++ lineTexts (sectionLines doc)) ++
        lineTexts (links.map linkRow) =
      lineTexts (titleLines doc) ++ linkCount links.length ++ lineTexts (sectionLines doc) ++
        lineTexts (links.map linkRow) ↔
      links.length = 0 ∨ ¬linkCount 0 <:+: lineTexts (titleLines doc) := by
    rw [hinit]
    exact replaceFirst_iff links.length _ _
  have hempty : lineTexts (([] : List FormulaLink).map linkRow) = [] := rfl
  unfold streamedGraphMarkdown
  rw [renderGraphMarkdown_eq, renderGraphMarkdown_eq, hrows]
  dsimp only
  rw [hempty, List.append_nil, ← not_or, ← infix_titleLines, ← List.length_eq_zero_iff]
  exact hreplace

end Rendered

/-- The files written around the mark are those of the whole document exactly when no text before
the links ends with the mark, and no line before the count of links reads like it. -/
theorem graph_files_streamed_iff (doc : GraphDocument) (links : List FormulaLink) :
    streamedGraphFiles { doc with links := [] } links =
        some (dumpedGraphFiles { doc with links := links }) ↔
      (∀ s ∈ doc.texts, ¬EndsWith linksSlot.toList s) ∧
        (links = [] ∨ ¬linkCount 0 <:+: doc.schemaVersion.toList ∧
          ¬linkCount 0 <:+: doc.jobId.toList) := by
  have hboth (found : Option Text) (json md md' : Text) :
      (found.map fun text => (text, md)) = some (json, md') ↔ found = some json ∧ md = md' := by
    cases found <;> simp
  have hjson := streamedGraphJson_iff doc links
  unfold streamedGraphFiles dumpedGraphFiles
  rw [hboth, streamedGraphMarkdown_iff, ← hjson]
  rfl

end FinanceContext
