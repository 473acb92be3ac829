import FinanceContext.JsonReading
import FinanceContext.JsonUpdates
import Mathlib.Data.String.Basic

/-!
Documents in files: what the writer stores of one, what `json.loads` makes of any text, and what is
stored again of what was read.
-/

namespace FinanceContext.JsonStream

open Dictionaries

section Written

variable (sortKeys : Bool)

theorem loads_dumps {value : Json} (h : Distinct value) :
    loads (dumps sortKeys value ++ ['\n']) = some (arranged sortKeys value) := by
  have hstops : Stops ['\n'] := stops_newline 0 []
  have hread := reads_iterencode sortKeys value 0 h ((dumps sortKeys value ++ ['\n']).length + 1)
    ['\n'] (by rw [dumps, List.length_append]; omega) hstops
  have hread : readValue ((dumps sortKeys value ++ ['\n']).length + 1)
      (dumps sortKeys value ++ ['\n']) = some (arranged sortKeys value, ['\n']) := hread
  rw [loads, (skipBlanks_of_readValue hread).1, hread, Option.bind_some]
  exact if_pos rfl

theorem byKey_byKey {α : Type} (fields : List (String × α)) :
    byKey sortKeys (byKey sortKeys fields) = byKey sortKeys fields := by
  cases sortKeys with
  | false => rfl
  | true =>
    let r : String × α → String × α → Prop := fun a b => a.1 ≤ b.1
    have htotal : Std.Total r := ⟨fun a b => le_total a.1 b.1⟩
    have htrans : IsTrans (String × α) r := ⟨fun a b c hab hbc => le_trans hab hbc⟩
    exact List.Pairwise.insertionSort_eq (List.pairwise_insertionSort r fields)

mutual

theorem iterencode_arranged : ∀ (value : Json) (level : ℕ),
    iterencode sortKeys (arranged sortKeys value) level = iterencode sortKeys value level
  | .null, _ => rfl
  | .bool _, _ => rfl
  | .int _, _ => rfl
  | .str _, _ => rfl
  | .array items, level => by
    rw [arranged, iterencode, iterencode, encodeItems_arranged items (level + 1)]
  | .object fields, level => by
    rw [arranged, iterencode, iterencode, encodeFields_eq,
      byKey_map sortKeys fun value => iterencode sortKeys value (level + 1), byKey_byKey]
    rw [← encodeFields_eq, encodeFields_arranged fields (level + 1)]

theorem encodeItems_arranged : ∀ (items : List Json) (level : ℕ),
    encodeItems sortKeys (arrangedItems sortKeys items) level = encodeItems sortKeys items level
  | [], _ => rfl
  | item :: items, level => by
    rw [arrangedItems, encodeItems, encodeItems, iterencode_arranged item level,
      encodeItems_arranged items level]

theorem encodeFields_arranged : ∀ (fields : List (String × Json)) (level : ℕ),
    encodeFields sortKeys (arrangedFields sortKeys fields) level =
      encodeFields sortKeys fields level
  | [], _ => rfl
  | (key, item) :: fields, level => by
    rw [arrangedFields, encodeFields, encodeFields, iterencode_arranged item level,
      encodeFields_arranged fields level]

end

mutual

theorem arranged_false : ∀ value : Json, arranged false value = value
  | .null => rfl
  | .bool _ => rfl
  | .int _ => rfl
  | .str _ => rfl
  | .array items => by rw [arranged, arrangedItems_false items]
  | .object fields => by
    rw [arranged, arrangedFields_false fields]
    rfl

theorem arrangedItems_false : ∀ items : List Json, arrangedItems false items = items
  | [] => rfl
  | item :: items => by rw [arrangedItems, arranged_false item, arrangedItems_false items]

theorem arrangedFields_false : ∀ fields : List (String × Json), arrangedFields false fields = fields
  | [] => rfl
  | (key, item) :: fields => by
    rw [arrangedFields, arranged_false item, arrangedFields_false fields]

end

mutual

/-- A document without `JsonItems`. -/
def ofJson : Json → Doc
  | .null => .null
  | .bool value => .bool value
  | .int value => .int value
  | .str value => .str value
  | .array items => .array (ofItems items)
  | .object fields => .object (ofFields fields)

def ofItems : List Json → List Doc
  | [] => []
  | item :: items => ofJson item :: ofItems items

def ofFields : List (String × Json) → List (String × Doc)
  | [] => []
  | (key, item) :: fields => (key, ofJson item) :: ofFields fields

end

mutual

theorem expand_ofJson : ∀ value : Json, expand (ofJson value) = value
  | .null => rfl
  | .bool _ => rfl
  | .int _ => rfl
  | .str _ => rfl
  | .array items => by rw [ofJson, expand, expand_ofItems items]
  | .object fields => by rw [ofJson, expand, expand_ofFields fields]

theorem expand_ofItems : ∀ items : List Json, expandItems (ofItems items) = items
  | [] => rfl
  | item :: items => by rw [ofItems, expandItems, expand_ofJson item, expand_ofItems items]

theorem expand_ofFields : ∀ fields : List (String × Json), expandFields (ofFields fields) = fields
  | [] => rfl
  | (key, item) :: fields => by
    rw [ofFields, expandFields, expand_ofJson item, expand_ofFields fields]

end

/-- The text `write_json` and `stream_json` put in the file. -/
def fileText (doc : Doc) : Option Text :=
  (iterJson sortKeys doc 0).map fun pieces => pieces.flatten ++ ['\n']

theorem fileText_eq (doc : Doc) :
    fileText sortKeys doc = some (dumps sortKeys (expand doc) ++ ['\n']) := by
  obtain ⟨pieces, hpieces, htext⟩ := iterJson_text sortKeys doc 0
  rw [fileText, hpieces, Option.map_some, htext]
  rfl

/-- What is stored of a document is read as the document with its fields in the order of the text,
and what was read is stored as the same text again. -/
theorem file_round_trip (doc : Doc) (h : Distinct (expand doc)) :
    (fileText sortKeys doc).bind loads = some (arranged sortKeys (expand doc)) ∧
      fileText sortKeys (ofJson (arranged sortKeys (expand doc))) = fileText sortKeys doc := by
  constructor
  · rw [fileText_eq, Option.bind_some, loads_dumps sortKeys h]
  · rw [fileText_eq, fileText_eq, expand_ofJson, dumps, iterencode_arranged]
    rfl

def tableDoc : Doc :=
  .object [("rows", .lazyItems [.object [("n", .int (-3)), ("id", .str "a\"\n")], .array []]),
    ("count", .int 10)]

theorem file_round_trip_table :
    (fileText true tableDoc).bind loads = some (arranged true (expand tableDoc)) ∧
      fileText true (ofJson (arranged true (expand tableDoc))) = fileText true tableDoc :=
  file_round_trip true tableDoc (by
    simp [tableDoc, expand, expandFields, expandItems, Distinct, DistinctFields, DistinctItems])

end Written

section Accepted

theorem distinctFields_iff {fields : List (String × Json)} :
    DistinctFields fields ↔ ∀ field ∈ fields, Distinct field.2 := by
  induction fields with
  | nil => simp [DistinctFields]
  | cons field fields ih =>
    obtain ⟨key, item⟩ := field
    rw [DistinctFields, ih, List.forall_mem_cons]

theorem distinct_readConstant {word text : Text} {value : Json} (h : Distinct value)
    {found : Json × Text} (hread : readConstant word value text = some found) :
    Distinct found.1 := by
  unfold readConstant at hread
  split_ifs at hread
  obtain rfl := Option.some.inj hread
  exact h

theorem distinct_readNumber {text : Text} {found : Json × Text}
    (hread : readNumber text = some found) : Distinct found.1 := by
  obtain ⟨value, -, hvalue⟩ := Option.bind_eq_some_iff.mp hread
  split_ifs at hvalue
  obtain rfl := Option.some.inj hvalue
  trivial

theorem distinct_read (fuel : ℕ) :
    (∀ text found, readValue fuel text = some found → Distinct found.1) ∧
      (∀ text found, readItems fuel text = some found → DistinctItems found.1) ∧
      (∀ text found, readFields fuel text = some found → DistinctFields found.1) := by
  induction fuel with
  | zero =>
    refine ⟨fun _ _ h => ?_, fun _ _ h => ?_, fun _ _ h => ?_⟩
    · rw [readValue] at h
      cases h
    · rw [readItems] at h
      cases h
    · rw [readFields] at h
      cases h
  | succ fuel ih =>
    obtain ⟨hvalue, hitems, hfields⟩ := ih
    refine ⟨fun text found h => ?_, fun text found h => ?_, fun text found h => ?_⟩
    · cases text with
      | nil =>
        rw [readValue] at h
        cases h
      | cons ch rest =>
        rw [readValue] at h
        split_ifs at h
        · obtain ⟨text, -, rfl⟩ := Option.map_eq_some_iff.mp h
          trivial
        · obtain rfl := Option.some.inj h
          exact ⟨List.nodup_nil, trivial⟩
        · obtain ⟨read, hread, rfl⟩ := Option.map_eq_some_iff.mp h
          refine ⟨nodup_keys_filled read.1, distinctFields_iff.mpr fun field hfield => ?_⟩
          exact distinctFields_iff.mp (hfields _ _ hread) field (mem_of_mem_filled hfield)
        · obtain rfl := Option.some.inj h
          trivial
        · obtain ⟨read, hread, rfl⟩ := Option.map_eq_some_iff.mp h
          exact hitems _ _ hread
        · exact distinct_readConstant (show Distinct Json.null from trivial) h
        · exact distinct_readConstant (show Distinct (Json.bool true) from trivial) h
        · exact distinct_readConstant (show Distinct (Json.bool false) from trivial) h
        · exact distinct_readNumber h
    · rw [readItems] at h
      obtain ⟨item, hitem, hrest⟩ := Option.bind_eq_some_iff.mp h
      split at hrest
      · obtain rfl := Option.some.inj hrest
        exact ⟨hvalue _ _ hitem, trivial⟩
      · obtain ⟨read, hread, rfl⟩ := Option.map_eq_some_iff.mp hrest
        exact ⟨hvalue _ _ hitem, hitems _ _ hread⟩
      · cases hrest
    · unfold readFields at h
      split at h
      · obtain ⟨key, -, hrest⟩ := Option.bind_eq_some_iff.mp h
        split at hrest
        · obtain ⟨item, hitem, hrest⟩ := Option.bind_eq_some_iff.mp hrest
          split at hrest
          · obtain rfl := Option.some.inj hrest
            exact ⟨hvalue _ _ hitem, trivial⟩
          · obtain ⟨read, hread, rfl⟩ := Option.map_eq_some_iff.mp hrest
            exact ⟨hvalue _ _ hitem, hfields _ _ hread⟩
          · cases hrest
        · cases hrest
      · cases h

theorem distinct_loads {text : Text} {value : Json} (h : loads text = some value) :
    Distinct value := by
  obtain ⟨found, hfound, hvalue⟩ := Option.bind_eq_some_iff.mp h
  split_ifs at hvalue
  obtain rfl := Option.some.inj hvalue
  exact (distinct_read _).1 _ _ hfound

end Accepted

section Updates

open LockedFiles

/-- A dictionary as `json.loads` gives it. -/
structure Document where
  fields : List (String × Json)
  distinct : Distinct (.object fields)

def Document.json (d : Document) : Json := .object d.fields

def parseDocument (text : Text) : Option Document :=
  match h : loads text with
  | some (.object fields) => some ⟨fields, distinct_loads h⟩
  | _ => none

def printDocument (d : Document) : Text := (fileText false (ofJson d.json)).getD []

theorem parseDocument_print (d : Document) : parseDocument (printDocument d) = some d := by
  have hprint : printDocument d = dumps false d.json ++ ['\n'] := by
    rw [printDocument, fileText_eq, expand_ofJson, Option.getD_some]
  have hread : loads (printDocument d) = some (.object d.fields) := by
    have hloads := loads_dumps false d.distinct
    rw [arranged_false] at hloads
    rw [hprint]
    exact hloads
  unfold parseDocument
  split
  · next fields h =>
    obtain rfl : d.fields = fields := Json.object.inj (Option.some.inj (hread.symm.trans h))
    rfl
  · next h => exact absurd hread (h d.fields)

def jsonCodec : DocumentCodec Document Char := ⟨printDocument, parseDocument, parseDocument_print⟩

def emptyDocument : Document := ⟨[], List.nodup_nil, trivial⟩

variable {ι E : Type} [DecidableEq ι] (mutate : ι → E → Document → Option Document)

/-- The calls on a file of JSON text, with the texts as they are written and read. -/
theorem json_updates_serial (es : List (LockedFiles.Event ι E)) (first : Option Text) :
    let s := run (updateJson jsonCodec emptyDocument mutate) es first
    jsonCodec.document s.content =
        afterCalls emptyDocument mutate s.log (jsonCodec.document first) ∧
      (s.content = first ∨ ∃ d, s.content = some (printDocument d)) ∧
      (s.log.map (·.caller)).Nodup ∧
      ∀ i, s.phase i = .finished → ∃ entry ∈ s.log, entry.caller = i :=
  updates_serial jsonCodec emptyDocument mutate es first

end Updates

end FinanceContext.JsonStream
