import FinanceContext.Addresses
import Mathlib.Data.List.Sort
import Mathlib.Order.Lattice

namespace FinanceContext.JsonStream

abbrev Text := List Char

abbrev Chunks := List Text

inductive Json where
  | null
  | bool (value : Bool)
  | int (value : ℤ)
  | str (value : String)
  | array (items : List Json)
  | object (fields : List (String × Json))

/-- A document in which `JsonItems` stand for the items their factory yields. -/
inductive Doc where
  | null
  | bool (value : Bool)
  | int (value : ℤ)
  | str (value : String)
  | array (items : List Doc)
  | object (fields : List (String × Doc))
  | lazyItems (made : List Doc)

/-- `sorted` of the items of a dictionary; its keys are distinct, so the values never matter. -/
def byKey {α : Type} (sortKeys : Bool) (fields : List (String × α)) : List (String × α) :=
  if sortKeys then fields.insertionSort fun a b => a.1 ≤ b.1 else fields

def newline (level : ℕ) : Text := '\n' :: List.replicate (2 * level) ' '

/-- The replacements of the encoder with `ensure_ascii=False`. -/
def escapeChar (ch : Char) : Text :=
  if ch = '"' then ['\\', '"']
  else if ch = '\\' then ['\\', '\\']
  else if ch = '\n' then ['\\', 'n']
  else if ch = '\r' then ['\\', 'r']
  else if ch = '\t' then ['\\', 't']
  else if ch.toNat = 12 then ['\\', 'f']
  else if ch.toNat = 8 then ['\\', 'b']
  else if ch.toNat < 32 then
    ['\\', 'u', '0', '0', Nat.digitChar (ch.toNat / 16), Nat.digitChar (ch.toNat % 16)]
  else [ch]

def encodeString (text : String) : Text := '"' :: text.toList.flatMap escapeChar ++ ['"']

section Dumps

def listChunks (level : ℕ) : List Chunks → Chunks
  | [] => [['[', ']']]
  | first :: rest => ('[' :: newline (level + 1)) :: first ++
      rest.flatMap (fun item => (',' :: newline (level + 1)) :: item) ++ [newline level, [']']]

def fieldChunks (field : String × Chunks) : Chunks :=
  encodeString field.1 :: [':', ' '] :: field.2

def dictChunks (level : ℕ) : List (String × Chunks) → Chunks
  | [] => [['{', '}']]
  | first :: rest => ['{'] :: newline (level + 1) :: fieldChunks first ++
      rest.flatMap (fun field => (',' :: newline (level + 1)) :: fieldChunks field) ++
        [newline level, ['}']]

variable (sortKeys : Bool)

mutual

/-- `iterencode` of the standard encoder with an indent of two. -/
def iterencode : Json → ℕ → Chunks
  | .null, _ => [['n', 'u', 'l', 'l']]
  | .bool true, _ => [['t', 'r', 'u', 'e']]
  | .bool false, _ => [['f', 'a', 'l', 's', 'e']]
  | .int value, _ => [(toString value).toList]
  | .str value, _ => [encodeString value]
  | .array items, level => listChunks level (encodeItems items (level + 1))
  | .object fields, level => dictChunks level (byKey sortKeys (encodeFields fields (level + 1)))

def encodeItems : List Json → ℕ → List Chunks
  | [], _ => []
  | item :: items, level => iterencode item level :: encodeItems items level

def encodeFields : List (String × Json) → ℕ → List (String × Chunks)
  | [], _ => []
  | (key, item) :: fields, level => (key, iterencode item level) :: encodeFields fields level

end

def dumps (value : Json) : Text := (iterencode sortKeys value 0).flatten

end Dumps

section Writer

mutual

def holdsItems : Doc → Bool
  | .lazyItems _ => true
  | .object fields => anyField fields
  | .array items => anyItem items
  | .null | .bool _ | .int _ | .str _ => false

def anyItem : List Doc → Bool
  | [] => false
  | item :: items => holdsItems item || anyItem items

def anyField : List (String × Doc) → Bool
  | [] => false
  | (_, item) :: fields => holdsItems item || anyField fields

end

mutual

/-- What the standard encoder is given: a `JsonItems` is no JSON value and raises an error. -/
def plain : Doc → Option Json
  | .null => some .null
  | .bool value => some (.bool value)
  | .int value => some (.int value)
  | .str value => some (.str value)
  | .array items => (plainItems items).map .array
  | .object fields => (plainFields fields).map .object
  | .lazyItems _ => none

def plainItems : List Doc → Option (List Json)
  | [] => some []
  | item :: items => (plain item).bind fun json => (plainItems items).map (json :: ·)

def plainFields : List (String × Doc) → Option (List (String × Json))
  | [] => some []
  | (key, item) :: fields =>
    (plain item).bind fun json => (plainFields fields).map ((key, json) :: ·)

end

/-- `chunk.replace("\n", pad)`. -/
def indentChunk (level : ℕ) (chunk : Text) : Text :=
  chunk.flatMap fun ch => if ch = '\n' then newline level else [ch]

/-- `_iter_array` around what is written of each item. -/
def iterArray (level : ℕ) : Bool → List Chunks → Chunks
  | opened, [] => [if opened then newline level ++ [']'] else ['[', ']']]
  | opened, item :: items =>
    ((if opened then ',' else '[') :: newline (level + 1)) :: item ++ iterArray level true items

/-- `_iter_object` around what is written of each value, in order. -/
def iterObject (level : ℕ) : ℕ → List (String × Chunks) → Chunks
  | _, [] => [newline level ++ ['}']]
  | index, field :: fields =>
    ((if index = 0 then '{' else ',') :: newline (level + 1) ++ encodeString field.1 ++ [':', ' '])
      :: field.2 ++ iterObject level (index + 1) fields

variable (sortKeys : Bool)

/-- The branch without `JsonItems`. -/
def encodeAt (value : Doc) (level : ℕ) : Option Chunks :=
  (plain value).map fun json =>
    (iterencode sortKeys json 0).map fun chunk =>
      if level = 0 then chunk else indentChunk level chunk

mutual

def iterJson : Doc → ℕ → Option Chunks
  | .lazyItems made, level => (iterItems made (level + 1)).map (iterArray level false)
  | .object fields, level =>
    if holdsItems (.object fields) then
      (iterFields fields (level + 1)).map fun written =>
        iterObject level 0 (byKey sortKeys written)
    else encodeAt sortKeys (.object fields) level
  | .array items, level =>
    if holdsItems (.array items) then (iterItems items (level + 1)).map (iterArray level false)
    else encodeAt sortKeys (.array items) level
  | .null, level => encodeAt sortKeys .null level
  | .bool value, level => encodeAt sortKeys (.bool value) level
  | .int value, level => encodeAt sortKeys (.int value) level
  | .str value, level => encodeAt sortKeys (.str value) level

def iterItems : List Doc → ℕ → Option (List Chunks)
  | [], _ => some []
  | item :: items, level =>
    (iterJson item level).bind fun written => (iterItems items level).map (written :: ·)

def iterFields : List (String × Doc) → ℕ → Option (List (String × Chunks))
  | [], _ => some []
  | (key, item) :: fields, level =>
    (iterJson item level).bind fun written =>
      (iterFields fields level).map ((key, written) :: ·)

end

end Writer

section Expansion

mutual

/-- The document with the items of every `JsonItems` in their place. -/
def expand : Doc → Json
  | .null => .null
  | .bool value => .bool value
  | .int value => .int value
  | .str value => .str value
  | .array items => .array (expandItems items)
  | .object fields => .object (expandFields fields)
  | .lazyItems made => .array (expandItems made)

def expandItems : List Doc → List Json
  | [] => []
  | item :: items => expand item :: expandItems items

def expandFields : List (String × Doc) → List (String × Json)
  | [] => []
  | (key, item) :: fields => (key, expand item) :: expandFields fields

end

end Expansion

section Newlines

theorem newline_notMem_escapeChar (ch : Char) : '\n' ∉ escapeChar ch := by
  unfold escapeChar
  split_ifs with _ _ hnewline _ _ _ _ hcontrol
  all_goals try decide
  · have hdigit : ∀ n < 16, '\n' ≠ Nat.digitChar n := by decide
    have hhigh := hdigit (ch.toNat / 16) (by omega)
    have hlow := hdigit (ch.toNat % 16) (by omega)
    simp [hhigh, hlow]
  · simp [Ne.symm hnewline]

theorem newline_notMem_encodeString (text : String) : '\n' ∉ encodeString text := by
  unfold encodeString
  simp [newline_notMem_escapeChar]

theorem newline_notMem_toString (value : ℤ) : '\n' ∉ (toString value).toList := by
  have hdigits (n : ℕ) : '\n' ∉ (toString n).toList := fun h =>
    absurd (isDigit_toString h).1 (by decide)
  cases value with
  | ofNat n => exact hdigits n
  | negSucc n =>
    have hsign : (toString (Int.negSucc n)).toList = '-' :: (toString (n + 1)).toList := by
      change (("-" : String) ++ toString (n + 1)).toList = _
      rw [String.toList_append]
      rfl
    rw [hsign, List.mem_cons]
    rintro (h | h)
    · exact absurd h (by decide)
    · exact hdigits (n + 1) h

theorem indentChunk_of_notMem {level : ℕ} {chunk : Text} (h : '\n' ∉ chunk) :
    indentChunk level chunk = chunk := by
  unfold indentChunk
  induction chunk with
  | nil => rfl
  | cons ch chunk ih =>
    obtain ⟨hch, hrest⟩ := not_or.mp (mt List.mem_cons.mpr h)
    rw [List.flatMap_cons, if_neg (Ne.symm hch), ih hrest]
    rfl

theorem indentChunk_append (level : ℕ) (a b : Text) :
    indentChunk level (a ++ b) = indentChunk level a ++ indentChunk level b :=
  List.flatMap_append

theorem indentChunk_newline (level k : ℕ) :
    indentChunk level (newline k) = newline (level + k) := by
  have hspaces : '\n' ∉ List.replicate (2 * k) ' ' := by
    intro h
    exact absurd (List.eq_of_mem_replicate h) (by decide)
  have hsplit : newline k = ['\n'] ++ List.replicate (2 * k) ' ' := rfl
  rw [hsplit, indentChunk_append, indentChunk_of_notMem hspaces]
  have hfirst : indentChunk level ['\n'] = newline level := by simp [indentChunk]
  rw [hfirst, newline, newline, List.cons_append, List.replicate_append_replicate, Nat.mul_add]

theorem indentChunk_cons {level : ℕ} {ch : Char} (h : ch ≠ '\n') (chunk : Text) :
    indentChunk level (ch :: chunk) = ch :: indentChunk level chunk := by
  simp [indentChunk, h]

theorem indent_listChunks (level k : ℕ) (items : List Chunks) :
    (listChunks k items).map (indentChunk level) =
      listChunks (level + k) (items.map (List.map (indentChunk level))) := by
  have hopen (ch : Char) (h : ch ≠ '\n') :
      indentChunk level (ch :: newline (k + 1)) = ch :: newline (level + k + 1) := by
    rw [indentChunk_cons h, indentChunk_newline, Nat.add_assoc]
  have hclose : indentChunk level [']'] = [']'] := indentChunk_of_notMem (by decide)
  cases items with
  | nil =>
    have hempty : indentChunk level ['[', ']'] = ['[', ']'] := indentChunk_of_notMem (by decide)
    simp [listChunks, hempty]
  | cons first rest =>
    simp only [listChunks, List.map_cons, List.map_append, List.map_nil, List.map_flatMap,
      List.flatMap_map, hopen '[' (by decide), hopen ',' (by decide), hclose,
      indentChunk_newline]

theorem indent_dictChunks (level k : ℕ) (fields : List (String × Chunks)) :
    (dictChunks k fields).map (indentChunk level) =
      dictChunks (level + k)
        (fields.map fun field => (field.1, field.2.map (indentChunk level))) := by
  have hnext : indentChunk level (',' :: newline (k + 1)) = ',' :: newline (level + k + 1) := by
    rw [indentChunk_cons (by decide), indentChunk_newline, Nat.add_assoc]
  have hclose : indentChunk level ['}'] = ['}'] := indentChunk_of_notMem (by decide)
  have hopen : indentChunk level ['{'] = ['{'] := indentChunk_of_notMem (by decide)
  have hfield (field : String × Chunks) : (fieldChunks field).map (indentChunk level) =
      fieldChunks (field.1, field.2.map (indentChunk level)) := by
    have hcolon : indentChunk level [':', ' '] = [':', ' '] :=
      indentChunk_of_notMem (by decide)
    simp only [fieldChunks, List.map_cons, hcolon,
      indentChunk_of_notMem (newline_notMem_encodeString field.1)]
  cases fields with
  | nil =>
    have hempty : indentChunk level ['{', '}'] = ['{', '}'] := indentChunk_of_notMem (by decide)
    simp [dictChunks, hempty]
  | cons first rest =>
    simp only [dictChunks, List.map_cons, List.map_append, List.map_nil, List.map_flatMap,
      List.flatMap_map, hopen, hnext, hclose, hfield, indentChunk_newline, Nat.add_assoc]

theorem byKey_map {α β : Type} (sortKeys : Bool) (f : α → β) (fields : List (String × α)) :
    (byKey sortKeys fields).map (fun field => (field.1, f field.2)) =
      byKey sortKeys (fields.map fun field => (field.1, f field.2)) := by
  unfold byKey
  cases sortKeys with
  | false => rfl
  | true => exact List.map_insertionSort _ _ _ _ fun _ _ _ _ => Iff.rfl

variable (sortKeys : Bool)

mutual

theorem indent_iterencode : ∀ (value : Json) (level k : ℕ),
    (iterencode sortKeys value k).map (indentChunk level) = iterencode sortKeys value (level + k)
  | .null, level, k => by
    simp only [iterencode, List.map_cons, List.map_nil]
    rw [indentChunk_of_notMem (by decide)]
  | .bool true, level, k => by
    simp only [iterencode, List.map_cons, List.map_nil]
    rw [indentChunk_of_notMem (by decide)]
  | .bool false, level, k => by
    simp only [iterencode, List.map_cons, List.map_nil]
    rw [indentChunk_of_notMem (by decide)]
  | .int value, level, k => by
    simp only [iterencode, List.map_cons, List.map_nil]
    rw [indentChunk_of_notMem (newline_notMem_toString value)]
  | .str value, level, k => by
    simp only [iterencode, List.map_cons, List.map_nil]
    rw [indentChunk_of_notMem (newline_notMem_encodeString value)]
  | .array items, level, k => by
    simp only [iterencode]
    rw [indent_listChunks, indent_encodeItems items level (k + 1)]
    rfl
  | .object fields, level, k => by
    simp only [iterencode]
    rw [indent_dictChunks, byKey_map sortKeys (List.map (indentChunk level)),
      indent_encodeFields fields level (k + 1)]
    rfl

theorem indent_encodeItems : ∀ (items : List Json) (level k : ℕ),
    (encodeItems sortKeys items k).map (List.map (indentChunk level)) =
      encodeItems sortKeys items (level + k)
  | [], level, k => rfl
  | item :: items, level, k => by
    simp only [encodeItems, List.map_cons]
    rw [indent_iterencode item level k, indent_encodeItems items level k]

theorem indent_encodeFields : ∀ (fields : List (String × Json)) (level k : ℕ),
    (encodeFields sortKeys fields k).map
        (fun field => (field.1, field.2.map (indentChunk level))) =
      encodeFields sortKeys fields (level + k)
  | [], level, k => rfl
  | (key, item) :: fields, level, k => by
    simp only [encodeFields, List.map_cons]
    rw [indent_iterencode item level k, indent_encodeFields fields level k]

end

end Newlines

section Plain

mutual

/-- Without a `JsonItems` the encoder is given the document itself. -/
theorem plain_of_holdsItems : ∀ (value : Doc), holdsItems value = false →
    plain value = some (expand value)
  | .null, _ => rfl
  | .bool _, _ => rfl
  | .int _, _ => rfl
  | .str _, _ => rfl
  | .array items, h => by
    simp only [plain, expand, plainItems_of_anyItem items h, Option.map_some]
  | .object fields, h => by
    simp only [plain, expand, plainFields_of_anyField fields h, Option.map_some]
  | .lazyItems _, h => by cases h

theorem plainItems_of_anyItem : ∀ (items : List Doc), anyItem items = false →
    plainItems items = some (expandItems items)
  | [], _ => rfl
  | item :: items, h => by
    obtain ⟨hitem, hitems⟩ := Bool.or_eq_false_iff.mp h
    simp only [plainItems, expandItems, plain_of_holdsItems item hitem, Option.bind_some,
      plainItems_of_anyItem items hitems, Option.map_some]

theorem plainFields_of_anyField : ∀ (fields : List (String × Doc)), anyField fields = false →
    plainFields fields = some (expandFields fields)
  | [], _ => rfl
  | (key, item) :: fields, h => by
    obtain ⟨hitem, hfields⟩ := Bool.or_eq_false_iff.mp h
    simp only [plainFields, expandFields, plain_of_holdsItems item hitem, Option.bind_some,
      plainFields_of_anyField fields hfields, Option.map_some]

end

theorem encodeAt_eq (sortKeys : Bool) {value : Doc} (h : holdsItems value = false) (level : ℕ) :
    encodeAt sortKeys value level = some (iterencode sortKeys (expand value) level) := by
  unfold encodeAt
  rw [plain_of_holdsItems value h, Option.map_some]
  by_cases hlevel : level = 0
  · simp [hlevel]
  · simp only [hlevel, if_false]
    rw [indent_iterencode sortKeys (expand value) level 0, Nat.add_zero]

end Plain

section Written

def SameText (written : Option Chunks) (chunks : Chunks) : Prop :=
  ∃ out, written = some out ∧ out.flatten = chunks.flatten

def SameItems (written : Option (List Chunks)) (chunks : List Chunks) : Prop :=
  ∃ out, written = some out ∧ out.map List.flatten = chunks.map List.flatten

def SameFields (written : Option (List (String × Chunks))) (chunks : List (String × Chunks)) :
    Prop :=
  ∃ out, written = some out ∧ (out.map fun field => (field.1, field.2.flatten)) =
    chunks.map fun field => (field.1, field.2.flatten)

theorem flatten_flatMap_chunks {α : Type} (f : α → Chunks) (l : List α) :
    (l.flatMap f).flatten = l.flatMap fun a => (f a).flatten := by
  induction l with
  | nil => rfl
  | cons a l ih => rw [List.flatMap_cons, List.flatten_append, ih, List.flatMap_cons]

theorem flatten_iterArray_true (level : ℕ) (items : List Chunks) :
    (iterArray level true items).flatten =
      ((items.map List.flatten).flatMap fun item => ',' :: newline (level + 1) ++ item) ++
        (newline level ++ [']']) := by
  induction items with
  | nil => simp [iterArray]
  | cons item items ih =>
    simp only [iterArray, if_true, List.cons_append, List.flatten_cons, List.flatten_append, ih,
      List.map_cons, List.flatMap_cons, List.append_assoc]

theorem flatten_iterArray {level : ℕ} {items items' : List Chunks}
    (h : items.map List.flatten = items'.map List.flatten) :
    (iterArray level false items).flatten = (listChunks level items').flatten := by
  cases items with
  | nil =>
    obtain rfl : items' = [] := List.map_eq_nil_iff.mp h.symm
    rfl
  | cons first rest =>
    cases items' with
    | nil => cases h
    | cons first' rest' =>
      obtain ⟨hfirst, hrest⟩ := List.cons.inj h
      have htail : (rest'.flatMap fun item => (',' :: newline (level + 1)) :: item).flatten =
          (rest.map List.flatten).flatMap fun item => ',' :: newline (level + 1) ++ item := by
        rw [hrest, List.flatMap_map, flatten_flatMap_chunks]
        rfl
      simp only [iterArray, listChunks, List.cons_append, List.flatten_cons, List.flatten_append,
        flatten_iterArray_true, htail, hfirst]
      simp

def fieldText (level : ℕ) (field : String × Text) : Text :=
  newline (level + 1) ++ encodeString field.1 ++ [':', ' '] ++ field.2

theorem flatten_iterObject_succ (level index : ℕ) (fields : List (String × Chunks)) :
    (iterObject level (index + 1) fields).flatten =
      ((fields.map fun field => (field.1, field.2.flatten)).flatMap fun field =>
        ',' :: fieldText level field) ++ (newline level ++ ['}']) := by
  induction fields generalizing index with
  | nil => simp [iterObject]
  | cons field fields ih =>
    have hindex : index + 1 ≠ 0 := Nat.succ_ne_zero index
    simp only [iterObject, if_neg hindex, List.cons_append, List.flatten_cons,
      List.flatten_append, ih, List.map_cons, List.flatMap_cons, List.append_assoc, fieldText]

theorem flatten_iterObject {level : ℕ} {fields fields' : List (String × Chunks)}
    (h : (fields.map fun field => (field.1, field.2.flatten)) =
      fields'.map fun field => (field.1, field.2.flatten)) (hne : fields' ≠ []) :
    (iterObject level 0 fields).flatten = (dictChunks level fields').flatten := by
  have hfield (field : String × Chunks) : newline (level + 1) ++ (fieldChunks field).flatten =
      fieldText level (field.1, field.2.flatten) := by
    simp [fieldChunks, fieldText]
  cases fields' with
  | nil => exact absurd rfl hne
  | cons first' rest' =>
    cases fields with
    | nil => cases h
    | cons first rest =>
      have hfirst : (first.1, first.2.flatten) = (first'.1, first'.2.flatten) :=
        (List.cons.inj h).1
      have hrest := (List.cons.inj h).2
      have htail : (rest'.flatMap fun field =>
          (',' :: newline (level + 1)) :: fieldChunks field).flatten =
          (rest.map fun field => (field.1, field.2.flatten)).flatMap fun field =>
            ',' :: fieldText level field := by
        rw [hrest, List.flatMap_map, flatten_flatMap_chunks]
        simp only [List.flatten_cons, List.cons_append, hfield]
      have hhead : (iterObject level 0 (first :: rest)).flatten =
          '{' :: fieldText level (first.1, first.2.flatten) ++
            (iterObject level 1 rest).flatten := by
        simp [iterObject, fieldText]
      have hdict : (dictChunks level (first' :: rest')).flatten =
          '{' :: fieldText level (first'.1, first'.2.flatten) ++
            (rest'.flatMap fun field =>
              (',' :: newline (level + 1)) :: fieldChunks field).flatten ++
                (newline level ++ ['}']) := by
        rw [← hfield]
        simp [dictChunks]
      rw [hhead, hdict, htail, hfirst, flatten_iterObject_succ, List.append_assoc]

theorem byKey_ne_nil {α : Type} (sortKeys : Bool) {fields : List (String × α)}
    (h : fields ≠ []) : byKey sortKeys fields ≠ [] := by
  unfold byKey
  cases sortKeys with
  | false => exact h
  | true =>
    intro hnil
    have hlength := List.length_insertionSort (fun a b : String × α => a.1 ≤ b.1) fields
    rw [if_pos rfl] at hnil
    rw [hnil] at hlength
    exact h (List.eq_nil_of_length_eq_zero hlength.symm)

variable (sortKeys : Bool)

mutual

theorem iterJson_text : ∀ (value : Doc) (level : ℕ),
    SameText (iterJson sortKeys value level) (iterencode sortKeys (expand value) level)
  | .null, level => ⟨_, encodeAt_eq sortKeys rfl level, rfl⟩
  | .bool _, level => ⟨_, encodeAt_eq sortKeys rfl level, rfl⟩
  | .int _, level => ⟨_, encodeAt_eq sortKeys rfl level, rfl⟩
  | .str _, level => ⟨_, encodeAt_eq sortKeys rfl level, rfl⟩
  | .lazyItems made, level => by
    obtain ⟨written, hwritten, hsame⟩ := iterItems_text made (level + 1)
    simp only [iterJson, expand, iterencode, hwritten, Option.map_some]
    exact ⟨_, rfl, flatten_iterArray hsame⟩
  | .array items, level => by
    cases hholds : holdsItems (.array items) with
    | false =>
      simp only [iterJson, hholds]
      exact ⟨_, encodeAt_eq sortKeys hholds level, rfl⟩
    | true =>
      obtain ⟨written, hwritten, hsame⟩ := iterItems_text items (level + 1)
      simp only [iterJson, hholds, if_true, expand, iterencode, hwritten, Option.map_some]
      exact ⟨_, rfl, flatten_iterArray hsame⟩
  | .object fields, level => by
    cases hholds : holdsItems (.object fields) with
    | false =>
      simp only [iterJson, hholds]
      exact ⟨_, encodeAt_eq sortKeys hholds level, rfl⟩
    | true =>
      obtain ⟨written, hwritten, hsame⟩ := iterFields_text fields (level + 1)
      simp only [iterJson, hholds, if_true, expand, iterencode, hwritten, Option.map_some]
      refine ⟨_, rfl, flatten_iterObject ?_ ?_⟩
      · rw [byKey_map sortKeys List.flatten, byKey_map sortKeys List.flatten, hsame]
      · apply byKey_ne_nil
        cases fields with
        | nil => cases hholds
        | cons field fields => simp [expandFields, encodeFields]

theorem iterItems_text : ∀ (items : List Doc) (level : ℕ),
    SameItems (iterItems sortKeys items level) (encodeItems sortKeys (expandItems items) level)
  | [], level => ⟨[], rfl, rfl⟩
  | item :: items, level => by
    obtain ⟨written, hwritten, htext⟩ := iterJson_text item level
    obtain ⟨others, hothers, hsame⟩ := iterItems_text items level
    refine ⟨written :: others, ?_, ?_⟩
    · simp only [iterItems, hwritten, hothers, Option.bind_some, Option.map_some]
    · simp only [expandItems, encodeItems, List.map_cons, htext, hsame]

theorem iterFields_text : ∀ (fields : List (String × Doc)) (level : ℕ),
    SameFields (iterFields sortKeys fields level)
      (encodeFields sortKeys (expandFields fields) level)
  | [], level => ⟨[], rfl, rfl⟩
  | (key, item) :: fields, level => by
    obtain ⟨written, hwritten, htext⟩ := iterJson_text item level
    obtain ⟨others, hothers, hsame⟩ := iterFields_text fields level
    refine ⟨(key, written) :: others, ?_, ?_⟩
    · simp only [iterFields, hwritten, hothers, Option.bind_some, Option.map_some]
    · simp only [expandFields, encodeFields, List.map_cons, htext, hsame]

end

theorem iter_json_dumps (value : Doc) :
    ∃ pieces, iterJson sortKeys value 0 = some pieces ∧
      pieces.flatten = dumps sortKeys (expand value) :=
  iterJson_text sortKeys value 0

end Written

end FinanceContext.JsonStream
