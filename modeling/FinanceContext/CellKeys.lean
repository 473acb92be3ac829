import FinanceContext.CellExpansion
import Mathlib.Data.List.TakeWhile

namespace FinanceContext.Csr

open Dictionaries

/-- Ids given to texts in the order the texts come, from `offset + 1` on. -/
structure IdTable (offset : ℕ) where
  entries : List (String × ℕ)
  numbered : entries.map Prod.snd = List.range' (offset + 1) entries.length

namespace IdTable

variable {offset : ℕ}

def empty : IdTable offset := ⟨[], rfl⟩

def find (table : IdTable offset) (text : String) : Option ℕ := Dictionaries.get text table.entries

def assign (table : IdTable offset) (text : String) : ℕ × IdTable offset :=
  match table.find text with
  | some id => (id, table)
  | none =>
    let id := table.entries.length + offset + 1
    (id,
      { entries := table.entries ++ [(text, id)]
        numbered := by
          rw [List.map_append, table.numbered, List.length_append]
          simp [List.range'_concat, id]
          omega })

theorem lt_of_find {table : IdTable offset} {text : String} {id : ℕ}
    (h : table.find text = some id) : offset < id := by
  have hmem := List.mem_map_of_mem (f := Prod.snd) (mem_of_get h)
  rw [table.numbered, List.mem_range'_1] at hmem
  omega

theorem find_inj {table : IdTable offset} {a b : String} {id : ℕ} (ha : table.find a = some id)
    (hb : table.find b = some id) : a = b := by
  have hnodup : (table.entries.map Prod.snd).Nodup := by
    rw [table.numbered]
    exact List.nodup_range'
  have heq := List.inj_on_of_nodup_map hnodup (mem_of_get ha) (mem_of_get hb) rfl
  exact congrArg Prod.fst heq

theorem find_assign_of_some {table : IdTable offset} {text : String} {id : ℕ} (text' : String)
    (h : table.find text = some id) : (table.assign text').2.find text = some id := by
  unfold assign
  split
  · exact h
  · unfold find at h ⊢
    rw [get_append, h, Option.some_or]

theorem find_assign_self (table : IdTable offset) (text : String) :
    (table.assign text).2.find text = some (table.assign text).1 := by
  unfold assign
  split
  · assumption
  · rename_i hnone
    unfold find at hnone ⊢
    rw [get_append, hnone, Option.none_or, get_cons, if_pos rfl]

end IdTable

def kindBits : ℕ := 4

def rowBits : ℕ := 24

def colBits : ℕ := 15

def kindCodes : List (String × ℕ) :=
  [("ref", 1), ("range", 2), ("cross_sheet", 3), ("external", 4), ("dynamic", 5)]

inductive Key where
  | packed (n : ℕ)
  | pair (other kind : ℕ)
  deriving DecidableEq

/-- The dictionaries of `_KeptEdgeWriter` that number the texts of the current source. -/
structure KeyTables where
  sheetIds : IdTable 0
  otherIds : IdTable 0
  extraKinds : IdTable kindCodes.length

def KeyTables.empty : KeyTables := ⟨.empty, .empty, .empty⟩

/-- `rsplit` at the last `!`. -/
def rsplitBang (target : List Char) : Option (List Char × List Char) :=
  if '!' ∈ target then
    some (((target.reverse.dropWhile (· ≠ '!')).drop 1).reverse,
      (target.reverse.takeWhile (· ≠ '!')).reverse)
  else none

section Packing

variable (decimal : Char → Option ℕ)

/-- `parse_addr`; `none` is its `ValueError`. -/
def parseAddr (addr : List Char) : Option (ℕ × ℕ) :=
  let chars := skipDollar addr
  let letters := chars.takeWhile Char.isAlpha
  if letters.isEmpty then none
  else
    match takeRow decimal (chars.dropWhile Char.isAlpha) with
    | some (row, []) => some (colToIndex (letters.map Char.toUpper), row)
    | _ => none

/-- The checks of `_pack_cell`: the sheet, column and row of a canonical cell id. -/
def cellOf (target : String) : Option (String × ℕ × ℕ) := do
  let (sheet, body) ← rsplitBang target.toList
  if ':' ∈ body ∨ '$' ∈ body then none
  else
    let (col, row) ← parseAddr decimal body
    if formatAddr col row = String.ofList body ∧
        (1 ≤ col ∧ col < 1 <<< colBits ∧ 1 ≤ row ∧ row < 1 <<< rowBits) then
      some (String.ofList sheet, col, row)
    else none

def packedCell (sheetId col row : ℕ) : ℕ :=
  sheetId <<< (colBits + rowBits + kindBits) ||| col <<< (rowBits + kindBits) ||| row <<< kindBits

def packCell (target : String) (sheetIds : IdTable 0) : Option ℕ × IdTable 0 :=
  match cellOf decimal target with
  | none => (none, sheetIds)
  | some (sheet, col, row) =>
    let (sheetId, sheetIds) := sheetIds.assign sheet
    (some (packedCell sheetId col row), sheetIds)

namespace KeyTables

def kindCode (tables : KeyTables) (kind : String) : ℕ × KeyTables :=
  match Dictionaries.get kind kindCodes with
  | some code => (code, tables)
  | none =>
    let (code, extraKinds) := tables.extraKinds.assign kind
    (code, { tables with extraKinds := extraKinds })

def key (tables : KeyTables) (target kind : String) : Key × KeyTables :=
  let (code, tables) := tables.kindCode kind
  let (cell, sheetIds) := packCell decimal target tables.sheetIds
  let tables := { tables with sheetIds := sheetIds }
  match cell, decide (code < 1 <<< kindBits) with
  | some cell, true => (.packed (cell ||| code), tables)
  | _, _ =>
    let (other, otherIds) := tables.otherIds.assign target
    (.pair other code, { tables with otherIds := otherIds })

def codeOf (tables : KeyTables) (kind : String) : Option ℕ :=
  (Dictionaries.get kind kindCodes).or (tables.extraKinds.find kind)

def lookup (tables : KeyTables) (target kind : String) : Option Key := do
  let code ← tables.codeOf kind
  match cellOf decimal target, decide (code < 1 <<< kindBits) with
  | some (sheet, col, row), true =>
    let sheetId ← tables.sheetIds.find sheet
    pure (.packed (packedCell sheetId col row ||| code))
  | _, _ =>
    let other ← tables.otherIds.find target
    pure (.pair other code)

end KeyTables

end Packing

theorem packed_eq {sheetId col row code : ℕ} (hcol : col < 1 <<< colBits)
    (hrow : row < 1 <<< rowBits) (hcode : code < 1 <<< kindBits) :
    packedCell sheetId col row ||| code =
      ((sheetId * 2 ^ colBits + col) * 2 ^ rowBits + row) * 2 ^ kindBits + code := by
  rw [Nat.one_shiftLeft] at hcol hrow hcode
  have hshift : sheetId <<< (colBits + rowBits + kindBits) ||| col <<< (rowBits + kindBits) |||
      row <<< kindBits = ((sheetId <<< colBits ||| col) <<< rowBits ||| row) <<< kindBits := by
    simp only [Nat.shiftLeft_or_distrib, ← Nat.shiftLeft_add, Nat.add_assoc]
  rw [packedCell, hshift, ← Nat.shiftLeft_add_eq_or_of_lt hcode,
    ← Nat.shiftLeft_add_eq_or_of_lt hrow, ← Nat.shiftLeft_add_eq_or_of_lt hcol]
  simp only [Nat.shiftLeft_eq]

theorem packed_inj {sheetId sheetId' col col' row row' code code' : ℕ}
    (hcol : col < 1 <<< colBits) (hcol' : col' < 1 <<< colBits) (hrow : row < 1 <<< rowBits)
    (hrow' : row' < 1 <<< rowBits) (hcode : code < 1 <<< kindBits)
    (hcode' : code' < 1 <<< kindBits)
    (h : packedCell sheetId col row ||| code = packedCell sheetId' col' row' ||| code') :
    sheetId = sheetId' ∧ col = col' ∧ row = row' ∧ code = code' := by
  rw [packed_eq hcol hrow hcode, packed_eq hcol' hrow' hcode'] at h
  simp only [colBits, rowBits, kindBits, Nat.one_shiftLeft] at *
  omega

theorem eq_append_of_rsplitBang {target sheet body : List Char}
    (h : rsplitBang target = some (sheet, body)) : target = sheet ++ '!' :: body := by
  unfold rsplitBang at h
  split_ifs at h with hbang
  obtain ⟨rfl, rfl⟩ := Prod.mk.inj (Option.some.inj h)
  have hsplit := List.takeWhile_append_dropWhile (p := (· ≠ '!')) (l := target.reverse)
  have hne : target.reverse.dropWhile (· ≠ '!') ≠ [] := by
    intro hnil
    have hall := List.dropWhile_eq_nil_iff.mp hnil '!' (List.mem_reverse.mpr hbang)
    simp at hall
  obtain ⟨ch, rest, hdrop⟩ := List.exists_cons_of_ne_nil hne
  have hch : ch = '!' := by
    have hhead := List.head_dropWhile_not (p := (· ≠ '!')) (l := target.reverse) hne
    simp only [hdrop, List.head_cons] at hhead
    simpa using hhead
  rw [hdrop, hch] at hsplit ⊢
  calc target = (target.reverse.takeWhile (· ≠ '!') ++ '!' :: rest).reverse := by
        rw [hsplit, List.reverse_reverse]
    _ = _ := by simp

theorem eq_nodeId_of_cellOf {decimal : Char → Option ℕ} {target sheet : String} {col row : ℕ}
    (h : cellOf decimal target = some (sheet, col, row)) :
    target = nodeId sheet (formatAddr col row) ∧ col < 1 <<< colBits ∧ row < 1 <<< rowBits := by
  unfold cellOf at h
  obtain ⟨⟨before, body⟩, hsplit, h⟩ := Option.bind_eq_some_iff.mp h
  dsimp only at h
  split_ifs at h
  obtain ⟨⟨c, r⟩, -, h⟩ := Option.bind_eq_some_iff.mp h
  dsimp only at h
  split_ifs at h with hcell
  obtain ⟨rfl, rfl, rfl⟩ : String.ofList before = sheet ∧ c = col ∧ r = row := by
    simpa using h
  refine ⟨?_, hcell.2.2.1, hcell.2.2.2.2⟩
  apply String.toList_inj.mp
  rw [eq_append_of_rsplitBang hsplit, hcell.1]
  simp [nodeId]

namespace KeyTables

theorem codeOf_inj {tables : KeyTables} {kind kind' : String} {code : ℕ}
    (h : tables.codeOf kind = some code) (h' : tables.codeOf kind' = some code) :
    kind = kind' := by
  have hknown {k : String} (hk : get k kindCodes = some code) : (k, code) ∈ kindCodes :=
    mem_of_get hk
  have hle {k : String} (hk : get k kindCodes = some code) : code ≤ kindCodes.length := by
    have hall : ∀ e ∈ kindCodes, e.2 ≤ kindCodes.length := by decide
    exact hall _ (hknown hk)
  unfold codeOf at h h'
  rcases Option.or_eq_some_iff.mp h with h | ⟨-, h⟩ <;>
    rcases Option.or_eq_some_iff.mp h' with h' | ⟨-, h'⟩
  · have hnodup : (kindCodes.map Prod.snd).Nodup := by decide
    exact congrArg Prod.fst (List.inj_on_of_nodup_map hnodup (hknown h) (hknown h') rfl)
  · have hlt := IdTable.lt_of_find h'
    have hcode := hle h
    omega
  · have hlt := IdTable.lt_of_find h
    have hcode := hle h'
    omega
  · exact IdTable.find_inj h h'

/-- What has a number in the tables keeps it. -/
structure Extends (tables tables' : KeyTables) : Prop where
  sheetIds : ∀ text id, tables.sheetIds.find text = some id → tables'.sheetIds.find text = some id
  otherIds : ∀ text id, tables.otherIds.find text = some id → tables'.otherIds.find text = some id
  codes : ∀ kind code, tables.codeOf kind = some code → tables'.codeOf kind = some code

theorem kindCode_spec (tables : KeyTables) (kind : String) :
    tables.Extends (tables.kindCode kind).2 ∧
      (tables.kindCode kind).2.codeOf kind = some (tables.kindCode kind).1 := by
  unfold kindCode
  split
  · rename_i code hcode
    refine ⟨⟨fun _ _ h => h, fun _ _ h => h, fun _ _ h => h⟩, ?_⟩
    rw [codeOf, hcode, Option.some_or]
  · rename_i hcode
    refine ⟨⟨fun _ _ h => h, fun _ _ h => h, fun k code h => ?_⟩, ?_⟩
    · unfold codeOf at h ⊢
      rcases Option.or_eq_some_iff.mp h with h | ⟨hnone, h⟩
      · rw [h, Option.some_or]
      · rw [hnone, Option.none_or]
        exact IdTable.find_assign_of_some kind h
    · rw [codeOf, hcode, Option.none_or]
      exact IdTable.find_assign_self _ kind

theorem lookup_of_extends {decimal : Char → Option ℕ} {tables tables' : KeyTables}
    (hext : tables.Extends tables') {target kind : String} {key : Key}
    (h : tables.lookup decimal target kind = some key) :
    tables'.lookup decimal target kind = some key := by
  unfold lookup at h ⊢
  obtain ⟨code, hcode, h⟩ := Option.bind_eq_some_iff.mp h
  rw [hext.codes kind code hcode]
  simp only [Option.bind_eq_bind, Option.bind_some] at h ⊢
  split at h
  · obtain ⟨id, hid, h⟩ := Option.bind_eq_some_iff.mp h
    rw [hext.sheetIds _ id hid]
    exact h
  · obtain ⟨id, hid, h⟩ := Option.bind_eq_some_iff.mp h
    rw [hext.otherIds _ id hid]
    exact h

theorem key_spec (decimal : Char → Option ℕ) (tables : KeyTables) (target kind : String) :
    tables.Extends (tables.key decimal target kind).2 ∧
      (tables.key decimal target kind).2.lookup decimal target kind =
        some (tables.key decimal target kind).1 := by
  obtain ⟨hext, hcode⟩ := tables.kindCode_spec kind
  unfold key
  generalize hcoded : tables.kindCode kind = coded at hext hcode
  obtain ⟨code, tables₁⟩ := coded
  dsimp only at hext hcode ⊢
  unfold codeOf at hcode
  cases hcell : cellOf decimal target with
  | none =>
    simp only [packCell, hcell]
    refine ⟨⟨hext.sheetIds, fun text id h => ?_, hext.codes⟩, ?_⟩
    · exact IdTable.find_assign_of_some target (hext.otherIds text id h)
    · simp [lookup, codeOf, hcode, hcell, IdTable.find_assign_self]
  | some cell =>
    obtain ⟨sheet, col, row⟩ := cell
    simp only [packCell, hcell]
    by_cases hsmall : code < 1 <<< kindBits
    · simp only [hsmall, decide_true]
      refine ⟨⟨fun text id h => ?_, hext.otherIds, hext.codes⟩, ?_⟩
      · exact IdTable.find_assign_of_some sheet (hext.sheetIds text id h)
      · simp [lookup, codeOf, hcode, hcell, hsmall, IdTable.find_assign_self]
    · simp only [hsmall, decide_false]
      refine ⟨⟨fun text id h => ?_, fun text id h => ?_, hext.codes⟩, ?_⟩
      · exact IdTable.find_assign_of_some sheet (hext.sheetIds text id h)
      · exact IdTable.find_assign_of_some target (hext.otherIds text id h)
      · simp [lookup, codeOf, hcode, hcell, hsmall, IdTable.find_assign_self]

theorem lookup_cases {decimal : Char → Option ℕ} {tables : KeyTables} {target kind : String}
    {key : Key} (h : tables.lookup decimal target kind = some key) :
    ∃ code, tables.codeOf kind = some code ∧
      ((∃ sheet col row sheetId, cellOf decimal target = some (sheet, col, row) ∧
          code < 1 <<< kindBits ∧ tables.sheetIds.find sheet = some sheetId ∧
          key = .packed (packedCell sheetId col row ||| code)) ∨
        ∃ other, tables.otherIds.find target = some other ∧ key = .pair other code) := by
  unfold lookup at h
  obtain ⟨code, hcode, h⟩ := Option.bind_eq_some_iff.mp h
  refine ⟨code, hcode, ?_⟩
  split at h
  · rename_i sheet col row hcell hsmall
    obtain ⟨sheetId, hsheet, h⟩ := Option.bind_eq_some_iff.mp h
    exact .inl ⟨sheet, col, row, sheetId, hcell, of_decide_eq_true hsmall, hsheet,
      (Option.some.inj h).symm⟩
  · obtain ⟨other, hother, h⟩ := Option.bind_eq_some_iff.mp h
    exact .inr ⟨other, hother, (Option.some.inj h).symm⟩

theorem lookup_inj {decimal : Char → Option ℕ} {tables : KeyTables}
    {target target' kind kind' : String} {key : Key}
    (h : tables.lookup decimal target kind = some key)
    (h' : tables.lookup decimal target' kind' = some key) : target = target' ∧ kind = kind' := by
  obtain ⟨code, hcode, hcell | hpair⟩ := lookup_cases h <;>
    obtain ⟨code', hcode', hcell' | hpair'⟩ := lookup_cases h'
  · obtain ⟨sheet, col, row, sheetId, hcell, hsmall, hsheet, hkey⟩ := hcell
    obtain ⟨sheet', col', row', sheetId', hcell', hsmall', hsheet', hkey'⟩ := hcell'
    obtain ⟨htarget, hcol, hrow⟩ := eq_nodeId_of_cellOf hcell
    obtain ⟨htarget', hcol', hrow'⟩ := eq_nodeId_of_cellOf hcell'
    obtain ⟨rfl, rfl, rfl, rfl⟩ := packed_inj hcol hcol' hrow hrow' hsmall hsmall'
      (Key.packed.inj (hkey.symm.trans hkey'))
    obtain rfl := IdTable.find_inj hsheet hsheet'
    exact ⟨htarget.trans htarget'.symm, codeOf_inj hcode hcode'⟩
  · obtain ⟨sheet, col, row, sheetId, -, -, -, hkey⟩ := hcell
    obtain ⟨other, -, hkey'⟩ := hpair'
    cases hkey.symm.trans hkey'
  · obtain ⟨other, -, hkey⟩ := hpair
    obtain ⟨sheet, col, row, sheetId, -, -, -, hkey'⟩ := hcell'
    cases hkey.symm.trans hkey'
  · obtain ⟨other, hother, hkey⟩ := hpair
    obtain ⟨other', hother', hkey'⟩ := hpair'
    obtain ⟨rfl, rfl⟩ := Key.pair.inj (hkey.symm.trans hkey')
    exact ⟨IdTable.find_inj hother hother', codeOf_inj hcode hcode'⟩

theorem map_lookup_of_extends {decimal : Char → Option ℕ} {tables tables' : KeyTables}
    (hext : tables.Extends tables') {keys : List Key} {seen : List (String × String)}
    (h : keys.map some = seen.map fun p => tables.lookup decimal p.1 p.2) :
    keys.map some = seen.map fun p => tables'.lookup decimal p.1 p.2 := by
  rw [h]
  apply List.map_congr_left
  intro p hp
  have hmem : tables.lookup decimal p.1 p.2 ∈ keys.map some := by
    rw [h]
    exact List.mem_map_of_mem hp
  obtain ⟨key, -, hkey⟩ := List.mem_map.mp hmem
  rw [← hkey]
  exact (lookup_of_extends hext hkey.symm).symm

theorem mem_iff_of_map_lookup {decimal : Char → Option ℕ} {tables : KeyTables} {keys : List Key}
    {seen : List (String × String)}
    (h : keys.map some = seen.map fun p => tables.lookup decimal p.1 p.2)
    {target kind : String} {key : Key} (hkey : tables.lookup decimal target kind = some key) :
    key ∈ keys ↔ (target, kind) ∈ seen := by
  have hsome : key ∈ keys ↔ some key ∈ keys.map some := by simp
  rw [hsome, h]
  constructor
  · intro hmem
    obtain ⟨⟨target', kind'⟩, hp, hlookup⟩ := List.mem_map.mp hmem
    obtain ⟨rfl, rfl⟩ := lookup_inj hkey hlookup
    exact hp
  · intro hmem
    exact List.mem_map.mpr ⟨_, hmem, hkey⟩

theorem Extends.trans {a b c : KeyTables} (h : a.Extends b) (h' : b.Extends c) : a.Extends c :=
  ⟨fun text id hid => h'.sheetIds text id (h.sheetIds text id hid),
    fun text id hid => h'.otherIds text id (h.otherIds text id hid),
    fun kind code hcode => h'.codes kind code (h.codes kind code hcode)⟩

def keyRun (decimal : Char → Option ℕ) : KeyTables → List (String × String) → List Key
  | _, [] => []
  | tables, (target, kind) :: pairs =>
    let (key, tables) := tables.key decimal target kind
    key :: keyRun decimal tables pairs

theorem keyRun_lookup (decimal : Char → Option ℕ) (pairs : List (String × String))
    (tables : KeyTables) :
    ∃ tables', tables.Extends tables' ∧
      (keyRun decimal tables pairs).map some =
        pairs.map fun p => tables'.lookup decimal p.1 p.2 := by
  induction pairs generalizing tables with
  | nil => exact ⟨tables, ⟨fun _ _ h => h, fun _ _ h => h, fun _ _ h => h⟩, rfl⟩
  | cons p pairs ih =>
    obtain ⟨target, kind⟩ := p
    obtain ⟨hext, hself⟩ := tables.key_spec decimal target kind
    obtain ⟨tables', hext', hrest⟩ := ih (tables.key decimal target kind).2
    refine ⟨tables', hext.trans hext', ?_⟩
    rw [List.map_cons, ← hrest, lookup_of_extends hext' hself]
    rfl

theorem keyRun_eq_iff (decimal : Char → Option ℕ) (tables : KeyTables)
    (pairs : List (String × String)) (i j : ℕ) :
    (keyRun decimal tables pairs)[i]? = (keyRun decimal tables pairs)[j]? ↔
      pairs[i]? = pairs[j]? := by
  obtain ⟨tables', -, hmap⟩ := keyRun_lookup decimal pairs tables
  have hget (n : ℕ) : (keyRun decimal tables pairs)[n]?.map some =
      pairs[n]?.map fun p => tables'.lookup decimal p.1 p.2 := by
    rw [← List.getElem?_map, hmap, List.getElem?_map]
  have hi := hget i
  have hj := hget j
  constructor
  · intro h
    rw [h, hj] at hi
    cases hpi : pairs[i]? with
    | none => cases hpj : pairs[j]? <;> simp [hpi, hpj] at hi ⊢
    | some p =>
      cases hpj : pairs[j]? with
      | none => simp [hpi, hpj] at hi
      | some q =>
        rw [hpj, Option.map_some] at hj
        obtain ⟨key, -, hkey⟩ := Option.map_eq_some_iff.mp hj
        simp only [hpi, hpj, Option.map_some, Option.some.injEq] at hi
        obtain ⟨htarget, hkind⟩ := lookup_inj (hi.symm.trans hkey.symm) hkey.symm
        rw [Prod.ext htarget hkind]
  · intro h
    rw [h, ← hj] at hi
    exact Option.map_injective (Option.some_injective _) hi

end KeyTables

end FinanceContext.Csr
