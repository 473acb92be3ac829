import FinanceContext.LegacyCache
import FinanceContext.Dictionaries
import FinanceContext.RangeNodes

namespace FinanceContext.Legacy

open Csr Dictionaries Xml

section Slots

variable {α P : Type} (slot : P → Option ℕ) (change : P → α → α)

def changeAt (items : List α) (key : P) : List α :=
  match slot key with
  | none => items
  | some index => items.modify index (change key)

theorem getElem?_changeAt (items : List α) (key : P) (index : ℕ) :
    (changeAt slot change items key)[index]? =
      if slot key = some index then (items[index]?).map (change key) else items[index]? := by
  unfold changeAt
  cases hslot : slot key with
  | none => simp
  | some place =>
    simp only [List.getElem?_modify, Option.some.injEq]
    split <;> simp

theorem getElem?_changes_other {keys : List P} {index : ℕ}
    (h : ∀ key ∈ keys, slot key ≠ some index) (items : List α) :
    (keys.foldl (changeAt slot change) items)[index]? = items[index]? := by
  induction keys generalizing items with
  | nil => rfl
  | cons key keys ih =>
    rw [List.foldl_cons, ih fun other hother => h other (List.mem_cons_of_mem _ hother),
      getElem?_changeAt, if_neg (h key List.mem_cons_self)]

theorem getElem?_changes {keys : List P} (hkeys : keys.Nodup) {key : P} (hkey : key ∈ keys)
    {index : ℕ} (hslot : slot key = some index)
    (hunique : ∀ other, slot other = some index → other = key) (items : List α) :
    (keys.foldl (changeAt slot change) items)[index]? = (items[index]?).map (change key) := by
  induction keys generalizing items with
  | nil => cases hkey
  | cons first keys ih =>
    obtain ⟨hfirst, hkeys⟩ := List.nodup_cons.mp hkeys
    rw [List.foldl_cons]
    rcases List.mem_cons.mp hkey with rfl | hkey
    · have hothers : ∀ other ∈ keys, slot other ≠ some index := by
        intro other hother hsame
        exact hfirst (hunique other hsame ▸ hother)
      rw [getElem?_changes_other slot change hothers, getElem?_changeAt, if_pos hslot]
    · have hne : slot first ≠ some index := fun hsame => hfirst (hunique first hsame ▸ hkey)
      rw [ih hkeys hkey, getElem?_changeAt, if_neg hne]

end Slots

variable {ν : Type}

structure BiffSheet (lib : Conversions ν) where
  nrows : ℕ
  ncols : ℕ
  cell : ℕ → ℕ → BiffCell lib

/-- A worksheet in document order: its tags, and the `c` elements, which hold no further `c`. -/
inductive Piece where
  | opened (tag : List Char) (attributes : String → Option String) (text : List Char)
  | closed
  | cell (element : Element)

def Piece.onCell (change : Element → Element) : Piece → Piece
  | .cell element => .cell (change element)
  | piece => piece

section Sheets

variable (lib : Conversions ν)

/-- The row and column in the `r` attribute. -/
def address (element : Element) : Option (ℕ × ℕ) :=
  match element.attributes "r" with
  | none => none
  | some ref =>
    if ref = "" then none
    else (parseAddr lib.decimal ref.toList).map fun cell => (cell.2, cell.1)

def addressOf : Piece → Option (ℕ × ℕ)
  | .cell element => address lib element
  | _ => none

/-- `_cell_map`, with the place of an element for the element. -/
def cellMap (sheet : List Piece) : List ((ℕ × ℕ) × ℕ) :=
  filled (sheet.zipIdx.filterMap fun entry => (addressOf lib entry.1).map fun key => (key, entry.2))

def positions (biff : BiffSheet lib) : List (ℕ × ℕ) :=
  (List.range biff.nrows).flatMap fun row => (List.range biff.ncols).map fun col => (row, col)

variable (sst : List (List Char)) (datemode : ℕ) (date1904 : Bool)

/-- `_overlay_sheet`, without its log lines. -/
def overlaySheet (biff : BiffSheet lib) (sheet : List Piece) : List Piece :=
  let cells := cellMap lib sheet
  (positions lib biff).foldl
    (changeAt (fun position => get (position.1 + 1, position.2 + 1) cells)
      fun position => Piece.onCell (overlayCell lib sst
        (fromXlrd lib datemode date1904 (biff.cell position.1 position.2)))) sheet

end Sheets

/-- The last `c` element with an address. -/
def IsLast (lib : Conversions ν) (sheet : List Piece) (key : ℕ × ℕ) (index : ℕ) : Prop :=
  (∃ piece, sheet[index]? = some piece ∧ addressOf lib piece = some key) ∧
    ∀ later piece, index < later → sheet[later]? = some piece → addressOf lib piece ≠ some key

/-- What a reader finds for a stored cell. -/
def BiffCell.Reads {lib : Conversions ν} (found : Option (List Char)) : BiffCell lib → Prop
  | .empty | .blank => found = none
  | .text value => found = if value = [] then none else some value
  | .boolean value => found = some (if value ≠ 0 then ['1'] else ['0'])
  | .error code => found = some (errorTextOf lib code)
  | .number value _ | .date value _ => ∃ text back, found = some text ∧
      lib.readFloat text = some back ∧ lib.equal back value = true

/-- A stored boolean on an element of type `b` whose text is not its digit and counts as it, or an
empty stored text on a shared string that is empty. -/
def BiffCell.Misread {lib : Conversions ν} (sst : List (List Char)) (element : Element) :
    BiffCell lib → Prop
  | .boolean value =>
    let digit := if value ≠ 0 then ['1'] else ['0']
    element.attributes "t" = some "b" ∧ valueText element ≠ [] ∧
      boolText (valueText element) = digit ∧ valueText element ≠ digit
  | .text value => value = [] ∧ element.attributes "t" = some "s" ∧ valueText element ≠ [] ∧
      sharedText lib sst (valueText element) = []
  | _ => False

section Values

variable {lib : Conversions ν} {sst : List (List Char)} {datemode : ℕ} {date1904 : Bool}

theorem equal_self_left {a b : ν} (h : lib.equal a b = true) : lib.equal a a = true :=
  lib.equal_trans h (lib.equal_symm h)

theorem readFloat_numberText {value : ν} (h : lib.equal value value = true) :
    ∃ back, lib.readFloat (numberText lib value) = some back ∧ lib.equal back value = true := by
  unfold numberText
  split
  · rename_i hshort
    exact (Option.any_eq_true _ _).mp hshort
  · exact lib.readFloat_long h

theorem errorTextOf_ne_nil (code : ℕ) : errorTextOf lib code ≠ [] := by
  unfold errorTextOf
  cases htext : lib.errorText code with
  | none => exact List.cons_ne_nil _ _
  | some text =>
    intro hnil
    exact lib.errorText_ne_nil code (htext.trans (congrArg some hnil))

theorem fromXlrd_date (hsystems : decide (datemode = 1) = date1904) {value : ν}
    (h : lib.equal value value = true) :
    fromXlrd lib datemode date1904 (.date value h) = ⟨.number, numberText lib value⟩ :=
  if_neg (not_not.mpr hsystems)

theorem good_fromXlrd (hsystems : decide (datemode = 1) = date1904) (cell : BiffCell lib) :
    (fromXlrd lib datemode date1904 cell).Good lib := by
  have hnumber {value : ν} (h : lib.equal value value = true) :
      Cache.Good lib ⟨.number, numberText lib value⟩ := by
    obtain ⟨back, hback, hequal⟩ := readFloat_numberText h
    exact ⟨back, hback, equal_self_left hequal⟩
  cases cell with
  | empty => trivial
  | blank => trivial
  | text value => trivial
  | boolean value =>
    change (if value ≠ 0 then ['1'] else ['0']) ≠ []
    split <;> exact List.cons_ne_nil _ _
  | error code => exact errorTextOf_ne_nil code
  | number value h => exact hnumber h
  | date value h =>
    rw [fromXlrd_date hsystems]
    exact hnumber h

theorem shown_fromXlrd (hsystems : decide (datemode = 1) = date1904) (cell : BiffCell lib)
    (found : Option (List Char)) :
    (fromXlrd lib datemode date1904 cell).Shown lib found ↔ cell.Reads found := by
  have hnumber {value : ν} (h : lib.equal value value = true) :
      Cache.Shown lib ⟨.number, numberText lib value⟩ found ↔ ∃ text back, found = some text ∧
        lib.readFloat text = some back ∧ lib.equal back value = true := by
    obtain ⟨back, hback, hequal⟩ := readFloat_numberText h
    constructor
    · rintro ⟨text, a, b, hfound, ha, hb, hab⟩
      obtain rfl := Option.some.inj (hback.symm.trans hb)
      exact ⟨text, a, hfound, ha, lib.equal_trans hab hequal⟩
    · rintro ⟨text, a, hfound, ha, hvalue⟩
      exact ⟨text, a, back, hfound, ha, hback, lib.equal_trans hvalue (lib.equal_symm hequal)⟩
  cases cell with
  | empty => exact Iff.rfl
  | blank => exact Iff.rfl
  | text value => exact Iff.rfl
  | boolean value => exact Iff.rfl
  | error code => exact Iff.rfl
  | number value h => exact hnumber h
  | date value h =>
    rw [fromXlrd_date hsystems]
    exact hnumber h

theorem misread_fromXlrd (cell : BiffCell lib) (element : Element) :
    Misread lib sst (fromXlrd lib datemode date1904 cell) element ↔ cell.Misread sst element := by
  unfold Misread
  cases cell with
  | empty => simp [fromXlrd, BiffCell.Misread]
  | blank => simp [fromXlrd, BiffCell.Misread]
  | text value => simp [fromXlrd, BiffCell.Misread]
  | boolean value => simp [fromXlrd, BiffCell.Misread]
  | error code => simp [fromXlrd, BiffCell.Misread]
  | number value h => simp [fromXlrd, BiffCell.Misread]
  | date value h =>
    have hkind : (fromXlrd lib datemode date1904 (.date value h)).kind = .number := by
      unfold fromXlrd
      dsimp only
      split <;> rfl
    simp [hkind, BiffCell.Misread]

end Values

section Places

variable {lib : Conversions ν}

theorem get_cellMap_concat (sheet : List Piece) (piece : Piece) (key : ℕ × ℕ) :
    get key (cellMap lib (sheet ++ [piece])) =
      if addressOf lib piece = some key then some sheet.length else get key (cellMap lib sheet) := by
  unfold cellMap
  rw [List.zipIdx_append, List.filterMap_append, List.zipIdx_singleton, Nat.zero_add]
  cases haddress : addressOf lib piece with
  | none => simp [haddress]
  | some found =>
    have hlast : ([(piece, sheet.length)].filterMap fun entry =>
        (addressOf lib entry.1).map fun key => (key, entry.2)) = [(found, sheet.length)] := by
      simp [haddress]
    rw [hlast, filled_concat, get_set]
    simp only [Option.some.injEq]

theorem get_cellMap {sheet : List Piece} {key : ℕ × ℕ} {index : ℕ} :
    get key (cellMap lib sheet) = some index ↔ IsLast lib sheet key index := by
  induction sheet using List.reverseRecOn with
  | nil =>
    refine iff_of_false nofun ?_
    rintro ⟨⟨piece, hpiece, -⟩, -⟩
    cases hpiece
  | append_singleton sheet last ih =>
    rw [get_cellMap_concat]
    by_cases hlast : addressOf lib last = some key
    · rw [if_pos hlast, Option.some.injEq]
      constructor
      · rintro rfl
        refine ⟨⟨last, List.getElem?_concat_length, hlast⟩, ?_⟩
        intro later piece hlater hpiece
        have hlength := (List.getElem?_eq_some_iff.mp hpiece).1
        rw [List.length_append, List.length_singleton] at hlength
        omega
      · rintro ⟨⟨piece, hpiece, -⟩, hafter⟩
        have hlength := (List.getElem?_eq_some_iff.mp hpiece).1
        rw [List.length_append, List.length_singleton] at hlength
        by_contra hne
        exact hafter sheet.length last (by omega) List.getElem?_concat_length hlast
    · rw [if_neg hlast, ih]
      have hbefore {place : ℕ} {piece : Piece} (hkey : addressOf lib piece = some key) :
          (sheet ++ [last])[place]? = some piece ↔ sheet[place]? = some piece := by
        rcases lt_trichotomy place sheet.length with hlt | rfl | hgt
        · rw [List.getElem?_append_left hlt]
        · rw [List.getElem?_concat_length, List.getElem?_eq_none (le_refl _)]
          refine iff_of_false (fun hsame => hlast ?_) nofun
          rw [Option.some.inj hsame, hkey]
        · rw [List.getElem?_eq_none (by simp; omega), List.getElem?_eq_none (by omega)]
      constructor
      · rintro ⟨⟨piece, hpiece, hkey⟩, hafter⟩
        refine ⟨⟨piece, (hbefore hkey).mpr hpiece, hkey⟩, ?_⟩
        intro later other hlater hother hotherKey
        exact hafter later other hlater ((hbefore hotherKey).mp hother) hotherKey
      · rintro ⟨⟨piece, hpiece, hkey⟩, hafter⟩
        refine ⟨⟨piece, (hbefore hkey).mp hpiece, hkey⟩, ?_⟩
        intro later other hlater hother hotherKey
        exact hafter later other hlater ((hbefore hotherKey).mpr hother) hotherKey

theorem IsLast.unique {sheet : List Piece} {key other : ℕ × ℕ} {index : ℕ}
    (h : IsLast lib sheet key index) (hother : IsLast lib sheet other index) : other = key := by
  obtain ⟨piece, hpiece, hkey⟩ := h.1
  obtain ⟨again, hagain, hotherKey⟩ := hother.1
  obtain rfl := Option.some.inj (hpiece.symm.trans hagain)
  exact Option.some.inj (hotherKey.symm.trans hkey)

theorem mem_positions {biff : BiffSheet lib} {position : ℕ × ℕ} :
    position ∈ positions lib biff ↔ position.1 < biff.nrows ∧ position.2 < biff.ncols := by
  unfold positions
  simp only [List.mem_flatMap, List.mem_map, List.mem_range]
  constructor
  · rintro ⟨row, hrow, col, hcol, rfl⟩
    exact ⟨hrow, hcol⟩
  · rintro ⟨hrow, hcol⟩
    exact ⟨position.1, hrow, position.2, hcol, rfl⟩

theorem nodup_positions (biff : BiffSheet lib) : (positions lib biff).Nodup := by
  have hproduct : positions lib biff = (List.range biff.nrows).product (List.range biff.ncols) := rfl
  rw [hproduct]
  exact List.nodup_range.product List.nodup_range

end Places

section Overlay

variable {lib : Conversions ν} {sst : List (List Char)} {datemode : ℕ} {date1904 : Bool}

variable {biff : BiffSheet lib} {sheet : List Piece}

def cellKey (position : ℕ × ℕ) : ℕ × ℕ := (position.1 + 1, position.2 + 1)

/-- The place is that of a stored cell. -/
def Stored (biff : BiffSheet lib) (sheet : List Piece) (position : ℕ × ℕ) (index : ℕ) : Prop :=
  (position.1 < biff.nrows ∧ position.2 < biff.ncols) ∧
    IsLast lib sheet (cellKey position) index

theorem overlay_stored {position : ℕ × ℕ} {index : ℕ} (h : Stored biff sheet position index) :
    (overlaySheet lib sst datemode date1904 biff sheet)[index]? =
      (sheet[index]?).map (Piece.onCell (overlayCell lib sst
        (fromXlrd lib datemode date1904 (biff.cell position.1 position.2)))) := by
  unfold overlaySheet
  dsimp only
  rw [getElem?_changes _ _ (nodup_positions biff) (mem_positions.mpr h.1) (get_cellMap.mpr h.2)]
  intro other hother
  have hkey := h.2.unique (get_cellMap.mp hother)
  obtain ⟨hrow, hcol⟩ := Prod.mk.inj hkey
  exact Prod.ext (Nat.succ.inj hrow) (Nat.succ.inj hcol)

theorem overlay_other {index : ℕ} (h : ∀ position, ¬Stored biff sheet position index) :
    (overlaySheet lib sst datemode date1904 biff sheet)[index]? = sheet[index]? := by
  unfold overlaySheet
  dsimp only
  apply getElem?_changes_other
  intro position hposition hslot
  exact h position ⟨mem_positions.mp hposition, get_cellMap.mp hslot⟩

variable (lib sst datemode date1904 biff sheet) in
theorem overlay_piece (index : ℕ) :
    (∃ position, Stored biff sheet position index ∧
      (overlaySheet lib sst datemode date1904 biff sheet)[index]? =
        (sheet[index]?).map (Piece.onCell (overlayCell lib sst
          (fromXlrd lib datemode date1904 (biff.cell position.1 position.2))))) ∨
      (∀ position, ¬Stored biff sheet position index) ∧
        (overlaySheet lib sst datemode date1904 biff sheet)[index]? = sheet[index]? := by
  by_cases h : ∃ position, Stored biff sheet position index
  · obtain ⟨position, hposition⟩ := h
    exact Or.inl ⟨position, hposition, overlay_stored hposition⟩
  · have hnone := not_exists.mp h
    exact Or.inr ⟨hnone, overlay_other hnone⟩

theorem addressOf_overlayCell (desired : Cache) (piece : Piece) :
    addressOf lib (piece.onCell (overlayCell lib sst desired)) = addressOf lib piece := by
  cases piece with
  | opened tag attributes text => rfl
  | closed => rfl
  | cell element =>
    have href := (sameFrame_overlayCell lib sst desired element).attributes "r" (by decide)
    unfold Piece.onCell addressOf address
    dsimp only
    rw [href]

theorem addressOf_overlay (index : ℕ) :
    ((overlaySheet lib sst datemode date1904 biff sheet)[index]?).map (addressOf lib) =
      (sheet[index]?).map (addressOf lib) := by
  rcases overlay_piece lib sst datemode date1904 biff sheet index with ⟨position, -, hpiece⟩ | ⟨-, hpiece⟩
  · rw [hpiece, Option.map_map]
    apply congrFun
    apply congrArg
    funext piece
    exact addressOf_overlayCell _ piece
  · rw [hpiece]

theorem isLast_iff {key : ℕ × ℕ} {index : ℕ} :
    IsLast lib sheet key index ↔ (sheet[index]?).map (addressOf lib) = some (some key) ∧
      ∀ later, index < later → (sheet[later]?).map (addressOf lib) ≠ some (some key) := by
  simp only [IsLast, Option.map_eq_some_iff, ne_eq, not_exists, not_and]
  constructor
  · rintro ⟨hpiece, hafter⟩
    exact ⟨hpiece, fun later hlater piece hother => hafter later piece hlater hother⟩
  · rintro ⟨hpiece, hafter⟩
    exact ⟨hpiece, fun later piece hlater hother => hafter later hlater piece hother⟩

theorem stored_overlay {position : ℕ × ℕ} {index : ℕ} :
    Stored biff (overlaySheet lib sst datemode date1904 biff sheet) position index ↔
      Stored biff sheet position index := by
  unfold Stored
  rw [isLast_iff, isLast_iff]
  simp only [addressOf_overlay]

theorem overlay_twice :
    overlaySheet lib sst datemode date1904 biff
        (overlaySheet lib sst datemode date1904 biff sheet) =
      overlaySheet lib sst datemode date1904 biff sheet := by
  apply List.ext_getElem?
  intro index
  by_cases h : ∃ position, Stored biff sheet position index
  · obtain ⟨position, hposition⟩ := h
    rw [overlay_stored (stored_overlay.mpr hposition), overlay_stored hposition, Option.map_map]
    apply congrFun
    apply congrArg
    funext piece
    cases piece with
    | opened tag attributes text => rfl
    | closed => rfl
    | cell element => exact congrArg Piece.cell (overlayCell_twice _ element)
  · have hnone := not_exists.mp h
    apply overlay_other
    intro position hposition
    exact hnone position (stored_overlay.mp hposition)

theorem IsLast.cell {key : ℕ × ℕ} {index : ℕ} (h : IsLast lib sheet key index) :
    ∃ element, sheet[index]? = some (Piece.cell element) := by
  obtain ⟨piece, hpiece, hkey⟩ := h.1
  cases piece with
  | opened tag attributes text => cases hkey
  | closed => cases hkey
  | cell element => exact ⟨element, hpiece⟩

/-- What the overlay should leave: the stored values where they have an element, every element up
to its cached value, everything else as it was, and nothing for a second overlay to do. -/
structure Overlaid (lib : Conversions ν) (sst : List (List Char)) (datemode : ℕ) (date1904 : Bool)
    (biff : BiffSheet lib) (before after : List Piece) : Prop where
  values : ∀ position index, Stored biff before position index → ∃ element,
    after[index]? = some (Piece.cell element) ∧
      (biff.cell position.1 position.2).Reads (cachedText lib sst element)
  frames : ∀ (index : ℕ) (element : Element), before[index]? = some (Piece.cell element) → ∃ other,
    after[index]? = some (Piece.cell other) ∧ SameFrame element other
  others : ∀ index : ℕ, (∀ position, ¬Stored biff before position index) →
    after[index]? = before[index]?
  again : overlaySheet lib sst datemode date1904 biff after = after

/-- The overlay does what it should exactly where no element is misread. -/
theorem overlaySheet_iff (hsystems : decide (datemode = 1) = date1904) :
    Overlaid lib sst datemode date1904 biff sheet
        (overlaySheet lib sst datemode date1904 biff sheet) ↔
      ∀ position index element, Stored biff sheet position index →
        sheet[index]? = some (Piece.cell element) →
        ¬(biff.cell position.1 position.2).Misread sst element := by
  have hreads {position : ℕ × ℕ} (element : Element) :
      (biff.cell position.1 position.2).Reads (cachedText lib sst (overlayCell lib sst
        (fromXlrd lib datemode date1904 (biff.cell position.1 position.2)) element)) ↔
      ¬(biff.cell position.1 position.2).Misread sst element := by
    rw [← shown_fromXlrd hsystems, shown_overlayCell (good_fromXlrd hsystems _),
      misread_fromXlrd]
  have hplace {position : ℕ × ℕ} {index : ℕ} {element : Element}
      (hstored : Stored biff sheet position index) (helement : sheet[index]? = some (Piece.cell element)) :
      (overlaySheet lib sst datemode date1904 biff sheet)[index]? =
        some (Piece.cell (overlayCell lib sst
          (fromXlrd lib datemode date1904 (biff.cell position.1 position.2)) element)) := by
    rw [overlay_stored hstored, helement]
    rfl
  constructor
  · intro h position index element hstored helement
    obtain ⟨found, hfound, hvalue⟩ := h.values position index hstored
    rw [hplace hstored helement] at hfound
    cases hfound
    exact (hreads element).mp hvalue
  · intro h
    refine ⟨?_, ?_, ?_, overlay_twice⟩
    · intro position index hstored
      obtain ⟨element, helement⟩ := hstored.2.cell
      exact ⟨_, hplace hstored helement, (hreads element).mpr (h _ _ _ hstored helement)⟩
    · intro index element helement
      rcases overlay_piece lib sst datemode date1904 biff sheet index with ⟨position, hstored, -⟩ | ⟨-, hpiece⟩
      · exact ⟨_, hplace hstored helement, sameFrame_overlayCell lib sst _ element⟩
      · exact ⟨element, hpiece.trans helement, rfl, rfl, fun _ _ => rfl, rfl⟩
    · intro index hnone
      exact overlay_other hnone

end Overlay

section Samples

def digitsOf (text : List Char) : Option ℕ :=
  if text ≠ [] ∧ text.all Char.isDigit then some (readInt asciiTable.decimal text) else none

def wholeNumbers : Conversions ℕ where
  readFloat := digitsOf
  equal a b := a = b
  short value := (toString value).toList
  long value := (toString value).toList
  readInt text := (digitsOf text).map Int.ofNat
  space := asciiTable.space
  decimal := asciiTable.decimal
  errorText code := if code = 15 then some ['#', 'V', 'A', 'L', 'U', 'E', '!'] else none
  serialInSystem value _ _ := value
  equal_symm h := by simpa using (of_decide_eq_true h).symm
  equal_trans h h' := by simpa using (of_decide_eq_true h).trans (of_decide_eq_true h')
  readFloat_nil := rfl
  readFloat_long := by
    intro value _
    refine ⟨value, ?_, by simp⟩
    have hdigits : (toString value).toList.all Char.isDigit = true := by
      apply List.all_eq_true.mpr
      exact fun ch hch => isDigit_of_mem_toString hch
    unfold digitsOf
    rw [if_pos ⟨toString_ne_nil value, hdigits⟩, readInt_toString]
  errorText_ne_nil code := by split <;> exact nofun

def plainCell (ref kind : String) (text : List Char) : Element :=
  .mk ['c'] (fun name => if name = "r" then some ref else if name = "t" then some kind else none)
    [] [.mk ['v'] (fun _ => none) text []]

def oneCell (cell : BiffCell wholeNumbers) : BiffSheet wholeNumbers := ⟨1, 1, fun _ _ => cell⟩

/-- The element says `true`, the stored boolean is true, and the reader goes on to find `true`. -/
theorem overlaySheet_keeps_true :
    ¬Overlaid wholeNumbers [] 0 false (oneCell (.boolean 1))
      [.cell (plainCell "A1" "b" ['t', 'r', 'u', 'e'])]
      (overlaySheet wholeNumbers [] 0 false (oneCell (.boolean 1))
        [.cell (plainCell "A1" "b" ['t', 'r', 'u', 'e'])]) := by
  intro h
  have haddress : address wholeNumbers (plainCell "A1" "b" ['t', 'r', 'u', 'e']) = some (1, 1) := by
    decide +kernel
  have hstored : Stored (oneCell (.boolean 1)) [.cell (plainCell "A1" "b" ['t', 'r', 'u', 'e'])]
      (0, 0) 0 := by
    refine ⟨⟨by decide, by decide⟩, ⟨_, rfl, haddress⟩, ?_⟩
    intro later piece hlater hpiece
    rw [List.getElem?_eq_none (Nat.succ_le_of_lt hlater)] at hpiece
    cases hpiece
  have hsame : same wholeNumbers [] (plainCell "A1" "b" ['t', 'r', 'u', 'e']) ⟨.bool, ['1']⟩ =
      true := by decide +kernel
  obtain ⟨element, helement, hreads⟩ := h.values (0, 0) 0 hstored
  rw [overlay_stored hstored] at helement
  have hcell : overlayCell wholeNumbers [] ⟨.bool, ['1']⟩
      (plainCell "A1" "b" ['t', 'r', 'u', 'e']) = plainCell "A1" "b" ['t', 'r', 'u', 'e'] :=
    if_pos hsame
  have hfound : plainCell "A1" "b" ['t', 'r', 'u', 'e'] = element :=
    hcell.symm.trans (Piece.cell.inj (Option.some.inj helement))
  have htext : cachedText wholeNumbers [] (plainCell "A1" "b" ['t', 'r', 'u', 'e']) =
      some ['t', 'r', 'u', 'e'] := by decide +kernel
  rw [← hfound, htext] at hreads
  cases hreads

/-- A number over a shared string. -/
theorem overlaySheet_number :
    Overlaid wholeNumbers [['x']] 0 false (oneCell (.number 7 rfl)) [.cell (plainCell "A1" "s" ['0'])]
      (overlaySheet wholeNumbers [['x']] 0 false (oneCell (.number 7 rfl))
        [.cell (plainCell "A1" "s" ['0'])]) :=
  (overlaySheet_iff rfl).mpr fun _ _ _ _ _ => id

end Samples

end FinanceContext.Legacy
