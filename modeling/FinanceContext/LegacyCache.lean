import FinanceContext.XmlElements
import FinanceContext.SheetReaders

/-!
One cell of the cache overlay: the value a legacy workbook holds, the `c` element it is compared
with and written to, and the value the reader of the converted workbook then finds there.
-/

namespace FinanceContext.Legacy

open Sheets Xml

/-- What the libraries do with texts and numbers. Two floats may be equal without being the same
one, and one that is not a number equals none. -/
structure Conversions (ν : Type) where
  readFloat : List Char → Option ν
  equal : ν → ν → Bool
  short : ν → List Char
  long : ν → List Char
  readInt : List Char → Option ℤ
  space : Char → Bool
  decimal : Char → Option ℕ
  errorText : ℕ → Option (List Char)
  serialInSystem : ν → Bool → Bool → ν
  equal_symm : ∀ {a b}, equal a b = true → equal b a = true
  equal_trans : ∀ {a b d}, equal a b = true → equal b d = true → equal a d = true
  readFloat_nil : readFloat [] = none
  readFloat_long : ∀ {value}, equal value value = true →
    ∃ back, readFloat (long value) = some back ∧ equal back value = true
  errorText_ne_nil : ∀ code, errorText code ≠ some []

/-- A stored cell, by its type. A stored number is a number. -/
inductive BiffCell {ν : Type} (lib : Conversions ν) where
  | empty
  | blank
  | text (value : List Char)
  | boolean (value : ℤ)
  | error (code : ℕ)
  | number (value : ν) (h : lib.equal value value = true)
  | date (value : ν) (h : lib.equal value value = true)

inductive CacheKind where
  | number | text | bool | error | empty
  deriving DecidableEq

structure Cache where
  kind : CacheKind
  text : List Char
  deriving DecidableEq

section Cells

variable {ν : Type} (lib : Conversions ν)

def numberText (value : ν) : List Char :=
  if (lib.readFloat (lib.short value)).any (lib.equal · value) then lib.short value
  else lib.long value

def errorTextOf (code : ℕ) : List Char := (lib.errorText code).getD ['#', 'N', '/', 'A']

def fromXlrd (datemode : ℕ) (date1904 : Bool) : BiffCell lib → Cache
  | .empty | .blank => ⟨.empty, []⟩
  | .text value => ⟨.text, value⟩
  | .boolean value => ⟨.bool, if value ≠ 0 then ['1'] else ['0']⟩
  | .error code => ⟨.error, errorTextOf lib code⟩
  | .number value _ => ⟨.number, numberText lib value⟩
  | .date value _ =>
    if decide (datemode = 1) ≠ date1904 then
      ⟨.number, numberText lib (lib.serialInSystem value (datemode = 1) date1904)⟩
    else ⟨.number, numberText lib value⟩

/-- The text of the `v` child, empty where there is none. -/
def valueText (element : Element) : List Char :=
  match element.findChild ['v'] with
  | none => []
  | some value => value.text

/-- The text below the `is` child. -/
def inlineText (element : Element) : List Char :=
  match element.findChild ['i', 's'] with
  | none => []
  | some inline => (inline.iterLocal ['t']).flatMap Element.text

def sharedText (sst : List (List Char)) (raw : List Char) : List Char :=
  match lib.readInt raw with
  | none => raw
  | some index => (entryAt sst index).getD raw

def boolText (raw : List Char) : List Char :=
  if raw ∈ [['1'], ['t', 'r', 'u', 'e'], ['T', 'R', 'U', 'E']] then ['1'] else ['0']

variable (sst : List (List Char))

def current (element : Element) : Cache :=
  let kind := element.attributes "t"
  if kind = some "inlineStr" then
    if inlineText element = [] then ⟨.empty, []⟩ else ⟨.text, inlineText element⟩
  else if valueText element = [] then ⟨.empty, []⟩
  else if kind = some "s" then ⟨.text, sharedText lib sst (valueText element)⟩
  else if kind = some "b" then ⟨.bool, boolText (valueText element)⟩
  else if kind = some "e" then ⟨.error, valueText element⟩
  else if kind = some "str" then ⟨.text, valueText element⟩
  else ⟨.number, valueText element⟩

/-- `_cached_value` of the reader. -/
def cachedText (element : Element) : Option (List Char) :=
  let kind := element.attributes "t"
  if kind = some "inlineStr" then
    if inlineText element = [] then none else some (inlineText element)
  else if valueText element = [] then none
  else if kind = some "s" then some (sharedText lib sst (valueText element))
  else some (valueText element)

def same (element : Element) (desired : Cache) : Bool :=
  let now := current lib sst element
  if now.kind ≠ desired.kind then false
  else if desired.kind = .number then
    match lib.readFloat now.text, lib.readFloat desired.text with
    | some a, some b => lib.equal a b
    | _, _ => false
  else now.text = desired.text

def cacheTypes : List String := ["s", "str", "b", "e", "n", "inlineStr"]

def isCache (child : Element) : Bool := child.name = ['v'] || child.name = ['i', 's']

def clearCache (element : Element) : Element :=
  let kept := element.setChildren (element.children.filter fun child => !isCache child)
  if (element.attributes "t").any (· ∈ cacheTypes) then kept.setAttribute "t" none else kept

def xmlSpace : String := "\x7bhttp://www.w3.org/XML/1998/namespace\x7dspace"

def writeInline (element : Element) (text : List Char) : Element :=
  let preserved := text.head?.any lib.space || text.getLast?.any lib.space || '\n' ∈ text
  let node := Element.mk (qualified element.tag ['t'])
    (fun name => if name = xmlSpace ∧ preserved = true then some "preserve" else none) text []
  let inline := Element.mk (qualified element.tag ['i', 's']) (fun _ => none) [] [node]
  (element.setAttribute "t" (some "inlineStr")).setChildren (element.children ++ [inline])

/-- A new child after the first `f`, or at the end where there is no formula. -/
def placeValue (value : Element) : List Element → List Element
  | [] => [value]
  | child :: rest =>
    if child.name = ['f'] then child :: value :: rest else child :: placeValue value rest

/-- The type attribute `_write` sets for a value in a `v` child. -/
def typed (element : Element) : CacheKind → Element
  | .text => element.setAttribute "t" (some "str")
  | .bool => element.setAttribute "t" (some "b")
  | .error => element.setAttribute "t" (some "e")
  | .number | .empty => element

def write (element : Element) (desired : Cache) : Element :=
  let formula := (element.findChild ['f']).isSome
  let cleared := clearCache element
  if desired.kind = .empty then cleared
  else if desired.kind = .text ∧ formula = false then writeInline lib cleared desired.text
  else
    let target := typed cleared desired.kind
    let value := Element.mk (qualified target.tag ['v']) (fun _ => none) desired.text []
    target.setChildren (placeValue value target.children)

/-- What the loop of `_overlay_sheet` does with the element of a position. -/
def overlayCell (desired : Cache) (element : Element) : Element :=
  if same lib sst element desired then element else write lib element desired

section Cleared

theorem name_qualified {tag : List Char} {attributes : String → Option String} {text : List Char}
    {children : List Element} {name : List Char} (h : Xml.PlainName name) :
    (Element.mk (qualified tag name) attributes text children).name = name :=
  localName_qualified tag h

theorem children_clear (element : Element) :
    (clearCache element).children = element.children.filter fun child => !isCache child := by
  unfold clearCache
  dsimp only
  split
  · rfl
  · rfl

theorem tag_clear (element : Element) : (clearCache element).tag = element.tag := by
  unfold clearCache
  dsimp only
  split
  · rfl
  · rfl

theorem attributes_clear {element : Element} {name : String} (h : name ≠ "t") :
    (clearCache element).attributes name = element.attributes name := by
  unfold clearCache
  dsimp only
  split
  · exact if_neg h
  · rfl

theorem type_clear (element : Element) :
    (clearCache element).attributes "t" =
      if (element.attributes "t").any (· ∈ cacheTypes) then none else element.attributes "t" := by
  unfold clearCache
  dsimp only
  split
  · rw [Element.attributes_setAttribute, if_pos rfl]
  · rfl

theorem type_clear_ne (element : Element) (kind : String) (h : kind ∈ cacheTypes) :
    (clearCache element).attributes "t" ≠ some kind := by
  rw [type_clear]
  split
  · exact nofun
  · rename_i hkept
    intro hkind
    rw [hkind] at hkept
    exact hkept (by simpa using h)

theorem findChild_clear_of_cache (element : Element) {name : List Char}
    (h : ∀ child : Element, child.name = name → isCache child = true) :
    (clearCache element).findChild name = none := by
  unfold Element.findChild
  rw [children_clear]
  apply List.find?_eq_none.mpr
  intro child hchild hname
  have hcache := h child (by simpa using hname)
  have hkept := (List.mem_filter.mp hchild).2
  rw [hcache] at hkept
  cases hkept

theorem value_clear (element : Element) : (clearCache element).findChild ['v'] = none :=
  findChild_clear_of_cache element fun child h => by simp [isCache, h]

theorem inline_clear (element : Element) : (clearCache element).findChild ['i', 's'] = none :=
  findChild_clear_of_cache element fun child h => by simp [isCache, h]

theorem formula_clear (element : Element) :
    (clearCache element).findChild ['f'] = element.findChild ['f'] := by
  unfold Element.findChild
  rw [children_clear, List.find?_filter]
  congr 1
  funext child
  by_cases h : child.name = ['f']
  · simp [isCache, h]
  · simp [h]

end Cleared

section Placed

variable {value : Element} {children : List Element}

theorem find_placeValue {name : List Char} (hvalue : value.name = name)
    (h : children.find? (·.name = name) = none) :
    (placeValue value children).find? (·.name = name) = some value := by
  induction children with
  | nil => simp [placeValue, hvalue]
  | cons child rest ih =>
    have hchild : child.name ≠ name := by
      have hnone := List.find?_eq_none.mp h child List.mem_cons_self
      simpa using hnone
    have hrest : rest.find? (·.name = name) = none := by
      rwa [List.find?_cons_of_neg (by simpa using hchild)] at h
    unfold placeValue
    split
    · rw [List.find?_cons_of_neg (by simpa using hchild), List.find?_cons_of_pos (by simpa using hvalue)]
    · rw [List.find?_cons_of_neg (by simpa using hchild)]
      exact ih hrest

theorem filter_placeValue {keep : Element → Bool} (h : keep value = false) :
    (placeValue value children).filter keep = children.filter keep := by
  induction children with
  | nil => simp [placeValue, h]
  | cons child rest ih =>
    unfold placeValue
    split
    · simp only [List.filter_cons, h, Bool.false_eq_true, if_false]
    · rw [List.filter_cons, List.filter_cons, ih]

end Placed

theorem cachedText_eq (element : Element) :
    cachedText lib sst element =
      match (current lib sst element).kind with
      | .empty => none
      | .bool => some (valueText element)
      | _ => some (current lib sst element).text := by
  unfold cachedText current
  dsimp only
  split_ifs <;> rfl

theorem type_typed (element : Element) (kind : CacheKind) {other : String}
    (h : other ≠ "str" ∧ other ≠ "b" ∧ other ≠ "e")
    (hother : element.attributes "t" ≠ some other) :
    (typed element kind).attributes "t" ≠ some other := by
  have hset (name : String) (hne : other ≠ name) :
      (element.setAttribute "t" (some name)).attributes "t" ≠ some other := by
    intro heq
    exact hne (Option.some.inj heq).symm
  cases kind with
  | number => exact hother
  | empty => exact hother
  | text => exact hset "str" h.1
  | bool => exact hset "b" h.2.1
  | error => exact hset "e" h.2.2

theorem children_typed (element : Element) (kind : CacheKind) :
    (typed element kind).children = element.children := by
  cases kind <;> rfl

theorem cachedText_clear (element : Element) : cachedText lib sst (clearCache element) = none := by
  have hinline := type_clear_ne element "inlineStr" (by decide)
  have hvalue : valueText (clearCache element) = [] := by
    unfold valueText
    rw [value_clear]
  unfold cachedText
  dsimp only
  rw [if_neg hinline, if_pos hvalue]

theorem cachedText_inline (element : Element) (text : List Char) :
    cachedText lib sst (writeInline lib (clearCache element) text) =
      if text = [] then none else some text := by
  have hinline : inlineText (writeInline lib (clearCache element) text) = text := by
    have hnone := inline_clear element
    unfold Element.findChild at hnone
    unfold inlineText writeInline
    dsimp only
    unfold Element.findChild
    rw [Element.children_setChildren, List.find?_append, hnone, Option.none_or,
      List.find?_cons_of_pos (by simpa using name_qualified (by decide))]
    dsimp only
    unfold Element.iterLocal
    simp only [Element.walk, Element.walkAll]
    rw [List.filter_cons_of_neg (by rw [name_qualified (by decide)]; decide)]
    simp [name_qualified (by decide : Xml.PlainName ['t']), Element.text]
  have htype : (writeInline lib (clearCache element) text).attributes "t" = some "inlineStr" := by
    unfold writeInline
    dsimp only
    rw [Element.attributes_setChildren, Element.attributes_setAttribute, if_pos rfl]
  unfold cachedText
  dsimp only
  rw [if_pos htype, hinline]

/-- The `v` child of a cell whose old cache is gone. -/
def withValue (element : Element) (desired : Cache) : Element :=
  let target := typed (clearCache element) desired.kind
  target.setChildren (placeValue
    (Element.mk (qualified target.tag ['v']) (fun _ => none) desired.text []) target.children)

theorem cachedText_withValue (element : Element) (desired : Cache) :
    cachedText lib sst (withValue element desired) =
      if desired.text = [] then none else some desired.text := by
  have hvalue : valueText (withValue element desired) = desired.text := by
    have hnone := value_clear element
    unfold Element.findChild at hnone
    unfold valueText withValue
    dsimp only
    unfold Element.findChild
    rw [Element.children_setChildren, children_typed,
      find_placeValue (name_qualified (by decide)) hnone]
    rfl
  have htype (kind : String) (h : kind ∈ cacheTypes) (hne : kind ≠ "str" ∧ kind ≠ "b" ∧ kind ≠ "e") :
      (withValue element desired).attributes "t" ≠ some kind :=
    type_typed _ _ hne (type_clear_ne element kind h)
  unfold cachedText
  dsimp only
  rw [if_neg (htype "inlineStr" (by decide) (by decide)), hvalue,
    if_neg (htype "s" (by decide) (by decide))]

theorem write_eq (element : Element) (desired : Cache) :
    write lib element desired =
      if desired.kind = .empty then clearCache element
      else if desired.kind = .text ∧ (element.findChild ['f']).isSome = false then
        writeInline lib (clearCache element) desired.text
      else withValue element desired := rfl

theorem cachedText_write (element : Element) (desired : Cache) :
    cachedText lib sst (write lib element desired) =
      if desired.kind = .empty ∨ desired.text = [] then none else some desired.text := by
  rw [write_eq]
  by_cases hempty : desired.kind = .empty
  · rw [if_pos hempty, if_pos (Or.inl hempty)]
    exact cachedText_clear lib sst element
  · have hiff : (desired.kind = .empty ∨ desired.text = []) ↔ desired.text = [] :=
      or_iff_right hempty
    rw [if_neg hempty, if_congr hiff rfl rfl]
    split
    · exact cachedText_inline lib sst element desired.text
    · exact cachedText_withValue lib sst element desired

/-- The parts of a cell that hold no cached value: its name, its attributes other than the type,
and its children other than the value and the inline text, the formula among them. -/
structure SameFrame (element other : Element) : Prop where
  tag : other.tag = element.tag
  text : other.text = element.text
  attributes : ∀ name, name ≠ "t" → other.attributes name = element.attributes name
  children : (other.children.filter fun child => !isCache child) =
    element.children.filter fun child => !isCache child

section Frame

theorem text_clear (element : Element) : (clearCache element).text = element.text := by
  unfold clearCache
  dsimp only
  split
  · rfl
  · rfl

theorem sameFrame_clear (element : Element) : SameFrame element (clearCache element) where
  tag := tag_clear element
  text := text_clear element
  attributes _ h := attributes_clear h
  children := by rw [children_clear, List.filter_filter]; simp

theorem sameFrame_inline (element : Element) (text : List Char) :
    SameFrame element (writeInline lib (clearCache element) text) where
  tag := tag_clear element
  text := text_clear element
  attributes name h := by
    unfold writeInline
    dsimp only
    rw [Element.attributes_setChildren, Element.attributes_setAttribute, if_neg h,
      attributes_clear h]
  children := by
    unfold writeInline
    dsimp only
    rw [Element.children_setChildren, List.filter_append, (sameFrame_clear element).children]
    simp [isCache, name_qualified (by decide : Xml.PlainName ['i', 's'])]

theorem tag_typed (element : Element) (kind : CacheKind) :
    (typed element kind).tag = element.tag := by
  cases kind <;> rfl

theorem text_typed (element : Element) (kind : CacheKind) :
    (typed element kind).text = element.text := by
  cases kind <;> rfl

theorem attributes_typed (element : Element) (kind : CacheKind) {name : String} (h : name ≠ "t") :
    (typed element kind).attributes name = element.attributes name := by
  have hset (value : Option String) :
      (element.setAttribute "t" value).attributes name = element.attributes name := by
    rw [Element.attributes_setAttribute, if_neg h]
  cases kind with
  | number => rfl
  | empty => rfl
  | text => exact hset _
  | bool => exact hset _
  | error => exact hset _

theorem sameFrame_withValue (element : Element) (desired : Cache) :
    SameFrame element (withValue element desired) where
  tag := (tag_typed _ _).trans (tag_clear element)
  text := (text_typed _ _).trans (text_clear element)
  attributes name h := (attributes_typed _ _ h).trans (attributes_clear h)
  children := by
    unfold withValue
    dsimp only
    rw [Element.children_setChildren, children_typed,
      filter_placeValue (by simp [isCache, name_qualified (by decide : Xml.PlainName ['v'])]),
      (sameFrame_clear element).children]

theorem sameFrame_write (element : Element) (desired : Cache) :
    SameFrame element (write lib element desired) := by
  rw [write_eq]
  split_ifs
  · exact sameFrame_clear element
  · exact sameFrame_inline lib element desired.text
  · exact sameFrame_withValue element desired

variable {element other : Element}

theorem SameFrame.formula (h : SameFrame element other) :
    other.findChild ['f'] = element.findChild ['f'] := by
  have hchildren : (clearCache other).children = (clearCache element).children := by
    rw [children_clear, children_clear, h.children]
  rw [← formula_clear other, ← formula_clear element]
  unfold Element.findChild
  rw [hchildren]

theorem SameFrame.clear (h : SameFrame element other)
    (htype : (clearCache other).attributes "t" = (clearCache element).attributes "t") :
    clearCache other = clearCache element := by
  apply Element.ext
  · rw [tag_clear, tag_clear, h.tag]
  · intro name
    by_cases hname : name = "t"
    · rw [hname, htype]
    · rw [attributes_clear hname, attributes_clear hname, h.attributes name hname]
  · rw [text_clear, text_clear, h.text]
  · rw [children_clear, children_clear, h.children]

theorem SameFrame.inline (h : SameFrame element other) (text : List Char) :
    writeInline lib (clearCache other) text = writeInline lib (clearCache element) text := by
  have htag : (clearCache other).tag = (clearCache element).tag := by
    rw [tag_clear, tag_clear, h.tag]
  unfold writeInline
  dsimp only
  apply Element.ext
  · exact htag
  · intro name
    rw [Element.attributes_setChildren, Element.attributes_setChildren,
      Element.attributes_setAttribute, Element.attributes_setAttribute]
    by_cases hname : name = "t"
    · rw [if_pos hname, if_pos hname]
    · rw [if_neg hname, if_neg hname, attributes_clear hname, attributes_clear hname,
        h.attributes name hname]
  · exact (text_clear other).trans (h.text.trans (text_clear element).symm)
  · rw [Element.children_setChildren, Element.children_setChildren, children_clear, children_clear,
      h.children, htag]

theorem SameFrame.withValue (h : SameFrame element other) {desired : Cache}
    (htype : (typed (clearCache other) desired.kind).attributes "t" =
      (typed (clearCache element) desired.kind).attributes "t") :
    withValue other desired = withValue element desired := by
  have htag : (typed (clearCache other) desired.kind).tag =
      (typed (clearCache element) desired.kind).tag := by
    rw [tag_typed, tag_typed, tag_clear, tag_clear, h.tag]
  unfold Legacy.withValue
  dsimp only
  apply Element.ext
  · exact htag
  · intro name
    rw [Element.attributes_setChildren, Element.attributes_setChildren]
    by_cases hname : name = "t"
    · rw [hname, htype]
    · rw [attributes_typed _ _ hname, attributes_typed _ _ hname, attributes_clear hname,
        attributes_clear hname, h.attributes name hname]
  · rw [Element.text_setChildren, Element.text_setChildren, text_typed, text_typed, text_clear,
      text_clear, h.text]
  · rw [Element.children_setChildren, Element.children_setChildren, htag, children_typed,
      children_typed, children_clear, children_clear, h.children]

theorem type_clear_of_kept (h : other.attributes "t" = (clearCache element).attributes "t") :
    (clearCache other).attributes "t" = (clearCache element).attributes "t" := by
  rw [type_clear, if_neg, h]
  intro hany
  rw [h] at hany
  obtain ⟨kind, hkind, hmem⟩ := (Option.any_eq_true _ _).mp hany
  exact type_clear_ne element kind (by simpa using hmem) hkind

end Frame

theorem write_write (element : Element) (desired : Cache) :
    write lib (write lib element desired) desired = write lib element desired := by
  have hframe := sameFrame_write lib element desired
  rw [write_eq lib (write lib element desired), hframe.formula, write_eq lib element]
  rw [write_eq lib element] at hframe
  split_ifs at hframe ⊢ with hempty hinline
  · exact hframe.clear (type_clear_of_kept rfl)
  · exact hframe.inline lib desired.text
  · apply hframe.withValue
    cases hkind : desired.kind with
    | empty => exact absurd hkind hempty
    | number =>
      apply type_clear_of_kept
      unfold withValue
      dsimp only
      rw [Element.attributes_setChildren, hkind]
      rfl
    | text => rfl
    | bool => rfl
    | error => rfl

/-- A value that can be written: a number that reads back, a text for a boolean or an error. -/
def Cache.Good (desired : Cache) : Prop :=
  match desired.kind with
  | .number => ∃ value, lib.readFloat desired.text = some value ∧ lib.equal value value = true
  | .bool | .error => desired.text ≠ []
  | .text | .empty => True

/-- What a reader should find for a value. -/
def Cache.Shown (desired : Cache) (found : Option (List Char)) : Prop :=
  match desired.kind with
  | .empty => found = none
  | .text => found = if desired.text = [] then none else some desired.text
  | .bool | .error => found = some desired.text
  | .number => ∃ text a b, found = some text ∧ lib.readFloat text = some a ∧
      lib.readFloat desired.text = some b ∧ lib.equal a b = true

/-- A boolean cell whose text is not the digit it is compared as, or an empty text compared with
an empty shared string. -/
def Misread (desired : Cache) (element : Element) : Prop :=
  (desired.kind = .bool ∧ element.attributes "t" = some "b" ∧ valueText element ≠ [] ∧
      boolText (valueText element) = desired.text ∧ valueText element ≠ desired.text) ∨
    (desired.kind = .text ∧ desired.text = [] ∧ element.attributes "t" = some "s" ∧
      valueText element ≠ [] ∧ sharedText lib sst (valueText element) = [])

variable {lib}

theorem shown_write {desired : Cache} (h : desired.Good lib) (element : Element) :
    desired.Shown lib (cachedText lib sst (write lib element desired)) := by
  rw [cachedText_write]
  unfold Cache.Shown
  unfold Cache.Good at h
  cases hkind : desired.kind with
  | empty => exact if_pos (Or.inl rfl)
  | text => simp
  | bool =>
    rw [hkind] at h
    exact if_neg (by simpa using h)
  | error =>
    rw [hkind] at h
    exact if_neg (by simpa using h)
  | number =>
    rw [hkind] at h
    obtain ⟨value, hvalue, hequal⟩ := h
    have hne : desired.text ≠ [] := by
      intro hnil
      rw [hnil, lib.readFloat_nil] at hvalue
      cases hvalue
    exact ⟨desired.text, value, value, if_neg (by simpa using hne), hvalue, hvalue, hequal⟩

variable {sst}

theorem current_bool {element : Element} (h : (current lib sst element).kind = .bool) :
    element.attributes "t" = some "b" ∧ valueText element ≠ [] ∧
      current lib sst element = ⟨.bool, boolText (valueText element)⟩ := by
  unfold current at h ⊢
  dsimp only at h ⊢
  split_ifs at h ⊢ with _ _ hvalue _ htype
  exact ⟨htype, hvalue, rfl⟩

theorem current_emptyText {element : Element} (h : current lib sst element = ⟨.text, []⟩) :
    element.attributes "t" = some "s" ∧ valueText element ≠ [] ∧
      sharedText lib sst (valueText element) = [] := by
  unfold current at h
  dsimp only at h
  split_ifs at h with _ hinline hvalue htype
  all_goals obtain ⟨hkind, htext⟩ := Cache.mk.inj h
  · cases hkind
  · exact absurd htext hinline
  · cases hkind
  · exact ⟨htype, hvalue, htext⟩
  · cases hkind
  · cases hkind
  · exact absurd htext hvalue
  · cases hkind

theorem same_of_misread {desired : Cache} {element : Element}
    (h : Misread lib sst desired element) : same lib sst element desired = true := by
  rcases h with ⟨hkind, htype, hvalue, htext, -⟩ | ⟨hkind, hnil, htype, hvalue, htext⟩
  · have hcurrent : current lib sst element = ⟨.bool, desired.text⟩ := by
      unfold current
      simp [htype, hvalue, htext]
    unfold same
    simp [hcurrent, hkind]
  · have hcurrent : current lib sst element = ⟨.text, []⟩ := by
      unfold current
      simp [htype, hvalue, htext]
    unfold same
    simp [hcurrent, hkind, hnil]

theorem shown_same {desired : Cache} {element : Element}
    (h : same lib sst element desired = true) :
    desired.Shown lib (cachedText lib sst element) ↔ ¬Misread lib sst desired element := by
  have hkind : (current lib sst element).kind = desired.kind := by
    unfold same at h
    dsimp only at h
    split_ifs at h with hne
    · exact not_not.mp hne
    · exact not_not.mp hne
  unfold same at h
  dsimp only at h
  rw [if_neg (not_not.mpr hkind)] at h
  rw [cachedText_eq, hkind]
  unfold Cache.Shown Misread
  cases hdesired : desired.kind with
  | empty => simp
  | text =>
    rw [hdesired, if_neg (by decide)] at h
    have htext : (current lib sst element).text = desired.text := by simpa using h
    dsimp only
    rw [htext]
    by_cases hnil : desired.text = []
    · have hcurrent : current lib sst element = ⟨.text, []⟩ := by
        rw [hnil] at htext
        rw [hdesired] at hkind
        exact congrArg₂ Cache.mk hkind htext
      obtain ⟨htype, hvalue, hshared⟩ := current_emptyText hcurrent
      simp [hnil, htype, hvalue, hshared]
    · simp [hnil]
  | bool =>
    rw [hdesired, if_neg (by decide)] at h
    have htext : (current lib sst element).text = desired.text := by simpa using h
    rw [hdesired] at hkind
    obtain ⟨htype, hvalue, hcurrent⟩ := current_bool hkind
    rw [hcurrent] at htext
    have hbool : boolText (valueText element) = desired.text := htext
    simp [htype, hvalue, hbool]
  | error =>
    rw [hdesired, if_neg (by decide)] at h
    have htext : (current lib sst element).text = desired.text := by simpa using h
    simp [htext]
  | number =>
    rw [hdesired, if_pos rfl] at h
    split at h
    · rename_i a b ha hb
      simp only [reduceCtorEq, false_and, or_self, not_false_eq_true, iff_true]
      exact ⟨_, a, b, rfl, ha, hb, h⟩
    · cases h

theorem shown_overlayCell {desired : Cache} (h : desired.Good lib) (element : Element) :
    desired.Shown lib (cachedText lib sst (overlayCell lib sst desired element)) ↔
      ¬Misread lib sst desired element := by
  unfold overlayCell
  split
  · rename_i hsame
    exact shown_same hsame
  · rename_i hsame
    exact iff_of_true (shown_write sst h element) fun hmis => hsame (same_of_misread hmis)

variable (lib sst) in
theorem sameFrame_overlayCell (desired : Cache) (element : Element) :
    SameFrame element (overlayCell lib sst desired element) := by
  unfold overlayCell
  split
  · exact ⟨rfl, rfl, fun _ _ => rfl, rfl⟩
  · exact sameFrame_write lib element desired

theorem overlayCell_twice (desired : Cache) (element : Element) :
    overlayCell lib sst desired (overlayCell lib sst desired element) =
      overlayCell lib sst desired element := by
  by_cases hsame : same lib sst element desired = true
  · have hcell : overlayCell lib sst desired element = element := if_pos hsame
    rw [hcell, hcell]
  · have hcell : overlayCell lib sst desired element = write lib element desired := if_neg hsame
    rw [hcell]
    unfold overlayCell
    rw [write_write, ite_self]

end Cells

end FinanceContext.Legacy
