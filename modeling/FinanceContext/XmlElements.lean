import Mathlib.Data.List.TakeWhile

namespace Xml

/-- An element. The attributes have no order, the text is empty where there is none, and the white
space between two children is left out. -/
inductive Element where
  | mk (tag : List Char) (attributes : String → Option String) (text : List Char)
      (children : List Element)

namespace Element

def tag : Element → List Char
  | mk tag _ _ _ => tag

def attributes : Element → String → Option String
  | mk _ attributes _ _ => attributes

def text : Element → List Char
  | mk _ _ text _ => text

def children : Element → List Element
  | mk _ _ _ children => children

end Element

def localName (tag : List Char) : List Char :=
  if tag.head? = some '{' then (tag.reverse.takeWhile (· ≠ '}')).reverse else tag

def qualified (tag name : List Char) : List Char :=
  if tag.head? = some '{' then
    (if '}' ∈ tag then ((tag.reverse.dropWhile (· ≠ '}')).drop 1).reverse else tag) ++ '}' :: name
  else name

namespace Element

theorem ext {a b : Element} (htag : a.tag = b.tag)
    (hattributes : ∀ name, a.attributes name = b.attributes name) (htext : a.text = b.text)
    (hchildren : a.children = b.children) : a = b := by
  cases a
  cases b
  have hmaps := funext hattributes
  dsimp only [tag, attributes, text, children] at htag hmaps htext hchildren
  rw [htag, hmaps, htext, hchildren]

def name (element : Element) : List Char := localName element.tag

def findChild (element : Element) (name : List Char) : Option Element :=
  element.children.find? (·.name = name)

mutual

def walk : Element → List Element
  | mk tag attributes text children => mk tag attributes text children :: walkAll children

def walkAll : List Element → List Element
  | [] => []
  | element :: elements => walk element ++ walkAll elements

end

/-- The elements of a name, the element itself among them. -/
def iterLocal (element : Element) (name : List Char) : List Element :=
  element.walk.filter (·.name = name)

/-- Another value for an attribute; `none` takes the attribute away. -/
def setAttribute (element : Element) (name : String) (value : Option String) : Element :=
  mk element.tag (fun other => if other = name then value else element.attributes other)
    element.text element.children

def setChildren (element : Element) (children : List Element) : Element :=
  mk element.tag element.attributes element.text children

theorem tag_setAttribute (element : Element) (name : String) (value : Option String) :
    (element.setAttribute name value).tag = element.tag := rfl

theorem text_setAttribute (element : Element) (name : String) (value : Option String) :
    (element.setAttribute name value).text = element.text := rfl

theorem attributes_setAttribute (element : Element) (name : String) (value : Option String)
    (other : String) : (element.setAttribute name value).attributes other =
      if other = name then value else element.attributes other := rfl

theorem children_setAttribute (element : Element) (name : String) (value : Option String) :
    (element.setAttribute name value).children = element.children := rfl

theorem tag_setChildren (element : Element) (children : List Element) :
    (element.setChildren children).tag = element.tag := rfl

theorem text_setChildren (element : Element) (children : List Element) :
    (element.setChildren children).text = element.text := rfl

theorem children_setChildren (element : Element) (children : List Element) :
    (element.setChildren children).children = children := rfl

theorem attributes_setChildren (element : Element) (children : List Element) :
    (element.setChildren children).attributes = element.attributes := rfl

end Element

/-- The name of a child is a plain name: no brace stands in it. -/
def PlainName (name : List Char) : Prop := '}' ∉ name ∧ name.head? ≠ some '{'

instance (name : List Char) : Decidable (PlainName name) := inferInstanceAs (Decidable (_ ∧ _))

theorem head?_beforeBrace {tag : List Char} (h : tag.head? = some '{') :
    (if '}' ∈ tag then ((tag.reverse.dropWhile (· ≠ '}')).drop 1).reverse else tag).head? =
      some '{' := by
  split
  · rename_i hmem
    obtain ⟨rest, rfl⟩ : ∃ rest, tag = '{' :: rest := by
      cases tag with
      | nil => cases h
      | cons ch rest => exact ⟨rest, by rw [Option.some.inj h]⟩
    have hrest : '}' ∈ rest.reverse := by simpa using hmem
    have hfound : rest.reverse.dropWhile (· ≠ '}') ≠ [] := by
      intro hnone
      have hall := List.dropWhile_eq_nil_iff.mp hnone '}' hrest
      simp at hall
    obtain ⟨brace, tail, htail⟩ := List.exists_cons_of_ne_nil hfound
    rw [List.reverse_cons, List.dropWhile_append, htail]
    simp
  · exact h

theorem localName_qualified (tag : List Char) {name : List Char} (h : PlainName name) :
    localName (qualified tag name) = name := by
  unfold qualified
  split
  · rename_i hbrace
    have hhead := head?_beforeBrace hbrace
    generalize (if '}' ∈ tag then ((tag.reverse.dropWhile (· ≠ '}')).drop 1).reverse else tag) =
      before at hhead ⊢
    have hstart : (before ++ '}' :: name).head? = some '{' := by
      rw [List.head?_append, hhead]
      rfl
    have hname : ∀ ch ∈ name.reverse, decide (ch ≠ '}') = true := by
      intro ch hch
      have hne : ch ≠ '}' := fun he => h.1 (he ▸ List.mem_reverse.mp hch)
      simpa using hne
    unfold localName
    rw [if_pos hstart, List.reverse_append, List.reverse_cons, List.append_assoc,
      List.takeWhile_append_of_pos hname]
    simp
  · unfold localName
    rw [if_neg h.2]

end Xml
