import FinanceContext.FormulaScan
import FinanceContext.TokenGaps

namespace FinanceContext.Headers

open TokenGaps Formula

def lookalikes : List (Char × Char) :=
  [('А', 'A'), ('а', 'a'), ('В', 'B'), ('в', 'b'), ('С', 'C'), ('с', 'c'), ('Е', 'E'), ('е', 'e'),
    ('Н', 'H'), ('н', 'h'), ('К', 'K'), ('к', 'k'), ('М', 'M'), ('м', 'm'), ('О', 'O'), ('о', 'o'),
    ('Р', 'P'), ('р', 'p'), ('Т', 'T'), ('т', 't'), ('Х', 'X'), ('х', 'x')]

/-- The marker letters after a year: `E F A P` and Cyrillic letters. -/
def markerSuffix : List Char := ['E', 'F', 'A', 'P', 'е', 'Е', 'ф', 'Ф', 'п', 'П', 'a', 'А', 'а',
  'Р', 'р']

def translate (pairs : List (Char × Char)) (ch : Char) : Char := (pairs.lookup ch).getD ch

def toLatin : Char → Char := translate lookalikes

def toCyrillic : Char → Char := translate (lookalikes.map Prod.swap)

/-- `replace` of Ё, ё and of the no-break space. -/
def plainChar (ch : Char) : Char :=
  if ch = 'Ё' then 'Е' else if ch = 'ё' then 'е' else if ch = '\u00a0' then ' ' else ch

/-- The letters that folding writes. -/
def IsFolded (ch : Char) : Prop := ch.isAlpha = true ∨ (0x410 ≤ ch.toNat ∧ ch.toNat ≤ 0x44f)

instance (ch : Char) : Decidable (IsFolded ch) := inferInstanceAs (Decidable (_ ∨ _))

/-- Unicode as headers use it. A settled character never joins what stands before it; NFKC changes
the marks behind a letter only by joining some with it, and nothing joins a space. -/
structure HeaderTable extends TextTable where
  nfkc : List Char → List Char
  settled : Char → Bool
  space_blank : space ' ' = true
  space_nbsp : space '\u00a0' = true
  alpha_cyrillic : ∀ ch : Char, 0x400 ≤ ch.toNat → ch.toNat ≤ 0x481 → alpha ch = true
  nfkc_nfkc : ∀ text, nfkc (nfkc text) = nfkc text
  nfkc_piece : ∀ a b c, nfkc (a ++ b ++ c) = a ++ b ++ c → nfkc b = b
  nfkc_append : ∀ a b, (∀ ch ∈ b.head?, settled ch = true) → nfkc (a ++ b) = nfkc a ++ nfkc b
  nfkc_space : ∀ text, nfkc (' ' :: text) = ' ' :: nfkc text
  nfkc_marks : ∀ letter marks, IsFolded letter → nfkc marks = marks →
    (∀ mark ∈ marks, settled mark = false) → nfkc (letter :: marks) ≠ letter :: marks →
    (nfkc (letter :: marks)).length < (letter :: marks).length
  settled_decimal : ∀ ch, (decimal ch).isSome = true → settled ch = true
  settled_ascii : ∀ ch : Char, ch.toNat < 128 → settled ch = true
  settled_nbsp : settled '\u00a0' = true
  settled_cyrillic : ∀ ch : Char, 0x400 ≤ ch.toNat → ch.toNat ≤ 0x481 → settled ch = true
  nfkc_ascii : ∀ ch : Char, ch.toNat < 128 → nfkc [ch] = [ch]
  nfkc_cyrillic : ∀ ch : Char, 0x400 ≤ ch.toNat → ch.toNat ≤ 0x481 → nfkc [ch] = [ch]

section Source

variable (T : HeaderTable)

/-- `\d` -/
def isDigit (ch : Char) : Bool := isDecimal T.toTextTable ch

/-- `str.split()`. -/
def words (text : List Char) : List (List Char) := (text.splitOnP T.space).filter (· ≠ [])

def digitRun (sizes : List ℕ) (text : List Char) : Option (List Char) :=
  if (text.takeWhile (isDigit T)).length ∈ sizes then some (text.dropWhile (isDigit T))
  else none

def dateMark : List Char → Option (List Char)
  | [] => none
  | ch :: rest => if ch = '.' ∨ ch = '/' then some rest else none

def shortDateEdge (before : List Char) : Bool :=
  ((((digitRun T [4, 2] before).bind dateMark).bind (digitRun T [2, 1])).bind dateMark).bind
    (digitRun T [2, 1]) |>.any fun rest => (dateMark rest).isNone

def splitsNumber (before after : List Char) : Bool :=
  before.head?.any (isDigit T) && after.head?.any (isDigit T) && !shortDateEdge T before

def joinDigits (text : List Char) : List Char := dropGaps ' ' (splitsNumber T) [] text

def yearEdge : List Char → Bool
  | d₂ :: d₁ :: c₂ :: c₁ :: _ =>
    isDigit T d₂ && isDigit T d₁ && ((c₁ = '1' && c₂ = '9') || (c₁ = '2' && c₂ = '0'))
  | _ => false

def loneMarker : List Char → Bool
  | ch :: rest => ch ∈ markerSuffix && rest.head?.all T.space
  | [] => false

def splitsMarker (before after : List Char) : Bool := yearEdge T before && loneMarker T after

def glueMarkers (text : List Char) : List Char := dropGaps ' ' (splitsMarker T) [] text

def collapseHeader (text : List Char) : List Char :=
  glueMarkers T (joinDigits T (spaced ' ' (words T ((T.nfkc text).map plainChar))))

def ordinalEnd : List Char → Bool
  | [ch] => ch ∈ ['е', 'Е', 'й', 'Й', 'о', 'О']
  | [ch, ch'] => ch ∈ ['о', 'е', 'О', 'Е'] && ch' ∈ ['о', 'е', 'О', 'Е']
  | _ => false

def dropDash : List Char → List Char
  | ch :: rest => if ch ∈ ['-', '–', '—', '−'] then rest else ch :: rest
  | [] => []

def ordinalToken : List Char → Bool
  | num :: rest => num ∈ ['1', '2', '3', '4'] &&
    ordinalEnd ((dropDash (rest.dropWhile T.space)).dropWhile T.space)
  | [] => false

def letters (token : List Char) : List Char := token.filter T.alpha

def cyrillicLetters (token : List Char) : List Char :=
  (letters T token).filter fun ch => 0x400 ≤ ch.toNat ∧ ch.toNat ≤ 0x4ff

def latinLetters (token : List Char) : List Char :=
  (letters T token).filter fun ch => ch.toNat < 128

def foldPeriodToken (token : List Char) : List Char :=
  if ordinalToken T token || !token.any (isDigit T) then token
  else if (letters T token).length = 0 then token
  else if (letters T token).length = 1 then token.map toLatin
  else if (latinLetters T token).length = 1 ∧ 2 ≤ (cyrillicLetters T token).length then
    token.map toCyrillic
  else if (cyrillicLetters T token).length = 1 ∧ 2 ≤ (latinLetters T token).length then
    token.map toLatin
  else token

/-- `normalize_header`: nothing for no text and for a text of blanks. -/
def normalizeHeader (text : Option (List Char)) : Option (List Char) :=
  text.bind fun text =>
    let raw := collapseHeader T text
    if raw = [] then none
    else some (spaced ' ' ((raw.splitOn ' ').map (foldPeriodToken T)))

end Source

end FinanceContext.Headers
