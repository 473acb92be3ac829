import FinanceContext.HeaderNormalization
import FinanceContext.Patterns

namespace FinanceContext.Headers

open Formula Patterns

/-- Letters as words of headers use them: `str.casefold`, and the characters that `re.IGNORECASE`
takes for the same. -/
structure WordTable extends HeaderTable where
  casefold : Char → List Char
  variants : Char → List Char
  casefold_ne_nil : ∀ ch, casefold ch ≠ []
  casefold_ascii : ∀ ch : Char, ch.toNat < 128 → casefold ch = [ch.toLower]
  casefold_quotes : ∀ ch ∈ ['«', '»'], casefold ch = [ch]
  casefold_small : ∀ ch : Char, 0x430 ≤ ch.toNat → ch.toNat ≤ 0x44f → casefold ch = [ch]
  dot_of_casefold : ∀ ch, '.' ∈ casefold ch → ch = '.'
  variants_decimal : ∀ ch, (decimal ch).isSome = true → variants ch = [ch]

inductive PatternGroup where
  | year | month | day | num | sfx | word
  deriving DecidableEq

abbrev HeaderPattern := Pattern Char PatternGroup

def inflections : List (List Char) :=
  ["а", "я", "у", "ю", "е", "и", "ы", "о", "ой", "ий", "ый", "ом", "ем", "ов", "ев", "ах", "ях",
    "ам", "ям", "ами", "ями", "s", "es", "ed", "ing"].map String.toList

def paradigms : List (List Char × List (List Char)) :=
  [("ый", ["ый", "ая", "ое", "ого", "ому", "ым", "ую", "ые", "ых", "ыми"]),
    ("ой", ["ой", "ая", "ое", "ого", "ому", "ым", "ую", "ые", "ых", "ыми"]),
    ("ий", ["ий", "ия", "ию", "ием", "ии", "иев", "иям", "иях", "иями"]),
    ("ие", ["е", "я", "ю", "ем", "и"])].map fun (ending, forms) =>
      (ending.toList, forms.map String.toList)

def quarterWords : List (List Char) := ["кв", "квартал", "quarter"].map String.toList

def halfWords : List (List Char) := ["полугодие", "half", "пол"].map String.toList

def yearWords : List (List Char) := ["г", "гг", "год", "года", "году"].map String.toList

def stubWords : List (List Char) := ["stub", "частичный", "partial"].map String.toList

def notPeriod : List (List Char) :=
  ["квт", "квота", "квот", "квм", "квартира", "график", "группа", "годовой", "quarterly"].map
    String.toList

def monthCitations : List (ℕ × List (List Char)) :=
  [(1, ["jan", "january", "янв", "январь"]), (2, ["feb", "february", "фев", "февр", "февраль"]),
    (3, ["mar", "march", "мар", "март"]), (4, ["apr", "april", "апр", "апрель"]),
    (5, ["may", "май"]), (6, ["jun", "june", "июн", "июнь"]), (7, ["jul", "july", "июл", "июль"]),
    (8, ["aug", "august", "авг", "август"]),
    (9, ["sep", "sept", "september", "сен", "сент", "сентябрь"]),
    (10, ["oct", "october", "окт", "октябрь"]), (11, ["nov", "november", "ноя", "нояб", "ноябрь"]),
    (12, ["dec", "december", "дек", "декабрь"])].map fun (number, forms) =>
      (number, forms.map String.toList)

section Source

variable (T : WordTable)

def fold (text : List Char) : List Char :=
  (text.flatMap T.casefold).map fun ch => if ch = 'ё' then 'е' else ch

def stripDots (text : List Char) : List Char := stripChars (· = '.') text

/-- `_paradigm`: the stem of a citation form, and its endings. -/
def paradigm (root : List Char) : Option (List Char × List (List Char)) :=
  (paradigms.find? fun (ending, _) =>
    ending.isSuffixOf root && 4 ≤ root.length - ending.length).map fun (ending, forms) =>
      if ending = "ие".toList then (root.dropLast, forms)
      else (root.take (root.length - ending.length), forms)

def sameParadigm (token root : List Char) : Bool :=
  match paradigm root with
  | none => false
  | some (stem, forms) => stem.isPrefixOf token && token.drop stem.length ∈ forms

def matchesEntry (surface entry : List Char) : Bool :=
  let token := stripDots (fold T surface)
  let root := stripDots (fold T entry)
  if token = [] ∨ root = [] then false
  else if token = root then true
  else if token ∈ notPeriod ∨ ' ' ∈ root ∨ root.length ≤ 3 then false
  else if root.isPrefixOf token ∧ token.drop root.length ∈ inflections then true
  else sameParadigm token root

def accepts (entries : List (List Char)) (surface : List Char) : Bool :=
  entries.any (matchesEntry T surface)

def blockedSurface (surface : List Char) : Bool := stripDots (fold T surface) ∈ notPeriod

def isSmallRussian (ch : Char) : Bool := 0x430 ≤ ch.toNat ∧ ch.toNat ≤ 0x44f

def ruCases (name : List Char) : List (List Char) :=
  let folded := fold T name
  if folded.getLast? = some 'ь' ∨ folded.getLast? = some 'й' then
    folded :: ["я", "ю", "ем", "е"].map fun ending => folded.dropLast ++ ending.toList
  else if folded.any isSmallRussian then
    folded :: ["а", "у", "ом", "е"].map fun ending => folded ++ ending.toList
  else []

def expandMonth (folded : List Char) : Bool :=
  folded.any isSmallRussian &&
    (folded.getLast? = some 'ь' || folded.getLast? = some 'й' || 4 ≤ folded.length)

/-- `setdefault` -/
def setDefault (number : ℕ) (found : List (List Char × ℕ)) (form : List Char) :
    List (List Char × ℕ) :=
  if (found.lookup form).isSome then found else (form, number) :: found

def addMonthForm (number : ℕ) (found : List (List Char × ℕ)) (form : List Char) :
    List (List Char × ℕ) :=
  let folded := ((fold T form).reverse.dropWhile (· = '.')).reverse
  let found := (folded, number) :: found
  if expandMonth folded then (ruCases T form).foldl (setDefault number) found else found

/-- `_months`; the last one set is in front. -/
def monthNumbers : List (List Char × ℕ) :=
  monthCitations.foldl (fun found (number, forms) => forms.foldl (addMonthForm T number) found) []

def calendarTokens : List (List Char) :=
  ["fy", "q", "h", "н", "п", "i", "ii", "iii", "iv", "й", "ый", "ой", "е", "ое", "-", "–", "—",
    "−"].map String.toList

def calendarStem (stem : List Char) : Bool :=
  stem ∈ calendarTokens || ((monthNumbers T).lookup stem).isSome ||
    (stem ≠ [] && (accepts T quarterWords stem || accepts T halfWords stem ||
      accepts T yearWords stem))

def hasDigit (token : List Char) : Bool := token.any (isDigit T.toHeaderTable)

def canSitInCalendar (token : List Char) : Bool :=
  hasDigit T token || token.contains '/' || calendarStem T (stripDots (fold T token))

/-- `[^\W\d_]` -/
def isLetter (ch : Char) : Bool :=
  isWord T.toTextTable ch && !isDigit T.toHeaderTable ch && ch != '_'

/-- `re.findall` of runs of letters. -/
def letterRuns (text : List Char) : List (List Char) :=
  (text.splitOnP (!isLetter T ·)).filter (· ≠ [])

/-- A class of characters under `re.IGNORECASE`. -/
def anyCase (p : Char → Bool) (ch : Char) : Bool := (T.variants ch).any p

/-- A word under `re.IGNORECASE`. -/
def wordPattern (word : List Char) : HeaderPattern :=
  .sequence (word.map fun ch => .one (anyCase T (· = ch)))

def wordChoice (words : List (List Char)) : HeaderPattern := .choice (words.map (wordPattern T))

def byLength (words : List (List Char)) : List (List Char) :=
  words.insertionSort fun a b => b.length ≤ a.length

def candidate (entry : List Char) : HeaderPattern :=
  let root := fold T entry
  if ' ' ∈ root ∨ root.length ≤ 3 then wordPattern T root
  else
    match paradigm root with
    | some (stem, forms) => .sequence [wordPattern T stem, wordChoice T (byLength forms)]
    | none => .sequence [wordPattern T root, .opt (wordChoice T (byLength inflections))]

def entriesPattern (entries : List (List Char)) : HeaderPattern :=
  .sequence [.choice ((byLength entries).map (candidate T)), .notBefore (isLetter T)]

end Source

end FinanceContext.Headers
