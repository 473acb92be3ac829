import FinanceContext.HeaderWords
import FinanceContext.LayoutModel
import FinanceContext.PeriodKeys

namespace FinanceContext.Headers

open Formula Patterns Periods CalendarDays Csr

structure PeriodHit where
  kind : ColumnKind := .period
  periodKey : List Char
  variant : Option (List Char) := none
  explicitRole : Bool := false
  deriving DecidableEq

section Patterns

variable (T : WordTable)

def char (ch : Char) : HeaderPattern := .one (· = ch)

def charIn (chars : List Char) : HeaderPattern := .one (chars.contains ·)

def anyCaseIn (chars : List Char) : HeaderPattern := .one (anyCase T (chars.contains ·))

/-- `\d` -/
def digit : HeaderPattern := .one (isDigit T.toHeaderTable)

/-- `\s*` -/
def spaces : HeaderPattern := .many T.space

def century : HeaderPattern :=
  .choice [.sequence [char '1', char '9'], .sequence [char '2', char '0']]

/-- `(?:19|20)\d{2}` -/
def fullYearPattern : HeaderPattern := .sequence [century, digit T, digit T]

/-- `(?:19|20)\d{2}|\d{2}` -/
def anyYearPattern : HeaderPattern := .choice [fullYearPattern T, .sequence [digit T, digit T]]

def suffixPattern : HeaderPattern := .opt (.group .sfx (charIn markerSuffix))

def anyCaseSuffix : HeaderPattern := .opt (.group .sfx (anyCaseIn T markerSuffix))

def yearFloatPattern : HeaderPattern :=
  .sequence [.group .year (fullYearPattern T),
    .opt (.sequence [char '.', char '0', .many (· = '0')])]

def yearFirstQuarter : HeaderPattern :=
  .sequence [.group .year (fullYearPattern T), spaces T, .opt (charIn ['-', '/']), spaces T,
    anyCaseIn T ['Q'], .group .num (charIn ['1', '2', '3', '4']), anyCaseSuffix T]

def halfMark : HeaderPattern := anyCaseIn T ['H', 'Н']

def yearFirstHalf : HeaderPattern :=
  .sequence [.group .year (fullYearPattern T), spaces T, .opt (charIn ['-', '/']), spaces T,
    halfMark T, .group .num (charIn ['1', '2']), anyCaseSuffix T]

def monthYearPattern : HeaderPattern :=
  .sequence [.group .month (.choice
      [.sequence [char '0', charIn ['1', '2', '3', '4', '5', '6', '7', '8', '9']],
        .sequence [char '1', charIn ['0', '1', '2']]]),
    charIn ['.', '/'], .group .year (fullYearPattern T), suffixPattern]

def fyShortPattern : HeaderPattern :=
  .sequence [wordPattern T ['F', 'Y'], spaces T, .group .year (.sequence [digit T, digit T]),
    anyCaseSuffix T]

def isoDayPattern : HeaderPattern :=
  .sequence [.group .year (fullYearPattern T), char '-',
    .group .month (.sequence [digit T, digit T]), char '-',
    .group .day (.sequence [digit T, digit T]), suffixPattern]

def isoMonthPattern : HeaderPattern :=
  .sequence [.group .year (fullYearPattern T), char '-',
    .group .month (.sequence [digit T, digit T]), suffixPattern]

/-- `_DATE_DMY` -/
def shortDatePattern : HeaderPattern :=
  .sequence [.group .day (.sequence [.opt (charIn ['0', '1', '2', '3']), digit T]),
    charIn ['.', '/'], .group .month (.sequence [.opt (charIn ['0', '1']), digit T]),
    charIn ['.', '/'], .group .year (anyYearPattern T), suffixPattern]

/-- `[A-Za-zА-Яа-яёЁ]` -/
def isNameLetter (ch : Char) : Bool :=
  ch.isAlpha || (0x410 ≤ ch.toNat && ch.toNat ≤ 0x44f) || ch = 'ё' || ch = 'Ё'

def namedMonthPattern : HeaderPattern :=
  .sequence [.group .word (.sequence [.one (anyCase T isNameLetter),
      .many (anyCase T isNameLetter)]),
    .opt (char '.'), spaces T, .opt (charIn ['-', '/', '.']), spaces T,
    .group .year (anyYearPattern T), anyCaseSuffix T]

def yearWord : HeaderPattern :=
  .opt (.sequence [spaces T, entriesPattern T yearWords, .opt (char '.')])

def yearPattern : HeaderPattern :=
  .sequence [.opt (.sequence [wordPattern T ['F', 'Y'], spaces T]),
    .group .year (fullYearPattern T), yearWord T, anyCaseSuffix T]

def cyrillicHalf : HeaderPattern :=
  .sequence [.group .num (charIn ['1', '2']), spaces T, anyCaseIn T ['П', 'п'], spaces T,
    .group .year (anyYearPattern T), yearWord T, anyCaseSuffix T]

def partYear : HeaderPattern :=
  .opt (.sequence
    [.choice [.sequence [spaces T, charIn ['-', '/'], spaces T],
        .sequence [spaces T, .opt (char '\''), spaces T]],
      .group .year (anyYearPattern T), yearWord T, anyCaseSuffix T])

def ordinalPattern : HeaderPattern :=
  .opt (.sequence [spaces T, .opt (charIn ['-', '–', '—', '−']), spaces T,
    wordChoice T (["й", "ый", "ой", "е", "ое"].map String.toList)])

def quarterWord : HeaderPattern := .sequence [entriesPattern T quarterWords, .opt (char '.')]

def halfWord : HeaderPattern := .sequence [entriesPattern T halfWords, .opt (char '.')]

/-- `[1-4]|IV|I{1,3}` -/
def quarterNumber : HeaderPattern :=
  .group .num (.choice [charIn ['1', '2', '3', '4'], wordPattern T ['I', 'V'],
    .sequence [anyCaseIn T ['I'], .opt (.sequence [anyCaseIn T ['I'], .opt (anyCaseIn T ['I'])])]])

/-- `[12]|I{1,2}` -/
def halfNumber : HeaderPattern :=
  .group .num (.choice [charIn ['1', '2'],
    .sequence [anyCaseIn T ['I'], .opt (anyCaseIn T ['I'])]])

def quarterWordForms : List HeaderPattern :=
  [.sequence [quarterNumber T, ordinalPattern T, spaces T, quarterWord T, partYear T],
    .sequence [quarterWord T, spaces T, quarterNumber T, partYear T]]

def quarterCodeForms : List HeaderPattern :=
  [.sequence [anyCaseIn T ['Q'], .group .num (charIn ['1', '2', '3', '4']), partYear T],
    .sequence [.group .num (charIn ['1', '2', '3', '4']), spaces T, anyCaseIn T ['Q'], partYear T]]

def halfWordForms : List HeaderPattern :=
  [.sequence [halfNumber T, ordinalPattern T, spaces T, halfWord T, partYear T],
    .sequence [halfWord T, spaces T, halfNumber T, partYear T]]

def halfCodeForms : List HeaderPattern :=
  [.sequence [.group .num (charIn ['1', '2']), spaces T, anyCaseIn T ['п'], spaces T, char '/',
      spaces T, anyCaseIn T ['г'], .opt (char '.'), partYear T],
    .sequence [halfMark T, .group .num (charIn ['1', '2']), partYear T],
    .sequence [.group .num (charIn ['1', '2']), spaces T, halfMark T, partYear T]]

def partMarker : HeaderPattern :=
  .choice [.sequence [anyCaseIn T ['q'], spaces T, charIn ['1', '2', '3', '4']],
    .sequence [charIn ['1', '2', '3', '4'], spaces T, anyCaseIn T ['q']],
    .sequence [anyCaseIn T ['h', 'н'], spaces T, charIn ['1', '2']],
    .sequence [charIn ['1', '2'], spaces T, anyCaseIn T ['h', 'н']],
    wordPattern T "кв".toList, wordPattern T "quarter".toList, wordPattern T "полугод".toList,
    wordPattern T "half".toList, wordPattern T "пол".toList,
    .sequence [charIn ['1', '2'], spaces T, anyCaseIn T ['п']]]

end Patterns

section Hits

variable (T : WordTable)

def suffixedHit (periodKey : List Char) (suffix : Option (List Char)) : PeriodHit where
  periodKey := periodKey
  variant := suffix
  explicitRole := suffix.isSome

def padded (width n : ℕ) : List Char :=
  let digits := (toString n).toList
  List.replicate (width - digits.length) '0' ++ digits

def readNumber (digits : List Char) : ℕ := readInt T.decimal digits

def fullYear (raw : List Char) : List Char := if raw.length = 2 then '2' :: '0' :: raw else raw

def ymdHit (year month day : ℕ) (suffix : Option (List Char)) : Option PeriodHit :=
  if (⟨year, month, day⟩ : Date).Valid then
    some (suffixedHit (padded 4 year ++ '-' :: padded 2 month ++ '-' :: padded 2 day) suffix)
  else none

def field (groups : List (PatternGroup × List Char)) (name : PatternGroup) : List Char :=
  (groups.lookup name).getD []

def isoDayHit (raw : List Char) : Option PeriodHit :=
  (fullMatch (isoDayPattern T) raw).bind fun groups =>
    ymdHit (readNumber T (field groups .year)) (readNumber T (field groups .month))
      (readNumber T (field groups .day)) (groups.lookup .sfx)

def isoMonthHit (raw : List Char) : Option PeriodHit :=
  (fullMatch (isoMonthPattern T) raw).bind fun groups =>
    let month := readNumber T (field groups .month)
    if 1 ≤ month ∧ month ≤ 12 then
      some (suffixedHit (field groups .year ++ '-' :: padded 2 month) (groups.lookup .sfx))
    else none

def shortDateHit (raw : List Char) : Option PeriodHit :=
  (fullMatch (shortDatePattern T) raw).bind fun groups =>
    ymdHit (readNumber T (fullYear (field groups .year))) (readNumber T (field groups .month))
      (readNumber T (field groups .day)) (groups.lookup .sfx)

def monthYearHit (raw : List Char) : Option PeriodHit :=
  (fullMatch (monthYearPattern T) raw).map fun groups =>
    suffixedHit (field groups .year ++ '-' :: field groups .month) (groups.lookup .sfx)

def monthNumber (token : List Char) : Option ℕ :=
  (monthNumbers T).lookup ((fold T token).reverse.dropWhile (· = '.')).reverse

def monthHit (raw : List Char) : Option PeriodHit :=
  (fullMatch (namedMonthPattern T) raw).bind fun groups =>
    (monthNumber T (field groups .word)).map fun month =>
      suffixedHit (fullYear (field groups .year) ++ '-' :: padded 2 month) (groups.lookup .sfx)

structure PartOfYear where
  grain : Char
  num : ℕ
  year : Option (List Char)
  sfx : Option (List Char)

def confirmed (raw : List Char) (entries : List (List Char)) : Bool :=
  (letterRuns T raw).any (accepts T entries)

def romanNumber (token : List Char) : Option ℕ :=
  [("I".toList, 1), ("II".toList, 2), ("III".toList, 3), ("IV".toList, 4)].lookup token

def formPart (raw : List Char) (grain : Char) (top : ℕ) (entries : Option (List (List Char)))
    (form : HeaderPattern) : Option PartOfYear :=
  (fullMatch form raw).bind fun groups =>
    if entries.any (fun entries => !confirmed T raw entries) then none
    else
      let token := (field groups .num).flatMap T.upper
      let num := (romanNumber token).getD (readNumber T token)
      if 1 ≤ num ∧ num ≤ top then some ⟨grain, num, groups.lookup .year, groups.lookup .sfx⟩
      else none

def wordOrCodePart (raw : List Char) : Option PartOfYear :=
  ((quarterCodeForms T).findSome? (formPart T raw 'Q' 4 none)).or <|
    ((halfCodeForms T).findSome? (formPart T raw 'H' 2 none)).or <|
    ((quarterWordForms T).findSome? (formPart T raw 'Q' 4 (some quarterWords))).or <|
    (halfWordForms T).findSome? (formPart T raw 'H' 2 (some halfWords))

def yearFirstPart (raw : List Char) (grain : Char) (top : ℕ) (form : HeaderPattern) :
    Option PartOfYear :=
  (fullMatch form raw).bind fun groups =>
    let num := readNumber T (field groups .num)
    if 1 ≤ num ∧ num ≤ top then some ⟨grain, num, groups.lookup .year, groups.lookup .sfx⟩
    else none

def partOfYear (raw : List Char) : Option PartOfYear :=
  if found (partMarker T) raw then
    match fullMatch (cyrillicHalf T) raw with
    | some groups =>
      some ⟨'H', readNumber T (field groups .num), groups.lookup .year, groups.lookup .sfx⟩
    | none =>
      (yearFirstPart T raw 'Q' 4 (yearFirstQuarter T)).or <|
        (yearFirstPart T raw 'H' 2 (yearFirstHalf T)).or (wordOrCodePart T raw)
  else none

def partHit (raw : List Char) : Option PeriodHit :=
  (partOfYear T raw).bind fun part => part.year.map fun year =>
    suffixedHit (fullYear year ++ part.grain :: (toString part.num).toList) part.sfx

def fyHit (raw : List Char) : Option PeriodHit :=
  (fullMatch (fyShortPattern T) raw).map fun groups =>
    suffixedHit (fullYear (field groups .year)) (groups.lookup .sfx)

/-- `re.fullmatch` of one marker letter under `re.IGNORECASE`. -/
def isMarkerLetter : List Char → Bool
  | [ch] => anyCase T (markerSuffix.contains ·) ch
  | _ => false

def yearWordsOk (raw : List Char) : Bool :=
  (letterRuns T raw).all fun token =>
    token.flatMap T.casefold = ['f', 'y'] || isMarkerLetter T token || accepts T yearWords token

def yearHit (raw : List Char) : Option PeriodHit :=
  (fullMatch (yearPattern T) raw).bind fun groups =>
    if yearWordsOk T raw then some (suffixedHit (field groups .year) (groups.lookup .sfx)) else none

def yearFloatHit (raw : List Char) : Option PeriodHit :=
  (fullMatch (yearFloatPattern T) raw).map fun groups => { periodKey := field groups .year }

def matchCalendarText (raw : List Char) : Option PeriodHit :=
  if hasDigit T raw then
    (isoDayHit T raw).or <| (isoMonthHit T raw).or <| (shortDateHit T raw).or <|
      (monthYearHit T raw).or <| (monthHit T raw).or <| (partHit T raw).or <| (fyHit T raw).or <|
      (yearHit T raw).or (yearFloatHit T raw)
  else none

def isCalendarKey (key : List Char) : Bool :=
  (yearKey T.toCharTable key).isSome || (monthKey T.toCharTable key).isSome ||
    (dateKey T.toCharTable key).isSome || (quarterKey T.toCharTable key).isSome ||
    (halfKey T.toCharTable key).isSome

def calendarHit (raw : List Char) : Option PeriodHit :=
  (matchCalendarText T raw).filter fun hit => isCalendarKey T hit.periodKey

end Hits

end FinanceContext.Headers
