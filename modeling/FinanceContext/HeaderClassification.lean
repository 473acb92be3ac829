import FinanceContext.CalendarMatch

/-!
One header: a stub word, or one date with a short tail. `classify_header` answers from its cache
and turns away integers and long prose before it looks.
-/

namespace FinanceContext.Headers

open Formula Patterns TokenGaps

section Source

variable (T : WordTable)

def brackets : List Char := ['(', ')', '[', ']', '«', '»']

def scanTokens (raw : List Char) : List (List Char) :=
  words T.toHeaderTable (raw.map fun ch => if ch ∈ brackets then ' ' else ch)

def stripPunctuation (token : List Char) : List Char :=
  stripChars (['.', ',', ';', ':', '[', ']', '«', '»', '"', '\''].contains ·) token

/-- `_clean_residual`, as the words it joins by a space. -/
def residualWords (text : List (List Char)) : List (List Char) :=
  (text.map stripPunctuation).filter (· ≠ [])

def cleanResidual (text : List Char) : List Char :=
  spaced ' ' (residualWords (words T.toHeaderTable text))

def periodRoots : List (List Char) :=
  ((yearWords ++ quarterWords ++ halfWords).map fun entry =>
    stripDots (entry.flatMap T.casefold)).filter (· ≠ [])

def tokenCollides (token : List Char) : Bool :=
  let folded := token.flatMap T.casefold
  blockedSurface T token || folded = ['q'] || folded = ['h'] ||
    [yearWords, quarterWords, halfWords].any (accepts T · token) ||
    (periodRoots T).any fun root =>
      3 ≤ root.length && root.isPrefixOf folded && root.length < folded.length

def residualCollides (text : List Char) : Bool := (letterRuns T text).any (tokenCollides T)

def residualOk (text : List Char) : Bool :=
  text ≠ [] && text.length ≤ 24 && (words T.toHeaderTable text).length ≤ 3 && !hasDigit T text &&
    !residualCollides T text

def withResidual (hit : PeriodHit) (residual : List Char) : Option PeriodHit :=
  let parts := (hit.variant.toList ++ [residual]).filter (· ≠ [])
  let text := cleanResidual T (spaced ' ' parts)
  if residual ≠ [] ∧ residualOk T text = false then none
  else
    some { kind := hit.kind, periodKey := hit.periodKey,
           variant := if text = [] then none else some text, explicitRole := text ≠ [] }

/-- The longest window from the front of a run that is a date; it keeps the last digit. -/
def windowHit (usableRun : List (List Char)) (lastDigit : ℕ) : ℕ → Option (ℕ × PeriodHit)
  | 0 => none
  | stop + 1 =>
    if stop < lastDigit then none
    else
      match calendarHit T (spaced ' ' (usableRun.take (stop + 1))) with
      | some hit => some (stop + 1, hit)
      | none => windowHit usableRun lastDigit stop

def lastDigitIn (tokens : List (List Char)) : Option ℕ :=
  (tokens.zipIdx.findRev? fun (token, _) => hasDigit T token).map Prod.snd

/-- The dates among the tokens from `index` on; `fuel` is at least the number of these. -/
def spansFrom : ℕ → ℕ → List (List Char) → List (ℕ × ℕ × PeriodHit)
  | 0, _, _ => []
  | _ + 1, _, [] => []
  | fuel + 1, index, token :: tokens =>
    if canSitInCalendar T token then
      let usableRun := (token :: tokens).takeWhile (canSitInCalendar T)
      match lastDigitIn T usableRun with
      | none => spansFrom fuel (index + usableRun.length)
          ((token :: tokens).drop usableRun.length)
      | some lastDigit =>
        match windowHit T usableRun lastDigit usableRun.length with
        | none => spansFrom fuel (index + 1) tokens
        | some (taken, hit) =>
          (index, index + taken, hit) :: spansFrom fuel (index + taken) ((token :: tokens).drop taken)
    else spansFrom fuel (index + 1) tokens

def residualHit (tokens : List (List Char)) : Option PeriodHit :=
  match spansFrom T tokens.length 0 tokens with
  | [(start, stop, hit)] =>
    withResidual T hit (cleanResidual T (spaced ' ' (tokens.take start ++ tokens.drop stop)))
  | _ => none

def oneCalendar (raw : List Char) : Option PeriodHit :=
  let tokens := scanTokens T raw
  if tokens = [] then none
  else if tokens.all (canSitInCalendar T) then (calendarHit T raw).or (residualHit T tokens)
  else residualHit T tokens

def isStub (raw : List Char) : Bool := stubWords.any (matchesEntry T raw)

def stubHit : PeriodHit where
  kind := .stub
  periodKey := "stub".toList
  explicitRole := true

def matchHeader (raw : List Char) : Option PeriodHit :=
  if isStub T raw then some stubHit else oneCalendar T raw

def cachedLength : ℕ := 40

def cacheSize : ℕ := 65536

def stableLetters (text : List Char) : Bool :=
  text.all fun ch => ch.toNat < 128 || (0x400 ≤ ch.toNat && ch.toNat ≤ 0x4ff)

def stripEdges (token : List Char) : List Char :=
  stripChars (['.', ',', ';', ':', '[', ']', '«', '»', '"', '\'', '(', ')'].contains ·) token

def outsideWordsFrom : ℕ → ℕ → List (List Char) → Bool
  | _, _, [] => false
  | outside, length, token :: tokens =>
    let stem := stripEdges (fold T token)
    if hasDigit T token || token.contains '/' then outsideWordsFrom outside length tokens
    else if stem = [] ∨ calendarStem T stem = true then outsideWordsFrom outside length tokens
    else
      let length := length + stem.length + if outside = 0 then 0 else 1
      if 3 < outside + 1 ∨ 24 < length then true
      else outsideWordsFrom (outside + 1) length tokens

def tooManyOutsideWords (text : List Char) : Bool :=
  outsideWordsFrom T 0 0 (words T.toHeaderTable text)

def outsideTokens (text : List Char) : List (List Char) :=
  (scanTokens T text).filter (!canSitInCalendar T ·)

def proseBlocksCalendar (collapsed : List Char) : Bool :=
  3 < (outsideTokens T collapsed).length ||
    24 < (cleanResidual T (spaced ' ' (outsideTokens T collapsed))).length

/-- `str.isascii` and `str.isdigit`. -/
def isAsciiDigits (text : List Char) : Bool := text ≠ [] && text.all Char.isDigit

def asciiDigitsOutsideYears (text : List Char) : Bool :=
  if text.length = 4 then
    isAsciiDigits text && (readNumber T text < 1900 || 2099 < readNumber T text)
  else isAsciiDigits text

/-- The headers `_classify` keeps, the last asked for in front. -/
abbrev HeaderCache := List (List Char × Option PeriodHit)

/-- `_classify` under `lru_cache`. -/
def classify (cache : HeaderCache) (raw : List Char) : Option PeriodHit × HeaderCache :=
  let hit := (cache.lookup raw).getD (matchHeader T raw)
  (hit, ((raw, hit) :: cache.filter (·.1 ≠ raw)).take cacheSize)

def classifyRaw (cache : HeaderCache) (raw : List Char) : Option PeriodHit × HeaderCache :=
  if cachedLength < raw.length then (matchHeader T raw, cache) else classify T cache raw

def isLong (text : List Char) : Bool := cachedLength < text.length

def classifyHeader (cache : HeaderCache) (text : Option (List Char)) :
    Option PeriodHit × HeaderCache :=
  match text with
  | none => (none, cache)
  | some text =>
    if asciiDigitsOutsideYears T text then (none, cache)
    else if isLong text && stableLetters text && tooManyOutsideWords T text then (none, cache)
    else if isLong text && proseBlocksCalendar T (collapseHeader T.toHeaderTable text) then
      (none, cache)
    else
      match normalizeHeader T.toHeaderTable (some text) with
      | none => (none, cache)
      | some raw => classifyRaw T cache raw

def matchNormalized (text : Option (List Char)) : Option PeriodHit :=
  (normalizeHeader T.toHeaderTable text).bind (matchHeader T)

def cacheAfter (texts : List (Option (List Char))) : HeaderCache :=
  texts.foldl (fun cache text => (classifyHeader T cache text).2) []

end Source

end FinanceContext.Headers
