import FinanceContext.Dictionaries
import FinanceContext.JsonStream

/-!
`json.loads` for texts without fractions, and what it makes of the text of a document.
-/

namespace FinanceContext.JsonStream

open Dictionaries

section Reader

def isBlank (ch : Char) : Bool := ch = ' ' || ch = '\t' || ch = '\n' || ch = '\r'

def skipBlanks (text : Text) : Text := text.dropWhile isBlank

def hexDigit (ch : Char) : Option ℕ :=
  if 48 ≤ ch.toNat ∧ ch.toNat ≤ 57 then some (ch.toNat - 48)
  else if 97 ≤ ch.toNat ∧ ch.toNat ≤ 102 then some (ch.toNat - 87)
  else if 65 ≤ ch.toNat ∧ ch.toNat ≤ 70 then some (ch.toNat - 55)
  else none

def readHex : Text → Option (ℕ × Text)
  | a :: b :: c :: d :: rest =>
    (hexDigit a).bind fun a => (hexDigit b).bind fun b => (hexDigit c).bind fun c =>
      (hexDigit d).map fun d => (((a * 16 + b) * 16 + c) * 16 + d, rest)
  | _ => none

/-- The character of one code point, or of a pair of surrogates; a lone surrogate is none. -/
def readCode (text : Text) : Option (Char × Text) :=
  (readHex text).bind fun high =>
    if 0xd800 ≤ high.1 ∧ high.1 ≤ 0xdbff then
      match high.2 with
      | '\\' :: 'u' :: rest =>
        (readHex rest).bind fun low =>
          if 0xdc00 ≤ low.1 ∧ low.1 ≤ 0xdfff then
            some (Char.ofNat (0x10000 + (high.1 - 0xd800) * 0x400 + (low.1 - 0xdc00)), low.2)
          else none
      | _ => none
    else if 0xdc00 ≤ high.1 ∧ high.1 ≤ 0xdfff then none
    else some (Char.ofNat high.1, high.2)

def readEscape : Text → Option (Char × Text)
  | '"' :: rest => some ('"', rest)
  | '\\' :: rest => some ('\\', rest)
  | '/' :: rest => some ('/', rest)
  | 'b' :: rest => some (Char.ofNat 8, rest)
  | 'f' :: rest => some (Char.ofNat 12, rest)
  | 'n' :: rest => some ('\n', rest)
  | 'r' :: rest => some ('\r', rest)
  | 't' :: rest => some ('\t', rest)
  | 'u' :: rest => readCode rest
  | _ => none

def readChar : Text → Option (Char × Text)
  | [] => none
  | ch :: rest =>
    if ch = '\\' then readEscape rest
    else if ch.toNat < 32 then none
    else some (ch, rest)

def readChars : ℕ → Text → Option (Text × Text)
  | 0, _ => none
  | fuel + 1, text =>
    if text.head? = some '"' then some ([], text.tail)
    else (readChar text).bind fun first =>
      (readChars fuel first.2).map fun found => (first.1 :: found.1, found.2)

def readString (text : Text) : Option (String × Text) :=
  (readChars (text.length + 1) text).map fun found => (String.ofList found.1, found.2)

def readNatural : Text → Option (ℕ × Text)
  | [] => none
  | ch :: rest =>
    if ch = '0' then some (0, rest)
    else if ch.isDigit then
      some (Nat.ofDigitChars 10 ((ch :: rest).takeWhile Char.isDigit) 0,
        (ch :: rest).dropWhile Char.isDigit)
    else none

def readInteger (text : Text) : Option (ℤ × Text) :=
  if text.head? = some '-' then (readNatural text.tail).map fun found => (-found.1, found.2)
  else (readNatural text).map fun found => (found.1, found.2)

/-- A fraction or an exponent makes a float, and floats are no part of the model. -/
def isFraction (ch : Char) : Bool := ch = '.' || ch = 'e' || ch = 'E'

def readNumber (text : Text) : Option (Json × Text) :=
  (readInteger text).bind fun found =>
    if (found.2.head?).any isFraction then none else some (.int found.1, found.2)

def readConstant (word : Text) (value : Json) (text : Text) : Option (Json × Text) :=
  if word <+: text then some (value, text.drop word.length) else none

mutual

def readValue : ℕ → Text → Option (Json × Text)
  | 0, _ => none
  | _ + 1, [] => none
  | fuel + 1, ch :: rest =>
    if ch = '"' then (readString rest).map fun found => (.str found.1, found.2)
    else if ch = '{' then
      if (skipBlanks rest).head? = some '}' then some (.object [], (skipBlanks rest).tail)
      else (readFields fuel (skipBlanks rest)).map fun found => (.object (filled found.1), found.2)
    else if ch = '[' then
      if (skipBlanks rest).head? = some ']' then some (.array [], (skipBlanks rest).tail)
      else (readItems fuel (skipBlanks rest)).map fun found => (.array found.1, found.2)
    else if ch = 'n' then readConstant ['u', 'l', 'l'] .null rest
    else if ch = 't' then readConstant ['r', 'u', 'e'] (.bool true) rest
    else if ch = 'f' then readConstant ['a', 'l', 's', 'e'] (.bool false) rest
    else readNumber (ch :: rest)

def readItems : ℕ → Text → Option (List Json × Text)
  | 0, _ => none
  | fuel + 1, text =>
    (readValue fuel text).bind fun item =>
      match skipBlanks item.2 with
      | ']' :: rest => some ([item.1], rest)
      | ',' :: rest =>
        (readItems fuel (skipBlanks rest)).map fun found => (item.1 :: found.1, found.2)
      | _ => none

def readFields : ℕ → Text → Option (List (String × Json) × Text)
  | 0, _ => none
  | fuel + 1, text =>
    match text with
    | '"' :: rest =>
      (readString rest).bind fun key =>
        match skipBlanks key.2 with
        | ':' :: rest =>
          (readValue fuel (skipBlanks rest)).bind fun item =>
            match skipBlanks item.2 with
            | '}' :: rest => some ([(key.1, item.1)], rest)
            | ',' :: rest =>
              (readFields fuel (skipBlanks rest)).map fun found =>
                ((key.1, item.1) :: found.1, found.2)
            | _ => none
        | _ => none
    | _ => none

end

def loads (text : Text) : Option Json :=
  (readValue (text.length + 1) (skipBlanks text)).bind fun found =>
    if skipBlanks found.2 = [] then some found.1 else none

end Reader

section Strings

theorem readChar_escapeChar (ch : Char) (rest : Text) :
    (escapeChar ch ++ rest).head? ≠ some '"' ∧
      readChar (escapeChar ch ++ rest) = some (ch, rest) := by
  unfold escapeChar
  split_ifs with hquote hslash hnewline hreturn htab hfeed hback hcontrol
  · subst hquote
    exact ⟨by simp, rfl⟩
  · subst hslash
    exact ⟨by simp, rfl⟩
  · subst hnewline
    exact ⟨by simp, rfl⟩
  · subst hreturn
    exact ⟨by simp, rfl⟩
  · subst htab
    exact ⟨by simp, rfl⟩
  · have hch : ch = Char.ofNat 12 := by rw [← hfeed, Char.ofNat_toNat]
    subst hch
    exact ⟨by simp, rfl⟩
  · have hch : ch = Char.ofNat 8 := by rw [← hback, Char.ofNat_toNat]
    subst hch
    exact ⟨by simp, rfl⟩
  · refine ⟨by simp, ?_⟩
    have hhex : ∀ n < 16, hexDigit (Nat.digitChar n) = some n := by decide
    have hhigh := hhex (ch.toNat / 16) (by omega)
    have hlow := hhex (ch.toNat % 16) (by omega)
    have hzero : hexDigit '0' = some 0 := by decide
    have hcode : ((0 * 16 + 0) * 16 + ch.toNat / 16) * 16 + ch.toNat % 16 = ch.toNat := by omega
    have hread : readHex ('0' :: '0' :: Nat.digitChar (ch.toNat / 16) ::
        Nat.digitChar (ch.toNat % 16) :: rest) = some (ch.toNat, rest) := by
      simp only [readHex, hzero, hhigh, hlow, Option.bind_some, Option.map_some, hcode]
    have hplain : ¬(0xd800 ≤ ch.toNat ∧ ch.toNat ≤ 0xdbff) := by omega
    have hplain' : ¬(0xdc00 ≤ ch.toNat ∧ ch.toNat ≤ 0xdfff) := by omega
    change (readHex ('0' :: '0' :: Nat.digitChar (ch.toNat / 16) ::
      Nat.digitChar (ch.toNat % 16) :: rest)).bind _ = _
    rw [hread, Option.bind_some, if_neg hplain, if_neg hplain', Char.ofNat_toNat]
  · refine ⟨by simpa using hquote, ?_⟩
    change (if ch = '\\' then _ else if ch.toNat < 32 then _ else _) = _
    rw [if_neg hslash, if_neg hcontrol]
    rfl

theorem readChars_escaped {fuel : ℕ} {text : Text} (h : text.length < fuel) (rest : Text) :
    readChars fuel (text.flatMap escapeChar ++ '"' :: rest) = some (text, rest) := by
  induction text generalizing fuel with
  | nil =>
    obtain ⟨n, rfl⟩ := Nat.exists_eq_add_of_lt h
    rfl
  | cons ch text ih =>
    obtain ⟨n, rfl⟩ : ∃ n, fuel = n + 1 := ⟨fuel - 1, by omega⟩
    have hlength : text.length < n := by
      rw [List.length_cons] at h
      omega
    obtain ⟨hhead, hread⟩ := readChar_escapeChar ch (text.flatMap escapeChar ++ '"' :: rest)
    rw [List.flatMap_cons, List.append_assoc, readChars, if_neg hhead, hread, Option.bind_some,
      ih hlength]
    rfl

theorem length_le_escaped (text : Text) : text.length ≤ (text.flatMap escapeChar).length := by
  induction text with
  | nil => exact Nat.le_refl 0
  | cons ch text ih =>
    have hpos : 0 < (escapeChar ch).length := by
      unfold escapeChar
      split_ifs <;> simp
    rw [List.flatMap_cons, List.length_append, List.length_cons]
    omega

theorem readString_encoded (text : String) (rest : Text) :
    readString (text.toList.flatMap escapeChar ++ '"' :: rest) = some (text, rest) := by
  have hlength := length_le_escaped text.toList
  unfold readString
  rw [readChars_escaped (by rw [List.length_append]; omega), Option.map_some,
    String.ofList_toList]

end Strings

section Numbers

/-- The text goes on with no character a number could go on with. -/
def Stops (rest : Text) : Prop := ∀ ch ∈ rest.head?, ch.isDigit = false ∧ isFraction ch = false

theorem head_toDigits {n : ℕ} (h : 0 < n) :
    ∃ ch rest, Nat.toDigits 10 n = ch :: rest ∧ ch ≠ '0' := by
  induction n using Nat.strongRecOn with
  | ind n ih =>
    rcases Nat.lt_or_ge n 10 with hlt | hge
    · have hdigit : ∀ n < 10, 0 < n → Nat.digitChar n ≠ '0' := by decide
      exact ⟨_, [], Nat.toDigits_of_lt_base hlt, hdigit n hlt h⟩
    · obtain ⟨ch, rest, hdigits, hne⟩ := ih (n / 10) (by omega) (by omega)
      rw [Nat.toDigits_of_base_le (by decide) hge, hdigits]
      exact ⟨ch, _, rfl, hne⟩

theorem readNatural_toDigits (n : ℕ) {rest : Text} (h : Stops rest) :
    readNatural (Nat.toDigits 10 n ++ rest) = some (n, rest) := by
  rcases Nat.eq_zero_or_pos n with rfl | hpos
  · rw [Nat.toDigits_zero]
    rfl
  · obtain ⟨ch, digits, hdigits, hne⟩ := head_toDigits hpos
    have hall : ∀ ch ∈ Nat.toDigits 10 n, ch.isDigit = true := fun ch hch =>
      Nat.isDigit_of_mem_toDigits (by decide) (by decide) hch
    have hdigit : ch.isDigit = true := hall ch (by rw [hdigits]; exact List.mem_cons_self)
    have hread : readNatural (Nat.toDigits 10 n ++ rest) =
        some (Nat.ofDigitChars 10 ((Nat.toDigits 10 n ++ rest).takeWhile Char.isDigit) 0,
          (Nat.toDigits 10 n ++ rest).dropWhile Char.isDigit) := by
      rw [hdigits, List.cons_append, readNatural, if_neg hne, if_pos hdigit]
    have hstop : rest.takeWhile Char.isDigit = [] ∧ rest.dropWhile Char.isDigit = rest := by
      cases rest with
      | nil => exact ⟨rfl, rfl⟩
      | cons next rest =>
        have hnext : ¬next.isDigit = true := by simp [(h next rfl).1]
        exact ⟨List.takeWhile_cons_of_neg hnext, List.dropWhile_cons_of_neg hnext⟩
    rw [hread, List.takeWhile_append_of_pos hall, List.dropWhile_append_of_pos hall, hstop.1,
      hstop.2, List.append_nil, Nat.ofDigitChars_ten_toDigits]

theorem readInteger_toString (value : ℤ) {rest : Text} (h : Stops rest) :
    readInteger ((toString value).toList ++ rest) = some (value, rest) := by
  have htext (n : ℕ) : (toString n).toList = Nat.toDigits 10 n := by
    rw [show toString n = n.repr from rfl, Nat.toList_repr]
  cases value with
  | ofNat n =>
    have hsame : (toString (Int.ofNat n)).toList = Nat.toDigits 10 n := htext n
    have hhead : (Nat.toDigits 10 n ++ rest).head? ≠ some '-' := by
      obtain ⟨ch, digits, hdigits⟩ := List.exists_cons_of_ne_nil (Nat.toDigits_ne_nil (n := n) (b := 10))
      have hmem : ch ∈ Nat.toDigits 10 n := by
        rw [hdigits]
        exact List.mem_cons_self
      have hdigit := Nat.isDigit_of_mem_toDigits (by decide) (by decide) hmem
      rw [hdigits]
      rintro h
      obtain rfl : ch = '-' := Option.some.inj h
      exact absurd hdigit (by decide)
    rw [hsame, readInteger, if_neg hhead, readNatural_toDigits n h]
    rfl
  | negSucc n =>
    have hsign : (toString (Int.negSucc n)).toList = '-' :: Nat.toDigits 10 (n + 1) := by
      rw [← htext]
      change (("-" : String) ++ toString (n + 1)).toList = _
      rw [String.toList_append]
      rfl
    rw [hsign, List.cons_append, readInteger, List.head?_cons, if_pos rfl, List.tail_cons,
      readNatural_toDigits (n + 1) h]
    rfl

theorem readNumber_toString (value : ℤ) {rest : Text} (h : Stops rest) :
    readNumber ((toString value).toList ++ rest) = some (.int value, rest) := by
  have hplain : (rest.head?).any isFraction = false := by
    cases rest with
    | nil => rfl
    | cons ch rest => exact (h ch rfl).2
  rw [readNumber, readInteger_toString value h, Option.bind_some]
  simp only [hplain]
  rfl

end Numbers

section Arranged

mutual

/-- No object has two fields of one name. -/
def Distinct : Json → Prop
  | .array items => DistinctItems items
  | .object fields => (fields.map Prod.fst).Nodup ∧ DistinctFields fields
  | .null | .bool _ | .int _ | .str _ => True

def DistinctItems : List Json → Prop
  | [] => True
  | item :: items => Distinct item ∧ DistinctItems items

def DistinctFields : List (String × Json) → Prop
  | [] => True
  | (_, item) :: fields => Distinct item ∧ DistinctFields fields

end

variable (sortKeys : Bool)

mutual

/-- The document with the fields of every object in the order they are written in. -/
def arranged : Json → Json
  | .null => .null
  | .bool value => .bool value
  | .int value => .int value
  | .str value => .str value
  | .array items => .array (arrangedItems items)
  | .object fields => .object (byKey sortKeys (arrangedFields fields))

def arrangedItems : List Json → List Json
  | [] => []
  | item :: items => arranged item :: arrangedItems items

def arrangedFields : List (String × Json) → List (String × Json)
  | [] => []
  | (key, item) :: fields => (key, arranged item) :: arrangedFields fields

end

theorem arrangedFields_eq (fields : List (String × Json)) :
    arrangedFields sortKeys fields =
      fields.map fun field => (field.1, arranged sortKeys field.2) := by
  induction fields with
  | nil => rfl
  | cons field fields ih => rw [arrangedFields, ih, List.map_cons]

theorem encodeFields_eq (fields : List (String × Json)) (level : ℕ) :
    encodeFields sortKeys fields level =
      fields.map fun field => (field.1, iterencode sortKeys field.2 level) := by
  induction fields with
  | nil => rfl
  | cons field fields ih => rw [encodeFields, ih, List.map_cons]

theorem byKey_perm {α : Type} (fields : List (String × α)) : (byKey sortKeys fields).Perm fields := by
  unfold byKey
  split_ifs
  · exact List.perm_insertionSort _ fields
  · exact List.Perm.refl fields

end Arranged

section Values

/-- The text is read as the value, whatever comes after it. -/
def Reads (value : Json) (text : Text) : Prop :=
  ∀ fuel rest, text.length ≤ fuel → Stops rest →
    readValue fuel (text ++ rest) = some (value, rest)

theorem readValue_eq_none {ch : Char} (h : isBlank ch = true ∨ ch = ']') (fuel : ℕ)
    (rest : Text) : readValue fuel (ch :: rest) = none := by
  have hch : ch = ' ' ∨ ch = '\t' ∨ ch = '\n' ∨ ch = '\r' ∨ ch = ']' := by
    simpa [isBlank, or_assoc] using h
  cases fuel with
  | zero => rfl
  | succ fuel =>
    rcases hch with rfl | rfl | rfl | rfl | rfl <;> rfl

theorem skipBlanks_of_readValue {fuel : ℕ} {text : Text} {found : Json × Text}
    (h : readValue fuel text = some found) :
    skipBlanks text = text ∧ text.head? ≠ some ']' := by
  cases text with
  | nil => exact ⟨rfl, by simp⟩
  | cons ch rest =>
    by_contra hnot
    have hch : isBlank ch = true ∨ ch = ']' := by
      by_contra hother
      obtain ⟨hblank, hclose⟩ := not_or.mp hother
      exact hnot ⟨List.dropWhile_cons_of_neg hblank, by simpa using hclose⟩
    rw [readValue_eq_none hch] at h
    cases h

theorem skipBlanks_newline (level : ℕ) (rest : Text) :
    skipBlanks (newline level ++ rest) = skipBlanks rest := by
  have hblank : ∀ ch ∈ newline level, isBlank ch = true := by
    intro ch hch
    rcases List.mem_cons.mp hch with rfl | hspace
    · rfl
    · rw [List.eq_of_mem_replicate hspace]
      rfl
  exact List.dropWhile_append_of_pos hblank

theorem stops_newline (level : ℕ) (rest : Text) : Stops (newline level ++ rest) := by
  rintro ch hch
  obtain rfl : '\n' = ch := Option.some.inj hch
  decide

theorem stops_cons {ch : Char} (rest : Text)
    (h : ch.isDigit = false ∧ isFraction ch = false) : Stops (ch :: rest) := by
  rintro _ hch
  obtain rfl := Option.some.inj hch
  exact h

def laterTexts (level : ℕ) (texts : List Text) : Text :=
  texts.flatMap fun text => ',' :: (newline (level + 1) ++ text)

theorem stops_laterTexts (level : ℕ) (texts : List Text) (rest : Text) :
    Stops (laterTexts level texts ++ (newline level ++ rest)) := by
  cases texts with
  | nil => exact stops_newline level rest
  | cons text texts => exact stops_cons _ (by decide)

theorem skipBlanks_reads {value : Json} {text rest : Text} (h : Reads value text)
    (hrest : Stops rest) (level : ℕ) :
    skipBlanks (newline level ++ (text ++ rest)) = text ++ rest ∧
      (text ++ rest).head? ≠ some ']' := by
  obtain ⟨hskip, hhead⟩ := skipBlanks_of_readValue (h text.length rest (Nat.le_refl _) hrest)
  exact ⟨(skipBlanks_newline level _).trans hskip, hhead⟩

theorem readItems_written {level : ℕ} {first : Json} {text : Text} {items : List Json}
    {texts : List Text} (hfirst : Reads first text) (hitems : List.Forall₂ Reads items texts)
    {fuel : ℕ} (tail : Text)
    (hfuel : (text ++ (laterTexts level texts ++ (newline level ++ [']']))).length ≤ fuel) :
    readItems fuel (text ++ (laterTexts level texts ++ (newline level ++ ']' :: tail))) =
      some (first :: items, tail) := by
  induction hitems generalizing first text fuel with
  | nil =>
    simp only [laterTexts, List.flatMap_nil, List.nil_append, List.length_append,
      List.length_singleton] at hfuel ⊢
    obtain ⟨n, rfl⟩ : ∃ n, fuel = n + 1 := ⟨fuel - 1, by omega⟩
    have hread := hfirst n (newline level ++ ']' :: tail) (by omega) (stops_newline level _)
    have hskip : skipBlanks (newline level ++ ']' :: tail) = ']' :: tail := skipBlanks_newline _ _
    rw [readItems, hread, Option.bind_some]
    dsimp only
    rw [hskip]
    rfl
  | @cons next text' items texts hnext hitems ih =>
    have hlater : laterTexts level (text' :: texts) =
        ',' :: (newline (level + 1) ++ (text' ++ laterTexts level texts)) := by
      simp [laterTexts]
    rw [hlater] at hfuel ⊢
    simp only [List.length_append, List.length_cons, List.cons_append, List.append_assoc] at hfuel ⊢
    obtain ⟨n, rfl⟩ : ∃ n, fuel = n + 1 := ⟨fuel - 1, by omega⟩
    let others := laterTexts level texts ++ (newline level ++ ']' :: tail)
    have hread := hfirst n (',' :: (newline (level + 1) ++ (text' ++ others))) (by omega)
      (stops_cons _ (by decide))
    have hcomma (rest : Text) : skipBlanks (',' :: rest) = ',' :: rest := rfl
    have hskip := (skipBlanks_reads hnext (stops_laterTexts level texts (']' :: tail)) (level + 1)).1
    have hrest : readItems n (text' ++ others) = some (next :: items, tail) :=
      ih hnext (by simp only [List.length_append, List.length_cons]; omega)
    rw [readItems, hread, Option.bind_some]
    dsimp only
    rw [hcomma]
    change (readItems n (skipBlanks (newline (level + 1) ++ (text' ++ others)))).map _ = _
    rw [hskip, hrest]
    rfl

def pairText (field : String × Text) : Text := encodeString field.1 ++ ':' :: ' ' :: field.2

def laterPairs (level : ℕ) (fields : List (String × Text)) : Text :=
  fields.flatMap fun field => ',' :: (newline (level + 1) ++ pairText field)

theorem readFields_pair {value : Json} {text rest : Text} (h : Reads value text) {fuel : ℕ}
    (hfuel : text.length ≤ fuel) (hrest : Stops rest) (key : String) :
    readFields (fuel + 1) (pairText (key, text) ++ rest) =
      match skipBlanks rest with
      | '}' :: rest => some ([(key, value)], rest)
      | ',' :: rest =>
        (readFields fuel (skipBlanks rest)).map fun found => ((key, value) :: found.1, found.2)
      | _ => none := by
  have hstart : pairText (key, text) ++ rest =
      '"' :: (key.toList.flatMap escapeChar ++ '"' :: ':' :: ' ' :: (text ++ rest)) := by
    simp [pairText, encodeString]
  have hcolon (rest : Text) : skipBlanks (':' :: rest) = ':' :: rest := rfl
  have hblank : skipBlanks (' ' :: (text ++ rest)) = text ++ rest :=
    (skipBlanks_of_readValue (h text.length rest (Nat.le_refl _) hrest)).1
  rw [hstart]
  change (readString _).bind _ = _
  rw [readString_encoded, Option.bind_some]
  dsimp only
  rw [hcolon]
  change (readValue fuel (skipBlanks (' ' :: (text ++ rest)))).bind _ = _
  rw [hblank, h fuel rest hfuel hrest, Option.bind_some]

theorem readFields_written {level : ℕ} {key : String} {first : Json} {text : Text}
    {fields : List (String × Json)} {texts : List (String × Text)} (hfirst : Reads first text)
    (hfields : List.Forall₂ (fun field written => field.1 = written.1 ∧ Reads field.2 written.2)
      fields texts) {fuel : ℕ} (tail : Text)
    (hfuel : (pairText (key, text) ++ (laterPairs level texts ++ (newline level ++ ['}']))).length ≤
      fuel) :
    readFields fuel (pairText (key, text) ++ (laterPairs level texts ++ (newline level ++ '}' :: tail))) =
      some ((key, first) :: fields, tail) := by
  have hlength (key : String) (text : Text) :
      (pairText (key, text)).length = (encodeString key).length + (text.length + 2) := by
    simp [pairText]
  induction hfields generalizing key first text fuel with
  | nil =>
    simp only [laterPairs, List.flatMap_nil, List.nil_append, List.length_append, hlength,
      List.length_singleton] at hfuel ⊢
    obtain ⟨n, rfl⟩ : ∃ n, fuel = n + 1 := ⟨fuel - 1, by omega⟩
    have hskip : skipBlanks (newline level ++ '}' :: tail) = '}' :: tail := skipBlanks_newline _ _
    rw [readFields_pair hfirst (by omega) (stops_newline level _), hskip]
    rfl
  | @cons next written fields texts hnext hfields ih =>
    obtain ⟨name, text'⟩ := written
    obtain ⟨rfl, hreads⟩ : next.1 = name ∧ Reads next.2 text' := hnext
    have hlater : laterPairs level ((next.1, text') :: texts) =
        ',' :: (newline (level + 1) ++ (pairText (next.1, text') ++ laterPairs level texts)) := by
      simp [laterPairs]
    rw [hlater] at hfuel ⊢
    simp only [List.length_append, List.length_cons, List.cons_append, List.append_assoc,
      hlength] at hfuel ⊢
    obtain ⟨n, rfl⟩ : ∃ n, fuel = n + 1 := ⟨fuel - 1, by omega⟩
    let others := laterPairs level texts ++ (newline level ++ '}' :: tail)
    have hcomma (rest : Text) : skipBlanks (',' :: rest) = ',' :: rest := rfl
    have hskip : skipBlanks (newline (level + 1) ++ (pairText (next.1, text') ++ others)) =
        pairText (next.1, text') ++ others := skipBlanks_newline _ _
    have hrest : readFields n (pairText (next.1, text') ++ others) =
        some ((next.1, next.2) :: fields, tail) :=
      ih hreads (by simp only [List.length_append, List.length_cons, hlength]; omega)
    rw [readFields_pair hfirst (by omega) (stops_cons _ (by decide)), hcomma]
    change (readFields n (skipBlanks (newline (level + 1) ++
      (pairText (next.1, text') ++ others)))).map _ = _
    rw [hskip, hrest]
    rfl

end Values

section Documents

theorem reads_readConstant {ch : Char} (word : Text) {value : Json}
    (h : ∀ fuel rest, readValue (fuel + 1) (ch :: rest) = readConstant word value rest) :
    Reads value (ch :: word) := by
  intro fuel rest hfuel _
  obtain ⟨n, rfl⟩ : ∃ n, fuel = n + 1 := ⟨fuel - 1, by rw [List.length_cons] at hfuel; omega⟩
  rw [List.cons_append, h, readConstant, if_pos (List.prefix_append word rest), List.drop_left]

theorem readValue_number {text : Text} {found : Json × Text} (h : readNumber text = some found)
    (fuel : ℕ) : readValue (fuel + 1) text = some found := by
  cases text with
  | nil => cases h
  | cons ch rest =>
    have hother : ∀ other ∈ ['"', '{', '[', 'n', 't', 'f'], ch ≠ other := by
      rintro other hmem rfl
      simp only [List.mem_cons, List.not_mem_nil, or_false] at hmem
      rcases hmem with rfl | rfl | rfl | rfl | rfl | rfl <;> cases h
    simp only [List.forall_mem_cons] at hother
    obtain ⟨hquote, hbrace, hbracket, hn, ht, hf, -⟩ := hother
    rw [readValue, if_neg hquote, if_neg hbrace, if_neg hbracket, if_neg hn, if_neg ht,
      if_neg hf, h]

theorem toString_int_ne_nil (value : ℤ) : (toString value).toList ≠ [] := by
  intro hnil
  have hstops : Stops [] := fun _ h => nomatch h
  have hread := readNumber_toString value hstops
  rw [hnil] at hread
  cases hread

theorem reads_int (value : ℤ) : Reads (.int value) (toString value).toList := by
  intro fuel rest hfuel hrest
  have hpos := List.length_pos_of_ne_nil (toString_int_ne_nil value)
  obtain ⟨n, rfl⟩ : ∃ n, fuel = n + 1 := ⟨fuel - 1, by omega⟩
  exact readValue_number (readNumber_toString value hrest) n

theorem reads_str (value : String) : Reads (.str value) (encodeString value) := by
  intro fuel rest hfuel _
  have hstart : encodeString value ++ rest =
      '"' :: (value.toList.flatMap escapeChar ++ '"' :: rest) := by
    simp [encodeString]
  obtain ⟨n, rfl⟩ : ∃ n, fuel = n + 1 :=
    ⟨fuel - 1, by rw [encodeString, List.cons_append, List.length_cons] at hfuel; omega⟩
  rw [hstart]
  change (readString _).map _ = _
  rw [readString_encoded]
  rfl

theorem reads_array {items : List Json} {texts : List Chunks} (level : ℕ)
    (h : List.Forall₂ Reads items (texts.map List.flatten)) :
    Reads (.array items) (listChunks level texts).flatten := by
  intro fuel rest hfuel _
  cases texts with
  | nil =>
    obtain rfl : items = [] := List.forall₂_nil_right_iff.mp h
    obtain ⟨n, rfl⟩ : ∃ n, fuel = n + 1 := ⟨fuel - 1, by simp [listChunks] at hfuel; omega⟩
    rfl
  | cons first texts =>
    obtain ⟨value, values, hfirst, hitems, rfl⟩ := List.forall₂_cons_right_iff.mp h
    have htext : (listChunks level (first :: texts)).flatten =
        '[' :: (newline (level + 1) ++ (first.flatten ++
          (laterTexts level (texts.map List.flatten) ++ (newline level ++ [']'])))) := by
      have hlater : (texts.flatMap fun item => (',' :: newline (level + 1)) :: item).flatten =
          laterTexts level (texts.map List.flatten) := by
        rw [laterTexts, List.flatMap_map, flatten_flatMap_chunks]
        rfl
      simp only [listChunks, List.flatten_cons, List.flatten_append, List.cons_append, hlater,
        List.flatten_nil, List.append_assoc, List.append_nil]
    rw [htext] at hfuel ⊢
    obtain ⟨n, rfl⟩ : ∃ n, fuel = n + 1 := ⟨fuel - 1, by simp at hfuel; omega⟩
    let others := laterTexts level (texts.map List.flatten) ++ (newline level ++ ']' :: rest)
    have hsplit : '[' :: (newline (level + 1) ++ (first.flatten ++
        (laterTexts level (texts.map List.flatten) ++ (newline level ++ [']'])))) ++ rest =
        '[' :: (newline (level + 1) ++ (first.flatten ++ others)) := by
      simp [others]
    obtain ⟨hskip, hhead⟩ := skipBlanks_reads hfirst
      (stops_laterTexts level (texts.map List.flatten) (']' :: rest)) (level + 1)
    have hread : readItems n (first.flatten ++ others) = some (value :: values, rest) :=
      readItems_written hfirst hitems rest (by
        simp only [List.length_append, List.length_cons] at hfuel ⊢
        omega)
    rw [hsplit]
    change (if (skipBlanks (newline (level + 1) ++ (first.flatten ++ others))).head? = some ']'
      then _ else (readItems n (skipBlanks (newline (level + 1) ++
        (first.flatten ++ others)))).map _) = _
    rw [hskip, if_neg hhead, hread]
    rfl

theorem reads_object {fields : List (String × Json)} {texts : List (String × Chunks)} (level : ℕ)
    (hkeys : (fields.map Prod.fst).Nodup)
    (h : List.Forall₂ (fun field written => field.1 = written.1 ∧ Reads field.2 written.2) fields
      (texts.map fun field => (field.1, field.2.flatten))) :
    Reads (.object fields) (dictChunks level texts).flatten := by
  intro fuel rest hfuel _
  cases texts with
  | nil =>
    obtain rfl : fields = [] := List.forall₂_nil_right_iff.mp h
    obtain ⟨n, rfl⟩ : ∃ n, fuel = n + 1 := ⟨fuel - 1, by simp [dictChunks] at hfuel; omega⟩
    rfl
  | cons first texts =>
    obtain ⟨⟨key, value⟩, fields, ⟨hkey, hfirst⟩, hfields, rfl⟩ :=
      List.forall₂_cons_right_iff.mp h
    obtain rfl : key = first.1 := hkey
    have htext : (dictChunks level (first :: texts)).flatten =
        '{' :: (newline (level + 1) ++ (pairText (first.1, first.2.flatten) ++
          (laterPairs level (texts.map fun field => (field.1, field.2.flatten)) ++
            (newline level ++ ['}'])))) := by
      have hpair (field : String × Chunks) :
          (fieldChunks field).flatten = pairText (field.1, field.2.flatten) := by
        simp [fieldChunks, pairText]
      have hlater : (texts.flatMap fun field =>
          (',' :: newline (level + 1)) :: fieldChunks field).flatten =
          laterPairs level (texts.map fun field => (field.1, field.2.flatten)) := by
        rw [laterPairs, List.flatMap_map, flatten_flatMap_chunks]
        simp only [List.flatten_cons, hpair, List.cons_append]
      simp only [dictChunks, List.flatten_cons, List.flatten_append, List.cons_append, hlater, hpair,
        List.flatten_nil, List.append_assoc, List.append_nil, List.nil_append]
    rw [htext] at hfuel ⊢
    obtain ⟨n, rfl⟩ : ∃ n, fuel = n + 1 := ⟨fuel - 1, by simp at hfuel; omega⟩
    let written := pairText (first.1, first.2.flatten) ++
      (laterPairs level (texts.map fun field => (field.1, field.2.flatten)) ++
        (newline level ++ '}' :: rest))
    have hsplit : '{' :: (newline (level + 1) ++ (pairText (first.1, first.2.flatten) ++
        (laterPairs level (texts.map fun field => (field.1, field.2.flatten)) ++
          (newline level ++ ['}'])))) ++ rest = '{' :: (newline (level + 1) ++ written) := by
      simp [written]
    have hskip : skipBlanks (newline (level + 1) ++ written) = written := skipBlanks_newline _ _
    have hhead : written.head? ≠ some '}' := by simp [written, pairText, encodeString]
    have hread : readFields n written = some ((first.1, value) :: fields, rest) :=
      readFields_written hfirst hfields rest (by
        simp only [List.length_append, List.length_cons] at hfuel ⊢
        omega)
    rw [hsplit]
    change (if (skipBlanks (newline (level + 1) ++ written)).head? = some '}' then _
      else (readFields n (skipBlanks (newline (level + 1) ++ written))).map _) = _
    rw [hskip, if_neg hhead, hread, Option.map_some, filled_eq_self hkeys]

variable (sortKeys : Bool)

theorem arranged_keys (fields : List (String × Json)) :
    ((byKey sortKeys (arrangedFields sortKeys fields)).map Prod.fst).Perm
      (fields.map Prod.fst) := by
  have hkeys : (arrangedFields sortKeys fields).map Prod.fst = fields.map Prod.fst := by
    rw [arrangedFields_eq, List.map_map]
    rfl
  rw [← hkeys]
  exact (byKey_perm sortKeys _).map Prod.fst

mutual

theorem reads_iterencode : ∀ (value : Json) (level : ℕ), Distinct value →
    Reads (arranged sortKeys value) (iterencode sortKeys value level).flatten
  | .null, level, _ => reads_readConstant ['u', 'l', 'l'] fun _ _ => rfl
  | .bool true, level, _ => reads_readConstant ['r', 'u', 'e'] fun _ _ => rfl
  | .bool false, level, _ => reads_readConstant ['a', 'l', 's', 'e'] fun _ _ => rfl
  | .int value, level, _ => by
    rw [iterencode, List.flatten_singleton]
    exact reads_int value
  | .str value, level, _ => by
    rw [iterencode, List.flatten_singleton]
    exact reads_str value
  | .array items, level, h => by
    rw [iterencode]
    exact reads_array level (reads_encodeItems items (level + 1) h)
  | .object fields, level, h => by
    rw [iterencode]
    refine reads_object level ((arranged_keys sortKeys fields).nodup_iff.mpr h.1) ?_
    rw [arrangedFields_eq, encodeFields_eq, ← byKey_map,
      ← byKey_map sortKeys fun value => iterencode sortKeys value (level + 1), List.map_map,
      List.forall₂_map_left_iff, List.forall₂_map_right_iff, List.forall₂_same]
    intro field hfield
    have hmem := (byKey_perm sortKeys fields).mem_iff.mp hfield
    exact ⟨rfl, reads_encodeFields fields (level + 1) h.2 field hmem⟩

theorem reads_encodeItems : ∀ (items : List Json) (level : ℕ), DistinctItems items →
    List.Forall₂ Reads (arrangedItems sortKeys items)
      ((encodeItems sortKeys items level).map List.flatten)
  | [], _, _ => List.Forall₂.nil
  | item :: items, level, h =>
    List.Forall₂.cons (reads_iterencode item level h.1) (reads_encodeItems items level h.2)

theorem reads_encodeFields : ∀ (fields : List (String × Json)) (level : ℕ),
    DistinctFields fields → ∀ field ∈ fields,
      Reads (arranged sortKeys field.2) (iterencode sortKeys field.2 level).flatten
  | [], _, _, field, hfield => by cases hfield
  | (key, item) :: fields, level, h, field, hfield => by
    rcases List.mem_cons.mp hfield with rfl | hmem
    · exact reads_iterencode item level h.1
    · exact reads_encodeFields fields level h.2 field hmem

end

end Documents

end FinanceContext.JsonStream
