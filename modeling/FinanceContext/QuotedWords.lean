import FinanceContext.JsonStream
import FinanceContext.NodeCodecs
import Mathlib.Data.List.Infix

namespace FinanceContext.JsonStream

open Csr

/-- Characters that are written as they are, the first of which does not follow a string. -/
structure Word (word : Text) : Prop where
  bare : ∀ ch ∈ word, escapeChar ch = [ch]
  head : ∃ ch rest, word = ch :: rest ∧ ch ∉ [',', ':', '\n']

def inQuotes (word : Text) : Text := '"' :: word ++ ['"']

/-- The string is the word, or ends with the word after a quote. -/
def EndsWith (word : Text) (text : String) : Prop :=
  text.toList = word ∨ ('"' :: word) <:+ text.toList

instance (word : Text) (text : String) : Decidable (EndsWith word text) :=
  inferInstanceAs (Decidable (_ ∨ _))

section Strings

theorem escapeChar_cases (ch : Char) :
    (escapeChar ch = [ch] ∧ ch ≠ '"' ∧ ch ≠ '\\') ∨ (ch = '"' ∧ escapeChar ch = ['\\', '"']) ∨
      (ch ≠ '"' ∧ ∃ rest, escapeChar ch = '\\' :: rest ∧ '"' ∉ rest) := by
  have hdigit : ∀ n < 16, '"' ≠ Nat.digitChar n := by decide
  unfold escapeChar
  split_ifs with hquote hslash hnewline hreturn htab hfeed hback hcontrol
  · exact .inr (.inl ⟨hquote, rfl⟩)
  · exact .inr (.inr ⟨hquote, _, rfl, by decide⟩)
  · exact .inr (.inr ⟨hquote, _, rfl, by decide⟩)
  · exact .inr (.inr ⟨hquote, _, rfl, by decide⟩)
  · exact .inr (.inr ⟨hquote, _, rfl, by decide⟩)
  · exact .inr (.inr ⟨hquote, _, rfl, by decide⟩)
  · exact .inr (.inr ⟨hquote, _, rfl, by decide⟩)
  · have hhigh := hdigit (ch.toNat / 16) (by omega)
    have hlow := hdigit (ch.toNat % 16) (by omega)
    refine .inr (.inr ⟨hquote, _, rfl, ?_⟩)
    simp [hhigh, hlow]
  · exact .inl ⟨rfl, hquote, hslash⟩

theorem bare_ne {ch : Char} (h : escapeChar ch = [ch]) : ch ≠ '"' ∧ ch ≠ '\\' := by
  constructor
  · rintro rfl
    revert h
    decide
  · rintro rfl
    revert h
    decide

theorem prefix_body_iff {word : Text} (hword : ∀ ch ∈ word, escapeChar ch = [ch]) (s rest : Text) :
    (word ++ ['"']) <+: (s.flatMap escapeChar ++ '"' :: rest) ↔ s = word := by
  induction word generalizing s with
  | nil =>
    cases s with
    | nil => simp
    | cons ch s =>
      rw [List.flatMap_cons, List.nil_append]
      rcases escapeChar_cases ch with ⟨hch, hne, -⟩ | ⟨-, hch⟩ | ⟨-, tail, hch, -⟩
      · simp [hch, Ne.symm hne]
      · simp [hch]
      · simp [hch]
  | cons w word ih =>
    obtain ⟨hw, hrest⟩ := List.forall_mem_cons.mp hword
    obtain ⟨hquote, hslash⟩ := bare_ne hw
    cases s with
    | nil => simp [hquote]
    | cons ch s =>
      rw [List.flatMap_cons, List.cons_append]
      rcases escapeChar_cases ch with ⟨hch, -, -⟩ | ⟨rfl, hch⟩ | ⟨-, tail, hch, -⟩
      · rw [hch, List.append_assoc, List.singleton_append, List.cons_prefix_cons, ih hrest,
          List.cons.injEq]
        exact and_congr_left fun _ => eq_comm
      · simp [hch, hslash, Ne.symm hquote]
      · have hne : ch ≠ w := by
          rintro rfl
          rw [hw] at hch
          exact hslash (List.cons.inj hch).1
        simp [hch, hslash, hne]

/-- A text that may follow a string. -/
def Follows (rest : Text) : Prop := ∀ ch ∈ rest.head?, ch ∈ [',', ':', '\n']

theorem not_prefix_of_follows {word rest : Text} (hword : Word word) (hrest : Follows rest) :
    ¬(word ++ ['"']) <+: rest := by
  obtain ⟨ch, tail, rfl, hch⟩ := hword.head
  cases rest with
  | nil => simp
  | cons first rest =>
    have hfirst : first ∈ [',', ':', '\n'] := hrest first rfl
    rw [List.cons_append, List.cons_prefix_cons]
    rintro ⟨rfl, -⟩
    exact hch hfirst

theorem infix_plain_iff {word text : Text} (htext : '"' ∉ text) (rest : Text) :
    inQuotes word <:+: text ++ rest ↔ inQuotes word <:+: rest := by
  induction text with
  | nil => rfl
  | cons ch text ih =>
    obtain ⟨hch, hrest⟩ := not_or.mp (mt List.mem_cons.mpr htext)
    rw [List.cons_append, List.infix_cons_iff, ih hrest, or_iff_right]
    unfold inQuotes
    rw [List.cons_append, List.cons_prefix_cons]
    exact fun h => hch h.1

theorem infix_body_iff {word : Text} (hword : Word word) (s : Text) {rest : Text}
    (hrest : Follows rest) :
    inQuotes word <:+: s.flatMap escapeChar ++ '"' :: rest ↔
      ('"' :: word) <:+ s ∨ inQuotes word <:+: rest := by
  have hstart (tail : Text) : inQuotes word <+: '"' :: tail ↔ (word ++ ['"']) <+: tail := by
    unfold inQuotes
    rw [List.cons_append, List.cons_prefix_cons, and_iff_right rfl]
  induction s with
  | nil =>
    rw [List.flatMap_nil, List.nil_append, List.infix_cons_iff, hstart,
      or_iff_right (not_prefix_of_follows hword hrest), or_iff_right (by simp)]
  | cons ch s ih =>
    have hbody : inQuotes word <:+: s.flatMap escapeChar ++ '"' :: rest ↔
        ('"' :: word) <:+ s ∨ inQuotes word <:+: rest := ih
    rw [List.flatMap_cons, List.append_assoc, List.suffix_cons_iff]
    rcases escapeChar_cases ch with ⟨hch, hne, -⟩ | ⟨rfl, hch⟩ | ⟨hne, tail, hch, htail⟩
    · have hplain : '"' ∉ [ch] := by simpa using Ne.symm hne
      have hcons : ¬ '"' :: word = ch :: s := fun h => hne (List.cons.inj h).1.symm
      rw [hch, infix_plain_iff hplain, hbody, or_iff_right hcons]
    · have hplain : '"' ∉ ['\\'] := by decide
      have hsplit : ['\\', '"'] ++ (s.flatMap escapeChar ++ '"' :: rest) =
          ['\\'] ++ '"' :: (s.flatMap escapeChar ++ '"' :: rest) := rfl
      have hword' : '"' :: word = '"' :: s ↔ s = word := by
        rw [List.cons.injEq, and_iff_right rfl]
        exact eq_comm
      rw [hch, hsplit, infix_plain_iff hplain, List.infix_cons_iff, hstart,
        prefix_body_iff hword.bare, hbody, hword', or_assoc]
    · have hplain : '"' ∉ '\\' :: tail := by
        rw [List.mem_cons]
        rintro (h | h)
        · exact absurd h (by decide)
        · exact htail h
      have hcons : ¬ '"' :: word = ch :: s := fun h => hne (List.cons.inj h).1.symm
      rw [hch, infix_plain_iff hplain, hbody, or_iff_right hcons]

theorem infix_encodeString_iff {word : Text} (hword : Word word) (s : String) {rest : Text}
    (hrest : Follows rest) :
    inQuotes word <:+: encodeString s ++ rest ↔ EndsWith word s ∨ inQuotes word <:+: rest := by
  have hsplit : encodeString s ++ rest = '"' :: (s.toList.flatMap escapeChar ++ '"' :: rest) := by
    simp [encodeString]
  have hstart : inQuotes word <+: '"' :: (s.toList.flatMap escapeChar ++ '"' :: rest) ↔
      s.toList = word := by
    unfold inQuotes
    rw [List.cons_append, List.cons_prefix_cons, and_iff_right rfl, prefix_body_iff hword.bare]
  rw [hsplit, List.infix_cons_iff, hstart, infix_body_iff hword _ hrest, EndsWith, or_assoc]

end Strings

section Chunks

/-- Chunks that are strings of a list in quotes, or have no quotes. -/
inductive Spells : Chunks → List String → Prop where
  | nil : Spells [] []
  | plain {chunk : Text} {chunks : Chunks} {texts : List String} :
      '"' ∉ chunk → Spells chunks texts → Spells (chunk :: chunks) texts
  | quoted {s : String} {chunks : Chunks} {texts : List String} :
      Follows chunks.flatten → Spells chunks texts →
        Spells (encodeString s :: chunks) (s :: texts)

theorem infix_spells_iff {word : Text} (hword : Word word) {chunks : Chunks}
    {texts : List String} (h : Spells chunks texts) :
    inQuotes word <:+: chunks.flatten ↔ ∃ s ∈ texts, EndsWith word s := by
  induction h with
  | nil => simp [inQuotes]
  | plain hchunk _ ih => rw [List.flatten_cons, infix_plain_iff hchunk, ih]
  | quoted hfollows _ ih =>
    rw [List.flatten_cons, infix_encodeString_iff hword _ hfollows, ih, List.exists_mem_cons_iff]

theorem Spells.append {a b : Chunks} {texts more : List String} (ha : Spells a texts)
    (hb : Spells b more) (hfollows : Follows b.flatten) : Spells (a ++ b) (texts ++ more) := by
  induction ha with
  | nil => exact hb
  | plain hchunk _ ih => exact .plain hchunk ih
  | @quoted s chunks texts hnext _ ih =>
    refine .quoted ?_ ih
    change Follows (chunks ++ b).flatten
    rw [List.flatten_append]
    cases hflat : chunks.flatten with
    | nil => exact hfollows
    | cons ch rest =>
      rw [hflat] at hnext
      exact hnext

theorem Spells.single {chunk : Text} (h : '"' ∉ chunk) : Spells [chunk] [] := .plain h .nil

mutual

def strings : Json → List String
  | .null | .bool _ | .int _ => []
  | .str value => [value]
  | .array items => itemStrings items
  | .object fields => fieldStrings fields

def itemStrings : List Json → List String
  | [] => []
  | item :: items => strings item ++ itemStrings items

def fieldStrings : List (String × Json) → List String
  | [] => []
  | (key, item) :: fields => key :: strings item ++ fieldStrings fields

end

theorem quote_notMem_newline (level : ℕ) : '"' ∉ newline level := by
  unfold newline
  rw [List.mem_cons]
  rintro (h | h)
  · exact absurd h (by decide)
  · exact absurd (List.eq_of_mem_replicate h) (by decide)

theorem quote_notMem_sep {ch : Char} (h : ch ≠ '"') (level : ℕ) : '"' ∉ ch :: newline level := by
  rw [List.mem_cons]
  rintro (hch | hmem)
  · exact h hch.symm
  · exact quote_notMem_newline level hmem

theorem quote_notMem_toString (value : ℤ) : '"' ∉ (toString value).toList := by
  have hdigits (n : ℕ) : '"' ∉ (toString n).toList := fun h =>
    absurd (isDigit_toString h).1 (by decide)
  cases value with
  | ofNat n => exact hdigits n
  | negSucc n =>
    have hsign : (toString (Int.negSucc n)).toList = '-' :: (toString (n + 1)).toList := by
      change (("-" : String) ++ toString (n + 1)).toList = _
      rw [String.toList_append]
      rfl
    rw [hsign, List.mem_cons]
    rintro (h | h)
    · exact absurd h (by decide)
    · exact hdigits (n + 1) h

def laterFields (level : ℕ) (fields : List (String × Chunks)) : Chunks :=
  fields.flatMap fun field => (',' :: newline (level + 1)) :: fieldChunks field

theorem follows_sep (level : ℕ) (rest : Text) : Follows (',' :: newline level ++ rest) := by
  intro ch hch
  obtain rfl := Option.some.inj hch
  decide

theorem follows_newline (level : ℕ) (rest : Text) : Follows (newline level ++ rest) := by
  intro ch hch
  obtain rfl := Option.some.inj hch
  decide

theorem follows_laterFields (level : ℕ) (fields : List (String × Chunks)) :
    Follows (laterFields level fields).flatten := by
  cases fields with
  | nil => exact fun ch hch => by cases hch
  | cons field fields => exact follows_sep _ _

theorem Spells.field (key : String) {chunks : Chunks} {texts : List String}
    (h : Spells chunks texts) : Spells (fieldChunks (key, chunks)) (key :: texts) := by
  refine .quoted ?_ (.plain (by decide) h)
  intro ch hch
  obtain rfl := Option.some.inj hch
  decide

theorem spells_laterItems (level : ℕ) {items : List Chunks} {texts : List (List String)}
    (h : List.Forall₂ Spells items texts) :
    Spells (items.flatMap fun item => (',' :: newline level) :: item) texts.flatten := by
  induction h with
  | nil => exact .nil
  | @cons item own items texts hitem hrest ih =>
    rw [List.flatMap_cons, List.flatten_cons]
    refine .plain (quote_notMem_sep (by decide) level) ?_
    apply hitem.append ih
    cases hrest with
    | nil => exact fun ch hch => by cases hch
    | cons => exact follows_sep _ _

theorem spells_laterFields (level : ℕ) {fields : List (String × Chunks)}
    {texts : List (List String)}
    (h : List.Forall₂ (fun field own => Spells field.2 own) fields texts) :
    Spells (laterFields level fields)
      ((fields.zip texts).flatMap fun entry => entry.1.1 :: entry.2) := by
  induction h with
  | nil => exact .nil
  | @cons field own fields texts hfield hrest ih =>
    have htail : laterFields level (field :: fields) =
        (',' :: newline (level + 1)) :: (fieldChunks field ++ laterFields level fields) := by
      simp [laterFields]
    rw [htail, List.zip_cons_cons, List.flatMap_cons]
    refine .plain (quote_notMem_sep (by decide) _) ?_
    exact (Spells.field field.1 hfield).append ih (follows_laterFields _ _)

theorem itemStrings_eq (items : List Json) : itemStrings items = (items.map strings).flatten := by
  induction items with
  | nil => rfl
  | cons item items ih => rw [itemStrings, ih, List.map_cons, List.flatten_cons]

theorem fieldStrings_eq (fields : List (String × Json)) :
    fieldStrings fields = fields.flatMap fun field => field.1 :: strings field.2 := by
  induction fields with
  | nil => rfl
  | cons field fields ih => rw [fieldStrings, ih, List.flatMap_cons]

theorem spells_listChunks (level : ℕ) {items : List Chunks} {texts : List (List String)}
    (h : List.Forall₂ Spells items texts) : Spells (listChunks level items) texts.flatten := by
  have hclose : Spells [newline level, [']']] [] :=
    .plain (quote_notMem_newline level) (.single (by decide))
  cases h with
  | nil => exact .single (by decide)
  | @cons first own rest texts hfirst hrest =>
    have hlater := (spells_laterItems (level + 1) hrest).append hclose (follows_newline level _)
    rw [List.append_nil] at hlater
    have hall := hfirst.append hlater (by
      cases hrest with
      | nil => exact follows_newline level _
      | cons => exact follows_sep _ _)
    rw [listChunks, List.append_assoc, List.cons_append, List.flatten_cons]
    exact .plain (quote_notMem_sep (by decide) _) hall

theorem spells_dictChunks (level : ℕ) {fields : List (String × Chunks)}
    {texts : List (List String)}
    (h : List.Forall₂ (fun field own => Spells field.2 own) fields texts) :
    Spells (dictChunks level fields)
      ((fields.zip texts).flatMap fun entry => entry.1.1 :: entry.2) := by
  have hclose : Spells [newline level, ['}']] [] :=
    .plain (quote_notMem_newline level) (.single (by decide))
  cases h with
  | nil => exact .single (by decide)
  | @cons first own rest texts hfirst hrest =>
    have hlater := (spells_laterFields level hrest).append hclose (follows_newline level _)
    rw [List.append_nil] at hlater
    have hfollows : Follows (laterFields level rest ++ [newline level, ['}']]).flatten := by
      cases hrest with
      | nil => exact follows_newline level _
      | cons => exact follows_sep _ _
    have hall := (Spells.field first.1 hfirst).append hlater hfollows
    have hchunks : dictChunks level (first :: rest) = ['{'] :: newline (level + 1) ::
        (fieldChunks first ++ (laterFields level rest ++ [newline level, ['}']])) := by
      simp [dictChunks, laterFields]
    rw [hchunks, List.zip_cons_cons, List.flatMap_cons]
    exact .plain (by decide) (.plain (quote_notMem_newline _) hall)

theorem zip_encodeFields (fields : List (String × Json)) (level : ℕ) :
    ((encodeFields false fields level).zip (fields.map fun field => strings field.2)).flatMap
        (fun entry => entry.1.1 :: entry.2) =
      fields.flatMap fun field => field.1 :: strings field.2 := by
  induction fields with
  | nil => rfl
  | cons field fields ih =>
    rw [encodeFields, List.map_cons, List.zip_cons_cons, List.flatMap_cons, ih, List.flatMap_cons]

mutual

theorem spells_iterencode : ∀ (value : Json) (level : ℕ),
    Spells (iterencode false value level) (strings value)
  | .null, level => .single (by decide)
  | .bool true, level => .single (by decide)
  | .bool false, level => .single (by decide)
  | .int value, level => .single (quote_notMem_toString value)
  | .str value, level => .quoted (fun ch hch => by cases hch) .nil
  | .array items, level => by
    rw [iterencode, strings, itemStrings_eq]
    exact spells_listChunks level (spells_encodeItems items (level + 1))
  | .object fields, level => by
    have hfields := spells_encodeFields fields (level + 1)
    have hkeys : ((encodeFields false fields (level + 1)).zip
        (fields.map fun field => strings field.2)).flatMap (fun entry => entry.1.1 :: entry.2) =
        fieldStrings fields := by
      rw [fieldStrings_eq]
      exact zip_encodeFields fields (level + 1)
    rw [iterencode, strings, ← hkeys]
    exact spells_dictChunks level hfields

theorem spells_encodeItems : ∀ (items : List Json) (level : ℕ),
    List.Forall₂ Spells (encodeItems false items level) (items.map strings)
  | [], _ => .nil
  | item :: items, level =>
    .cons (spells_iterencode item level) (spells_encodeItems items level)

theorem spells_encodeFields : ∀ (fields : List (String × Json)) (level : ℕ),
    List.Forall₂ (fun field own => Spells field.2 own) (encodeFields false fields level)
      (fields.map fun field => strings field.2)
  | [], _ => .nil
  | (_, item) :: fields, level =>
    .cons (spells_iterencode item level) (spells_encodeFields fields level)

end

end Chunks

section Slots

variable {sep text : List Char}

theorem splitFirst_first {a b : List Char} (h : splitFirst sep text = some (a, b))
    {a' b' : List Char} (htext : text = a' ++ sep ++ b') : a.length ≤ a'.length := by
  induction text generalizing a a' with
  | nil =>
    have hsep : sep = [] := by
      rw [List.append_assoc] at htext
      exact (List.append_eq_nil_iff.mp (List.append_eq_nil_iff.mp htext.symm).2).1
    subst hsep
    simp only [splitFirst, List.isEmpty_nil, if_true, Option.some.injEq, Prod.mk.injEq] at h
    rw [← h.1]
    exact Nat.zero_le _
  | cons ch text ih =>
    rw [splitFirst] at h
    split_ifs at h with hprefix
    · simp only [Option.some.injEq, Prod.mk.injEq] at h
      rw [← h.1]
      exact Nat.zero_le _
    · obtain ⟨⟨init, rest⟩, hsplit, heq⟩ := Option.map_eq_some_iff.mp h
      simp only [Prod.mk.injEq] at heq
      obtain ⟨rfl, rfl⟩ := heq
      cases a' with
      | nil =>
        have hstart : sep <+: ch :: text := ⟨b', htext.symm⟩
        exact absurd (List.isPrefixOf_iff_prefix.mpr hstart) hprefix
      | cons ch' a' =>
        simp only [List.cons_append, List.cons.injEq] at htext
        have hle := ih hsplit htext.2
        simp only [List.length_cons]
        omega

theorem splitFirst_isSome {a b : List Char} (h : text = a ++ sep ++ b) :
    (splitFirst sep text).isSome := by
  induction text generalizing a with
  | nil =>
    have hsep : sep = [] := by
      rw [List.append_assoc] at h
      exact (List.append_eq_nil_iff.mp (List.append_eq_nil_iff.mp h.symm).2).1
    simp [splitFirst, hsep]
  | cons ch text ih =>
    rw [splitFirst]
    split_ifs with hprefix
    · rfl
    · cases a with
      | nil =>
        have hstart : sep <+: ch :: text := ⟨b, h.symm⟩
        exact absurd (List.isPrefixOf_iff_prefix.mpr hstart) hprefix
      | cons ch' a =>
        simp only [List.cons_append, List.cons.injEq] at h
        rw [Option.isSome_map]
        exact ih h.2

theorem splitFirst_after {init : List Char} {ch : Char} (hch : ch ∉ sep.dropLast)
    (suffix : List Char) (hnot : ¬sep <:+: init ++ [ch]) :
    splitFirst sep (init ++ [ch] ++ sep ++ suffix) = some (init ++ [ch], suffix) := by
  have hsome : (splitFirst sep (init ++ [ch] ++ sep ++ suffix)).isSome := splitFirst_isSome rfl
  obtain ⟨⟨a, b⟩, hsplit⟩ := Option.isSome_iff_exists.mp hsome
  have htext := append_of_splitFirst hsplit
  have hle : a.length ≤ (init ++ [ch]).length := splitFirst_first hsplit rfl
  have hcases : ∃ r, init ++ [ch] = a ++ r := by
    rw [List.append_assoc, List.append_assoc a] at htext
    obtain ⟨r, hr⟩ := List.prefix_of_prefix_length_le ⟨_, htext.symm⟩ ⟨_, rfl⟩ hle
    exact ⟨r, hr.symm⟩
  obtain ⟨r, hr⟩ := hcases
  have hrest : r ++ (sep ++ suffix) = sep ++ b := by
    rw [hr, List.append_assoc, List.append_assoc, List.append_assoc] at htext
    exact List.append_cancel_left htext
  have hnil : r = [] := by
    by_contra hne
    apply hnot
    rw [hr]
    rcases List.append_eq_append_iff.mp hrest with ⟨t, hsep, -⟩ | ⟨t, hsub, -⟩
    · have hlast : r.getLast? = some ch := by
        have hends := congrArg List.getLast? hr
        rw [List.getLast?_append_of_ne_nil _ hne] at hends
        simpa using hends.symm
      obtain ⟨front, rfl⟩ := List.getLast?_eq_some_iff.mp hlast
      by_cases ht : t = []
      · rw [hsep, ht, List.append_nil]
        exact List.infix_append_right
      · rw [hsep, List.dropLast_append_of_ne_nil ht] at hch
        exact absurd (by simp) hch
    · exact ⟨a, t, by rw [hsub, List.append_assoc]⟩
  subst hnil
  rw [List.append_nil] at hr
  rw [hsplit, hr]
  have hsuffix : suffix = b := List.append_cancel_left hrest
  rw [hsuffix]

theorem infix_cons_sep_iff {p a b : List Char} {ch : Char} (hch : ch ∉ p) :
    p <:+: a ++ ch :: b ↔ p <:+: a ∨ p <:+: b := by
  constructor
  · rintro ⟨x, y, hxy⟩
    rcases List.append_eq_append_iff.mp hxy with ⟨t, rfl, -⟩ | ⟨t, hx, ht⟩
    · exact .inl ⟨x, t, rfl⟩
    · cases t with
      | nil =>
        rw [List.append_nil] at hx
        exact .inl ⟨x, [], by rw [List.append_nil, hx]⟩
      | cons first t =>
        obtain ⟨rfl, hb⟩ := List.cons.inj ht
        obtain rfl : b = t ++ y := hb
        right
        have hmid : x ++ p = (a ++ [ch]) ++ t := by simpa using hx
        rcases List.append_eq_append_iff.mp hmid with ⟨u, hu, hp⟩ | ⟨u, rfl, rfl⟩
        · rcases List.eq_nil_or_concat u with rfl | ⟨u, last, rfl⟩
          · exact ⟨[], y, by rw [hp, List.nil_append, List.nil_append]⟩
          · have hlast : ch = last := by
              have hends := congrArg List.getLast? hu
              simpa using hends
            rw [hp, hlast] at hch
            exact absurd (by simp) hch
        · exact ⟨u, y, by rw [List.append_assoc]⟩
  · rintro (h | h)
    · exact List.infix_append_of_infix_left h
    · exact List.infix_append_of_infix_right (h.trans (List.suffix_cons ch b).isInfix)

theorem filled_slot_iff {word init : Text} (hspace : ' ' ∉ word)
    (suffix : Text) {fill : Text} (hfill : fill.head? = some '[') :
    (splitFirst (inQuotes word) (init ++ [' '] ++ inQuotes word ++ suffix)).map
        (fun parts => parts.1 ++ fill ++ parts.2) = some (init ++ [' '] ++ fill ++ suffix) ↔
      ¬inQuotes word <:+: init ++ [' '] := by
  constructor
  · intro h hin
    obtain ⟨x, y, hxy⟩ := hin
    obtain ⟨⟨a, b⟩, hsplit, heq⟩ := Option.map_eq_some_iff.mp h
    have htext := append_of_splitFirst hsplit
    have hshort : a.length ≤ x.length := by
      have hxtext : init ++ [' '] ++ inQuotes word ++ suffix =
          x ++ inQuotes word ++ (y ++ inQuotes word ++ suffix) := by
        rw [← hxy]
        simp
      exact splitFirst_first hsplit hxtext
    have hlt : a.length < (init ++ [' ']).length := by
      have hlength := congrArg List.length hxy
      simp only [List.length_append, inQuotes, List.length_cons] at *
      omega
    have hquoteAt : (init ++ [' '])[a.length]? = some '"' := by
      have hat := congrArg (fun l => l[a.length]?) htext
      simp only [List.append_assoc] at hat
      rw [← List.append_assoc init, List.getElem?_append_left hlt] at hat
      rw [hat]
      simp [inQuotes]
    have hfillAt : (init ++ [' '])[a.length]? = some '[' := by
      have hat := congrArg (fun l => l[a.length]?) heq
      simp only [List.append_assoc] at hat
      rw [← List.append_assoc init, List.getElem?_append_left hlt] at hat
      rw [← hat]
      cases fill with
      | nil => cases hfill
      | cons ch rest =>
        obtain rfl : ch = '[' := Option.some.inj hfill
        simp
    rw [hquoteAt] at hfillAt
    exact absurd hfillAt (by decide)
  · intro hnot
    have hinside : ' ' ∉ (inQuotes word).dropLast := by
      unfold inQuotes
      rw [List.dropLast_concat]
      simpa using hspace
    rw [splitFirst_after hinside suffix hnot]
    rfl

end Slots

end FinanceContext.JsonStream
