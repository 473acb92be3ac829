import FinanceContext.CellKeys

namespace FinanceContext

open Csr

/-- What the standard library knows about characters. -/
structure CharTable where
  decimal : Char → Option ℕ
  space : Char → Bool
  decimal_ascii : ∀ ch : Char, ch.toNat < 128 →
    decimal ch = if ch.isDigit then some (ch.toNat - 48) else none

/-- `str.isspace`. -/
def isSpace (ch : Char) : Bool :=
  [9, 10, 11, 12, 13, 28, 29, 30, 31, 32, 133, 160, 5760, 8192, 8193, 8194, 8195, 8196, 8197,
    8198, 8199, 8200, 8201, 8202, 8232, 8233, 8239, 8287, 12288].contains ch.toNat

/-- `strip` of the characters in a class. -/
def stripChars (p : Char → Bool) (text : List Char) : List Char :=
  ((text.dropWhile p).reverse.dropWhile p).reverse

def replaceQuotes : List Char → List Char
  | '\'' :: '\'' :: rest => '\'' :: replaceQuotes rest
  | ch :: rest => ch :: replaceQuotes rest
  | [] => []

section Parsing

variable (table : CharTable)

def bareSheet (sheet : List Char) : List Char :=
  replaceQuotes (stripChars (· = '\'') (stripChars table.space sheet))

def parseNodeId (ref : String) : Option (String × ℕ × ℕ) := do
  let (sheet, addr) ← rsplitBang ref.toList
  let sheet := bareSheet table sheet
  let (col, row) ← parseAddr table.decimal ((addr.takeWhile (· ≠ ':')).filter (· ≠ '$'))
  if sheet.isEmpty then none else pure (String.ofList sheet, col, row)

def isCellId (name : String) : Bool := (parseNodeId table name).isSome && !name.toList.contains ':'

def isRangeNode (node : String) : Bool :=
  match rsplitBang node.toList with
  | some (_, body) => body.contains ':'
  | none => false

def parseRangeNode (node : String) : Option RangeNode :=
  if isRangeNode node then do
    let (sheet, body) ← rsplitBang node.toList
    let (c1, c2, r1, r2) ← rectangle table.decimal (String.ofList body)
    pure ⟨node, String.ofList sheet, c1, c2, r1, r2⟩
  else none

end Parsing

/-- `RangeHops._name` of a segment with more than one cell. -/
def segmentName (sheet : String) (col lo hi : ℕ) : String :=
  "#seg|" ++ sheet ++ "|" ++ toString col ++ "|" ++ toString lo ++ "|" ++ toString hi

/-- The id of a cell on a sheet whose name is read back as it stands. -/
structure CellId (table : CharTable) (name : String) (sheet : String) (col row : ℕ) : Prop where
  parsed : parseNodeId table name = some (sheet, col, row)
  name_eq : name = nodeId sheet (formatAddr col row)
  noColon : ':' ∉ name.toList

/-- A sheet name that `parse_node_id` returns unchanged, and that has no colon. -/
structure SheetName (table : CharTable) (sheet : String) : Prop where
  bare : bareSheet table sheet.toList = sheet.toList
  nonempty : sheet ≠ ""
  noColon : ':' ∉ sheet.toList

theorem CellId.isCellId {table : CharTable} {name sheet : String} {col row : ℕ}
    (h : CellId table name sheet col row) : isCellId table name = true := by
  simp [FinanceContext.isCellId, h.parsed, h.noColon]

section Reading

variable (table : CharTable)

theorem rsplitBang_append {sheet body : List Char} (hbody : '!' ∉ body) :
    rsplitBang (sheet ++ '!' :: body) = some (sheet, body) := by
  have hstop : ∀ ch ∈ body.reverse, (decide (ch ≠ '!')) = true := by
    intro ch hch
    have hne : ch ≠ '!' := fun he => hbody (he ▸ List.mem_reverse.mp hch)
    simpa using hne
  rw [rsplitBang, if_pos (by simp)]
  rw [List.reverse_append, List.reverse_cons, List.append_assoc,
    List.dropWhile_append_of_pos hstop, List.takeWhile_append_of_pos hstop]
  simp

theorem digit_range {ch : Char} (h : ch.isDigit = true) : 48 ≤ ch.toNat ∧ ch.toNat ≤ 57 := by
  simp only [Char.isDigit, Bool.and_eq_true, decide_eq_true_eq] at h
  exact h

theorem alpha_range {ch : Char} (h : ch.isAlpha = true) :
    65 ≤ ch.toNat ∧ ch.toNat < 128 := by
  delta Char.isAlpha Char.isUpper Char.isLower at h
  simp only [Bool.or_eq_true, Bool.and_eq_true, decide_eq_true_eq] at h
  rcases h with ⟨hlo, hhi⟩ | ⟨hlo, hhi⟩
  · have hlo' : 65 ≤ ch.toNat := hlo
    have hhi' : ch.toNat ≤ 90 := hhi
    omega
  · have hlo' : 97 ≤ ch.toNat := hlo
    have hhi' : ch.toNat ≤ 122 := hhi
    omega

theorem decimal_digit {ch : Char} (h : ch.isDigit = true) :
    table.decimal ch = some (ch.toNat - 48) := by
  have hrange := digit_range h
  rw [table.decimal_ascii ch (by omega), if_pos h]

theorem isDigit_of_mem_toString {n : ℕ} {ch : Char} (h : ch ∈ (toString n).toList) :
    ch.isDigit = true := by
  rw [show toString n = n.repr from rfl, Nat.toList_repr] at h
  exact Nat.isDigit_of_mem_toDigits (by decide) (by decide) h

theorem readInt_toString (n : ℕ) : readInt table.decimal (toString n).toList = n := by
  have hfold (chars : List Char) (hchars : ∀ ch ∈ chars, ch.isDigit = true) (init : ℕ) :
      chars.foldl (fun n ch => n * 10 + (table.decimal ch).getD 0) init =
        Nat.ofDigitChars 10 chars init := by
    induction chars generalizing init with
    | nil => rfl
    | cons ch chars ih =>
      have hch := decimal_digit table (hchars ch List.mem_cons_self)
      rw [List.foldl_cons, Nat.ofDigitChars_cons, hch,
        ih (fun c hc => hchars c (List.mem_cons_of_mem _ hc)), Nat.mul_comm 10 init]
      rfl
  rw [readInt, hfold _ (fun _ h => isDigit_of_mem_toString h), show toString n = n.repr from rfl,
    Nat.toList_repr, Nat.ofDigitChars_ten_toDigits]

theorem isAlpha_of_mem_indexToCol {n : ℕ} {ch : Char} (h : ch ∈ indexToCol n) :
    ch.isAlpha = true := by
  obtain ⟨hlo, hhi⟩ := isUpper_colDigits h
  have hupper : ch.isUpper = true := decide_eq_true ⟨hlo, Nat.le_of_lt_succ hhi⟩
  exact Bool.or_eq_true_iff.mpr (.inl hupper)

theorem upper_colDigit {n : ℕ} {ch : Char} (h : ch ∈ indexToCol n) : ch.toUpper = ch := by
  obtain ⟨hlo, hhi⟩ := isUpper_colDigits h
  delta Char.toUpper
  rw [dif_neg]
  rintro ⟨hlow, -⟩
  have hlow' : 97 ≤ ch.toNat := hlow
  omega

theorem skipDollar_of_head {chars : List Char} (h : ∀ ch ∈ chars, ch ≠ '$') :
    skipDollar chars = chars := by
  unfold skipDollar
  split
  · exact absurd rfl (h _ List.mem_cons_self)
  · rfl

theorem indexToCol_ne_nil (n : ℕ) : indexToCol n ≠ [] := by
  unfold indexToCol
  have hpos : 0 < max n 1 := by omega
  generalize max n 1 = m at hpos
  cases m with
  | zero => omega
  | succ m => simp [colDigits]

theorem toString_ne_nil (n : ℕ) : (toString n).toList ≠ [] := by
  rw [show toString n = n.repr from rfl, Nat.toList_repr]
  exact Nat.toDigits_ne_nil

theorem takeRow_toString (n : ℕ) : takeRow table.decimal (toString n).toList = some (n, []) := by
  have hdollar : ∀ ch ∈ (toString n).toList, ch ≠ '$' := by
    rintro _ hch rfl
    exact absurd (digit_range (isDigit_of_mem_toString hch)).1 (by decide)
  have hdigits : ∀ ch ∈ (toString n).toList, (table.decimal ch).isSome = true := by
    intro ch hch
    rw [decimal_digit table (isDigit_of_mem_toString hch)]
    rfl
  unfold takeRow
  simp only [skipDollar_of_head hdollar, List.takeWhile_eq_self_iff.mpr hdigits,
    List.dropWhile_eq_nil_iff.mpr hdigits, readInt_toString]
  rw [if_neg (by simp)]

theorem mem_formatAddr_ne {col row : ℕ} {ch : Char} (h : ch ∈ (formatAddr col row).toList)
    (halpha : ch.isAlpha = false) (hdigit : ch.isDigit = false) : False := by
  simp only [formatAddr, String.toList_append, String.toList_ofList] at h
  rcases List.mem_append.mp h with h | h
  · rw [isAlpha_of_mem_indexToCol h] at halpha
    cases halpha
  · rw [isDigit_of_mem_toString h] at hdigit
    cases hdigit

theorem takeWhile_of_forall_not {p : Char → Bool} {chars : List Char}
    (h : ∀ ch ∈ chars, p ch = false) : chars.takeWhile p = [] ∧ chars.dropWhile p = chars := by
  cases chars with
  | nil => exact ⟨rfl, rfl⟩
  | cons ch chars => simp [h ch List.mem_cons_self]

theorem parseAddr_formatAddr {col : ℕ} (row : ℕ) (hcol : 1 ≤ col) :
    parseAddr table.decimal (formatAddr col row).toList = some (col, row) := by
  have haddr : (formatAddr col row).toList = indexToCol col ++ (toString row).toList := by
    simp [formatAddr]
  have hletters : ∀ ch ∈ indexToCol col, ch.isAlpha = true := fun _ h => isAlpha_of_mem_indexToCol h
  have hstop : ∀ ch ∈ (toString row).toList, ch.isAlpha = false := by
    intro ch hch
    have hrange := digit_range (isDigit_of_mem_toString hch)
    by_contra halpha
    have hrange' := alpha_range (Bool.not_eq_false _ ▸ halpha)
    omega
  have hdollar : ∀ ch ∈ (formatAddr col row).toList, ch ≠ '$' := by
    rw [haddr]
    rintro _ hch rfl
    rcases List.mem_append.mp hch with hch | hch
    · exact absurd (hletters _ hch) (by decide)
    · exact absurd (digit_range (isDigit_of_mem_toString hch)).1 (by decide)
  obtain ⟨htake, hdrop⟩ := takeWhile_of_forall_not hstop
  unfold parseAddr
  rw [skipDollar_of_head hdollar, haddr]
  simp only [List.takeWhile_append_of_pos hletters, List.dropWhile_append_of_pos hletters, htake,
    hdrop, List.append_nil, takeRow_toString]
  rw [if_neg (by simpa using indexToCol_ne_nil col)]
  have hupper : (indexToCol col).map Char.toUpper = indexToCol col :=
    (List.map_congr_left fun _ hch => upper_colDigit hch).trans (List.map_id _)
  rw [hupper, colToIndex_indexToCol hcol]

theorem parseNodeId_nodeId {sheet : String} (hsheet : SheetName table sheet) {col : ℕ}
    (row : ℕ) (hcol : 1 ≤ col) :
    parseNodeId table (nodeId sheet (formatAddr col row)) = some (sheet, col, row) := by
  have hsplit : rsplitBang (nodeId sheet (formatAddr col row)).toList =
      some (sheet.toList, (formatAddr col row).toList) := by
    have hname : (nodeId sheet (formatAddr col row)).toList =
        sheet.toList ++ '!' :: (formatAddr col row).toList := by simp [nodeId]
    rw [hname, rsplitBang_append (bang_notMem_formatAddr col row)]
  have hcolon : ∀ ch ∈ (formatAddr col row).toList, decide (ch ≠ ':') = true := by
    intro ch hch
    have hne : ch ≠ ':' := fun he => mem_formatAddr_ne (he ▸ hch) (by decide) (by decide)
    simpa using hne
  have hdollar : ∀ ch ∈ (formatAddr col row).toList, decide (ch ≠ '$') = true := by
    intro ch hch
    have hne : ch ≠ '$' := fun he => mem_formatAddr_ne (he ▸ hch) (by decide) (by decide)
    simpa using hne
  unfold parseNodeId
  rw [hsplit]
  simp only [Option.bind_eq_bind, Option.bind_some, hsheet.bare,
    List.takeWhile_eq_self_iff.mpr hcolon, List.filter_eq_self.mpr hdollar,
    parseAddr_formatAddr table row hcol]
  have hne : sheet.toList ≠ [] := fun h => hsheet.nonempty (String.toList_inj.mp h)
  rw [if_neg (by simpa using hne), String.ofList_toList]
  rfl

theorem cellId_nodeId {sheet : String} (hsheet : SheetName table sheet) {col : ℕ} (row : ℕ)
    (hcol : 1 ≤ col) : CellId table (nodeId sheet (formatAddr col row)) sheet col row where
  parsed := parseNodeId_nodeId table hsheet row hcol
  name_eq := rfl
  noColon := by
    intro h
    simp only [nodeId, String.toList_append] at h
    rcases List.mem_append.mp h with h | h
    · rcases List.mem_append.mp h with h | h
      · exact hsheet.noColon h
      · exact absurd h (by decide)
    · exact mem_formatAddr_ne h (by decide) (by decide)

theorem one_le_col_of_parseAddr {decimal : Char → Option ℕ} {addr : List Char} {col row : ℕ}
    (h : parseAddr decimal addr = some (col, row)) : 1 ≤ col := by
  unfold parseAddr at h
  dsimp only at h
  split at h
  · cases h
  · rename_i hne
    split at h
    · obtain ⟨rfl, -⟩ := Prod.mk.inj (Option.some.inj h)
      apply one_le_colToIndex_of_forall (by simpa using hne)
      intro ch hch
      obtain ⟨letter, hletter, rfl⟩ := List.mem_map.mp hch
      exact le_toNat_toUpper (alpha_range (List.mem_takeWhile_imp hletter)).1
    · cases h

end Reading

theorem bar_notMem_toString (n : ℕ) : '|' ∉ (toString n).toList := by
  intro h
  exact absurd (isDigit_toString h).2 (by decide)

theorem segmentName_inj {sheet sheet' : String} {col col' lo lo' hi hi' : ℕ}
    (h : segmentName sheet col lo hi = segmentName sheet' col' lo' hi') :
    sheet = sheet' ∧ col = col' ∧ lo = lo' ∧ hi = hi' := by
  have hbar (n : ℕ) : '|' ∉ (toString n).toList.reverse := by
    simpa using bar_notMem_toString n
  have hlist := congrArg (fun t => t.toList.reverse) h
  simp only [segmentName, String.toList_append, List.reverse_append, List.append_assoc] at hlist
  obtain ⟨hhi, hlist⟩ := append_sep_inj (hbar hi) (hbar hi') hlist
  obtain ⟨hlo, hlist⟩ := append_sep_inj (hbar lo) (hbar lo') hlist
  obtain ⟨hcol, hlist⟩ := append_sep_inj (hbar col) (hbar col') hlist
  have hsheet : sheet.toList.reverse = sheet'.toList.reverse := List.append_cancel_right hlist
  exact ⟨String.toList_inj.mp (List.reverse_injective hsheet),
    toString_nat_inj (List.reverse_injective hcol), toString_nat_inj (List.reverse_injective hlo),
    toString_nat_inj (List.reverse_injective hhi)⟩

theorem bar_mem_of_rsplitBang_segmentName {sheet : String} {col lo hi : ℕ}
    {before body : List Char}
    (h : rsplitBang (segmentName sheet col lo hi).toList = some (before, body)) : '|' ∈ body := by
  have hname := eq_append_of_rsplitBang h
  have hend : (segmentName sheet col lo hi).toList =
      ("#seg|" ++ sheet ++ "|" ++ toString col ++ "|" ++ toString lo).toList ++
        '|' :: (toString hi).toList := by
    simp [segmentName]
  rw [hend] at hname
  rcases List.append_eq_append_iff.mp hname with ⟨mid, -, hbar⟩ | ⟨mid, -, hbang⟩
  · -- The bang would stand among the bar and the last digits.
    have hmem : '!' ∈ '|' :: (toString hi).toList := by
      rw [hbar]
      simp
    rcases List.mem_cons.mp hmem with hmem | hmem
    · cases hmem
    · exact absurd (isDigit_toString hmem).1 (by decide)
  · cases mid with
    | nil => cases hbang
    | cons ch mid =>
      rw [(List.cons.inj hbang).2]
      simp

/-- A reader of a prefix that never passes over a character. -/
def Leaves {α : Type} (ch : Char) (take : List Char → Option (α × List Char)) : Prop :=
  ∀ chars a rest, take chars = some (a, rest) → ch ∈ chars → ch ∈ rest

theorem mem_skipDollar {ch : Char} {chars : List Char} (hch : ch ≠ '$') (h : ch ∈ chars) :
    ch ∈ skipDollar chars := by
  unfold skipDollar
  split
  · exact (List.mem_cons.mp h).resolve_left hch
  · exact h

theorem mem_dropWhile_of_not {ch : Char} {p : Char → Bool} {chars : List Char}
    (hch : p ch = false) (h : ch ∈ chars) : ch ∈ chars.dropWhile p := by
  rw [← List.takeWhile_append_dropWhile (p := p) (l := chars)] at h
  rcases List.mem_append.mp h with h | h
  · rw [List.mem_takeWhile_imp h] at hch
    cases hch
  · exact h

theorem leaves_takeCol {ch : Char} (hdollar : ch ≠ '$') (hletter : isLetter ch = false) :
    Leaves ch takeCol := by
  intro chars col rest htake h
  unfold takeCol at htake
  dsimp only at htake
  split_ifs at htake
  obtain ⟨-, rfl⟩ := Prod.mk.inj (Option.some.inj htake)
  exact mem_dropWhile_of_not hletter (mem_skipDollar hdollar h)

theorem leaves_takeRow {decimal : Char → Option ℕ} {ch : Char} (hdollar : ch ≠ '$')
    (hdigit : decimal ch = none) : Leaves ch (takeRow decimal) := by
  intro chars row rest htake h
  unfold takeRow at htake
  dsimp only at htake
  split_ifs at htake
  obtain ⟨-, rfl⟩ := Prod.mk.inj (Option.some.inj htake)
  exact mem_dropWhile_of_not (by simp [hdigit]) (mem_skipDollar hdollar h)

theorem leaves_takeCell {decimal : Char → Option ℕ} {ch : Char} (hdollar : ch ≠ '$')
    (hletter : isLetter ch = false) (hdigit : decimal ch = none) :
    Leaves ch (takeCell decimal) := by
  intro chars cell rest htake h
  obtain ⟨⟨col, mid⟩, hcol, htake⟩ := Option.bind_eq_some_iff.mp htake
  obtain ⟨⟨row, last⟩, hrow, htake⟩ := Option.bind_eq_some_iff.mp htake
  obtain ⟨-, rfl⟩ := Prod.mk.inj (Option.some.inj htake)
  exact leaves_takeRow hdollar hdigit _ _ _ hrow (leaves_takeCol hdollar hletter _ _ _ hcol h)

theorem notMem_of_takeEnds {α : Type} {ch : Char} {take : List Char → Option (α × List Char)}
    (hleaves : Leaves ch take) (hcolon : ch ≠ ':') {chars : List Char} {ends : α × α}
    (h : takeEnds take chars = some ends) : ch ∉ chars := by
  intro hmem
  obtain ⟨⟨a, mid⟩, ha, h⟩ := Option.bind_eq_some_iff.mp h
  obtain ⟨afterColon, hmid, h⟩ := Option.bind_eq_some_iff.mp h
  obtain ⟨⟨b, last⟩, hb, h⟩ := Option.bind_eq_some_iff.mp h
  dsimp only at h
  split_ifs at h with hlast
  have hmemMid := hleaves _ _ _ ha hmem
  have hmemAfter : ch ∈ afterColon := by
    unfold takeColon at hmid
    split at hmid
    · obtain rfl := Option.some.inj hmid
      exact (List.mem_cons.mp hmemMid).resolve_left hcolon
    · cases hmid
  have hmemLast := hleaves _ _ _ hb hmemAfter
  rw [List.isEmpty_iff.mp hlast] at hmemLast
  cases hmemLast

theorem CharTable.decimal_bar (table : CharTable) : table.decimal '|' = none :=
  table.decimal_ascii '|' (by decide)

theorem bar_notMem_of_rectangle {table : CharTable} {body : String} {rect : ℕ × ℕ × ℕ × ℕ}
    (h : rectangle table.decimal body = some rect) : '|' ∉ body.toList := by
  unfold rectangle at h
  split at h
  · rename_i hends
    exact notMem_of_takeEnds (leaves_takeCell (by decide) (by decide) table.decimal_bar)
      (by decide) hends
  · split at h
    · rename_i hends
      exact notMem_of_takeEnds (leaves_takeCol (by decide) (by decide)) (by decide) hends
    · obtain ⟨ends, hends, -⟩ := Option.map_eq_some_iff.mp h
      exact notMem_of_takeEnds (leaves_takeRow (by decide) table.decimal_bar) (by decide) hends

theorem bar_notMem_of_parseAddr {table : CharTable} {addr : List Char} {cell : ℕ × ℕ}
    (h : parseAddr table.decimal addr = some cell) : '|' ∉ addr := by
  intro hmem
  unfold parseAddr at h
  dsimp only at h
  split_ifs at h
  split at h
  · rename_i row hrow
    have hrest : '|' ∈ (skipDollar addr).dropWhile Char.isAlpha :=
      mem_dropWhile_of_not (by decide) (mem_skipDollar (by decide) hmem)
    have hlast := leaves_takeRow (by decide) table.decimal_bar _ _ _ hrow hrest
    cases hlast
  · cases h

theorem isCellId_segmentName (table : CharTable) (sheet : String) (col lo hi : ℕ) :
    isCellId table (segmentName sheet col lo hi) = false := by
  by_contra hcell
  obtain ⟨hparsed, hcolon⟩ := Bool.and_eq_true_iff.mp (Bool.not_eq_false _ ▸ hcell)
  obtain ⟨cell, hparsed⟩ := Option.isSome_iff_exists.mp hparsed
  obtain ⟨⟨before, body⟩, hsplit, hparsed⟩ := Option.bind_eq_some_iff.mp hparsed
  obtain ⟨⟨col', row'⟩, haddr, -⟩ := Option.bind_eq_some_iff.mp hparsed
  have hnoColon : ':' ∉ body := by
    intro hmem
    have hname : ':' ∈ (segmentName sheet col lo hi).toList := by
      rw [eq_append_of_rsplitBang hsplit]
      simp [hmem]
    simp [hname] at hcolon
  have hall : body.takeWhile (· ≠ ':') = body := by
    rw [List.takeWhile_eq_self_iff]
    intro ch hch
    have hne : ch ≠ ':' := fun he => hnoColon (he ▸ hch)
    simpa using hne
  have hbar := bar_notMem_of_parseAddr haddr
  rw [hall] at hbar
  apply hbar
  exact List.mem_filter.mpr ⟨bar_mem_of_rsplitBang_segmentName hsplit, by decide⟩

theorem parseRangeNode_segmentName (table : CharTable) (sheet : String) (col lo hi : ℕ) :
    parseRangeNode table (segmentName sheet col lo hi) = none := by
  by_contra hsome
  obtain ⟨node, hnode⟩ := Option.ne_none_iff_exists'.mp hsome
  unfold parseRangeNode at hnode
  split_ifs at hnode
  obtain ⟨⟨before, body⟩, hsplit, hnode⟩ := Option.bind_eq_some_iff.mp hnode
  obtain ⟨rect, hrect, -⟩ := Option.bind_eq_some_iff.mp hnode
  have hbar := bar_notMem_of_rectangle hrect
  rw [String.toList_ofList] at hbar
  exact hbar (bar_mem_of_rsplitBang_segmentName hsplit)

theorem isCellId_of_parseRangeNode {table : CharTable} {name : String} {node : RangeNode}
    (h : parseRangeNode table name = some node) : isCellId table name = false := by
  unfold parseRangeNode at h
  split_ifs at h with hrange
  unfold isRangeNode at hrange
  cases hsplit : rsplitBang name.toList with
  | none => simp [hsplit] at hrange
  | some parts =>
    have hname : name.toList = parts.1 ++ '!' :: parts.2 := eq_append_of_rsplitBang hsplit
    have hcolon : ':' ∈ name.toList := by
      simp [hsplit] at hrange
      simp [hname, hrange]
    simp [isCellId, hcolon]

theorem nodeId_of_parseRangeNode {table : CharTable} {name : String} {node : RangeNode}
    (h : parseRangeNode table name = some node) : node.nodeId = name := by
  unfold parseRangeNode at h
  split_ifs at h
  obtain ⟨parts, -, h⟩ := Option.bind_eq_some_iff.mp h
  obtain ⟨rect, -, h⟩ := Option.bind_eq_some_iff.mp h
  obtain rfl := Option.some.inj h
  rfl

end FinanceContext
