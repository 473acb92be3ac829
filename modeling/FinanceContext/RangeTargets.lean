import FinanceContext.NodeCodecs

namespace FinanceContext

open Csr Dictionaries

section NodeNames

theorem indexToCol_inj {c c' : ℕ} (hc : 1 ≤ c) (hc' : 1 ≤ c') (h : indexToCol c = indexToCol c') :
    c = c' := by
  rw [← colToIndex_indexToCol hc, ← colToIndex_indexToCol hc', h]

def rangeEnds (c1 c2 r1 r2 : ℕ) : List Char × List Char :=
  if r1 = 1 ∧ r2 = Csr.excelMaxRow then (indexToCol c1, indexToCol c2)
  else if c1 = 1 ∧ c2 = Csr.excelMaxCol then ((toString r1).toList, (toString r2).toList)
  else ((formatAddr c1 r1).toList, (formatAddr c2 r2).toList)

theorem rangeNodeId_eq (sheet : String) (c1 c2 r1 r2 : ℕ) :
    rangeNodeId sheet c1 c2 r1 r2 = nodeId sheet (String.ofList
      ((rangeEnds c1 c2 r1 r2).1 ++ ':' :: (rangeEnds c1 c2 r1 r2).2)) := by
  unfold rangeNodeId rangeEnds
  apply String.toList_inj.mp
  split_ifs <;> simp [nodeId]

theorem letter_or_digit_of_mem_rangeEnds {c1 c2 r1 r2 : ℕ} {ch : Char}
    (h : ch ∈ (rangeEnds c1 c2 r1 r2).1 ∨ ch ∈ (rangeEnds c1 c2 r1 r2).2) :
    65 ≤ ch.toNat ∨ 48 ≤ ch.toNat ∧ ch.toNat ≤ 57 := by
  have hletter {n : ℕ} (h : ch ∈ indexToCol n) : 65 ≤ ch.toNat := (isUpper_colDigits h).1
  have hdigit {n : ℕ} (h : ch ∈ (toString n).toList) : 48 ≤ ch.toNat ∧ ch.toNat ≤ 57 :=
    isDigit_toString h
  have haddr {c r : ℕ} (h : ch ∈ (formatAddr c r).toList) :
      65 ≤ ch.toNat ∨ 48 ≤ ch.toNat ∧ ch.toNat ≤ 57 := by
    simp only [formatAddr, String.toList_append, String.toList_ofList] at h
    rcases List.mem_append.mp h with h | h
    · exact .inl (hletter h)
    · exact .inr (hdigit h)
  unfold rangeEnds at h
  split_ifs at h
  · exact .inl (h.elim hletter hletter)
  · exact .inr (h.elim hdigit hdigit)
  · exact h.elim haddr haddr

def endShape (text : List Char) : Bool × Bool :=
  (text.any fun ch => 65 ≤ ch.toNat, text.any fun ch => ch.toNat ≤ 57)

theorem endShape_col (n : ℕ) : endShape (indexToCol n) = (true, false) := by
  obtain ⟨ch, rest, hcons⟩ := List.exists_cons_of_ne_nil (indexToCol_ne_nil n)
  have hrange : ∀ ch ∈ indexToCol n, 65 ≤ ch.toNat := fun _ h => (isUpper_colDigits h).1
  have hletter : (indexToCol n).any (fun ch => 65 ≤ ch.toNat) = true := by
    rw [List.any_eq_true]
    exact ⟨ch, hcons ▸ List.mem_cons_self, by simpa using hrange ch (hcons ▸ List.mem_cons_self)⟩
  have hdigit : (indexToCol n).any (fun ch => ch.toNat ≤ 57) = false := by
    rw [List.any_eq_false]
    intro ch hch
    have hlow := hrange ch hch
    simp only [decide_eq_true_eq]
    omega
  rw [endShape, hletter, hdigit]

theorem endShape_row (n : ℕ) : endShape (toString n).toList = (false, true) := by
  obtain ⟨ch, rest, hcons⟩ := List.exists_cons_of_ne_nil (toString_ne_nil n)
  have hrange : ∀ ch ∈ (toString n).toList, ch.toNat ≤ 57 := fun _ h => (isDigit_toString h).2
  have hletter : (toString n).toList.any (fun ch => 65 ≤ ch.toNat) = false := by
    rw [List.any_eq_false]
    intro ch hch
    have hhigh := hrange ch hch
    simp only [decide_eq_true_eq]
    omega
  have hdigit : (toString n).toList.any (fun ch => ch.toNat ≤ 57) = true := by
    rw [List.any_eq_true]
    exact ⟨ch, hcons ▸ List.mem_cons_self, by simpa using hrange ch (hcons ▸ List.mem_cons_self)⟩
  rw [endShape, hletter, hdigit]

theorem endShape_addr (c r : ℕ) : endShape (formatAddr c r).toList = (true, true) := by
  have hcol := congrArg Prod.fst (endShape_col c)
  have hrow := congrArg Prod.snd (endShape_row r)
  simp only [endShape] at hcol hrow
  simp only [endShape, formatAddr, String.toList_append, String.toList_ofList, List.any_append, hcol,
    hrow, Bool.true_or, Bool.or_true]

theorem rangeEnds_inj {c1 c2 r1 r2 c1' c2' r1' r2' : ℕ} (hc1 : 1 ≤ c1) (hc2 : 1 ≤ c2)
    (hc1' : 1 ≤ c1') (hc2' : 1 ≤ c2')
    (h : rangeEnds c1 c2 r1 r2 = rangeEnds c1' c2' r1' r2') :
    c1 = c1' ∧ c2 = c2' ∧ r1 = r1' ∧ r2 = r2' := by
  have hshape := congrArg (fun ends => endShape ends.1) h
  unfold rangeEnds at h hshape
  split_ifs at h hshape with hrows hrows' hcols' hcols hrows' hcols' hrows' hcols'
  all_goals
    simp only [endShape_col, endShape_row, endShape_addr, Prod.mk.injEq, Bool.true_eq_false,
      Bool.false_eq_true, and_false, false_and] at hshape
  · obtain ⟨hfirst, hlast⟩ := Prod.mk.inj h
    have hcol := indexToCol_inj hc1 hc1' hfirst
    have hcol' := indexToCol_inj hc2 hc2' hlast
    omega
  · obtain ⟨hfirst, hlast⟩ := Prod.mk.inj h
    have hrow := toString_nat_inj hfirst
    have hrow' := toString_nat_inj hlast
    omega
  · obtain ⟨hfirst, hlast⟩ := Prod.mk.inj h
    obtain ⟨hcol, hrow⟩ := formatAddr_inj hc1 hc1' (String.toList_inj.mp hfirst)
    obtain ⟨hcol', hrow'⟩ := formatAddr_inj hc2 hc2' (String.toList_inj.mp hlast)
    exact ⟨hcol, hcol', hrow, hrow'⟩

theorem rangeNodeId_inj {sheet sheet' : String} {c1 c2 r1 r2 c1' c2' r1' r2' : ℕ} (hc1 : 1 ≤ c1)
    (hc2 : 1 ≤ c2) (hc1' : 1 ≤ c1') (hc2' : 1 ≤ c2')
    (h : rangeNodeId sheet c1 c2 r1 r2 = rangeNodeId sheet' c1' c2' r1' r2') :
    sheet = sheet' ∧ c1 = c1' ∧ c2 = c2' ∧ r1 = r1' ∧ r2 = r2' := by
  have hbang (c1 c2 r1 r2 : ℕ) : '!' ∉ (String.ofList
      ((rangeEnds c1 c2 r1 r2).1 ++ ':' :: (rangeEnds c1 c2 r1 r2).2)).toList := by
    intro hmem
    rw [String.toList_ofList, List.mem_append, List.mem_cons] at hmem
    have hends : '!' ∈ (rangeEnds c1 c2 r1 r2).1 ∨ '!' ∈ (rangeEnds c1 c2 r1 r2).2 := by
      rcases hmem with hmem | hmem | hmem
      · exact .inl hmem
      · cases hmem
      · exact .inr hmem
    exact absurd (letter_or_digit_of_mem_rangeEnds hends) (by decide)
  have hcolon (c1 c2 r1 r2 : ℕ) : ':' ∉ (rangeEnds c1 c2 r1 r2).1 := fun hmem =>
    absurd (letter_or_digit_of_mem_rangeEnds (.inl hmem)) (by decide)
  rw [rangeNodeId_eq, rangeNodeId_eq] at h
  obtain ⟨hsheet, hbody⟩ := nodeId_inj (hbang _ _ _ _) (hbang _ _ _ _) h
  have hbody' := congrArg String.toList hbody
  rw [String.toList_ofList, String.toList_ofList] at hbody'
  obtain ⟨hfirst, hlast⟩ := append_sep_inj (hcolon _ _ _ _) (hcolon _ _ _ _) hbody'
  exact ⟨hsheet, rangeEnds_inj hc1 hc2 hc1' hc2' (Prod.ext hfirst hlast)⟩

end NodeNames

section Bodies

theorem suffix_skipDollar (chars : List Char) : skipDollar chars <:+ chars := by
  unfold skipDollar
  split
  · exact List.suffix_cons _ _
  · exact List.suffix_rfl

theorem suffix_of_takeCol {chars rest : List Char} {col : ℕ}
    (h : takeCol chars = some (col, rest)) : rest <:+ chars := by
  unfold takeCol at h
  dsimp only at h
  split_ifs at h
  obtain ⟨-, rfl⟩ := Prod.mk.inj (Option.some.inj h)
  exact (List.dropWhile_suffix _).trans (suffix_skipDollar chars)

theorem suffix_of_takeRow {decimal : Char → Option ℕ} {chars rest : List Char} {row : ℕ}
    (h : takeRow decimal chars = some (row, rest)) : rest <:+ chars := by
  unfold takeRow at h
  dsimp only at h
  split_ifs at h
  obtain ⟨-, rfl⟩ := Prod.mk.inj (Option.some.inj h)
  exact (List.dropWhile_suffix _).trans (suffix_skipDollar chars)

theorem suffix_of_takeCell {decimal : Char → Option ℕ} {chars rest : List Char} {cell : ℕ × ℕ}
    (h : takeCell decimal chars = some (cell, rest)) : rest <:+ chars := by
  obtain ⟨⟨col, mid⟩, hcol, h⟩ := Option.bind_eq_some_iff.mp h
  obtain ⟨⟨row, last⟩, hrow, h⟩ := Option.bind_eq_some_iff.mp h
  obtain ⟨-, rfl⟩ := Prod.mk.inj (Option.some.inj h)
  exact (suffix_of_takeRow hrow).trans (suffix_of_takeCol hcol)

theorem colon_mem_of_takeEnds {α : Type} {take : List Char → Option (α × List Char)}
    (htake : ∀ chars a rest, take chars = some (a, rest) → rest <:+ chars) {chars : List Char}
    {ends : α × α} (h : takeEnds take chars = some ends) : ':' ∈ chars := by
  obtain ⟨⟨a, mid⟩, ha, h⟩ := Option.bind_eq_some_iff.mp h
  obtain ⟨afterColon, hmid, -⟩ := Option.bind_eq_some_iff.mp h
  apply (htake _ _ _ ha).subset
  unfold takeColon at hmid
  split at hmid
  · exact List.mem_cons_self
  · cases hmid

/-- A range body has a colon and no `!`, and is not the body of a cell. -/
theorem colon_mem_of_rectangle {decimal : Char → Option ℕ} {body : String} {rect : ℕ × ℕ × ℕ × ℕ}
    (h : rectangle decimal body = some rect) : ':' ∈ body.toList := by
  unfold rectangle at h
  split at h
  · rename_i hends
    exact colon_mem_of_takeEnds (fun _ _ _ => suffix_of_takeCell) hends
  · split at h
    · rename_i hends
      exact colon_mem_of_takeEnds (fun _ _ _ => suffix_of_takeCol) hends
    · obtain ⟨ends, hends, -⟩ := Option.map_eq_some_iff.mp h
      exact colon_mem_of_takeEnds (fun _ _ _ => suffix_of_takeRow) hends

variable {table : CharTable}

theorem bang_notMem_of_rectangle {body : String} {rect : ℕ × ℕ × ℕ × ℕ}
    (h : rectangle table.decimal body = some rect) : '!' ∉ body.toList := by
  have hdecimal : table.decimal '!' = none := table.decimal_ascii '!' (by decide)
  unfold rectangle at h
  split at h
  · rename_i hends
    exact notMem_of_takeEnds (leaves_takeCell (by decide) (by decide) hdecimal) (by decide) hends
  · split at h
    · rename_i hends
      exact notMem_of_takeEnds (leaves_takeCol (by decide) (by decide)) (by decide) hends
    · obtain ⟨ends, hends, -⟩ := Option.map_eq_some_iff.mp h
      exact notMem_of_takeEnds (leaves_takeRow (by decide) hdecimal) (by decide) hends

theorem cellBody_of_colon {body : String} (h : ':' ∈ body.toList) :
    cellBody table.decimal body = none := by
  have hdecimal : table.decimal ':' = none := table.decimal_ascii ':' (by decide)
  unfold cellBody
  split
  · rename_i cell htake
    have hrest := leaves_takeCell (by decide) (by decide) hdecimal _ _ _ htake h
    cases hrest
  · rfl

/-- The body of a target without another `!` is what follows its last one. -/
theorem rsplitBang_of_splitSheetRef {target sheet body : String}
    (h : splitSheetRef target = some (sheet, body)) (hbang : '!' ∉ body.toList) :
    ∃ before, rsplitBang target.toList = some (before, body.toList) := by
  rw [splitSheetRef] at h
  obtain ⟨⟨before, rest⟩, hsplit, hpair⟩ := Option.map_eq_some_iff.mp h
  have hrest : rest = body.toList := by
    rw [← (Prod.mk.inj hpair).2, String.toList_ofList]
  subst hrest
  by_cases hhead : target.toList.head? = some '\''
  · rw [if_pos hhead] at hsplit
    obtain ⟨⟨quoted, tail⟩, hfirst, hdrop⟩ := Option.map_eq_some_iff.mp hsplit
    obtain rfl : tail = body.toList := (Prod.mk.inj hdrop).2
    have hname := append_of_splitFirst hfirst
    refine ⟨quoted ++ ['\''], ?_⟩
    rw [hname, ← rsplitBang_append hbang]
    simp
  · rw [if_neg hhead] at hsplit
    have hname := append_of_splitFirst hsplit
    refine ⟨before, ?_⟩
    rw [hname, ← rsplitBang_append hbang]
    simp

end Bodies

namespace Csr

theorem length_rectangle {α : Type} (f : ℕ → ℕ → α) (c1 c2 r1 r2 : ℕ) :
    ((List.range' r1 (r2 + 1 - r1)).flatMap fun row =>
      (List.range' c1 (c2 + 1 - c1)).map fun col => f row col).length = area c1 c2 r1 r2 := by
  simp [List.length_flatMap, area, Nat.mul_comm]

namespace Expansion

variable (ex : Expansion)

theorem takeCells_of_le {cap total : ℕ} {out cells : List String}
    (h : out.length + cells.length ≤ cap) : (takeCells cap total out cells).1 = out ++ cells := by
  induction cells generalizing out with
  | nil => simp [takeCells]
  | cons cell cells ih =>
    rw [List.length_cons] at h
    have hroom : ¬cap ≤ out.length := by omega
    rw [takeCells, if_neg hroom, ih, List.append_assoc, List.singleton_append]
    rw [List.length_append, List.length_singleton]
    omega

def memberCells (node : RangeNode) : List String :=
  match ex.usage, wholeAxis node.c1 node.c2 node.r1 node.r2 with
  | some usage, true =>
    (ex.presentPairs usage node.sheet node.c1 node.c2 node.r1 node.r2).map fun (row, col) =>
      nodeId node.sheet (formatAddr col row)
  | _, _ =>
    (List.range' node.r1 (node.r2 + 1 - node.r1)).flatMap fun row =>
      (List.range' node.c1 (node.c2 + 1 - node.c1)).map fun col =>
        nodeId node.sheet (formatAddr col row)

theorem rangeNodeFor_spec {target : String} {node : RangeNode}
    (h : ex.rangeNodeFor target = some node) :
    ∃ usage sheet body, ex.usage = some usage ∧ splitSheetRef target = some (sheet, body) ∧
      rectangle ex.decimal body = some (node.c1, node.c2, node.r1, node.r2) ∧
      node.sheet = ex.sheetName usage sheet ∧
      node.nodeId = rangeNodeId node.sheet node.c1 node.c2 node.r1 node.r2 := by
  obtain ⟨usage, husage, h⟩ := Option.bind_eq_some_iff.mp h
  obtain ⟨⟨sheet, body⟩, hsplit, h⟩ := Option.bind_eq_some_iff.mp h
  obtain ⟨_, -, h⟩ := Option.bind_eq_some_iff.mp h
  obtain ⟨⟨c1, c2, r1, r2⟩, hrect, h⟩ := Option.bind_eq_some_iff.mp h
  dsimp only at h
  split_ifs at h
  obtain rfl := Option.some.inj h
  exact ⟨usage, sheet, body, husage, hsplit, hrect, rfl, rfl⟩

theorem rangeNodeFor_inj {target target' : String} {node node' : RangeNode}
    (h : ex.rangeNodeFor target = some node) (h' : ex.rangeNodeFor target' = some node')
    (hid : node.nodeId = node'.nodeId) : node = node' := by
  obtain ⟨usage, sheet, body, -, -, hrect, -, hname⟩ := ex.rangeNodeFor_spec h
  obtain ⟨usage', sheet', body', -, -, hrect', -, hname'⟩ := ex.rangeNodeFor_spec h'
  obtain ⟨hc1, hc, -⟩ := bounds_of_rectangle hrect
  obtain ⟨hc1', hc', -⟩ := bounds_of_rectangle hrect'
  have hends := hid
  rw [hname, hname'] at hends
  obtain ⟨hsheet, h1, h2, h3, h4⟩ :=
    rangeNodeId_inj hc1 (hc1.trans hc) hc1' (hc1'.trans hc') hends
  obtain ⟨id, s, c1, c2, r1, r2⟩ := node
  obtain ⟨id', s', c1', c2', r1', r2'⟩ := node'
  simp_all

/-- The whole of a range is within the cap. -/
def BelowCap (node : RangeNode) : Prop :=
  wholeAxis node.c1 node.c2 node.r1 node.r2 = true ∨
    area node.c1 node.c2 node.r1 node.r2 ≤ ex.rangeCap

instance (node : RangeNode) : Decidable (ex.BelowCap node) := inferInstanceAs (Decidable (_ ∨ _))

theorem expandRange_of_node {table : CharTable} (hdecimal : ex.decimal = table.decimal)
    {target : String} {node : RangeNode} (h : ex.rangeNodeFor target = some node)
    (hcap : ex.BelowCap node) :
    ∃ truncated, ex.expandRange target = some (ex.memberCells node, truncated) := by
  obtain ⟨usage, sheet, body, husage, hsplit, hrect, hsheet, -⟩ := ex.rangeNodeFor_spec h
  have hbody : cellBody ex.decimal body = none := by
    rw [hdecimal]
    exact cellBody_of_colon (colon_mem_of_rectangle hrect)
  unfold expandRange memberCells
  rw [hsplit]
  simp only [Option.bind_eq_bind, Option.bind_some, hbody, hrect, husage, Option.map_some,
    Option.getD_some, ← hsheet]
  rcases Bool.eq_false_or_eq_true (wholeAxis node.c1 node.c2 node.r1 node.r2) with hwhole | hwhole
  · rw [hwhole]
    exact ⟨false, rfl⟩
  · have harea : area node.c1 node.c2 node.r1 node.r2 ≤ ex.rangeCap := by
      rcases hcap with hcap | hcap
      · rw [hwhole] at hcap
        cases hcap
      · exact hcap
    rw [hwhole]
    refine ⟨(takeCells ex.rangeCap (area node.c1 node.c2 node.r1 node.r2) []
      ((List.range' node.r1 (node.r2 + 1 - node.r1)).flatMap fun row =>
        (List.range' node.c1 (node.c2 + 1 - node.c1)).map fun col =>
          nodeId node.sheet (formatAddr col row))).2, ?_⟩
    apply congrArg some
    apply Prod.ext
    · refine (takeCells_of_le ?_).trans (List.nil_append _)
      rw [List.length_nil, Nat.zero_add, length_rectangle]
      exact harea
    · rfl

end Expansion

end Csr

end FinanceContext
