import Mathlib.Data.List.Basic
import Mathlib.Tactic.IntervalCases

namespace FinanceContext

/-- The keys of the dictionaries, compared by equality. -/
instance lawfulBEq_text : LawfulBEq (List Char) := inferInstance

instance lawfulBEq_rowKey : LawfulBEq (String × ℕ) := inferInstance

instance lawfulBEq_names : LawfulBEq (String × String) := inferInstance

instance lawfulBEq_segment : LawfulBEq (String × ℕ × ℕ × ℕ) := inferInstance

/-- The loop of `index_to_col`: base 26 without a zero. -/
def colDigits : ℕ → ℕ → List Char
  | 0, _ => []
  | fuel + 1, value =>
    if value = 0 then []
    else colDigits fuel ((value - 1) / 26) ++ [Char.ofNat (65 + (value - 1) % 26)]

def indexToCol (n : ℕ) : List Char := colDigits (max n 1) (max n 1)

def colToIndex (col : List Char) : ℕ := col.foldl (fun n ch => n * 26 + (ch.toNat - 64)) 0

def formatAddr (col row : ℕ) : String := String.ofList (indexToCol col) ++ toString row

def nodeId (sheet addr : String) : String := sheet ++ "!" ++ addr

def rowKey (sheet : String) (row : ℕ) (blockId : String) : String :=
  sheet ++ "|" ++ toString row ++ "|" ++ blockId

theorem toNat_colDigit (n : ℕ) : (Char.ofNat (65 + n % 26)).toNat = 65 + n % 26 := by
  have h : n % 26 < 26 := Nat.mod_lt n (by omega)
  generalize n % 26 = r at h
  interval_cases r <;> rfl

theorem colToIndex_colDigits (fuel value : ℕ) (h : value ≤ fuel) :
    colToIndex (colDigits fuel value) = value := by
  induction fuel generalizing value with
  | zero => simp [colDigits, colToIndex]; omega
  | succ fuel ih =>
    simp only [colDigits]
    split_ifs with h0
    · simp [colToIndex, h0]
    · have hrest := ih ((value - 1) / 26) (by omega)
      rw [colToIndex] at hrest ⊢
      rw [List.foldl_append, hrest, List.foldl_cons, List.foldl_nil, toNat_colDigit]
      omega

theorem colToIndex_indexToCol {n : ℕ} (h : 1 ≤ n) : colToIndex (indexToCol n) = n := by
  rw [indexToCol, colToIndex_colDigits _ _ (Nat.le_refl _)]
  omega

theorem isUpper_colDigits {fuel value : ℕ} {ch : Char} (h : ch ∈ colDigits fuel value) :
    65 ≤ ch.toNat ∧ ch.toNat < 91 := by
  induction fuel generalizing value with
  | zero => cases h
  | succ fuel ih =>
    simp only [colDigits] at h
    split_ifs at h
    · cases h
    · rcases List.mem_append.mp h with h | h
      · exact ih h
      · rw [List.mem_singleton.mp h, toNat_colDigit]
        omega

theorem isDigit_toString {n : ℕ} {ch : Char} (h : ch ∈ (toString n).toList) :
    48 ≤ ch.toNat ∧ ch.toNat ≤ 57 := by
  rw [show toString n = n.repr from rfl, Nat.toList_repr] at h
  have hdigit := Nat.isDigit_of_mem_toDigits (by decide) (by decide) h
  simp only [Char.isDigit, Bool.and_eq_true, decide_eq_true_eq] at hdigit
  exact hdigit

theorem toString_nat_inj {n m : ℕ} (h : (toString n).toList = (toString m).toList) : n = m := by
  rw [show toString n = n.repr from rfl, show toString m = m.repr from rfl, Nat.toList_repr,
    Nat.toList_repr] at h
  rw [← Nat.ofDigitChars_ten_toDigits (n := n), h, Nat.ofDigitChars_ten_toDigits]

theorem append_sep_inj {sep : Char} {a b x y : List Char} (ha : sep ∉ a) (hb : sep ∉ b)
    (h : a ++ sep :: x = b ++ sep :: y) : a = b ∧ x = y := by
  induction a generalizing b with
  | nil =>
    cases b with
    | nil => exact ⟨rfl, (List.cons.inj h).2⟩
    | cons c b => exact absurd (List.cons.inj h).1 (fun hc => hb (hc ▸ List.mem_cons_self))
  | cons c a ih =>
    cases b with
    | nil => exact absurd (List.cons.inj h).1 (fun hc => ha (hc ▸ List.mem_cons_self))
    | cons c' b =>
      obtain ⟨rfl, hrest⟩ := List.cons.inj h
      obtain ⟨rfl, hxy⟩ := ih (fun hc => ha (List.mem_cons_of_mem _ hc))
        (fun hc => hb (List.mem_cons_of_mem _ hc)) hrest
      exact ⟨rfl, hxy⟩

theorem append_inj_of_classes {P : Char → Prop} [DecidablePred P] {a b x y : List Char}
    (ha : ∀ c ∈ a, P c) (hb : ∀ c ∈ b, P c) (hx : ∀ c ∈ x, ¬P c) (hy : ∀ c ∈ y, ¬P c)
    (h : a ++ x = b ++ y) : a = b ∧ x = y := by
  have hsplit (l r : List Char) (hl : ∀ c ∈ l, P c) (hr : ∀ c ∈ r, ¬P c) :
      (l ++ r).takeWhile (P ·) = l := by
    rw [List.takeWhile_append_of_pos (by simpa using hl)]
    cases r with
    | nil => simp
    | cons c r => simp [hr c List.mem_cons_self]
  have hab : a = b := by
    rw [← hsplit a x ha hx, h, hsplit b y hb hy]
  subst hab
  exact ⟨rfl, List.append_cancel_left h⟩

theorem formatAddr_inj {c c' r r' : ℕ} (hc : 1 ≤ c) (hc' : 1 ≤ c')
    (h : formatAddr c r = formatAddr c' r') : c = c' ∧ r = r' := by
  have hlist := congrArg String.toList h
  simp only [formatAddr, String.toList_append, String.toList_ofList] at hlist
  obtain ⟨hcol, hrow⟩ := append_inj_of_classes (P := fun ch => 65 ≤ ch.toNat)
    (fun _ h => (isUpper_colDigits h).1) (fun _ h => (isUpper_colDigits h).1)
    (fun _ h => by have := isDigit_toString h; omega)
    (fun _ h => by have := isDigit_toString h; omega) hlist
  refine ⟨?_, toString_nat_inj hrow⟩
  rw [← colToIndex_indexToCol hc, ← colToIndex_indexToCol hc']
  exact congrArg colToIndex hcol

theorem formatAddr_ne_empty (c r : ℕ) : formatAddr c r ≠ "" := by
  intro hempty
  have hlength := congrArg (fun text => text.toList.length) hempty
  have hdigits : 0 < (toString r).toList.length := by
    rw [show toString r = r.repr from rfl, Nat.toList_repr]
    exact List.length_pos_of_ne_nil Nat.toDigits_ne_nil
  simp only [formatAddr, String.toList_append, List.length_append] at hlength
  have hzero : "".toList.length = 0 := rfl
  omega

theorem bang_notMem_formatAddr (c r : ℕ) : '!' ∉ (formatAddr c r).toList := by
  intro h
  simp only [formatAddr, String.toList_append, String.toList_ofList] at h
  rcases List.mem_append.mp h with h | h
  · have := (isUpper_colDigits h).1
    exact absurd this (by decide)
  · have := (isDigit_toString h).1
    exact absurd this (by decide)

/-- The part after the last `!` of a node id is its address. -/
theorem nodeId_inj {s s' a a' : String} (ha : '!' ∉ a.toList) (ha' : '!' ∉ a'.toList)
    (h : nodeId s a = nodeId s' a') : s = s' ∧ a = a' := by
  have hlist := congrArg (fun t => t.toList.reverse) h
  simp only [nodeId, String.toList_append, List.reverse_append, List.append_assoc] at hlist
  have hrev (b : String) (hb : '!' ∉ b.toList) : '!' ∉ b.toList.reverse := by simpa using hb
  obtain ⟨haddr, hsheet⟩ := append_sep_inj (hrev a ha) (hrev a' ha') hlist
  exact ⟨String.toList_inj.mp (List.reverse_injective hsheet),
    String.toList_inj.mp (List.reverse_injective haddr)⟩

theorem rowKey_inj {s : String} {r r' : ℕ} {b b' : String} (h : rowKey s r b = rowKey s r' b') :
    r = r' ∧ b = b' := by
  have hlist := congrArg String.toList h
  simp only [rowKey, String.toList_append, List.append_assoc, List.append_cancel_left_eq] at hlist
  have hbar (n : ℕ) : '|' ∉ (toString n).toList := fun hmem =>
    absurd (isDigit_toString hmem).2 (by decide)
  obtain ⟨hrow, hblock⟩ := append_sep_inj (hbar r) (hbar r') hlist
  exact ⟨toString_nat_inj hrow, String.toList_inj.mp hblock⟩

theorem le_toNat_toUpper {ch : Char} (h : 65 ≤ ch.toNat) : 65 ≤ ch.toUpper.toNat := by
  delta Char.toUpper
  split
  · rename_i hlow
    have hlo : 97 ≤ ch.val.toNat := hlow.1
    have hhi : ch.val.toNat ≤ 122 := hlow.2
    have hdiff : ('A'.val - 'a'.val).toNat = 4294967264 := by decide
    change 65 ≤ (ch.val + ('A'.val - 'a'.val)).toNat
    rw [UInt32.toNat_add, hdiff]
    omega
  · exact h

theorem one_le_colToIndex_of_forall {letters : List Char} (h : letters ≠ [])
    (hletters : ∀ ch ∈ letters, 65 ≤ ch.toNat) : 1 ≤ colToIndex letters := by
  obtain ⟨front, last, rfl⟩ := List.eq_nil_or_concat letters |>.resolve_left h
  rw [List.concat_eq_append] at hletters ⊢
  have hlast := hletters last (by simp)
  rw [colToIndex, List.foldl_append, List.foldl_cons, List.foldl_nil]
  omega

end FinanceContext
