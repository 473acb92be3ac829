import FinanceContext.NodeIds

namespace FinanceContext

variable {p : Char → Bool} {text : List Char}

theorem stripChars_sublist (p : Char → Bool) (text : List Char) :
    (stripChars p text).Sublist text := by
  have hfront := List.dropWhile_sublist p (l := text)
  have hback := List.dropWhile_sublist p (l := (text.dropWhile p).reverse)
  have hback' := hback.reverse
  rw [List.reverse_reverse] at hback'
  exact hback'.trans hfront

theorem dropWhile_eq_self : text.dropWhile p = text ↔ ∀ ch ∈ text.head?, p ch = false := by
  cases text with
  | nil => simp
  | cons ch rest =>
    by_cases hch : p ch = true
    · have hne : rest.dropWhile p ≠ ch :: rest := by
        intro h
        have hlen := (List.dropWhile_sublist p (l := rest)).length_le
        rw [h, List.length_cons] at hlen
        omega
      simpa [hch] using hne
    · simp [hch]

theorem stripChars_eq_self : stripChars p text = text ↔
    (∀ ch ∈ text.head?, p ch = false) ∧ ∀ ch ∈ text.getLast?, p ch = false := by
  have hfront := List.dropWhile_sublist p (l := text)
  have hback := List.dropWhile_sublist p (l := (text.dropWhile p).reverse)
  constructor
  · intro h
    have hlen : text.length = ((text.dropWhile p).reverse.dropWhile p).length := by
      have hsize := congrArg List.length h
      rw [stripChars, List.length_reverse] at hsize
      exact hsize.symm
    have hle := hback.length_le
    rw [List.length_reverse] at hle
    have hkept : text.dropWhile p = text := hfront.eq_of_length_le (by omega)
    unfold stripChars at h
    rw [hkept] at h
    have hrev : text.reverse.dropWhile p = text.reverse := by
      have hturned := congrArg List.reverse h
      rwa [List.reverse_reverse] at hturned
    refine ⟨dropWhile_eq_self.mp hkept, ?_⟩
    have hlast := dropWhile_eq_self.mp hrev
    rwa [List.head?_reverse] at hlast
  · rintro ⟨hhead, hlast⟩
    have hrev : text.reverse.dropWhile p = text.reverse := by
      apply dropWhile_eq_self.mpr
      rwa [List.head?_reverse]
    rw [stripChars, dropWhile_eq_self.mpr hhead, hrev, List.reverse_reverse]

theorem stripChars_within (p : Char → Bool) (text : List Char) : stripChars p text <:+: text := by
  have hfront : text.dropWhile p <:+: text := (List.dropWhile_suffix p).isInfix
  have hback : stripChars p text <+: text.dropWhile p := by
    unfold stripChars
    rw [← List.reverse_suffix, List.reverse_reverse]
    exact List.dropWhile_suffix p
  exact hback.isInfix.trans hfront

theorem getLast?_stripChars {p : Char → Bool} {text : List Char} {ch : Char}
    (h : (stripChars p text).getLast? = some ch) : p ch = false := by
  unfold stripChars at h
  rw [List.getLast?_reverse] at h
  have hhead := List.head?_dropWhile_not p (text.dropWhile p).reverse
  rw [h] at hhead
  exact hhead

theorem exists_stripChars (p : Char → Bool) (text : List Char) :
    ∃ a b, text = a ++ stripChars p text ++ b ∧ (∀ ch ∈ a, p ch = true) ∧
      ∀ ch ∈ b, p ch = true := by
  refine ⟨text.takeWhile p, ((text.dropWhile p).reverse.takeWhile p).reverse, ?_, ?_, ?_⟩
  · unfold stripChars
    rw [List.append_assoc, ← List.reverse_append, List.takeWhile_append_dropWhile,
      List.reverse_reverse, List.takeWhile_append_dropWhile]
  · intro ch hch
    exact List.mem_takeWhile_imp hch
  · intro ch hch
    exact List.mem_takeWhile_imp (List.mem_reverse.mp hch)

theorem dropWhile_append_all {p : Char → Bool} {a text : List Char} (ha : ∀ ch ∈ a, p ch = true) :
    (a ++ text).dropWhile p = text.dropWhile p := by
  induction a with
  | nil => rfl
  | cons ch a ih =>
    obtain ⟨hch, hrest⟩ := List.forall_mem_cons.mp ha
    rw [List.cons_append, List.dropWhile_cons_of_pos hch, ih hrest]

theorem stripChars_frame {p : Char → Bool} {a b text : List Char} (ha : ∀ ch ∈ a, p ch = true)
    (hb : ∀ ch ∈ b, p ch = true) (htext : stripChars p text = text) :
    stripChars p (a ++ text ++ b) = text := by
  obtain ⟨hhead, hlast⟩ := stripChars_eq_self.mp htext
  by_cases hnil : text = []
  · subst hnil
    have hblank : ∀ ch ∈ a ++ b, p ch = true := by
      intro ch hch
      exact (List.mem_append.mp hch).elim (ha ch) (hb ch)
    have hdrop : (a ++ b).dropWhile p = [] := List.dropWhile_eq_nil_iff.mpr hblank
    unfold stripChars
    rw [List.append_nil, hdrop]
    rfl
  · have hfront : (text ++ b).dropWhile p = text ++ b := by
      apply dropWhile_eq_self.mpr
      rwa [List.head?_append_of_ne_nil _ hnil]
    have hback : text.reverse.dropWhile p = text.reverse := by
      apply dropWhile_eq_self.mpr
      rwa [List.head?_reverse]
    have hb' : ∀ ch ∈ b.reverse, p ch = true := fun ch hch => hb ch (List.mem_reverse.mp hch)
    unfold stripChars
    rw [List.append_assoc, dropWhile_append_all ha, hfront, List.reverse_append,
      dropWhile_append_all hb', hback, List.reverse_reverse]

theorem ends_stripChars (p : Char → Bool) (text : List Char) :
    stripChars p (stripChars p text) = stripChars p text := by
  apply stripChars_eq_self.mpr
  refine ⟨?_, fun ch hch => getLast?_stripChars hch⟩
  intro ch hch
  have hback : stripChars p text <+: text.dropWhile p := by
    unfold stripChars
    rw [← List.reverse_suffix, List.reverse_reverse]
    exact List.dropWhile_suffix p
  have hhead := List.head?_dropWhile_not p text
  obtain ⟨rest, hrest⟩ := hback
  rw [← hrest, List.head?_append, Option.mem_def.mp hch, Option.some_or] at hhead
  exact hhead

theorem dropWhile_dropWhile_of_imp {q : Char → Bool} (h : ∀ ch, p ch = true → q ch = true) :
    (text.dropWhile p).dropWhile q = text.dropWhile q := by
  induction text with
  | nil => rfl
  | cons ch text ih =>
    cases hch : p ch with
    | true => rw [List.dropWhile_cons_of_pos hch, List.dropWhile_cons_of_pos (h ch hch), ih]
    | false => rw [List.dropWhile_cons_of_neg (by simp [hch])]

theorem length_stripChars_le {q : Char → Bool} (h : ∀ ch, p ch = true → q ch = true)
    (text : List Char) : (stripChars q text).length ≤ (stripChars p text).length := by
  have hfront : (text.dropWhile p).dropWhile q = text.dropWhile q := dropWhile_dropWhile_of_imp h
  unfold stripChars
  rw [List.length_reverse, List.length_reverse, ← hfront]
  obtain ⟨front, hfront⟩ := List.dropWhile_suffix q (l := text.dropWhile p)
  generalize (text.dropWhile p).dropWhile q = kept at hfront
  rw [← hfront, List.reverse_append]
  have hback : (kept.reverse.dropWhile q).length ≤
      ((kept.reverse ++ front.reverse).dropWhile q).length := by
    rw [List.dropWhile_append]
    split
    · rename_i hnil
      rw [List.isEmpty_iff.mp hnil]
      exact Nat.zero_le _
    · rw [List.length_append]
      exact Nat.le_add_right _ _
  have hclass : ((kept.reverse ++ front.reverse).dropWhile q).length ≤
      ((kept.reverse ++ front.reverse).dropWhile p).length := by
    rw [← dropWhile_dropWhile_of_imp h]
    exact (List.dropWhile_sublist q).length_le
  exact hback.trans hclass

end FinanceContext
