import Mathlib.Algebra.GroupWithZero.Nat
import Mathlib.Data.List.SplitBy

/-!
Texts of tokens with one separator between them, and the passes that drop some of the
separators, each by what stands before and after it in the text the pass was given.
-/

namespace TokenGaps

variable {α : Type} [DecidableEq α] {sep : α}

/-- The text without the separators that `p` drops, by the text before (reversed) and after. -/
def dropGaps (sep : α) (p : List α → List α → Bool) : List α → List α → List α
  | _, [] => []
  | before, ch :: after =>
    if ch = sep ∧ p before after = true then dropGaps sep p (ch :: before) after
    else ch :: dropGaps sep p (ch :: before) after

def spaced (sep : α) (tokens : List (List α)) : List α := [sep].intercalate tokens

/-- Neighbouring tokens that `p` relates become one token. -/
def merged (p : List α → List α → Bool) (tokens : List (List α)) : List (List α) :=
  (tokens.splitBy p).map List.flatten

/-- A token by itself: something in it, and no separator. -/
def Solid (sep : α) (token : List α) : Prop := token ≠ [] ∧ sep ∉ token

/-- What drops a separator is seen in the two tokens around it. -/
def Local (sep : α) (P p : List α → List α → Bool) : Prop :=
  ∀ before t u after, Solid sep t → Solid sep u → (∀ ch ∈ before.head?, ch = sep) →
    (∀ ch ∈ after.head?, ch = sep) → P (t.reverse ++ before) (u ++ after) = p t u

section Merging

omit [DecidableEq α]

variable {p : List α → List α → Bool}

theorem merged_singleton (t : List α) : merged p [t] = [t] := by
  unfold merged
  rw [List.splitBy_of_isChain (List.cons_ne_nil _ _) (List.isChain_singleton _)]
  simp

theorem merged_cons_of_not {t u : List α} (h : p t u = false) (rest : List (List α)) :
    merged p (t :: u :: rest) = t :: merged p (u :: rest) := by
  have hsplit : ([t] ++ u :: rest).splitBy p = [t].splitBy p ++ (u :: rest).splitBy p :=
    List.splitBy_append_cons rest (by simpa using h)
  have hone : [t].splitBy p = [[t]] :=
    List.splitBy_of_isChain (List.cons_ne_nil _ _) (List.isChain_singleton _)
  unfold merged
  rw [← List.singleton_append, hsplit, hone]
  simp

theorem merged_cons_of {t u : List α} (h : p t u = true) (rest : List (List α)) :
    ∃ m ms, merged p (u :: rest) = m :: ms ∧ merged p (t :: u :: rest) = (t ++ m) :: ms := by
  have hne : (u :: rest).splitBy p ≠ [] := List.splitBy_ne_nil.mpr (List.cons_ne_nil u rest)
  obtain ⟨g, gs, hgroups⟩ := List.exists_cons_of_ne_nil hne
  obtain ⟨htext, hnil, hchain, hgaps⟩ := List.splitBy_eq_iff.mp hgroups
  have hg : g ≠ [] := fun hg => hnil (hg ▸ List.mem_cons_self)
  obtain ⟨first, others, rfl⟩ := List.exists_cons_of_ne_nil hg
  obtain ⟨rfl, -⟩ := List.cons.inj htext
  have hlong : (t :: u :: rest).splitBy p = (t :: u :: others) :: gs := by
    rw [List.splitBy_eq_iff]
    refine ⟨by rw [htext]; rfl, ?_, ?_, ?_⟩
    · simpa using hnil
    · intro run hrun
      rcases List.mem_cons.mp hrun with rfl | hrun
      · exact List.isChain_cons_cons.mpr ⟨h, hchain _ List.mem_cons_self⟩
      · exact hchain run (List.mem_cons_of_mem _ hrun)
    · cases gs with
      | nil => exact List.isChain_singleton _
      | cons next gs =>
        obtain ⟨⟨ha, hb, hgap⟩, hrest⟩ := List.isChain_cons_cons.mp hgaps
        refine List.isChain_cons_cons.mpr ⟨⟨List.cons_ne_nil _ _, hb, ?_⟩, hrest⟩
        rwa [List.getLast_cons ha]
  refine ⟨(u :: others).flatten, gs.map List.flatten, ?_, ?_⟩
  · unfold merged
    rw [hgroups, List.map_cons]
  · unfold merged
    rw [hlong, List.map_cons, List.flatten_cons]

theorem merged_of_isChain {tokens : List (List α)}
    (h : tokens.IsChain fun a b => p a b = false) : merged p tokens = tokens := by
  induction tokens with
  | nil => rfl
  | cons t tokens ih =>
    cases tokens with
    | nil => exact merged_singleton t
    | cons u rest =>
      obtain ⟨htu, hrest⟩ := List.isChain_cons_cons.mp h
      rw [merged_cons_of_not htu, ih hrest]

theorem length_merged_le (tokens : List (List α)) :
    (merged p tokens).length ≤ tokens.length := by
  induction tokens with
  | nil => rfl
  | cons t tokens ih =>
    cases tokens with
    | nil => rw [merged_singleton]
    | cons u rest =>
      cases htu : p t u with
      | false =>
        rw [merged_cons_of_not htu, List.length_cons, List.length_cons]
        exact Nat.succ_le_succ ih
      | true =>
        obtain ⟨m, ms, hrest, hall⟩ := merged_cons_of htu rest
        rw [hall, List.length_cons, List.length_cons]
        rw [hrest, List.length_cons] at ih
        omega

theorem length_merged_lt {tokens : List (List α)}
    (h : ¬tokens.IsChain fun a b => p a b = false) :
    (merged p tokens).length < tokens.length := by
  induction tokens with
  | nil => exact absurd List.isChain_nil h
  | cons t tokens ih =>
    cases tokens with
    | nil => exact absurd (List.isChain_singleton t) h
    | cons u rest =>
      have hle := length_merged_le (p := p) (u :: rest)
      cases htu : p t u with
      | false =>
        rw [merged_cons_of_not htu, List.length_cons, List.length_cons]
        apply Nat.succ_lt_succ
        apply ih
        intro hchain
        exact h (List.isChain_cons_cons.mpr ⟨htu, hchain⟩)
      | true =>
        obtain ⟨m, ms, hrest, hall⟩ := merged_cons_of htu rest
        rw [hall, List.length_cons, List.length_cons]
        rw [hrest, List.length_cons] at hle
        omega

theorem head?_merged {u m : List α} (hu : u ≠ []) {rest ms : List (List α)}
    (h : merged p (u :: rest) = m :: ms) : m.head? = u.head? := by
  cases rest with
  | nil =>
    rw [merged_singleton] at h
    rw [(List.cons.inj h).1]
  | cons v rest =>
    cases huv : p u v with
    | false =>
      rw [merged_cons_of_not huv] at h
      rw [(List.cons.inj h).1]
    | true =>
      obtain ⟨m', ms', -, hall⟩ := merged_cons_of huv rest
      rw [hall] at h
      rw [← (List.cons.inj h).1, List.head?_append_of_ne_nil _ hu]

theorem forall_merged {Q : List α → Prop} {tokens : List (List α)}
    (happ : ∀ t u m, p t u = true → m.head? = u.head? → Q t → Q m → Q (t ++ m))
    (hne : ∀ t ∈ tokens, t ≠ []) (h : ∀ t ∈ tokens, Q t) : ∀ m ∈ merged p tokens, Q m := by
  induction tokens with
  | nil => exact fun m hm => absurd hm List.not_mem_nil
  | cons t tokens ih =>
    have ht := h t List.mem_cons_self
    have hrest := ih (fun u hu => hne u (List.mem_cons_of_mem t hu))
      (fun u hu => h u (List.mem_cons_of_mem t hu))
    cases tokens with
    | nil =>
      rw [merged_singleton]
      exact List.forall_mem_singleton.mpr ht
    | cons u rest =>
      cases htu : p t u with
      | false =>
        rw [merged_cons_of_not htu]
        exact List.forall_mem_cons.mpr ⟨ht, hrest⟩
      | true =>
        obtain ⟨m, ms, hm, hall⟩ := merged_cons_of htu rest
        rw [hm] at hrest
        obtain ⟨hQm, hms⟩ := List.forall_mem_cons.mp hrest
        rw [hall]
        have hhead := head?_merged (hne u (by simp)) hm
        exact List.forall_mem_cons.mpr ⟨happ t u m htu hhead ht hQm, hms⟩

/-- Merging sees the tokens only through `g` where the rule does. -/
theorem merged_map (g : α → α) (tokens : List (List α)) :
    merged p (tokens.map (List.map g)) =
      (merged (fun t u => p (t.map g) (u.map g)) tokens).map (List.map g) := by
  have hsplit : (tokens.map (List.map g)).splitBy p =
      (tokens.splitBy fun t u => p (t.map g) (u.map g)).map (List.map (List.map g)) := by
    rw [List.splitBy_eq_iff, ← List.map_flatten, List.flatten_splitBy]
    refine ⟨rfl, ?_, ?_, ?_⟩
    · intro hnil
      obtain ⟨run, hrun, hempty⟩ := List.mem_map.mp hnil
      rw [List.map_eq_nil_iff] at hempty
      exact List.nil_notMem_splitBy _ tokens (hempty ▸ hrun)
    · intro spelled hspelled
      obtain ⟨run, hrun, rfl⟩ := List.mem_map.mp hspelled
      exact (List.isChain_map _).mpr (List.isChain_of_mem_splitBy hrun)
    · refine (List.isChain_map _).mpr ((List.isChain_getLast_head_splitBy _ tokens).imp ?_)
      rintro run next ⟨ha, hb, hgap⟩
      refine ⟨by simpa using ha, by simpa using hb, ?_⟩
      rwa [List.getLast_map, List.head_map]
  unfold merged
  rw [hsplit, List.map_map, List.map_map]
  exact List.map_congr_left fun run _ => List.map_flatten.symm

section Pairs

variable {Q : List α → Prop}

theorem merged_pair (hno : ∀ t u v, Q u → p t u = true → p u v = false) {t u : List α} (hu : Q u)
    (h : p t u = true) (rest : List (List α)) :
    merged p (t :: u :: rest) = (t ++ u) :: merged p rest := by
  obtain ⟨m, ms, hm, hall⟩ := merged_cons_of h rest
  rw [hall]
  cases rest with
  | nil =>
    rw [merged_singleton] at hm
    obtain ⟨rfl, rfl⟩ := List.cons.inj hm
    rfl
  | cons v rest =>
    rw [merged_cons_of_not (hno t u v hu h)] at hm
    obtain ⟨rfl, rfl⟩ := List.cons.inj hm
    rfl

theorem isChain_merged (hno : ∀ t u v, Q u → p t u = true → p u v = false)
    (hgrow : ∀ t u w, Q u → Q w → p t (u ++ w) = false)
    (hlong : ∀ t u v, Q u → p t u = true → p (t ++ u) v = false) :
    ∀ {tokens : List (List α)}, (∀ t ∈ tokens, Q t) →
      (merged p tokens).IsChain fun a b => p a b = false
  | [], _ => List.isChain_nil
  | [t], _ => by
    rw [merged_singleton]
    exact List.isChain_singleton t
  | t :: u :: rest, h => by
    have hu := h u (by simp)
    cases htu : p t u with
    | true =>
      rw [merged_pair hno hu htu]
      have hQ : ∀ v ∈ rest, Q v := fun v hv => h v (by simp [hv])
      have hrest := isChain_merged hno hgrow hlong hQ
      cases hm : merged p rest with
      | nil => exact List.isChain_singleton _
      | cons m ms =>
        rw [hm] at hrest
        exact List.isChain_cons_cons.mpr ⟨hlong t u m hu htu, hrest⟩
    | false =>
      rw [merged_cons_of_not htu]
      have hrest := isChain_merged hno hgrow hlong fun v hv => h v (List.mem_cons_of_mem t hv)
      cases rest with
      | nil =>
        rw [merged_singleton]
        exact List.isChain_cons_cons.mpr ⟨htu, List.isChain_singleton u⟩
      | cons v rest =>
        have hv := h v (by simp)
        cases huv : p u v with
        | false =>
          rw [merged_cons_of_not huv] at hrest ⊢
          exact List.isChain_cons_cons.mpr ⟨htu, hrest⟩
        | true =>
          rw [merged_pair hno hv huv] at hrest ⊢
          exact List.isChain_cons_cons.mpr ⟨hgrow t u v hu hv, hrest⟩

theorem isChain_merged_iff {q : List α → List α → Bool} (hne : ∀ u, Q u → u ≠ [])
    (hno : ∀ t u v, Q u → p t u = true → p u v = false)
    (hhead : ∀ t u m, m.head? = u.head? → q t m = q t u)
    (hpair : ∀ t u v, Q u → p t u = true → q t u = false ∧ q u v = false ∧ q (t ++ u) v = false) :
    ∀ {tokens : List (List α)}, (∀ t ∈ tokens, Q t) →
      (((merged p tokens).IsChain fun a b => q a b = false) ↔
        tokens.IsChain fun a b => q a b = false)
  | [], _ => Iff.rfl
  | [t], _ => by rw [merged_singleton]
  | t :: u :: rest, h => by
    have hu := h u (by simp)
    cases htu : p t u with
    | true =>
      have hQ : ∀ v ∈ rest, Q v := fun v hv => h v (by simp [hv])
      have hrest := isChain_merged_iff hne hno hhead hpair hQ
      rw [merged_pair hno hu htu, List.isChain_cons_cons,
        and_iff_right (hpair t u [] hu htu).1]
      have hfront : ∀ (w : List α) (ms : List (List α)), (∀ v, q w v = false) →
          (((w :: ms).IsChain fun a b => q a b = false) ↔ ms.IsChain fun a b => q a b = false) := by
        intro w ms hw
        cases ms with
        | nil => exact iff_of_true (List.isChain_singleton w) List.isChain_nil
        | cons m ms => rw [List.isChain_cons_cons, and_iff_right (hw m)]
      rw [hfront _ _ fun v => (hpair t u v hu htu).2.2, hrest,
        hfront u rest fun v => (hpair t u v hu htu).2.1]
    | false =>
      have hrest := isChain_merged_iff hne hno hhead hpair fun v hv =>
        h v (List.mem_cons_of_mem t hv)
      rw [merged_cons_of_not htu, List.isChain_cons_cons]
      obtain ⟨m, ms, hm⟩ := List.exists_cons_of_ne_nil
        (show merged p (u :: rest) ≠ [] by simp [merged])
      rw [hm] at hrest ⊢
      rw [List.isChain_cons_cons, hrest, hhead t u m (head?_merged (hne u hu) hm)]

end Pairs

end Merging

section Dropping

variable {P p : List α → List α → Bool}

theorem dropGaps_token {token : List α} (h : sep ∉ token) (before after : List α) :
    dropGaps sep P before (token ++ after) =
      token ++ dropGaps sep P (token.reverse ++ before) after := by
  induction token generalizing before with
  | nil => rfl
  | cons ch token ih =>
    obtain ⟨hch, htoken⟩ := not_or.mp (mt List.mem_cons.mpr h)
    have hne : ¬(ch = sep ∧ P before (token ++ after) = true) := fun hboth => hch hboth.1.symm
    rw [List.cons_append, dropGaps, if_neg hne, ih htoken, List.reverse_cons, List.append_assoc]
    rfl

omit [DecidableEq α] in
theorem spaced_cons_cons (t u : List α) (rest : List (List α)) :
    spaced sep (t :: u :: rest) = t ++ sep :: spaced sep (u :: rest) := by
  unfold spaced
  rw [List.intercalate_cons_cons, List.append_assoc]
  rfl

omit [DecidableEq α] in
theorem spaced_cons (u : List α) (rest : List (List α)) :
    ∃ after, spaced sep (u :: rest) = u ++ after ∧ ∀ ch ∈ after.head?, ch = sep := by
  cases rest with
  | nil =>
    refine ⟨[], by simp [spaced], by simp⟩
  | cons v rest =>
    refine ⟨sep :: spaced sep (v :: rest), spaced_cons_cons u v rest, ?_⟩
    intro ch hch
    exact (Option.some.inj hch).symm

omit [DecidableEq α] in
theorem mem_spaced {ch : α} {tokens : List (List α)} (h : ch ∈ spaced sep tokens) :
    ch = sep ∨ ∃ token ∈ tokens, ch ∈ token := by
  induction tokens with
  | nil => cases h
  | cons t tokens ih =>
    cases tokens with
    | nil =>
      have ht : ch ∈ t := by simpa [spaced] using h
      exact Or.inr ⟨t, List.mem_cons_self, ht⟩
    | cons u rest =>
      rw [spaced_cons_cons, List.mem_append, List.mem_cons] at h
      rcases h with ht | rfl | hrest
      · exact Or.inr ⟨t, List.mem_cons_self, ht⟩
      · exact Or.inl rfl
      · rcases ih hrest with hsep | ⟨token, htoken, hch⟩
        · exact Or.inl hsep
        · exact Or.inr ⟨token, List.mem_cons_of_mem t htoken, hch⟩

omit [DecidableEq α] in
theorem length_spaced (sep : α) (tokens : List (List α)) :
    (spaced sep tokens).length = (tokens.map fun token => token.length + 1).sum - 1 := by
  induction tokens with
  | nil => rfl
  | cons t tokens ih =>
    cases tokens with
    | nil => simp [spaced]
    | cons u rest =>
      have hpos : 1 ≤ ((u :: rest).map fun token => token.length + 1).sum := by
        simp only [List.map_cons, List.sum_cons]
        omega
      have hsum : ((t :: u :: rest).map fun token => token.length + 1).sum =
          t.length + 1 + ((u :: rest).map fun token => token.length + 1).sum := rfl
      rw [spaced_cons_cons, List.length_append, List.length_cons, ih, hsum]
      omega

omit [DecidableEq α] in
theorem length_spaced_le (sep : α) {first second : List (List α)} (h : first.Sublist second) :
    (spaced sep first).length ≤ (spaced sep second).length := by
  have hsum : (first.map fun token => token.length + 1).sum ≤
      (second.map fun token => token.length + 1).sum := by
    induction h with
    | slnil => rfl
    | cons token _ ih =>
      rw [List.map_cons, List.sum_cons]
      omega
    | cons_cons token _ ih =>
      rw [List.map_cons, List.map_cons, List.sum_cons, List.sum_cons]
      omega
  rw [length_spaced, length_spaced]
  omega

omit [DecidableEq α] in
theorem length_spaced_splitOnP (sep : α) (cut : α → Bool) (text : List α) :
    (spaced sep (text.splitOnP cut)).length = text.length := by
  have hsum : ((text.splitOnP cut).map fun piece => piece.length + 1).sum = text.length + 1 := by
    induction text with
    | nil => rfl
    | cons ch text ih =>
      rw [List.splitOnP_cons_eq_if_modifyHead]
      split_ifs
      · rw [List.map_cons, List.sum_cons, ih, List.length_nil, List.length_cons]
        omega
      · obtain ⟨first, others, hsplit⟩ :=
          List.exists_cons_of_ne_nil (List.splitOnP_ne_nil cut text)
        rw [hsplit, List.map_cons, List.sum_cons] at ih
        rw [hsplit, List.modifyHead_cons, List.map_cons, List.sum_cons, List.length_cons,
          List.length_cons]
        omega
  rw [length_spaced, hsum]
  rfl

theorem length_dropGaps_le (before text : List α) :
    (dropGaps sep P before text).length ≤ text.length := by
  induction text generalizing before with
  | nil => rfl
  | cons ch text ih =>
    have hrest := ih (ch :: before)
    rw [dropGaps]
    split_ifs
    · rw [List.length_cons]
      omega
    · rw [List.length_cons, List.length_cons]
      omega

theorem dropGaps_spaced (hlocal : Local sep P p) {tokens : List (List α)}
    (h : ∀ t ∈ tokens, Solid sep t) {before : List α} (hbefore : ∀ ch ∈ before.head?, ch = sep) :
    dropGaps sep P before (spaced sep tokens) = spaced sep (merged p tokens) := by
  induction tokens generalizing before with
  | nil => rfl
  | cons t tokens ih =>
    have ht := h t List.mem_cons_self
    cases tokens with
    | nil =>
      have hone : spaced sep [t] = t ++ [] := by simp [spaced]
      rw [merged_singleton, hone, dropGaps_token ht.2]
      rfl
    | cons u rest =>
      have hu := h u (by simp)
      obtain ⟨after, hafter, hhead⟩ := @spaced_cons _ sep u rest
      have hgap : P (t.reverse ++ before) (spaced sep (u :: rest)) = p t u := by
        rw [hafter]
        exact hlocal before t u after ht hu hbefore hhead
      have hnext : ∀ ch ∈ (sep :: (t.reverse ++ before)).head?, ch = sep := by
        intro ch hch
        exact (Option.some.inj hch).symm
      have hrest := ih (fun v hv => h v (List.mem_cons_of_mem t hv)) hnext
      rw [spaced_cons_cons, dropGaps_token ht.2]
      cases htu : p t u with
      | false =>
        rw [htu] at hgap
        rw [dropGaps, if_neg (by simp [hgap]), hrest, merged_cons_of_not htu]
        obtain ⟨v, vs, hv⟩ := List.exists_cons_of_ne_nil
          (show merged p (u :: rest) ≠ [] by simp [merged])
        rw [hv, spaced_cons_cons]
      | true =>
        rw [htu] at hgap
        obtain ⟨m, ms, hm, hall⟩ := merged_cons_of htu rest
        rw [dropGaps, if_pos ⟨rfl, hgap⟩, hrest, hall, hm]
        cases ms with
        | nil => simp [spaced]
        | cons v ms => rw [spaced_cons_cons, spaced_cons_cons, List.append_assoc]

end Dropping

end TokenGaps
