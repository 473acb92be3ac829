import Mathlib.Data.List.Nodup
import Mathlib.Data.List.Perm.Subperm
import Mathlib.Logic.Function.Iterate
import Mathlib.Logic.Relation

/-!
A stack of nodes to expand: what is found is what can be reached from the starts, and the stack is
empty after as many steps as there are nodes.
-/

namespace Worklists

variable {α : Type}

/-- The nodes found after the starts, and the stack with its top in front. -/
structure Worklist (α : Type) where
  extra : List α := []
  pending : List α

namespace Worklist

def seen (starts : List α) (st : Worklist α) : List α := starts ++ st.extra

variable [DecidableEq α] (starts : List α) (next : α → List α)

def discover (st : Worklist α) (node : α) : Worklist α :=
  if node ∈ st.seen starts then st else ⟨st.extra ++ [node], node :: st.pending⟩

def step (st : Worklist α) : Worklist α :=
  match st.pending with
  | [] => st
  | node :: rest => (next node).foldl (discover starts) { st with pending := rest }

def run (n : ℕ) : Worklist α := (step starts next)^[n] { pending := starts.reverse }

variable {starts next} {st : Worklist α} {node other : α}

theorem discover_of_mem (h : node ∈ st.seen starts) : st.discover starts node = st := if_pos h

theorem discover_of_notMem (h : node ∉ st.seen starts) :
    st.discover starts node = ⟨st.extra ++ [node], node :: st.pending⟩ := if_neg h

theorem mem_seen_discover :
    other ∈ (st.discover starts node).seen starts ↔ other ∈ st.seen starts ∨ other = node := by
  by_cases h : node ∈ st.seen starts
  · rw [discover_of_mem h]
    constructor
    · exact Or.inl
    · rintro (hother | rfl)
      · exact hother
      · exact h
  · rw [discover_of_notMem h, seen, ← List.append_assoc, List.mem_append, List.mem_singleton]
    rfl

theorem nodup_discover (h : (st.seen starts).Nodup) :
    ((st.discover starts node).seen starts).Nodup := by
  by_cases hnode : node ∈ st.seen starts
  · rwa [discover_of_mem hnode]
  · rw [discover_of_notMem hnode, seen, ← List.append_assoc]
    apply h.append (List.nodup_singleton node)
    rw [List.disjoint_singleton]
    exact hnode

theorem mem_pending_discover (h : other ∈ st.pending) :
    other ∈ (st.discover starts node).pending := by
  by_cases hnode : node ∈ st.seen starts
  · rwa [discover_of_mem hnode]
  · rw [discover_of_notMem hnode]
    exact List.mem_cons_of_mem _ h

theorem mem_pending_of_new (h : other ∈ (st.discover starts node).seen starts)
    (hnew : other ∉ st.seen starts) : other ∈ (st.discover starts node).pending := by
  rcases mem_seen_discover.mp h with hold | rfl
  · exact absurd hold hnew
  · rw [discover_of_notMem hnew]
    exact List.mem_cons_self

theorem seen_of_mem_pending_discover (h : other ∈ (st.discover starts node).pending) :
    other ∈ st.pending ∨ other ∈ (st.discover starts node).seen starts := by
  by_cases hnode : node ∈ st.seen starts
  · rw [discover_of_mem hnode] at h
    exact Or.inl h
  · have hother := h
    rw [discover_of_notMem hnode] at h
    rcases List.mem_cons.mp h with rfl | h
    · exact Or.inr (mem_seen_discover.mpr (Or.inr rfl))
    · exact Or.inl h

variable (starts st node) in
theorem length_discover :
    (st.discover starts node).pending.length + st.extra.length =
      st.pending.length + (st.discover starts node).extra.length := by
  by_cases hnode : node ∈ st.seen starts
  · rw [discover_of_mem hnode]
  · rw [discover_of_notMem hnode, List.length_append, List.length_cons, List.length_singleton]
    omega

/-- What one step keeps: the found nodes are reached, they contain the stack, and those that have
left the stack are expanded. -/
structure Inv (starts : List α) (next : α → List α) (st : Worklist α) : Prop where
  reached : ∀ node ∈ st.seen starts, ∃ start ∈ starts,
    Relation.ReflTransGen (fun a b => b ∈ next a) start node
  pending : ∀ node ∈ st.pending, node ∈ st.seen starts
  expanded : ∀ node ∈ st.seen starts, node ∈ st.pending ∨ ∀ other ∈ next node, other ∈ st.seen starts

section Expansion

variable {nodes : List α}

theorem mem_seen_foldl :
    other ∈ (nodes.foldl (discover starts) st).seen starts ↔ other ∈ st.seen starts ∨ other ∈ nodes := by
  induction nodes generalizing st with
  | nil => simp
  | cons node nodes ih => rw [List.foldl_cons, ih, mem_seen_discover, List.mem_cons, or_assoc]

theorem nodup_foldl (h : (st.seen starts).Nodup) :
    ((nodes.foldl (discover starts) st).seen starts).Nodup := by
  induction nodes generalizing st with
  | nil => exact h
  | cons node nodes ih => exact ih (nodup_discover h)

theorem mem_pending_foldl (h : other ∈ st.pending) :
    other ∈ (nodes.foldl (discover starts) st).pending := by
  induction nodes generalizing st with
  | nil => exact h
  | cons node nodes ih => exact ih (mem_pending_discover h)

theorem mem_pending_foldl_of_new (h : other ∈ nodes) (hnew : other ∉ st.seen starts) :
    other ∈ (nodes.foldl (discover starts) st).pending := by
  induction nodes generalizing st with
  | nil => cases h
  | cons node nodes ih =>
    rw [List.foldl_cons]
    by_cases hfound : other ∈ (st.discover starts node).seen starts
    · exact mem_pending_foldl (mem_pending_of_new hfound hnew)
    · rcases List.mem_cons.mp h with rfl | h
      · exact absurd (mem_seen_discover.mpr (Or.inr rfl)) hfound
      · exact ih h hfound

theorem seen_of_mem_pending_foldl (hpending : ∀ node ∈ st.pending, node ∈ st.seen starts)
    (h : other ∈ (nodes.foldl (discover starts) st).pending) :
    other ∈ (nodes.foldl (discover starts) st).seen starts := by
  induction nodes generalizing st with
  | nil => exact hpending other h
  | cons node nodes ih =>
    apply ih _ h
    intro found hfound
    rcases seen_of_mem_pending_discover hfound with hold | hseen
    · exact mem_seen_discover.mpr (Or.inl (hpending found hold))
    · exact hseen

variable (starts st nodes) in
theorem length_foldl :
    (nodes.foldl (discover starts) st).pending.length + st.extra.length =
      st.pending.length + (nodes.foldl (discover starts) st).extra.length := by
  induction nodes generalizing st with
  | nil => rfl
  | cons node nodes ih =>
    have hhead := length_discover starts st node
    have htail := ih (st.discover starts node)
    rw [List.foldl_cons]
    omega

end Expansion

theorem Inv.step (h : Inv starts next st) : Inv starts next (st.step starts next) := by
  unfold Worklist.step
  split
  · exact h
  · rename_i node rest hstack
    have hnode : node ∈ st.seen starts := h.pending node (by rw [hstack]; exact List.mem_cons_self)
    have hrest : ∀ other ∈ rest, other ∈ st.pending := by
      intro other hother
      rw [hstack]
      exact List.mem_cons_of_mem _ hother
    refine ⟨?_, ?_, ?_⟩
    · intro other hother
      rcases mem_seen_foldl.mp hother with hold | hnew
      · exact h.reached other hold
      · obtain ⟨start, hstart, hpath⟩ := h.reached node hnode
        exact ⟨start, hstart, hpath.tail hnew⟩
    · intro other hother
      apply seen_of_mem_pending_foldl _ hother
      exact fun found hfound => h.pending found (hrest found hfound)
    · intro other hother
      by_cases hold : other ∈ st.seen starts
      · by_cases hsame : other = node
        · right
          rw [hsame]
          exact fun target htarget => mem_seen_foldl.mpr (Or.inr htarget)
        · rcases h.expanded other hold with hpending | hnext
          · left
            rw [hstack] at hpending
            exact mem_pending_foldl ((List.mem_cons.mp hpending).resolve_left hsame)
          · exact Or.inr fun target htarget => mem_seen_foldl.mpr (Or.inl (hnext target htarget))
      · left
        rcases mem_seen_foldl.mp hother with hseen | hnew
        · exact absurd hseen hold
        · exact mem_pending_foldl_of_new hnew hold

variable (starts next) in
theorem inv_run (n : ℕ) : Inv starts next (run starts next n) := by
  induction n with
  | zero =>
    refine ⟨?_, ?_, ?_⟩
    · intro node hnode
      exact ⟨node, by simpa [run, seen] using hnode, .refl⟩
    · intro node hnode
      simpa [run, seen] using hnode
    · intro node hnode
      left
      simpa [run, seen] using hnode
  | succ n ih =>
    unfold run
    rw [Function.iterate_succ_apply']
    exact ih.step

theorem nodup_run (h : starts.Nodup) (n : ℕ) : ((run starts next n).seen starts).Nodup := by
  induction n with
  | zero => simpa [run, seen] using h
  | succ n ih =>
    unfold run at ih ⊢
    rw [Function.iterate_succ_apply', Worklist.step]
    split
    · exact ih
    · exact nodup_foldl ih

variable (starts next) in
theorem balance_run (n : ℕ) : (run starts next n).pending = [] ∨
    (run starts next n).pending.length + n = ((run starts next n).seen starts).length := by
  induction n with
  | zero => simp [run, seen]
  | succ n ih =>
    unfold run at ih ⊢
    rw [Function.iterate_succ_apply', Worklist.step]
    split
    · rename_i hempty
      exact Or.inl hempty
    · rename_i node rest hstack
      right
      rcases ih with hempty | hbalance
      · rw [hempty] at hstack
        cases hstack
      · have hlength := length_foldl starts
          ⟨((Worklist.step starts next)^[n] { pending := starts.reverse }).extra, rest⟩ (next node)
        rw [hstack] at hbalance
        unfold seen at hbalance ⊢
        rw [List.length_append, List.length_cons] at hbalance
        rw [List.length_append]
        dsimp only at hlength
        omega

theorem mem_seen_run {nodes : List α} (hnodup : starts.Nodup) (hstarts : ∀ node ∈ starts, node ∈ nodes)
    (hnext : ∀ node, ∀ other ∈ next node, other ∈ nodes) :
    node ∈ (run starts next nodes.length).seen starts ↔
      ∃ start ∈ starts, Relation.ReflTransGen (fun a b => b ∈ next a) start node := by
  have hinv := inv_run starts next nodes.length
  constructor
  · exact hinv.reached node
  · have hwithin : ∀ other ∈ (run starts next nodes.length).seen starts, other ∈ nodes := by
      intro other hother
      obtain ⟨start, hstart, hpath⟩ := hinv.reached other hother
      rcases Relation.ReflTransGen.cases_tail hpath with rfl | ⟨before, -, hedge⟩
      · exact hstarts _ hstart
      · exact hnext before other hedge
    have hsize : ((run starts next nodes.length).seen starts).length ≤ nodes.length :=
      ((nodup_run hnodup _).subperm hwithin).length_le
    have hdone : (run starts next nodes.length).pending = [] := by
      rcases balance_run starts next nodes.length with hempty | hbalance
      · exact hempty
      · exact List.eq_nil_of_length_eq_zero (by omega)
    rintro ⟨start, hstart, hpath⟩
    induction hpath with
    | refl => exact List.mem_append_left _ hstart
    | tail _ hedge ih =>
      rcases hinv.expanded _ ih with hpending | hfound
      · rw [hdone] at hpending
        cases hpending
      · exact hfound _ hedge

end Worklist

end Worklists
