import FinanceContext.OperatorParsing
import Mathlib.Algebra.GroupWithZero.Nat
import Mathlib.Data.List.TakeWhile

namespace OperatorParsing

variable {τ κ α β γ : Type}

section Grouping

def onOperands (g : β → γ) (rest : List (κ × β)) : List (κ × γ) := rest.map fun x => (x.1, g x.2)

theorem onOperands_cons (g : β → γ) (kind : κ) (operand : β) (rest : List (κ × β)) :
    onOperands g ((kind, operand) :: rest) = (kind, g operand) :: onOperands g rest := rfl

/-- What stands before the first operator of a class, and each of these operators with the operand
and the sequence behind it. -/
def cut (own : κ → Bool) : List (κ × β) → List (κ × β) × List (κ × β × List (κ × β))
  | [] => ([], [])
  | (kind, operand) :: rest =>
    let (front, pieces) := cut own rest
    if own kind then ([], (kind, operand, front) :: pieces)
    else ((kind, operand) :: front, pieces)

def groupLeft (own : κ → Bool) (combine : κ → α → α → α) (inner : β → List (κ × β) → α)
    (first : β) (rest : List (κ × β)) : α :=
  (cut own rest).2.foldl (fun node piece => combine piece.1 node (inner piece.2.1 piece.2.2))
    (inner first (cut own rest).1)

def joinRight (combine : κ → α → α → α) (inner : β → List (κ × β) → α) :
    α → List (κ × β × List (κ × β)) → α
  | node, [] => node
  | node, (kind, operand, front) :: pieces =>
    combine kind node (joinRight combine inner (inner operand front) pieces)

def groupRight (own : κ → Bool) (combine : κ → α → α → α) (inner : β → List (κ × β) → α)
    (first : β) (rest : List (κ × β)) : α :=
  joinRight combine inner (inner first (cut own rest).1) (cut own rest).2

variable {own : κ → Bool} {combine : κ → α → α → α}

theorem cut_cons_of_own {kind : κ} (h : own kind = true) (operand : β) (rest : List (κ × β)) :
    cut own ((kind, operand) :: rest) =
      ([], (kind, operand, (cut own rest).1) :: (cut own rest).2) := by
  simp [cut, h]

theorem cut_cons_of_not {kind : κ} (h : own kind = false) (operand : β) (rest : List (κ × β)) :
    cut own ((kind, operand) :: rest) =
      ((kind, operand) :: (cut own rest).1, (cut own rest).2) := by
  simp [cut, h]

theorem cut_append {front : List (κ × β)} (h : ∀ x ∈ front, own x.1 = false)
    (rest : List (κ × β)) :
    cut own (front ++ rest) = (front ++ (cut own rest).1, (cut own rest).2) := by
  induction front with
  | nil => rfl
  | cons x front ih =>
    obtain ⟨kind, operand⟩ := x
    rw [List.cons_append, cut_cons_of_not (h _ List.mem_cons_self),
      ih fun y hy => h y (List.mem_cons_of_mem _ hy)]
    rfl

theorem cut_of_none {rest : List (κ × β)} (h : ∀ x ∈ rest, own x.1 = false) :
    cut own rest = (rest, []) := by
  have hcut := cut_append h []
  rwa [List.append_nil, cut, List.append_nil] at hcut

theorem cut_onOperands (g : β → γ) (rest : List (κ × β)) :
    cut own (onOperands g rest) = (onOperands g (cut own rest).1,
      (cut own rest).2.map fun p => (p.1, g p.2.1, onOperands g p.2.2)) := by
  induction rest with
  | nil => rfl
  | cons x rest ih =>
    obtain ⟨kind, operand⟩ := x
    rw [onOperands_cons]
    by_cases hown : own kind = true
    · rw [cut_cons_of_own hown, cut_cons_of_own hown, ih]
      rfl
    · have hnot : own kind = false := by simpa using hown
      rw [cut_cons_of_not hnot, cut_cons_of_not hnot, ih]
      rfl

theorem groupLeft_map (g : β → γ) (inner : γ → List (κ × γ) → α) (first : β)
    (rest : List (κ × β)) :
    groupLeft own combine inner (g first) (onOperands g rest) =
      groupLeft own combine (fun z zs => inner (g z) (onOperands g zs)) first rest := by
  simp only [groupLeft, cut_onOperands, List.foldl_map]

theorem joinRight_map (g : β → γ) (inner : γ → List (κ × γ) → α) (node : α)
    (pieces : List (κ × β × List (κ × β))) :
    joinRight combine inner node
        (pieces.map fun p => (p.1, g p.2.1, onOperands g p.2.2)) =
      joinRight combine (fun z zs => inner (g z) (onOperands g zs)) node pieces := by
  induction pieces generalizing node with
  | nil => rfl
  | cons p pieces ih =>
    rw [List.map_cons, joinRight, ih]
    rfl

theorem groupRight_map (g : β → γ) (inner : γ → List (κ × γ) → α) (first : β)
    (rest : List (κ × β)) :
    groupRight own combine inner (g first) (onOperands g rest) =
      groupRight own combine (fun z zs => inner (g z) (onOperands g zs)) first rest := by
  simp only [groupRight, cut_onOperands, joinRight_map]

section Homomorphisms

variable {combine' : κ → γ → γ → γ} {f : α → γ}
  (hf : ∀ kind a b, f (combine kind a b) = combine' kind (f a) (f b))

include hf

theorem map_groupLeft (inner : β → List (κ × β) → α) (first : β) (rest : List (κ × β)) :
    f (groupLeft own combine inner first rest) =
      groupLeft own combine' (fun z zs => f (inner z zs)) first rest := by
  unfold groupLeft
  dsimp only
  generalize inner first (cut own rest).1 = node
  induction (cut own rest).2 generalizing node with
  | nil => rfl
  | cons p pieces ih => rw [List.foldl_cons, List.foldl_cons, ih, hf]

theorem map_groupRight (inner : β → List (κ × β) → α) (first : β) (rest : List (κ × β)) :
    f (groupRight own combine inner first rest) =
      groupRight own combine' (fun z zs => f (inner z zs)) first rest := by
  unfold groupRight
  dsimp only
  generalize inner first (cut own rest).1 = node
  induction (cut own rest).2 generalizing node with
  | nil => rfl
  | cons p pieces ih => rw [joinRight, joinRight, hf, ih]

end Homomorphisms

/-- A statement about the sequence in front of the operators of a class and about each sequence
behind one. -/
def Parts (own : κ → Bool) (holds : β → List (κ × β) → Prop) (first : β) (rest : List (κ × β)) :
    Prop :=
  holds first (cut own rest).1 ∧ ∀ piece ∈ (cut own rest).2, holds piece.2.1 piece.2.2

/-- A combination tells its operator and its operands. -/
def Free (combine : κ → α → α → α) : Prop :=
  ∀ k a b k' a' b', combine k a b = combine k' a' b' → k = k' ∧ a = a' ∧ b = b'

theorem groupLeft_eq_iff (hfree : Free combine) (inner inner' : β → List (κ × β) → α) (first : β)
    (rest : List (κ × β)) :
    groupLeft own combine inner first rest = groupLeft own combine inner' first rest ↔
      Parts own (fun z zs => inner z zs = inner' z zs) first rest := by
  unfold groupLeft Parts
  dsimp only
  generalize inner first (cut own rest).1 = node
  generalize inner' first (cut own rest).1 = node'
  induction (cut own rest).2 generalizing node node' with
  | nil => simp
  | cons p pieces ih =>
    rw [List.foldl_cons, List.foldl_cons, ih]
    constructor
    · rintro ⟨hnode, hpieces⟩
      obtain ⟨-, hleft, hright⟩ := hfree _ _ _ _ _ _ hnode
      refine ⟨hleft, fun q hq => ?_⟩
      rcases List.mem_cons.mp hq with rfl | hq
      · exact hright
      · exact hpieces q hq
    · rintro ⟨rfl, hpieces⟩
      refine ⟨?_, fun q hq => hpieces q (List.mem_cons_of_mem _ hq)⟩
      rw [hpieces p List.mem_cons_self]

theorem pieces_ne_nil {rest : List (κ × β)} {x : κ × β} (hx : x ∈ rest)
    (hown : own x.1 = true) : (cut own rest).2 ≠ [] := by
  induction rest with
  | nil => cases hx
  | cons y rest ih =>
    obtain ⟨kind, operand⟩ := y
    by_cases hkind : own kind = true
    · rw [cut_cons_of_own hkind]
      exact List.cons_ne_nil _ _
    · rw [cut_cons_of_not (by simpa using hkind)]
      rcases List.mem_cons.mp hx with rfl | hx
      · exact absurd hown hkind
      · exact ih hx

theorem own_of_mem_pieces {rest : List (κ × β)} {piece : κ × β × List (κ × β)}
    (h : piece ∈ (cut own rest).2) : own piece.1 = true := by
  induction rest with
  | nil => cases h
  | cons x rest ih =>
    obtain ⟨kind, operand⟩ := x
    by_cases hkind : own kind = true
    · rw [cut_cons_of_own hkind] at h
      rcases List.mem_cons.mp h with rfl | h
      · exact hkind
      · exact ih h
    · rw [cut_cons_of_not (by simpa using hkind)] at h
      exact ih h

theorem exists_root_groupLeft (inner : β → List (κ × β) → α) (first : β) {rest : List (κ × β)}
    {x : κ × β} (hx : x ∈ rest) (hown : own x.1 = true) :
    ∃ k a b, own k = true ∧ groupLeft own combine inner first rest = combine k a b := by
  have hne := pieces_ne_nil hx hown
  have hpieces : ∀ piece ∈ (cut own rest).2, own piece.1 = true := fun _ => own_of_mem_pieces
  unfold groupLeft
  generalize inner first (cut own rest).1 = node
  generalize (cut own rest).2 = pieces at hne hpieces
  induction pieces generalizing node with
  | nil => exact absurd rfl hne
  | cons p pieces ih =>
    rw [List.foldl_cons]
    cases pieces with
    | nil => exact ⟨p.1, _, _, hpieces p List.mem_cons_self, rfl⟩
    | cons q pieces =>
      exact ih _ (List.cons_ne_nil _ _) fun r hr => hpieces r (List.mem_cons_of_mem _ hr)

theorem mem_front {rest : List (κ × β)} {x : κ × β} (h : x ∈ (cut own rest).1) :
    x ∈ rest ∧ own x.1 = false := by
  induction rest with
  | nil => cases h
  | cons y rest ih =>
    obtain ⟨kind, operand⟩ := y
    by_cases hown : own kind = true
    · rw [cut_cons_of_own hown] at h
      cases h
    · have hnot : own kind = false := by simpa using hown
      rw [cut_cons_of_not hnot] at h
      rcases List.mem_cons.mp h with rfl | h
      · exact ⟨List.mem_cons_self, hnot⟩
      · exact ⟨List.mem_cons_of_mem _ (ih h).1, (ih h).2⟩

theorem mem_behind {rest : List (κ × β)} {piece : κ × β × List (κ × β)} {x : κ × β}
    (hpiece : piece ∈ (cut own rest).2) (h : x ∈ piece.2.2) : x ∈ rest ∧ own x.1 = false := by
  induction rest with
  | nil => cases hpiece
  | cons y rest ih =>
    obtain ⟨kind, operand⟩ := y
    by_cases hown : own kind = true
    · rw [cut_cons_of_own hown] at hpiece
      rcases List.mem_cons.mp hpiece with rfl | hpiece
      · exact ⟨List.mem_cons_of_mem _ (mem_front h).1, (mem_front h).2⟩
      · exact ⟨List.mem_cons_of_mem _ (ih hpiece).1, (ih hpiece).2⟩
    · rw [cut_cons_of_not (by simpa using hown)] at hpiece
      exact ⟨List.mem_cons_of_mem _ (ih hpiece).1, (ih hpiece).2⟩

theorem parts_congr {ops : κ → Prop} {holds holds' : β → List (κ × β) → Prop}
    (h : ∀ z zs, (∀ x ∈ zs, ops x.1 ∧ own x.1 = false) → (holds z zs ↔ holds' z zs)) (first : β)
    {rest : List (κ × β)} (hrest : ∀ x ∈ rest, ops x.1) :
    Parts own holds first rest ↔ Parts own holds' first rest := by
  have hfront : holds first (cut own rest).1 ↔ holds' first (cut own rest).1 :=
    h _ _ fun x hx => ⟨hrest x (mem_front hx).1, (mem_front hx).2⟩
  have hbehind : ∀ piece ∈ (cut own rest).2,
      holds piece.2.1 piece.2.2 ↔ holds' piece.2.1 piece.2.2 := fun piece hpiece =>
    h _ _ fun x hx => ⟨hrest x (mem_behind hpiece hx).1, (mem_behind hpiece hx).2⟩
  exact and_congr hfront (forall₂_congr hbehind)

theorem groupLeft_of_none (inner : β → List (κ × β) → α) (first : β) {rest : List (κ × β)}
    (h : ∀ x ∈ rest, own x.1 = false) :
    groupLeft own combine inner first rest = inner first rest := by
  rw [groupLeft, cut_of_none h]
  rfl

section Measures

variable {m : α → ℕ} (hm : ∀ kind a b, m (combine kind a b) = 1 + m a + m b) (w : β → ℕ)

def total (first : β) (rest : List (κ × β)) : ℕ :=
  w first + (rest.map fun x => 1 + w x.2).sum

def Weighs (m : α → ℕ) (ops : κ → Prop) (inner : β → List (κ × β) → α) : Prop :=
  ∀ first rest, (∀ x ∈ rest, ops x.1) → m (inner first rest) = total w first rest

variable {w}

theorem total_cut (first : β) (rest : List (κ × β)) :
    total w first rest = total w first (cut own rest).1 +
      ((cut own rest).2.map fun p => 1 + total w p.2.1 p.2.2).sum := by
  induction rest generalizing first with
  | nil => simp [cut, total]
  | cons x rest ih =>
    obtain ⟨kind, operand⟩ := x
    have hrest := ih operand
    have hcons : total w first ((kind, operand) :: rest) =
        w first + (1 + total w operand rest) := by
      simp only [total, List.map_cons, List.sum_cons]
      omega
    by_cases hown : own kind = true
    · rw [cut_cons_of_own hown, hcons, hrest, List.map_cons, List.sum_cons]
      simp only [total, List.map_nil, List.sum_nil]
      omega
    · rw [cut_cons_of_not (by simpa using hown), hcons, hrest]
      simp only [total, List.map_cons, List.sum_cons]
      omega

variable {ops ops' : κ → Prop} {inner : β → List (κ × β) → α}

include hm

theorem Weighs.groupLeft (h : Weighs w m ops inner)
    (hops : ∀ kind, ops' kind → own kind = false → ops kind) :
    Weighs w m ops' (groupLeft own combine inner) := by
  intro first rest hrest
  have hfront : m (inner first (cut own rest).1) = total w first (cut own rest).1 :=
    h _ _ fun x hx => hops _ (hrest x (mem_front hx).1) (mem_front hx).2
  have hbehind : ∀ p ∈ (cut own rest).2, m (inner p.2.1 p.2.2) = total w p.2.1 p.2.2 :=
    fun p hp => h _ _ fun x hx => hops _ (hrest x (mem_behind hp hx).1) (mem_behind hp hx).2
  rw [total_cut, ← hfront, OperatorParsing.groupLeft]
  generalize inner first (cut own rest).1 = node
  generalize (cut own rest).2 = pieces at hbehind
  induction pieces generalizing node with
  | nil => simp
  | cons p pieces ih =>
    rw [List.foldl_cons, ih _ (fun q hq => hbehind q (List.mem_cons_of_mem _ hq)), hm,
      hbehind p List.mem_cons_self, List.map_cons, List.sum_cons]
    omega

theorem Weighs.groupRight (h : Weighs w m ops inner)
    (hops : ∀ kind, ops' kind → own kind = false → ops kind) :
    Weighs w m ops' (groupRight own combine inner) := by
  intro first rest hrest
  have hfront : m (inner first (cut own rest).1) = total w first (cut own rest).1 :=
    h _ _ fun x hx => hops _ (hrest x (mem_front hx).1) (mem_front hx).2
  have hbehind : ∀ p ∈ (cut own rest).2, m (inner p.2.1 p.2.2) = total w p.2.1 p.2.2 :=
    fun p hp => h _ _ fun x hx => hops _ (hrest x (mem_behind hp hx).1) (mem_behind hp hx).2
  rw [total_cut, ← hfront, OperatorParsing.groupRight]
  generalize inner first (cut own rest).1 = node
  generalize (cut own rest).2 = pieces at hbehind
  induction pieces generalizing node with
  | nil => simp [joinRight]
  | cons p pieces ih =>
    obtain ⟨kind, operand, behind⟩ := p
    have hp := hbehind _ List.mem_cons_self
    rw [joinRight, hm, ih _ (fun q hq => hbehind q (List.mem_cons_of_mem _ hq)), hp, List.map_cons,
      List.sum_cons]
    omega

end Measures

end Grouping

section Climbing

variable (prec : κ → ℕ) (combine : κ → α → α → α)

/-- Precedence climbing: operators of at least a precedence are taken while they follow, each with
the operators that bind tighter on its right. -/
def climb : ℕ → ℕ → α → List (κ × α) → α × List (κ × α)
  | 0, _, left, rest => (left, rest)
  | _ + 1, _, left, [] => (left, [])
  | fuel + 1, least, left, (kind, operand) :: rest =>
    if prec kind < least then (left, (kind, operand) :: rest)
    else
      let (right, rest) := climb fuel (prec kind + 1) operand rest
      climb fuel least (combine kind left right) rest

def precedenceClimbing (first : α) (rest : List (κ × α)) : α :=
  (climb prec combine (rest.length + 1) 0 first rest).1

def levels (base : β → α) : ℕ → ℕ → β → List (κ × β) → α
  | 0, _ => fun first _ => base first
  | count + 1, least =>
    groupLeft (fun kind => prec kind = least) combine (levels base count (least + 1))

variable {prec combine}

theorem levels_nil (base : β → α) (count least : ℕ) (first : β) :
    levels prec combine base count least first [] = base first := by
  induction count generalizing least with
  | zero => rfl
  | succ count ih =>
    rw [levels, groupLeft_of_none _ _ fun x hx => absurd hx List.not_mem_nil]
    exact ih (least + 1)

theorem head?_cut {own : κ → Bool} {rest : List (κ × β)} {x : κ × β}
    (h : x ∈ (cut own rest).1.head?) : x ∈ rest.head? := by
  cases rest with
  | nil => cases h
  | cons y rest =>
    obtain ⟨kind, operand⟩ := y
    by_cases hown : own kind = true
    · rw [cut_cons_of_own hown] at h
      cases h
    · rw [cut_cons_of_not (by simpa using hown)] at h
      exact h

theorem levels_cons {count least : ℕ} {kind : κ} (hleast : least ≤ prec kind)
    (hcount : prec kind < least + count) (left operand : α) {tighter rest : List (κ × α)}
    (htighter : ∀ x ∈ tighter, prec kind < prec x.1)
    (hhead : ∀ x ∈ rest.head?, prec x.1 ≤ prec kind) (hrest : ∀ x ∈ rest, least ≤ prec x.1) :
    levels prec combine id count least left ((kind, operand) :: (tighter ++ rest)) =
      levels prec combine id count least
        (combine kind left (levels prec combine id (least + count - (prec kind + 1))
          (prec kind + 1) operand tighter)) rest := by
  induction count generalizing least rest with
  | zero => omega
  | succ count ih =>
    have htight : ∀ x ∈ tighter, (fun k => decide (prec k = least)) x.1 = false := by
      intro x hx
      have hlt := htighter x hx
      simp only [decide_eq_false_iff_not]
      omega
    simp only [levels, groupLeft]
    by_cases hsame : prec kind = least
    · have hfront : (cut (fun k => decide (prec k = least)) rest).1 = [] := by
        cases rest with
        | nil => rfl
        | cons x rest =>
          obtain ⟨k, a⟩ := x
          have hle : prec k ≤ prec kind := hhead _ rfl
          have hge : least ≤ prec k := hrest _ List.mem_cons_self
          rw [cut_cons_of_own (by simp only [decide_eq_true_eq]; omega)]
      have hcount' : least + (count + 1) - (prec kind + 1) = count := by omega
      rw [cut_cons_of_own (by simpa using hsame), cut_append htight, hfront, List.append_nil,
        List.foldl_cons, levels_nil, levels_nil, hcount', hsame]
      rfl
    · have hlt : least < prec kind := by omega
      rw [cut_cons_of_not (by simpa using hsame), cut_append htight]
      dsimp only
      rw [ih (by omega) (by omega) (fun x hx => hhead x (head?_cut hx))]
      · have hcount' : least + 1 + count - (prec kind + 1) =
            least + (count + 1) - (prec kind + 1) := by omega
        rw [hcount']
      · intro x hx
        obtain ⟨hmem, hne⟩ := mem_front hx
        have hge := hrest x hmem
        simp only [decide_eq_false_iff_not] at hne
        omega

theorem climb_eq {bound : ℕ} (hbound : ∀ kind, prec kind < bound) {fuel least : ℕ} (left : α)
    {taken rest : List (κ × α)} (hfuel : taken.length < fuel)
    (htaken : ∀ x ∈ taken, least ≤ prec x.1) (hrest : ∀ x ∈ rest.head?, prec x.1 < least) :
    climb prec combine fuel least left (taken ++ rest) =
      (levels prec combine id (bound - least) least left taken, rest) := by
  induction fuel generalizing least left taken rest with
  | zero => omega
  | succ fuel ih =>
    cases taken with
    | nil =>
      rw [levels_nil, List.nil_append]
      cases rest with
      | nil => rfl
      | cons x rest =>
        obtain ⟨kind, operand⟩ := x
        rw [climb, if_pos (hrest _ rfl)]
        rfl
    | cons x taken =>
      obtain ⟨kind, operand⟩ := x
      have hleast : least ≤ prec kind := htaken _ List.mem_cons_self
      have hkind := hbound kind
      rw [List.length_cons] at hfuel
      -- The operators behind this one that bind tighter, and the rest from the first that does not.
      have hsplit := List.takeWhile_append_dropWhile (p := fun x => decide (prec kind < prec x.1))
        (l := taken)
      have htighter : ∀ x ∈ taken.takeWhile (fun x => decide (prec kind < prec x.1)),
          prec kind < prec x.1 := by
        intro x hx
        simpa using List.mem_takeWhile_imp hx
      have hloose : ∀ x ∈ (taken.dropWhile fun x => decide (prec kind < prec x.1)).head?,
          prec x.1 ≤ prec kind := by
        intro x hx
        have hnot := List.head?_dropWhile_not (fun x => decide (prec kind < prec x.1)) taken
        rw [Option.mem_def] at hx
        rw [hx] at hnot
        simpa using hnot
      generalize htake : taken.takeWhile (fun x => decide (prec kind < prec x.1)) = tighter
        at hsplit htighter
      generalize hdrop : taken.dropWhile (fun x => decide (prec kind < prec x.1)) = looser
        at hsplit hloose
      subst hsplit
      rw [List.length_append] at hfuel
      have hlooser : ∀ x ∈ looser, least ≤ prec x.1 := fun x hx =>
        htaken x (List.mem_cons_of_mem _ (List.mem_append_right _ hx))
      have hnext : ∀ x ∈ (looser ++ rest).head?, prec x.1 < prec kind + 1 := by
        intro x hx
        cases looser with
        | nil =>
          have hlt := hrest x hx
          omega
        | cons y looser =>
          have hle := hloose x hx
          omega
      rw [List.cons_append, climb, if_neg (by omega), List.append_assoc,
        ih operand (by omega) (fun x hx => htighter x hx) hnext]
      dsimp only
      rw [ih _ (by omega) hlooser hrest,
        levels_cons hleast (by omega) left operand htighter hloose hlooser]
      have hcount : least + (bound - least) - (prec kind + 1) = bound - (prec kind + 1) := by
        omega
      rw [hcount]

theorem precedenceClimbing_eq_levels {bound : ℕ} (hbound : ∀ kind, prec kind < bound) (first : α)
    (rest : List (κ × α)) :
    precedenceClimbing prec combine first rest =
      levels prec combine id bound 0 first rest := by
  have hclimb := @climb_eq κ α prec combine bound hbound (rest.length + 1) 0 first rest []
    (Nat.lt_succ_self rest.length) (fun x _ => Nat.zero_le _) (fun x hx => nomatch hx)
  rw [List.append_nil] at hclimb
  rw [precedenceClimbing, hclimb]
  rfl

end Climbing

end OperatorParsing
