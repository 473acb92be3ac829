import FinanceContext.Cycles

/-!
What the records of a cycle analysis say about the graph it was given.
-/

namespace FinanceContext

open Csr FirstOccurrences HopReachability Relation

theorem mem_nodes_labelsOf {components : Components} {pairs : List (String × String)}
    {name : String} :
    name ∈ (labelsOf components pairs).nodes ↔ ∃ p ∈ pairs, name = p.1 ∨ name = p.2 := by
  simp [labelsOf]

theorem records_numberCycles (records : List (List String × CycleClass)) :
    (numberCycles records).map (fun r => (r.members, r.cycleClass)) = records := by
  apply List.ext_getElem
  · simp [numberCycles]
  · intro i h₁ h₂
    simp [numberCycles]

theorem pairwise_lt_insertionSort {l : List String} (h : l.Nodup) :
    (l.insertionSort (· ≤ ·)).Pairwise (· < ·) := by
  have hsorted := List.pairwise_insertionSort (· ≤ ·) l
  have hnodup := (List.perm_insertionSort (· ≤ ·) l).nodup_iff.mpr h
  exact (hsorted.and hnodup).imp fun hab => lt_of_le_of_ne hab.1 hab.2

theorem pairwise_nodes_labelsOf (components : Components) (pairs : List (String × String)) :
    (labelsOf components pairs).nodes.Pairwise (· < ·) :=
  pairwise_lt_insertionSort (List.nodup_dedup _)

theorem reach_idxOf_iff {nodes : List String} {pairs : List (String × String)}
    (hpairs : ∀ p ∈ pairs, p.1 ∈ nodes ∧ p.2 ∈ nodes) {a b : String} (ha : a ∈ nodes)
    (hb : b ∈ nodes) :
    ReflTransGen (fun i j => (i, j) ∈ pairs.map fun p => (nodes.idxOf p.1, nodes.idxOf p.2))
        (nodes.idxOf a) (nodes.idxOf b) ↔
      ReflTransGen (fun x y => (x, y) ∈ pairs) a b := by
  constructor
  · intro h
    have hnames (k : ℕ) (hk : ReflTransGen (fun i j => (i, j) ∈ pairs.map fun p =>
        (nodes.idxOf p.1, nodes.idxOf p.2)) (nodes.idxOf a) k) :
        ∃ y ∈ nodes, k = nodes.idxOf y ∧ ReflTransGen (fun x y => (x, y) ∈ pairs) a y := by
      induction hk with
      | refl => exact ⟨a, ha, rfl, .refl⟩
      | tail _ hstep ih =>
        obtain ⟨y, hy, rfl, hreach⟩ := ih
        obtain ⟨p, hp, heq⟩ := List.mem_map.mp hstep
        obtain ⟨hfst, hsnd⟩ := Prod.mk.inj heq
        obtain rfl := (List.idxOf_inj (hpairs p hp).1).mp hfst
        exact ⟨p.2, (hpairs p hp).2, hsnd.symm, hreach.tail hp⟩
    obtain ⟨y, hy, heq, hreach⟩ := hnames _ h
    rwa [(List.idxOf_inj hb).mp heq]
  · intro h
    have hstep : ∀ x y, (x, y) ∈ pairs → (nodes.idxOf x, nodes.idxOf y) ∈
        pairs.map fun p => (nodes.idxOf p.1, nodes.idxOf p.2) :=
      fun x y hxy => List.mem_map.mpr ⟨(x, y), hxy, rfl⟩
    clear ha hb
    induction h with
    | refl => exact .refl
    | tail _ hxy ih => exact ih.tail (hstep _ _ hxy)

theorem label_eq_iff {components : Components} (hcomponents : FindsComponents components)
    (pairs : List (String × String)) {a b : String}
    (ha : a ∈ (labelsOf components pairs).nodes) (hb : b ∈ (labelsOf components pairs).nodes) :
    (labelsOf components pairs).label a = (labelsOf components pairs).label b ↔
      Mutual (fun x y => (x, y) ∈ pairs) a b := by
  have hnodes : ∀ p ∈ pairs, p.1 ∈ (labelsOf components pairs).nodes ∧
      p.2 ∈ (labelsOf components pairs).nodes := fun p hp =>
    ⟨mem_nodes_labelsOf.mpr ⟨p, hp, .inl rfl⟩, mem_nodes_labelsOf.mpr ⟨p, hp, .inr rfl⟩⟩
  have hlabel (name : String) : (labelsOf components pairs).label name =
      components (labelsOf components pairs).nodes.length
        (pairs.map fun p => ((labelsOf components pairs).nodes.idxOf p.1,
          (labelsOf components pairs).nodes.idxOf p.2))
        ((labelsOf components pairs).nodes.idxOf name) := rfl
  rw [hlabel, hlabel]
  generalize (labelsOf components pairs).nodes = nodes at ha hb hnodes
  rw [hcomponents _ _ ?_ _ (List.idxOf_lt_length_iff.mpr ha) _ (List.idxOf_lt_length_iff.mpr hb)]
  · exact and_congr (reach_idxOf_iff hnodes ha hb) (reach_idxOf_iff hnodes hb ha)
  · intro p hp
    obtain ⟨q, hq, rfl⟩ := List.mem_map.mp hp
    exact ⟨List.idxOf_lt_length_iff.mpr (hnodes q hq).1,
      List.idxOf_lt_length_iff.mpr (hnodes q hq).2⟩

/-- A cycle of a graph: the vertices of one of its components in order, and whether all edges
among them shift the period. -/
def CycleAt (E : String → String → Prop) (chain : String → String → Bool) (a : String)
    (record : List String × CycleClass) : Prop :=
  (E a a ∨ ∃ b, b ≠ a ∧ Mutual E a b) ∧ record.1.Pairwise (· < ·) ∧
    (∀ c, c ∈ record.1 ↔ Mutual E a c) ∧
      (record.2 = .iterativeOk ↔
        ∀ x y, E x y → Mutual E a x → Mutual E a y → chain x y = true)

/-- The input of an analysis stands for the graph `E`: its pairs join the same cells, and every
edge of `E` inside a component has a vote. -/
structure Represents (text : GraphText) (E : String → String → Prop)
    (chain : String → String → Bool) (pairs : List (String × String)) (label : String → ℕ)
    (usable : List CellEdge) (flags : List (ℕ × Bool × Bool)) : Prop where
  contracts : ∃ below, Contracts (fun x y => (x, y) ∈ pairs) E
    (fun name => isCellId text.toCharTable name = true) below
  isCell : ∀ x y, E x y → isCellId text.toCharTable x = true
  edge : ∀ edge ∈ usable, isRangeNode edge.target = false →
    E edge.source edge.target ∧ isPeriodChain text edge = chain edge.source edge.target
  flag : ∀ flag ∈ flags, ∃ x y, E x y ∧ label x = flag.1 ∧ label y = flag.1 ∧
    flag.2 = (chain x y, decide (y = x))
  vote : ∀ x y, E x y → label x = label y →
    (∃ edge ∈ usable, isRangeNode edge.target = false ∧ edge.source = x ∧ edge.target = y) ∨
      (label x, chain x y, decide (y = x)) ∈ flags

theorem two_le_length {l : List String} {a b : String} (ha : a ∈ l) (hb : b ∈ l) (hab : a ≠ b) :
    2 ≤ l.length := by
  have hsub : [a, b] ⊆ l := by
    intro c hc
    rcases List.mem_cons.mp hc with rfl | hc
    · exact ha
    · rwa [List.mem_singleton.mp hc]
  have hnodup : [a, b].Nodup := by simp [hab]
  exact (hnodup.subperm hsub).length_le

theorem iterativeOk_iff_of_ne {c d : CycleClass} (h : c = .iterativeOk ↔ d = .iterativeOk) :
    c = d := by
  cases c <;> cases d <;> simp_all

section Records

variable {text : GraphText} {components : Components} {E : String → String → Prop}
  {chain : String → String → Bool} {pairs : List (String × String)} {usable : List CellEdge}
  {flags : List (ℕ × Bool × Bool)}

theorem Represents.isCell_target {label : String → ℕ}
    (h : Represents text E chain pairs label usable flags) {x y : String} (hxy : E x y) :
    isCellId text.toCharTable y = true := by
  obtain ⟨below, hcontracts⟩ := h.contracts
  exact (hcontracts.edge x y (h.isCell x y hxy) hxy).1

theorem Represents.mem_nodes {label : String → ℕ}
    (h : Represents text E chain pairs label usable flags) {x y : String} (hxy : E x y) :
    x ∈ (labelsOf components pairs).nodes ∧ y ∈ (labelsOf components pairs).nodes := by
  obtain ⟨below, hcontracts⟩ := h.contracts
  have hwalk := (hcontracts.edge x y (h.isCell x y hxy) hxy).2
  constructor
  · obtain ⟨z, hxz, -⟩ := TransGen.head'_iff.mp hwalk
    exact mem_nodes_labelsOf.mpr ⟨(x, z), hxz, .inl rfl⟩
  · obtain ⟨z, -, hzy⟩ := TransGen.tail'_iff.mp hwalk
    exact mem_nodes_labelsOf.mpr ⟨(z, y), hzy, .inr rfl⟩

variable (hcomponents : FindsComponents components)
  (h : Represents text E chain pairs (labelsOf components pairs).label usable flags)
  {a : String} (ha : a ∈ (labelsOf components pairs).nodes)
  (hcell : isCellId text.toCharTable a = true)

include hcomponents h ha hcell

theorem Represents.label_eq_iff {x : String} (hx : x ∈ (labelsOf components pairs).nodes)
    (hxcell : isCellId text.toCharTable x = true) :
    (labelsOf components pairs).label x = (labelsOf components pairs).label a ↔
      Mutual E a x := by
  obtain ⟨below, hcontracts⟩ := h.contracts
  rw [FinanceContext.label_eq_iff hcomponents pairs hx ha, hcontracts.mutual_iff hxcell hcell]
  exact ⟨Mutual.symm, Mutual.symm⟩

theorem Represents.mem_group {c : String} :
    c ∈ ((labelsOf components pairs).members ((labelsOf components pairs).label a)).filter
        (isCellId text.toCharTable) ↔ Mutual E a c := by
  rw [List.mem_filter, Labels.members, List.mem_filter, decide_eq_true_eq]
  constructor
  · rintro ⟨⟨hc, hlabel⟩, hccell⟩
    exact (h.label_eq_iff hcomponents ha hcell hc hccell).mp hlabel
  · intro hac
    by_cases hne : c = a
    · subst hne
      exact ⟨⟨ha, rfl⟩, hcell⟩
    · obtain ⟨d, hcd, -⟩ := hac.symm.exists_edge hne
      have hc : c ∈ (labelsOf components pairs).nodes := (h.mem_nodes hcd).1
      have hccell := h.isCell c d hcd
      exact ⟨⟨hc, (h.label_eq_iff hcomponents ha hcell hc hccell).mpr hac⟩, hccell⟩

theorem Represents.votes_iff (P : Bool → Bool → Prop) :
    ((∃ edge ∈ intraEdges (labelsOf components pairs) usable
          ((labelsOf components pairs).label a),
        P (isPeriodChain text edge) (decide (edge.target = edge.source))) ∨
      ∃ flag ∈ flags, flag.1 = (labelsOf components pairs).label a ∧ P flag.2.1 flag.2.2) ↔
      ∃ x y, E x y ∧ Mutual E a x ∧ Mutual E a y ∧ P (chain x y) (decide (y = x)) := by
  have hlabel {x y : String} (hxy : E x y) :
      ((labelsOf components pairs).label x = (labelsOf components pairs).label a ↔
        Mutual E a x) ∧
      ((labelsOf components pairs).label y = (labelsOf components pairs).label a ↔
        Mutual E a y) :=
    ⟨h.label_eq_iff hcomponents ha hcell (h.mem_nodes hxy).1 (h.isCell x y hxy),
      h.label_eq_iff hcomponents ha hcell (h.mem_nodes hxy).2 (h.isCell_target hxy)⟩
  constructor
  · rintro (⟨edge, hedge, hP⟩ | ⟨flag, hflag, hfa, hP⟩)
    · obtain ⟨hmem, hin⟩ := List.mem_filter.mp hedge
      obtain ⟨hsame, hrange, hsource, -⟩ := of_decide_eq_true hin
      obtain ⟨hE, hchain⟩ := h.edge edge hmem hrange
      rw [hchain] at hP
      exact ⟨edge.source, edge.target, hE, (hlabel hE).1.mp hsource,
        (hlabel hE).2.mp (hsame.symm.trans hsource), hP⟩
    · obtain ⟨x, y, hE, hx, hy, hbits⟩ := h.flag flag hflag
      rw [hbits] at hP
      exact ⟨x, y, hE, (hlabel hE).1.mp (hx.trans hfa), (hlabel hE).2.mp (hy.trans hfa), hP⟩
  · rintro ⟨x, y, hE, hax, hay, hP⟩
    have hx := (hlabel hE).1.mpr hax
    have hy := (hlabel hE).2.mpr hay
    rcases h.vote x y hE (hx.trans hy.symm) with ⟨edge, hmem, hrange, rfl, rfl⟩ | hflag
    · left
      refine ⟨edge, List.mem_filter.mpr ⟨hmem, decide_eq_true ⟨hx.trans hy.symm, hrange, hx, ?_⟩⟩,
        ?_⟩
      · rintro ⟨hsize, hne⟩
        have hs : edge.source ∈ (labelsOf components pairs).members
            ((labelsOf components pairs).label a) :=
          List.mem_filter.mpr ⟨(h.mem_nodes hE).1, decide_eq_true hx⟩
        have ht : edge.target ∈ (labelsOf components pairs).members
            ((labelsOf components pairs).label a) :=
          List.mem_filter.mpr ⟨(h.mem_nodes hE).2, decide_eq_true hy⟩
        have htwo := two_le_length hs ht hne
        omega
      · rwa [(h.edge edge hmem hrange).2]
    · right
      exact ⟨_, hflag, hx, hP⟩

theorem Represents.classify_iff (hcycle : E a a ∨ ∃ b, b ≠ a ∧ Mutual E a b) :
    classify text (intraEdges (labelsOf components pairs) usable
        ((labelsOf components pairs).label a))
      ((flags.filter (·.1 = (labelsOf components pairs).label a)).map (·.2.1)) = .iterativeOk ↔
      ∀ x y, E x y → Mutual E a x → Mutual E a y → chain x y = true := by
  have hedge : ∃ x y, E x y ∧ Mutual E a x ∧ Mutual E a y := by
    rcases hcycle with hloop | ⟨b, hba, hab⟩
    · exact ⟨a, a, hloop, ⟨.refl, .refl⟩, ⟨.refl, .refl⟩⟩
    · obtain ⟨c, hac, hca⟩ := hab.exists_edge hba.symm
      exact ⟨a, c, hac, ⟨.refl, .refl⟩, ⟨.single hac, hca⟩⟩
  have hsome := (h.votes_iff hcomponents ha hcell fun _ _ => True).mpr (by simpa using hedge)
  have hbad := h.votes_iff hcomponents ha hcell fun bit _ => bit = false
  generalize intraEdges (labelsOf components pairs) usable
    ((labelsOf components pairs).label a) = intra at hsome hbad ⊢
  have hvotes : ¬(intra = [] ∧
      (flags.filter (·.1 = (labelsOf components pairs).label a)).map (·.2.1) = []) := by
    rintro ⟨hintra, hbits⟩
    rcases hsome with ⟨edge, hmem, -⟩ | ⟨flag, hmem, hfa, -⟩
    · rw [hintra] at hmem
      cases hmem
    · have hflag := List.filter_eq_nil_iff.mp (List.map_eq_nil_iff.mp hbits) flag hmem
      simp [hfa] at hflag
  rw [classify, if_neg hvotes]
  constructor
  · intro hclass x y hE hax hay
    by_contra hchain
    have hall : (∀ edge ∈ intra, isPeriodChain text edge = true) ∧
        ∀ bit ∈ (flags.filter (·.1 = (labelsOf components pairs).label a)).map (·.2.1),
          bit = true := by
      by_contra hnot
      rw [if_neg hnot] at hclass
      cases hclass
    rcases hbad.mpr ⟨x, y, hE, hax, hay, by simpa using hchain⟩ with
      ⟨edge, hmem, hfalse⟩ | ⟨flag, hmem, hfa, hfalse⟩
    · rw [hall.1 edge hmem] at hfalse
      cases hfalse
    · have hbit := hall.2 flag.2.1 (List.mem_map.mpr
        ⟨flag, List.mem_filter.mpr ⟨hmem, decide_eq_true hfa⟩, rfl⟩)
      rw [hbit] at hfalse
      cases hfalse
  · intro hchain
    have hnone {bit : Bool} (hbit : bit = false → ∃ x y, E x y ∧ Mutual E a x ∧ Mutual E a y ∧
        chain x y = false) : bit = true := by
      by_contra hne
      obtain ⟨x, y, hE, hax, hay, hfalse⟩ := hbit (by simpa using hne)
      rw [hchain x y hE hax hay] at hfalse
      cases hfalse
    rw [if_pos]
    refine ⟨fun edge hmem => hnone fun hfalse => ?_, fun bit hmem => hnone fun hfalse => ?_⟩
    · exact hbad.mp (.inl ⟨edge, hmem, hfalse⟩)
    · obtain ⟨flag, hflag, rfl⟩ := List.mem_map.mp hmem
      obtain ⟨hflag, hfa⟩ := List.mem_filter.mp hflag
      exact hbad.mp (.inr ⟨flag, hflag, of_decide_eq_true hfa, hfalse⟩)

theorem Represents.cycleRecord_iff {record : List String × CycleClass} :
    cycleRecord text (labelsOf components pairs) usable flags
        ((labelsOf components pairs).label a) = some record ↔ CycleAt E chain a record := by
  have hgroup {c : String} := h.mem_group hcomponents ha hcell (c := c)
  have hnodup : (((labelsOf components pairs).members
      ((labelsOf components pairs).label a)).filter (isCellId text.toCharTable)).Nodup := by
    have hnodes := (pairwise_nodes_labelsOf components pairs).imp fun h => ne_of_lt h
    exact (List.Nodup.filter _ hnodes).filter _
  have hself := h.votes_iff hcomponents ha hcell fun _ self => self = true
  have hclass := h.classify_iff hcomponents ha hcell
  unfold cycleRecord
  dsimp only
  generalize ((labelsOf components pairs).members
    ((labelsOf components pairs).label a)).filter (isCellId text.toCharTable) = group
    at hgroup hnodup ⊢
  have hloop : ((∃ edge ∈ intraEdges (labelsOf components pairs) usable
      ((labelsOf components pairs).label a), edge.source = edge.target) ∨
        ∃ flag ∈ flags, flag.1 = (labelsOf components pairs).label a ∧ flag.2.2 = true) ↔
      ∃ x, E x x ∧ Mutual E a x := by
    constructor
    · rintro (⟨edge, hedge, he⟩ | hflag)
      · obtain ⟨x, y, hE, hax, -, hyx⟩ :=
          hself.mp (.inl ⟨edge, hedge, decide_eq_true he.symm⟩)
        obtain rfl := of_decide_eq_true hyx
        exact ⟨y, hE, hax⟩
      · obtain ⟨x, y, hE, hax, -, hyx⟩ := hself.mp (.inr hflag)
        obtain rfl := of_decide_eq_true hyx
        exact ⟨y, hE, hax⟩
    · rintro ⟨x, hE, hax⟩
      rcases hself.mpr ⟨x, x, hE, hax, hax, decide_eq_true rfl⟩ with ⟨edge, hedge, he⟩ | hflag
      · exact .inl ⟨edge, hedge, (of_decide_eq_true he).symm⟩
      · exact .inr hflag
  have hcycle : ¬(group = [] ∨ (group.length < 2 ∧
      ¬((∃ edge ∈ intraEdges (labelsOf components pairs) usable
        ((labelsOf components pairs).label a), edge.source = edge.target) ∨
          ∃ flag ∈ flags, flag.1 = (labelsOf components pairs).label a ∧ flag.2.2 = true))) ↔
      E a a ∨ ∃ b, b ≠ a ∧ Mutual E a b := by
    have hself : a ∈ group := hgroup.mpr ⟨.refl, .refl⟩
    rw [hloop]
    constructor
    · intro hnot
      by_contra hno
      have honly (b : String) (hb : Mutual E a b) : b = a := by
        by_contra hne
        exact hno (.inr ⟨b, hne, hb⟩)
      apply hnot
      right
      constructor
      · have hsub : group ⊆ [a] := fun b hb => List.mem_singleton.mpr (honly b (hgroup.mp hb))
        have hlen := (hnodup.subperm hsub).length_le
        rw [List.length_singleton] at hlen
        omega
      · rintro ⟨x, hE, hax⟩
        rw [honly x hax] at hE
        exact hno (.inl hE)
    · rintro (hE | ⟨b, hba, hab⟩) (hnil | ⟨hlen, hnoloop⟩)
      · rw [hnil] at hself
        cases hself
      · exact hnoloop ⟨a, hE, .refl, .refl⟩
      · rw [hnil] at hself
        cases hself
      · have htwo := two_le_length (hgroup.mpr hab) hself hba
        omega
  have hsorted := pairwise_lt_insertionSort hnodup
  have hmem (c : String) : c ∈ group.insertionSort (· ≤ ·) ↔ Mutual E a c := by
    rw [List.mem_insertionSort, hgroup]
  constructor
  · intro hrecord
    split_ifs at hrecord with hnot
    obtain rfl := Option.some.inj hrecord
    exact ⟨hcycle.mp hnot, hsorted, hmem, hclass (hcycle.mp hnot)⟩
  · rintro ⟨hat, hpairwise, hmembers, hok⟩
    rw [if_neg (hcycle.mpr hat)]
    congr 1
    apply Prod.ext
    · apply hsorted.eq_of_mem_iff hpairwise
      intro c
      rw [hmem, hmembers]
    · exact iterativeOk_iff_of_ne ((hclass hat).trans hok.symm)

end Records

theorem Represents.mem_records_iff {text : GraphText} {components : Components}
    {E : String → String → Prop} {chain : String → String → Bool}
    {pairs : List (String × String)} {usable : List CellEdge} {flags : List (ℕ × Bool × Bool)}
    (hcomponents : FindsComponents components)
    (h : Represents text E chain pairs (labelsOf components pairs).label usable flags)
    {record : List String × CycleClass} :
    record ∈ (labelsOf components pairs).order.filterMap
        (cycleRecord text (labelsOf components pairs) usable flags) ↔
      ∃ a, CycleAt E chain a record := by
  rw [List.mem_filterMap]
  constructor
  · rintro ⟨label, hlabel, hrecord⟩
    have hgroup : ((labelsOf components pairs).members label).filter
        (isCellId text.toCharTable) ≠ [] := by
      intro hnil
      simp [cycleRecord, hnil] at hrecord
    obtain ⟨a, hmem⟩ := List.exists_mem_of_ne_nil _ hgroup
    obtain ⟨hmember, hcell⟩ := List.mem_filter.mp hmem
    obtain ⟨ha, hal⟩ := List.mem_filter.mp hmember
    obtain rfl := of_decide_eq_true hal
    exact ⟨a, (h.cycleRecord_iff hcomponents ha hcell).mp hrecord⟩
  · rintro ⟨a, hat⟩
    have hedge : ∃ x, E a x := by
      rcases hat.1 with hloop | ⟨b, hba, hab⟩
      · exact ⟨a, hloop⟩
      · obtain ⟨c, hac, -⟩ := hab.exists_edge hba.symm
        exact ⟨c, hac⟩
    obtain ⟨x, hax⟩ := hedge
    have ha : a ∈ (labelsOf components pairs).nodes := (h.mem_nodes hax).1
    refine ⟨(labelsOf components pairs).label a, ?_,
      (h.cycleRecord_iff hcomponents ha (h.isCell a x hax)).mpr hat⟩
    exact mem_firsts_id.mpr ⟨List.mem_map_of_mem ha, List.not_mem_nil⟩

theorem nodup_records (text : GraphText) (labels : Labels) (usable : List CellEdge)
    (flags : List (ℕ × Bool × Bool)) :
    (labels.order.filterMap (cycleRecord text labels usable flags)).Nodup := by
  apply List.Nodup.filterMap
  · intro l l' record hl hl'
    have hin (label : ℕ) (hlabel : record ∈ cycleRecord text labels usable flags label) :
        record.1 = ((labels.members label).filter
          (isCellId text.toCharTable)).insertionSort (· ≤ ·) ∧ record.1 ≠ [] := by
      unfold cycleRecord at hlabel
      dsimp only at hlabel
      split_ifs at hlabel with hnot
      · cases hlabel
      · obtain rfl := Option.some.inj hlabel
        refine ⟨rfl, fun hnil => hnot (.inl ?_)⟩
        apply List.eq_nil_of_length_eq_zero
        have hlen := congrArg List.length hnil
        rwa [List.length_insertionSort, List.length_nil] at hlen
    have hmember (label : ℕ) (hlabel : record ∈ cycleRecord text labels usable flags label)
        {a : String} (ha : a ∈ record.1) : labels.label a = label := by
      rw [(hin label hlabel).1, List.mem_insertionSort] at ha
      exact of_decide_eq_true (List.mem_filter.mp (List.mem_filter.mp ha).1).2
    obtain ⟨a, ha⟩ := List.exists_mem_of_ne_nil _ (hin l hl).2
    exact (hmember l hl ha).symm.trans (hmember l' hl' ha)
  · exact nodup_firsts_id [] _

end FinanceContext
