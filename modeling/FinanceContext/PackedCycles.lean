import FinanceContext.CycleRecords
import FinanceContext.RangeExpansion
import FinanceContext.SlotTables

namespace FinanceContext

open Csr Dictionaries FirstOccurrences SlotTables

/-- A flag of `_cycles_packed`: the period-chain bit, or `_STRUCTURAL`. -/
inductive EdgeFlag where
  | plain | chain | structural
  deriving DecidableEq

/-- `ids`, `src_ids`, `tgt_ids` and `flags`. -/
structure PackedEdges where
  ids : List String := []
  src : List ℕ := []
  tgt : List ℕ := []
  flags : List EdgeFlag := []

def PackedEdges.add (packed : PackedEdges) (source target : String) (flag : EdgeFlag) :
    PackedEdges :=
  let (ids, src) := intern packed.ids source
  let (ids, tgt) := intern ids target
  ⟨ids, packed.src ++ [src], packed.tgt ++ [tgt], packed.flags ++ [flag]⟩

/-- The votes on the components: `all_period`, `saw` and `self_loop`. -/
structure Votes where
  allPeriod : List (ℕ × Bool) := []
  saw : List ℕ := []
  selfLoop : List ℕ := []

def Votes.add (votes : Votes) (vote : ℕ × Bool × Bool) : Votes :=
  let (label, bit, isSelf) := vote
  { saw := label :: votes.saw
    selfLoop := if isSelf then label :: votes.selfLoop else votes.selfLoop
    allPeriod := set label (match get label votes.allPeriod with
      | none => bit
      | some previous => previous && bit) votes.allPeriod }

def edgeVote (label : ℕ → ℕ) (sizes : ℕ → ℕ) (row col : ℕ) (flag : EdgeFlag) :
    Option (ℕ × Bool × Bool) :=
  if label row ≠ label col then none
  else if sizes (label row) < 2 ∧ row ≠ col then none
  else if flag = .structural then none
  else some (label row, flag = .chain, row = col)

/-- `hop_flags` of a lookup of labels. -/
def hopFlagsOf (rangeEdges : List (String × RangeNode)) (hops : RangeHops)
    (chain : String → String → Bool) (labelOf : String → Option ℕ) : List (ℕ × Bool × Bool) :=
  rangeEdges.flatMap fun (source, node) =>
    match labelOf source with
    | none => []
    | some label =>
      if labelOf node.nodeId ≠ some label then []
      else
        (hops.members node).filterMap fun member =>
          if labelOf member ≠ some label then none
          else some (label, chain source member, member = source)

section Packed

variable (text : GraphText) (components : Components)

/-- The record of one group of `members`, when it is a cycle. -/
def packedRecord (votes : Votes) (label : ℕ) (group : List String) :
    Option (List String × CycleClass) :=
  if group.length < 2 ∧ label ∉ votes.selfLoop then none
  else
    let cellsOnly := group.filter (isCellId text.toCharTable)
    if cellsOnly = [] ∨ cellsOnly.length < 2 ∧ label ∉ votes.selfLoop then none
    else
      some (cellsOnly.insertionSort (· ≤ ·),
        if label ∈ votes.saw ∧ (get label votes.allPeriod).getD false = true then .iterativeOk
        else .unexpected)

def cyclesPacked (packed : PackedEdges)
    (extra : Option ((String → Option ℕ) → List (ℕ × Bool × Bool))) : List CycleRecord :=
  if packed.ids = [] then []
  else
    let nodes := packed.ids.insertionSort (· ≤ ·)
    let rank := ranks packed.ids nodes
    let rows := packed.src.map fun slot => rank.getD slot 0
    let cols := packed.tgt.map fun slot => rank.getD slot 0
    let label := components nodes.length (rows.zip cols)
    let sizes := fun l => (List.range nodes.length).countP (label · = l)
    let edgeVotes := (rows.zip (cols.zip packed.flags)).filterMap fun (row, col, flag) =>
      edgeVote label sizes row col flag
    let labelOf := fun name =>
      if name ∈ packed.ids then some (label (rank.getD (packed.ids.idxOf name) 0)) else none
    let hopVotes := match extra with
      | some extra => extra labelOf
      | none => []
    let votes := (edgeVotes ++ hopVotes).foldl Votes.add {}
    let kept := (nodes.zipIdx.map fun (name, i) => (label i, name)).filter fun (l, _) =>
      ¬(sizes l < 2 ∧ l ∉ votes.selfLoop)
    numberCycles ((grouped kept).filterMap fun (l, group) => packedRecord text votes l group)

end Packed

section Pack

def pack (edges : List ((String × String) × EdgeFlag)) : PackedEdges :=
  edges.foldl (fun packed e => packed.add e.1.1 e.1.2 e.2) {}

/-- The packed edges stand for these named ones. -/
structure Packs (packed : PackedEdges) (edges : List ((String × String) × EdgeFlag)) : Prop where
  nodup : packed.ids.Nodup
  mem : ∀ name, name ∈ packed.ids ↔ ∃ e ∈ edges, name = e.1.1 ∨ name = e.1.2
  src : packed.src = edges.map fun e => packed.ids.idxOf e.1.1
  tgt : packed.tgt = edges.map fun e => packed.ids.idxOf e.1.2
  flags : packed.flags = edges.map Prod.snd

theorem Packs.add {packed : PackedEdges} {edges : List ((String × String) × EdgeFlag)}
    (h : Packs packed edges) (source target : String) (flag : EdgeFlag) :
    Packs (packed.add source target flag) (edges ++ [((source, target), flag)]) := by
  let ids₁ := (intern packed.ids source).1
  let ids₂ := (intern ids₁ target).1
  have hids : (packed.add source target flag).ids = ids₂ := rfl
  have hold {name : String} (hname : name ∈ packed.ids) :
      ids₂.idxOf name = packed.ids.idxOf name := by
    have hmem : name ∈ ids₁ := mem_intern.mpr (.inl hname)
    exact (idxOf_intern hmem target).trans (idxOf_intern hname source)
  have hends {e : (String × String) × EdgeFlag} (he : e ∈ edges) :
      e.1.1 ∈ packed.ids ∧ e.1.2 ∈ packed.ids :=
    ⟨(h.mem _).mpr ⟨e, he, .inl rfl⟩, (h.mem _).mpr ⟨e, he, .inr rfl⟩⟩
  constructor
  · exact nodup_intern (nodup_intern h.nodup source) target
  · intro name
    rw [hids, mem_intern, mem_intern, h.mem]
    simp only [List.mem_append, List.mem_singleton]
    constructor
    · rintro ((⟨e, he, hname⟩ | rfl) | rfl)
      · exact ⟨e, .inl he, hname⟩
      · exact ⟨_, .inr rfl, .inl rfl⟩
      · exact ⟨_, .inr rfl, .inr rfl⟩
    · rintro ⟨e, he | rfl, hname⟩
      · exact .inl (.inl ⟨e, he, hname⟩)
      · rcases hname with rfl | rfl
        · exact .inl (.inr rfl)
        · exact .inr rfl
  · have hslot : (intern packed.ids source).2 = ids₂.idxOf source := by
      rw [intern_slot]
      exact (idxOf_intern (mem_intern.mpr (.inr rfl)) target).symm
    rw [hids, List.map_append, List.map_singleton, ← hslot]
    change packed.src ++ [(intern packed.ids source).2] = _
    rw [h.src]
    congr 1
    exact List.map_congr_left fun e he => (hold (hends he).1).symm
  · have hslot : (intern ids₁ target).2 = ids₂.idxOf target := intern_slot ids₁ target
    rw [hids, List.map_append, List.map_singleton, ← hslot]
    change packed.tgt ++ [(intern ids₁ target).2] = _
    rw [h.tgt]
    congr 1
    exact List.map_congr_left fun e he => (hold (hends he).2).symm
  · change packed.flags ++ [flag] = _
    rw [h.flags, List.map_append, List.map_singleton]

theorem packs_pack (edges : List ((String × String) × EdgeFlag)) : Packs (pack edges) edges := by
  induction edges using List.reverseRecOn with
  | nil =>
    constructor
    · exact List.nodup_nil
    · simp [pack]
    · rfl
    · rfl
    · rfl
  | append_singleton edges e ih =>
    have hstep : pack (edges ++ [e]) = (pack edges).add e.1.1 e.1.2 e.2 := by
      simp [pack, List.foldl_append]
    rw [hstep]
    exact ih.add e.1.1 e.1.2 e.2

end Pack

section Votes

/-- What the votes come to for each component. -/
structure Counted (votes : List (ℕ × Bool × Bool)) (result : Votes) : Prop where
  saw : ∀ label, label ∈ result.saw ↔ ∃ vote ∈ votes, vote.1 = label
  selfLoop : ∀ label, label ∈ result.selfLoop ↔
    ∃ vote ∈ votes, vote.1 = label ∧ vote.2.2 = true
  absent : ∀ label, get label result.allPeriod = none ↔ label ∉ result.saw
  allPeriod : ∀ label, get label result.allPeriod = some true ↔
    label ∈ result.saw ∧ ∀ vote ∈ votes, vote.1 = label → vote.2.1 = true

theorem Counted.add {votes : List (ℕ × Bool × Bool)} {result : Votes} (h : Counted votes result)
    (vote : ℕ × Bool × Bool) : Counted (votes ++ [vote]) (result.add vote) := by
  obtain ⟨label, bit, isSelf⟩ := vote
  have hsaw (l : ℕ) : l ∈ (result.add (label, bit, isSelf)).saw ↔ l = label ∨ l ∈ result.saw :=
    List.mem_cons
  constructor
  · intro l
    rw [hsaw, h.saw]
    simp only [List.mem_append, List.mem_singleton]
    constructor
    · rintro (rfl | ⟨v, hv, rfl⟩)
      · exact ⟨_, .inr rfl, rfl⟩
      · exact ⟨v, .inl hv, rfl⟩
    · rintro ⟨v, hv | rfl, rfl⟩
      · exact .inr ⟨v, hv, rfl⟩
      · exact .inl rfl
  · intro l
    have hself : l ∈ (result.add (label, bit, isSelf)).selfLoop ↔
        isSelf = true ∧ l = label ∨ l ∈ result.selfLoop := by
      unfold Votes.add
      cases isSelf <;> simp
    rw [hself, h.selfLoop]
    simp only [List.mem_append, List.mem_singleton]
    constructor
    · rintro (⟨hbit, rfl⟩ | ⟨v, hv, rfl, hbit⟩)
      · exact ⟨_, .inr rfl, rfl, hbit⟩
      · exact ⟨v, .inl hv, rfl, hbit⟩
    · rintro ⟨v, hv | rfl, rfl, hbit⟩
      · exact .inr ⟨v, hv, rfl, hbit⟩
      · exact .inl ⟨hbit, rfl⟩
  · intro l
    rw [hsaw]
    unfold Votes.add
    dsimp only
    rw [get_set]
    by_cases hl : label = l
    · simp [hl]
    · rw [if_neg hl, h.absent l, not_or]
      exact (and_iff_right (Ne.symm hl)).symm
  · intro l
    rw [hsaw]
    unfold Votes.add
    dsimp only
    rw [get_set]
    simp only [List.mem_append, List.mem_singleton]
    by_cases hl : label = l
    · subst hl
      rw [if_pos rfl, Option.some.injEq]
      cases hget : get label result.allPeriod with
      | none =>
        have hnew : ∀ v ∈ votes, v.1 ≠ label := by
          intro v hv hlabel
          exact (h.absent label).mp hget ((h.saw label).mpr ⟨v, hv, hlabel⟩)
        constructor
        · intro hbit
          refine ⟨.inl rfl, fun v hv hlabel => ?_⟩
          rcases hv with hv | rfl
          · exact absurd hlabel (hnew v hv)
          · exact hbit
        · rintro ⟨-, hall⟩
          exact hall _ (.inr rfl) rfl
      | some previous =>
        have hknown : label ∈ result.saw := by
          by_contra hnot
          rw [(h.absent label).mpr hnot] at hget
          cases hget
        have hprevious := h.allPeriod label
        rw [hget, Option.some.injEq, and_iff_right hknown] at hprevious
        rw [Bool.and_eq_true, hprevious]
        constructor
        · rintro ⟨hall, hbit⟩
          refine ⟨.inl rfl, fun v hv hlabel => ?_⟩
          rcases hv with hv | rfl
          · exact hall v hv hlabel
          · exact hbit
        · rintro ⟨-, hall⟩
          exact ⟨fun v hv => hall v (.inl hv), hall _ (.inr rfl) rfl⟩
    · rw [if_neg hl, h.allPeriod l, or_iff_right (Ne.symm hl)]
      refine and_congr_right fun _ => ⟨fun hall v hv hlabel => ?_, fun hall v hv => ?_⟩
      · rcases hv with hv | rfl
        · exact hall v hv hlabel
        · exact absurd hlabel hl
      · exact hall v (.inl hv)

theorem counted_foldl (votes : List (ℕ × Bool × Bool)) :
    Counted votes (votes.foldl Votes.add {}) := by
  induction votes using List.reverseRecOn with
  | nil => constructor <;> simp
  | append_singleton votes vote ih =>
    rw [List.foldl_append]
    exact ih.add vote

end Votes

section Named

variable (text : GraphText) (components : Components)

def namedVotes (labels : Labels) (edges : List ((String × String) × EdgeFlag)) :
    List (ℕ × Bool × Bool) :=
  edges.filterMap fun ((source, target), flag) =>
    if labels.label source ≠ labels.label target then none
    else if (labels.members (labels.label source)).length < 2 ∧ source ≠ target then none
    else if flag = .structural then none
    else some (labels.label source, flag = .chain, source = target)

def votedRecord (labels : Labels) (votes : List (ℕ × Bool × Bool)) (label : ℕ) :
    Option (List String × CycleClass) :=
  let group := (labels.members label).filter (isCellId text.toCharTable)
  let selfLoop := ∃ vote ∈ votes, vote.1 = label ∧ vote.2.2 = true
  if group = [] ∨ (group.length < 2 ∧ ¬selfLoop) then none
  else
    some (group.insertionSort (· ≤ ·),
      if (∃ vote ∈ votes, vote.1 = label) ∧ ∀ vote ∈ votes, vote.1 = label → vote.2.1 = true then
        .iterativeOk
      else .unexpected)

theorem sorted_ids {packed : PackedEdges} {edges : List ((String × String) × EdgeFlag)}
    (h : Packs packed edges) :
    packed.ids.insertionSort (· ≤ ·) = (labelsOf components (edges.map Prod.fst)).nodes := by
  have hsorted := pairwise_lt_insertionSort h.nodup
  have hnodes := pairwise_nodes_labelsOf components (edges.map Prod.fst)
  apply List.Perm.eq_of_pairwise ?_ hsorted hnodes ?_
  · intro a b _ _ hab hba
    exact absurd hba (lt_asymm hab)
  · apply (List.perm_ext_iff_of_nodup (hsorted.imp ne_of_lt) (hnodes.imp ne_of_lt)).mpr
    intro name
    rw [(List.perm_insertionSort (· ≤ ·) packed.ids).mem_iff, h.mem, mem_nodes_labelsOf]
    simp

theorem length_members (labels : Labels) (label : ℕ → ℕ)
    (hlabel : ∀ name, labels.label name = label (labels.nodes.idxOf name))
    (hnodup : labels.nodes.Nodup) (l : ℕ) :
    (labels.members l).length = (List.range labels.nodes.length).countP (label · = l) := by
  rw [← map_idxOf_self hnodup, List.countP_map, Labels.members, ← List.countP_eq_length_filter]
  apply List.countP_congr
  intro name _
  simp [hlabel]

theorem grouped_kept (labels : Labels) (hnodup : labels.nodes.Nodup) (label : ℕ → ℕ)
    (hlabel : ∀ name, labels.label name = label (labels.nodes.idxOf name)) (keep : ℕ → Bool) :
    grouped ((labels.nodes.zipIdx.map fun (name, i) => (label i, name)).filter
        fun entry => keep entry.1) =
      (labels.order.filter keep).map fun l => (l, labels.members l) := by
  have hzip : (labels.nodes.zipIdx.map fun (name, i) => (label i, name)) =
      labels.nodes.map fun name => (labels.label name, name) := by
    apply List.ext_getElem
    · simp
    · intro i hi _
      simp only [List.length_map, List.length_zipIdx] at hi
      simp [hlabel, List.Nodup.idxOf_getElem hnodup i hi]
  have hkeys : ((labels.nodes.map fun name => (labels.label name, name)).filter
      fun entry => keep entry.1).map Prod.fst = (labels.nodes.map labels.label).filter keep := by
    simp only [List.filter_map, List.map_map]
    rfl
  have hsame : ∀ a : ℕ, keep a = true → (a ∈ ([] : List ℕ) ↔ a ∈ ([] : List ℕ)) :=
    fun _ _ => Iff.rfl
  rw [hzip, grouped_eq, hkeys, firsts_filter keep _ hsame]
  apply List.map_congr_left
  intro l hl
  have hkeep : keep l = true := (List.mem_filter.mp hl).2
  simp only [Prod.mk.injEq, true_and, List.filter_map, List.map_map, Labels.members,
    List.filter_filter]
  refine (List.map_congr_left fun name _ => rfl).trans ((List.map_id _).trans ?_)
  apply List.filter_congr
  intro name _
  by_cases hname : labels.label name = l
  · simp [hname, hkeep]
  · simp [hname]

theorem packedRecord_eq (labels : Labels) {votes : List (ℕ × Bool × Bool)} {result : Votes}
    (h : Counted votes result) (label : ℕ) :
    (if ¬((labels.members label).length < 2 ∧ label ∉ result.selfLoop) then
        packedRecord text result label (labels.members label)
      else none) = votedRecord text labels votes label := by
  have hself := h.selfLoop label
  have hclass : (label ∈ result.saw ∧ (get label result.allPeriod).getD false = true) ↔
      (∃ vote ∈ votes, vote.1 = label) ∧
        ∀ vote ∈ votes, vote.1 = label → vote.2.1 = true := by
    have hgetD : (get label result.allPeriod).getD false = true ↔
        get label result.allPeriod = some true := by
      cases get label result.allPeriod <;> simp
    rw [hgetD, h.allPeriod, ← h.saw]
    tauto
  have hlength : ((labels.members label).filter (isCellId text.toCharTable)).length ≤
      (labels.members label).length := List.length_filter_le _ _
  unfold packedRecord votedRecord
  dsimp only
  by_cases hsmall : (labels.members label).length < 2 ∧ label ∉ result.selfLoop
  · have hnone : ((labels.members label).filter (isCellId text.toCharTable)).length < 2 ∧
        ¬∃ vote ∈ votes, vote.1 = label ∧ vote.2.2 = true :=
      ⟨by omega, fun hloop => hsmall.2 (hself.mpr hloop)⟩
    rw [if_neg (not_not_intro hsmall), if_pos (.inr hnone)]
  · rw [if_pos hsmall, if_neg hsmall]
    simp only [hself, hclass]

theorem cyclesPacked_of_packs {packed : PackedEdges}
    {edges : List ((String × String) × EdgeFlag)} (h : Packs packed edges)
    (extra : Option ((String → Option ℕ) → List (ℕ × Bool × Bool))) :
    let labels := labelsOf components (edges.map Prod.fst)
    let hopVotes := match extra with
      | some extra => extra labels.labelOf
      | none => []
    cyclesPacked text components packed extra =
      numberCycles (labels.order.filterMap
        (votedRecord text labels (namedVotes labels edges ++ hopVotes))) := by
  intro labels hopVotes
  have hnodes : packed.ids.insertionSort (· ≤ ·) = labels.nodes := sorted_ids components h
  have hperm : labels.nodes.Perm packed.ids := hnodes ▸ List.perm_insertionSort (· ≤ ·) packed.ids
  have hnodup : labels.nodes.Nodup := hperm.nodup_iff.mpr h.nodup
  have hrank {name : String} (hname : name ∈ packed.ids) :
      (ranks packed.ids labels.nodes).getD (packed.ids.idxOf name) 0 = labels.nodes.idxOf name :=
    ranks_idxOf hperm h.nodup hname
  have hends {e : (String × String) × EdgeFlag} (he : e ∈ edges) :
      e.1.1 ∈ packed.ids ∧ e.1.2 ∈ packed.ids :=
    ⟨(h.mem _).mpr ⟨e, he, .inl rfl⟩, (h.mem _).mpr ⟨e, he, .inr rfl⟩⟩
  have hrows : (packed.src.map fun slot => (ranks packed.ids labels.nodes).getD slot 0) =
      edges.map fun e => labels.nodes.idxOf e.1.1 := by
    rw [h.src, List.map_map]
    exact List.map_congr_left fun e he => hrank (hends he).1
  have hcols : (packed.tgt.map fun slot => (ranks packed.ids labels.nodes).getD slot 0) =
      edges.map fun e => labels.nodes.idxOf e.1.2 := by
    rw [h.tgt, List.map_map]
    exact List.map_congr_left fun e he => hrank (hends he).2
  have hpairs : ((edges.map fun e => labels.nodes.idxOf e.1.1).zip
      (edges.map fun e => labels.nodes.idxOf e.1.2)) =
      (edges.map Prod.fst).map fun p => (labels.nodes.idxOf p.1, labels.nodes.idxOf p.2) := by
    rw [List.zip_map', List.map_map]
    rfl
  obtain ⟨label, hcomponents⟩ : ∃ label : ℕ → ℕ, components labels.nodes.length
      ((edges.map Prod.fst).map fun p => (labels.nodes.idxOf p.1, labels.nodes.idxOf p.2)) =
        label := ⟨_, rfl⟩
  have hlabel (name : String) : labels.label name = label (labels.nodes.idxOf name) := by
    rw [← hcomponents]
    rfl
  have hsize (l : ℕ) : (List.range labels.nodes.length).countP (label · = l) =
      (labels.members l).length := (length_members labels label hlabel hnodup l).symm
  have hvotes : ((edges.map fun e => labels.nodes.idxOf e.1.1).zip
      ((edges.map fun e => labels.nodes.idxOf e.1.2).zip packed.flags)).filterMap
        (fun (row, col, flag) => edgeVote label (fun l => (labels.members l).length) row col flag) =
      namedVotes labels edges := by
    rw [h.flags, List.zip_map', List.zip_map', List.filterMap_map]
    apply List.filterMap_congr
    intro e he
    have hsource : e.1.1 ∈ labels.nodes := hperm.mem_iff.mpr (hends he).1
    have hsame : labels.nodes.idxOf e.1.1 = labels.nodes.idxOf e.1.2 ↔ e.1.1 = e.1.2 :=
      List.idxOf_inj hsource
    simp only [Function.comp_apply, edgeVote, ← hlabel, ne_eq, hsame]
  have hlabelOf : (fun name => if name ∈ packed.ids then
      some (label ((ranks packed.ids labels.nodes).getD (packed.ids.idxOf name) 0)) else none) =
      labels.labelOf := by
    funext name
    unfold Labels.labelOf
    by_cases hname : name ∈ packed.ids
    · rw [if_pos hname, if_pos (hperm.mem_iff.mpr hname), hrank hname, hlabel]
    · rw [if_neg hname, if_neg (mt hperm.mem_iff.mp hname)]
  let result := (namedVotes labels edges ++ hopVotes).foldl Votes.add {}
  have hrecord := packedRecord_eq text labels
    (counted_foldl (namedVotes labels edges ++ hopVotes))
  unfold cyclesPacked
  split_ifs with hempty
  · have hnil : labels.nodes = [] := (hempty ▸ hperm).eq_nil
    simp [Labels.order, hnil, firsts, numberCycles]
  · simp only [hnodes, hrows, hcols, hpairs, hcomponents, hsize, hvotes, hlabelOf]
    change numberCycles ((grouped ((labels.nodes.zipIdx.map fun (name, i) => (label i, name)).filter
      fun entry => decide ¬((labels.members entry.1).length < 2 ∧
        entry.1 ∉ result.selfLoop))).filterMap _) = _
    rw [grouped_kept labels hnodup label hlabel fun l =>
      decide ¬((labels.members l).length < 2 ∧ l ∉ result.selfLoop), List.filterMap_map,
      List.filterMap_filter]
    congr 1
    apply List.filterMap_congr
    intro l _
    rw [← hrecord l]
    simp only [decide_eq_true_eq, Function.comp_apply]
    rfl

def namedEdges (flagOf : CellEdge → EdgeFlag) (edges : List CellEdge)
    (structural : List (String × String)) : List ((String × String) × EdgeFlag) :=
  (edges.filter Usable).map (fun edge => ((edge.source, edge.target), flagOf edge)) ++
    structural.map fun link => (link, .structural)

def rangeLinks (ranges : Option (RangeHops × List (String × RangeNode))) :
    List (String × String) :=
  match ranges with
  | some (hops, rangeEdges) => (hops.structural (nodesOf rangeEdges)).1
  | none => []

variable {flagOf : CellEdge → EdgeFlag} {edges : List CellEdge}
  (hflag : ∀ edge ∈ edges, Usable edge → flagOf edge =
    if isRangeNode edge.target then .structural
    else if isPeriodChain text edge then .chain else .plain)

include hflag

theorem mem_namedVotes {labels : Labels} {structural : List (String × String)}
    {vote : ℕ × Bool × Bool} :
    vote ∈ namedVotes labels (namedEdges flagOf edges structural) ↔
      ∃ edge ∈ intraEdges labels (edges.filter Usable) vote.1,
        vote.2 = (isPeriodChain text edge, decide (edge.source = edge.target)) := by
  unfold namedVotes namedEdges intraEdges
  simp only [List.mem_filterMap, List.mem_append, List.mem_map, List.mem_filter,
    decide_eq_true_eq]
  constructor
  · rintro ⟨e, ⟨edge, ⟨hedge, husable⟩, rfl⟩ | ⟨link, -, rfl⟩, hvote⟩
    · dsimp only at hvote
      split_ifs at hvote with hlabel hsmall hlink
      have hflagged := hflag edge hedge husable
      obtain rfl := Option.some.inj hvote
      have hcell : isRangeNode edge.target = false := by
        by_contra hrange
        rw [if_pos (Bool.not_eq_false _ ▸ hrange)] at hflagged
        exact hlink hflagged
      refine ⟨edge, ⟨⟨hedge, husable⟩, not_not.mp hlabel, hcell, rfl, hsmall⟩, ?_⟩
      rw [hcell] at hflagged
      rw [hflagged]
      cases isPeriodChain text edge <;> rfl
    · dsimp only at hvote
      split_ifs at hvote with _ _ hlink
      exact absurd rfl hlink
  · rintro ⟨edge, ⟨⟨hedge, husable⟩, hlabel, hcell, hvoteLabel, hsmall⟩, hvote⟩
    refine ⟨_, .inl ⟨edge, ⟨hedge, husable⟩, rfl⟩, ?_⟩
    have hflagged := hflag edge hedge husable
    rw [hcell] at hflagged
    rw [← hvoteLabel] at hsmall
    dsimp only
    rw [if_neg (not_not_intro hlabel), if_neg hsmall, hflagged]
    obtain ⟨l, votes⟩ := vote
    obtain rfl : labels.label edge.source = l := hvoteLabel
    obtain rfl : votes = _ := hvote
    cases isPeriodChain text edge <;> rfl

theorem cycleRecord_eq_votedRecord (labels : Labels) (structural : List (String × String))
    (flags : List (ℕ × Bool × Bool)) (label : ℕ) :
    cycleRecord text labels (edges.filter Usable) flags label =
      votedRecord text labels (namedVotes labels (namedEdges flagOf edges structural) ++ flags)
        label := by
  have hvotes (P : Bool × Bool → Prop) :
      (∃ vote ∈ namedVotes labels (namedEdges flagOf edges structural) ++ flags,
        vote.1 = label ∧ P vote.2) ↔
      (∃ edge ∈ intraEdges labels (edges.filter Usable) label,
        P (isPeriodChain text edge, decide (edge.source = edge.target))) ∨
      ∃ flag ∈ flags, flag.1 = label ∧ P flag.2 := by
    simp only [List.mem_append, mem_namedVotes text hflag]
    constructor
    · rintro ⟨vote, ⟨edge, hedge, heq⟩ | hvote, rfl, hP⟩
      · exact .inl ⟨edge, hedge, heq ▸ hP⟩
      · exact .inr ⟨vote, hvote, rfl, hP⟩
    · rintro (⟨edge, hedge, hP⟩ | ⟨flag, hmem, hlabel, hP⟩)
      · exact ⟨(label, _), .inl ⟨edge, hedge, rfl⟩, rfl, hP⟩
      · exact ⟨flag, .inr hmem, hlabel, hP⟩
  have hself := hvotes fun vote => vote.2 = true
  have hsaw := hvotes fun _ => True
  have hbroken := hvotes fun vote => vote.1 ≠ true
  simp only [decide_eq_true_eq] at hself
  have hclass : classify text (intraEdges labels (edges.filter Usable) label)
      ((flags.filter (·.1 = label)).map (·.2.1)) =
      if (∃ vote ∈ namedVotes labels (namedEdges flagOf edges structural) ++ flags,
          vote.1 = label) ∧
        ∀ vote ∈ namedVotes labels (namedEdges flagOf edges structural) ++ flags,
          vote.1 = label → vote.2.1 = true then .iterativeOk
      else .unexpected := by
    simp only [and_true] at hsaw
    have hall : (∀ vote ∈ namedVotes labels (namedEdges flagOf edges structural) ++ flags,
        vote.1 = label → vote.2.1 = true) ↔
        (∀ edge ∈ intraEdges labels (edges.filter Usable) label, isPeriodChain text edge = true) ∧
          ∀ flag ∈ flags, flag.1 = label → flag.2.1 = true := by
      have hnot := not_congr hbroken
      push Not at hnot
      simpa using hnot
    have hbits : (∀ bit ∈ (flags.filter (·.1 = label)).map (·.2.1), bit = true) ↔
        ∀ flag ∈ flags, flag.1 = label → flag.2.1 = true := by
      rw [List.forall_mem_map]
      simp only [List.mem_filter, decide_eq_true_eq, and_imp]
    have hsilent : (intraEdges labels (edges.filter Usable) label = [] ∧
        (flags.filter (·.1 = label)).map (·.2.1) = []) ↔
        ¬∃ vote ∈ namedVotes labels (namedEdges flagOf edges structural) ++ flags,
          vote.1 = label := by
      rw [hsaw, not_or, List.map_eq_nil_iff, List.filter_eq_nil_iff,
        List.eq_nil_iff_forall_not_mem]
      push Not
      exact and_congr_right fun _ => forall₂_congr fun _ _ => not_congr decide_eq_true_iff
    unfold classify
    by_cases hseen : ∃ vote ∈ namedVotes labels (namedEdges flagOf edges structural) ++ flags,
        vote.1 = label
    · rw [if_neg (mt hsilent.mp (not_not_intro hseen))]
      simp only [hseen, hall, hbits, true_and]
    · rw [if_pos (hsilent.mpr hseen), if_neg fun h => hseen h.1]
  unfold cycleRecord votedRecord
  dsimp only
  rw [hclass]
  simp only [hself]

theorem cyclesPacked_eq_classifyCycles (ranges : Option (RangeHops × List (String × RangeNode)))
    (chain : String → String → Bool) :
    cyclesPacked text components (pack (namedEdges flagOf edges (rangeLinks ranges)))
        (ranges.map fun found => hopFlagsOf found.2 found.1 chain) =
      classifyCycles text components edges ranges chain := by
  have hpairs : (namedEdges flagOf edges (rangeLinks ranges)).map Prod.fst =
      (edges.filter Usable).map (fun edge => (edge.source, edge.target)) ++ rangeLinks ranges := by
    unfold namedEdges
    rw [List.map_append, List.map_map, List.map_map]
    congr 1
    exact List.map_id _
  rw [cyclesPacked_of_packs text components (packs_pack _), hpairs]
  unfold classifyCycles
  congr 1
  apply List.filterMap_congr
  intro label _
  rw [cycleRecord_eq_votedRecord text hflag _ (rangeLinks ranges)]
  cases ranges <;> rfl

end Named

end FinanceContext
