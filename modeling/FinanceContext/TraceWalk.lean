import FinanceContext.GraphTrace

namespace FinanceContext.Trace

open Csr Dictionaries GraphIndex BreadthFirst

variable (text : GraphText) (files : Files) (query : Query)

section Next

def filledNext (node : String) : List String :=
  if nodeTypeOf files node = some .empty then [] else [node]

def edgeNext (edge : CellEdge) : List String :=
  match query.direction with
  | .dependents => filledNext files edge.source
  | .precedents =>
    match get edge.target (nodesById text files) with
    | none => filledNext files edge.target
    | some node => if hasCells text files node then shown query (members text files node) else []

def followed (node : String) : List String :=
  (outgoing files query node).flatMap (edgeNext text files query) ++
    (readersOf text files query node).map Prod.snd

/-- The cells the walk goes on to from a cell it visits at a level. -/
def nextCells (node : String) (level : ℕ) : List String :=
  if isInput text files query node && 0 < level then []
  else if depthOf query ≤ level then [] else followed text files query node

def Walk.search (st : Walk) : Search String where
  visited := st.nodes.map fun node => (node.nodeId, node.depth)
  queue := st.queue

end Next

variable {text files query} {level : ℕ} {st st' st'' : Walk}

theorem seen_search : st.search.seen = st.seen := by
  simp [Walk.search, Search.seen, Walk.seen, List.map_map, Function.comp_def]

structure Advances (level : ℕ) (st st' : Walk) (cells : List String) : Prop where
  nodes : st'.nodes = st.nodes
  queue : st'.queue = st.queue ++ (cells.filter fun cell => cell ∉ st.seen).map (·, level + 1)
  stopped : st'.stopped = if ∃ cell ∈ cells, cell ∈ st.seen then some .cycle else st.stopped

theorem advances_nil (hnodes : st'.nodes = st.nodes) (hqueue : st'.queue = st.queue)
    (hstopped : st'.stopped = st.stopped) : Advances level st st' [] :=
  ⟨hnodes, by simp [hqueue], by simp [hstopped]⟩

theorem Advances.trans {cells cells' : List String} (h : Advances level st st' cells)
    (h' : Advances level st' st'' cells') : Advances level st st'' (cells ++ cells') := by
  have hseen : st'.seen = st.seen := by rw [Walk.seen, Walk.seen, h.nodes]
  refine ⟨h'.nodes.trans h.nodes, ?_, ?_⟩
  · rw [h'.queue, h.queue, hseen, List.filter_append, List.map_append, List.append_assoc]
  · have hsplit : (∃ cell ∈ cells ++ cells', cell ∈ st.seen) ↔
        (∃ cell ∈ cells, cell ∈ st.seen) ∨ ∃ cell ∈ cells', cell ∈ st.seen := by
      simp only [List.mem_append, or_and_right, exists_or]
    rw [h'.stopped, h.stopped, hseen]
    by_cases hnew : ∃ cell ∈ cells', cell ∈ st.seen
    · rw [if_pos hnew, if_pos (hsplit.mpr (.inr hnew))]
    · rw [if_neg hnew]
      by_cases hold : ∃ cell ∈ cells, cell ∈ st.seen
      · rw [if_pos hold, if_pos (hsplit.mpr (.inl hold))]
      · rw [if_neg hold, if_neg fun h => (hsplit.mp h).elim hold hnew]

theorem advances_follow (level : ℕ) (st : Walk) (cell : String) :
    Advances level st (follow level st cell) [cell] := by
  unfold follow
  split_ifs with hseen
  · exact ⟨rfl, by simp [hseen], by simp [hseen]⟩
  · exact ⟨rfl, by simp [hseen], by simp [hseen]⟩

theorem advances_foldl {β : Type} {f : Expanding → β → Expanding} {cells : β → List String}
    (hstep : ∀ st b, Advances level st.1 (f st b).1 (cells b)) (items : List β) (st : Expanding) :
    Advances level st.1 (items.foldl f st).1 (items.flatMap cells) := by
  induction items generalizing st with
  | nil => exact advances_nil rfl rfl rfl
  | cons b items ih => exact (hstep st b).trans (ih _)

theorem advances_follows (level : ℕ) (cells : List String) (st : Walk) :
    Advances level st (cells.foldl (follow level) st) cells := by
  induction cells generalizing st with
  | nil => exact advances_nil rfl rfl rfl
  | cons cell cells ih => exact (advances_follow level st cell).trans (ih _)

theorem advances_emit (level : ℕ) (st : Expanding) (out : TraceEdge) :
    Advances level st.1 (emit st out).1 [] := by
  unfold emit
  split_ifs <;> exact advances_nil rfl rfl rfl

theorem advances_followCell (level : ℕ) (edge : CellEdge) (st : Expanding) (cell : String) :
    Advances level st.1 (followCell files level edge st cell).1 (filledNext files cell) := by
  unfold followCell filledNext
  dsimp only
  split_ifs
  · exact advances_emit level st _
  · exact (advances_emit level st _).trans (advances_follow level _ cell)

theorem advances_followEdge (level : ℕ) (st : Expanding) (edge : CellEdge) :
    Advances level st.1 (followEdge text files query level st edge).1
      (edgeNext text files query edge) := by
  unfold followEdge edgeNext
  cases query.direction with
  | dependents => exact advances_followCell level edge st _
  | precedents =>
    cases get edge.target (nodesById text files) with
    | none => exact advances_followCell level edge st _
    | some node =>
      dsimp only
      cases hasCells text files node with
      | false => exact advances_nil rfl rfl rfl
      | true => exact (advances_emit level st _).trans (advances_follows level _ _)

theorem advances_followReader (current : String) (level : ℕ) (st : Expanding)
    (reader : CellEdge × String) :
    Advances level st.1 (followReader text files current level st reader).1 [reader.2] := by
  exact (advances_emit level st _).trans (advances_follow level _ reader.2)

theorem advances_expand (node : String) (level : ℕ) (st : Walk) :
    Advances level st (expand text files query node level st) (followed text files query node) := by
  have hreaders : (readersOf text files query node).map Prod.snd =
      (readersOf text files query node).flatMap fun reader => [reader.2] := by
    rw [← List.map_eq_flatMap]
  unfold expand followed
  rw [hreaders]
  exact (advances_foldl (advances_followEdge level) _ (st, [])).trans
    (advances_foldl (advances_followReader node level) _ _)

section Step

/-- The next turn finds a cell that is seen. -/
def MeetsSeen (text : GraphText) (files : Files) (query : Query) (st : Walk) : Prop :=
  st.search.Meets (nextCells text files query)

/-- The next turn ends at an input. -/
def StopsAtInput (text : GraphText) (files : Files) (query : Query) (st : Walk) : Prop :=
  ∃ node level rest, st.queue = (node, level) :: rest ∧ node ∉ st.seen ∧
    isInput text files query node = true ∧ 0 < level

/-- What one turn does to the search and to the verdict. -/
structure Turn (text : GraphText) (files : Files) (query : Query) (st st' : Walk) : Prop where
  search : st'.search = st.search.step (nextCells text files query)
  cycle : MeetsSeen text files query st → st'.stopped = some .cycle
  input : StopsAtInput text files query st → st'.stopped = some .input
  other : ¬MeetsSeen text files query st → ¬StopsAtInput text files query st →
    st'.stopped = st.stopped

theorem search_stop (st : Walk) (node : String) (level : ℕ) (rest : List (String × ℕ))
    {st' : Walk} (hnodes : st'.nodes = st.nodes ++ [traceNode text files node level])
    {cells : List String} (hcells : nextCells text files query node level = cells)
    (hqueue : st'.queue = rest ++
      (cells.filter fun cell => cell ∉ st.seen ++ [node]).map (·, level + 1)) :
    st'.search = st.search.visit (nextCells text files query) node level rest := by
  rw [Walk.search, Search.visit, hcells, hnodes, hqueue, List.map_append, seen_search]
  rfl

theorem turn_of_seen {node : String} {rest : List (String × ℕ)}
    (hqueue : st.queue = (node, level) :: rest) (hnode : node ∈ st.seen) :
    Turn text files query st (st.step text files query) := by
  have hstep : st.step text files query = { st with queue := rest, stopped := some .cycle } := by
    unfold Walk.step
    simp only [hqueue]
    exact if_pos hnode
  have hmeets : MeetsSeen text files query st :=
    ⟨node, level, rest, hqueue, .inl (seen_search ▸ hnode)⟩
  rw [hstep]
  refine ⟨?_, fun _ => rfl, ?_, fun hnot => absurd hmeets hnot⟩
  · rw [Search.step_of_seen hqueue (seen_search ▸ hnode)]
    rfl
  · rintro ⟨other, _, _, hqueue', hother, -⟩
    rw [hqueue] at hqueue'
    obtain ⟨rfl, -⟩ := Prod.mk.inj (List.cons.inj hqueue').1
    exact absurd hnode hother

theorem turn_of_new {node : String} {rest : List (String × ℕ)}
    (hqueue : st.queue = (node, level) :: rest) (hnode : node ∉ st.seen) :
    Turn text files query st (st.step text files query) := by
  have hnew : node ∉ st.search.seen := seen_search ▸ hnode
  have hmeets : MeetsSeen text files query st ↔
      ∃ cell ∈ nextCells text files query node level, cell ∈ st.seen ++ [node] := by
    constructor
    · rintro ⟨other, l, rest', hqueue', hfound⟩
      obtain ⟨heq, -⟩ := List.cons.inj (hqueue.symm.trans hqueue')
      obtain ⟨rfl, rfl⟩ := Prod.mk.inj heq
      rw [seen_search] at hfound
      exact hfound.resolve_left hnode
    · intro hfound
      exact ⟨node, level, rest, hqueue, .inr (by rwa [seen_search])⟩
  have hstops : StopsAtInput text files query st ↔
      (isInput text files query node && decide (0 < level)) = true := by
    rw [Bool.and_eq_true_iff, decide_eq_true_eq]
    constructor
    · rintro ⟨other, l, rest', hqueue', -, hinput⟩
      obtain ⟨heq, -⟩ := List.cons.inj (hqueue.symm.trans hqueue')
      obtain ⟨rfl, rfl⟩ := Prod.mk.inj heq
      exact hinput
    · exact fun hinput => ⟨node, level, rest, hqueue, hnode, hinput⟩
  let st₁ : Walk :=
    { st with queue := rest, nodes := st.nodes ++ [traceNode text files node level] }
  have hseen : st₁.seen = st.seen ++ [node] := by
    simp only [st₁, Walk.seen, List.map_append, List.map_cons, List.map_nil, traceNode]
  have hstep : st.step text files query =
      if isInput text files query node && decide (0 < level) then
        { st₁ with stopped := some .input }
      else if depthOf query ≤ level then
        if outgoing files query node = [] ∧ readersOf text files query node = [] then st₁
        else { st₁ with hitDepth := true }
      else expand text files query node level st₁ := by
    unfold Walk.step
    simp only [hqueue]
    exact if_neg hnode
  by_cases hinput : (isInput text files query node && decide (0 < level)) = true
  · have hcells : nextCells text files query node level = [] := if_pos hinput
    rw [hstep, if_pos hinput]
    refine ⟨?_, fun hfound => ?_, fun _ => rfl, fun _ hnot => absurd (hstops.mpr hinput) hnot⟩
    · rw [Search.step_of_new hqueue hnew]
      exact search_stop st node level rest rfl hcells (by simp [st₁])
    · rw [hmeets, hcells] at hfound
      obtain ⟨cell, hcell, -⟩ := hfound
      cases hcell
  · rw [hstep, if_neg hinput]
    by_cases hdepth : depthOf query ≤ level
    · have hcells : nextCells text files query node level = [] := by
        rw [nextCells, if_neg hinput, if_pos hdepth]
      rw [if_pos hdepth]
      refine ⟨?_, fun hfound => ?_, fun hstop => absurd (hstops.mp hstop) hinput, fun _ _ => ?_⟩
      · rw [Search.step_of_new hqueue hnew]
        apply search_stop st node level rest _ hcells <;> split_ifs <;> simp [st₁]
      · rw [hmeets, hcells] at hfound
        obtain ⟨cell, hcell, -⟩ := hfound
        cases hcell
      · split_ifs <;> rfl
    · have hcells : nextCells text files query node level = followed text files query node := by
        rw [nextCells, if_neg hinput, if_neg hdepth]
      have hadvances : Advances level st₁ (expand text files query node level st₁)
          (followed text files query node) := advances_expand node level st₁
      rw [if_neg hdepth]
      refine ⟨?_, fun hfound => ?_, fun hstop => absurd (hstops.mp hstop) hinput, fun hnot _ => ?_⟩
      · rw [Search.step_of_new hqueue hnew]
        exact search_stop st node level rest hadvances.nodes hcells
          (by rw [hadvances.queue, hseen])
      · rw [hmeets, hcells, ← hseen] at hfound
        rw [hadvances.stopped, if_pos hfound]
      · rw [hmeets, hcells, ← hseen] at hnot
        rw [hadvances.stopped, if_neg hnot]

theorem turn_step (st : Walk) : Turn text files query st (st.step text files query) := by
  match hqueue : st.queue with
  | [] =>
    have hstep : st.step text files query = st := by
      unfold Walk.step
      simp only [hqueue]
    rw [hstep]
    refine ⟨(Search.step_of_empty hqueue).symm, ?_, ?_, fun _ _ => rfl⟩
    · rintro ⟨_, _, _, hqueue', -⟩
      exact absurd (hqueue.symm.trans hqueue') (by simp)
    · rintro ⟨_, _, _, hqueue', -⟩
      exact absurd (hqueue.symm.trans hqueue') (by simp)
  | (node, level) :: rest =>
    by_cases hnode : node ∈ st.seen
    · exact turn_of_seen hqueue hnode
    · exact turn_of_new hqueue hnode

end Step

section Runs

variable (text files query)

theorem walk_succ (n : ℕ) :
    walk text files query (n + 1) = (walk text files query n).step text files query :=
  Function.iterate_succ_apply' _ _ _

theorem search_walk (n : ℕ) : (walk text files query n).search =
    Search.run (nextCells text files query) (startNodes text files query) n := by
  induction n with
  | zero => rfl
  | succ n ih => rw [walk_succ, (turn_step _).search, ih, Search.run_succ]

theorem nextCells_of_deep (node : String) (level : ℕ) (hlevel : depthOf query ≤ level) :
    nextCells text files query node level = [] := by
  rw [nextCells, if_pos hlevel, ite_self]

theorem walk_ends : ∃ n, (walk text files query n).queue = [] := by
  obtain ⟨n, hn⟩ := Search.run_ends (nextCells_of_deep text files query)
    (startNodes text files query)
  rw [← search_walk] at hn
  exact ⟨n, hn⟩

def traceGraph : TraceDocument :=
  document text files query (walk text files query (Nat.find (walk_ends text files query)))

variable {text files query}

theorem walk_of_ended {n m : ℕ} (hend : (walk text files query n).queue = []) (h : n ≤ m) :
    walk text files query m = walk text files query n := by
  induction m, h using Nat.le_induction with
  | base => rfl
  | succ m h ih =>
    rw [walk_succ, ih]
    unfold Walk.step
    simp only [hend]

theorem traceGraph_eq {n : ℕ} (hend : (walk text files query n).queue = []) :
    traceGraph text files query = document text files query (walk text files query n) := by
  rw [traceGraph, ← walk_of_ended (Nat.find_spec (walk_ends text files query))
    (Nat.find_min' (walk_ends text files query) hend)]

end Runs

section Graph

variable (text files query)

/-- The walk goes on from `u` to `v`, unless it is too deep. -/
def Leads (u v : String) : Prop :=
  v ∈ followed text files query u ∧
    (u ∈ startNodes text files query ∨ isInput text files query u = false)

/-- The cells `n` steps from the origin, and no fewer. -/
abbrev CellDistance (n : ℕ) (v : String) : Prop :=
  Distance (Leads text files query) (startNodes text files query) n v

theorem follows : Search.Follows (nextCells text files query) (Leads text files query)
    (startNodes text files query) (depthOf query) where
  deep := nextCells_of_deep text files query
  edges := by
    intro u level hdistance hlevel v
    have hstart : u ∈ startNodes text files query ↔ level = 0 := by
      constructor
      · intro hu
        have hle := hdistance.2 0 (.start hu)
        omega
      · rintro rfl
        cases hdistance.1 with
        | start hu => exact hu
    unfold nextCells Leads
    rw [if_neg (by omega : ¬depthOf query ≤ level), hstart]
    cases isInput text files query u with
    | false => simp
    | true =>
      by_cases hzero : level = 0
      · simp [hzero]
      · have hpos : 0 < level := by omega
        simp [hpos, hzero]

theorem trace_nodes {n : ℕ} (hend : (walk text files query n).queue = []) :
    (traceGraph text files query).nodes = (walk text files query n).nodes := by
  rw [traceGraph_eq hend, document]
  by_cases hstarts : startNodes text files query = []
  · rw [if_pos hstarts]
    have hzero : (walk text files query 0).queue = [] := by
      simp [walk, hstarts]
    rw [walk_of_ended hzero (Nat.zero_le n)]
    rfl
  · rw [if_neg hstarts]

theorem trace_lists : ((traceGraph text files query).nodes.map (·.nodeId)).Nodup ∧
    ∀ v d, (∃ node ∈ (traceGraph text files query).nodes, node.nodeId = v ∧ node.depth = d) ↔
      CellDistance text files query d v ∧ d ≤ depthOf query := by
  obtain ⟨n, hend⟩ := walk_ends text files query
  have hsearch := search_walk text files query n
  have hstop : (Search.run (nextCells text files query) (startNodes text files query) n).queue =
      [] := by
    rw [← hsearch]
    exact hend
  rw [trace_nodes text files query hend]
  constructor
  · have hnodup := (Search.inv_run (follows text files query) n).nodup
    rwa [← hsearch, seen_search] at hnodup
  · intro v d
    rw [← Search.mem_visited_iff (follows text files query) hstop, ← hsearch]
    simp only [Walk.search, List.mem_map, Prod.mk.injEq]

end Graph

end FinanceContext.Trace
