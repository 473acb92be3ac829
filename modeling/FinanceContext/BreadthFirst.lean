import FinanceContext.FirstOccurrences
import Mathlib.Data.List.MinMax
import Mathlib.Data.List.Nodup
import Mathlib.Data.List.Pairwise
import Mathlib.Data.List.Perm.Subperm
import Mathlib.Logic.Function.Iterate
import Mathlib.Logic.Relation
import Mathlib.Data.Nat.Find
import Mathlib.Data.Nat.Init
import Mathlib.Order.Nat

/-!
A search with a queue of nodes and levels that skips what it has visited: it visits every node
once, at its distance, and a node that is met again shows in the list of all arrivals.
-/

namespace FinanceContext.BreadthFirst

open FirstOccurrences

variable {α : Type}

/-- What is reached from the starts by `n` edges. -/
inductive Path (edge : α → α → Prop) (starts : List α) : ℕ → α → Prop
  | start {s : α} : s ∈ starts → Path edge starts 0 s
  | step {n : ℕ} {u v : α} : Path edge starts n u → edge u v → Path edge starts (n + 1) v

def Distance (edge : α → α → Prop) (starts : List α) (n : ℕ) (v : α) : Prop :=
  Path edge starts n v ∧ ∀ m, Path edge starts m v → n ≤ m

variable {edge : α → α → Prop} {starts : List α} {n m : ℕ} {u v : α}

theorem Distance.unique (h : Distance edge starts n v) (h' : Distance edge starts m v) : n = m :=
  le_antisymm (h.2 m h'.1) (h'.2 n h.1)

theorem Distance.exists_edge (h : Distance edge starts (n + 1) v) :
    ∃ u, Distance edge starts n u ∧ edge u v := by
  obtain ⟨hpath, hleast⟩ := h
  cases hpath with
  | @step n u v hpath hedge =>
    refine ⟨u, ⟨hpath, fun m hm => ?_⟩, hedge⟩
    have hle := hleast (m + 1) (hm.step hedge)
    omega

theorem Path.exists_distance (h : Path edge starts n v) :
    ∃ m ≤ n, Distance edge starts m v := by
  classical
  have hex : ∃ m, Path edge starts m v := ⟨n, h⟩
  exact ⟨Nat.find hex, Nat.find_min' hex h, Nat.find_spec hex, fun m hm => Nat.find_min' hex hm⟩

/-- The visited nodes with their levels, and the nodes to come. -/
structure Search (α : Type) where
  visited : List (α × ℕ) := []
  queue : List (α × ℕ)

namespace Search

def seen (st : Search α) : List α := st.visited.map Prod.fst

variable [DecidableEq α] (next : α → ℕ → List α)

def visit (st : Search α) (node : α) (level : ℕ) (rest : List (α × ℕ)) : Search α where
  visited := st.visited ++ [(node, level)]
  queue := rest ++ ((next node level).filter fun other => other ∉ st.seen ++ [node]).map (·, level + 1)

def step (st : Search α) : Search α :=
  match st.queue with
  | [] => st
  | (node, level) :: rest =>
    if node ∈ st.seen then { st with queue := rest } else st.visit next node level rest

def run (starts : List α) (n : ℕ) : Search α := (step next)^[n] { queue := starts.map (·, 0) }

variable {next} {st : Search α} {node : α} {level depth : ℕ} {rest : List (α × ℕ)}

theorem seen_visit : (st.visit next node level rest).seen = st.seen ++ [node] := by
  simp [visit, seen]

omit [DecidableEq α] in
theorem mem_seen : v ∈ st.seen ↔ ∃ n, (v, n) ∈ st.visited := by
  simp [seen]

theorem step_of_seen (hqueue : st.queue = (node, level) :: rest) (hnode : node ∈ st.seen) :
    st.step next = { st with queue := rest } := by
  simp only [step, hqueue, if_pos hnode]

theorem step_of_new (hqueue : st.queue = (node, level) :: rest) (hnode : node ∉ st.seen) :
    st.step next = st.visit next node level rest := by
  simp only [step, hqueue, if_neg hnode]

theorem step_of_empty (hqueue : st.queue = []) : st.step next = st := by
  simp only [step, hqueue]

theorem run_succ (starts : List α) (n : ℕ) :
    run next starts (n + 1) = (run next starts n).step next :=
  Function.iterate_succ_apply' _ _ _

section Ending

theorem ends_of_deep (hdeep : ∀ u l, depth ≤ l → next u l = []) (queue : List (α × ℕ)) :
    ∀ visited, (∀ entry ∈ queue, depth ≤ entry.2) →
      ∃ n, ((step next)^[n] ⟨visited, queue⟩).queue = [] := by
  induction queue with
  | nil => exact fun visited _ => ⟨0, rfl⟩
  | cons entry queue ih =>
    obtain ⟨node, level⟩ := entry
    intro visited hlevels
    obtain ⟨hlevel, hrest⟩ := List.forall_mem_cons.mp hlevels
    by_cases hnode : node ∈ (Search.mk visited ((node, level) :: queue)).seen
    · obtain ⟨n, hn⟩ := ih visited hrest
      refine ⟨n + 1, ?_⟩
      rw [Function.iterate_succ_apply, step_of_seen rfl hnode]
      exact hn
    · obtain ⟨n, hn⟩ := ih (visited ++ [(node, level)]) hrest
      refine ⟨n + 1, ?_⟩
      rw [Function.iterate_succ_apply, step_of_new rfl hnode, visit, hdeep node level hlevel]
      simpa using hn

theorem ends_of_levels (hdeep : ∀ u l, depth ≤ l → next u l = []) (remaining : ℕ) :
    ∀ level, depth ≤ level + remaining → ∀ visited nodes later : List _, ∃ n,
      ((step next)^[n] ⟨visited, nodes.map (·, level) ++ later.map (·, level + 1)⟩).queue = [] := by
  induction remaining with
  | zero =>
    intro level hlevel visited nodes later
    apply ends_of_deep hdeep
    intro entry hentry
    rcases List.mem_append.mp hentry with hentry | hentry
    · obtain ⟨node, -, rfl⟩ := List.mem_map.mp hentry
      exact hlevel
    · obtain ⟨node, -, rfl⟩ := List.mem_map.mp hentry
      simp only
      omega
  | succ remaining ih =>
    intro level hlevel visited nodes
    induction nodes generalizing visited with
    | nil =>
      intro later
      obtain ⟨n, hn⟩ := ih (level + 1) (by omega) visited later []
      exact ⟨n, by simpa using hn⟩
    | cons node nodes ihNodes =>
      intro later
      by_cases hnode : node ∈ (Search.mk visited
          ((node :: nodes).map (·, level) ++ later.map (·, level + 1))).seen
      · obtain ⟨n, hn⟩ := ihNodes visited later
        refine ⟨n + 1, ?_⟩
        rw [Function.iterate_succ_apply, step_of_seen rfl hnode]
        exact hn
      · obtain ⟨n, hn⟩ := ihNodes (visited ++ [(node, level)]) (later ++
          (next node level).filter fun other => other ∉ (Search.mk visited
            ((node :: nodes).map (·, level) ++ later.map (·, level + 1))).seen ++ [node])
        refine ⟨n + 1, ?_⟩
        rw [Function.iterate_succ_apply, step_of_new rfl hnode, visit]
        simpa using hn

theorem run_ends (hdeep : ∀ u l, depth ≤ l → next u l = []) (starts : List α) :
    ∃ n, (run next starts n).queue = [] := by
  obtain ⟨n, hn⟩ := ends_of_levels hdeep depth 0 (by omega) [] starts []
  exact ⟨n, by simpa [run] using hn⟩

theorem iterate_of_ended (hend : ((step next)^[n] st).queue = []) (h : n ≤ m) :
    (step next)^[m] st = (step next)^[n] st := by
  induction m, h using Nat.le_induction with
  | base => rfl
  | succ m h ih => rw [Function.iterate_succ_apply', ih, step_of_empty hend]

theorem run_of_ended (hend : (run next starts n).queue = []) (h : n ≤ m) :
    run next starts m = run next starts n := iterate_of_ended hend h

end Ending

section Distances

/-- The search follows the edges of a node at its distance, up to a depth. -/
structure Follows (next : α → ℕ → List α) (edge : α → α → Prop) (starts : List α) (depth : ℕ) :
    Prop where
  deep : ∀ u l, depth ≤ l → next u l = []
  edges : ∀ u l, Distance edge starts l u → l < depth → ∀ v, v ∈ next u l ↔ edge u v

/-- The visited nodes have their distance; what is not visited is behind the queue. -/
structure Inv (edge : α → α → Prop) (starts : List α) (depth : ℕ) (st : Search α) : Prop where
  sorted : st.queue.Pairwise fun a b => a.2 ≤ b.2
  near : ∀ first ∈ st.queue.head?, ∀ entry ∈ st.queue, entry.2 ≤ first.2 + 1
  nodup : st.seen.Nodup
  exact : ∀ v n, (v, n) ∈ st.visited → Distance edge starts n v ∧ n ≤ depth
  paths : ∀ v n, (v, n) ∈ st.queue → Path edge starts n v ∧ n ≤ depth
  starts : ∀ s ∈ starts, s ∈ st.seen ∨ (s, 0) ∈ st.queue
  closed : ∀ u n v, (u, n) ∈ st.visited → n < depth → edge u v →
    v ∈ st.seen ∨ ∃ m ≤ n + 1, (v, m) ∈ st.queue

omit [DecidableEq α] in
theorem inv_start : Inv edge starts depth { queue := starts.map (·, 0) } where
  sorted := List.Pairwise.map _ (fun _ _ _ => le_refl 0) (List.pairwise_of_forall fun _ _ => trivial)
  near := by
    intro first _ entry hentry
    obtain ⟨s, -, rfl⟩ := List.mem_map.mp hentry
    omega
  nodup := List.nodup_nil
  exact := fun _ _ h => absurd h List.not_mem_nil
  paths := by
    intro v n h
    obtain ⟨s, hs, heq⟩ := List.mem_map.mp h
    obtain ⟨rfl, rfl⟩ := Prod.mk.inj heq
    exact ⟨.start hs, Nat.zero_le _⟩
  starts := fun s hs => .inr (List.mem_map_of_mem hs)
  closed := fun _ _ _ h => absurd h List.not_mem_nil

omit [DecidableEq α] in
theorem Inv.pending (hinv : Inv edge starts depth st) (hpath : Path edge starts n v)
    (hn : n ≤ depth) : v ∈ st.seen ∨ ∃ w, ∃ m ≤ n, (w, m) ∈ st.queue := by
  induction hpath with
  | start hs =>
    rcases hinv.starts _ hs with hseen | hqueue
    · exact .inl hseen
    · exact .inr ⟨_, 0, le_refl 0, hqueue⟩
  | @step n u v hpath hedge ih =>
    rcases ih (by omega) with hseen | ⟨w, m, hm, hqueue⟩
    · obtain ⟨k, hk⟩ := mem_seen.mp hseen
      have hle := (hinv.exact u k hk).1.2 n hpath
      rcases hinv.closed u k v hk (by omega) hedge with hv | ⟨m, hm, hqueue⟩
      · exact .inl hv
      · exact .inr ⟨v, m, by omega, hqueue⟩
    · exact .inr ⟨w, m, by omega, hqueue⟩

omit [DecidableEq α] in
theorem Inv.distance (hinv : Inv edge starts depth st)
    (hqueue : st.queue = (node, level) :: rest) (hnode : node ∉ st.seen) :
    Distance edge starts level node ∧ level ≤ depth := by
  obtain ⟨hpath, hlevel⟩ := hinv.paths node level (hqueue ▸ List.mem_cons_self)
  refine ⟨⟨hpath, fun m hm => ?_⟩, hlevel⟩
  by_contra hlt
  rcases hinv.pending hm (by omega) with hseen | ⟨w, k, hk, hentry⟩
  · exact hnode hseen
  · have hsorted := hinv.sorted
    rw [hqueue, List.pairwise_cons] at hsorted
    rw [hqueue] at hentry
    rcases List.mem_cons.mp hentry with heq | hrest
    · obtain ⟨-, rfl⟩ := Prod.mk.inj heq
      omega
    · have hle := hsorted.1 _ hrest
      simp only at hle
      omega

omit [DecidableEq α] in
theorem near_rest (hinv : Inv edge starts depth st) (hqueue : st.queue = (node, level) :: rest) :
    ∀ first ∈ rest.head?, level ≤ first.2 ∧ ∀ entry ∈ rest, entry.2 ≤ level + 1 := by
  intro first hfirst
  have hsorted := hinv.sorted
  have hnear := hinv.near
  rw [hqueue] at hsorted hnear
  refine ⟨(List.pairwise_cons.mp hsorted).1 first (List.mem_of_mem_head? hfirst), ?_⟩
  exact fun entry hentry => hnear _ rfl entry (List.mem_cons_of_mem _ hentry)

omit [DecidableEq α] in
theorem Inv.drop (hinv : Inv edge starts depth st) (hqueue : st.queue = (node, level) :: rest)
    (hnode : node ∈ st.seen) : Inv edge starts depth { st with queue := rest } where
  sorted := by
    have hsorted := hinv.sorted
    rw [hqueue] at hsorted
    exact (List.pairwise_cons.mp hsorted).2
  near := by
    intro first hfirst entry hentry
    obtain ⟨hle, hnear⟩ := near_rest hinv hqueue first hfirst
    have hentry := hnear entry hentry
    omega
  nodup := hinv.nodup
  exact := hinv.exact
  paths := fun v n h => hinv.paths v n (hqueue ▸ List.mem_cons_of_mem _ h)
  starts := by
    intro s hs
    rcases hinv.starts s hs with hseen | hentry
    · exact .inl hseen
    · rw [hqueue] at hentry
      rcases List.mem_cons.mp hentry with heq | hrest
      · obtain ⟨rfl, -⟩ := Prod.mk.inj heq
        exact .inl hnode
      · exact .inr hrest
  closed := by
    intro u n v hu hn hedge
    rcases hinv.closed u n v hu hn hedge with hseen | ⟨m, hm, hentry⟩
    · exact .inl hseen
    · rw [hqueue] at hentry
      rcases List.mem_cons.mp hentry with heq | hrest
      · obtain ⟨rfl, -⟩ := Prod.mk.inj heq
        exact .inl hnode
      · exact .inr ⟨m, hm, hrest⟩

theorem mem_queue_visit {entry : α × ℕ} : entry ∈ (st.visit next node level rest).queue ↔
    entry ∈ rest ∨ entry.1 ∈ next node level ∧ entry.1 ∉ st.seen ++ [node] ∧
      entry.2 = level + 1 := by
  obtain ⟨v, n⟩ := entry
  simp only [visit, List.mem_append, List.mem_map, List.mem_filter, decide_eq_true_eq,
    Prod.mk.injEq]
  constructor
  · rintro (hrest | ⟨w, ⟨hnext, hnew⟩, rfl, rfl⟩)
    · exact .inl hrest
    · exact .inr ⟨hnext, hnew, rfl⟩
  · rintro (hrest | ⟨hnext, hnew, rfl⟩)
    · exact .inl hrest
    · exact .inr ⟨v, ⟨hnext, hnew⟩, rfl, rfl⟩

theorem seen_or_waiting_visit {entry : α × ℕ} (hqueue : st.queue = (node, level) :: rest)
    (hentry : entry ∈ st.queue) : entry.1 ∈ (st.visit next node level rest).seen ∨
      entry ∈ (st.visit next node level rest).queue := by
  rw [hqueue] at hentry
  rcases List.mem_cons.mp hentry with rfl | hold
  · exact .inl (by simp [seen_visit])
  · exact .inr (mem_queue_visit.mpr (.inl hold))

theorem Inv.visit (hfollows : Follows next edge starts depth) (hinv : Inv edge starts depth st)
    (hqueue : st.queue = (node, level) :: rest) (hnode : node ∉ st.seen) :
    Inv edge starts depth (st.visit next node level rest) := by
  obtain ⟨hdistance, hlevel⟩ := hinv.distance hqueue hnode
  have hsorted := hinv.sorted
  rw [hqueue, List.pairwise_cons] at hsorted
  have hnear := hinv.near
  rw [hqueue] at hnear
  have hrest : ∀ entry ∈ rest, level ≤ entry.2 ∧ entry.2 ≤ level + 1 := fun entry hentry =>
    ⟨hsorted.1 entry hentry, hnear _ rfl entry (List.mem_cons_of_mem _ hentry)⟩
  have hbounds : ∀ entry ∈ (st.visit next node level rest).queue,
      level ≤ entry.2 ∧ entry.2 ≤ level + 1 := by
    intro entry hentry
    rcases mem_queue_visit.mp hentry with hold | ⟨-, -, hnew⟩
    · exact hrest entry hold
    · omega
  refine ⟨?_, ?_, ?_, ?_, ?_, ?_, ?_⟩
  · apply List.pairwise_append.mpr
    refine ⟨hsorted.2, ?_, ?_⟩
    · exact List.Pairwise.map _ (fun _ _ _ => le_refl _) (List.pairwise_of_forall fun _ _ => trivial)
    · intro entry hentry later hlater
      obtain ⟨v, -, rfl⟩ := List.mem_map.mp hlater
      exact (hrest entry hentry).2
  · intro first hfirst entry hentry
    have hlow := (hbounds first (List.mem_of_mem_head? hfirst)).1
    have hhigh := (hbounds entry hentry).2
    omega
  · rw [seen_visit]
    exact List.nodup_append.mpr ⟨hinv.nodup, List.nodup_singleton _, by
      rintro a ha b hb rfl
      exact hnode (List.mem_singleton.mp hb ▸ ha)⟩
  · intro v n hv
    rcases List.mem_append.mp hv with hold | hnew
    · exact hinv.exact v n hold
    · obtain ⟨rfl, rfl⟩ := Prod.mk.inj (List.mem_singleton.mp hnew)
      exact ⟨hdistance, hlevel⟩
  · intro v n hv
    rcases mem_queue_visit.mp hv with hold | ⟨hnext, -, hn⟩
    · exact hinv.paths v n (hqueue ▸ List.mem_cons_of_mem _ hold)
    · simp only at hn hnext
      have hlt : level < depth := by
        by_contra hge
        rw [hfollows.deep node level (by omega)] at hnext
        cases hnext
      rw [hn]
      exact ⟨hdistance.1.step ((hfollows.edges node level hdistance hlt v).mp hnext), hlt⟩
  · intro s hs
    rcases hinv.starts s hs with hseen | hentry
    · rw [seen_visit]
      exact .inl (List.mem_append_left _ hseen)
    · exact seen_or_waiting_visit hqueue hentry
  · intro u n v hu hn hedge
    rcases List.mem_append.mp hu with hold | hnew
    · rcases hinv.closed u n v hold hn hedge with hseen | ⟨m, hm, hentry⟩
      · rw [seen_visit]
        exact .inl (List.mem_append_left _ hseen)
      · exact (seen_or_waiting_visit hqueue hentry).imp_right fun hwaiting => ⟨m, hm, hwaiting⟩
    · rw [seen_visit]
      obtain ⟨rfl, rfl⟩ := Prod.mk.inj (List.mem_singleton.mp hnew)
      by_cases hv : v ∈ st.seen ++ [u]
      · exact .inl hv
      · have hnext := (hfollows.edges u n hdistance hn v).mpr hedge
        exact .inr ⟨n + 1, le_refl _, mem_queue_visit.mpr (.inr ⟨hnext, hv, rfl⟩)⟩

theorem Inv.step (hfollows : Follows next edge starts depth) (hinv : Inv edge starts depth st) :
    Inv edge starts depth (st.step next) := by
  match hqueue : st.queue with
  | [] => rwa [step_of_empty hqueue]
  | (node, level) :: rest =>
    by_cases hnode : node ∈ st.seen
    · rw [step_of_seen hqueue hnode]
      exact hinv.drop hqueue hnode
    · rw [step_of_new hqueue hnode]
      exact hinv.visit hfollows hqueue hnode

theorem inv_run (hfollows : Follows next edge starts depth) (n : ℕ) :
    Inv edge starts depth (run next starts n) := by
  induction n with
  | zero => exact inv_start
  | succ n ih =>
    rw [run_succ]
    exact ih.step hfollows

theorem mem_visited_iff (hfollows : Follows next edge starts depth)
    (hend : (run next starts n).queue = []) :
    (v, m) ∈ (run next starts n).visited ↔ Distance edge starts m v ∧ m ≤ depth := by
  have hinv := inv_run hfollows n
  constructor
  · exact hinv.exact v m
  · rintro ⟨hdistance, hm⟩
    rcases hinv.pending hdistance.1 hm with hseen | ⟨w, k, -, hentry⟩
    · obtain ⟨k, hk⟩ := mem_seen.mp hseen
      rwa [hdistance.unique (hinv.exact v k hk).1]
    · rw [hend] at hentry
      cases hentry

end Distances

section Arrivals

def arrivals (next : α → ℕ → List α) (starts : List α) (st : Search α) : List α :=
  starts ++ st.visited.flatMap fun entry => next entry.1 entry.2

def waiting (st : Search α) : List α := st.seen ++ st.queue.map Prod.fst

def emitted (next : α → ℕ → List α) (st : Search α) : List α :=
  match st.queue with
  | [] => []
  | (node, level) :: _ => if node ∈ st.seen then [] else next node level

def emits (next : α → ℕ → List α) (st : Search α) : ℕ → List α
  | 0 => []
  | n + 1 => emits next st n ++ emitted next ((step next)^[n] st)

/-- The next step finds a node that is visited. -/
def Meets (next : α → ℕ → List α) (st : Search α) : Prop :=
  ∃ node level rest, st.queue = (node, level) :: rest ∧
    (node ∈ st.seen ∨ ∃ v ∈ next node level, v ∈ st.seen ++ [node])

def Walked (next : α → ℕ → List α) (st : Search α) (u v : α) : Prop :=
  ∃ level, (u, level) ∈ st.visited ∧ v ∈ next u level

theorem emitted_of_seen (hqueue : st.queue = (node, level) :: rest) (hnode : node ∈ st.seen) :
    st.emitted next = [] := by
  simp only [emitted, hqueue, if_pos hnode]

theorem emitted_of_new (hqueue : st.queue = (node, level) :: rest) (hnode : node ∉ st.seen) :
    st.emitted next = next node level := by
  simp only [emitted, hqueue, if_neg hnode]

theorem emitted_of_empty (hqueue : st.queue = []) : st.emitted next = [] := by
  simp only [emitted, hqueue]

theorem flatMap_step : (st.step next).visited.flatMap (fun entry => next entry.1 entry.2) =
    st.visited.flatMap (fun entry => next entry.1 entry.2) ++ st.emitted next := by
  match hqueue : st.queue with
  | [] => rw [step_of_empty hqueue, emitted_of_empty hqueue, List.append_nil]
  | (node, level) :: rest =>
    by_cases hnode : node ∈ st.seen
    · rw [step_of_seen hqueue hnode, emitted_of_seen hqueue hnode, List.append_nil]
    · rw [step_of_new hqueue hnode, emitted_of_new hqueue hnode, visit, List.flatMap_append,
        List.flatMap_singleton]

theorem flatMap_iterate (st : Search α) (n : ℕ) :
    ((step next)^[n] st).visited.flatMap (fun entry => next entry.1 entry.2) =
      st.visited.flatMap (fun entry => next entry.1 entry.2) ++ st.emits next n := by
  induction n with
  | zero => exact (List.append_nil _).symm
  | succ n ih => rw [Function.iterate_succ_apply', flatMap_step, ih, emits, List.append_assoc]

theorem waiting_visit (hqueue : st.queue = (node, level) :: rest) :
    (st.visit next node level rest).waiting =
      st.waiting ++ (next node level).filter fun other => other ∉ st.seen ++ [node] := by
  rw [waiting, waiting, seen_visit, hqueue]
  simp only [visit, List.map_append, List.map_map, Function.comp_def, List.map_id', List.map_cons,
    List.append_assoc, List.cons_append, List.nil_append]

variable {met : List α}

theorem subperm_step (h : st.waiting.Subperm met) :
    (st.step next).waiting.Subperm (met ++ st.emitted next) := by
  match hqueue : st.queue with
  | [] => rwa [step_of_empty hqueue, emitted_of_empty hqueue, List.append_nil]
  | (node, level) :: rest =>
    by_cases hnode : node ∈ st.seen
    · rw [step_of_seen hqueue hnode, emitted_of_seen hqueue hnode, List.append_nil]
      have hshort : ({ st with queue := rest } : Search α).waiting.Sublist st.waiting := by
        rw [waiting, waiting, hqueue, List.map_cons]
        exact (List.sublist_cons_self _ _).append_left _
      exact hshort.subperm.trans h
    · rw [step_of_new hqueue hnode, waiting_visit hqueue, emitted_of_new hqueue hnode]
      have hfront := (List.subperm_append_right ((next node level).filter fun other =>
        other ∉ st.seen ++ [node])).mpr h
      exact hfront.trans (List.filter_sublist.append_left _).subperm

theorem subperm_iterate (st : Search α) (n : ℕ) :
    ((step next)^[n] st).waiting.Subperm (st.waiting ++ st.emits next n) := by
  induction n with
  | zero => rw [emits, List.append_nil, Function.iterate_zero, id]
  | succ n ih =>
    rw [Function.iterate_succ_apply', emits, ← List.append_assoc]
    exact subperm_step ih

theorem perm_step (hmeets : ¬st.Meets next) (h : st.waiting.Perm met) :
    (st.step next).waiting.Perm (met ++ st.emitted next) := by
  match hqueue : st.queue with
  | [] => rwa [step_of_empty hqueue, emitted_of_empty hqueue, List.append_nil]
  | (node, level) :: rest =>
    have hnode : node ∉ st.seen := fun hseen => hmeets ⟨node, level, rest, hqueue, .inl hseen⟩
    have hnew : (next node level).filter (fun other => other ∉ st.seen ++ [node]) =
        next node level := by
      apply List.filter_eq_self.mpr
      intro v hv
      exact decide_eq_true fun hseen => hmeets ⟨node, level, rest, hqueue, .inr ⟨v, hv, hseen⟩⟩
    rw [step_of_new hqueue hnode, waiting_visit hqueue, emitted_of_new hqueue hnode, hnew]
    exact h.append_right _

theorem perm_iterate (hmeets : ∀ n, ¬((step next)^[n] st).Meets next) (n : ℕ) :
    ((step next)^[n] st).waiting.Perm (st.waiting ++ st.emits next n) := by
  induction n with
  | zero => rw [emits, List.append_nil, Function.iterate_zero, id]
  | succ n ih =>
    rw [Function.iterate_succ_apply', emits, ← List.append_assoc]
    exact perm_step (hmeets n) ih

theorem emits_sublist (st : Search α) (h : n ≤ m) :
    (st.emits next n).Sublist (st.emits next m) := by
  induction m, h using Nat.le_induction with
  | base => exact List.Sublist.refl _
  | succ m h ih => exact ih.trans (List.sublist_append_left _ _)

theorem not_nodup_of_meets (hmeets : st.Meets next) (h : st.waiting.Subperm met) :
    ¬(met ++ st.emitted next).Nodup := by
  obtain ⟨node, level, rest, hqueue, hfound⟩ := hmeets
  intro hnodup
  by_cases hnode : node ∈ st.seen
  · rw [emitted_of_seen hqueue hnode, List.append_nil] at hnodup
    obtain ⟨found, hperm, hsublist⟩ := h
    have hwaiting : st.waiting.Nodup := hperm.nodup_iff.mp (hnodup.sublist hsublist)
    rw [waiting, hqueue] at hwaiting
    exact (List.nodup_append.mp hwaiting).2.2 node hnode node (by simp) rfl
  · obtain ⟨v, hv, hseen⟩ := hfound.resolve_left hnode
    rw [emitted_of_new hqueue hnode] at hnodup
    have harrived : v ∈ met := by
      apply h.subset
      rw [waiting, hqueue]
      rcases List.mem_append.mp hseen with hold | hlast
      · exact List.mem_append_left _ hold
      · rw [List.mem_singleton.mp hlast]
        simp
    exact (List.nodup_append.mp hnodup).2.2 v harrived v hv rfl

omit [DecidableEq α] in
theorem not_meets_of_empty (hqueue : st.queue = []) : ¬st.Meets next := by
  rintro ⟨node, level, rest, hcons, -⟩
  rw [hqueue] at hcons
  cases hcons

theorem never_meets_iff (hend : ((step next)^[n] st).queue = [])
    (hseen : ((step next)^[n] st).seen.Nodup) :
    (∀ m, ¬((step next)^[m] st).Meets next) ↔ (st.waiting ++ st.emits next n).Nodup := by
  constructor
  · intro hmeets
    have hperm := perm_iterate hmeets n
    rw [waiting, hend, List.map_nil, List.append_nil] at hperm
    exact hperm.nodup_iff.mp hseen
  · intro hnodup m hmeets
    have hlt : m < n := by
      by_contra hge
      rw [iterate_of_ended hend (by omega)] at hmeets
      exact not_meets_of_empty hend hmeets
    apply not_nodup_of_meets hmeets (subperm_iterate st m)
    rw [List.append_assoc]
    exact hnodup.sublist ((emits_sublist st hlt).append_left _)

theorem exists_meets_iff (hfollows : Follows next edge starts depth)
    (hend : (run next starts n).queue = []) :
    (∃ m, (run next starts m).Meets next) ↔
      ¬(arrivals next starts (run next starts n)).Nodup := by
  have hstart : ({ queue := starts.map (·, 0) } : Search α).waiting = starts := by
    simp [waiting, seen, Function.comp_def]
  have hnever := never_meets_iff hend (inv_run hfollows n).nodup
  rw [hstart] at hnever
  have harrivals : arrivals next starts (run next starts n) =
      starts ++ ({ queue := starts.map (·, 0) } : Search α).emits next n := by
    rw [arrivals, run, flatMap_iterate]
    rfl
  rw [harrivals, ← hnever]
  simp only [not_forall, not_not, run]

theorem mem_visited_of_walked (hfollows : Follows next edge starts depth)
    (hend : (run next starts n).queue = [])
    (hnodup : (arrivals next starts (run next starts n)).Nodup)
    (hu : (u, m) ∈ (run next starts n).visited) (hv : v ∈ next u m) :
    (v, m + 1) ∈ (run next starts n).visited := by
  obtain ⟨hdistance, -⟩ := (mem_visited_iff hfollows hend).mp hu
  have hlt : m < depth := by
    by_contra hge
    rw [hfollows.deep u m (by omega)] at hv
    cases hv
  have hedge := (hfollows.edges u m hdistance hlt v).mp hv
  obtain ⟨hstarts, hflat, hdisjoint⟩ := List.nodup_append.mp hnodup
  have harrives : v ∈ (run next starts n).visited.flatMap fun entry => next entry.1 entry.2 :=
    List.mem_flatMap.mpr ⟨(u, m), hu, hv⟩
  obtain ⟨k, hk, hleast⟩ := (hdistance.1.step hedge).exists_distance
  cases k with
  | zero =>
    cases hleast.1 with
    | start hs => exact absurd rfl (hdisjoint v hs v harrives)
  | succ k =>
    obtain ⟨u', hdistance', hedge'⟩ := hleast.exists_edge
    have hu' := (mem_visited_iff hfollows hend).mpr ⟨hdistance', by omega⟩
    have hv' := (hfollows.edges u' k hdistance' (by omega) v).mpr hedge'
    have hsame : (u, m) = (u', k) := by
      by_contra hne
      have hsymm : Std.Symm (Function.onFun List.Disjoint
          fun entry : α × ℕ => next entry.1 entry.2) := ⟨fun a b h => List.disjoint_symm h⟩
      exact (List.nodup_flatMap.mp hflat).2.forall hu hu' hne hv hv'
    obtain ⟨-, rfl⟩ := Prod.mk.inj hsame
    exact (mem_visited_iff hfollows hend).mpr ⟨hleast, by omega⟩

theorem nodup_arrivals_iff (hseen : st.seen.Nodup) :
    (arrivals next starts st).Nodup ↔ starts.Nodup ∧
      (∀ entry ∈ st.visited, (next entry.1 entry.2).Nodup) ∧
      (∀ u v, st.Walked next u v → v ∉ starts) ∧
      ∀ u u' v, st.Walked next u v → st.Walked next u' v → u = u' := by
  have hvisited : st.visited.Nodup := hseen.of_map _
  have hsymm : Std.Symm (Function.onFun List.Disjoint
      fun entry : α × ℕ => next entry.1 entry.2) := ⟨fun a b h => List.disjoint_symm h⟩
  rw [arrivals, List.nodup_append, List.nodup_flatMap]
  constructor
  · rintro ⟨hstarts, ⟨honce, hapart⟩, hfresh⟩
    refine ⟨hstarts, honce, ?_, ?_⟩
    · rintro u v ⟨level, hu, hv⟩ hs
      exact hfresh v hs v (List.mem_flatMap.mpr ⟨_, hu, hv⟩) rfl
    · rintro u u' v ⟨level, hu, hv⟩ ⟨level', hu', hv'⟩
      by_contra hne
      have hentries : (u, level) ≠ (u', level') := fun h => hne (Prod.mk.inj h).1
      exact hapart.forall hu hu' hentries hv hv'
  · rintro ⟨hstarts, honce, hfresh, hone⟩
    refine ⟨hstarts, ⟨honce, ?_⟩, ?_⟩
    · apply hvisited.pairwise_of_forall_ne
      rintro ⟨u, level⟩ hu ⟨u', level'⟩ hu' hne v hv hv'
      apply hne
      obtain rfl := hone u u' v ⟨level, hu, hv⟩ ⟨level', hu', hv'⟩
      exact List.inj_on_of_nodup_map hseen hu hu' rfl
    · rintro a ha b hb rfl
      obtain ⟨⟨u, level⟩, hu, hv⟩ := List.mem_flatMap.mp hb
      exact hfresh u a ⟨level, hu, hv⟩ ha

theorem exists_deeper (hfollows : Follows next edge starts depth)
    (hend : (run next starts n).queue = [])
    (hnodup : (arrivals next starts (run next starts n)).Nodup)
    (hwalk : Relation.TransGen ((run next starts n).Walked next) u v)
    (hu : (u, m) ∈ (run next starts n).visited) :
    ∃ k, m < k ∧ (v, k) ∈ (run next starts n).visited := by
  have hlevel {w : α} {k l : ℕ} (hk : (w, k) ∈ (run next starts n).visited)
      (hl : (w, l) ∈ (run next starts n).visited) : k = l :=
    ((mem_visited_iff hfollows hend).mp hk).1.unique ((mem_visited_iff hfollows hend).mp hl).1
  induction hwalk with
  | single hstep =>
    obtain ⟨k, hk, hnext⟩ := hstep
    obtain rfl := hlevel hk hu
    exact ⟨k + 1, by omega, mem_visited_of_walked hfollows hend hnodup hk hnext⟩
  | tail _ hstep ih =>
    obtain ⟨k, hlt, hw⟩ := ih
    obtain ⟨l, hl, hnext⟩ := hstep
    obtain rfl := hlevel hl hw
    exact ⟨l + 1, by omega, mem_visited_of_walked hfollows hend hnodup hl hnext⟩

theorem not_nodup_of_cycle (hfollows : Follows next edge starts depth)
    (hend : (run next starts n).queue = [])
    (hcycle : ∃ v, Relation.TransGen ((run next starts n).Walked next) v v) :
    ¬(arrivals next starts (run next starts n)).Nodup := by
  intro hnodup
  obtain ⟨v, hcycle⟩ := hcycle
  obtain ⟨u, ⟨l, hl, -⟩, -⟩ := Relation.TransGen.head'_iff.mp hcycle
  obtain ⟨k, hlt, hk⟩ := exists_deeper hfollows hend hnodup hcycle hl
  have hsame := ((mem_visited_iff hfollows hend).mp hk).1.unique
    ((mem_visited_iff hfollows hend).mp hl).1
  omega

end Arrivals

section Listings

variable (next : α → ℕ → List α) (starts : List α)

def reads (listed : List (α × ℕ)) : List (α × ℕ) :=
  starts.map (·, 0) ++ listed.flatMap fun entry => (next entry.1 entry.2).map (·, entry.2 + 1)

/-- The nodes in breadth-first order: each stands where it is first led to. -/
def Listing (listed : List (α × ℕ)) : Prop := listed = firsts Prod.fst [] (reads next starts listed)

/-- What the nodes of a list lead to, without the nodes listed up to the one that leads there. -/
def onward (before : List α) : List (α × ℕ) → List (α × ℕ)
  | [] => []
  | (node, level) :: rest =>
    ((next node level).filter fun other => other ∉ before ++ [node]).map (·, level + 1) ++
      onward (before ++ [node]) rest

/-- From a listed node on nothing is met twice: not what waits behind it, put there by the nodes
in front of it, and not what it and the nodes after it lead to. -/
def FreshFrom (front : List (α × ℕ)) (entry : α × ℕ) (rest : List (α × ℕ)) : Prop :=
  ∃ passed behind, starts.map (·, 0) ++ onward next [] front = passed ++ entry :: behind ∧
    (∀ other ∈ passed, other.1 ≠ entry.1) ∧
    (front.map Prod.fst ++ entry.1 :: behind.map Prod.fst ++
      (entry :: rest).flatMap fun other => next other.1 other.2).Nodup

variable {next starts} {listed listed' front later : List (α × ℕ)} {entry : α × ℕ}

omit [DecidableEq α] in
theorem reads_append (listed later : List (α × ℕ)) : reads next starts (listed ++ later) =
    reads next starts listed ++
      later.flatMap fun entry => (next entry.1 entry.2).map (·, entry.2 + 1) := by
  rw [reads, reads, List.flatMap_append, List.append_assoc]

theorem firsts_step (h : firsts Prod.fst [] (st.visited ++ st.queue) =
      firsts Prod.fst [] (reads next starts st.visited)) :
    firsts Prod.fst [] ((st.step next).visited ++ (st.step next).queue) =
      firsts Prod.fst [] (reads next starts (st.step next).visited) := by
  match hqueue : st.queue with
  | [] => rwa [step_of_empty hqueue]
  | (node, level) :: rest =>
    rw [hqueue] at h
    by_cases hnode : node ∈ st.seen
    · rw [step_of_seen hqueue hnode, ← h]
      exact (firsts_append_of_mem hnode rest).symm
    · have hfilter : ((next node level).filter fun other => other ∉ st.seen ++ [node]).map
            (·, level + 1) =
          ((next node level).map (·, level + 1)).filter
            fun entry => entry.1 ∉ st.seen ++ [node] := by
        rw [List.filter_map]
        rfl
      have hknown : ∀ k ∈ st.seen ++ [node],
          k ∈ (st.visited ++ (node, level) :: rest).map Prod.fst := by
        intro k hk
        rw [List.map_append, List.map_cons]
        rcases List.mem_append.mp hk with hold | hlast
        · exact List.mem_append_left _ hold
        · rw [List.mem_singleton.mp hlast]
          simp
      have hchildren : ([(node, level)].flatMap fun entry =>
            (next entry.1 entry.2).map (·, entry.2 + 1)) = (next node level).map (·, level + 1) :=
        List.flatMap_singleton _ _
      rw [step_of_new hqueue hnode, visit, reads_append, hchildren, ← firsts_append_congr h,
        List.append_assoc, ← List.append_assoc [(node, level)], ← List.append_assoc, hfilter]
      exact firsts_append_filter hknown _

theorem firsts_run (n : ℕ) :
    firsts Prod.fst [] ((run next starts n).visited ++ (run next starts n).queue) =
      firsts Prod.fst [] (reads next starts (run next starts n).visited) := by
  induction n with
  | zero => simp [run, reads]
  | succ n ih =>
    rw [run_succ]
    exact firsts_step ih

theorem listing_run (hfollows : Follows next edge starts depth)
    (hend : (run next starts n).queue = []) : Listing next starts (run next starts n).visited := by
  have hfirsts : firsts Prod.fst [] ((run next starts n).visited ++ (run next starts n).queue) = _ :=
    firsts_run n
  rwa [hend, List.append_nil, firsts_of_nodup (inv_run hfollows n).nodup (by simp)] at hfirsts

theorem Listing.reads_take_prefix (h : Listing next starts listed) (n : ℕ) :
    firsts Prod.fst [] (reads next starts (listed.take n)) <+: listed := by
  conv_rhs => rw [h, ← List.take_append_drop n listed, reads_append, firsts_append]
  exact List.prefix_append _ _

theorem Listing.lt_length (h : Listing next starts listed) (hn : n < listed.length) :
    n < (firsts Prod.fst [] (reads next starts (listed.take n))).length := by
  by_contra hge
  have hnodup : (listed.map Prod.fst).Nodup := by
    have hkeys : ((firsts Prod.fst [] (reads next starts listed)).map Prod.fst).Nodup :=
      nodup_map_firsts _
    rwa [← h] at hkeys
  have hpart : firsts Prod.fst [] (reads next starts (listed.take n)) ⊆ listed.take n := by
    exact (List.prefix_take_iff.mpr ⟨h.reads_take_prefix n, by omega⟩).subset
  have hne : listed.drop n ≠ [] := List.drop_eq_nil_iff.not.mpr (by omega)
  obtain ⟨least, hleast, hlevels⟩ : ∃ least ∈ listed.drop n,
      ∀ other ∈ listed.drop n, least.2 ≤ other.2 := by
    obtain ⟨least, hmin⟩ := Option.ne_none_iff_exists'.mp
      (mt List.argmin_eq_none.mp hne : List.argmin Prod.snd (listed.drop n) ≠ none)
    exact ⟨least, List.argmin_mem hmin, fun other hother => List.le_of_mem_argmin hother hmin⟩
  have hread : least ∈ reads next starts (listed.take n) := by
    have hall : firsts Prod.fst [] (reads next starts listed) ⊆ reads next starts listed :=
      subset_firsts _
    rw [← h] at hall
    rcases List.mem_append.mp (hall (List.mem_of_mem_drop hleast)) with hstart | hled
    · exact List.mem_append_left _ hstart
    · obtain ⟨parent, hparent, hmem⟩ := List.mem_flatMap.mp hled
      obtain ⟨node, -, hnode⟩ := List.mem_map.mp hmem
      have hlevel : least.2 = parent.2 + 1 := (congrArg Prod.snd hnode).symm
      rw [← List.take_append_drop n listed] at hparent
      rcases List.mem_append.mp hparent with hearly | hlate
      · exact List.mem_append_right _ (List.mem_flatMap.mpr ⟨parent, hearly, hmem⟩)
      · have hle := hlevels parent hlate
        omega
  have hkey : least.1 ∈ (listed.take n).map Prod.fst := by
    have hfirst : least.1 ∈ (firsts Prod.fst [] (reads next starts (listed.take n))).map Prod.fst :=
      mem_map_firsts.mpr ⟨List.mem_map_of_mem hread, List.not_mem_nil⟩
    obtain ⟨other, hother, heq⟩ := List.mem_map.mp hfirst
    rw [← heq]
    exact List.mem_map_of_mem (hpart hother)
  rw [← List.take_append_drop n listed, List.map_append] at hnodup
  exact (List.nodup_append.mp hnodup).2.2 _ hkey _ (List.mem_map_of_mem hleast) rfl

theorem Listing.unique (h : Listing next starts listed) (h' : Listing next starts listed') :
    listed = listed' := by
  have htake : ∀ n, listed.take n = listed'.take n := by
    intro n
    induction n with
    | zero => rfl
    | succ n ih =>
      have hpart := h.reads_take_prefix n
      have hpart' := h'.reads_take_prefix n
      have hmore (hn : n < listed.length) := h.lt_length hn
      have hmore' (hn : n < listed'.length) := h'.lt_length hn
      rw [ih] at hpart hmore
      obtain ⟨later, hlater⟩ := hpart
      obtain ⟨later', hlater'⟩ := hpart'
      by_cases hlong : n < (firsts Prod.fst [] (reads next starts (listed'.take n))).length
      · have hfirst (more : List (α × ℕ)) :
            (firsts Prod.fst [] (reads next starts (listed'.take n)) ++ more).take (n + 1) =
              (firsts Prod.fst [] (reads next starts (listed'.take n))).take (n + 1) :=
          List.take_append_of_le_length hlong
        have htail := hfirst later
        have htail' := hfirst later'
        rw [hlater] at htail
        rw [hlater'] at htail'
        rw [htail, htail']
      · have hend : listed.length ≤ n := by
          by_contra hlt
          exact hlong (hmore (by omega))
        have hend' : listed'.length ≤ n := by
          by_contra hlt
          exact hlong (hmore' (by omega))
        rw [List.take_of_length_le (by omega), List.take_of_length_le (by omega),
          ← List.take_of_length_le hend, ih, List.take_of_length_le hend']
  have hall := htake (listed.length + listed'.length)
  rwa [List.take_of_length_le (by omega), List.take_of_length_le (by omega)] at hall

theorem visited_run_prefix (h : n ≤ m) :
    (run next starts n).visited <+: (run next starts m).visited := by
  induction m, h using Nat.le_induction with
  | base => exact List.prefix_rfl
  | succ m h ih =>
    rw [run_succ]
    refine ih.trans ?_
    generalize run next starts m = st
    match hqueue : st.queue with
    | [] =>
      simp only [step_of_empty hqueue, List.prefix_rfl]
    | (node, level) :: rest =>
      by_cases hnode : node ∈ st.seen
      · simp only [step_of_seen hqueue hnode, List.prefix_rfl]
      · rw [step_of_new hqueue hnode]
        exact List.prefix_append _ _

theorem visited_of_visit {rest : List (α × ℕ)} {node : α} {level : ℕ}
    (hqueue : (run next starts n).queue = (node, level) :: rest)
    (hnode : node ∉ (run next starts n).seen) (hlt : n < m) :
    ∃ later, (run next starts m).visited = (run next starts n).visited ++ (node, level) :: later := by
  have hprefix : (run next starts (n + 1)).visited <+: (run next starts m).visited :=
    visited_run_prefix hlt
  obtain ⟨later, hlater⟩ := hprefix
  rw [run_succ, step_of_new hqueue hnode, visit, List.append_assoc, List.singleton_append] at hlater
  exact ⟨later, hlater.symm⟩

theorem exists_visit (n : ℕ) (h : (run next starts n).visited = front ++ entry :: later) :
    ∃ m, (run next starts m).visited = front ∧ entry.1 ∉ (run next starts m).seen ∧
      ∃ rest, (run next starts m).queue = entry :: rest := by
  induction n generalizing later with
  | zero => exact absurd h (by simp [run])
  | succ n ih =>
    rw [run_succ] at h
    match hqueue : (run next starts n).queue with
    | [] =>
      rw [step_of_empty hqueue] at h
      exact ih h
    | (node, level) :: rest =>
      by_cases hnode : node ∈ (run next starts n).seen
      · rw [step_of_seen hqueue hnode] at h
        exact ih h
      · rw [step_of_new hqueue hnode, visit] at h
        rcases List.eq_nil_or_concat' later with rfl | ⟨init, last, rfl⟩
        · obtain ⟨hfront, hentry⟩ := List.append_inj' h rfl
          obtain rfl := (List.singleton_inj.mp hentry)
          exact ⟨n, hfront, hnode, rest, hqueue⟩
        · rw [← List.cons_append, ← List.append_assoc] at h
          exact ih (List.append_inj' h rfl).1

theorem onward_append (before : List α) (listed : List (α × ℕ)) (node : α) (level : ℕ) :
    onward next before (listed ++ [(node, level)]) = onward next before listed ++
      ((next node level).filter fun other => other ∉ before ++ listed.map Prod.fst ++ [node]).map
        (·, level + 1) := by
  induction listed generalizing before with
  | nil => simp [onward]
  | cons entry listed ih =>
    obtain ⟨first, l⟩ := entry
    rw [List.cons_append, onward, onward, ih, ← List.append_assoc, List.map_cons,
      ← List.append_cons]

theorem onward_run (n : ℕ) : ∃ passed,
    starts.map (·, 0) ++ onward next [] (run next starts n).visited =
        passed ++ (run next starts n).queue ∧
      ∀ other ∈ passed, other.1 ∈ (run next starts n).seen := by
  induction n with
  | zero => exact ⟨[], by simp [run, onward], by simp⟩
  | succ n ih =>
    obtain ⟨passed, hall, hseen⟩ := ih
    rw [run_succ]
    generalize run next starts n = st at hall hseen
    match hqueue : st.queue with
    | [] =>
      rw [step_of_empty hqueue]
      exact ⟨passed, hall, hseen⟩
    | (node, level) :: rest =>
      rw [hqueue] at hall
      by_cases hnode : node ∈ st.seen
      · rw [step_of_seen hqueue hnode]
        refine ⟨passed ++ [(node, level)], by rw [hall, List.append_cons], ?_⟩
        intro other hother
        rcases List.mem_append.mp hother with hold | hnew
        · exact hseen other hold
        · rwa [List.mem_singleton.mp hnew]
      · rw [step_of_new hqueue hnode]
        refine ⟨passed ++ [(node, level)], ?_, ?_⟩
        · rw [visit, onward_append, ← List.append_assoc, hall, List.append_cons passed,
            List.append_assoc, List.nil_append, seen]
        · intro other hother
          rw [seen_visit]
          rcases List.mem_append.mp hother with hold | hnew
          · exact List.mem_append_left _ (hseen other hold)
          · rw [List.mem_singleton.mp hnew]
            simp

theorem behind_unique {β : Type} {b : β} {xs ys zs ws : List β} (hxs : b ∉ xs) (hzs : b ∉ zs)
    (h : xs ++ b :: ys = zs ++ b :: ws) : ys = ws := by
  induction xs generalizing zs with
  | nil =>
    cases zs with
    | nil => exact (List.cons.inj h).2
    | cons z zs => exact absurd (List.cons.inj h).1 (List.ne_of_not_mem_cons hzs)
  | cons x xs ih =>
    cases zs with
    | nil => exact absurd (List.cons.inj h).1.symm (List.ne_of_not_mem_cons hxs)
    | cons z zs =>
      exact ih (List.not_mem_of_not_mem_cons hxs) (List.not_mem_of_not_mem_cons hzs)
        (List.cons.inj h).2

theorem never_meets_from_iff (hfollows : Follows next edge starts depth)
    (hend : (run next starts n).queue = [])
    (hlisted : (run next starts n).visited = front ++ entry :: later)
    (hvisited : (run next starts m).visited = front) (hentry : entry.1 ∉ (run next starts m).seen)
    (hqueue : (run next starts m).queue = entry :: rest) :
    (∀ k, m ≤ k → ¬(run next starts k).Meets next) ↔ FreshFrom next starts front entry later := by
  have hshift (k : ℕ) : (step next)^[k] (run next starts m) = run next starts (k + m) :=
    (Function.iterate_add_apply _ k m _).symm
  have hend' : ((step next)^[n] (run next starts m)).queue = [] := by
    rw [hshift, run_of_ended hend (by omega), hend]
  have hseen : ((step next)^[n] (run next starts m)).seen.Nodup := by
    rw [hshift]
    exact (inv_run hfollows _).nodup
  have hemits : (run next starts m).emits next n =
      (entry :: later).flatMap fun other => next other.1 other.2 := by
    have hflat : ((step next)^[n] (run next starts m)).visited.flatMap
        (fun other => next other.1 other.2) = _ := flatMap_iterate _ n
    rw [hshift, run_of_ended hend (by omega), hlisted, hvisited, List.flatMap_append] at hflat
    exact (List.append_cancel_left hflat).symm
  have hwaiting : (run next starts m).waiting =
      front.map Prod.fst ++ entry.1 :: rest.map Prod.fst := by
    rw [waiting, seen, hvisited, hqueue, List.map_cons]
  have hnever := never_meets_iff hend' hseen
  rw [hemits, hwaiting] at hnever
  simp only [hshift] at hnever
  have hfrom : (∀ k, m ≤ k → ¬(run next starts k).Meets next) ↔
      ∀ k, ¬(run next starts (k + m)).Meets next := by
    constructor
    · exact fun h k => h (k + m) (by omega)
    · intro h k hk
      rw [← Nat.sub_add_cancel hk]
      exact h (k - m)
  have honward : ∃ passed, starts.map (·, 0) ++ onward next [] (run next starts m).visited =
      passed ++ (run next starts m).queue ∧ _ := onward_run m
  obtain ⟨passed, hall, hpassed⟩ := honward
  rw [hvisited, hqueue] at hall
  rw [hfrom, hnever]
  constructor
  · intro hnodup
    refine ⟨passed, rest, hall, ?_, hnodup⟩
    rintro other hother heq
    exact hentry (heq ▸ hpassed other hother)
  · rintro ⟨passed', behind, hall', hpassed', hnodup⟩
    rw [hall] at hall'
    have hsame : rest = behind := by
      refine behind_unique ?_ ?_ hall'
      · exact fun hmem => hentry (hpassed entry hmem)
      · exact fun hmem => hpassed' entry hmem rfl
    rwa [hsame]

end Listings

end Search

end FinanceContext.BreadthFirst
