import FinanceContext.RangeNodes
import FinanceContext.TraceWalk

namespace FinanceContext.Trace

open Csr Dictionaries GraphIndex BreadthFirst

variable (text : GraphText) (files : Files) (query : Query)

def Walked (u v : String) : Prop :=
  (∃ level < depthOf query, CellDistance text files query level u) ∧ Leads text files query u v

/-- The edges walked have a directed cycle. -/
def HasCycle : Prop := ∃ v, Relation.TransGen (Walked text files query) v v

/-- No cell is reached twice: the origins are distinct and no edges walked meet, in one cell or at
an origin. -/
structure ReachedOnce : Prop where
  starts : (startNodes text files query).Nodup
  once : ∀ u, (∃ v, Walked text files query u v) → (followed text files query u).Nodup
  fresh : ∀ u v, Walked text files query u v → v ∉ startNodes text files query
  one : ∀ u u' v, Walked text files query u v → Walked text files query u' v → u = u'

/-- In the breadth-first order of the cells there is an input below the origin from which on no
cell is met twice. -/
def InputLast : Prop :=
  ∃ front node level later,
    Search.Listing (nextCells text files query) (startNodes text files query)
        (front ++ (node, level) :: later) ∧
      isInput text files query node = true ∧ 0 < level ∧
      Search.FreshFrom (nextCells text files query) (startNodes text files query) front
        (node, level) later

variable {text files query} {n : ℕ}

section Verdict

theorem not_meets_of_stops {st : Walk} (h : StopsAtInput text files query st) :
    ¬MeetsSeen text files query st := by
  intro hmeets
  have hturn : Turn text files query st (st.step text files query) := turn_step st
  have hboth := (hturn.cycle hmeets).symm.trans (hturn.input h)
  cases hboth

theorem not_meets_of_ended {st : Walk} (hend : st.queue = []) :
    ¬MeetsSeen text files query st := by
  rintro ⟨node, level, rest, hqueue, -⟩
  exact absurd (hend.symm.trans hqueue) (by simp)

theorem not_stops_of_ended {st : Walk} (hend : st.queue = []) :
    ¬StopsAtInput text files query st := by
  rintro ⟨node, level, rest, hqueue, -⟩
  exact absurd (hend.symm.trans hqueue) (by simp)

theorem stopped_walk_iff (n : ℕ) : (walk text files query n).stopped = some .cycle ↔
    ∃ m < n, MeetsSeen text files query (walk text files query m) ∧
      ∀ k, m < k → k < n → ¬StopsAtInput text files query (walk text files query k) := by
  induction n with
  | zero => simp [walk]
  | succ n ih =>
    have hturn : Turn text files query (walk text files query n) (walk text files query (n + 1)) :=
      walk_succ text files query n ▸ turn_step _
    by_cases hmeets : MeetsSeen text files query (walk text files query n)
    · refine iff_of_true (hturn.cycle hmeets) ⟨n, by omega, hmeets, fun k hk hlt => ?_⟩
      omega
    · by_cases hstops : StopsAtInput text files query (walk text files query n)
      · refine iff_of_false ?_ ?_
        · rw [hturn.input hstops]
          exact fun h => by cases h
        · rintro ⟨m, hm, hmeetsM, hnone⟩
          rcases Nat.lt_succ_iff_lt_or_eq.mp hm with hlt | rfl
          · exact hnone n hlt (by omega) hstops
          · exact hmeets hmeetsM
      · rw [hturn.other hmeets hstops, ih]
        constructor
        · rintro ⟨m, hm, hmeetsM, hnone⟩
          refine ⟨m, by omega, hmeetsM, fun k hk hlt => ?_⟩
          rcases Nat.lt_succ_iff_lt_or_eq.mp hlt with hlt | rfl
          · exact hnone k hk hlt
          · exact hstops
        · rintro ⟨m, hm, hmeetsM, hnone⟩
          rcases Nat.lt_succ_iff_lt_or_eq.mp hm with hlt | rfl
          · exact ⟨m, hlt, hmeetsM, fun k hk hlt' => hnone k hk (by omega)⟩
          · exact absurd hmeetsM hmeets

theorem trace_stopped_iff (hend : (walk text files query n).queue = []) :
    (traceGraph text files query).stopped = .cycle ↔
      (walk text files query n).stopped = some .cycle := by
  rw [traceGraph_eq hend, document]
  by_cases hstarts : startNodes text files query = []
  · have hzero : (walk text files query 0).queue = [] := by simp [walk, hstarts]
    rw [if_pos hstarts, walk_of_ended hzero (Nat.zero_le n)]
    simp [walk]
  · rw [if_neg hstarts]
    cases hstopped : (walk text files query n).stopped with
    | some verdict => simp
    | none =>
      simp only [Option.getD_none]
      split_ifs <;> simp

theorem search_ends (hend : (walk text files query n).queue = []) :
    (Search.run (nextCells text files query) (startNodes text files query) n).queue = [] := by
  rw [← search_walk]
  exact hend

theorem inputLast_iff : InputLast text files query ↔
    ∃ n, StopsAtInput text files query (walk text files query n) ∧
      ∀ m, n < m → ¬MeetsSeen text files query (walk text files query m) := by
  obtain ⟨last, hend⟩ := walk_ends text files query
  have hfollows := follows text files query
  have hsearch := search_walk text files query
  constructor
  · rintro ⟨front, node, level, later, hlisting, hinput, hlevel, hfresh⟩
    have hlisted := (Search.listing_run hfollows (search_ends hend)).unique hlisting
    obtain ⟨n, hvisited, hnew, rest, hqueue⟩ := Search.exists_visit last hlisted
    have hnever := (Search.never_meets_from_iff hfollows (search_ends hend) hlisted hvisited hnew
      hqueue).mpr hfresh
    refine ⟨n, ⟨node, level, rest, ?_, ?_, hinput, hlevel⟩, fun m hm => ?_⟩
    · rw [← hsearch] at hqueue
      exact hqueue
    · rwa [← hsearch, seen_search] at hnew
    · rw [MeetsSeen, hsearch]
      exact hnever m hm.le
  · rintro ⟨n, hstops, hlast⟩
    obtain ⟨node, level, rest, hqueue, hnew, hinput, hlevel⟩ := id hstops
    have hqueue' : (Search.run (nextCells text files query) (startNodes text files query) n).queue =
        (node, level) :: rest := by
      rw [← hsearch]
      exact hqueue
    have hnew' : node ∉
        (Search.run (nextCells text files query) (startNodes text files query) n).seen := by
      rwa [← hsearch, seen_search]
    have hlt : n < last := by
      by_contra hge
      rw [walk_of_ended hend (by omega), hend] at hqueue
      cases hqueue
    obtain ⟨later, hlater⟩ := Search.visited_of_visit hqueue' hnew' hlt
    refine ⟨_, node, level, later, hlater ▸ Search.listing_run hfollows (search_ends hend), hinput,
      hlevel, ?_⟩
    apply (Search.never_meets_from_iff hfollows (search_ends hend) hlater rfl hnew' hqueue').mp
    intro m hm
    rw [← hsearch]
    rcases Nat.eq_or_lt_of_le hm with rfl | hlt
    · exact not_meets_of_stops hstops
    · exact hlast m hlt

theorem reports_cycle_iff : (traceGraph text files query).stopped = .cycle ↔
    (∃ n, MeetsSeen text files query (walk text files query n)) ∧ ¬InputLast text files query := by
  classical
  obtain ⟨n, hend⟩ := walk_ends text files query
  have hquiet {m : ℕ} (hm : n ≤ m) : (walk text files query m).queue = [] := by
    rw [walk_of_ended hend hm, hend]
  rw [trace_stopped_iff hend, stopped_walk_iff, inputLast_iff]
  constructor
  · rintro ⟨m, hm, hmeets, hnone⟩
    refine ⟨⟨m, hmeets⟩, ?_⟩
    rintro ⟨k, hstops, hlast⟩
    have hk : k < n := by
      by_contra hge
      exact not_stops_of_ended (hquiet (by omega)) hstops
    rcases Nat.lt_trichotomy m k with hlt | rfl | hgt
    · exact hnone k hlt hk hstops
    · exact not_meets_of_stops hstops hmeets
    · exact hlast m hgt hmeets
  · rintro ⟨⟨m, hmeets⟩, hnot⟩
    have hbound : ∀ k, MeetsSeen text files query (walk text files query k) → k < n := by
      intro k hk
      by_contra hge
      exact not_meets_of_ended (hquiet (by omega)) hk
    -- the last turn that finds a seen cell
    let last := Nat.findGreatest (fun k => MeetsSeen text files query (walk text files query k)) n
    have hlast : MeetsSeen text files query (walk text files query last) :=
      Nat.findGreatest_spec (P := fun k => MeetsSeen text files query (walk text files query k))
        (hbound m hmeets).le hmeets
    refine ⟨last, hbound last hlast, hlast, fun k hk hlt hstops => hnot ⟨k, hstops, ?_⟩⟩
    intro l hl hfound
    exact Nat.findGreatest_is_greatest (hk.trans hl) (hbound l hfound).le hfound

end Verdict

section Cycles

variable (text files query)

theorem walked_iff (hend : (walk text files query n).queue = []) (u v : String) :
    (Search.run (nextCells text files query) (startNodes text files query) n).Walked
      (nextCells text files query) u v ↔ Walked text files query u v := by
  have hfollows := follows text files query
  constructor
  · rintro ⟨level, hu, hv⟩
    obtain ⟨hdistance, -⟩ :=
      (Search.mem_visited_iff hfollows (search_ends hend)).mp hu
    have hlevel : level < depthOf query := by
      by_contra hge
      rw [hfollows.deep u level (by omega)] at hv
      cases hv
    exact ⟨⟨level, hlevel, hdistance⟩, (hfollows.edges u level hdistance hlevel v).mp hv⟩
  · rintro ⟨⟨level, hlevel, hdistance⟩, hleads⟩
    refine ⟨level, ?_, (hfollows.edges u level hdistance hlevel v).mpr hleads⟩
    exact (Search.mem_visited_iff hfollows (search_ends hend)).mpr
      ⟨hdistance, hlevel.le⟩

theorem reachedOnce_iff (hend : (walk text files query n).queue = []) :
    (Search.arrivals (nextCells text files query) (startNodes text files query)
      (Search.run (nextCells text files query) (startNodes text files query) n)).Nodup ↔
        ReachedOnce text files query := by
  have hseen := (Search.inv_run (follows text files query) n).nodup
  rw [Search.nodup_arrivals_iff hseen]
  simp only [walked_iff text files query hend]
  constructor
  · rintro ⟨hstarts, honce, hfresh, hone⟩
    refine ⟨hstarts, ?_, hfresh, hone⟩
    rintro u ⟨v, hwalked⟩
    obtain ⟨level, hu, hv⟩ := (walked_iff text files query hend u v).mpr hwalked
    have hnodup := honce _ hu
    unfold nextCells at hv hnodup
    split_ifs at hv hnodup
    · cases hv
    · cases hv
    · exact hnodup
  · rintro ⟨hstarts, honce, hfresh, hone⟩
    refine ⟨hstarts, ?_, hfresh, hone⟩
    rintro ⟨u, level⟩ hu
    cases hnext : nextCells text files query u level with
    | nil => simp
    | cons v rest =>
      have hwalked : Walked text files query u v :=
        (walked_iff text files query hend u v).mp ⟨level, hu, by simp [hnext]⟩
      have hnodup := honce u ⟨v, hwalked⟩
      have hcells : nextCells text files query u level = followed text files query u := by
        unfold nextCells at hnext ⊢
        split_ifs at hnext ⊢
        rfl
      rwa [← hnext, hcells]

theorem meets_iff : (∃ n, MeetsSeen text files query (walk text files query n)) ↔
    ¬ReachedOnce text files query := by
  obtain ⟨n, hend⟩ := walk_ends text files query
  rw [← reachedOnce_iff text files query hend,
    ← Search.exists_meets_iff (follows text files query) (search_ends hend)]
  simp only [MeetsSeen, search_walk]

theorem not_reachedOnce_of_cycle (hcycle : HasCycle text files query) :
    ¬ReachedOnce text files query := by
  obtain ⟨n, hend⟩ := walk_ends text files query
  rw [← reachedOnce_iff text files query hend]
  apply Search.not_nodup_of_cycle (follows text files query) (search_ends hend)
  obtain ⟨v, hcycle⟩ := hcycle
  exact ⟨v, Relation.TransGen.mono
    (fun u w h => (walked_iff text files query hend u w).mpr h) _ _ hcycle⟩

/-- The verdict is right where each cell is reached once, where a cycle was walked and no input
comes last, and where an input comes last and hides that no cycle was walked. -/
theorem cycle_verdict_iff :
    ((traceGraph text files query).stopped = .cycle ↔ HasCycle text files query) ↔
      ReachedOnce text files query ∨
        HasCycle text files query ∧ ¬InputLast text files query ∨
        ¬HasCycle text files query ∧ InputLast text files query := by
  have hcycle := not_reachedOnce_of_cycle text files query
  rw [reports_cycle_iff, meets_iff]
  tauto

end Cycles

section Diamond

/-- `S!A1` reads `S!B1` and `S!C1`, which both read `S!D1`. -/
def diamond : Files where
  cells := []
  rows := ["A", "B", "C", "D"].map fun col =>
    ⟨"S!" ++ col ++ "1", some "S", some (col ++ "1"), none, none, .calculated⟩
  edges := [sampleEdge "S!A1" "S!B1" "ref", sampleEdge "S!A1" "S!C1" "ref",
    sampleEdge "S!B1" "S!D1" "ref", sampleEdge "S!C1" "S!D1" "ref"]
  usage := ⟨[], []⟩
  rowKeysForLabel := fun _ => []

def fromTop : Query := ⟨"S!A1", .precedents, 8, 0⟩

def rank (cell : String) : ℕ := if cell = "S!A1" then 0 else if cell = "S!D1" then 2 else 1

theorem diamond_reported_as_cycle :
    (traceGraph yearText diamond fromTop).stopped = .cycle ∧
      ¬HasCycle yearText diamond fromTop := by
  have hend : (walk yearText diamond fromTop 5).queue = [] := by decide +kernel
  have hverdict : (document yearText diamond fromTop (walk yearText diamond fromTop 5)).stopped =
      .cycle := by decide +kernel
  rw [traceGraph_eq hend]
  refine ⟨hverdict, ?_⟩
  have hedges : ∀ edge ∈ diamond.edges, ∀ v ∈ edgeNext yearText diamond fromTop edge,
      rank edge.source < rank v := by decide +kernel
  have hdown : ∀ u v, Walked yearText diamond fromTop u v → rank u < rank v := by
    rintro u v ⟨-, hv, -⟩
    rcases List.mem_append.mp hv with hv | hv
    · obtain ⟨edge, hedge, hnext⟩ := List.mem_flatMap.mp hv
      obtain ⟨hmem, hsource⟩ := List.mem_filter.mp hedge
      obtain rfl := of_decide_eq_true (Bool.and_eq_true_iff.mp hsource).2
      exact hedges edge hmem v hnext
    · cases hv
  rintro ⟨v, hcycle⟩
  have hless : ∀ w, Relation.TransGen (Walked yearText diamond fromTop) v w → rank v < rank w := by
    intro w hw
    induction hw with
    | single h => exact hdown _ _ h
    | tail _ h ih => exact ih.trans (hdown _ _ h)
  exact absurd (hless v hcycle) (lt_irrefl _)

end Diamond

end FinanceContext.Trace
