import FinanceContext.GraphEdges
import FinanceContext.LayoutModel
import Mathlib.Data.List.Dedup

namespace FinanceContext.RepeatedKeys

open Dictionaries

variable (casefold : String → String)

section Keys

def yoToYe (ch : Char) : Char := if ch = 'ё' then 'е' else ch

def markerToken (variant : Option String) : String :=
  match variant with
  | none => ""
  | some text => if text = "" then "" else (casefold text).map yoToYe

def token (period : AxisPeriod) : String := markerToken casefold period.variant

def groupUpdates (group : String × List (ℕ × AxisPeriod)) : List (ℕ × String) :=
  if group.2.length < 2 then []
  else if (group.2.map fun entry => token casefold entry.2).dedup.length < 2 then []
  else group.2.filterMap fun entry =>
    if token casefold entry.2 = "" then none
    else some (entry.1, group.1 ++ "@" ++ token casefold entry.2)

def keyed (periods : List AxisPeriod) : List (String × ℕ × AxisPeriod) :=
  periods.zipIdx.map fun (period, index) => (period.periodKey, index, period)

def updates (periods : List AxisPeriod) : List (ℕ × String) :=
  filled ((grouped (keyed periods)).flatMap (groupUpdates casefold))

def disambiguatePeriodKeys (periods : List AxisPeriod) : List AxisPeriod :=
  let found := updates casefold periods
  if found = [] then periods
  else periods.zipIdx.map fun (period, index) =>
    match get index found with
    | some key => { period with periodKey := key }
    | none => period

end Keys

section Rekeying

/-- Another column of the same key has another marker. -/
def Contested (periods : List AxisPeriod) (period : AxisPeriod) : Prop :=
  ∃ other ∈ periods, other.periodKey = period.periodKey ∧
    token casefold other ≠ token casefold period

instance (periods : List AxisPeriod) (period : AxisPeriod) :
    Decidable (Contested casefold periods period) :=
  inferInstanceAs (Decidable (∃ other ∈ periods, _))

def newKey (periods : List AxisPeriod) (period : AxisPeriod) : String :=
  if Contested casefold periods period ∧ token casefold period ≠ "" then
    period.periodKey ++ "@" ++ token casefold period
  else period.periodKey

def rekeyed (periods : List AxisPeriod) (period : AxisPeriod) : AxisPeriod :=
  { period with periodKey := newKey casefold periods period }

variable {casefold} {periods : List AxisPeriod}

theorem two_le_length_dedup {l : List String} {a : String} (ha : a ∈ l) :
    2 ≤ l.dedup.length ↔ ∃ b ∈ l, b ≠ a := by
  constructor
  · intro htwo
    by_contra hall
    push Not at hall
    have hsub : l.dedup ⊆ [a] := fun b hb => List.mem_singleton.mpr (hall b (List.mem_dedup.mp hb))
    have hlength := (List.subperm_of_subset (List.nodup_dedup l) hsub).length_le
    rw [List.length_singleton] at hlength
    omega
  · rintro ⟨b, hb, hne⟩
    have hnodup : [b, a].Nodup := by simpa using hne
    have hsub : [b, a] ⊆ l.dedup := by
      intro c hc
      rcases List.mem_cons.mp hc with rfl | hc
      · exact List.mem_dedup.mpr hb
      · rw [List.mem_singleton.mp hc]
        exact List.mem_dedup.mpr ha
    exact (List.subperm_of_subset hnodup hsub).length_le

theorem mem_groupUpdates {group : String × List (ℕ × AxisPeriod)} {index : ℕ} {key : String} :
    (index, key) ∈ groupUpdates casefold group ↔
      ∃ period, (index, period) ∈ group.2 ∧ token casefold period ≠ "" ∧
        key = group.1 ++ "@" ++ token casefold period ∧
          ∃ entry ∈ group.2, token casefold entry.2 ≠ token casefold period := by
  have hdistinct {period : AxisPeriod} (h : (index, period) ∈ group.2) :
      2 ≤ (group.2.map fun entry => token casefold entry.2).dedup.length ↔
        ∃ entry ∈ group.2, token casefold entry.2 ≠ token casefold period := by
    rw [two_le_length_dedup (List.mem_map.mpr ⟨_, h, rfl⟩)]
    simp only [List.mem_map, exists_exists_and_eq_and]
  have hlength : (group.2.map fun entry => token casefold entry.2).dedup.length ≤
      group.2.length := by
    have hsub := (List.dedup_sublist (group.2.map fun entry => token casefold entry.2)).length_le
    rwa [List.length_map] at hsub
  have hmem : (index, key) ∈ (group.2.filterMap fun entry =>
      if token casefold entry.2 = "" then none
      else some (entry.1, group.1 ++ "@" ++ token casefold entry.2)) ↔
        ∃ period, (index, period) ∈ group.2 ∧ token casefold period ≠ "" ∧
          key = group.1 ++ "@" ++ token casefold period := by
    rw [List.mem_filterMap]
    constructor
    · rintro ⟨⟨i, period⟩, hentry, hupdate⟩
      split_ifs at hupdate with hblank
      obtain ⟨rfl, rfl⟩ := Prod.mk.inj (Option.some.inj hupdate)
      exact ⟨period, hentry, hblank, rfl⟩
    · rintro ⟨period, hentry, hblank, rfl⟩
      exact ⟨_, hentry, if_neg hblank⟩
  unfold groupUpdates
  constructor
  · intro h
    split_ifs at h with hfew hsame
    · cases h
    · cases h
    · obtain ⟨period, hentry, hblank, hkey⟩ := hmem.mp h
      exact ⟨period, hentry, hblank, hkey, (hdistinct hentry).mp (by omega)⟩
  · rintro ⟨period, hentry, hblank, hkey, hother⟩
    have htwo := (hdistinct hentry).mpr hother
    rw [if_neg (by omega), if_neg (by omega)]
    exact hmem.mpr ⟨period, hentry, hblank, hkey⟩

theorem mem_group {group : String × List (ℕ × AxisPeriod)} (h : group ∈ grouped (keyed periods))
    {index : ℕ} {period : AxisPeriod} :
    (index, period) ∈ group.2 ↔
      (period, index) ∈ periods.zipIdx ∧ period.periodKey = group.1 := by
  rw [(mem_grouped.mp h).2, List.mem_map]
  constructor
  · rintro ⟨entry, hentry, heq⟩
    obtain ⟨hkeyed, hkey⟩ := List.mem_filter.mp hentry
    obtain ⟨⟨p, i⟩, hperiod, rfl⟩ := List.mem_map.mp hkeyed
    obtain ⟨rfl, rfl⟩ := Prod.mk.inj heq
    exact ⟨hperiod, of_decide_eq_true hkey⟩
  · rintro ⟨hperiod, hkey⟩
    refine ⟨_, List.mem_filter.mpr ⟨List.mem_map.mpr ⟨_, hperiod, rfl⟩, ?_⟩, rfl⟩
    exact decide_eq_true hkey

theorem mem_assigned {index : ℕ} {key : String} :
    (index, key) ∈ (grouped (keyed periods)).flatMap (groupUpdates casefold) ↔
      ∃ period, (period, index) ∈ periods.zipIdx ∧ Contested casefold periods period ∧
        token casefold period ≠ "" ∧ key = newKey casefold periods period := by
  rw [List.mem_flatMap]
  constructor
  · rintro ⟨group, hgroup, hupdate⟩
    obtain ⟨period, hentry, hblank, rfl, ⟨i, other⟩, hother, hne⟩ := mem_groupUpdates.mp hupdate
    obtain ⟨hperiod, hkey⟩ := (mem_group hgroup).mp hentry
    obtain ⟨hother, hkey'⟩ := (mem_group hgroup).mp hother
    have hcontested : Contested casefold periods period :=
      ⟨other, List.fst_mem_of_mem_zipIdx hother, hkey'.trans hkey.symm, hne⟩
    refine ⟨period, hperiod, hcontested, hblank, ?_⟩
    rw [newKey, if_pos ⟨hcontested, hblank⟩, hkey]
  · rintro ⟨period, hperiod, hcontested, hblank, rfl⟩
    obtain ⟨other, hother, hkey, hne⟩ := id hcontested
    have hmem : (period.periodKey, index, period) ∈
        (keyed periods).filter (·.1 = period.periodKey) :=
      List.mem_filter.mpr ⟨List.mem_map.mpr ⟨_, hperiod, rfl⟩, decide_eq_true rfl⟩
    have hgroup : (period.periodKey, ((keyed periods).filter (·.1 = period.periodKey)).map
        Prod.snd) ∈ grouped (keyed periods) :=
      mem_grouped.mpr ⟨List.ne_nil_of_mem (List.mem_map_of_mem hmem), rfl⟩
    obtain ⟨i, hi, hget⟩ := List.mem_iff_getElem.mp hother
    have hplace : (other, i) ∈ periods.zipIdx := by
      rw [List.mk_mem_zipIdx_iff_getElem?, List.getElem?_eq_getElem hi, hget]
    refine ⟨_, hgroup, mem_groupUpdates.mpr ⟨period, ?_, hblank, ?_, (i, other), ?_, hne⟩⟩
    · exact (mem_group hgroup).mpr ⟨hperiod, rfl⟩
    · rw [newKey, if_pos ⟨hcontested, hblank⟩]
    · exact (mem_group hgroup).mpr ⟨hplace, hkey⟩

theorem get_updates {index : ℕ} {period : AxisPeriod} (h : (period, index) ∈ periods.zipIdx) :
    get index (updates casefold periods) =
      if Contested casefold periods period ∧ token casefold period ≠ "" then
        some (newKey casefold periods period)
      else none := by
  apply get_filled_of_forall
  intro key
  rw [List.mk_mem_zipIdx_iff_getElem?] at h
  have hsame {other : AxisPeriod} (hother : (other, index) ∈ periods.zipIdx) : other = period := by
    rw [List.mk_mem_zipIdx_iff_getElem?] at hother
    exact Option.some.inj (hother.symm.trans h)
  rw [mem_assigned]
  constructor
  · rintro ⟨other, hother, hcontested, hblank, rfl⟩
    rw [hsame hother] at hcontested hblank ⊢
    exact if_pos ⟨hcontested, hblank⟩
  · intro hkey
    split_ifs at hkey with hnew
    refine ⟨period, ?_, hnew.1, hnew.2, (Option.some.inj hkey).symm⟩
    exact List.mk_mem_zipIdx_iff_getElem?.mpr h

theorem rekeyed_eq_self {period : AxisPeriod}
    (h : ¬(Contested casefold periods period ∧ token casefold period ≠ "")) :
    rekeyed casefold periods period = period := by
  rw [rekeyed, newKey, if_neg h]

theorem disambiguatePeriodKeys_eq (periods : List AxisPeriod) :
    disambiguatePeriodKeys casefold periods = periods.map (rekeyed casefold periods) := by
  have hturn {entry : AxisPeriod × ℕ} (hentry : entry ∈ periods.zipIdx) :
      (match get entry.2 (updates casefold periods) with
        | some key => { entry.1 with periodKey := key }
        | none => entry.1) = rekeyed casefold periods entry.1 := by
    rw [get_updates hentry]
    split_ifs with hnew
    · rfl
    · exact (rekeyed_eq_self hnew).symm
  have hfirst : (periods.zipIdx.map fun entry => rekeyed casefold periods entry.1) =
      periods.map (rekeyed casefold periods) := by
    have hmap := congrArg (List.map (rekeyed casefold periods)) (List.zipIdx_map_fst 0 periods)
    rwa [List.map_map] at hmap
  rw [← hfirst]
  unfold disambiguatePeriodKeys
  simp only
  split_ifs with hnil
  · have hsame {entry : AxisPeriod × ℕ} (hentry : entry ∈ periods.zipIdx) :
        rekeyed casefold periods entry.1 = entry.1 := by
      rw [← hturn hentry, hnil]
      rfl
    conv_lhs => rw [← List.zipIdx_map_fst 0 periods]
    exact List.map_congr_left fun entry hentry => (hsame hentry).symm
  · exact List.map_congr_left fun entry hentry => hturn hentry

theorem calendarKey_plain {key : String} (h : '@' ∉ key.toList) : calendarKey key = key := by
  have hall : key.toList.takeWhile (· ≠ '@') = key.toList := by
    apply List.takeWhile_eq_self_iff.mpr
    intro ch hch
    exact decide_eq_true fun he => h (he ▸ hch)
  rw [calendarKey, hall, String.ofList_toList]

theorem calendarKey_marked {key : String} (h : '@' ∉ key.toList) (marker : String) :
    calendarKey (key ++ "@" ++ marker) = key := by
  have hall : (key ++ "@" ++ marker).toList.takeWhile (· ≠ '@') = key.toList := by
    have hkey : ∀ ch ∈ key.toList, decide (ch ≠ '@') = true :=
      fun ch hch => decide_eq_true fun he => h (he ▸ hch)
    rw [String.toList_append, String.toList_append, List.append_assoc,
      List.takeWhile_append_of_pos hkey]
    exact List.append_nil _
  rw [calendarKey, hall, String.ofList_toList]

theorem calendarKey_newKey {period : AxisPeriod} (h : '@' ∉ period.periodKey.toList) :
    calendarKey (newKey casefold periods period) = period.periodKey := by
  unfold newKey
  split_ifs
  · exact calendarKey_marked h _
  · exact calendarKey_plain h

theorem newKey_eq_iff {p q : AxisPeriod} (hp : p ∈ periods) (hq : q ∈ periods)
    (hp' : '@' ∉ p.periodKey.toList) (hq' : '@' ∉ q.periodKey.toList) :
    newKey casefold periods p = newKey casefold periods q ↔
      p.periodKey = q.periodKey ∧ token casefold p = token casefold q := by
  constructor
  · intro heq
    have hkey : p.periodKey = q.periodKey := by
      rw [← calendarKey_newKey hp', heq, calendarKey_newKey hq']
    refine ⟨hkey, ?_⟩
    by_contra hne
    have hcontested : Contested casefold periods p := ⟨q, hq, hkey.symm, fun h => hne h.symm⟩
    have hcontested' : Contested casefold periods q := ⟨p, hp, hkey, hne⟩
    simp only [newKey, hcontested, hcontested', true_and, ← hkey] at heq
    split_ifs at heq with hblank hblank' hblank'
    · exact hne ((String.append_right_inj _).mp heq)
    · exact hp' (heq ▸ by simp)
    · exact hp' (heq ▸ by simp)
    · exact hne ((not_not.mp hblank).trans (not_not.mp hblank').symm)
  · rintro ⟨hkey, htoken⟩
    have hsame : Contested casefold periods p ↔ Contested casefold periods q := by
      unfold Contested
      rw [hkey, htoken]
    simp only [newKey, hsame, hkey, htoken]

end Rekeying

/-- The columns stay, with their calendar parts, and columns with distinct keys or markers get
distinct keys. -/
theorem disambiguated_keys (casefold : String → String) (periods : List AxisPeriod)
    (hplain : ∀ period ∈ periods, '@' ∉ period.periodKey.toList) :
    List.Forall₂ (fun old new => new = { old with periodKey := new.periodKey } ∧
        calendarKey new.periodKey = old.periodKey) periods
      (disambiguatePeriodKeys casefold periods) ∧
    ∀ (i j : ℕ) (p q p' q' : AxisPeriod), periods[i]? = some p → periods[j]? = some q →
      (disambiguatePeriodKeys casefold periods)[i]? = some p' →
      (disambiguatePeriodKeys casefold periods)[j]? = some q' →
        (p'.periodKey = q'.periodKey ↔
          p.periodKey = q.periodKey ∧ token casefold p = token casefold q) := by
  rw [disambiguatePeriodKeys_eq]
  constructor
  · rw [List.forall₂_map_right_iff, List.forall₂_same]
    exact fun period hperiod => ⟨rfl, calendarKey_newKey (hplain period hperiod)⟩
  · intro i j p q p' q' hp hq hp' hq'
    rw [List.getElem?_map, hp] at hp'
    rw [List.getElem?_map, hq] at hq'
    obtain rfl := Option.some.inj hp'
    obtain rfl := Option.some.inj hq'
    have hmem := List.mem_of_getElem? hp
    have hmem' := List.mem_of_getElem? hq
    exact newKey_eq_iff hmem hmem' (hplain p hmem) (hplain q hmem')

def markedYears : List AxisPeriod :=
  [{ col := 3, text := "2024 fact", periodKey := "2024", variant := some "fact" },
   { col := 4, text := "2024 plan", periodKey := "2024", variant := some "plan" },
   { col := 5, text := "2024", periodKey := "2024" }, { col := 6, text := "2025", periodKey := "2025" }]

theorem disambiguated_markedYears :
    (∀ period ∈ markedYears, '@' ∉ period.periodKey.toList) ∧
      (disambiguatePeriodKeys id markedYears).map (·.periodKey) =
        ["2024@fact", "2024@plan", "2024", "2025"] ∧
      List.Forall₂ (fun old new => new = { old with periodKey := new.periodKey } ∧
          calendarKey new.periodKey = old.periodKey) markedYears
        (disambiguatePeriodKeys id markedYears) := by
  have hplain : ∀ period ∈ markedYears, '@' ∉ period.periodKey.toList := by decide +kernel
  exact ⟨hplain, by decide +kernel, (disambiguated_keys id markedYears hplain).1⟩

end FinanceContext.RepeatedKeys
