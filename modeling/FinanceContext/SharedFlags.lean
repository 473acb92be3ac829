import FinanceContext.SharedAxes
import Mathlib.Data.List.Induction

namespace FinanceContext.Timelines

open Dictionaries

/-- The kept axis an axis is merged into, derived axes apart. -/
def Outcome.target (axis : TimeAxis) : Outcome → Option TimeAxis
  | .derived _ => none
  | .painted previous => some previous.1
  | .matched previous => some previous.1
  | .kept => some axis

variable (sheet : Sheet)

/-- Among these axes `axis` is merged into `kept`. -/
def Joins (axes : List TimeAxis) (axis kept : TimeAxis) : Prop :=
  ∃ before after, axes = before ++ axis :: after ∧
    ((sharing sheet before).outcome sheet axis).target axis = some kept

/-- Among these axes `axis` is taken as derived from a kept one. -/
def Derived (axes : List TimeAxis) (axis : TimeAxis) : Prop :=
  ∃ before after other, axes = before ++ axis :: after ∧
    (sharing sheet before).outcome sheet axis = .derived other

/-- The id that stands for an id in the blocks put out. -/
def sharedId (id : String) : String := (get id (sharing sheet sheet.axes).aliases).getD id

/-- The axis goes by the id of one of the axes put out, and not because it derives from it. -/
structure MergedInto (axis kept : TimeAxis) : Prop where
  given : axis ∈ sheet.axes
  underived : ¬Derived sheet sheet.axes axis
  out : kept ∈ (shareRepeatedAxes sheet).2
  shown : sharedId sheet axis.id = kept.id

/-- Axes merged into one kept axis have compatible flags. -/
def SharedCompatible : Prop :=
  ∀ a b kept, MergedInto sheet a kept → MergedInto sheet b kept →
    flagsCompatible (flagFingerprint sheet a) (flagFingerprint sheet b) = true

/-- The flags the signature table has for a kept axis. -/
def Flags (st : Sharing) (kept : TimeAxis) (flags : Fingerprint) : Prop :=
  ∃ key, (kept, flags) ∈ itemsOf key st.buckets

def ColumnFlags (st : Sharing) (kept : TimeAxis) (flags : Fingerprint) : Prop :=
  ∃ key, (kept, flags) ∈ itemsOf key st.byColumns

/-- The axis is taken by a marked axis of its columns whose flags in the signature table are not
its own. -/
def Stale (st : Sharing) (axis : TimeAxis) : Prop :=
  ∃ previous flags, st.outcome sheet axis = .painted previous ∧ Flags st previous.1 flags ∧
    flagsCompatible flags (flagFingerprint sheet axis) = false

section Tables

variable {K : Type} [DecidableEq K]

theorem itemsOf_rememberFlags (axisId : String) (fingerprint : Fingerprint)
    (table : List (K × List Entry)) (key : K) :
    itemsOf key (rememberFlags axisId fingerprint table) = (itemsOf key table).map fun entry =>
      (entry.1, if entry.1.id = axisId ∧ entry.2 = [] then fingerprint else entry.2) := by
  unfold itemsOf rememberFlags
  rw [get_mapValues (List.map fun entry : Entry =>
    (entry.1, if entry.1.id = axisId ∧ entry.2 = [] then fingerprint else entry.2))]
  cases get key table <;> rfl

theorem itemsOf_fillFlags (key key' : K) (axisId : String) (fingerprint : Fingerprint)
    (table : List (K × List Entry)) :
    itemsOf key' (fillFlags key axisId fingerprint table) =
      if key = key' then (itemsOf key' table).map fun entry =>
        (entry.1, if entry.1.id = axisId then fingerprint else entry.2)
      else itemsOf key' table := by
  unfold fillFlags
  rw [itemsOf, get_set]
  split_ifs with hkey
  · rw [hkey]
    rfl
  · rfl

theorem itemsOf_push (key key' : K) (entry : Entry) (table : List (K × List Entry)) :
    itemsOf key' (push key entry table) =
      if key = key' then itemsOf key' table ++ [entry] else itemsOf key' table := by
  unfold push
  rw [itemsOf, get_set]
  split_ifs with hkey
  · rw [hkey]
    rfl
  · rfl

end Tables

variable {sheet} {axes : List TimeAxis} {x a kept : TimeAxis}

theorem flagsCompatible_iff {left right : Fingerprint} :
    flagsCompatible left right = true ↔ left = [] ∨ right = [] ∨ left = right := by
  simp [flagsCompatible, or_assoc]

theorem sharing_append (axes : List TimeAxis) (x : TimeAxis) :
    sharing sheet (axes ++ [x]) = (sharing sheet axes).step sheet x := by
  rw [sharing, List.foldl_append]
  rfl

theorem joins_append : Joins sheet (axes ++ [x]) a kept ↔
    Joins sheet axes a kept ∨
      a = x ∧ ((sharing sheet axes).outcome sheet x).target x = some kept := by
  constructor
  · rintro ⟨before, after, hsplit, htarget⟩
    rcases List.eq_nil_or_concat after with rfl | ⟨after, last, rfl⟩
    · obtain ⟨rfl, hx⟩ := List.append_inj' hsplit rfl
      obtain rfl := List.singleton_inj.mp hx
      exact .inr ⟨rfl, htarget⟩
    · rw [List.concat_eq_append, ← List.cons_append, ← List.append_assoc] at hsplit
      obtain ⟨hbefore, -⟩ := List.append_inj' hsplit rfl
      exact .inl ⟨before, after, hbefore, htarget⟩
  · rintro (⟨before, after, rfl, htarget⟩ | ⟨rfl, htarget⟩)
    · exact ⟨before, after ++ [x], by simp, htarget⟩
    · exact ⟨axes, [], rfl, htarget⟩

theorem Joins.mem (h : Joins sheet axes a kept) : a ∈ axes := by
  obtain ⟨before, after, rfl, -⟩ := h
  exact List.mem_append_right _ List.mem_cons_self

/-- What holds of the tables after any axes. -/
structure Tables (sheet : Sheet) (axes : List TimeAxis) (st : Sharing) : Prop where
  within : ∀ kept ∈ st.kept, kept ∈ axes
  keptOf : ∀ kept flags, Flags st kept flags → kept ∈ st.kept
  keyed : ∀ key entry, entry ∈ itemsOf key st.buckets → key = axisSignature sheet entry.1
  unique : ∀ kept flags kept' flags', Flags st kept flags → Flags st kept' flags' →
    kept.id = kept'.id → kept = kept' ∧ flags = flags'
  columns : ∀ kept flags, ColumnFlags st kept flags → ∃ flags', Flags st kept flags'
  known : ∀ a kept, Joins sheet axes a kept → ∃ flags, Flags st kept flags
  origin : ∀ kept flags, Flags st kept flags →
    flags = [] ∨ ∃ a, Joins sheet axes a kept ∧ flagFingerprint sheet a = flags

/-- What holds of them while every axis taken had the flags of its kept axis. -/
structure Agree (sheet : Sheet) (axes : List TimeAxis) (st : Sharing) : Prop where
  members : ∀ a kept flags, Joins sheet axes a kept → Flags st kept flags →
    flagFingerprint sheet a = [] ∨ flagFingerprint sheet a = flags
  columns : ∀ kept flags flags', ColumnFlags st kept flags → Flags st kept flags' →
    flags = [] ∨ flags = flags'

/-- A step that merges `x` into a kept axis, and fills the flags it has not. -/
structure Takes (sheet : Sheet) (st st' : Sharing) (x kept : TimeAxis) (fill : Prop) : Prop where
  same : st'.kept = st.kept
  known : ∃ flags, Flags st kept flags
  flags : ∀ other flags', Flags st' other flags' → ∃ flags, Flags st other flags ∧
    (fill ∧ other.id = kept.id ∧ flags = [] ∧ flags' = flagFingerprint sheet x ∨
      ¬(fill ∧ other.id = kept.id ∧ flags = []) ∧ flags' = flags)
  keeps : ∀ other flags, Flags st other flags → ∃ flags', Flags st' other flags'
  columns : ∀ other flags', ColumnFlags st' other flags' → ∃ flags, ColumnFlags st other flags ∧
    (fill ∧ other.id = kept.id ∧ flags' = flagFingerprint sheet x ∨ flags' = flags)
  keyed : ∀ key entry, entry ∈ itemsOf key st'.buckets → key = axisSignature sheet entry.1

variable {st st' : Sharing} {fill : Prop}

theorem Takes.tables (h : Takes sheet st st' x kept fill) (ht : Tables sheet axes st)
    (hst : st = sharing sheet axes)
    (htarget : (st.outcome sheet x).target x = some kept) : Tables sheet (axes ++ [x]) st' where
  within := by
    rw [h.same]
    exact fun other hother => List.mem_append_left _ (ht.within other hother)
  keptOf := by
    intro other flags' hflags'
    obtain ⟨flags, hflags, -⟩ := h.flags other flags' hflags'
    rw [h.same]
    exact ht.keptOf other flags hflags
  keyed := h.keyed
  unique := by
    intro k₁ f₁' k₂ f₂' h₁ h₂ hid
    obtain ⟨f₁, h₁, hcase₁⟩ := h.flags k₁ f₁' h₁
    obtain ⟨f₂, h₂, hcase₂⟩ := h.flags k₂ f₂' h₂
    obtain ⟨rfl, rfl⟩ := ht.unique _ _ _ _ h₁ h₂ hid
    refine ⟨rfl, ?_⟩
    rcases hcase₁ with ⟨hfill, hkey, hempty, rfl⟩ | ⟨hnot, rfl⟩
    · rcases hcase₂ with ⟨-, -, -, rfl⟩ | ⟨hnot, -⟩
      · rfl
      · exact absurd ⟨hfill, hkey, hempty⟩ hnot
    · rcases hcase₂ with ⟨hfill, hkey, hempty, -⟩ | ⟨-, rfl⟩
      · exact absurd ⟨hfill, hkey, hempty⟩ hnot
      · rfl
  columns := by
    intro other flags' hflags'
    obtain ⟨flags, hflags, -⟩ := h.columns other flags' hflags'
    obtain ⟨known, hknown⟩ := ht.columns other flags hflags
    exact h.keeps other known hknown
  known := by
    intro a other hjoins
    rcases joins_append.mp hjoins with hold | ⟨-, hnew⟩
    · obtain ⟨flags, hflags⟩ := ht.known a other hold
      exact h.keeps other flags hflags
    · rw [← hst, htarget] at hnew
      obtain rfl := Option.some.inj hnew
      obtain ⟨flags, hflags⟩ := h.known
      exact h.keeps _ flags hflags
  origin := by
    intro other flags' hflags'
    obtain ⟨flags, hflags, ⟨-, hid, -, rfl⟩ | ⟨-, rfl⟩⟩ := h.flags other flags' hflags'
    · obtain ⟨known, hknown⟩ := h.known
      obtain ⟨rfl, -⟩ := ht.unique _ _ _ _ hflags hknown hid
      exact .inr ⟨x, joins_append.mpr (.inr ⟨rfl, hst ▸ htarget⟩), rfl⟩
    · rcases ht.origin other flags' hflags with hempty | ⟨a, hjoins, heq⟩
      · exact .inl hempty
      · exact .inr ⟨a, joins_append.mpr (.inl hjoins), heq⟩

theorem Takes.agree (h : Takes sheet st st' x kept fill) (ht : Tables sheet axes st)
    (ha : Agree sheet axes st) (hst : st = sharing sheet axes)
    (htarget : (st.outcome sheet x).target x = some kept)
    (hown : ∀ flags, Flags st kept flags → flagFingerprint sheet x = [] ∨
      flagFingerprint sheet x = flags ∨ fill ∧ flags = []) : Agree sheet (axes ++ [x]) st' where
  members := by
    intro a other flags' hjoins hflags'
    obtain ⟨flags, hflags, hcase⟩ := h.flags other flags' hflags'
    rcases joins_append.mp hjoins with hold | ⟨rfl, hnew⟩
    · have hmember := ha.members a other flags hold hflags
      rcases hcase with ⟨-, -, rfl, -⟩ | ⟨-, rfl⟩
      · exact .inl (hmember.elim id id)
      · exact hmember
    · rw [← hst, htarget] at hnew
      obtain rfl := Option.some.inj hnew
      rcases hcase with ⟨-, -, -, rfl⟩ | ⟨hnot, rfl⟩
      · exact .inr rfl
      · rcases hown flags' hflags with hempty | hsame | ⟨hfill, hnone⟩
        · exact .inl hempty
        · exact .inr hsame
        · exact absurd ⟨hfill, rfl, hnone⟩ hnot
  columns := by
    intro other column' flags' hcolumn' hflags'
    obtain ⟨column, hcolumn, hcolumnCase⟩ := h.columns other column' hcolumn'
    obtain ⟨flags, hflags, hcase⟩ := h.flags other flags' hflags'
    have hagree := ha.columns other column flags hcolumn hflags
    rcases hcolumnCase with ⟨hfill, hid, rfl⟩ | rfl
    · rcases hcase with ⟨-, -, -, rfl⟩ | ⟨hnot, rfl⟩
      · exact .inr rfl
      · obtain ⟨known, hknown⟩ := h.known
        obtain ⟨rfl, -⟩ := ht.unique _ _ _ _ hflags hknown hid
        rcases hown flags' hflags with hempty | hsame | ⟨-, hnone⟩
        · exact .inl hempty
        · exact .inr hsame
        · exact absurd ⟨hfill, hid, hnone⟩ hnot
    · rcases hcase with ⟨-, -, rfl, -⟩ | ⟨-, rfl⟩
      · exact .inl (hagree.elim id id)
      · exact hagree

theorem takes_same (ht : Tables sheet axes st) (hkept : st'.kept = st.kept)
    (hknown : ∃ flags, Flags st kept flags) (hbuckets : st'.buckets = st.buckets) (hcolumns : st'.byColumns = st.byColumns) :
    Takes sheet st st' x kept False := by
  have hflags (other : TimeAxis) (flags : Fingerprint) :
      Flags st' other flags ↔ Flags st other flags := by rw [Flags, Flags, hbuckets]
  refine ⟨hkept, hknown,
    fun other flags h => ⟨flags, (hflags _ _).mp h, .inr ⟨fun h => h.1, rfl⟩⟩, fun other flags h => ⟨flags, (hflags _ _).mpr h⟩, fun other flags h => ⟨flags, ?_, .inr rfl⟩,
    ?_⟩
  · rwa [ColumnFlags, hcolumns] at h
  · rw [hbuckets]
    exact ht.keyed

theorem takes_remembered (ht : Tables sheet axes st) (hkept : st'.kept = st.kept)
    (hknown : ∃ flags, Flags st kept flags)
    (hbuckets : st'.buckets = rememberFlags kept.id (flagFingerprint sheet x) st.buckets)
    (hcolumns : st'.byColumns = rememberFlags kept.id (flagFingerprint sheet x) st.byColumns) :
    Takes sheet st st' x kept True := by
  refine ⟨hkept, hknown, fun other flags' h => ?_, fun other flags h => ?_,
    fun other flags' h => ?_, fun key entry hentry => ?_⟩
  · obtain ⟨key, hmem⟩ := h
    rw [hbuckets, itemsOf_rememberFlags] at hmem
    obtain ⟨entry, hentry, heq⟩ := List.mem_map.mp hmem
    obtain ⟨rfl, rfl⟩ := Prod.mk.inj heq
    refine ⟨entry.2, ⟨key, hentry⟩, ?_⟩
    split_ifs with hfill
    · exact .inl ⟨trivial, hfill.1, hfill.2, rfl⟩
    · exact .inr ⟨fun hboth => hfill hboth.2, rfl⟩
  · obtain ⟨key, hmem⟩ := h
    refine ⟨if other.id = kept.id ∧ flags = [] then flagFingerprint sheet x else flags, key, ?_⟩
    rw [hbuckets, itemsOf_rememberFlags]
    exact List.mem_map.mpr ⟨_, hmem, rfl⟩
  · obtain ⟨key, hmem⟩ := h
    rw [hcolumns, itemsOf_rememberFlags] at hmem
    obtain ⟨entry, hentry, heq⟩ := List.mem_map.mp hmem
    obtain ⟨rfl, rfl⟩ := Prod.mk.inj heq
    refine ⟨entry.2, ⟨key, hentry⟩, ?_⟩
    split_ifs with hfill
    · exact .inl ⟨trivial, hfill.1, rfl⟩
    · exact .inr rfl
  · rw [hbuckets, itemsOf_rememberFlags] at hentry
    obtain ⟨old, hold, rfl⟩ := List.mem_map.mp hentry
    exact ht.keyed key old hold

theorem takes_filled (ht : Tables sheet axes st) (hsame : st'.kept = st.kept)
    (hkept : (kept, []) ∈ itemsOf (axisSignature sheet x) st.buckets)
    (hbuckets : st'.buckets =
      fillFlags (axisSignature sheet x) kept.id (flagFingerprint sheet x) st.buckets)
    (hcolumns : st'.byColumns = st.byColumns) : Takes sheet st st' x kept True := by
  have hkey := ht.keyed _ _ hkept
  refine ⟨hsame, ⟨[], _, hkept⟩, fun other flags' h => ?_, fun other flags h => ?_,
    fun other flags h => ⟨flags, ?_, .inr rfl⟩, fun key entry hentry => ?_⟩
  · obtain ⟨key, hmem⟩ := h
    rw [hbuckets, itemsOf_fillFlags] at hmem
    split_ifs at hmem with hsame
    · obtain ⟨entry, hentry, heq⟩ := List.mem_map.mp hmem
      obtain ⟨rfl, rfl⟩ := Prod.mk.inj heq
      refine ⟨entry.2, ⟨key, hentry⟩, ?_⟩
      split_ifs with hid
      · obtain ⟨-, hempty⟩ := ht.unique _ _ _ _ ⟨key, hentry⟩ ⟨_, hkept⟩ hid
        exact .inl ⟨trivial, hid, hempty, rfl⟩
      · exact .inr ⟨fun hboth => hid hboth.2.1, rfl⟩
    · refine ⟨flags', ⟨key, hmem⟩, .inr ⟨fun hboth => ?_, rfl⟩⟩
      obtain ⟨rfl, -⟩ := ht.unique _ _ _ _ ⟨key, hmem⟩ ⟨_, hkept⟩ hboth.2.1
      exact hsame (hkey.trans (ht.keyed key _ hmem).symm)
  · obtain ⟨key, hmem⟩ := h
    by_cases hsame : axisSignature sheet x = key
    · refine ⟨if other.id = kept.id then flagFingerprint sheet x else flags, key, ?_⟩
      rw [hbuckets, itemsOf_fillFlags, if_pos hsame]
      exact List.mem_map.mpr ⟨_, hmem, rfl⟩
    · refine ⟨flags, key, ?_⟩
      rwa [hbuckets, itemsOf_fillFlags, if_neg hsame]
  · rwa [ColumnFlags, hcolumns] at h
  · rw [hbuckets, itemsOf_fillFlags] at hentry
    split_ifs at hentry
    · obtain ⟨old, hold, rfl⟩ := List.mem_map.mp hentry
      exact ht.keyed key old hold
    · exact ht.keyed key entry hentry

theorem painted_of_outcome {previous : Entry} (h : st.outcome sheet x = .painted previous) :
    previous ∈ itemsOf (columnSignature x) st.byColumns ∧
      flagsCompatible previous.2 (flagFingerprint sheet x) = true := by
  unfold Sharing.outcome at h
  dsimp only at h
  split at h
  · cases h
  · split at h
    · rename_i previous' hpainted
      obtain rfl : previous' = previous := by injection h
      split_ifs at hpainted
      have hfound := List.find?_some hpainted
      exact ⟨List.mem_of_find?_eq_some hpainted, (Bool.and_eq_true_iff.mp hfound).2⟩
    · split at h <;> cases h

theorem matched_of_outcome {previous : Entry} (h : st.outcome sheet x = .matched previous) :
    previous ∈ itemsOf (axisSignature sheet x) st.buckets ∧
      flagsCompatible previous.2 (flagFingerprint sheet x) = true := by
  unfold Sharing.outcome at h
  dsimp only at h
  split at h
  · cases h
  · split at h
    · cases h
    · split at h
      · rename_i previous' hmatched
        obtain rfl : previous' = previous := by injection h
        have hfound := List.find?_some hmatched
        exact ⟨List.mem_of_find?_eq_some hmatched, hfound⟩
      · cases h

theorem takes_of_outcome (ht : Tables sheet axes st) {previous : Entry}
    (h : st.outcome sheet x = .painted previous ∨ st.outcome sheet x = .matched previous) :
    Takes sheet st (st.step sheet x) x previous.1
      (previous.2 = [] ∧ flagFingerprint sheet x ≠ []) := by
  rcases h with h | h
  · have hknown := ht.columns _ _ ⟨_, (painted_of_outcome h).1⟩
    rw [Sharing.step, h, Sharing.apply]
    dsimp only
    split_ifs with hfill
    · rw [eq_true hfill]
      exact takes_remembered ht rfl hknown rfl rfl
    · rw [eq_false hfill]
      exact takes_same ht rfl hknown rfl rfl
  · have hmem := (matched_of_outcome h).1
    rw [Sharing.step, h, Sharing.apply]
    dsimp only
    split_ifs with hfill
    · rw [eq_true hfill]
      exact takes_filled ht rfl (hfill.1 ▸ hmem) rfl rfl
    · rw [eq_false hfill]
      exact takes_same ht rfl ⟨_, _, hmem⟩ rfl rfl

section Kept

variable (h : st.outcome sheet x = .kept)

include h

theorem kept_kept : (st.step sheet x).kept = st.kept ++ [x] := by
  rw [Sharing.step, h, Sharing.apply]

theorem flags_kept {other : TimeAxis} {flags : Fingerprint} :
    Flags (st.step sheet x) other flags ↔
      Flags st other flags ∨ other = x ∧ flags = flagFingerprint sheet x := by
  rw [Sharing.step, h]
  simp only [Flags, Sharing.apply, itemsOf_push]
  constructor
  · rintro ⟨key, hmem⟩
    split_ifs at hmem
    · rcases List.mem_append.mp hmem with hold | hnew
      · exact .inl ⟨key, hold⟩
      · exact .inr (Prod.mk.inj (List.mem_singleton.mp hnew))
    · exact .inl ⟨key, hmem⟩
  · rintro (⟨key, hmem⟩ | ⟨rfl, rfl⟩)
    · refine ⟨key, ?_⟩
      split_ifs
      · exact List.mem_append_left _ hmem
      · exact hmem
    · exact ⟨_, by rw [if_pos rfl]; exact List.mem_append_right _ (List.mem_singleton_self _)⟩

theorem columnFlags_kept {other : TimeAxis} {flags : Fingerprint}
    (hflags : ColumnFlags (st.step sheet x) other flags) :
    ColumnFlags st other flags ∨ other = x ∧ flags = flagFingerprint sheet x := by
  rw [Sharing.step, h] at hflags
  simp only [ColumnFlags, Sharing.apply, itemsOf_push] at hflags
  obtain ⟨key, hmem⟩ := hflags
  split_ifs at hmem
  · rcases List.mem_append.mp hmem with hold | hnew
    · exact .inl ⟨key, hold⟩
    · exact .inr (Prod.mk.inj (List.mem_singleton.mp hnew))
  · exact .inl ⟨key, hmem⟩

theorem tables_kept (ht : Tables sheet axes st) (hst : st = sharing sheet axes)
    (hfresh : ∀ other ∈ axes, other.id ≠ x.id) : Tables sheet (axes ++ [x]) (st.step sheet x) where
  within := by
    rw [kept_kept h]
    intro other hother
    rcases List.mem_append.mp hother with hold | hnew
    · exact List.mem_append_left _ (ht.within other hold)
    · exact List.mem_append_right _ hnew
  keptOf := by
    intro other flags hflags
    rw [kept_kept h]
    rcases (flags_kept h).mp hflags with hold | ⟨rfl, -⟩
    · exact List.mem_append_left _ (ht.keptOf other flags hold)
    · exact List.mem_append_right _ (List.mem_singleton_self _)
  keyed := by
    intro key entry hentry
    rw [Sharing.step, h, Sharing.apply] at hentry
    dsimp only at hentry
    rw [itemsOf_push] at hentry
    split_ifs at hentry with hkey
    · rcases List.mem_append.mp hentry with hold | hnew
      · exact ht.keyed key entry hold
      · rw [List.mem_singleton.mp hnew, hkey]
    · exact ht.keyed key entry hentry
  unique := by
    intro k₁ f₁ k₂ f₂ h₁ h₂ hid
    rcases (flags_kept h).mp h₁ with hold₁ | ⟨rfl, rfl⟩
    · rcases (flags_kept h).mp h₂ with hold₂ | ⟨rfl, rfl⟩
      · exact ht.unique _ _ _ _ hold₁ hold₂ hid
      · exact absurd hid (hfresh _ (ht.within _ (ht.keptOf _ _ hold₁)))
    · rcases (flags_kept h).mp h₂ with hold₂ | ⟨rfl, rfl⟩
      · exact absurd hid.symm (hfresh _ (ht.within _ (ht.keptOf _ _ hold₂)))
      · exact ⟨rfl, rfl⟩
  columns := by
    intro other flags hflags
    rcases columnFlags_kept h hflags with hold | ⟨rfl, rfl⟩
    · obtain ⟨known, hknown⟩ := ht.columns other flags hold
      exact ⟨known, (flags_kept h).mpr (.inl hknown)⟩
    · exact ⟨_, (flags_kept h).mpr (.inr ⟨rfl, rfl⟩)⟩
  known := by
    intro a other hjoins
    rcases joins_append.mp hjoins with hold | ⟨rfl, hnew⟩
    · obtain ⟨flags, hflags⟩ := ht.known a other hold
      exact ⟨flags, (flags_kept h).mpr (.inl hflags)⟩
    · rw [← hst, h] at hnew
      obtain rfl := Option.some.inj hnew
      exact ⟨_, (flags_kept h).mpr (.inr ⟨rfl, rfl⟩)⟩
  origin := by
    intro other flags hflags
    rcases (flags_kept h).mp hflags with hold | ⟨rfl, rfl⟩
    · rcases ht.origin other flags hold with hempty | ⟨a, hjoins, heq⟩
      · exact .inl hempty
      · exact .inr ⟨a, joins_append.mpr (.inl hjoins), heq⟩
    · refine .inr ⟨other, joins_append.mpr (.inr ⟨rfl, ?_⟩), rfl⟩
      rw [← hst, h]
      rfl

theorem agree_kept (ht : Tables sheet axes st) (ha : Agree sheet axes st)
    (hst : st = sharing sheet axes) (hfresh : ∀ other ∈ axes, other.id ≠ x.id) :
    Agree sheet (axes ++ [x]) (st.step sheet x) where
  members := by
    intro a other flags hjoins hflags
    rcases joins_append.mp hjoins with hold | ⟨rfl, hnew⟩
    · obtain ⟨known, hknown⟩ := ht.known a other hold
      rcases (flags_kept h).mp hflags with hflags | ⟨rfl, -⟩
      · exact ha.members a other flags hold hflags
      · exact absurd rfl (hfresh _ (ht.within _ (ht.keptOf _ _ hknown)))
    · rw [← hst, h] at hnew
      obtain rfl := Option.some.inj hnew
      rcases (flags_kept h).mp hflags with hflags | ⟨-, rfl⟩
      · exact absurd rfl (hfresh _ (ht.within _ (ht.keptOf _ _ hflags)))
      · exact .inr rfl
  columns := by
    intro other flags flags' hcolumn hflags
    rcases columnFlags_kept h hcolumn with hcolumn | ⟨rfl, rfl⟩
    · obtain ⟨known, hknown⟩ := ht.columns other flags hcolumn
      rcases (flags_kept h).mp hflags with hflags | ⟨rfl, -⟩
      · exact ha.columns other flags flags' hcolumn hflags
      · exact absurd rfl (hfresh _ (ht.within _ (ht.keptOf _ _ hknown)))
    · rcases (flags_kept h).mp hflags with hflags | ⟨-, rfl⟩
      · exact absurd rfl (hfresh _ (ht.within _ (ht.keptOf _ _ hflags)))
      · exact .inr rfl

end Kept

section Derived

variable {other : TimeAxis} (h : st.outcome sheet x = .derived other)

include h

theorem joins_derived (hst : st = sharing sheet axes) :
    Joins sheet (axes ++ [x]) a kept ↔ Joins sheet axes a kept := by
  rw [joins_append, ← hst, h]
  exact or_iff_left fun hnew => nomatch hnew.2

theorem tables_derived (ht : Tables sheet axes st) (hst : st = sharing sheet axes) :
    Tables sheet (axes ++ [x]) (st.step sheet x) := by
  have hjoins (a kept : TimeAxis) := @joins_derived sheet axes x a kept st other h hst
  have hstep : st.step sheet x = { st with aliases := set x.id other.id st.aliases } := by
    rw [Sharing.step, h, Sharing.apply]
  rw [hstep]
  exact ⟨fun kept hkept => List.mem_append_left _ (ht.within kept hkept), ht.keptOf, ht.keyed,
    ht.unique, ht.columns, fun a kept hnew => ht.known a kept ((hjoins a kept).mp hnew),
    fun kept flags hflags => (ht.origin kept flags hflags).imp_right fun ⟨a, ha, heq⟩ =>
      ⟨a, (hjoins a kept).mpr ha, heq⟩⟩

theorem agree_derived (ha : Agree sheet axes st) (hst : st = sharing sheet axes) :
    Agree sheet (axes ++ [x]) (st.step sheet x) := by
  have hstep : st.step sheet x = { st with aliases := set x.id other.id st.aliases } := by
    rw [Sharing.step, h, Sharing.apply]
  rw [hstep]
  exact ⟨fun a kept flags hnew => ha.members a kept flags ((joins_derived h hst).mp hnew),
    ha.columns⟩

end Derived

theorem tables_step (ht : Tables sheet axes st) (hst : st = sharing sheet axes)
    (hfresh : ∀ other ∈ axes, other.id ≠ x.id) : Tables sheet (axes ++ [x]) (st.step sheet x) := by
  cases hout : st.outcome sheet x with
  | derived other => exact tables_derived hout ht hst
  | painted previous =>
    exact (takes_of_outcome ht (.inl hout)).tables ht hst (by rw [hout]; rfl)
  | matched previous =>
    exact (takes_of_outcome ht (.inr hout)).tables ht hst (by rw [hout]; rfl)
  | kept => exact tables_kept hout ht hst hfresh

theorem agree_step (ht : Tables sheet axes st) (ha : Agree sheet axes st)
    (hst : st = sharing sheet axes) (hfresh : ∀ other ∈ axes, other.id ≠ x.id)
    (hstale : ¬Stale sheet st x) : Agree sheet (axes ++ [x]) (st.step sheet x) := by
  cases hout : st.outcome sheet x with
  | derived other => exact agree_derived hout ha hst
  | painted previous =>
    apply (takes_of_outcome ht (.inl hout)).agree ht ha hst (by rw [hout]; rfl)
    intro flags hflags
    obtain ⟨hmem, hcompatible⟩ := painted_of_outcome hout
    have hcolumn := ha.columns _ _ flags ⟨_, hmem⟩ hflags
    have hknown : flagsCompatible flags (flagFingerprint sheet x) = true := by
      by_contra hnot
      exact hstale ⟨previous, flags, hout, hflags, Bool.eq_false_iff.mpr hnot⟩
    rw [flagsCompatible_iff] at hcompatible hknown
    by_cases hown : flagFingerprint sheet x = []
    · exact .inl hown
    · rcases hknown with hempty | hnone | hsame
      · rcases hcolumn with hfill | hequal
        · exact .inr (.inr ⟨⟨hfill, hown⟩, hempty⟩)
        · exact .inr (.inr ⟨⟨hequal.trans hempty, hown⟩, hempty⟩)
      · exact absurd hnone hown
      · exact .inr (.inl hsame.symm)
  | matched previous =>
    apply (takes_of_outcome ht (.inr hout)).agree ht ha hst (by rw [hout]; rfl)
    intro flags hflags
    obtain ⟨hmem, hcompatible⟩ := matched_of_outcome hout
    obtain ⟨-, rfl⟩ := ht.unique _ _ _ _ hflags ⟨_, hmem⟩ rfl
    rw [flagsCompatible_iff] at hcompatible
    by_cases hown : flagFingerprint sheet x = []
    · exact .inl hown
    · rcases hcompatible with hempty | hnone | hsame
      · exact .inr (.inr ⟨⟨hempty, hown⟩, hempty⟩)
      · exact absurd hnone hown
      · exact .inr (.inl hsame.symm)
  | kept => exact agree_kept hout ht ha hst hfresh

theorem fresh_of_nodup (h : ((axes ++ [x]).map (·.id)).Nodup) :
    ∀ other ∈ axes, other.id ≠ x.id := by
  rw [List.map_append] at h
  intro other hother hid
  exact (List.nodup_append.mp h).2.2 _ (List.mem_map_of_mem hother) _
    (List.mem_singleton_self _) hid

theorem tables_sharing {axes : List TimeAxis} (hids : (axes.map (·.id)).Nodup) :
    Tables sheet axes (sharing sheet axes) := by
  induction axes using List.reverseRecOn with
  | nil =>
    have hnone (key : AxisSignature) : itemsOf key (sharing sheet []).buckets = [] := rfl
    have hnone' (key : ColumnSignature) : itemsOf key (sharing sheet []).byColumns = [] := rfl
    have hkept : (sharing sheet []).kept = [] := rfl
    refine ⟨?_, ?_, ?_, ?_, ?_, ?_, ?_⟩ <;> simp [hkept, Flags, ColumnFlags, hnone, hnone', Joins]
  | append_singleton axes x ih =>
    have hbefore : (axes.map (·.id)).Nodup :=
      hids.sublist ((List.sublist_append_left axes [x]).map _)
    rw [sharing_append]
    exact tables_step (ih hbefore) rfl (fresh_of_nodup hids)

theorem agree_sharing {axes : List TimeAxis} (hids : (axes.map (·.id)).Nodup)
    (hstale : ∀ before axis after, axes = before ++ axis :: after →
      ¬Stale sheet (sharing sheet before) axis) : Agree sheet axes (sharing sheet axes) := by
  induction axes using List.reverseRecOn with
  | nil =>
    have hnone (key : ColumnSignature) : itemsOf key (sharing sheet []).byColumns = [] := rfl
    refine ⟨?_, ?_⟩ <;> simp [ColumnFlags, hnone, Joins]
  | append_singleton axes x ih =>
    have hbefore : (axes.map (·.id)).Nodup :=
      hids.sublist ((List.sublist_append_left axes [x]).map _)
    rw [sharing_append]
    apply agree_step (tables_sharing hbefore) (ih hbefore ?_) rfl (fresh_of_nodup hids)
    · exact hstale axes x [] rfl
    · rintro before axis after rfl
      exact hstale before axis (after ++ [x]) (by simp)

theorem alias_step (st : Sharing) (x : TimeAxis) (id : String) :
    get id (st.step sheet x).aliases =
      if x.id = id then
        match st.outcome sheet x with
        | .derived other => some other.id
        | .painted previous => some previous.1.id
        | .matched previous => some previous.1.id
        | .kept => get id st.aliases
      else get id st.aliases := by
  unfold Sharing.step Sharing.apply
  cases st.outcome sheet x with
  | derived other => exact get_set ..
  | painted previous =>
    dsimp only
    split <;> exact get_set ..
  | matched previous =>
    dsimp only
    split <;> exact get_set ..
  | kept => simp

theorem alias_none {axes : List TimeAxis} {id : String} (hne : ∀ axis ∈ axes, axis.id ≠ id) :
    get id (sharing sheet axes).aliases = none := by
  induction axes using List.reverseRecOn with
  | nil => rfl
  | append_singleton axes x ih =>
    rw [sharing_append, alias_step, if_neg (hne x (by simp))]
    exact ih fun axis hmem => hne axis (by simp [hmem])

theorem id_of_joins {axes : List TimeAxis} (hids : (axes.map (·.id)).Nodup)
    (hjoins : Joins sheet axes a kept) :
    (get a.id (sharing sheet axes).aliases).getD a.id = kept.id := by
  induction axes using List.reverseRecOn with
  | nil => cases hjoins.mem
  | append_singleton axes x ih =>
    have hfresh := fresh_of_nodup hids
    rw [sharing_append, alias_step]
    rcases joins_append.mp hjoins with hold | ⟨rfl, hnew⟩
    · rw [if_neg (hfresh a hold.mem).symm]
      exact ih (hids.sublist ((List.sublist_append_left axes [x]).map _)) hold
    · rw [if_pos rfl]
      cases hout : (sharing sheet axes).outcome sheet a with
      | derived other => simp [hout, Outcome.target] at hnew
      | painted previous =>
        rw [hout] at hnew
        obtain rfl := Option.some.inj hnew
        rfl
      | matched previous =>
        rw [hout] at hnew
        obtain rfl := Option.some.inj hnew
        rfl
      | kept =>
        rw [hout] at hnew
        obtain rfl := Option.some.inj hnew
        rw [alias_none hfresh]
        rfl

theorem Joins.extend (h : Joins sheet axes a kept) (after : List TimeAxis) :
    Joins sheet (axes ++ after) a kept := by
  obtain ⟨before, middle, rfl, htarget⟩ := h
  exact ⟨before, middle ++ after, by simp, htarget⟩

theorem incompatible_of_stale {before : List TimeAxis} (after : List TimeAxis)
    (hids : (before.map (·.id)).Nodup) (hstale : Stale sheet (sharing sheet before) x) :
    ∃ a kept, Joins sheet (before ++ x :: after) a kept ∧
      Joins sheet (before ++ x :: after) x kept ∧
      flagsCompatible (flagFingerprint sheet a) (flagFingerprint sheet x) = false := by
  obtain ⟨previous, flags, hout, hflags, hconflict⟩ := hstale
  rcases (tables_sharing hids).origin _ _ hflags with rfl | ⟨a, hjoins, rfl⟩
  · simp [flagsCompatible] at hconflict
  · exact ⟨a, previous.1, hjoins.extend _, ⟨before, after, rfl, by rw [hout]; rfl⟩, hconflict⟩

theorem mem_mapIds {aliases : List (String × String)} {ids : List String} {id : String} :
    id ∈ mapIds aliases ids ↔ ∃ old ∈ ids, (get old aliases).getD old = id := by
  induction ids using List.reverseRecOn with
  | nil => simp [mapIds]
  | append_singleton ids last ih =>
    have hlast : mapIds aliases (ids ++ [last]) =
        if (get last aliases).getD last ∈ mapIds aliases ids then mapIds aliases ids
        else mapIds aliases ids ++ [(get last aliases).getD last] := by
      rw [mapIds, List.foldl_append]
      rfl
    have hids : id ∈ mapIds aliases (ids ++ [last]) ↔
        id ∈ mapIds aliases ids ∨ (get last aliases).getD last = id := by
      rw [hlast]
      split_ifs with hseen
      · exact ⟨.inl, fun h => h.elim (fun hold => hold) fun hnew => hnew ▸ hseen⟩
      · rw [List.mem_append, List.mem_singleton, eq_comm (a := id)]
    rw [hids, ih]
    simp only [List.mem_append, List.mem_singleton, or_and_right, exists_or, exists_eq_left]

theorem axisIds_shareRepeatedAxes (sheet : Sheet) :
    List.Forall₂ (fun block shared => ∀ id, id ∈ shared.axisIds ↔
      ∃ old ∈ block.axisIds, sharedId sheet old = id)
      sheet.blocks (shareRepeatedAxes sheet).1 := by
  unfold shareRepeatedAxes
  dsimp only
  split_ifs with hnone
  · apply List.forall₂_same.mpr
    intro block _ id
    simp [sharedId, hnone]
  · apply List.forall₂_map_right_iff.mpr
    apply List.forall₂_same.mpr
    intro block _ id
    exact mem_mapIds

theorem mem_shareRepeatedAxes {sheet : Sheet} {kept : TimeAxis}
    (h : kept ∈ (sharing sheet sheet.axes).kept) : kept ∈ (shareRepeatedAxes sheet).2 := by
  unfold shareRepeatedAxes
  dsimp only
  split_ifs
  · exact (tables_sharing sheet.ids).within kept h
  · exact h

theorem mem_axes_of_shared {sheet : Sheet} {kept : TimeAxis}
    (h : kept ∈ (shareRepeatedAxes sheet).2) : kept ∈ sheet.axes := by
  unfold shareRepeatedAxes at h
  dsimp only at h
  split_ifs at h
  · exact h
  · exact (tables_sharing sheet.ids).within kept h

theorem joins_of_not_derived {sheet : Sheet} (ha : a ∈ sheet.axes)
    (h : ¬Derived sheet sheet.axes a) : ∃ kept, Joins sheet sheet.axes a kept := by
  obtain ⟨before, after, hsplit⟩ := List.append_of_mem ha
  cases hout : (sharing sheet before).outcome sheet a with
  | derived other => exact absurd ⟨before, after, other, hsplit, hout⟩ h
  | painted previous => exact ⟨previous.1, before, after, hsplit, by rw [hout]; rfl⟩
  | matched previous => exact ⟨previous.1, before, after, hsplit, by rw [hout]; rfl⟩
  | kept => exact ⟨a, before, after, hsplit, by rw [hout]; rfl⟩

theorem split_unique {axes before after before' after' : List TimeAxis} (hnodup : axes.Nodup)
    (h : axes = before ++ a :: after) (h' : axes = before' ++ a :: after') : before = before' := by
  subst h
  obtain ⟨hfresh, -⟩ := List.nodup_cons.mp (List.nodup_middle.mp hnodup)
  obtain ⟨hbefore, hafter⟩ : a ∉ before ∧ a ∉ after := by simpa using hfresh
  exact ((List.append_cons_inj_of_notMem hbefore hafter).mp h').1

theorem mergedInto_iff {sheet : Sheet} :
    MergedInto sheet a kept ↔ Joins sheet sheet.axes a kept := by
  constructor
  · rintro ⟨hgiven, hunderived, hout, hshown⟩
    obtain ⟨target, hjoins⟩ := joins_of_not_derived hgiven hunderived
    obtain ⟨flags, hflags⟩ := (tables_sharing sheet.ids).known a target hjoins
    have htarget : target ∈ sheet.axes :=
      (tables_sharing sheet.ids).within _ ((tables_sharing sheet.ids).keptOf _ _ hflags)
    have hid : target.id = kept.id := (id_of_joins sheet.ids hjoins).symm.trans hshown
    have hsame : target = kept :=
      List.inj_on_of_nodup_map sheet.ids htarget (mem_axes_of_shared hout) hid
    exact hsame ▸ hjoins
  · intro hjoins
    obtain ⟨flags, hflags⟩ := (tables_sharing sheet.ids).known a kept hjoins
    refine ⟨hjoins.mem, ?_, ?_, id_of_joins sheet.ids hjoins⟩
    · rintro ⟨before, after, other, hsplit, hout⟩
      obtain ⟨before', after', hsplit', htarget⟩ := hjoins
      obtain rfl := split_unique sheet.ids.of_map hsplit hsplit'
      rw [hout] at htarget
      cases htarget
    · exact mem_shareRepeatedAxes ((tables_sharing sheet.ids).keptOf _ _ hflags)

variable (sheet) in
theorem shared_flags_compatible_iff :
    SharedCompatible sheet ↔ ∀ before axis after, sheet.axes = before ++ axis :: after →
      ¬Stale sheet (sharing sheet before) axis := by
  constructor
  · intro h before axis after hsplit hstale
    have hids : (before.map (·.id)).Nodup := by
      have hids := sheet.ids
      rw [hsplit] at hids
      exact hids.sublist ((List.sublist_append_left _ _).map _)
    obtain ⟨a, kept, hfirst, hsecond, hconflict⟩ :=
      incompatible_of_stale after hids hstale
    rw [← hsplit] at hfirst hsecond
    rw [h a axis kept (mergedInto_iff.mpr hfirst) (mergedInto_iff.mpr hsecond)] at hconflict
    cases hconflict
  · intro hstale a b kept ha hb
    rw [mergedInto_iff] at ha hb
    have hagree := agree_sharing sheet.ids hstale
    obtain ⟨flags, hflags⟩ := (tables_sharing sheet.ids).known a kept ha
    have hfirst := hagree.members a kept flags ha hflags
    have hsecond := hagree.members b kept flags hb hflags
    rw [flagsCompatible_iff]
    rcases hfirst with hempty | hfirst
    · exact .inl hempty
    · rcases hsecond with hempty | hsecond
      · exact .inr (.inl hempty)
      · exact .inr (.inr (hfirst.trans hsecond.symm))

def markedPeriod : AxisPeriod :=
  { col := 4, text := "2024 plan", variant := some "plan", periodKey := "2024",
    explicitRole := true }

def conflictingSheet : Sheet where
  blocks :=
    [{ blockId := "a", labelCol := 1, axisIds := ["a"], rows := [] },
      { blockId := "b", labelCol := 1, axisIds := ["b"],
        rows := [{ row := 2, label := "actual", kind := .flag }] },
      { blockId := "c", labelCol := 1, axisIds := ["c"],
        rows := [{ row := 3, label := "actual", kind := .flag }] }]
  axes :=
    [⟨"a", some "year", 1, [markedPeriod], []⟩, ⟨"b", some "year", 5, [markedPeriod], []⟩,
      ⟨"c", some "year", 9, [{ col := 4, text := "2024", periodKey := "2024" }], []⟩]
  ids := by decide
  casefold := id
  flagBit := fun row _ => row = 2
  derivedAxis := fun _ _ => false

theorem unmarked_axis_joins_other_flags :
    (∃ a b kept, MergedInto conflictingSheet a kept ∧ MergedInto conflictingSheet b kept ∧
      flagFingerprint conflictingSheet a = [("actual", [true])] ∧
      flagFingerprint conflictingSheet b = [("actual", [false])]) ∧
      ¬SharedCompatible conflictingSheet := by
  have hjoins : Joins conflictingSheet conflictingSheet.axes conflictingSheet.axes[1]
      conflictingSheet.axes[0] :=
    ⟨[conflictingSheet.axes[0]], [conflictingSheet.axes[2]], rfl, by decide +kernel⟩
  have hlast : Joins conflictingSheet conflictingSheet.axes conflictingSheet.axes[2]
      conflictingSheet.axes[0] :=
    ⟨[conflictingSheet.axes[0], conflictingSheet.axes[1]], [], rfl, by decide +kernel⟩
  rw [← mergedInto_iff] at hjoins hlast
  refine ⟨⟨_, _, _, hjoins, hlast, rfl, rfl⟩, fun h => ?_⟩
  have hcompatible := h _ _ _ hjoins hlast
  cases hcompatible

end FinanceContext.Timelines
