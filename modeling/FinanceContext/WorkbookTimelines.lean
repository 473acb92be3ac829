import FinanceContext.ContextAxes
import FinanceContext.SharedAxes

namespace FinanceContext.WorkbookTimelines

open Dictionaries Timelines

abbrev Dates := List (Option String × Option String)

structure Member where
  sheetIndex : ℕ
  axisIndex : ℕ
  axis : TimeAxis
  dates : Option Dates
  flags : Option Fingerprint
deriving DecidableEq

structure Bucket where
  dates : Option Dates
  flags : Option Fingerprint
  members : List Member

structure Signature where
  grain : String
  periods : List PeriodSignature
deriving DecidableEq

/-- A layout whose axes have distinct ids, and the flag cells of its sheets. -/
structure Workbook extends Layout where
  ids : ((sheets.flatMap (·.axes)).map (·.id)).Nodup
  casefold : String → String
  flagBit : String → ℕ → ℕ → Bool

variable (book : Workbook)

section Members

def timelineDates (axis : TimeAxis) : Option Dates :=
  let dates := axis.seriesPeriods.map fun period => (period.startDate, period.endDate)
  if dates.any fun (start, finish) => Cell.given start || Cell.given finish then some dates
  else none

def timelineFlags (sheet : SheetLayout) (axis : TimeAxis) : Option Fingerprint :=
  let rows := (sheet.blocks.filter fun block =>
    block.kind = .timeline && block.axisIds.contains axis.id).flatMap fun block =>
      block.rows.filter (·.kind = .flag)
  if rows = [] then none
  else some (rows.map fun row =>
    (row.label, axis.seriesPeriods.map fun period => book.flagBit sheet.name row.row period.col))

def timelineSignature (axis : TimeAxis) : Option Signature :=
  match axis.grain with
  | none => none
  | some grain =>
    if grain ≠ "model_year" ∧ grain ≠ "year" then none
    else if axis.seriesPeriods.length < 3 then none
    else some ⟨grain, axis.seriesPeriods.map (periodSignature book.casefold)⟩

def memberOf (sheet : SheetLayout × ℕ) (axis : TimeAxis × ℕ) : Option (Signature × Member) :=
  (timelineSignature book axis.1).map fun signature =>
    (signature, ⟨sheet.2, axis.2, axis.1, timelineDates axis.1, timelineFlags book sheet.1 axis.1⟩)

/-- The axes that may show a shared timeline, each with its signature. -/
def located : List (Signature × Member) :=
  book.sheets.zipIdx.flatMap fun sheet => sheet.1.axes.zipIdx.filterMap (memberOf book sheet)

end Members

section Buckets

def datesCompatible (left right : Option Dates) : Bool :=
  match left, right with
  | some left, some right => left = right
  | _, _ => true

def Bucket.accepts (bucket : Bucket) (member : Member) : Bool :=
  datesCompatible bucket.dates member.dates &&
    flagsCompatible (bucket.flags.getD []) (member.flags.getD [])

def Bucket.add (bucket : Bucket) (member : Member) : Bucket where
  dates := bucket.dates.or member.dates
  flags := bucket.flags.or member.flags
  members := bucket.members ++ [member]

/-- A member goes to the first bucket that accepts it, or to one of its own. -/
def place (member : Member) : List Bucket → List Bucket
  | [] => [⟨member.dates, member.flags, [member]⟩]
  | bucket :: buckets =>
    if bucket.accepts member then bucket.add member :: buckets
    else bucket :: place member buckets

def timelineBuckets (members : List Member) : List Bucket :=
  members.foldl (fun buckets member => place member buckets) []

end Buckets

section Aliases

/-- `_timeline_rank`, compared as a tuple. -/
def rankLt (left right : Member) : Bool :=
  let leftFlags := (left.flags.map List.length).getD 0
  let rightFlags := (right.flags.map List.length).getD 0
  if left.dates.isSome ≠ right.dates.isSome then right.dates.isSome
  else if leftFlags ≠ rightFlags then leftFlags < rightFlags
  else if left.sheetIndex ≠ right.sheetIndex then right.sheetIndex < left.sheetIndex
  else right.axisIndex < left.axisIndex

/-- `max` by rank; the first of the greatest. -/
def canonical (first : Member) (members : List Member) : Member :=
  members.foldl (fun best member => if rankLt best member then member else best) first

/-- The member whose axis stands for the bucket, if there are two members at least. -/
def chosen : List Member → Option Member
  | first :: second :: members => some (canonical first (second :: members))
  | _ => none

def bucketAliases (members : List Member) : List (String × String) :=
  match chosen members with
  | some found => members.map fun member => (member.axis.id, found.axis.id)
  | none => []

def aliases : List (String × String) :=
  filled (((grouped (located book)).flatMap fun group => timelineBuckets group.2).flatMap
    fun bucket => bucketAliases bucket.members)

def timelineId (axisId : String) : String := (get axisId (aliases book)).getD axisId

/-- `link_workbook_timelines` -/
def linkBlock (block : Block) : Block :=
  if block.kind ≠ .timeline ∨ block.axisIds = [] then block
  else { block with timelineIds := block.axisIds.map (timelineId book) }

def linkWorkbookTimelines : Layout where
  sheets := book.sheets.map fun sheet => { sheet with blocks := sheet.blocks.map (linkBlock book) }

/-- Two axes, each on its sheet, that can show one timeline. -/
structure Linkable (sheet sheet' : SheetLayout) (a b : TimeAxis) : Prop where
  grain : a.grain = b.grain
  signature : timelineSignature book a = timelineSignature book b
  dates : datesCompatible (timelineDates a) (timelineDates b) = true
  flags : flagsCompatible ((timelineFlags book sheet a).getD [])
    ((timelineFlags book sheet' b).getD []) = true

end Aliases

section Grouping

/-- What is known of one value is nothing, or what is remembered. -/
def Fits {α : Type} (remembered known : Option α) : Prop := known = none ∨ known = remembered

/-- The members of a bucket agree with what the bucket remembers. -/
structure Agrees (bucket : Bucket) : Prop where
  dates : ∀ m ∈ bucket.members, Fits bucket.dates m.dates
  flags : ∀ m ∈ bucket.members, Fits bucket.flags m.flags
  filled : bucket.flags ≠ some []

theorem fits_or {α : Type} {remembered known : Option α} (h : Fits remembered known)
    (new : Option α) : Fits (remembered.or new) known := by
  rcases h with rfl | rfl
  · exact .inl rfl
  · cases known with
    | none => exact .inl rfl
    | some a => exact .inr rfl

theorem fits_new {α : Type} {remembered new : Option α}
    (h : ∀ a b, remembered = some a → new = some b → a = b) : Fits (remembered.or new) new := by
  cases remembered with
  | none => exact .inr rfl
  | some a =>
    cases new with
    | none => exact .inl rfl
    | some b => exact .inr (congrArg some (h a b rfl rfl).symm)

variable {bucket : Bucket} {buckets : List Bucket} {member : Member} {members : List Member}

theorem Agrees.add (h : Agrees bucket) (haccepts : bucket.accepts member = true)
    (hfilled : member.flags ≠ some []) : Agrees (bucket.add member) := by
  obtain ⟨hdates, hflags⟩ := Bool.and_eq_true_iff.mp haccepts
  have hsame : ∀ f g, bucket.flags = some f → member.flags = some g → f = g := by
    intro f g hf hg
    have hf' : f ≠ [] := fun hnil => h.filled (hnil ▸ hf)
    have hg' : g ≠ [] := fun hnil => hfilled (hnil ▸ hg)
    simpa [flagsCompatible, hf, hg, hf', hg'] using hflags
  refine ⟨fun m hm => ?_, fun m hm => ?_, ?_⟩
  · rcases List.mem_append.mp hm with hold | hnew
    · exact fits_or (h.dates m hold) _
    · rw [List.mem_singleton.mp hnew]
      apply fits_new
      intro a b ha hb
      simpa [datesCompatible, ha, hb] using hdates
  · rcases List.mem_append.mp hm with hold | hnew
    · exact fits_or (h.flags m hold) _
    · rw [List.mem_singleton.mp hnew]
      exact fits_new hsame
  · rw [Bucket.add]
    intro hnil
    rcases Option.or_eq_some_iff.mp hnil with hold | ⟨-, hnew⟩
    · exact h.filled hold
    · exact hfilled hnew

theorem agrees_place (h : ∀ bucket ∈ buckets, Agrees bucket) (hfilled : member.flags ≠ some []) :
    ∀ bucket ∈ place member buckets, Agrees bucket := by
  induction buckets with
  | nil =>
    intro bucket hbucket
    obtain rfl := List.mem_singleton.mp hbucket
    refine ⟨fun m hm => ?_, fun m hm => ?_, hfilled⟩
    · exact .inr (congrArg Member.dates (List.mem_singleton.mp hm))
    · exact .inr (congrArg Member.flags (List.mem_singleton.mp hm))
  | cons first buckets ih =>
    obtain ⟨hfirst, hrest⟩ := List.forall_mem_cons.mp h
    rw [place]
    split_ifs with haccepts
    · exact List.forall_mem_cons.mpr ⟨hfirst.add haccepts hfilled, hrest⟩
    · exact List.forall_mem_cons.mpr ⟨hfirst, ih hrest⟩

theorem perm_place (member : Member) (buckets : List Bucket) :
    ((place member buckets).flatMap (·.members)).Perm
      (buckets.flatMap (·.members) ++ [member]) := by
  induction buckets with
  | nil => exact .refl _
  | cons bucket buckets ih =>
    rw [place]
    split_ifs
    · simp only [List.flatMap_cons, Bucket.add, List.append_assoc]
      exact List.perm_append_comm.append_left _
    · simp only [List.flatMap_cons, List.append_assoc]
      exact ih.append_left _

theorem timelineBuckets_concat (members : List Member) (member : Member) :
    timelineBuckets (members ++ [member]) = place member (timelineBuckets members) := by
  simp [timelineBuckets]

theorem agrees_timelineBuckets (hfilled : ∀ m ∈ members, m.flags ≠ some []) :
    ∀ bucket ∈ timelineBuckets members, Agrees bucket := by
  induction members using List.reverseRecOn with
  | nil => exact List.forall_mem_nil _
  | append_singleton members member ih =>
    rw [timelineBuckets_concat]
    apply agrees_place
    · exact ih fun m hm => hfilled m (List.mem_append_left _ hm)
    · exact hfilled member (by simp)

theorem perm_timelineBuckets (members : List Member) :
    ((timelineBuckets members).flatMap (·.members)).Perm members := by
  induction members using List.reverseRecOn with
  | nil => exact .refl _
  | append_singleton members member ih =>
    rw [timelineBuckets_concat]
    exact (perm_place member _).trans (ih.append_right _)

theorem canonical_mem (first : Member) (members : List Member) :
    canonical first members ∈ first :: members := by
  induction members generalizing first with
  | nil => exact List.mem_cons_self
  | cons member members ih =>
    have hmem := ih (if rankLt first member then member else first)
    rw [canonical, List.foldl_cons]
    rcases List.mem_cons.mp hmem with heq | hlater
    · rw [canonical] at heq
      rw [heq]
      split_ifs <;> simp
    · exact List.mem_cons_of_mem _ (List.mem_cons_of_mem _ hlater)

theorem Agrees.compatible (h : Agrees bucket) {m m' : Member} (hm : m ∈ bucket.members)
    (hm' : m' ∈ bucket.members) :
    datesCompatible m.dates m'.dates = true ∧
      flagsCompatible (m.flags.getD []) (m'.flags.getD []) = true := by
  constructor
  · rcases h.dates m hm with hdates | hdates
    · rw [hdates]
      rfl
    · rcases h.dates m' hm' with hdates' | hdates'
      · rw [hdates']
        cases m.dates <;> rfl
      · rw [hdates, hdates']
        cases bucket.dates <;> simp [datesCompatible]
  · rcases h.flags m hm with hflags | hflags
    · simp [hflags, flagsCompatible]
    · rcases h.flags m' hm' with hflags' | hflags'
      · simp [hflags', flagsCompatible]
      · simp [hflags, hflags', flagsCompatible]

end Grouping

section Located

variable {book}

theorem flags_ne_nil (sheet : SheetLayout) (axis : TimeAxis) :
    timelineFlags book sheet axis ≠ some [] := by
  unfold timelineFlags
  simp only
  split_ifs with hnil
  · exact fun h => by cases h
  · intro h
    exact hnil (List.map_eq_nil_iff.mp (Option.some.inj h))

theorem of_mem_located {signature : Signature} {m : Member}
    (h : (signature, m) ∈ located book) :
    ∃ sheet ∈ book.sheets, m.axis ∈ sheet.axes ∧ timelineSignature book m.axis = some signature ∧
      m.dates = timelineDates m.axis ∧ m.flags = timelineFlags book sheet m.axis := by
  obtain ⟨⟨sheet, i⟩, hsheet, hm⟩ := List.mem_flatMap.mp h
  obtain ⟨⟨axis, j⟩, haxis, hm⟩ := List.mem_filterMap.mp hm
  obtain ⟨found, hfound, heq⟩ := Option.map_eq_some_iff.mp hm
  obtain ⟨rfl, rfl⟩ := Prod.mk.inj heq
  exact ⟨sheet, List.fst_mem_of_mem_zipIdx hsheet, List.fst_mem_of_mem_zipIdx haxis, hfound, rfl,
    rfl⟩

theorem sublist_members (sheet : SheetLayout × ℕ) (axes : List TimeAxis) (k : ℕ) :
    (((axes.zipIdx k).filterMap (memberOf book sheet)).map (·.2.axis.id)).Sublist
      (axes.map (·.id)) := by
  induction axes generalizing k with
  | nil => exact .refl _
  | cons axis axes ih =>
    rw [List.zipIdx_cons, List.filterMap_cons]
    cases hsignature : timelineSignature book axis with
    | none =>
      simp only [memberOf, hsignature, Option.map_none]
      exact (ih (k + 1)).cons _
    | some signature =>
      simp only [memberOf, hsignature, Option.map_some]
      exact (ih (k + 1)).cons_cons _

theorem sublist_located (sheets : List SheetLayout) (k : ℕ) :
    (((sheets.zipIdx k).flatMap fun sheet =>
      sheet.1.axes.zipIdx.filterMap (memberOf book sheet)).map (·.2.axis.id)).Sublist
        ((sheets.flatMap (·.axes)).map (·.id)) := by
  induction sheets generalizing k with
  | nil => exact .refl _
  | cons sheet sheets ih =>
    rw [List.zipIdx_cons, List.flatMap_cons, List.flatMap_cons, List.map_append, List.map_append]
    exact (sublist_members (sheet, k) sheet.axes 0).append (ih (k + 1))

theorem nodup_located : ((located book).map (·.2.axis.id)).Nodup :=
  book.ids.sublist (sublist_located book.sheets 0)

end Located

section Linking

/-- The member lies in the bucket, one of the buckets of some signature. -/
def InBucket (bucket : Bucket) (m : Member) : Prop :=
  ∃ group ∈ grouped (located book), bucket ∈ timelineBuckets group.2 ∧ m ∈ bucket.members

variable {book} {bucket bucket' : Bucket} {m m' : Member}

theorem chosen_mem {members : List Member} {found : Member} (h : chosen members = some found) :
    found ∈ members := by
  unfold chosen at h
  split at h
  · rw [← Option.some.inj h]
    exact canonical_mem _ _
  · cases h

theorem mem_located {group : Signature × List Member} (hgroup : group ∈ grouped (located book))
    (hbucket : bucket ∈ timelineBuckets group.2) (hm : m ∈ bucket.members) :
    (group.1, m) ∈ located book := by
  have hmem : m ∈ group.2 :=
    (perm_timelineBuckets group.2).mem_iff.mp (List.mem_flatMap.mpr ⟨bucket, hbucket, hm⟩)
  rw [(mem_grouped.mp hgroup).2] at hmem
  obtain ⟨entry, hentry, rfl⟩ := List.mem_map.mp hmem
  obtain ⟨hentry, hkey⟩ := List.mem_filter.mp hentry
  rwa [← of_decide_eq_true hkey]

theorem bucket_unique (h : InBucket book bucket m) (h' : InBucket book bucket' m')
    (hid : m.axis.id = m'.axis.id) : m = m' ∧ bucket = bucket' := by
  obtain ⟨group, hgroup, hbucket, hm⟩ := h
  obtain ⟨group', hgroup', hbucket', hm'⟩ := h'
  have hentry := mem_located hgroup hbucket hm
  have hentry' := mem_located hgroup' hbucket' hm'
  obtain ⟨hkey, rfl⟩ := Prod.mk.inj
    (List.inj_on_of_nodup_map nodup_located hentry hentry' hid)
  have hvalues : group.2 = group'.2 := by
    rw [(mem_grouped.mp hgroup).2, (mem_grouped.mp hgroup').2, hkey]
  rw [← hvalues] at hbucket'
  have hnodup : ((timelineBuckets group.2).flatMap (·.members)).Nodup := by
    rw [(perm_timelineBuckets group.2).nodup_iff, (mem_grouped.mp hgroup).2]
    apply List.Nodup.of_map (·.axis.id)
    rw [List.map_map]
    exact nodup_located.sublist (List.filter_sublist.map _)
  refine ⟨rfl, ?_⟩
  by_contra hne
  have hsymm : Std.Symm fun b b' : Bucket => b.members.Disjoint b'.members :=
    ⟨fun _ _ h => h.symm⟩
  have hdisjoint := (List.nodup_flatMap.mp hnodup).2
  exact List.Pairwise.forall hdisjoint hbucket hbucket' hne hm hm'

theorem get_aliases (h : InBucket book bucket m) {found : Member}
    (hchosen : chosen bucket.members = some found) :
    get m.axis.id (aliases book) = some found.axis.id := by
  apply get_filled_of_forall
  intro c
  rw [List.mem_flatMap]
  constructor
  · rintro ⟨other, hother, hentry⟩
    obtain ⟨group, hgroup, hother⟩ := List.mem_flatMap.mp hother
    unfold bucketAliases at hentry
    split at hentry
    · rename_i other' hother'
      obtain ⟨m', hm', heq⟩ := List.mem_map.mp hentry
      obtain ⟨hid, rfl⟩ := Prod.mk.inj heq
      obtain ⟨-, rfl⟩ := bucket_unique h ⟨group, hgroup, hother, hm'⟩ hid.symm
      rw [Option.some.inj (hchosen.symm.trans hother')]
    · cases hentry
  · intro heq
    obtain ⟨group, hgroup, hbucket, hm⟩ := h
    refine ⟨bucket, List.mem_flatMap.mpr ⟨group, hgroup, hbucket⟩, ?_⟩
    rw [bucketAliases, hchosen, ← Option.some.inj heq]
    exact List.mem_map.mpr ⟨m, hm, rfl⟩

theorem of_get_aliases {id c : String} (h : get id (aliases book) = some c) :
    ∃ bucket m found, InBucket book bucket m ∧ m.axis.id = id ∧
      chosen bucket.members = some found ∧ found.axis.id = c := by
  obtain ⟨bucket, hbucket, hentry⟩ := List.mem_flatMap.mp (mem_of_mem_filled (mem_of_get h))
  obtain ⟨group, hgroup, hbucket⟩ := List.mem_flatMap.mp hbucket
  unfold bucketAliases at hentry
  split at hentry
  · rename_i found hchosen
    obtain ⟨m, hm, heq⟩ := List.mem_map.mp hentry
    obtain ⟨hid, hc⟩ := Prod.mk.inj heq
    exact ⟨bucket, m, found, ⟨group, hgroup, hbucket, hm⟩, hid, hchosen, hc⟩
  · cases hentry

theorem axis_unique {sheet sheet' : SheetLayout} (hsheet : sheet ∈ book.sheets)
    (hsheet' : sheet' ∈ book.sheets) {a b : TimeAxis} (ha : a ∈ sheet.axes) (hb : b ∈ sheet'.axes)
    (hid : a.id = b.id) : sheet = sheet' ∧ a = b := by
  have hids := book.ids
  rw [List.map_flatMap] at hids
  obtain ⟨hinner, houter⟩ := List.nodup_flatMap.mp hids
  have hsame : sheet = sheet' := by
    by_contra hne
    have hsymm : Std.Symm fun s s' : SheetLayout =>
        (s.axes.map (·.id)).Disjoint (s'.axes.map (·.id)) := ⟨fun _ _ h => h.symm⟩
    have hdisjoint := List.Pairwise.forall houter hsheet hsheet' hne
    exact hdisjoint (List.mem_map_of_mem ha) (hid ▸ List.mem_map_of_mem hb)
  subst hsame
  exact ⟨rfl, List.inj_on_of_nodup_map (hinner sheet hsheet) ha hb hid⟩

theorem timelineId_of_inBucket (h : InBucket book bucket m) {found : Member}
    (hchosen : chosen bucket.members = some found) :
    timelineId book m.axis.id = found.axis.id := by
  rw [timelineId, get_aliases h hchosen]
  rfl

theorem timelineId_cases (id : String) :
    (get id (aliases book) = none ∧ timelineId book id = id) ∨
      ∃ bucket m found, InBucket book bucket m ∧ m.axis.id = id ∧
        chosen bucket.members = some found ∧ timelineId book id = found.axis.id := by
  cases hget : get id (aliases book) with
  | none =>
    left
    rw [timelineId, hget]
    exact ⟨rfl, rfl⟩
  | some c =>
    obtain ⟨bucket, m, found, hin, rfl, hchosen, -⟩ := of_get_aliases hget
    exact .inr ⟨bucket, m, found, hin, rfl, hchosen, timelineId_of_inBucket hin hchosen⟩

theorem InBucket.of_mem (h : InBucket book bucket m) (hm' : m' ∈ bucket.members) :
    InBucket book bucket m' := by
  obtain ⟨group, hgroup, hbucket, -⟩ := h
  exact ⟨group, hgroup, hbucket, hm'⟩

theorem InBucket.agrees (h : InBucket book bucket m) : Agrees bucket := by
  obtain ⟨group, hgroup, hbucket, -⟩ := h
  apply agrees_timelineBuckets _ bucket hbucket
  intro m' hm'
  rw [(mem_grouped.mp hgroup).2] at hm'
  obtain ⟨entry, hentry, rfl⟩ := List.mem_map.mp hm'
  obtain ⟨sheet, -, -, -, -, hflags⟩ := of_mem_located (List.mem_of_mem_filter hentry)
  rw [hflags]
  exact flags_ne_nil sheet _

theorem linkable_self (sheet : SheetLayout) (a : TimeAxis) : Linkable book sheet sheet a a := by
  refine ⟨rfl, rfl, ?_, ?_⟩
  · cases timelineDates a <;> simp [datesCompatible]
  · simp [flagsCompatible]

theorem grain_of_signature {axis : TimeAxis} {signature : Signature}
    (h : timelineSignature book axis = some signature) : axis.grain = some signature.grain := by
  unfold timelineSignature at h
  cases hgrain : axis.grain with
  | none =>
    rw [hgrain] at h
    cases h
  | some grain =>
    rw [hgrain] at h
    simp only at h
    split_ifs at h
    rw [← Option.some.inj h]

theorem linkable_of_inBucket (h : InBucket book bucket m) (hmem' : m' ∈ bucket.members)
    {sheet sheet' : SheetLayout} (hsheet : sheet ∈ book.sheets) (hsheet' : sheet' ∈ book.sheets)
    {a b : TimeAxis} (ha : a ∈ sheet.axes) (hb : b ∈ sheet'.axes) (hm : m.axis.id = a.id)
    (hm' : m'.axis.id = b.id) : Linkable book sheet sheet' a b := by
  have hagrees := h.agrees
  obtain ⟨group, hgroup, hbucket, hmem⟩ := h
  obtain ⟨s, hs, haxis, hsignature, hdates, hflags⟩ :=
    of_mem_located (mem_located hgroup hbucket hmem)
  obtain ⟨s', hs', haxis', hsignature', hdates', hflags'⟩ :=
    of_mem_located (mem_located hgroup hbucket hmem')
  obtain ⟨rfl, rfl⟩ := axis_unique hs hsheet haxis ha hm
  obtain ⟨rfl, rfl⟩ := axis_unique hs' hsheet' haxis' hb hm'
  obtain ⟨hcompatible, hcompatible'⟩ := hagrees.compatible hmem hmem'
  rw [hdates, hdates'] at hcompatible
  rw [hflags, hflags'] at hcompatible'
  exact ⟨(grain_of_signature hsignature).trans (grain_of_signature hsignature').symm,
    hsignature.trans hsignature'.symm, hcompatible, hcompatible'⟩

theorem timelineIds_linkWorkbookTimelines {sheet : SheetLayout}
    (hsheet : sheet ∈ (linkWorkbookTimelines book).sheets) {block : Block}
    (hblock : block ∈ sheet.blocks) (hkind : block.kind = .timeline) (hids : block.axisIds ≠ []) :
    block.timelineIds = block.axisIds.map (timelineId book) := by
  obtain ⟨given, -, rfl⟩ := List.mem_map.mp hsheet
  obtain ⟨given, -, rfl⟩ := List.mem_map.mp hblock
  unfold linkBlock at hkind hids ⊢
  split_ifs at hkind hids ⊢ with hskipped
  · exact absurd hskipped (not_or.mpr ⟨not_not.mpr hkind, hids⟩)
  · rfl

/-- The ids written are those of `timelineId`. Axes with one timeline id are alike in grain and
periods and compatible in dates and flags, and the id is that of an axis that keeps it. -/
theorem timelines_sound (book : Workbook) :
    (∀ sheet ∈ (linkWorkbookTimelines book).sheets, ∀ block ∈ sheet.blocks,
      block.kind = .timeline → block.axisIds ≠ [] →
        block.timelineIds = block.axisIds.map (timelineId book)) ∧
    (∀ sheet ∈ book.sheets, ∀ sheet' ∈ book.sheets, ∀ a ∈ sheet.axes, ∀ b ∈ sheet'.axes,
      timelineId book a.id = timelineId book b.id → Linkable book sheet sheet' a b) ∧
    ∀ sheet ∈ book.sheets, ∀ a ∈ sheet.axes, ∃ sheet' ∈ book.sheets, ∃ c ∈ sheet'.axes,
      c.id = timelineId book a.id ∧ timelineId book c.id = c.id := by
  refine ⟨fun sheet hsheet block hblock => ?_, ?_, ?_⟩
  · exact timelineIds_linkWorkbookTimelines hsheet hblock
  · intro sheet hsheet sheet' hsheet' a ha b hb hsame
    have hcases := @timelineId_cases book a.id
    have hcases' := @timelineId_cases book b.id
    rcases hcases with
        ⟨hnone, hself⟩ | ⟨bucket, m, found, hin, hm, hchosen, hid⟩ <;>
      rcases hcases' with
        ⟨hnone', hself'⟩ | ⟨bucket', m', found', hin', hm', hchosen', hid'⟩
    · obtain ⟨rfl, rfl⟩ := axis_unique hsheet hsheet' ha hb (hself ▸ hself' ▸ hsame)
      exact linkable_self sheet a
    · -- the axis that stands for a bucket does not keep its id unaliased
      have hget := get_aliases (hin'.of_mem (chosen_mem hchosen')) hchosen'
      rw [← hid', ← hsame, hself, hnone] at hget
      cases hget
    · have hget := get_aliases (hin.of_mem (chosen_mem hchosen)) hchosen
      rw [← hid, hsame, hself', hnone'] at hget
      cases hget
    · have hfound : found.axis.id = found'.axis.id := hid ▸ hid' ▸ hsame
      obtain ⟨-, rfl⟩ := bucket_unique (hin.of_mem (chosen_mem hchosen))
        (hin'.of_mem (chosen_mem hchosen')) hfound
      obtain ⟨-, -, -, hmem'⟩ := hin'
      exact linkable_of_inBucket hin hmem' hsheet hsheet' ha hb hm hm'
  · intro sheet hsheet a ha
    have hcases := @timelineId_cases book a.id
    rcases hcases with
      ⟨-, hself⟩ | ⟨bucket, m, found, hin, hm, hchosen, hid⟩
    · exact ⟨sheet, hsheet, a, ha, hself.symm, hself⟩
    · have hfound := hin.of_mem (chosen_mem hchosen)
      obtain ⟨group, hgroup, hbucket, hmem⟩ := hfound
      obtain ⟨sheet', hsheet', haxis, -⟩ := of_mem_located (mem_located hgroup hbucket hmem)
      exact ⟨sheet', hsheet', found.axis, haxis, hid.symm,
        timelineId_of_inBucket (hin.of_mem (chosen_mem hchosen)) hchosen⟩

end Linking

end FinanceContext.WorkbookTimelines
