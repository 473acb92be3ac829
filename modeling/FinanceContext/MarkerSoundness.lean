import FinanceContext.ObjectMirror

namespace FinanceContext

open RemoteCalls

namespace Mirror

/-- The objects and what is known of their puts. -/
def SameObjects (m t : Mirror) : Prop := t.objects = m.objects ∧ t.lastPut = m.lastPut

theorem checked_congr {m t : Mirror} (h : m.SameObjects t) (key : String) :
    t.Checked key ↔ m.Checked key := by
  unfold Checked
  rw [h.1, h.2]

theorem sound_of_marker {m t : Mirror} {keys : List String} (h : m.SameObjects t)
    (hmarker : t.marker = some keys) (hkeys : ∀ key ∈ keys, m.Checked key) : t.Sound := by
  intro listed hlisted key hkey
  rw [hmarker] at hlisted
  obtain rfl := Option.some.inj hlisted
  exact (checked_congr h key).mpr (hkeys key hkey)

/-- Another state of one object. -/
structure SameBut (other : String) (m t : Mirror) : Prop where
  marker : t.marker = m.marker
  objects : ∀ key, key ≠ other → t.objects key = m.objects key
  lastPut : ∀ key, key ≠ other → t.lastPut key = m.lastPut key

theorem SameBut.checked {other key : String} {m t : Mirror} (h : SameBut other m t)
    (hne : key ≠ other) : t.Checked key ↔ m.Checked key := by
  unfold Checked
  rw [h.objects key hne, h.lastPut key hne]

theorem SameBut.sound {other : String} {m t : Mirror} (h : SameBut other m t) (hs : m.Sound)
    (hoff : ∀ keys, m.marker = some keys → other ∉ keys) : t.Sound := by
  intro keys hkeys key hkey
  rw [h.marker] at hkeys
  have hne : key ≠ other := fun he => hoff keys hkeys (he ▸ hkey)
  exact (h.checked hne).mpr (hs keys hkeys key hkey)

theorem SameBut.checked_of_checked {other : String} {m t : Mirror} (h : SameBut other m t)
    (hother : t.Checked other) {key : String} (hkey : m.Checked key) : t.Checked key := by
  by_cases hne : key = other
  · rw [hne]
    exact hother
  · exact (h.checked hne).mpr hkey

theorem sameBut_update (m : Mirror) (other : String) (left : Option (List UInt8))
    (last : Option LastPut) :
    SameBut other m
      { m with
        objects := Function.update m.objects other left
        lastPut := Function.update m.lastPut other last } where
  marker := rfl
  objects _ hne := Function.update_of_ne hne ..
  lastPut _ hne := Function.update_of_ne hne ..

theorem checked_update (m : Mirror) (key : String) (bytes : List UInt8) :
    Checked
      { m with
        objects := Function.update m.objects key (some bytes)
        lastPut := Function.update m.lastPut key (some (.checked bytes)) } key := by
  refine ⟨bytes, ?_, ?_⟩
  · simp only [Function.update_self]
  · simp only [Function.update_self]

end Mirror

namespace Bucket

open Mirror

variable (bucket : Bucket) {files : String → Option (List UInt8)}

theorem ends_perform {op : StoreOp} {m : Mirror} {Q : Unit → Mirror → Prop}
    {E : Option ℕ → Mirror → Prop} (hs : m.Sound)
    (h : ∀ ans t, bucket.Respond files op m ans t → t.Sound ∧
      match ans with
      | .failed status => E status t
      | _ => Q () t) :
    Ends (bucket.Respond files) Sound (perform op) Q E m := by
  apply Ends.bind
  apply Ends.ask hs
  intro ans t hans
  obtain ⟨hsound, hans⟩ := h ans t hans
  refine ⟨hsound, ?_⟩
  cases ans with
  | failed status => exact Ends.throw hsound hans
  | ok => exact Ends.pure hsound hans
  | keys keys => exact Ends.pure hsound hans

/-- The marker after `_put_marker`, and the two it can be when that raises. -/
theorem ends_putMarker {m : Mirror} {keys : List String} (hs : m.Sound)
    (hkeys : ∀ key ∈ keys, m.Checked key) :
    Ends (bucket.Respond files) Sound (putMarker keys)
      (fun _ t => t.marker = some keys ∧ m.SameObjects t)
      (fun _ t => (t.marker = m.marker ∨ t.marker = some keys) ∧ m.SameObjects t) m := by
  have hsame : m.SameObjects { m with marker := some keys } := ⟨rfl, rfl⟩
  apply Ends.bind
  apply ends_perform bucket hs
  intro ans t hans
  cases hans with
  | putMarker =>
    have hsound := sound_of_marker hsame rfl hkeys
    apply And.intro hsound
    apply ends_perform bucket hsound
    intro ans t hans
    cases hans with
    | checkMarker => exact ⟨hsound, rfl, hsame⟩
    | checkMarkerFailed => exact ⟨hsound, .inr rfl, hsame⟩
  | putMarkerFailed made status =>
    cases made with
    | false => exact ⟨hs, .inl rfl, rfl, rfl⟩
    | true => exact ⟨sound_of_marker hsame rfl hkeys, .inr rfl, hsame⟩

theorem ends_putAndCheck {m : Mirror} {relative : String} (hs : m.Sound)
    (hoff : ∀ keys, m.marker = some keys → bucket.objectKey relative ∉ keys) :
    Ends (bucket.Respond files) Sound (putAndCheck relative)
      (fun _ t => t.marker = m.marker ∧ t.Checked (bucket.objectKey relative) ∧
        ∀ key, m.Checked key → t.Checked key)
      (fun _ t => t.marker = m.marker) m := by
  apply Ends.bind
  apply ends_perform bucket hs
  intro ans t hans
  cases hans with
  | @put _ _ bytes hlocal =>
    have hput := sameBut_update m (bucket.objectKey relative) (some bytes) (some (.completed bytes))
    have hsound := hput.sound hs hoff
    apply And.intro hsound
    apply ends_perform bucket hsound
    intro ans t hans
    cases hans with
    | checkSize hstored hlocal' hsize =>
      have hcheck := sameBut_update m (bucket.objectKey relative) (some bytes)
        (some (.checked bytes))
      have hlast : Function.update
          (Function.update m.lastPut (bucket.objectKey relative) (some (.completed bytes)))
          (bucket.objectKey relative) (some (.checked bytes)) =
          Function.update m.lastPut (bucket.objectKey relative) (some (.checked bytes)) :=
        Function.update_idem ..
      simp only [Function.update_self, hlast]
      have hchecked := checked_update m (bucket.objectKey relative) bytes
      exact ⟨hcheck.sound hs hoff, trivial, hchecked,
        fun key => hcheck.checked_of_checked hchecked⟩
    | checkSizeFailed status => exact ⟨hsound, rfl⟩
  | putFailed left status =>
    exact ⟨(sameBut_update m (bucket.objectKey relative) left (some .began)).sound hs hoff, rfl⟩

theorem ends_copyAll {m : Mirror} {uploaded relatives : List String} (hs : m.Sound)
    (hmarker : m.marker = some []) (huploaded : ∀ key ∈ uploaded, m.Checked key) :
    Ends (bucket.Respond files) Sound (bucket.copyAll files uploaded relatives)
      (fun keys t => ∀ key ∈ keys, t.Checked key) (fun _ _ => True) m := by
  induction relatives generalizing m uploaded with
  | nil => exact Ends.pure hs huploaded
  | cons relative rest ih =>
    unfold copyAll
    split_ifs
    · exact Ends.throw hs trivial
    · have hoff : ∀ keys, m.marker = some keys → bucket.objectKey relative ∉ keys := by
        intro keys hkeys
        rw [hmarker] at hkeys
        obtain rfl := Option.some.inj hkeys
        exact List.not_mem_nil
      apply Ends.bind
      apply (ends_putAndCheck bucket hs hoff).mono
      · rintro _ t ht ⟨hkept, hchecked, hothers⟩
        apply ih ht (hkept.trans hmarker)
        intro key hkey
        rcases List.mem_append.mp hkey with hkey | hkey
        · exact hothers key (huploaded key hkey)
        · rw [List.mem_singleton.mp hkey]
          exact hchecked
      · exact fun _ _ _ _ => trivial

theorem ends_clearMarker {m : Mirror} (hs : m.Sound) :
    Ends (bucket.Respond files) Sound (putMarker [])
      (fun _ t => t.marker = some []) (fun _ _ => True) m := by
  apply (ends_putMarker bucket hs (by simp)).mono
  · exact fun _ t _ ht => ht.1
  · exact fun _ _ _ _ => trivial

theorem ends_afterFailure (status : Option ℕ) {m : Mirror} (hs : m.Sound) :
    Ends (bucket.Respond files) Sound
      (do
        if status ≠ some 403 then
          tryCatch (putMarker []) fun _ => pure ()
        pure (some exportWarning))
      (fun _ _ => True) (fun _ _ => True) m := by
  by_cases hforbidden : status ≠ some 403
  · simp only [if_pos hforbidden]
    apply Ends.bind
    apply Ends.tryCatch
    apply (ends_clearMarker bucket hs).mono
    · exact fun _ t ht _ => Ends.pure ht trivial
    · exact fun _ t ht _ => Ends.pure ht (Ends.pure ht trivial)
  · simp only [if_neg hforbidden]
    exact Ends.pure hs trivial

theorem ends_exportBody {m : Mirror} (hs : m.Sound) :
    Ends (bucket.Respond files) Sound (bucket.exportBody files)
      (fun _ _ => True) (fun _ _ => True) m := by
  apply Ends.tryCatch
  apply Ends.bind
  apply (ends_clearMarker bucket hs).mono
  · intro _ t ht hmarker
    apply Ends.bind
    apply (ends_copyAll bucket ht hmarker (by simp)).mono
    · intro uploaded t ht huploaded
      apply Ends.bind
      apply (ends_putMarker bucket ht huploaded).mono
      · exact fun _ t ht _ => Ends.pure ht trivial
      · exact fun status t ht _ => ends_afterFailure bucket status ht
    · exact fun status t ht _ => ends_afterFailure bucket status ht
  · exact fun status t ht _ => ends_afterFailure bucket status ht

theorem ends_unmark {m : Mirror} {relative : String} (hs : m.Sound) :
    Ends (bucket.Respond files) Sound (bucket.markPublishedKey relative false)
      (fun marked t => marked = true →
        ∀ keys, t.marker = some keys → bucket.objectKey relative ∉ keys)
      (fun _ _ => True) m := by
  apply Ends.bind
  apply Ends.ask hs
  intro ans t hans
  cases hans with
  | @readMarker _ keys hmarker =>
    refine ⟨hs, ?_⟩
    have hremoved : bucket.objectKey relative ∉
        keys.filter (fun key => decide (key ≠ bucket.objectKey relative)) := by
      simp
    simp only [Bool.false_eq_true, if_false]
    split_ifs with hsame
    · rw [hsame] at hremoved
      apply Ends.pure hs
      intro _ listed hlisted
      rw [hmarker] at hlisted
      obtain rfl := Option.some.inj hlisted
      exact hremoved
    · apply Ends.tryCatch
      apply Ends.bind
      have hkept : ∀ key ∈ keys.filter (fun key => decide (key ≠ bucket.objectKey relative)),
          m.Checked key := fun key hkey => hs keys hmarker key (List.mem_of_mem_filter hkey)
      apply (ends_putMarker bucket hs hkept).mono
      · rintro _ t ht ⟨hput, -⟩
        apply Ends.pure ht
        intro _ listed hlisted
        rw [hput] at hlisted
        obtain rfl := Option.some.inj hlisted
        exact hremoved
      · exact fun _ t ht _ => Ends.pure ht nofun
  | readMarkerFailed status => exact ⟨hs, Ends.pure hs nofun⟩

theorem ends_mark {m : Mirror} {relative : String} (hs : m.Sound)
    (hchecked : m.Checked (bucket.objectKey relative)) :
    Ends (bucket.Respond files) Sound (bucket.markPublishedKey relative true)
      (fun _ _ => True) (fun _ _ => True) m := by
  apply Ends.bind
  apply Ends.ask hs
  intro ans t hans
  cases hans with
  | @readMarker _ keys hmarker =>
    refine ⟨hs, ?_⟩
    simp only [if_true]
    generalize hupdated : (if keys.contains (bucket.objectKey relative) = true then keys
      else keys ++ [bucket.objectKey relative]) = updated
    have hall : ∀ key ∈ updated, m.Checked key := by
      intro key hkey
      rw [← hupdated] at hkey
      split_ifs at hkey
      · exact hs keys hmarker key hkey
      · rcases List.mem_append.mp hkey with hkey | hkey
        · exact hs keys hmarker key hkey
        · rw [List.mem_singleton.mp hkey]
          exact hchecked
    split_ifs
    · exact Ends.pure hs trivial
    · apply Ends.tryCatch
      apply Ends.bind
      apply (ends_putMarker bucket hs hall).mono
      · exact fun _ t ht _ => Ends.pure ht trivial
      · exact fun _ t ht _ => Ends.pure ht trivial
  | readMarkerFailed status => exact ⟨hs, Ends.pure hs trivial⟩

theorem ends_republishBody {m : Mirror} {relative : String} (hs : m.Sound) :
    Ends (bucket.Respond files) Sound (bucket.republishBody relative)
      (fun _ _ => True) (fun _ _ => True) m := by
  apply Ends.bind
  apply (ends_unmark bucket hs).mono
  · intro marked t ht hoff
    cases marked with
    | false => exact Ends.throw ht trivial
    | true =>
      apply Ends.bind
      apply (ends_putAndCheck bucket ht (hoff rfl)).mono
      · rintro _ t ht ⟨-, hchecked, -⟩
        apply Ends.bind
        apply (ends_mark bucket ht hchecked).mono
        · intro marked t ht _
          cases marked with
          | false => exact Ends.throw ht trivial
          | true => exact Ends.pure ht trivial
        · exact fun _ _ _ _ => trivial
      · exact fun _ _ _ _ => trivial
  · exact fun _ _ _ _ => trivial

end Bucket

theorem PublishCall.holds (bucket : Bucket) (c : PublishCall) (m : Mirror) (hs : m.Sound) :
    Holds (bucket.Respond c.files) Mirror.Sound (c.prog bucket) (fun _ _ => True) m := by
  cases c with
  | exportBook files =>
    apply Holds.bind
    apply Holds.mono (bucket.ends_exportBody hs)
    exact fun _ t ht _ => ⟨ht, trivial⟩
  | republish files relative published =>
    apply Holds.bind
    apply Holds.mono (bucket.ends_republishBody hs)
    exact fun _ t ht _ => ⟨ht, trivial⟩

/-- In every state of every run of exports and republishes, a listed key names an object whose
most recent put was checked and whose bytes are those of that put. -/
theorem marker_names_checked_objects (bucket : Bucket) {m : Mirror}
    (h : Reached (fun c : PublishCall => bucket.Respond c.files) (PublishCall.prog bucket)
      Mirror.empty m) :
    m.Sound := by
  apply reached_invariant (fun c s hs => PublishCall.holds bucket c s hs) _ h
  intro keys hkeys
  cases hkeys

def sampleBucket : Bucket := ⟨asciiTable, "", "job"⟩

def exported : Mirror :=
  let exporting := (PublishCall.exportBook fun _ => some [1, 2]).prog sampleBucket
  let republishing := (PublishCall.republish (fun _ => some [3]) "context/context.md" (by decide)).prog
    sampleBucket
  let first := (exporting.exec (sampleBucket.goodStore fun _ => some [1, 2]) Mirror.empty).2
  (republishing.exec (sampleBucket.goodStore fun _ => some [3]) first).2

theorem marker_names_checked_objects_exported :
    exported.marker.map (·.contains "books/job/context/context.md") = some true ∧
      exported.objects "books/job/context/context.md" = some [3] ∧ exported.Sound := by
  have hreached : Reached (fun c : PublishCall => sampleBucket.Respond c.files)
      (PublishCall.prog sampleBucket) Mirror.empty exported := by
    apply Relation.ReflTransGen.tail (.single _)
    · exact ⟨.republish (fun _ => some [3]) "context/context.md" (by decide),
        passes_exec (sampleBucket.respond_goodStore _) _ _⟩
    · exact ⟨.exportBook fun _ => some [1, 2], passes_exec (sampleBucket.respond_goodStore _) _ _⟩
  refine ⟨?_, ?_, marker_names_checked_objects sampleBucket hreached⟩
  · decide +kernel
  · decide +kernel

end FinanceContext
