import FinanceContext.Histories
import FinanceContext.JobMeta
import FinanceContext.NodeIds
import Mathlib.Algebra.Group.Nat.Defs
import Mathlib.Data.Prod.Lex
import Mathlib.Data.List.Basic
import Mathlib.Data.List.Infix

/-!
The SSE view of one job: publishers append to the job's Redis stream while one request
reads it, and an event that is not enabled changes nothing.
-/

namespace FinanceContext.EventStream

open Histories

abbrev EntryId := ℕ ×ₗ ℕ

structure Entry where
  id : EntryId
  event : String
  jobId : String
  status : String
  stage : String
  generation : ℕ
  error : String
  deriving DecidableEq

def TERMINAL_EVENTS : List String := ["succeeded", "failed", "queue_lost"]

def TERMINAL_STATUSES : List String := ["succeeded", "failed", "degraded", "needs_input"]

def Entry.terminal (e : Entry) : Bool := decide (e.event ∈ TERMINAL_EVENTS)

/-- The test after which `_stream` returns. -/
def Entry.closes (e : Entry) : Bool := e.terminal || decide (e.status ∈ TERMINAL_STATUSES)

theorem Entry.closes_of_terminal {e : Entry} (h : e.terminal) : e.closes := by
  simp only [closes, h, Bool.true_or]

structure EventData where
  jobId : String
  status : String
  stage : String
  generation : ℕ
  error : Option String
  deriving DecidableEq

structure Frame where
  id : Option EntryId
  event : String
  data : EventData
  deriving DecidableEq

def snapshot {H : Type} (jobId : String) (m : JobMeta H) : EventData where
  jobId := jobId
  status := (m.status.map statusText).getD "queued"
  stage := m.stage.getD ""
  generation := m.generation.getD 0
  error := m.error.filter (· ≠ "")

def payload (e : Entry) : EventData where
  jobId := e.jobId
  status := e.status
  stage := e.stage
  generation := e.generation
  error := if e.error = "" then none else some e.error

def frame (e : Entry) : Frame :=
  ⟨some e.id, if e.event = "" then "message" else e.event, payload e⟩

/-- The id after which the next XREAD asks. Redis refuses an id of more than 64 bits,
which `_STREAM_ID` lets through. -/
inductive Position where
  | tail
  | past (id : EntryId)
  | refused
  deriving DecidableEq

def number (digits : List Char) : ℕ := digits.foldl (fun n c => 10 * n + (c.toNat - 48)) 0

/-- `_STREAM_ID`, and Redis' own reading of what it lets through. -/
def lastEventId (header : List Char) : Position :=
  match (stripChars isSpace header).span Char.isDigit with
  | (ms, '-' :: seq) =>
    if ms ≠ [] ∧ seq ≠ [] ∧ seq.all Char.isDigit then
      if number ms < 2 ^ 64 ∧ number seq < 2 ^ 64 then .past (toLex (number ms, number seq))
      else .refused
    else .tail
  | _ => .tail

def lastId (entries : List Entry) : EntryId := (entries.getLast?.map Entry.id).getD (toLex (0, 0))

/-- A stream: ids grow, and Redis never gives out `0-0`. -/
structure Stream where
  entries : List Entry
  sorted : entries.Pairwise (fun a b => a.id < b.id)
  positive : ∀ e ∈ entries, toLex (0, 0) < e.id

namespace Stream

def empty : Stream := ⟨[], .nil, fun _ h => absurd h List.not_mem_nil⟩

def top (s : Stream) : EntryId := lastId s.entries

def above (s : Stream) (id : EntryId) : List Entry := s.entries.filter (fun e => id < e.id)

theorem le_top (s : Stream) {e : Entry} (he : e ∈ s.entries) : e.id ≤ s.top := by
  unfold top
  rcases List.eq_nil_or_concat s.entries with h | ⟨l, a, h⟩
  · rw [h] at he
    exact absurd he List.not_mem_nil
  · have hsorted := s.sorted
    rw [h, List.concat_eq_append] at he hsorted
    rw [h, List.concat_eq_append]
    simp only [lastId, List.getLast?_append, List.getLast?_singleton, Option.some_or,
      Option.map_some, Option.getD_some]
    rcases List.mem_append.mp he with hl | ha
    · exact le_of_lt ((List.pairwise_append.mp hsorted).2.2 e hl a (List.mem_singleton.mpr rfl))
    · rw [List.mem_singleton.mp ha]

theorem zero_le_top (s : Stream) : toLex (0, 0) ≤ s.top := by
  unfold top lastId
  cases h : s.entries.getLast? with
  | none => exact le_refl _
  | some e => exact le_of_lt (s.positive e (List.mem_of_getLast? h))

def append (s : Stream) (e : Entry) : Stream :=
  if h : s.top < e.id then
    { entries := s.entries ++ [e]
      sorted := List.pairwise_append.mpr ⟨s.sorted, List.pairwise_singleton _ _, fun _ ha _ hb =>
        List.mem_singleton.mp hb ▸ lt_of_le_of_lt (s.le_top ha) h⟩
      positive := fun a ha => (List.mem_append.mp ha).elim (s.positive a) fun hb =>
        List.mem_singleton.mp hb ▸ lt_of_le_of_lt s.zero_le_top h }
  else s

theorem append_of_not_lt {s : Stream} {e : Entry} (h : ¬ s.top < e.id) : s.append e = s :=
  dif_neg h

theorem entries_append {s : Stream} {e : Entry} (h : s.top < e.id) :
    (s.append e).entries = s.entries ++ [e] := by
  unfold append
  rw [dif_pos h]

theorem top_append {s : Stream} {e : Entry} (h : s.top < e.id) : (s.append e).top = e.id := by
  simp only [top, lastId, entries_append h, List.getLast?_append, List.getLast?_singleton,
    Option.some_or, Option.map_some, Option.getD_some]

theorem above_append {s : Stream} {e : Entry} (h : s.top < e.id) (id : EntryId) :
    (s.append e).above id = s.above id ++ if id < e.id then [e] else [] := by
  simp only [above, entries_append h, List.filter_append, List.filter_singleton, Bool.cond_decide]

theorem above_top (s : Stream) : s.above s.top = [] := by
  apply List.filter_eq_nil_iff.mpr
  intro e he
  simp only [decide_eq_true_eq, not_lt]
  exact s.le_top he

theorem above_top_of_prefix {s t : Stream} (h : s.entries <+: t.entries) :
    t.above s.top = t.entries.drop s.entries.length := by
  obtain ⟨new, hnew⟩ := h
  have hsorted := t.sorted
  rw [← hnew] at hsorted
  obtain ⟨-, -, hlt⟩ := List.pairwise_append.mp hsorted
  rw [above, ← hnew, List.filter_append, List.drop_left]
  have hold : s.entries.filter (fun e => s.top < e.id) = [] := s.above_top
  rw [hold, List.nil_append]
  apply List.filter_eq_self.mpr
  intro e he
  have htop : s.top < e.id := by
    unfold top lastId
    cases hlast : s.entries.getLast? with
    | none => exact t.positive e (hnew ▸ List.mem_append_right _ he)
    | some a => exact hlt a (List.mem_of_getLast? hlast) e he
  exact decide_eq_true htop

theorem mem_above {s : Stream} {id : EntryId} {e : Entry} :
    e ∈ s.above id ↔ e ∈ s.entries ∧ id < e.id := by
  simp only [above, List.mem_filter, decide_eq_true_eq]

theorem above_of_above_eq {s : Stream} {id : EntryId} {front rest : List Entry} {e : Entry}
    (h : s.above id = front ++ e :: rest) : s.above e.id = rest := by
  have he : id < e.id := by
    have hmem : e ∈ s.above id := by rw [h]; simp
    exact (mem_above.mp hmem).2
  have hsorted : (front ++ e :: rest).Pairwise (fun a b => a.id < b.id) := by
    rw [← h]
    exact s.sorted.filter _
  have hnarrow : s.above e.id = (s.above id).filter (fun a => e.id < a.id) := by
    simp only [above, List.filter_filter]
    apply List.filter_congr
    intro a _
    by_cases ha : e.id < a.id
    · simp only [ha, lt_trans he ha, decide_true, Bool.and_self]
    · simp only [ha, decide_false, Bool.false_and]
  obtain ⟨-, hrest, hfront⟩ := List.pairwise_append.mp hsorted
  rw [hnarrow, h, List.filter_append, List.filter_cons_of_neg (by simp only [lt_irrefl,
    decide_false, Bool.false_eq_true, not_false_eq_true])]
  have hnone : front.filter (fun a => e.id < a.id) = [] := by
    apply List.filter_eq_nil_iff.mpr
    intro a ha
    simp only [decide_eq_true_eq, not_lt]
    exact le_of_lt (hfront a ha e (List.mem_cons_self ..))
  rw [hnone, List.nil_append]
  apply List.filter_eq_self.mpr
  intro a ha
  simp only [decide_eq_true_eq]
  exact List.rel_of_pairwise_cons hrest ha

end Stream

/-- The list up to its first element with `p`, that one included. -/
def upTo {α : Type} (p : α → Bool) : List α → List α
  | [] => []
  | a :: l => if p a then [a] else a :: upTo p l

section UpTo

variable {α : Type} {p : α → Bool}

theorem upTo_append {l m : List α} (h : ∀ a ∈ l, ¬ p a) : upTo p (l ++ m) = l ++ upTo p m := by
  induction l with
  | nil => rfl
  | cons a l ih =>
    have ha := h a (List.mem_cons_self ..)
    simp only [List.cons_append, upTo, ha]
    rw [ih (fun b hb => h b (List.mem_cons_of_mem _ hb))]
    rfl

theorem upTo_append_of_any {l : List α} (h : l.any p) (m : List α) :
    upTo p (l ++ m) = upTo p l := by
  induction l with
  | nil => simp at h
  | cons a l ih =>
    simp only [List.cons_append, upTo]
    by_cases ha : p a
    · rw [if_pos ha, if_pos ha]
    · rw [if_neg ha, if_neg ha, ih (by simpa only [List.any_cons, ha, Bool.false_or] using h)]

theorem upTo_prefix_append (l m : List α) : upTo p l <+: upTo p (l ++ m) := by
  by_cases h : l.any p
  · rw [upTo_append_of_any h]
  · have hnone : ∀ a ∈ l, ¬ p a := by simpa using h
    have hself := upTo_append (m := []) hnone
    rw [List.append_nil, upTo, List.append_nil] at hself
    rw [upTo_append hnone, hself]
    exact List.prefix_append _ _

end UpTo

/-- Where the request stands: between two reads, in an XREAD whose id is resolved (`none`
is an id that Redis refuses), or with rows of a read still to send. -/
inductive Phase where
  | between
  | reading (id : Option EntryId)
  | sending (rows : List Entry)
  | closed
  | left
  deriving DecidableEq

/-- `base` is the id the client asked for, or the last id when the snapshot was read;
`delivered` are the rows sent after the snapshot. -/
structure Watch where
  snapshot : EventData
  base : EntryId
  stream : Stream
  position : Position
  phase : Phase
  delivered : List Entry

/-- The request, from the moment it has read `meta.json`. -/
def jobEvents {H : Type} (jobId : String) (m : JobMeta H) (header : List Char) (s : Stream) :
    Watch where
  snapshot := snapshot jobId m
  base := match lastEventId header with
    | .past id => id
    | _ => s.top
  stream := s
  position := lastEventId header
  phase := if (snapshot jobId m).status ∈ TERMINAL_STATUSES then .closed else .between
  delivered := []

def readCount : ℕ := 50

inductive Event where
  | publish (e : Entry)
  | read
  | answer
  | timeout
  | error
  | deliver
  | leave

namespace Watch

def body (w : Watch) : List Frame :=
  ⟨none, "snapshot", w.snapshot⟩ :: w.delivered.map frame

def available (w : Watch) : Option EntryId → List Entry
  | none => []
  | some id => w.stream.above id

/-- `$` is the last id at the time of the call. -/
def resolve (w : Watch) : Option EntryId :=
  match w.position with
  | .tail => some w.stream.top
  | .past id => some id
  | .refused => none

end Watch

def Watch.publish (w : Watch) (entry : Entry) : Watch :=
  { w with stream := w.stream.append entry }

def step (e : Event) (w : Watch) : Watch :=
  match e, w.phase with
  | .publish entry, _ => w.publish entry
  | .read, .between => { w with phase := .reading w.resolve }
  | .answer, .reading id =>
    if w.available id = [] then w
    else { w with phase := .sending ((w.available id).take readCount) }
  | .timeout, .reading id => if w.available id = [] then { w with phase := .between } else w
  | .error, .reading _ => { w with phase := .between }
  | .deliver, .sending (row :: rows) =>
    { w with
      delivered := w.delivered ++ [row]
      position := .past row.id
      phase := if row.closes then .closed else if rows = [] then .between else .sending rows }
  | .leave, .closed => w
  | .leave, _ => { w with phase := .left }
  | _, _ => w

namespace Watch

/-- The entries the client is owed: those after the id it sent, or after the snapshot. -/
def owed (w : Watch) : List Entry := w.stream.above w.base

def owedBody (w : Watch) : List Frame :=
  ⟨none, "snapshot", w.snapshot⟩ :: (upTo Entry.terminal w.owed).map frame

/-- The body never skips or repeats an entry; a client that waits in a read has all of it;
and the response ends at the first terminal event. -/
def Gapless (w : Watch) : Prop :=
  w.body <+: w.owedBody ∧
    (∀ id, w.phase = .reading id → w.available id = [] → w.body = w.owedBody) ∧
    (w.phase = .closed → w.body = w.owedBody ∧ w.owed.any Entry.terminal)

/-- The condition on one step: a read that has no id yet starts before anything is owed,
nothing is published while an id that Redis refuses is read, and a row that closes the
response is a terminal event. -/
def StepFits (e : Event) (w : Watch) : Prop :=
  match e, w.phase with
  | .read, .between => (∃ id, w.position = .past id) ∨ w.owed = []
  | .publish entry, .reading none => ¬ w.stream.top < entry.id
  | .deliver, .sending (row :: _) => row.closes → row.terminal
  | _, _ => True

/-- The client has what comes before `id`, and everything above `id` is still owed. -/
def At (w : Watch) (sent : List Entry) (id : EntryId) : Prop :=
  w.owed = sent ++ w.stream.above id ∧ w.base ≤ id ∧ (id = w.base ∨ id ≤ w.stream.top)

def Consistent (w : Watch) : Prop :=
  match w.phase with
  | .between => (∀ e ∈ w.delivered, ¬ e.terminal) ∧
      match w.position with
      | .past id => w.At w.delivered id
      | _ => w.delivered = [] ∧ w.base ≤ w.stream.top
  | .reading (some id) => (∀ e ∈ w.delivered, ¬ e.terminal) ∧ w.At w.delivered id ∧
      (w.position ≠ .past id →
        w.delivered = [] ∧ w.position = .tail ∧ w.base ≤ w.stream.top)
  | .reading none => w.delivered = [] ∧ w.owed = [] ∧ w.base ≤ w.stream.top ∧ w.position = .refused
  | .sending rows => (∀ e ∈ w.delivered, ¬ e.terminal) ∧
      ∃ e, rows.getLast? = some e ∧ w.At (w.delivered ++ rows) e.id
  | .closed => w.delivered = upTo Entry.terminal w.owed ∧ w.owed.any Entry.terminal
  | .left => w.delivered <+: upTo Entry.terminal w.owed

theorem upTo_eq_nil {α : Type} {p : α → Bool} {l : List α} (h : upTo p l = []) : l = [] := by
  cases l with
  | nil => rfl
  | cons a l =>
    simp only [upTo] at h
    split at h <;> exact absurd h (List.cons_ne_nil _ _)

variable {w : Watch}

theorem owed_publish {entry : Entry} (h : w.stream.top < entry.id) :
    (w.publish entry).owed = w.owed ++ if w.base < entry.id then [entry] else [] :=
  Stream.above_append h w.base

theorem publish_of_not_lt {entry : Entry} (h : ¬ w.stream.top < entry.id) :
    w.publish entry = w := by
  simp only [publish, Stream.append_of_not_lt h]

theorem At.publish {sent : List Entry} {id : EntryId} {entry : Entry} (h : w.At sent id)
    (hlt : w.stream.top < entry.id) : (w.publish entry).At sent id := by
  obtain ⟨howed, hbase, hid⟩ := h
  have hiff : w.base < entry.id ↔ id < entry.id := by
    refine ⟨fun hb => ?_, fun hi => lt_of_le_of_lt hbase hi⟩
    rcases hid with rfl | hle
    · exact hb
    · exact lt_of_le_of_lt hle hlt
  refine ⟨?_, hbase, ?_⟩
  · rw [owed_publish hlt, howed, List.append_assoc]
    change sent ++ _ = sent ++ (w.stream.append entry).above id
    rw [Stream.above_append hlt]
    simp only [hiff]
  · change id = w.base ∨ id ≤ (w.stream.append entry).top
    rw [Stream.top_append hlt]
    exact hid.imp_right fun hle => le_of_lt (lt_of_le_of_lt hle hlt)

theorem upTo_owed {sent : List Entry} {id : EntryId} (h : w.At sent id)
    (hnone : ∀ e ∈ sent, ¬ e.terminal) :
    upTo Entry.terminal w.owed = sent ++ upTo Entry.terminal (w.stream.above id) := by
  rw [h.1]
  exact upTo_append hnone

theorem body_initial (h : w.delivered <+: upTo Entry.terminal w.owed) : w.body <+: w.owedBody :=
  List.cons_prefix_cons.mpr ⟨rfl, h.map _⟩

theorem body_eq (h : w.delivered = upTo Entry.terminal w.owed) : w.body = w.owedBody := by
  simp only [body, owedBody, ← h]

theorem length_of_body_eq (h : w.body = w.owedBody) :
    w.delivered.length = (upTo Entry.terminal w.owed).length := by
  have hlength := congrArg List.length h
  simpa only [body, owedBody, List.length_cons, List.length_map, Nat.add_right_cancel_iff]
    using hlength

theorem Consistent.delivered_initial (h : w.Consistent) :
    w.delivered <+: upTo Entry.terminal w.owed := by
  unfold Consistent at h
  split at h
  · obtain ⟨hnone, hat⟩ := h
    split at hat
    · rw [upTo_owed hat hnone]
      exact List.prefix_append _ _
    · rw [hat.1]
      exact List.nil_prefix
  · obtain ⟨hnone, hat, -⟩ := h
    rw [upTo_owed hat hnone]
    exact List.prefix_append _ _
  · rw [h.1]
    exact List.nil_prefix
  · obtain ⟨hnone, e, -, hat⟩ := h
    rw [hat.1, List.append_assoc, upTo_append hnone]
    exact List.prefix_append _ _
  · exact h.1 ▸ List.prefix_refl _
  · exact h

theorem Consistent.gapless (h : w.Consistent) : w.Gapless := by
  refine ⟨body_initial h.delivered_initial, fun id hphase hdone => body_eq ?_, fun hphase => ?_⟩
  · simp only [Consistent, hphase] at h
    cases id with
    | none =>
      obtain ⟨hnil, howed, -⟩ := h
      rw [hnil, howed, upTo]
    | some id =>
      obtain ⟨hnone, hat, -⟩ := h
      rw [upTo_owed hat hnone, show w.stream.above id = [] from hdone, upTo, List.append_nil]
  · simp only [Consistent, hphase] at h
    exact ⟨body_eq h.1, h.2⟩

theorem Consistent.publish {entry : Entry} (h : w.Consistent)
    (hfits : StepFits (.publish entry) w) : (w.publish entry).Consistent := by
  by_cases hlt : w.stream.top < entry.id
  swap
  · rwa [publish_of_not_lt hlt]
  have htop : w.base ≤ w.stream.top → w.base ≤ (w.publish entry).stream.top := by
    intro hle
    change _ ≤ (w.stream.append entry).top
    rw [Stream.top_append hlt]
    exact le_of_lt (lt_of_le_of_lt hle hlt)
  have hphase : (w.publish entry).phase = w.phase := rfl
  have hposition : (w.publish entry).position = w.position := rfl
  unfold Consistent at h ⊢
  rw [hphase, hposition]
  cases hp : w.phase with
  | between =>
    simp only [hp] at h ⊢
    refine ⟨h.1, ?_⟩
    cases hq : w.position with
    | past id =>
      simp only [hq] at h
      exact h.2.publish hlt
    | tail =>
      simp only [hq] at h
      exact ⟨h.2.1, htop h.2.2⟩
    | refused =>
      simp only [hq] at h
      exact ⟨h.2.1, htop h.2.2⟩
  | reading id =>
    cases id with
    | none =>
      simp only [StepFits, hp] at hfits
      exact absurd hlt hfits
    | some id =>
      simp only [hp] at h ⊢
      refine ⟨h.1, h.2.1.publish hlt, fun hne => ?_⟩
      obtain ⟨hnil, htail, hbase⟩ := h.2.2 hne
      exact ⟨hnil, htail, htop hbase⟩
  | sending rows =>
    simp only [hp] at h ⊢
    obtain ⟨hnone, e, he, hat⟩ := h
    exact ⟨hnone, e, he, hat.publish hlt⟩
  | closed =>
    simp only [hp] at h ⊢
    rw [owed_publish hlt]
    refine ⟨?_, ?_⟩
    · rw [upTo_append_of_any h.2]
      exact h.1
    · rw [List.any_append, h.2, Bool.true_or]
  | left =>
    simp only [hp] at h ⊢
    rw [owed_publish hlt]
    exact h.trans (upTo_prefix_append _ _)

theorem at_resolve {sent : List Entry} (hbase : w.base ≤ w.stream.top) (howed : w.owed = [])
    (hsent : sent = []) : w.At sent w.stream.top := by
  refine ⟨?_, hbase, Or.inr (le_refl _)⟩
  rw [howed, hsent, Stream.above_top, List.append_nil]

theorem Consistent.read (h : w.Consistent) (hphase : w.phase = .between)
    (hfits : StepFits .read w) : ({ w with phase := .reading w.resolve } : Watch).Consistent := by
  simp only [Consistent, hphase] at h
  obtain ⟨hnone, hat⟩ := h
  simp only [StepFits, hphase] at hfits
  cases hq : w.position with
  | past id =>
    simp only [hq] at hat
    simp only [Consistent, resolve, hq]
    exact ⟨hnone, hat, fun hne => absurd rfl hne⟩
  | tail =>
    simp only [hq, reduceCtorEq, exists_false, false_or] at hat hfits
    simp only [Consistent, resolve, hq]
    exact ⟨hnone, at_resolve hat.2 hfits hat.1, fun _ => ⟨hat.1, trivial, hat.2⟩⟩
  | refused =>
    simp only [hq, reduceCtorEq, exists_false, false_or] at hat hfits
    simp only [Consistent, resolve, hq]
    exact ⟨hat.1, hfits, hat.2, trivial⟩

theorem At.take {sent : List Entry} {id : EntryId} (h : w.At sent id) (n : ℕ)
    (hne : (w.stream.above id).take n ≠ []) :
    ∃ e, ((w.stream.above id).take n).getLast? = some e ∧
      w.At (sent ++ (w.stream.above id).take n) e.id := by
  obtain ⟨howed, hbase, -⟩ := h
  rcases List.eq_nil_or_concat ((w.stream.above id).take n) with hnil | ⟨front, e, hfront⟩
  · exact absurd hnil hne
  rw [List.concat_eq_append] at hfront
  have hsplit : w.stream.above id = front ++ e :: (w.stream.above id).drop n := by
    rw [← List.singleton_append, ← List.append_assoc, ← hfront, List.take_append_drop]
  have hmem : e ∈ w.stream.above id := by
    rw [hsplit]
    simp
  obtain ⟨hentry, hlt⟩ := Stream.mem_above.mp hmem
  refine ⟨e, ?_, ?_, le_of_lt (lt_of_le_of_lt hbase hlt), Or.inr (w.stream.le_top hentry)⟩
  · rw [hfront, List.getLast?_append, List.getLast?_singleton, Option.some_or]
  · rw [howed, Stream.above_of_above_eq hsplit, List.append_assoc, List.take_append_drop]

theorem Consistent.answer {id : Option EntryId} (h : w.Consistent) (hphase : w.phase = .reading id)
    (hrows : w.available id ≠ []) :
    ({ w with phase := .sending ((w.available id).take readCount) } : Watch).Consistent := by
  simp only [Consistent, hphase] at h
  cases id with
  | none => exact absurd rfl hrows
  | some id =>
    obtain ⟨hnone, hat, -⟩ := h
    have hne : (w.stream.above id).take readCount ≠ [] := by
      rw [readCount, Ne, List.take_eq_nil_iff]
      exact fun hor => hor.elim (by omega) hrows
    exact ⟨hnone, hat.take readCount hne⟩

theorem Consistent.error {id : Option EntryId} (h : w.Consistent) (hphase : w.phase = .reading id) :
    ({ w with phase := .between } : Watch).Consistent := by
  simp only [Consistent, hphase] at h
  cases id with
  | none =>
    obtain ⟨hnil, -, hbase, hposition⟩ := h
    simp only [Consistent, hposition]
    refine ⟨?_, hnil, hbase⟩
    rw [hnil]
    exact fun e he => absurd he List.not_mem_nil
  | some id =>
    obtain ⟨hnone, hat, hposition⟩ := h
    refine ⟨hnone, ?_⟩
    by_cases hpast : w.position = .past id
    · simp only [hpast]
      exact hat
    · obtain ⟨hnil, htail, hbase⟩ := hposition hpast
      simp only [htail]
      exact ⟨hnil, hbase⟩

theorem Consistent.deliver {row : Entry} {rows : List Entry} (h : w.Consistent)
    (hphase : w.phase = .sending (row :: rows)) (hfits : StepFits .deliver w) :
    (step .deliver w).Consistent := by
  simp only [StepFits, hphase] at hfits
  simp only [Consistent, hphase] at h
  obtain ⟨hnone, e, he, hat⟩ := h
  have hsplit : w.delivered ++ row :: rows = (w.delivered ++ [row]) ++ rows := by
    rw [List.append_assoc, List.singleton_append]
  have hnext (hrow : ¬ row.terminal) : ∀ a ∈ w.delivered ++ [row], ¬ a.terminal := by
    intro a ha
    rcases List.mem_append.mp ha with ha | ha
    · exact hnone a ha
    · rw [List.mem_singleton.mp ha]
      exact hrow
  rw [hsplit] at hat
  simp only [step, hphase]
  by_cases hcloses : row.closes
  · have hterminal := hfits hcloses
    simp only [hcloses, if_true, Consistent]
    have howed : w.owed = w.delivered ++ row :: (rows ++ w.stream.above e.id) := by
      rw [hat.1, List.append_assoc, List.append_assoc, List.singleton_append]
    change w.delivered ++ [row] = upTo Entry.terminal w.owed ∧ w.owed.any Entry.terminal
    rw [howed]
    refine ⟨?_, ?_⟩
    · rw [upTo_append hnone, upTo, if_pos hterminal]
    · simp only [List.any_append, List.any_cons, hterminal, Bool.true_or, Bool.or_true]
  · have hrow : ¬ row.terminal := fun ht => hcloses (Entry.closes_of_terminal ht)
    simp only [hcloses, Bool.false_eq_true, if_false]
    cases rows with
    | nil =>
      have heq : row = e := by simpa using he
      subst heq
      rw [List.append_nil] at hat
      exact ⟨hnext hrow, hat⟩
    | cons next rest =>
      simp only [reduceCtorEq, if_false, Consistent]
      refine ⟨hnext hrow, e, ?_, hat⟩
      rwa [List.getLast?_cons_cons] at he

theorem Consistent.step {e : Event} (h : w.Consistent) (hfits : StepFits e w) :
    (step e w).Consistent := by
  cases e with
  | publish entry => exact h.publish hfits
  | read =>
    cases hphase : w.phase with
    | between => simpa only [EventStream.step, hphase] using h.read hphase hfits
    | _ => simpa only [EventStream.step, hphase] using h
  | answer =>
    cases hphase : w.phase with
    | reading id =>
      simp only [EventStream.step, hphase]
      split
      · exact h
      · exact h.answer hphase ‹_›
    | _ => simpa only [EventStream.step, hphase] using h
  | timeout =>
    cases hphase : w.phase with
    | reading id =>
      simp only [EventStream.step, hphase]
      split
      · exact h.error hphase
      · exact h
    | _ => simpa only [EventStream.step, hphase] using h
  | error =>
    cases hphase : w.phase with
    | reading id => simpa only [EventStream.step, hphase] using h.error hphase
    | _ => simpa only [EventStream.step, hphase] using h
  | deliver =>
    cases hphase : w.phase with
    | sending rows =>
      cases rows with
      | nil => simpa only [EventStream.step, hphase] using h
      | cons row rows => exact h.deliver hphase hfits
    | _ => simpa only [EventStream.step, hphase] using h
  | leave =>
    cases hphase : w.phase with
    | closed => simpa only [EventStream.step, hphase] using h
    | _ =>
      simp only [EventStream.step, hphase]
      exact h.delivered_initial

theorem upTo_of_body_eq_nil (h : w.body = w.owedBody) (hnil : w.delivered = []) : w.owed = [] := by
  have hlength := length_of_body_eq h
  rw [hnil, List.length_nil] at hlength
  exact upTo_eq_nil (List.length_eq_zero_iff.mp hlength.symm)

theorem Consistent.read_fits (h : w.Consistent) (hg : (EventStream.step .read w).Gapless) :
    StepFits .read w := by
  cases hphase : w.phase with
  | between =>
    simp only [Consistent, hphase] at h
    simp only [EventStream.step, hphase] at hg
    simp only [StepFits, hphase]
    cases hq : w.position with
    | past id => exact Or.inl ⟨id, rfl⟩
    | tail =>
      simp only [hq] at h
      refine Or.inr (upTo_of_body_eq_nil (hg.2.1 w.resolve rfl ?_) h.2.1)
      simp only [resolve, hq, available]
      exact Stream.above_top _
    | refused =>
      simp only [hq] at h
      refine Or.inr (upTo_of_body_eq_nil (hg.2.1 w.resolve rfl ?_) h.2.1)
      simp only [resolve, hq, available]
  | _ => simp only [StepFits, hphase]

theorem Consistent.publish_fits {entry : Entry} (h : w.Consistent)
    (hg : (w.publish entry).Gapless) : StepFits (.publish entry) w := by
  cases hphase : w.phase with
  | reading id =>
    cases id with
    | some id => simp only [StepFits, hphase]
    | none =>
      simp only [Consistent, hphase] at h
      simp only [StepFits, hphase]
      intro hlt
      have howed := upTo_of_body_eq_nil (hg.2.1 none hphase rfl) h.1
      rw [owed_publish hlt, if_pos (lt_of_le_of_lt h.2.2.1 hlt)] at howed
      exact absurd howed (List.append_ne_nil_of_right_ne_nil _ (List.cons_ne_nil _ _))
  | _ => simp only [StepFits, hphase]

theorem Consistent.deliver_fits (h : w.Consistent) (hg : (EventStream.step .deliver w).Gapless) :
    StepFits .deliver w := by
  cases hphase : w.phase with
  | sending rows =>
    cases rows with
    | nil => simp only [StepFits, hphase]
    | cons row rows =>
      simp only [Consistent, hphase] at h
      simp only [StepFits, hphase]
      intro hcloses
      obtain ⟨hnone, e, -, hat⟩ := h
      simp only [EventStream.step, hphase, hcloses, if_true] at hg
      obtain ⟨heq, hany⟩ := hg.2.2 rfl
      by_contra hrow
      have hlength := length_of_body_eq heq
      have howed : w.owed = w.delivered ++ row :: (rows ++ w.stream.above e.id) := by
        rw [hat.1, List.append_assoc, List.cons_append]
      change (w.delivered ++ [row]).length = (upTo Entry.terminal w.owed).length at hlength
      change w.owed.any Entry.terminal = true at hany
      rw [howed, upTo_append hnone, upTo, if_neg hrow, List.length_append, List.length_append,
        List.length_cons, List.length_cons, List.length_nil] at hlength
      have hzero : (upTo Entry.terminal (rows ++ w.stream.above e.id)).length = 0 := by omega
      have hrest := upTo_eq_nil (List.length_eq_zero_iff.mp hzero)
      have hnot : w.delivered.any Entry.terminal = false := by
        simpa only [List.any_eq_false] using hnone
      rw [howed, hrest, List.any_append, hnot, List.any_cons, List.any_nil] at hany
      simp only [Bool.or_false, Bool.false_or] at hany
      exact hrow hany
  | _ => simp only [StepFits, hphase]

theorem Consistent.gapless_iff {e : Event} (h : w.Consistent) :
    (EventStream.step e w).Gapless ↔ StepFits e w := by
  refine ⟨fun hg => ?_, fun hfits => (h.step hfits).gapless⟩
  cases e with
  | publish entry => exact h.publish_fits hg
  | read => exact h.read_fits hg
  | deliver => exact h.deliver_fits hg
  | _ => trivial

theorem consistent_jobEvents {H : Type} (jobId : String) (m : JobMeta H) (header : List Char)
    (s : Stream) (hlive : (EventStream.snapshot jobId m).status ∉ TERMINAL_STATUSES) :
    (jobEvents jobId m header s).Consistent := by
  simp only [jobEvents, hlive, if_false, Consistent, List.not_mem_nil, false_imp_iff, implies_true,
    true_and]
  cases hq : lastEventId header with
  | past id => exact ⟨rfl, le_refl _, Or.inl rfl⟩
  | tail => exact le_refl _
  | refused => exact le_refl _

end Watch

theorem base_step (e : Event) (w : Watch) : (step e w).base = w.base := by
  unfold step
  split <;> try split
  all_goals rfl

theorem prefix_step (e : Event) (w : Watch) : w.stream.entries <+: (step e w).stream.entries := by
  have hpublish (entry : Entry) : w.stream.entries <+: (w.stream.append entry).entries := by
    by_cases hlt : w.stream.top < entry.id
    · rw [Stream.entries_append hlt]
      exact List.prefix_append _ _
    · rw [Stream.append_of_not_lt hlt]
  unfold step
  split
  · exact hpublish _
  all_goals try split
  all_goals exact List.prefix_refl _

/-- Without a valid `Last-Event-ID` the client is owed what was appended after the snapshot. -/
theorem owed_after {H : Type} (jobId : String) (m : JobMeta H) (header : List Char) (s : Stream)
    (hheader : ∀ id, lastEventId header ≠ .past id) (es : List Event) :
    (after step es (jobEvents jobId m header s)).owed =
      (after step es (jobEvents jobId m header s)).stream.entries.drop s.entries.length := by
  have hrun : ∀ (es : List Event) (w : Watch), w.base = s.top → s.entries <+: w.stream.entries →
      (after step es w).base = s.top ∧ s.entries <+: (after step es w).stream.entries := by
    intro es
    induction es with
    | nil => exact fun w hbase hinitial => ⟨hbase, hinitial⟩
    | cons e es ih =>
      intro w hbase hinitial
      exact ih (step e w) ((base_step e w).trans hbase) (hinitial.trans (prefix_step e w))
  have hstart : (jobEvents jobId m header s).base = s.top := by
    unfold jobEvents
    cases hq : lastEventId header with
    | past id => exact absurd hq (hheader id)
    | _ => rfl
  obtain ⟨hbase, hinitial⟩ := hrun es _ hstart (List.prefix_refl _)
  rw [Watch.owed, hbase]
  exact Stream.above_top_of_prefix hinitial

theorem event_stream_iff {H : Type} (jobId : String) (m : JobMeta H) (header : List Char)
    (s : Stream) (hlive : (snapshot jobId m).status ∉ TERMINAL_STATUSES) (es : List Event) :
    (jobEvents jobId m header s).Gapless ∧
        Along step (fun e w => (step e w).Gapless) es (jobEvents jobId m header s) ↔
      Along step Watch.StepFits es (jobEvents jobId m header s) := by
  have hstart := Watch.consistent_jobEvents jobId m header s hlive
  have hiff := along_iff_along (I := Watch.Consistent)
    (fun e _ h => Watch.Consistent.gapless_iff (e := e) h)
    (fun e _ h hg => h.step (e := e) (h.gapless_iff.mp hg)) es _ hstart
  exact ⟨fun h => hiff.mp h.2, fun h => ⟨hstart.gapless, hiff.mpr h⟩⟩

def event (ms : ℕ) (name status stage : String) : Entry :=
  ⟨toLex (ms, 0), name, "job", status, stage, 1, ""⟩

def runningMeta : JobMeta ℕ :=
  { status := some .running, stage := some "parse", generation := some 1 }

theorem event_stream_iff_resumed :
    (snapshot "job" runningMeta).status ∉ TERMINAL_STATUSES ∧
      ((jobEvents "job" runningMeta "5-0".toList Stream.empty).Gapless ∧
          Along step (fun e w => (step e w).Gapless)
            [.publish (event 6 "succeeded" "succeeded" "done"), .read, .answer, .deliver]
            (jobEvents "job" runningMeta "5-0".toList Stream.empty) ↔
        Along step Watch.StepFits
          [.publish (event 6 "succeeded" "succeeded" "done"), .read, .answer, .deliver]
          (jobEvents "job" runningMeta "5-0".toList Stream.empty)) :=
  ⟨by decide, event_stream_iff "job" runningMeta "5-0".toList Stream.empty (by decide) _⟩

/-- The job fails between the snapshot and the first XREAD: the read starts at the end of the
stream, and the client waits for ever. And `stage_done` of a finished run, whose status is
already terminal, closes the response before `succeeded`. -/
theorem terminalEvent_skipped :
    (snapshot "job" runningMeta).status ∉ TERMINAL_STATUSES ∧
      ¬ (after step [.publish (event 6 "failed" "failed" "failed"), .read]
        (jobEvents "job" runningMeta [] Stream.empty)).Gapless ∧
      ¬ (after step [.read, .publish (event 6 "stage_done" "succeeded" "publish"),
          .publish (event 7 "succeeded" "succeeded" "done"), .answer, .deliver]
        (jobEvents "job" runningMeta [] Stream.empty)).Gapless := by
  refine ⟨by decide, fun h => ?_, fun h => ?_⟩
  · have hbody := h.2.1 (some (toLex (6, 0))) (by decide) (by decide)
    revert hbody
    decide
  · have hbody := (h.2.2 (by decide)).1
    revert hbody
    decide

end FinanceContext.EventStream
