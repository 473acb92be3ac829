import FinanceContext.Dictionaries
import FinanceContext.MeteredRuns
import Mathlib.Algebra.Module.NatInt

/-!
The sniffing of OLE2 containers: the DIFAT, the FAT and the directory chain of a file whose
every byte may be chosen by an attacker. Python's `IndexError` and `KeyError` are one failure,
which `ole2_kind` does not catch.
-/

namespace FinanceContext.Ole2

open MeteredRuns

abbrev Bytes := List UInt8

inductive Ole2Kind where
  | xls
  | encrypted
  | other
  deriving DecidableEq, Repr

inductive Failure where
  | valueError (message : String)
  | structError
  | lookupError
  deriving DecidableEq, Repr

def Failure.caught : Failure → Bool
  | .valueError _ => true
  | .structError => true
  | .lookupError => false

-- which walk a read belongs to: kept beside the read for counting only
inductive Chain where
  | header
  | difat
  | fat
  | directory
  deriving DecidableEq, Repr

structure Read where
  chain : Chain
  offset : ℕ
  size : ℕ
  deriving DecidableEq, Repr

/-- The reads made so far, and the FAT sectors kept by the reader. -/
structure Walk where
  reads : List Read := []
  fat : List (ℕ × List ℕ) := []

abbrev Ole2Run (α : Type) := Run Failure Walk α

def ole2Signature : Bytes := [0xD0, 0xCF, 0x11, 0xE0, 0xA1, 0xB1, 0x1A, 0xE1]

def headerSize : ℕ := 512
def dirEntry : ℕ := 128
def maxSector : ℕ := 0xFFFFFFFA
def endOfChain : ℕ := 0xFFFFFFFE
def entryTypes : List ℕ := [1, 2, 5]
def xlsStreams : List String := ["workbook", "book"]
def encryptionStreams : List String := ["encryptioninfo", "encryptedpackage"]

def isOle2 (head : Bytes) : Bool := head.take ole2Signature.length == ole2Signature

def littleEndian (data : Bytes) : ℕ := data.foldr (fun b n => b.toNat + 256 * n) 0

def fields (width count : ℕ) (data : Bytes) (offset : ℕ) : List ℕ :=
  (List.range count).map fun i => littleEndian ((data.drop (offset + i * width)).take width)

/-- `struct.unpack_from` of so many little-endian numbers of a width. -/
def unpackFrom (width count : ℕ) (data : Bytes) (offset : ℕ) : Except Failure (List ℕ) :=
  if offset + count * width ≤ data.length then .ok (fields width count data offset)
  else .error .structError

def unpack (width count : ℕ) (data : Bytes) : Except Failure (List ℕ) :=
  if data.length = count * width then .ok (fields width count data 0) else .error .structError

def item {α : Type} (xs : List α) (i : ℕ) : Except Failure α :=
  match xs[i]? with
  | some x => .ok x
  | none => .error .lookupError

/-- `handle.seek(offset)` and `handle.read(size)`: less than asked for at the end of the file. -/
def readAt (file : Bytes) (chain : Chain) (offset size : ℕ) : Ole2Run Bytes := do
  let data := (file.drop offset).take size
  modify fun w => { w with reads := w.reads ++ [⟨chain, offset, data.length⟩] }
  pure data

structure Sectors where
  file : Bytes
  size : ℕ
  known : size = 512 ∨ size = 4096

namespace Sectors

def fileSize (reader : Sectors) : ℕ := reader.file.length

def count (reader : Sectors) : ℕ := reader.fileSize / reader.size

def read (reader : Sectors) (chain : Chain) (sector : ℕ) : Ole2Run Bytes :=
  if sector > maxSector ∨ (sector + 2) * reader.size > reader.fileSize then
    throw (.valueError "sector out of range")
  else do
    let data ← readAt reader.file chain ((sector + 1) * reader.size) reader.size
    if data.length ≠ reader.size then throw (.valueError "short sector") else pure data

/-- The FAT sector of an index, read at its first use. -/
def fatRow (reader : Sectors) (fatSectors : List ℕ) (index : ℕ) : Ole2Run (List ℕ) := do
  let w ← get
  match Dictionaries.get index w.fat with
  | some row => pure row
  | none => do
    let sector ← liftExcept (item fatSectors index)
    let data ← reader.read .fat sector
    let row ← liftExcept (unpack 4 (reader.size / 4) data)
    modify fun w => { w with fat := Dictionaries.set index row w.fat }
    pure row

def next (reader : Sectors) (sector : ℕ) (fatSectors : List ℕ) : Ole2Run ℕ :=
  let perSector := reader.size / 4
  let index := sector / perSector
  if index ≥ fatSectors.length then throw (.valueError "sector outside the FAT")
  else do
    let row ← reader.fatRow fatSectors index
    liftExcept (item row (sector % perSector))

end Sectors

def difatWalk (reader : Sectors) (count : ℕ) :
    ℕ → ℕ → List ℕ → List ℕ → Ole2Run (List ℕ)
  | 0, _, _, found => pure found
  | remaining + 1, sector, seen, found =>
    if sector ≤ maxSector ∧ found.length < count then
      if sector ∈ seen then throw (.valueError "DIFAT chain loops")
      else do
        let data ← reader.read .difat sector
        let values ← liftExcept (unpack 4 (reader.size / 4) data)
        let last ← liftExcept (item values (values.length - 1))
        difatWalk reader count remaining last (sector :: seen)
          (found ++ values.dropLast.filter (· ≤ maxSector))
    else pure found

def fatSectors (header : Bytes) (reader : Sectors) : Ole2Run (List ℕ) := do
  let limit := reader.fileSize / reader.size
  let counts ← liftExcept (unpackFrom 4 1 header 44)
  let declared ← liftExcept (item counts 0)
  let entries ← liftExcept (unpackFrom 4 109 header 76)
  let pair ← liftExcept (unpackFrom 4 2 header 68)
  let sector ← liftExcept (item pair 0)
  let remaining ← liftExcept (item pair 1)
  let count := min declared limit
  let found ← difatWalk reader count (min remaining limit) sector []
    (entries.filter (· ≤ maxSector))
  pure (found.take count)

def isSurrogate (unit : ℕ) : Bool := 0xD800 ≤ unit ∧ unit < 0xE000

def decodeUnits : List ℕ → List Char
  | [] => []
  | [unit] => [if isSurrogate unit then '\uFFFD' else Char.ofNat unit]
  | unit :: low :: rest =>
    if 0xD800 ≤ unit ∧ unit < 0xDC00 ∧ 0xDC00 ≤ low ∧ low < 0xE000 then
      Char.ofNat (0x10000 + (unit - 0xD800) * 0x400 + (low - 0xDC00)) :: decodeUnits rest
    else
      (if isSurrogate unit then '\uFFFD' else Char.ofNat unit) :: decodeUnits (low :: rest)

def decodeUtf16 (data : Bytes) : String :=
  String.ofList (decodeUnits (fields 2 (data.length / 2) data 0))

def entryName (entry : Bytes) : Except Failure (Option String) :=
  if entry.length < dirEntry then .ok none
  else do
    let kind ← item entry 66
    if kind.toNat ∉ entryTypes then .ok none
    else do
      let lengths ← unpackFrom 2 1 entry 64
      let length ← item lengths 0
      if ¬(2 ≤ length ∧ length ≤ 64) ∨ length % 2 ≠ 0 then .ok none
      else .ok (some (decodeUtf16 (entry.take (length - 2))))

def sectorNames (data : Bytes) : Except Failure (List String) := do
  let offsets := (List.range ((data.length + (dirEntry - 1)) / dirEntry)).map (· * dirEntry)
  let names ← offsets.mapM fun offset => entryName ((data.drop offset).take dirEntry)
  pure (names.filterMap id)

def directoryWalk (reader : Sectors) (fat : List ℕ) :
    ℕ → ℕ → List ℕ → List String → Ole2Run (List String)
  | 0, _, _, _ => throw (.valueError "directory chain does not end")
  | turns + 1, sector, seen, names =>
    if sector = endOfChain then pure names
    else if sector > maxSector ∨ sector ∈ seen then
      throw (.valueError "directory chain loops")
    else do
      let data ← reader.read .directory sector
      let found ← liftExcept (sectorNames data)
      let sector' ← reader.next sector fat
      directoryWalk reader fat turns sector' (sector :: seen) (names ++ found)

theorem size_known {shift : ℕ} (h : shift = 9 ∨ shift = 12) :
    1 <<< shift = 512 ∨ 1 <<< shift = 4096 := by
  rcases h with rfl | rfl
  · exact .inl rfl
  · exact .inr rfl

def entryNames (file : Bytes) : Ole2Run (List String) := do
  let header ← readAt file .header 0 headerSize
  if header.length < headerSize ∨ ¬isOle2 header then throw (.valueError "not an OLE2 header")
  else do
    let shifts ← liftExcept (unpackFrom 2 1 header 30)
    let shift ← liftExcept (item shifts 0)
    if h : shift = 9 ∨ shift = 12 then do
      let reader : Sectors := ⟨file, 1 <<< shift, size_known h⟩
      let fat ← fatSectors header reader
      let starts ← liftExcept (unpackFrom 4 1 header 48)
      let sector ← liftExcept (item starts 0)
      directoryWalk reader fat reader.count sector [] []
    else throw (.valueError "sector size")

def ole2Kind (casefold : String → String) (file : Bytes) : Except Failure Ole2Kind :=
  match ((entryNames file).from {}).1 with
  | .error failure => if failure.caught then .ok .other else .error failure
  | .ok entries =>
    let names := entries.map casefold
    if names.any (· ∈ encryptionStreams) then .ok .encrypted
    else if names.any (· ∈ xlsStreams) then .ok .xls
    else .ok .other

@[simp] theorem fields_length (width count : ℕ) (data : Bytes) (offset : ℕ) :
    (fields width count data offset).length = count := by
  simp [fields]

def sectorSize (file : Bytes) : ℕ := 1 <<< littleEndian ((file.drop 30).take 2)

def meter (file : Bytes) (size : ℕ) : Meter Failure Walk Read Chain where
  log := Walk.reads
  of := Read.chain
  allowed r := r.offset + r.size ≤ file.length
  expected e := e.caught = true
  inv w := ∀ p ∈ w.fat, p.2.length = size / 4

def chainOnce (chain : Chain) : Chain → ℕ := Pi.single chain 1

section

variable {file : Bytes} {size : ℕ} {budget : Chain → ℕ}

theorem spends_unpackFrom (width count : ℕ) (data : Bytes) (offset : ℕ) :
    Spends (meter file size) budget (liftExcept (unpackFrom width count data offset))
      fun values => values.length = count := by
  apply spends_liftExcept
  · intro values h
    unfold unpackFrom at h
    split_ifs at h
    rw [← Except.ok.inj h, fields_length]
  · intro e h
    unfold unpackFrom at h
    split_ifs at h
    rw [← Except.error.inj h]
    rfl

theorem spends_unpack (width count : ℕ) (data : Bytes) :
    Spends (meter file size) budget (liftExcept (unpack width count data))
      fun values => values.length = count := by
  apply spends_liftExcept
  · intro values h
    unfold unpack at h
    split_ifs at h
    rw [← Except.ok.inj h, fields_length]
  · intro e h
    unfold unpack at h
    split_ifs at h
    rw [← Except.error.inj h]
    rfl

theorem item_of_lt {α : Type} {xs : List α} {i : ℕ} (h : i < xs.length) :
    item xs i = .ok xs[i] := by
  simp [item, h]

theorem spends_item {α : Type} {xs : List α} {i : ℕ} (h : i < xs.length) :
    Spends (meter file size) budget (liftExcept (item xs i)) fun a => a = xs[i] := by
  rw [item_of_lt h]
  exact spends_pure _ rfl

theorem spends_readAt (chain : Chain) (offset size' : ℕ) (h : offset ≤ file.length) :
    Spends (meter file size) (chainOnce chain) (readAt file chain offset size')
      fun data => data = (file.drop offset).take size' := by
  intro w hw
  refine ⟨hw, rfl, [⟨chain, offset, ((file.drop offset).take size').length⟩], rfl, ?_, ?_⟩
  · intro r hr
    rw [List.mem_singleton.mp hr]
    change offset + ((file.drop offset).take size').length ≤ file.length
    rw [List.length_take, List.length_drop]
    omega
  · intro k
    by_cases hk : chain = k
    · subst hk
      simp [meter, chainOnce]
    · simp [meter, hk]

end

theorem spends_read {reader : Sectors} {size : ℕ} (chain : Chain) (sector : ℕ) :
    Spends (meter reader.file size) (chainOnce chain) (reader.read chain sector)
      fun data => data.length = reader.size := by
  unfold Sectors.read
  apply spends_ite
  · intro _
    exact spends_throw _ rfl
  · intro hrange
    have hfits : (sector + 1) * reader.size + reader.size ≤ reader.file.length := by
      have hsum := (not_lt.mp (not_or.mp hrange).2)
      rw [show sector + 2 = sector + 1 + 1 from rfl, Nat.succ_mul] at hsum
      exact hsum
    have hstart : (sector + 1) * reader.size ≤ reader.file.length := by omega
    apply (spends_readAt chain _ reader.size hstart).finally
    rintro data rfl
    have hlength : ((reader.file.drop ((sector + 1) * reader.size)).take reader.size).length =
        reader.size := by
      rw [List.length_take, List.length_drop]
      omega
    rw [if_neg (not_not.mpr hlength)]
    exact spends_pure _ hlength

section

variable (reader : Sectors)

theorem perSector_pos : 0 < reader.size / 4 := by
  rcases reader.known with h | h <;> rw [h] <;> decide

theorem spends_fatRow (fatSectors : List ℕ) {index : ℕ} (hindex : index < fatSectors.length) :
    Spends (meter reader.file reader.size) (chainOnce .fat) (reader.fatRow fatSectors index)
      fun row => row.length = reader.size / 4 := by
  apply spends_get
  intro w hw
  cases hrow : Dictionaries.get index w.fat with
  | some row => exact spends_pure row (hw _ (Dictionaries.mem_of_get hrow))
  | none =>
    apply (spends_item hindex).then
    intro sector _
    apply (spends_read .fat sector).finally
    intro data _
    apply (spends_unpack 4 _ data).then
    intro row hlength
    have hset : ∀ w : Walk, (meter reader.file reader.size).inv w →
        (meter reader.file reader.size).inv
          { w with fat := Dictionaries.set index row w.fat } := by
      intro w hw p hp
      rcases Dictionaries.mem_of_mem_set hp with rfl | hp
      · exact hlength
      · exact hw p hp
    apply (spends_modify hset fun _ => rfl).then
    intro _ _
    exact spends_pure row hlength

theorem spends_next (sector : ℕ) (fatSectors : List ℕ) :
    Spends (meter reader.file reader.size) (chainOnce .fat) (reader.next sector fatSectors)
      fun _ => True := by
  unfold Sectors.next
  apply spends_ite
  · intro _
    exact spends_throw _ rfl
  · intro hindex
    apply (spends_fatRow reader fatSectors (not_le.mp hindex)).finally
    intro row hlength
    have hmod : sector % (reader.size / 4) < row.length := by
      rw [hlength]
      exact Nat.mod_lt _ (perSector_pos reader)
    exact (spends_item hmod).mono le_rfl fun _ _ => trivial

theorem spends_difatWalk (count remaining sector : ℕ) (seen found : List ℕ) :
    Spends (meter reader.file reader.size) (remaining • chainOnce .difat)
      (difatWalk reader count remaining sector seen found) fun _ => True := by
  induction remaining generalizing sector seen found with
  | zero => exact spends_pure found trivial
  | succ remaining ih =>
    unfold difatWalk
    apply spends_ite
    · intro _
      apply spends_ite
      · intro _
        exact spends_throw _ rfl
      · intro _
        rw [succ_nsmul']
        apply (spends_read .difat sector).bind
        intro data _
        apply (spends_unpack 4 _ data).then
        intro values hlength
        have hlast : values.length - 1 < values.length := by
          have hpos := perSector_pos reader
          omega
        apply (spends_item hlast).then
        intro last _
        exact ih last _ _
    · intro _
      exact spends_pure found trivial

theorem spends_fatSectors (header : Bytes) :
    Spends (meter reader.file reader.size) (reader.count • chainOnce .difat)
      (fatSectors header reader) fun found => found.length ≤ reader.count := by
  unfold fatSectors
  apply (spends_unpackFrom 4 1 header 44).then
  intro counts hcounts
  apply (spends_item (by omega)).then
  intro declared _
  apply (spends_unpackFrom 4 109 header 76).then
  intro entries _
  apply (spends_unpackFrom 4 2 header 68).then
  intro pair hpair
  apply (spends_item (by omega)).then
  intro sector _
  apply (spends_item (by omega)).then
  intro remaining _
  have hle : min remaining (reader.fileSize / reader.size) • chainOnce .difat ≤
      reader.count • chainOnce .difat := by
    intro k
    exact Nat.mul_le_mul_right _ (Nat.min_le_right _ _)
  apply ((spends_difatWalk reader _ _ sector [] _).mono hle fun _ h => h).finally
  intro found _
  apply spends_pure
  rw [List.length_take]
  exact (Nat.min_le_left _ _).trans (Nat.min_le_right _ _)

theorem unpackFrom_of_le {width count : ℕ} {data : Bytes} {offset : ℕ}
    (h : offset + count * width ≤ data.length) :
    unpackFrom width count data offset = .ok (fields width count data offset) := if_pos h

theorem entryName_ok (entry : Bytes) : ∃ name, entryName entry = .ok name := by
  unfold entryName
  split_ifs with hshort
  · exact ⟨none, rfl⟩
  · have hlength : 128 ≤ entry.length := not_lt.mp hshort
    have hkind : item entry 66 = .ok entry[66] := item_of_lt (by omega)
    have hlengths : unpackFrom 2 1 entry 64 = .ok (fields 2 1 entry 64) :=
      unpackFrom_of_le (by omega)
    have hfirst : item (fields 2 1 entry 64) 0 = .ok (fields 2 1 entry 64)[0] :=
      item_of_lt (by simp)
    simp only [hkind, hlengths, hfirst, bind, Except.bind]
    split_ifs
    · exact ⟨_, rfl⟩
    · exact ⟨_, rfl⟩
    · exact ⟨_, rfl⟩

theorem mapM_entryName_ok (data : Bytes) (offsets : List ℕ) :
    ∃ names, offsets.mapM (fun offset => entryName ((data.drop offset).take dirEntry)) =
      .ok names := by
  induction offsets with
  | nil => exact ⟨[], rfl⟩
  | cons offset offsets ih =>
    obtain ⟨name, hname⟩ := entryName_ok ((data.drop offset).take dirEntry)
    obtain ⟨names, hnames⟩ := ih
    refine ⟨name :: names, ?_⟩
    rw [List.mapM_cons, hname, hnames]
    rfl

theorem sectorNames_ok (data : Bytes) : ∃ names, sectorNames data = .ok names := by
  obtain ⟨names, hnames⟩ := mapM_entryName_ok data
    ((List.range ((data.length + (dirEntry - 1)) / dirEntry)).map (· * dirEntry))
  refine ⟨names.filterMap id, ?_⟩
  simp only [sectorNames, hnames]
  rfl

theorem spends_directoryWalk (fat : List ℕ) (turns sector : ℕ) (seen : List ℕ)
    (names : List String) :
    Spends (meter reader.file reader.size)
      (turns • (chainOnce .directory + chainOnce .fat))
      (directoryWalk reader fat turns sector seen names) fun _ => True := by
  induction turns generalizing sector seen names with
  | zero => exact spends_throw _ rfl
  | succ turns ih =>
    unfold directoryWalk
    apply spends_ite
    · intro _
      exact spends_pure names trivial
    · intro _
      apply spends_ite
      · intro _
        exact spends_throw _ rfl
      · intro _
        rw [succ_nsmul', add_assoc]
        apply (spends_read .directory sector).bind
        intro data _
        have hnames : Spends (meter reader.file reader.size) 0 (liftExcept (sectorNames data))
            fun _ => True := by
          obtain ⟨found, hfound⟩ := sectorNames_ok data
          rw [hfound]
          exact spends_pure found trivial
        apply hnames.then
        intro found _
        apply (spends_next reader sector fat).bind
        intro sector' _
        exact ih sector' _ _

end

theorem fields_header (file : Bytes) :
    fields 2 1 ((file.drop 0).take headerSize) 30 = [littleEndian ((file.drop 30).take 2)] := by
  change [littleEndian (((file.take 512).drop (30 + 0 * 2)).take 2)] = _
  rw [List.drop_take, List.take_take]
  rfl

def walkBudget (count : ℕ) : Chain → ℕ :=
  chainOnce .header + (count • chainOnce .difat +
    count • (chainOnce .directory + chainOnce .fat))

theorem spends_entryNames (file : Bytes) :
    Spends (meter file (sectorSize file)) (walkBudget (file.length / sectorSize file))
      (entryNames file) fun _ => True := by
  unfold entryNames walkBudget
  apply (spends_readAt .header 0 headerSize (Nat.zero_le _)).bind
  rintro header rfl
  apply spends_ite
  · intro _
    exact spends_throw _ rfl
  · intro hheader
    have hlength := not_lt.mp (not_or.mp hheader).1
    have hshift : Spends (meter file (sectorSize file)) 0
        (liftExcept (unpackFrom 2 1 ((file.drop 0).take headerSize) 30))
          fun shifts => shifts = [littleEndian ((file.drop 30).take 2)] := by
      rw [unpackFrom_of_le (by simp only [headerSize] at hlength ⊢; omega), fields_header]
      exact spends_pure _ rfl
    apply hshift.then
    rintro shifts rfl
    apply (spends_item (by simp)).then
    intro shift hvalue
    by_cases hknown : shift = 9 ∨ shift = 12
    · rw [dif_pos hknown]
      have hsize : 1 <<< shift = sectorSize file := by rw [hvalue]; rfl
      let reader : Sectors := ⟨file, 1 <<< shift, size_known hknown⟩
      have hmeter : meter file (sectorSize file) = meter reader.file reader.size := by
        rw [← hsize]
      have hcount : file.length / sectorSize file = reader.count := by
        rw [← hsize]
        rfl
      rw [hmeter, hcount]
      apply (spends_fatSectors reader _).bind
      intro fat _
      apply (spends_unpackFrom 4 1 _ 48).then
      intro starts hstarts
      apply (spends_item (by omega)).then
      intro sector _
      exact spends_directoryWalk reader fat _ sector [] []
    · rw [dif_neg hknown]
      exact spends_throw _ rfl

theorem walkBudget_le {chain : Chain} (h : chain ≠ .header) (count : ℕ) :
    walkBudget count chain ≤ count := by
  cases chain with
  | header => exact absurd rfl h
  | difat => simp [walkBudget, chainOnce]
  | fat => simp [walkBudget, chainOnce]
  | directory => simp [walkBudget, chainOnce]

theorem ole2Kind_of_caught (casefold : String → String) {file : Bytes} {failure : Failure}
    (h : ((entryNames file).from {}).1 = .error failure) (hcaught : failure.caught = true) :
    ole2Kind casefold file = .ok .other := by
  unfold ole2Kind
  rw [h]
  exact if_pos hcaught

theorem ole2Kind_of_names (casefold : String → String) {file : Bytes} {names : List String}
    (h : ((entryNames file).from {}).1 = .ok names) :
    ∃ kind, ole2Kind casefold file = .ok kind := by
  unfold ole2Kind
  rw [h]
  dsimp only
  split_ifs
  · exact ⟨_, rfl⟩
  · exact ⟨_, rfl⟩
  · exact ⟨_, rfl⟩

theorem ole2_walk_ends (casefold : String → String) (file : Bytes) :
    (∀ r ∈ ((entryNames file).from {}).2.reads, r.offset + r.size ≤ file.length) ∧
      (∀ chain ≠ Chain.header, ((entryNames file).from {}).2.reads.countP (·.chain = chain) ≤
        file.length / sectorSize file) ∧
      (∀ failure, ((entryNames file).from {}).1 = .error failure → failure.caught = true) ∧
      ∃ kind, ole2Kind casefold file = .ok kind := by
  obtain ⟨-, hends, added, hlog, hallowed, hcount⟩ := spends_entryNames file {} (by simp [meter])
  have hreads : ((entryNames file).from {}).2.reads = added := hlog
  rw [hreads]
  refine ⟨hallowed, ?_, ?_, ?_⟩
  · intro chain hchain
    exact (hcount chain).trans (walkBudget_le hchain _)
  · intro failure hfailure
    rw [hfailure] at hends
    exact hends
  · cases hresult : ((entryNames file).from {}).1 with
    | ok names => exact ole2Kind_of_names casefold hresult
    | error failure =>
      rw [hresult] at hends
      exact ⟨.other, ole2Kind_of_caught casefold hresult hends⟩

end FinanceContext.Ole2
