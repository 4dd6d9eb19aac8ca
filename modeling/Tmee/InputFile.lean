import Tmee.GoosePublisher.Delivery
import Tmee.MemFile.HeaderInit
import Tmee.Si.Event
import Tmee.SmvPublisher.Transmission

set_option relaxedAutoImplicit false
set_option autoImplicit false

/-!
# Input files

The modules that read rings map their input files in `init`: the number of bytes to map is computed
from the first two words of the file. Nothing checks these words, and nothing checks that the file
could be mapped: a file that is shorter gives the length `-1`, `mmap` refuses it, and `init` reads
the header through a null pointer. A length that goes beyond the last page of the file is mapped,
but the first access behind that page ends the program, and `mmap_fd_write` reads every byte.

## Main definitions

* `Tmee.Mmap.Lawful` — what is relied on of `mmap`.
* `Tmee.mapInput`, `Tmee.mapInputs` — the input files mapped, one after the other.
* `Tmee.initSiFile`, `Tmee.initGoosePublisherFiles`, `Tmee.initSmvPublisherFiles` — the `init`
  functions with their input files.
* `Tmee.InitSafe` — `init` fails, or the mappings that it leaves cover the slots.
* `Tmee.MapsSlots` — the words of a file for which the mapping covers the slots.

## Main results

* `Tmee.initFromFiles_safe_iff` — the publishers, in terms of their inputs.
* `Tmee.initSafe_iff` — the input files for which the three modules are safe.
-/

namespace Tmee

open ByteMem

/-! ## Mapping a file -/

/-- `mmap` of an opened file with a length: null if the length is refused, otherwise the bytes that
can be accessed. -/
abbrev Mmap := List UInt8 → ℤ → Option Buffer

/-- What is relied on of `mmap`: it refuses a length that is not positive, and what can be accessed
are the bytes of the file with zeros behind them. How far that goes is not said: whole pages are
mapped, and a page that is wholly behind the end of the file cannot be accessed. -/
structure Mmap.Lawful (mmap : Mmap) : Prop where
  pos : ∀ file size b, mmap file size = some b → 0 < size
  bytes_eq : ∀ file size b, mmap file size = some b →
    b.bytes = (file ++ List.replicate b.length 0).take b.length

/-- `mmap_fd_write` of a file, with the length computed from it: the file is mapped, and every byte
of that length is read. -/
def mapInput (mmap : Mmap) (file : List UInt8) : Except Fault (Option Buffer) :=
  match mmap file (calculateBufferSizeFromFile file) with
  | none => .ok none
  | some b =>
    if calculateBufferSizeFromFile file ≤ b.length then .ok (some b) else .error .outOfBounds

/-- The first sixteen bytes of a file, with zeros behind a shorter file. -/
def headerOf (file : List UInt8) : Buffer where
  bytes := (file ++ List.replicate 16 0).take 16
  length_lt := (List.length_take_le 16 _).trans_lt (by decide)

/-- An access through a pointer that may be null. -/
def deref : Option Buffer → Except Fault Buffer
  | none => .error .nullPointer
  | some b => .ok b

/-! ## The `init` functions -/

/-- An error code, or `0` and the private data. -/
inductive InitResult (σ : Type)
  | failed (code : ℤ)
  | ready (data : σ)

/-- `init` of `si`, with the size of the input mapping that it leaves. A file that cannot be opened
is `none`. The size of the output ring is an `unsigned int` where the output file is truncated to
it; `mapOutput` is `mmap_fd_write` of the output file. -/
def initSiFile (mmap : Mmap) (mapOutput : ℤ → Option Buffer) (ftruncate : ℤ → Bool) (R : Type)
    (paramA paramB bufferEntries : ℤ) :
    Option (List UInt8) → Except Fault (InitResult (Si R × ℤ))
  | none => .ok (.failed (-10))
  | some file => do
    let input ← deref (← mapInput mmap file)
    let size := calculateBufferSize (typeToItemSize TypeCode.bool) bufferEntries
    if ftruncate (u32 (size + 10)) then
      return .ready (← initSiIn mapOutput R paramA paramB bufferEntries input,
        calculateBufferSizeFromFile file)
    else
      let _ ← readIndex.run' input
      return .failed (-20)

/-- The loop over the input files: each is opened and mapped, up to one that cannot be opened. The
mappings come with their sizes. -/
def mapInputs (mmap : Mmap) :
    List (Option (List UInt8)) → Except Fault (Option (List (Option Buffer × ℤ)))
  | [] => .ok (some [])
  | none :: _ => .ok none
  | some file :: files => do
    let buffer ← mapInput mmap file
    let mappings ← mapInputs mmap files
    return mappings.map fun rest => (buffer, calculateBufferSizeFromFile file) :: rest

/-- `init` of a publisher, with the sizes of the input mappings that it leaves: all input files are
opened and mapped, the publisher object is created, and the inputs are set up from their mappings by
`init`. -/
def initFromFiles {σ : Type} (mmap : Mmap) (init : List Buffer → Except Fault σ) (created : Bool)
    (files : List (Option (List UInt8))) : Except Fault (InitResult (σ × List ℤ)) := do
  match ← mapInputs mmap files with
  | none => return .failed (-10)
  | some mappings =>
    if created then
      -- the first thing `init` does with an input is to read its type
      let buffers ← (mappings.map Prod.fst).mapM deref
      return .ready (← init buffers, mappings.map Prod.snd)
    else return .failed (-1)

/-- `init` of `goose_publisher`; `created` says that `GoosePublisher_create` has succeeded. -/
def initGoosePublisherFiles (mmap : Mmap) (ttl gooseFastRetransmitTtl maxLag now : ℤ) :
    Bool → List (Option (List UInt8)) → Except Fault (InitResult (Publisher × List ℤ)) :=
  initFromFiles mmap fun buffers => initPublisher ttl gooseFastRetransmitTtl maxLag buffers now

/-- `init` of `smv_publisher`; `created` says that `SVPublisher_create` has succeeded. -/
def initSmvPublisherFiles {Asdu : Type} (mmap : Mmap) (lib : SvLibrary Asdu)
    (smpCnt interval now : ℤ) :
    Bool → List (Option (List UInt8)) →
      Except Fault (InitResult (SmvPublisher Asdu × List ℤ)) :=
  initFromFiles mmap fun buffers => initSmvPublisher lib smpCnt interval buffers now

/-! ## Safety -/

/-- A mapping of `size` bytes holds a header and every slot of `w` bytes. -/
structure Covers (w : ℕ) (size : ℤ) (b : Buffer) : Prop where
  mapped : size ≤ b.length
  header : 16 ≤ size
  slots : ∀ s, 0 ≤ s → s < b.items → 16 + w * s + w ≤ size

/-- **`init` is safe**: it returns, and it has either failed or left mappings that cover the slots
that the module reads. -/
def InitSafe {σ : Type} (Covered : σ → Prop) (init : Except Fault (InitResult σ)) : Prop :=
  (∃ code, init = .ok (.failed code) ∧ code ≠ 0) ∨
    ∃ data, init = .ok (.ready data) ∧ Covered data

/-- The input of `si`, which reads samples of 68 bytes. -/
def Si.Covered {R : Type} (data : Si R × ℤ) : Prop := Covers 68 data.2 data.1.inputBuffer

/-- The width of the slots that the update function reads; nothing reads the slots of an input
without one. -/
def UpdateFunction.slotWidth : Option UpdateFunction → ℕ
  | none => 0
  | some update => update.writer.width

/-- The inputs of the GOOSE publisher. -/
def Publisher.Covered (data : Publisher × List ℤ) : Prop :=
  List.Forall₂ (fun d size => Covers (UpdateFunction.slotWidth d.updateFunction) size d.buffer)
    data.1.inputs data.2

/-- All update functions of the SMV publisher read words. -/
def SmvPublisher.UpdateFunction.slotWidth : Option SmvPublisher.UpdateFunction → ℕ
  | none => 0
  | some _ => 4

/-- The inputs of the SMV publisher. -/
def SmvPublisher.Covered {Asdu : Type} (data : SmvPublisher Asdu × List ℤ) : Prop :=
  List.Forall₂ (fun d size =>
      Covers (SmvPublisher.UpdateFunction.slotWidth d.updateFunction) size d.buffer)
    data.1.inputs data.2

section Safe

variable {σ : Type} {Covered : σ → Prop}

lemma not_initSafe_error (f : Fault) : ¬ InitSafe Covered (.error f) := by
  rintro (⟨code, h, -⟩ | ⟨data, h, -⟩)
  · cases h
  · cases h

lemma initSafe_failed {code : ℤ} (hcode : code ≠ 0) : InitSafe Covered (.ok (.failed code)) :=
  Or.inl ⟨code, rfl, hcode⟩

/-- An `init` that cannot fail is safe if it returns and its mappings cover their slots. -/
lemma initSafe_ready_iff {τ : Type} {init : Except Fault τ} (pack : τ → σ) :
    InitSafe Covered (do return .ready (pack (← init))) ↔
      ∃ data, init = .ok data ∧ Covered (pack data) := by
  cases init with
  | error f => exact iff_of_false (not_initSafe_error f) nofun
  | ok data =>
    constructor
    · rintro (⟨code, h, -⟩ | ⟨data', h, hcovers⟩)
      · cases h
      · cases h
        exact ⟨data, rfl, hcovers⟩
    · rintro ⟨data', h, hcovers⟩
      cases h
      exact Or.inr ⟨_, rfl, hcovers⟩

end Safe

/-! ## Files -/

/-- The file is mapped, and its pages hold the bytes asked for. -/
def Mapped (mmap : Mmap) (file : List UInt8) (b : Buffer) : Prop :=
  mmap file (calculateBufferSizeFromFile file) = some b ∧
    calculateBufferSizeFromFile file ≤ b.length

/-- The file is not mapped, or its pages hold the bytes asked for. -/
def Reaches (mmap : Mmap) (file : List UInt8) : Prop :=
  ∀ b, mmap file (calculateBufferSizeFromFile file) = some b →
    calculateBufferSizeFromFile file ≤ b.length

/-- The file can be mapped, the length computed for it holds a header, and the slots of `w` bytes
need no more than it. -/
structure MapsSlots (mmap : Mmap) (w : ℕ) (file : List UInt8) : Prop where
  mapped : ∃ b, Mapped mmap file b
  header_le : 16 ≤ calculateBufferSizeFromFile file
  slots_le : w * (headerOf file).items ≤ calculateBufferSizeFromFile file - 16

section File

variable {mmap : Mmap} {file : List UInt8} {b : Buffer} {w : ℕ} {size : ℤ}

lemma mapInput_eq_some_iff : mapInput mmap file = .ok (some b) ↔ Mapped mmap file b := by
  rw [mapInput, Mapped]
  cases mmap file (calculateBufferSizeFromFile file) with
  | none => exact iff_of_false nofun nofun
  | some b' =>
    simp only [Option.some.injEq]
    split_ifs with hle
    · rw [Except.ok.injEq, Option.some.injEq]
      exact ⟨fun h => ⟨h, h ▸ hle⟩, And.left⟩
    · refine iff_of_false nofun ?_
      rintro ⟨rfl, h⟩
      exact hle h

lemma exists_mapInput_iff : (∃ r, mapInput mmap file = .ok r) ↔ Reaches mmap file := by
  rw [mapInput, Reaches]
  cases mmap file (calculateBufferSizeFromFile file) with
  | none => exact iff_of_true ⟨none, rfl⟩ nofun
  | some b =>
    simp only [Option.some.injEq, forall_eq']
    split_ifs with hle
    · exact iff_of_true ⟨_, rfl⟩ hle
    · exact iff_of_false nofun hle

/-- A mapping covers its slots if and only if they fit behind the header. -/
lemma covers_iff :
    Covers w size b ↔ size ≤ b.length ∧ 16 ≤ size ∧ 16 + w * b.items ≤ size := by
  constructor
  · intro h
    refine ⟨h.mapped, h.header, ?_⟩
    rcases lt_or_ge 0 b.items with hpos | hneg
    · have hlast := h.slots (b.items - 1) (by omega) (by omega)
      have hmul : (w : ℤ) * (b.items - 1) + w = w * b.items := by ring
      omega
    · have hmul := mul_nonpos_of_nonneg_of_nonpos (Int.natCast_nonneg w) hneg
      have hlen := h.header
      omega
  · rintro ⟨hmapped, hheader, hslots⟩
    refine ⟨hmapped, hheader, fun s _ hs => ?_⟩
    have hle := mul_le_mul_of_nonneg_left (show s + 1 ≤ b.items by omega) (Int.natCast_nonneg w)
    have hmul : (w : ℤ) * (s + 1) = w * s + w := by ring
    omega

/-- The header of the mapping is that of the file. -/
lemma Mapped.get_eq (hmmap : mmap.Lawful) (h : Mapped mmap file b) (hlen : 16 ≤ b.length)
    {k a : ℕ} (ha : a + k ≤ 16) : b.get k a = (headerOf file).get k a := by
  have hcut : b.cut 16 = headerOf file := by
    apply Buffer.ext
    show b.bytes.take 16 = (file ++ List.replicate 16 0).take 16
    rw [hmmap.bytes_eq _ _ _ h.1, List.take_take, Nat.min_eq_left hlen, List.take_append,
      List.take_append, List.take_replicate, List.take_replicate, Nat.min_eq_left (by omega),
      Nat.min_eq_left (by omega)]
  rw [← hcut, Buffer.get_cut ha]

/-- **The mapping covers its slots** if and only if the words of the file say so. -/
lemma Mapped.covers_iff (hmmap : mmap.Lawful) (h : Mapped mmap file b) :
    Covers w (calculateBufferSizeFromFile file) b ↔ MapsSlots mmap w file := by
  have hreach := h.2
  rw [Tmee.covers_iff]
  constructor
  · rintro ⟨-, hlen, hslots⟩
    have hitems : b.items = (headerOf file).items := h.get_eq hmmap (by omega) (by decide)
    refine ⟨⟨b, h⟩, hlen, ?_⟩
    rw [← hitems]
    omega
  · rintro ⟨-, hheader, hslots⟩
    have hitems : b.items = (headerOf file).items := h.get_eq hmmap (by omega) (by decide)
    rw [← hitems] at hslots
    exact ⟨hreach, hheader, by omega⟩

end File

/-! ## The protection module -/

/-- The file is good for `init` of `si` with `bufferEntries`: the output file can be truncated, the
size of the output ring is positive, and the slots of the input ring are mapped; or the output file
cannot be truncated, and the index of the input ring can be accessed. -/
def SiFileSafe (mmap : Mmap) (ftruncate : ℤ → Bool) (bufferEntries : ℤ) (file : List UInt8) :
    Prop :=
  if ftruncate (u32 (calculateBufferSize 1 bufferEntries + 10)) then
    0 < calculateBufferSize 1 bufferEntries ∧ MapsSlots mmap 68 file
  else ∃ b, Mapped mmap file b ∧ 12 ≤ b.length

/-- `readIndex` returns if the index is in the mapping. -/
lemma exists_readIndex_iff {b : Buffer} :
    (∃ index, readIndex.run' b = .ok index) ↔ 12 ≤ b.length := by
  constructor
  · rintro ⟨index, h⟩
    obtain ⟨x, hx, -⟩ := Fallible.bind_eq_ok.mp h
    exact fits_of_load (a := 8) hx
  · intro hlen
    have hread : readIndex b = .ok (b.index, b) := load_eq_ok (a := 8) hlen
    rw [StateT.run', hread]
    exact ⟨_, rfl⟩

section Si

variable {R : Type} {mapOutput : ℤ → Option Buffer}
  {paramA paramB bufferEntries : ℤ}

/-- `init` reads the input ring and leaves it as it is. -/
lemma inputBuffer_initSiIn {input : Buffer} {s : Si R}
    (h : initSiIn mapOutput R paramA paramB bufferEntries input = .ok s) :
    s.inputBuffer = input := by
  obtain ⟨oldIndex, input', output, hread, rfl⟩ := initSiIn_eq h
  exact load_frame hread

/-- With the input ring mapped, `init` returns if the index can be accessed and the output ring can
be mapped. -/
lemma exists_initSiIn_of_mapsPages (houtput : MapsPages mapOutput) {b : Buffer} :
    (∃ s, initSiIn mapOutput R paramA paramB bufferEntries b = .ok s) ↔
      12 ≤ b.length ∧ 0 < calculateBufferSize 1 bufferEntries := by
  have hlt : calculateBufferSize 1 bufferEntries < 2 ^ 31 := by
    unfold calculateBufferSize wrap32
    exact Int.bmod_lt (by decide)
  by_cases hpos : 0 < calculateBufferSize 1 bufferEntries
  · obtain ⟨c, hc, -, hlen, hzero⟩ := houtput.maps _ hpos hlt
    rw [exists_initSiIn_iff]
    · exact and_congr_right fun _ => iff_of_true ⟨c, hc, by omega⟩ hpos
    · intro c' hc'
      obtain rfl := Option.some.inj (hc.symm.trans hc')
      exact hzero 1 semaphorePos
  · have hnone := houtput.refuses _ fun h => hpos h.1
    rw [exists_initSiIn_iff (by simp [hnone])]
    exact and_congr_right fun _ => iff_of_false (by simp [hnone]) hpos

/-- With the input ring mapped, `init` is safe if the output ring can be mapped and the slots of the
input ring are mapped. -/
lemma initSiIn_safe_iff (houtput : MapsPages mapOutput) {b : Buffer} {size : ℤ} :
    InitSafe Si.Covered (do
        return .ready (← initSiIn mapOutput R paramA paramB bufferEntries b, size)) ↔
      0 < calculateBufferSize 1 bufferEntries ∧ Covers 68 size b := by
  rw [initSafe_ready_iff fun s => (s, size)]
  constructor
  · rintro ⟨s, hs, hcovers⟩
    have hinput : Covers 68 size s.inputBuffer := hcovers
    rw [inputBuffer_initSiIn hs] at hinput
    exact ⟨((exists_initSiIn_of_mapsPages houtput).mp ⟨s, hs⟩).2, hinput⟩
  · rintro ⟨hout, hcovers⟩
    have hheader := hcovers.header
    have hmapped := hcovers.mapped
    obtain ⟨s, hs⟩ : ∃ s, initSiIn mapOutput R paramA paramB bufferEntries b = .ok s :=
      (exists_initSiIn_of_mapsPages houtput).mpr ⟨by omega, hout⟩
    refine ⟨s, hs, ?_⟩
    show Covers 68 size s.inputBuffer
    rwa [inputBuffer_initSiIn hs]

end Si

/-- With the input ring mapped, a failing `init` is safe if the index of the ring is mapped. -/
lemma readIndex_safe_iff {σ : Type} {Covered : σ → Prop} {b : Buffer} {code : ℤ}
    (hcode : code ≠ 0) : InitSafe Covered
      (do let _ ← readIndex.run' b; return .failed code : Except Fault (InitResult σ)) ↔
        12 ≤ b.length := by
  rw [← exists_readIndex_iff]
  cases readIndex.run' b with
  | error f => exact iff_of_false (not_initSafe_error f) nofun
  | ok index => exact iff_of_true (initSafe_failed hcode) ⟨index, rfl⟩

/-- **The protection module is safe** if and only if its input file is good, if it can be opened. -/
lemma initSiFile_safe_iff {mmap : Mmap} (hmmap : mmap.Lawful) {mapOutput : ℤ → Option Buffer}
    (houtput : MapsPages mapOutput) {ftruncate : ℤ → Bool} {R : Type} [Field R] [LinearOrder R]
    {paramA paramB bufferEntries : ℤ} {file : Option (List UInt8)} :
    InitSafe Si.Covered
        (initSiFile mmap mapOutput ftruncate R paramA paramB bufferEntries file) ↔
      ∀ f, file = some f → SiFileSafe mmap ftruncate bufferEntries f := by
  cases file with
  | none => exact iff_of_true (initSafe_failed (by decide)) nofun
  | some f =>
    have hone : (∀ f', some f = some f' → SiFileSafe mmap ftruncate bufferEntries f') ↔
        SiFileSafe mmap ftruncate bufferEntries f :=
      ⟨fun h => h f rfl, fun h f' hf' => Option.some.inj hf' ▸ h⟩
    have hitem : typeToItemSize TypeCode.bool = 1 := rfl
    rw [hone, SiFileSafe, initSiFile, hitem]
    by_cases hmapped : ∃ b, Mapped mmap f b
    · obtain ⟨b, hb⟩ := hmapped
      simp only [mapInput_eq_some_iff.mpr hb, deref, Fallible.ok_bind]
      split_ifs with htruncate
      · rw [← hb.covers_iff hmmap]
        exact initSiIn_safe_iff houtput
      · rw [readIndex_safe_iff (by decide)]
        refine ⟨fun hlen => ⟨b, hb, hlen⟩, ?_⟩
        rintro ⟨b', hb', hlen⟩
        obtain rfl := Option.some.inj (hb.1.symm.trans hb'.1)
        exact hlen
    · refine iff_of_false ?_ ?_
      · cases hmap : mapInput mmap f with
        | error fault => exact not_initSafe_error fault
        | ok r =>
          cases r with
          | none => exact not_initSafe_error .nullPointer
          | some b => exact absurd ⟨b, mapInput_eq_some_iff.mp hmap⟩ hmapped
      · split_ifs
        · exact fun h => hmapped h.2.mapped
        · exact fun h => hmapped (h.imp fun b hb => hb.1)

/-! ## The publishers -/

section Publishers

variable {σ : Type} {mmap : Mmap} {Covered : σ × List ℤ → Prop}
  {init : List Buffer → Except Fault σ} {Good : ℤ → Buffer → Prop}

lemma deref_eq_ok_iff {x : Option Buffer} {b : Buffer} : deref x = .ok b ↔ x = some b := by
  cases x with
  | none => exact iff_of_false nofun nofun
  | some b' => rw [deref, Except.ok.injEq, Option.some.injEq]

/-- The loop over the files returns if the files before one that cannot be opened reach. -/
lemma exists_mapInputs_iff {files : List (Option (List UInt8))} :
    (∃ r, mapInputs mmap files = .ok r) ↔
      ∀ f, some f ∈ files.takeWhile Option.isSome → Reaches mmap f := by
  induction files with
  | nil => exact iff_of_true ⟨_, rfl⟩ (by simp)
  | cons file files ih =>
    cases file with
    | none => exact iff_of_true ⟨_, rfl⟩ (by simp)
    | some f =>
      have hfirst : (∀ g, some g ∈ (some f :: files).takeWhile Option.isSome → Reaches mmap g) ↔
          Reaches mmap f ∧ ∀ g, some g ∈ files.takeWhile Option.isSome → Reaches mmap g := by
        simp
      rw [hfirst, ← ih, ← exists_mapInput_iff]
      constructor
      · rintro ⟨r, hr⟩
        obtain ⟨m, hm, hrest⟩ := Fallible.bind_eq_ok.mp hr
        obtain ⟨ms, hms, -⟩ := Fallible.bind_eq_ok.mp hrest
        exact ⟨⟨m, hm⟩, ms, hms⟩
      · rintro ⟨⟨m, hm⟩, ms, hms⟩
        exact ⟨_, Fallible.bind_eq_ok.mpr ⟨m, hm, Fallible.bind_eq_ok.mpr ⟨ms, hms, rfl⟩⟩⟩

/-- What the loop over the files finds: one that cannot be opened, or the mappings of all. -/
lemma mapInputs_eq_ok {files : List (Option (List UInt8))}
    {r : Option (List (Option Buffer × ℤ))} (h : mapInputs mmap files = .ok r) :
    (none ∈ files ∧ r = none) ∨ ∃ fs mappings, files = fs.map some ∧ r = some mappings ∧
      List.Forall₂ (fun f m => mapInput mmap f = .ok m.1 ∧ m.2 = calculateBufferSizeFromFile f)
        fs mappings := by
  induction files generalizing r with
  | nil => exact Or.inr ⟨[], [], rfl, (Except.ok.inj h).symm, .nil⟩
  | cons file files ih =>
    cases file with
    | none => exact Or.inl ⟨List.mem_cons_self, (Except.ok.inj h).symm⟩
    | some f =>
      obtain ⟨m, hm, hrest⟩ := Fallible.bind_eq_ok.mp h
      obtain ⟨ms, hms, heq⟩ := Fallible.bind_eq_ok.mp hrest
      obtain rfl := Except.ok.inj heq
      rcases ih hms with ⟨hmem, rfl⟩ | ⟨fs, mappings, rfl, rfl, hall⟩
      · exact Or.inl ⟨List.mem_cons_of_mem _ hmem, rfl⟩
      · exact Or.inr ⟨f :: fs, _, rfl, rfl, .cons ⟨hm, rfl⟩ hall⟩

/-- The pointers can be read and lead to good mappings if all files have good mappings. -/
lemma exists_mapM_deref_iff {fs : List (List UInt8)} {mappings : List (Option Buffer × ℤ)}
    (h : List.Forall₂
      (fun f m => mapInput mmap f = .ok m.1 ∧ m.2 = calculateBufferSizeFromFile f) fs mappings) :
    (∃ buffers, (mappings.map Prod.fst).mapM deref = .ok buffers ∧
        List.Forall₂ Good (mappings.map Prod.snd) buffers) ↔
      ∀ f ∈ fs, ∃ b, Mapped mmap f b ∧ Good (calculateBufferSizeFromFile f) b := by
  induction h with
  | nil => exact iff_of_true ⟨[], rfl, .nil⟩ (by simp)
  | @cons f m fs mappings hfm _ ih =>
    obtain ⟨hmap, hsize⟩ := hfm
    rw [List.forall_mem_cons, ← ih, List.map_cons, List.map_cons, List.mapM_cons]
    constructor
    · rintro ⟨buffers, hbuffers, hgood⟩
      obtain ⟨b, hb, hrest⟩ := Fallible.bind_eq_ok.mp hbuffers
      obtain ⟨bs, hbs, heq⟩ := Fallible.bind_eq_ok.mp hrest
      obtain rfl := Except.ok.inj heq
      cases hgood with
      | cons hgoodb hgoodbs =>
        rw [deref_eq_ok_iff.mp hb] at hmap
        exact ⟨⟨b, mapInput_eq_some_iff.mp hmap, hsize ▸ hgoodb⟩, bs, hbs, hgoodbs⟩
    · rintro ⟨⟨b, hb, hgoodb⟩, bs, hbs, hgoodbs⟩
      have hm : m.1 = some b :=
        Except.ok.inj (hmap.symm.trans (mapInput_eq_some_iff.mpr hb))
      refine ⟨b :: bs, ?_, .cons (hsize ▸ hgoodb) hgoodbs⟩
      rw [deref_eq_ok_iff.mpr hm, hbs]
      rfl

/-- The loop over files that are all mapped. -/
lemma exists_mapInputs_of_mapped {fs : List (List UInt8)} {buffers : List Buffer}
    (h : List.Forall₂ (Mapped mmap) fs buffers) :
    ∃ mappings, mapInputs mmap (fs.map some) = .ok (some mappings) ∧
      (mappings.map Prod.fst).mapM deref = .ok buffers ∧
      mappings.map Prod.snd = fs.map calculateBufferSizeFromFile := by
  induction h with
  | nil => exact ⟨[], rfl, rfl, rfl⟩
  | @cons f b fs buffers hb _ ih =>
    obtain ⟨mappings, hmaps, hderef, hsizes⟩ := ih
    refine ⟨(some b, calculateBufferSizeFromFile f) :: mappings, ?_, ?_, ?_⟩
    · rw [List.map_cons, mapInputs, mapInput_eq_some_iff.mpr hb, hmaps]
      rfl
    · rw [List.map_cons, List.mapM_cons, hderef]
      rfl
    · rw [List.map_cons, List.map_cons, hsizes]

/-- **A publisher is safe** if and only if the files that are opened reach, and a file cannot be
opened, or the publisher object cannot be created, or all files are mapped and their mappings are
good. -/
lemma initFromFiles_safe_iff {created : Bool} {files : List (Option (List UInt8))}
    (hinit : ∀ buffers sizes,
      InitSafe Covered (do return .ready (← init buffers, sizes)) ↔
        List.Forall₂ Good sizes buffers) :
    InitSafe Covered (initFromFiles mmap init created files) ↔
      (∀ f, some f ∈ files.takeWhile Option.isSome → Reaches mmap f) ∧
        (none ∈ files ∨ created = false ∨
          ∀ f, some f ∈ files → ∃ b, Mapped mmap f b ∧ Good (calculateBufferSizeFromFile f) b) := by
  rw [← exists_mapInputs_iff, initFromFiles]
  cases hmaps : mapInputs mmap files with
  | error f => exact iff_of_false (not_initSafe_error f) nofun
  | ok r =>
    rw [Fallible.ok_bind, and_iff_right ⟨r, rfl⟩]
    rcases mapInputs_eq_ok hmaps with ⟨hmem, rfl⟩ | ⟨fs, mappings, rfl, rfl, hall⟩
    · exact iff_of_true (initSafe_failed (by decide)) (Or.inl hmem)
    · cases created with
      | false => exact iff_of_true (initSafe_failed (by decide)) (Or.inr (Or.inl rfl))
      | true =>
        have hfiles : (none ∈ fs.map some ∨ true = false ∨ ∀ f, some f ∈ fs.map some →
            ∃ b, Mapped mmap f b ∧ Good (calculateBufferSizeFromFile f) b) ↔
              ∀ f ∈ fs, ∃ b, Mapped mmap f b ∧ Good (calculateBufferSizeFromFile f) b := by
          simp
        rw [hfiles, ← exists_mapM_deref_iff hall]
        simp only [if_true]
        cases (mappings.map Prod.fst).mapM deref with
        | error f =>
          refine iff_of_false (not_initSafe_error f) ?_
          rintro ⟨buffers, h, -⟩
          cases h
        | ok buffers =>
          refine (hinit buffers _).trans ⟨fun hgood => ⟨buffers, rfl, hgood⟩, ?_⟩
          rintro ⟨buffers', h, hgood⟩
          obtain rfl := Except.ok.inj h
          exact hgood

end Publishers

/-! ## The slot under the index -/

section Current

variable {b b' : Buffer} {w : ℕ}

/-- The semaphore byte is clear, and the slot of `w` bytes under the index is in the mapping. -/
structure CurrentMapped (w : ℕ) (b : Buffer) : Prop where
  lock_eq : b.lock = 0
  nonneg : 0 ≤ 16 + w * b.index
  fits : 16 + w * b.index + w ≤ b.length

/-- A lock that is taken was free. -/
lemma lock_of_lockBuffer {r : ℤ} {c : Buffer} (h : lockBuffer 1 b = .ok (r, c)) :
    b.lock = 0 ∧ c = b.put 1 semaphorePos 1 := by
  obtain ⟨semaphore, d, hload, hrest⟩ := bufM_bind_eq_ok h
  have hlen := fits_of_load hload
  rw [load_eq_ok hlen] at hload
  obtain ⟨rfl, rfl⟩ := Prod.mk.inj (Except.ok.inj hload)
  rw [if_neg one_ne_zero] at hrest
  split_ifs at hrest with hset
  · cases hrest
  · obtain ⟨_, e, hstore, hreturn⟩ := bufM_bind_eq_ok hrest
    rw [store_eq_ok hlen] at hstore
    obtain ⟨-, rfl⟩ := Prod.mk.inj (Except.ok.inj hstore)
    obtain ⟨-, rfl⟩ := Prod.mk.inj (Except.ok.inj hreturn)
    exact ⟨not_not.mp hset, rfl⟩

/-- The common body of the readers of the current slot. -/
def loadCurrent (w o : ℕ) : BufM ℤ := do
  load w (w * (← cInt ((← readIndex) + o)))

/-- The common body returns if the slot is in the mapping. -/
lemma exists_loadCurrent_iff {o : ℕ} (hw : 0 < w) (ho : w * o = 16) (hlen : 16 ≤ b.length) :
    (∃ x, loadCurrent w o b = .ok x) ↔
      0 ≤ 16 + w * b.index ∧ 16 + w * b.index + w ≤ b.length := by
  have haddr : (w : ℤ) * (b.index + o) = 16 + w * b.index := by
    have ho' : (w : ℤ) * o = 16 := by exact_mod_cast ho
    rw [mul_add, ho', add_comm]
  constructor
  · rintro ⟨x, hx⟩
    obtain ⟨index, c, hread, hrest⟩ := bufM_bind_eq_ok hx
    rw [readIndex_eq hlen] at hread
    obtain ⟨rfl, rfl⟩ := Prod.mk.inj (Except.ok.inj hread)
    obtain ⟨sum, d, hsum, hload⟩ := bufM_bind_eq_ok hrest
    obtain ⟨hadd, rfl⟩ := bufM_lift_eq_ok hsum
    obtain ⟨-, rfl⟩ := cInt_eq_ok_iff.mp hadd
    rw [haddr, load] at hload
    split_ifs at hload with hfits
    exact hfits
  · rintro ⟨hnonneg, hfits⟩
    have hlt := b.length_lt
    have hle : b.index + o ≤ w * (b.index + o) ∨ b.index + o < 0 := by
      rcases lt_or_ge (b.index + o) 0 with hneg | hpos
      · exact Or.inr hneg
      · have := mul_le_mul_of_nonneg_right (show (1 : ℤ) ≤ w by omega) hpos
        omega
    have hpos : 0 ≤ b.index + o := by
      by_contra hneg
      have := mul_neg_of_pos_of_neg (show (0 : ℤ) < w by omega) (not_le.mp hneg)
      omega
    have hadd : cInt (b.index + o) = .ok (b.index + o) :=
      cInt_eq_ok (by omega) (by unfold Buffer.length at hfits; omega)
    rw [loadCurrent, bufM_bind_ok (readIndex_eq hlen), bufM_lift_ok hadd, haddr, load,
      if_pos ⟨hnonneg, hfits⟩]
    exact ⟨_, rfl⟩

lemma loadCurrent_frame {o : ℕ} {r : ℤ} (h : loadCurrent w o b = .ok (r, b')) : b' = b := by
  obtain ⟨index, c, hread, hrest⟩ := bufM_bind_eq_ok h
  obtain ⟨sum, d, hsum, hload⟩ := bufM_bind_eq_ok hrest
  rw [load_frame hload, (bufM_lift_eq_ok hsum).2, load_frame hread]

/-- **A reader of the current slot** returns if the semaphore byte is clear and the slot is in the
mapping, and leaves the buffer as it was. -/
lemma exists_locked_loadCurrent_iff {o : ℕ} (hw : 0 < w) (ho : w * o = 16) (hlen : 16 ≤ b.length) :
    (∃ r, locked (loadCurrent w o) b = .ok (r, b)) ↔ CurrentMapped w b := by
  have hindex : (b.put 1 semaphorePos 1).index = b.index :=
    Buffer.get_put_of_disjoint (by decide)
  have hbody := exists_loadCurrent_iff (b := b.put 1 semaphorePos 1) hw ho
    (by rwa [Buffer.length_put])
  rw [hindex, Buffer.length_put] at hbody
  constructor
  · rintro ⟨r, hrun⟩
    obtain ⟨_, c, hlock, hrest⟩ := bufM_bind_eq_ok hrun
    obtain ⟨hfree, rfl⟩ := lock_of_lockBuffer hlock
    obtain ⟨value, d, hload, -⟩ := bufM_bind_eq_ok hrest
    obtain ⟨hnonneg, hfits⟩ := hbody.mp ⟨_, hload⟩
    exact ⟨hfree, hnonneg, hfits⟩
  · intro h
    obtain ⟨⟨r, c⟩, hload⟩ := hbody.mpr ⟨h.nonneg, h.fits⟩
    obtain rfl := loadCurrent_frame hload
    exact ⟨r, locked_read_eq hlen h.lock_eq hload⟩

/-- A reader of the current slot leaves the buffer as it was. -/
lemma locked_loadCurrent_frame {o : ℕ} {r : ℤ} (hlen : 16 ≤ b.length)
    (h : locked (loadCurrent w o) b = .ok (r, b')) : b' = b := by
  obtain ⟨_, c, hlock, -⟩ := bufM_bind_eq_ok h
  exact locked_frame hlen (lock_of_lockBuffer hlock).1 (fun _ _ _ => loadCurrent_frame) h

end Current

/-! ## The GOOSE publisher -/

section Goose

variable {b : Buffer}

/-- The reader of the current slot for an update function. -/
lemma UpdateFunction.readCurrentInput_eq_locked (update : UpdateFunction) :
    ∃ o : ℕ, update.writer.width * o = 16 ∧
      update.readCurrentInput = locked (loadCurrent update.writer.width o) := by
  cases update with
  | updateBool =>
    refine ⟨16, rfl, ?_⟩
    show readCurrentInputBool = locked (loadCurrent 1 16)
    simp only [readCurrentInputBool, loadCurrent, Nat.cast_one, one_mul]
    rfl
  | updateInt8 =>
    refine ⟨16, rfl, ?_⟩
    show readCurrentInputInt8 = locked (loadCurrent 1 16)
    simp only [readCurrentInputInt8, loadCurrent, Nat.cast_one, one_mul]
    rfl
  | updateInt32 => exact ⟨4, rfl, rfl⟩

/-- The mapping is good for an input of the GOOSE publisher: it covers the slots of its type, and
the slot under the index can be read. -/
structure GooseMapped (size : ℤ) (b : Buffer) : Prop where
  covers : Covers (UpdateFunction.slotWidth (UpdateFunction.ofType b.type)) size b
  current : ∀ update, UpdateFunction.ofType b.type = some update →
    CurrentMapped update.writer.width b

lemma UpdateFunction.width_pos (update : UpdateFunction) : 0 < update.writer.width := by
  cases update <;> decide

/-- The part of `init` for one input keeps the mapping, selects the update function by the type,
and has read the slot under the index. -/
lemma DataInput.init_eq {d : DataInput} (h : DataInput.init b = .ok d) :
    16 ≤ b.length ∧ d.buffer = b ∧ d.updateFunction = UpdateFunction.ofType b.type ∧
      ∀ update, UpdateFunction.ofType b.type = some update →
        CurrentMapped update.writer.width b := by
  obtain ⟨type, htype, hrest⟩ := Fallible.bind_eq_ok.mp h
  obtain ⟨hlen, rfl⟩ := readType_eq_ok_iff.mp htype
  cases hupdate : UpdateFunction.ofType b.type with
  | none =>
    simp only [hupdate] at hrest
    obtain rfl := Except.ok.inj hrest
    exact ⟨hlen, rfl, rfl, fun update hnone => absurd hnone.symm (Option.some_ne_none update)⟩
  | some update =>
    simp only [hupdate] at hrest
    obtain ⟨⟨value, b'⟩, hread, hreturn⟩ := Fallible.bind_eq_ok.mp hrest
    obtain rfl := Except.ok.inj hreturn
    obtain ⟨o, ho, hlocked⟩ := update.readCurrentInput_eq_locked
    rw [hlocked] at hread
    obtain rfl := locked_loadCurrent_frame hlen hread
    refine ⟨hlen, rfl, rfl, fun update' hupdate' => ?_⟩
    obtain rfl := Option.some.inj hupdate'
    exact (exists_locked_loadCurrent_iff update.width_pos ho hlen).mp ⟨value, hread⟩

/-- The part of `init` for one input returns if the slot under the index can be read. -/
lemma DataInput.exists_init (hlen : 16 ≤ b.length)
    (hcurrent : ∀ update, UpdateFunction.ofType b.type = some update →
      CurrentMapped update.writer.width b) : ∃ d, DataInput.init b = .ok d := by
  have htype : readType.run' b = .ok b.type := readType_eq_ok_iff.mpr ⟨hlen, rfl⟩
  rw [DataInput.init, htype, Fallible.ok_bind]
  cases hupdate : UpdateFunction.ofType b.type with
  | none => exact ⟨_, rfl⟩
  | some update =>
    obtain ⟨o, ho, hlocked⟩ := update.readCurrentInput_eq_locked
    obtain ⟨value, hread⟩ := (exists_locked_loadCurrent_iff update.width_pos ho hlen).mpr
      (hcurrent update hupdate)
    simp only [hlocked, hread, Fallible.ok_bind]
    exact ⟨_, rfl⟩

/-- `init` of the GOOSE publisher returns if the mappings are good. -/
lemma exists_initPublisher {ttl gooseFastRetransmitTtl maxLag now : ℤ} {buffers : List Buffer}
    {sizes : List ℤ} (h : List.Forall₂ GooseMapped sizes buffers) :
    ∃ p, initPublisher ttl gooseFastRetransmitTtl maxLag buffers now = .ok p := by
  have hall : ∀ b ∈ buffers, ∃ d, DataInput.init b = .ok d ∧ True := by
    intro b hb
    obtain ⟨size, -, hmapped⟩ := Fallible.exists_left_of_forall₂ h hb
    have hlen := hmapped.covers.header.trans hmapped.covers.mapped
    obtain ⟨d, hd⟩ := DataInput.exists_init (by omega) hmapped.current
    exact ⟨d, hd, trivial⟩
  obtain ⟨inputs, hinputs, -⟩ := Fallible.exists_mapM_eq_ok hall
  rw [initPublisher, hinputs, Fallible.ok_bind]
  exact ⟨_, rfl⟩

/-- With its inputs mapped, `init` of the GOOSE publisher is safe if the mappings are good. -/
lemma initPublisher_safe_iff {ttl gooseFastRetransmitTtl maxLag now : ℤ} {buffers : List Buffer}
    {sizes : List ℤ} :
    InitSafe Publisher.Covered (do
        return .ready (← initPublisher ttl gooseFastRetransmitTtl maxLag buffers now, sizes)) ↔
      List.Forall₂ GooseMapped sizes buffers := by
  rw [initSafe_ready_iff fun p => (p, sizes)]
  constructor
  · rintro ⟨p, hp, hcovers⟩
    obtain ⟨inputs, hinputs, hreturn⟩ := Fallible.bind_eq_ok.mp hp
    obtain rfl := Except.ok.inj hreturn
    have hcover : List.Forall₂ (fun (d : DataInput) size =>
        Covers (UpdateFunction.slotWidth d.updateFunction) size d.buffer) inputs sizes := hcovers
    rw [Fallible.mapM_eq_ok_iff] at hinputs
    clear hp hreturn hcovers
    induction hinputs generalizing sizes with
    | nil =>
      cases hcover
      exact .nil
    | cons hinit _ ih =>
      cases hcover with
      | cons hone hrest =>
        obtain ⟨-, hbuffer, hupdate, hcurrent⟩ := DataInput.init_eq hinit
        rw [hbuffer, hupdate] at hone
        exact .cons ⟨hone, hcurrent⟩ (ih hrest)
  · intro hgood
    obtain ⟨p, hp⟩ := exists_initPublisher hgood
    refine ⟨p, hp, ?_⟩
    obtain ⟨inputs, hinputs, hreturn⟩ := Fallible.bind_eq_ok.mp hp
    obtain rfl := Except.ok.inj hreturn
    show List.Forall₂ (fun (d : DataInput) size =>
      Covers (UpdateFunction.slotWidth d.updateFunction) size d.buffer) inputs sizes
    rw [Fallible.mapM_eq_ok_iff] at hinputs
    clear hp hreturn
    induction hinputs generalizing sizes with
    | nil =>
      cases hgood
      exact .nil
    | cons hinit _ ih =>
      cases hgood with
      | cons hone hrest =>
        obtain ⟨-, hbuffer, hupdate, -⟩ := DataInput.init_eq hinit
        refine .cons ?_ (ih hrest)
        rw [hbuffer, hupdate]
        exact hone.covers

end Goose

/-! ## The SMV publisher -/

section Smv

variable {Asdu : Type} {lib : SvLibrary Asdu} {b : Buffer}

/-- The mapping is good for an input of the SMV publisher: it covers the slots of its type. -/
def SmvMapped (size : ℤ) (b : Buffer) : Prop :=
  Covers (SmvPublisher.UpdateFunction.slotWidth (SmvPublisher.UpdateFunction.ofType b.type)) size b

/-- With its inputs mapped, `init` of the SMV publisher is safe if the mappings are good. -/
lemma initSmvPublisher_safe_iff {smpCnt interval now : ℤ} {buffers : List Buffer}
    {sizes : List ℤ} :
    InitSafe SmvPublisher.Covered (do
        return .ready (← initSmvPublisher lib smpCnt interval buffers now, sizes)) ↔
      List.Forall₂ SmvMapped sizes buffers := by
  have hcovered : List.Forall₂ (fun (d : SmvPublisher.DataInput) size =>
      Covers (SmvPublisher.UpdateFunction.slotWidth d.updateFunction) size d.buffer)
        (buffers.map fun b => ⟨b, SmvPublisher.UpdateFunction.ofType b.type⟩) sizes ↔
          List.Forall₂ SmvMapped sizes buffers := by
    rw [List.forall₂_map_left_iff]
    exact ⟨fun h => .flip h, fun h => .flip h⟩
  rw [initSafe_ready_iff fun p => (p, sizes)]
  constructor
  · rintro ⟨p, hp, hcovers⟩
    obtain ⟨⟨inputs, asdu⟩, hadd, hreturn⟩ := Fallible.bind_eq_ok.mp hp
    obtain rfl := Except.ok.inj hreturn
    obtain ⟨-, rfl, -⟩ := SmvPublisher.addInputs_eq_ok_iff.mp hadd
    exact hcovered.mp hcovers
  · intro hgood
    have hlen : ∀ b ∈ buffers, 16 ≤ b.length := by
      intro b hb
      obtain ⟨size, -, hmapped⟩ := Fallible.exists_left_of_forall₂ hgood hb
      have := hmapped.header.trans hmapped.mapped
      omega
    have hadd : SmvPublisher.addInputs lib lib.addAsdu buffers = .ok (_, _) :=
      SmvPublisher.addInputs_eq_ok_iff.mpr ⟨hlen, rfl, rfl⟩
    rw [initSmvPublisher, hadd, Fallible.ok_bind]
    exact ⟨_, rfl, hcovered.mpr hgood⟩

end Smv

/-! ## Good files -/

/-- The number of bytes that can be accessed through the mapping of a file. -/
def accessible (mmap : Mmap) (file : List UInt8) : ℕ :=
  ((mmap file (calculateBufferSizeFromFile file)).map Buffer.length).getD 0

/-- The file is good for an input of the GOOSE publisher: the slots of its type are mapped, and for
a known type the semaphore byte is clear and the slot under the index can be accessed. -/
structure GooseFileSafe (mmap : Mmap) (file : List UInt8) : Prop where
  slots : MapsSlots mmap
    (UpdateFunction.slotWidth (UpdateFunction.ofType (headerOf file).type)) file
  lock_eq : UpdateFunction.ofType (headerOf file).type ≠ none → (headerOf file).lock = 0
  index_mapped : ∀ update, UpdateFunction.ofType (headerOf file).type = some update →
    0 ≤ 16 + update.writer.width * (headerOf file).index ∧
      16 + update.writer.width * (headerOf file).index + update.writer.width ≤
        accessible mmap file

/-- The file is good for an input of the SMV publisher: the slots of its type are mapped. -/
def SmvFileSafe (mmap : Mmap) (file : List UInt8) : Prop :=
  MapsSlots mmap (SmvPublisher.UpdateFunction.slotWidth
    (SmvPublisher.UpdateFunction.ofType (headerOf file).type)) file

section Files

variable {mmap : Mmap} {file : List UInt8} {b : Buffer}

lemma Mapped.accessible_eq (h : Mapped mmap file b) : accessible mmap file = b.length := by
  rw [accessible, h.1]
  rfl

/-- The type in the mapping is that in the file. -/
lemma Mapped.type_eq (hmmap : mmap.Lawful) (h : Mapped mmap file b) (hlen : 16 ≤ b.length) :
    b.type = (headerOf file).type := by
  rw [Buffer.type, Buffer.type, h.get_eq hmmap hlen (by decide)]

/-- A mapping whose length holds a header can be read that far. -/
lemma Mapped.length_ge (h : Mapped mmap file b) (hheader : 16 ≤ calculateBufferSizeFromFile file) :
    16 ≤ b.length := by
  have := hheader.trans h.2
  omega

/-- **Good files for the GOOSE publisher** have good mappings. -/
lemma exists_gooseMapped_iff (hmmap : mmap.Lawful) :
    (∃ b, Mapped mmap file b ∧ GooseMapped (calculateBufferSizeFromFile file) b) ↔
      GooseFileSafe mmap file := by
  constructor
  · rintro ⟨b, hmap, hgood⟩
    have hlen := hmap.length_ge hgood.covers.header
    have htype := hmap.type_eq hmmap hlen
    have hlock : b.lock = (headerOf file).lock := hmap.get_eq hmmap hlen (by decide)
    have hindex : b.index = (headerOf file).index := hmap.get_eq hmmap hlen (by decide)
    refine ⟨?_, fun hknown => ?_, fun update hupdate => ?_⟩
    · rw [← htype]
      exact (hmap.covers_iff hmmap).mp hgood.covers
    · obtain ⟨update, hupdate⟩ := Option.ne_none_iff_exists'.mp hknown
      rw [← htype] at hupdate
      rw [← hlock]
      exact (hgood.current update hupdate).lock_eq
    · rw [← htype] at hupdate
      rw [← hindex, hmap.accessible_eq]
      exact ⟨(hgood.current update hupdate).nonneg, (hgood.current update hupdate).fits⟩
  · intro h
    obtain ⟨b, hmap⟩ := h.slots.mapped
    have hlen := hmap.length_ge h.slots.header_le
    have htype := hmap.type_eq hmmap hlen
    have hlock : b.lock = (headerOf file).lock := hmap.get_eq hmmap hlen (by decide)
    have hindex : b.index = (headerOf file).index := hmap.get_eq hmmap hlen (by decide)
    refine ⟨b, hmap, ?_, fun update hupdate => ?_⟩
    · rw [htype]
      exact (hmap.covers_iff hmmap).mpr h.slots
    · rw [htype] at hupdate
      obtain ⟨hnonneg, hfits⟩ := h.index_mapped update hupdate
      rw [← hindex] at hnonneg hfits
      rw [hmap.accessible_eq] at hfits
      exact ⟨hlock.trans (h.lock_eq (by rw [hupdate]; exact Option.some_ne_none update)), hnonneg,
        hfits⟩

/-- **Good files for the SMV publisher** have good mappings. -/
lemma exists_smvMapped_iff (hmmap : mmap.Lawful) :
    (∃ b, Mapped mmap file b ∧ SmvMapped (calculateBufferSizeFromFile file) b) ↔
      SmvFileSafe mmap file := by
  constructor
  · rintro ⟨b, hmap, hgood⟩
    rw [SmvFileSafe, ← hmap.type_eq hmmap (hmap.length_ge hgood.header)]
    exact (hmap.covers_iff hmmap).mp hgood
  · intro h
    obtain ⟨b, hmap⟩ := MapsSlots.mapped h
    refine ⟨b, hmap, ?_⟩
    rw [SmvMapped, hmap.type_eq hmmap (hmap.length_ge (MapsSlots.header_le h))]
    exact (hmap.covers_iff hmmap).mpr h

end Files

/-- **The input files for which `init` is safe.** The protection module is safe for a file that
cannot be opened, or that is good for it. The publishers are safe if the files that are opened reach
into their last mapped page, and some file cannot be opened, or the publisher object cannot be
created, or all files are good for them.

**Proof sketch.** A null mapping is always read. A mapping has the length that has been computed
from the first two words, and its header is that of the file, so the slots are mapped if and only
if the words say so. -/
theorem initSafe_iff {mmap : Mmap} (hmmap : mmap.Lawful) {mapOutput : ℤ → Option Buffer}
    (houtput : MapsPages mapOutput) {ftruncate : ℤ → Bool} {R : Type} [Field R] [LinearOrder R]
    {Asdu : Type} {lib : SvLibrary Asdu} {paramA paramB bufferEntries : ℤ}
    {ttl gooseFastRetransmitTtl maxLag smpCnt interval now : ℤ} {file : Option (List UInt8)}
    {created : Bool} {files : List (Option (List UInt8))} :
    (InitSafe Si.Covered
        (initSiFile mmap mapOutput ftruncate R paramA paramB bufferEntries file) ↔
      ∀ f, file = some f → SiFileSafe mmap ftruncate bufferEntries f) ∧
    (InitSafe Publisher.Covered
        (initGoosePublisherFiles mmap ttl gooseFastRetransmitTtl maxLag now created files) ↔
      (∀ f, some f ∈ files.takeWhile Option.isSome → Reaches mmap f) ∧
        (none ∈ files ∨ created = false ∨ ∀ f, some f ∈ files → GooseFileSafe mmap f)) ∧
    (InitSafe SmvPublisher.Covered
        (initSmvPublisherFiles mmap lib smpCnt interval now created files) ↔
      (∀ f, some f ∈ files.takeWhile Option.isSome → Reaches mmap f) ∧
        (none ∈ files ∨ created = false ∨ ∀ f, some f ∈ files → SmvFileSafe mmap f)) := by
  refine ⟨initSiFile_safe_iff hmmap houtput, ?_, ?_⟩
  · simp only [← exists_gooseMapped_iff hmmap]
    exact initFromFiles_safe_iff fun _ _ => initPublisher_safe_iff
  · simp only [← exists_smvMapped_iff hmmap]
    exact initFromFiles_safe_iff fun _ _ => initSmvPublisher_safe_iff

/-- The number of bytes in the pages of 4096 bytes that hold `n` bytes. -/
def pageBytes (n : ℕ) : ℕ := 4096 * ((n + 4095) / 4096)

/-- `mmap` with pages of 4096 bytes: those of the length asked for that the file reaches into. -/
def pageMmap : Mmap := fun file size =>
  if 0 < size ∧ size < 2 ^ 31 then
    let n := min (2 ^ 31 - 1) (min (pageBytes size.toNat) (pageBytes file.length))
    some ⟨(file ++ List.replicate n 0).take n, (List.length_take_le _ _).trans_lt (by omega)⟩
  else none

lemma pageMmap_lawful : pageMmap.Lawful where
  pos file size b h := by
    rw [pageMmap] at h
    split_ifs at h with hsize
    exact hsize.1
  bytes_eq file size b h := by
    rw [pageMmap] at h
    split_ifs at h with hsize
    obtain rfl := Option.some.inj h
    simp only [Buffer.length, List.length_take, List.length_append, List.length_replicate,
      Nat.min_eq_left (Nat.le_add_left _ _)]

/-- A file whose pages hold the bytes asked for is mapped. -/
lemma exists_mapped_pageMmap {file : List UInt8} {n : ℕ}
    (hsize : calculateBufferSizeFromFile file = n) (hpos : 0 < n) (hlt : n < 2 ^ 31)
    (hle : n ≤ pageBytes file.length) :
    ∃ b, Mapped pageMmap file b ∧
      b.length = min (2 ^ 31 - 1) (min (pageBytes n) (pageBytes file.length)) := by
  obtain ⟨b, hb, hlen⟩ : ∃ b, pageMmap file n = some b ∧
      b.length = min (2 ^ 31 - 1) (min (pageBytes n) (pageBytes file.length)) := by
    refine ⟨_, if_pos ⟨by omega, by omega⟩, ?_⟩
    simp [Buffer.length]
  refine ⟨b, ⟨hsize ▸ hb, ?_⟩, hlen⟩
  have hpages : n ≤ pageBytes n := by
    unfold pageBytes
    omega
  rw [hsize, hlen]
  omega

/-- A file with a ring of two samples. -/
def sampleFile : List UInt8 :=
  [68, 0, 0, 0, 2, 0, 0, 0, 1, 0, 0, 0, 68, 0, 0, 0] ++ List.replicate 136 7

/-- A file with an `INT32` ring of two entries. -/
def intFile : List UInt8 :=
  [4, 0, 0, 0, 2, 0, 0, 0, 1, 0, 0, 0, 3, 0, 0, 0, 42, 0, 0, 0, 43, 0, 0, 0]

lemma exists_mapped_intFile : ∃ b, Mapped pageMmap intFile b ∧ b.length = 4096 :=
  exists_mapped_pageMmap (n := 24) (by decide) (by decide) (by decide) (by decide)

lemma mapsSlots_intFile : MapsSlots pageMmap 4 intFile where
  mapped := exists_mapped_intFile.imp fun _ h => h.1
  header_le := by decide
  slots_le := by decide +kernel

lemma gooseFileSafe_intFile : GooseFileSafe pageMmap intFile := by
  have htype : UpdateFunction.ofType (headerOf intFile).type = some .updateInt32 := by
    decide +kernel
  obtain ⟨b, hb, hlen⟩ := exists_mapped_intFile
  refine ⟨?_, fun _ => by decide +kernel, fun update hupdate => ?_⟩
  · rw [htype]
    exact mapsSlots_intFile
  · obtain rfl := Option.some.inj (htype.symm.trans hupdate)
    rw [hb.accessible_eq, hlen]
    decide +kernel

lemma smvFileSafe_intFile : SmvFileSafe pageMmap intFile := by
  have htype : SmvPublisher.UpdateFunction.ofType (headerOf intFile).type ≠ none := by
    decide +kernel
  obtain ⟨update, hupdate⟩ := Option.ne_none_iff_exists'.mp htype
  rw [SmvFileSafe, hupdate]
  exact mapsSlots_intFile

/-- Rings of two samples and of two integers. -/
theorem initSafe_rings :
    InitSafe Si.Covered
      (initSiFile pageMmap mmapPages (fun _ => true) ℚ 2 800 10 (some sampleFile)) ∧
    InitSafe Publisher.Covered
      (initGoosePublisherFiles pageMmap 2000000 20000 5 0 true [some intFile]) ∧
    InitSafe SmvPublisher.Covered
      (initSmvPublisherFiles pageMmap wordLibrary 4000 250 0 true [some intFile]) := by
  have hiff : (InitSafe Si.Covered
        (initSiFile pageMmap mmapPages (fun _ => true) ℚ 2 800 10 (some sampleFile)) ↔ _) ∧
      (InitSafe Publisher.Covered
        (initGoosePublisherFiles pageMmap 2000000 20000 5 0 true [some intFile]) ↔ _) ∧
      (InitSafe SmvPublisher.Covered
        (initSmvPublisherFiles pageMmap wordLibrary 4000 250 0 true [some intFile]) ↔ _) :=
    initSafe_iff pageMmap_lawful mapsPages_mmapPages
  obtain ⟨hsi, hgoose, hsmv⟩ := hiff
  obtain ⟨b, hb, -⟩ := exists_mapped_intFile
  obtain ⟨c, hc, -⟩ := exists_mapped_pageMmap
    (show calculateBufferSizeFromFile sampleFile = 152 by decide +kernel) (by decide) (by decide)
    (by decide +kernel)
  have hreaches : ∀ f, some f ∈ [some intFile].takeWhile Option.isSome → Reaches pageMmap f := by
    intro f hf b' hb'
    obtain rfl : f = intFile := by simpa using hf
    exact Option.some.inj (hb.1.symm.trans hb') ▸ hb.2
  refine ⟨hsi.mpr fun f hf => ?_, hgoose.mpr ⟨hreaches, ?_⟩, hsmv.mpr ⟨hreaches, ?_⟩⟩
  · obtain rfl := Option.some.inj hf
    rw [SiFileSafe, if_pos rfl]
    exact ⟨by decide, ⟨c, hc⟩, by decide +kernel, by decide +kernel⟩
  · refine Or.inr (Or.inr fun f hf => ?_)
    obtain rfl := Option.some.inj (List.mem_singleton.mp hf)
    exact gooseFileSafe_intFile
  · refine Or.inr (Or.inr fun f hf => ?_)
    obtain rfl := Option.some.inj (List.mem_singleton.mp hf)
    exact smvFileSafe_intFile

/-- **An empty file** gives the length `-1`, which cannot be mapped, and each of the three modules
reads the header of its input through a null pointer. -/
theorem not_initSafe_empty :
    ¬ InitSafe Si.Covered
      (initSiFile pageMmap mmapPages (fun _ => true) ℚ 2 800 10 (some [])) ∧
    ¬ InitSafe Publisher.Covered
      (initGoosePublisherFiles pageMmap 2000000 20000 5 0 true [some []]) ∧
    ¬ InitSafe SmvPublisher.Covered
      (initSmvPublisherFiles pageMmap wordLibrary 4000 250 0 true [some []]) :=
  ⟨not_initSafe_error .nullPointer, not_initSafe_error .nullPointer,
    not_initSafe_error .nullPointer⟩

end Tmee
