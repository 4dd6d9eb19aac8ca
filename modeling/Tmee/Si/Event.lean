import Mathlib.Algebra.Order.Field.Basic
import Mathlib.Data.Int.Cast.Basic
import Tmee.Lib.Fallible
import Tmee.Lib.Run
import Tmee.MemFile.HeaderInit

set_option relaxedAutoImplicit false
set_option autoImplicit false

/-!
# The standard inverse protection

The module `si`: its `event` function turns every new sample of the input ring into an RMS value,
accumulates these from pickup on, and trips when the average has been above the threshold for
long enough. The `float` arithmetic is that of an ordered field, with `sqrt` and `pow` given.

A call of `event` is split into its iterations, between which other processes may write the
input ring. The clock is a sequence of readings, one for every call of `current_time`.

## Main definitions

* `Tmee.Si` — the private data of the module, with the local variable `index` of `event`.
* `Tmee.initSi` — `pre_init` and `init`.
* `Tmee.Si.observe`, `Tmee.Si.accumulate`, `Tmee.Si.checkTrip`, `Tmee.Si.advance` — the parts of
  one iteration, and `Tmee.Si.iterate`, the iteration.
* `Tmee.siStep` — a run of the module.

## Main results

* `Tmee.Si.iterate_cases` — everything an iteration can do.
-/

namespace Tmee

/-- The functions `sqrt` and `pow` of the mathematical library. -/
structure Libm (R : Type) where
  sqrt : R → R
  pow : R → R → R

/-- The private data of the module. -/
structure Si (R : Type) where
  paramA : ℤ
  paramB : ℤ
  /-- The number of entries of the output ring. -/
  maxItems : ℤ
  /-- The number of samples per cycle. -/
  vector : ℕ
  inputBuffer : Buffer
  outputBuffer : Buffer
  oldIndex : ℤ
  trip : Bool
  isRecording : Bool
  /-- Not assigned before the first pickup. -/
  total : Option R
  /-- Not assigned before the first pickup. -/
  sampleCount : Option R
  /-- Not assigned before the first pickup. -/
  startTime : Option ℤ
  /-- The number of clock readings made so far. -/
  reads : ℕ
  /-- How often `TRIP_VALUE_CHANGE` has been raised. -/
  raised : ℕ
  /-- The variable `index` of the call of `event` in progress. -/
  index : Option ℤ

section Model

variable {R : Type} [Field R] [LinearOrder R]

/-- The header writes of `init`. -/
def siHeader (type size items : ℤ) : BufM Unit := do
  writeType type
  writeSize size
  writeItems items
  writeIndex 0

/-- `pre_init` and `init` with the mapped input file, for an output file that could be created and
is mapped by `mmap`. -/
def initSiIn (mmap : ℤ → Option Buffer) (R : Type) (paramA paramB bufferEntries : ℤ)
    (input : Buffer) : Except Fault (Si R) := do
  let (oldIndex, input) ← readIndex input
  let itemSize := typeToItemSize TypeCode.bool
  match mmap (calculateBufferSize itemSize bufferEntries) with
  | none => throw Fault.nullPointer
  | some output =>
    let (_, output) ← siHeader TypeCode.bool itemSize bufferEntries output
    pure
      { paramA := paramA
        paramB := paramB
        maxItems := u32 bufferEntries
        vector := 80
        inputBuffer := input
        outputBuffer := output
        oldIndex := oldIndex
        trip := false
        isRecording := false
        total := none
        sampleCount := none
        startTime := none
        reads := 0
        raised := 0
        index := none }

/-- `init` where exactly the bytes asked for can be accessed. -/
def initSi (R : Type) (paramA paramB bufferEntries : ℤ) (input : Buffer) : Except Fault (Si R) :=
  initSiIn mmapNew R paramA paramB bufferEntries input

/-- `(data->old_index - i) % data->max_items`: the difference is an `int`, the remainder is
`unsigned`, and the result is passed as an `int`. -/
def sampleIndex (oldIndex maxItems : ℤ) (i : ℕ) : Except Fault ℤ := do
  let difference ← cInt (oldIndex - i)
  if maxItems = 0 then .error .divideByZero else .ok (wrap32 (u32 difference % maxItems))

/-- The samples read for one RMS value, those of `i = 0 .. n - 1` in this order. -/
def readSamples (oldIndex maxItems : ℤ) : ℕ → BufM (List ℤ)
  | 0 => pure []
  | n + 1 => do
    let samples ← readSamples oldIndex maxItems n
    let index ← sampleIndex oldIndex maxItems n
    let current ← readInputSmv 0 index
    pure (samples ++ [current])

/-- The RMS value of the samples. -/
def rms (libm : Libm R) (vector : ℕ) (samples : List ℤ) : R :=
  let total := samples.foldl (fun (total : R) (current : ℤ) => total + libm.pow (current : R) 2) 0
  libm.sqrt (total / (vector : R))

/-- The trip time of the standard inverse curve. -/
def tripTime (libm : Libm R) (timeDial treshold averageCurrent : R) : R :=
  let a : R := 2 / 100
  let k : R := 14 / 100
  let c : R := 0
  let P : R := 1
  timeDial * (k / (libm.pow (averageCurrent / treshold) a - P) + c)

namespace Si

variable (libm : Libm R) (clock : ℕ → ℤ)

/-- Start recording if the RMS value is above the threshold. -/
def pickup (currentRms : R) (s : Si R) : Si R :=
  if currentRms > (s.paramB : R) ∧ s.isRecording = false then
    { s with
      startTime := some (clock s.reads)
      reads := s.reads + 1
      total := some 0
      sampleCount := some 0
      isRecording := true }
  else s

/-- The first part of an iteration: the RMS value, and the state after pickup. -/
def observe (s : Si R) : Except Fault (R × Si R) := do
  let (samples, input) ← readSamples s.oldIndex s.maxItems s.vector s.inputBuffer
  let currentRms := rms libm s.vector samples
  return (currentRms, pickup clock currentRms { s with inputBuffer := input })

/-- Add the RMS value to the record, and return the average current. -/
def accumulate (currentRms : R) (s : Si R) : Except Fault (R × Si R) :=
  match s.total, s.sampleCount with
  | some total, some sampleCount =>
    .ok ((total + currentRms) / (sampleCount + 1),
      { s with total := some (total + currentRms), sampleCount := some (sampleCount + 1) })
  | _, _ => .error .uninitialised

/-- Compare the time since pickup with the trip time; below the threshold, reset the pickup. -/
def checkTrip (averageCurrent : R) (s : Si R) : Except Fault (Si R) :=
  if averageCurrent > (s.paramB : R) then
    match s.startTime with
    | none => .error .uninitialised
    | some startTime => do
      let difference := startTime - clock s.reads
      if (difference : R) > tripTime libm (s.paramA : R) (s.paramB : R) averageCurrent then
        let (_, output) ← writeOutputBool 1 s.outputBuffer
        return { s with
          reads := s.reads + 1
          trip := true
          outputBuffer := output
          raised := s.raised + 1 }
      else return { s with reads := s.reads + 1 }
  else .ok { s with isRecording := false }

/-- Go on to the next sample. -/
def advance (s : Si R) : Except Fault (Si R) := do
  let (items, input) ← readItems s.inputBuffer
  let oldIndex ← cRem (← cInt (s.oldIndex + 1)) items
  return { s with inputBuffer := input, oldIndex := oldIndex }

/-- The part of an iteration behind `if(data->is_recording)`. -/
def record (currentRms : R) (s : Si R) : Except Fault (Si R) :=
  if s.isRecording then do
    let (averageCurrent, s) ← accumulate currentRms s
    checkTrip libm clock averageCurrent s
  else .ok s

/-- One iteration of the loop of `event`, if a call is in progress; the loop ends when `old_index`
has caught up, and `event` returns from it when the module has tripped. -/
def iterate (s : Si R) : Except Fault (Si R) :=
  match s.index with
  | none => .ok s
  | some index =>
    if s.oldIndex = index ∨ s.trip = true then .ok { s with index := none }
    else do
      let (currentRms, s) ← observe libm clock s
      let s ← record libm clock currentRms s
      advance s

/-- A call of `event`, if none is in progress: it returns at once if there is no new sample. -/
def event (s : Si R) : Except Fault (Si R) :=
  match s.index with
  | some _ => .ok s
  | none => do
    let (index, input) ← readIndex s.inputBuffer
    if s.oldIndex = index then return { s with inputBuffer := input }
    else return { s with inputBuffer := input, index := some index }

end Si

/-- What happens to the module. -/
inductive SiInput
  /-- Other processes have changed the input ring. -/
  | input (buffer : Buffer)
  | event
  | iteration

/-- A run of the module. -/
def siStep (libm : Libm R) (clock : ℕ → ℤ) (s : Si R) : SiInput → Except Fault (Si R)
  | .input buffer => .ok { s with inputBuffer := buffer }
  | .event => s.event
  | .iteration => s.iterate libm clock

end Model

section Frames

variable {R : Type} {s s' : Si R}

/-- A successful `init` starts at the current index of the input ring, without a pickup. -/
lemma initSiIn_eq {mmap : ℤ → Option Buffer} {paramA paramB bufferEntries : ℤ} {input : Buffer}
    (h : initSiIn mmap R paramA paramB bufferEntries input = .ok s) :
    ∃ oldIndex input' output, readIndex input = .ok (oldIndex, input') ∧ s =
      { paramA := paramA
        paramB := paramB
        maxItems := u32 bufferEntries
        vector := 80
        inputBuffer := input'
        outputBuffer := output
        oldIndex := oldIndex
        trip := false
        isRecording := false
        total := none
        sampleCount := none
        startTime := none
        reads := 0
        raised := 0
        index := none } := by
  obtain ⟨⟨oldIndex, input'⟩, hread, h⟩ := Fallible.bind_eq_ok.mp h
  cases hmap : mmap (calculateBufferSize (typeToItemSize TypeCode.bool) bufferEntries) with
  | none =>
    simp only [hmap] at h
    cases h
  | some output =>
    simp only [hmap] at h
    obtain ⟨⟨_, output'⟩, -, h⟩ := Fallible.bind_eq_ok.mp h
    exact ⟨oldIndex, input', output', hread, (Except.ok.inj h).symm⟩

lemma initSi_eq {paramA paramB bufferEntries : ℤ} {input : Buffer}
    (h : initSi R paramA paramB bufferEntries input = .ok s) :
    ∃ oldIndex input' output, readIndex input = .ok (oldIndex, input') ∧ s =
      { paramA := paramA
        paramB := paramB
        maxItems := u32 bufferEntries
        vector := 80
        inputBuffer := input'
        outputBuffer := output
        oldIndex := oldIndex
        trip := false
        isRecording := false
        total := none
        sampleCount := none
        startTime := none
        reads := 0
        raised := 0
        index := none } :=
  initSiIn_eq h

/-- A successful `init` has mapped the output ring and written its header. -/
lemma initSi_output {paramA paramB bufferEntries : ℤ} {input : Buffer}
    (h : initSi R paramA paramB bufferEntries input = .ok s) :
    ∃ output, mmapNew (calculateBufferSize 1 bufferEntries) = some output ∧
      siHeader TypeCode.bool 1 bufferEntries output = .ok ((), s.outputBuffer) := by
  obtain ⟨⟨oldIndex, input'⟩, -, h⟩ := Fallible.bind_eq_ok.mp h
  have hitem : typeToItemSize TypeCode.bool = 1 := rfl
  simp only [hitem] at h
  cases hmap : mmapNew (calculateBufferSize 1 bufferEntries) with
  | none =>
    simp only [hmap] at h
    cases h
  | some output =>
    simp only [hmap] at h
    obtain ⟨⟨_, output'⟩, hheader, h⟩ := Fallible.bind_eq_ok.mp h
    obtain rfl := Except.ok.inj h
    exact ⟨output, rfl, hheader⟩

/-- A successful `init` leaves an output ring, if it has got a positive number of entries: its index
is `0`, and so is everything behind the header. -/
lemma outputRing_initSi {paramA paramB bufferEntries : ℤ} {input : Buffer}
    (hpos : 1 ≤ bufferEntries) (hint : bufferEntries < 2 ^ 31)
    (h : initSi R paramA paramB bufferEntries input = .ok s) :
    HeaderInv TypeCode.bool 1 bufferEntries s.outputBuffer ∧ s.outputBuffer.index = 0 ∧
      ∃ output, mmapNew (16 + bufferEntries) = some output ∧
        ∀ i, 16 ≤ i → s.outputBuffer.bytes[i]? = output.bytes[i]? := by
  obtain ⟨output, hmap, hheader⟩ := initSi_output h
  have hsize : calculateBufferSize 1 bufferEntries = 16 + ((1 : ℕ) : ℤ) * bufferEntries := by
    have hlen := length_mmapNew hmap
    unfold calculateBufferSize wrap32 at *
    rw [Int.bmod_def] at *
    split_ifs at hlen ⊢ <;> omega
  rw [hsize] at hmap
  obtain ⟨output', hfields, hinv, hindex, hbytes⟩ := headerInv_of_writeFields
    (show 0 ≤ TypeCode.bool by decide) (by decide) hpos hint (by decide) hmap
    (List.Perm.refl [HeaderField.type, .size, .items, .index])
  have hsame : siHeader TypeCode.bool 1 bufferEntries =
      writeFields TypeCode.bool ((1 : ℕ) : ℤ) bufferEntries [.type, .size, .items, .index] := by
    simp [siHeader, writeFields, HeaderField.write]
  rw [hsame, hfields] at hheader
  obtain ⟨-, rfl⟩ := Prod.mk.inj (Except.ok.inj hheader)
  rw [Nat.cast_one, one_mul] at hmap
  exact ⟨hinv, hindex, output, hmap, hbytes⟩

/-- The header of that ring. -/
lemma headerInv_initSi {paramA paramB bufferEntries : ℤ} {input : Buffer} (hpos : 1 ≤ bufferEntries)
    (hint : bufferEntries < 2 ^ 31) (h : initSi R paramA paramB bufferEntries input = .ok s) :
    HeaderInv TypeCode.bool 1 bufferEntries s.outputBuffer :=
  (outputRing_initSi hpos hint h).1

/-- The header is written to an output ring that has room for it. -/
lemma siHeader_eq {output : Buffer} {size items : ℤ} (hlen : semaphorePos < output.length)
    (hlock : output.lock = 0) :
    siHeader TypeCode.bool size items output = .ok ((), output.putCells
      [⟨2, 12, TypeCode.bool⟩, ⟨4, 0, size⟩, ⟨4, 4, items⟩, ⟨4, 8, 0⟩]) := by
  rw [← headerWrites_eq hlen hlock (by simp [semaphorePos])]
  simp [siHeader, headerWrites, writeSize, writeItems, writeIndex, writeType]

/-- **`init` succeeds** if and only if the input ring has an index, and the output ring is mapped
and has room for its header up to the semaphore byte. -/
lemma exists_initSiIn_iff {mmap : ℤ → Option Buffer} {paramA paramB bufferEntries : ℤ}
    {input : Buffer} (hzero : ∀ b, mmap (calculateBufferSize 1 bufferEntries) = some b →
      b.lock = 0) :
    (∃ s, initSiIn mmap R paramA paramB bufferEntries input = .ok s) ↔
      12 ≤ input.length ∧
        ∃ b, mmap (calculateBufferSize 1 bufferEntries) = some b ∧ 15 ≤ b.length := by
  have hitem : typeToItemSize TypeCode.bool = 1 := rfl
  constructor
  · rintro ⟨s, hs⟩
    obtain ⟨⟨oldIndex, input'⟩, hread, hs⟩ := Fallible.bind_eq_ok.mp hs
    simp only [hitem] at hs
    refine ⟨fits_of_load (a := 8) hread, ?_⟩
    cases hmap : mmap (calculateBufferSize 1 bufferEntries) with
    | none =>
      simp only [hmap] at hs
      cases hs
    | some output =>
      simp only [hmap] at hs
      obtain ⟨⟨_, output'⟩, hheader, -⟩ := Fallible.bind_eq_ok.mp hs
      obtain ⟨_, c, htype, -⟩ := bufM_bind_eq_ok hheader
      obtain ⟨_, d, hlock, -⟩ := bufM_bind_eq_ok htype
      obtain ⟨_, e, hload, -⟩ := bufM_bind_eq_ok hlock
      exact ⟨output, rfl, fits_of_load hload⟩
  · rintro ⟨hinput, output, hmap, hlen⟩
    have hread : readIndex input = .ok (input.index, input) := load_eq_ok (a := 8) (by omega)
    have hheader : siHeader TypeCode.bool 1 bufferEntries output = _ :=
      siHeader_eq (show semaphorePos < output.length by unfold semaphorePos; omega)
        (hzero output hmap)
    simp only [initSiIn, hread, hitem, hmap, hheader]
    exact ⟨_, rfl⟩

/-- Where exactly the bytes asked for can be accessed, they have to hold the header. -/
lemma exists_initSi_iff {paramA paramB bufferEntries : ℤ} {input : Buffer} :
    (∃ s, initSi R paramA paramB bufferEntries input = .ok s) ↔
      12 ≤ input.length ∧ 15 ≤ calculateBufferSize 1 bufferEntries := by
  refine (exists_initSiIn_iff fun b hb => get_mmapNew hb 1 semaphorePos).trans
    (and_congr_right fun _ => ⟨?_, fun hsize => ?_⟩)
  · rintro ⟨b, hb, hlen⟩
    have := length_mmapNew hb
    omega
  · obtain ⟨b, hb⟩ := exists_mmapNew (show 0 < calculateBufferSize 1 bufferEntries by omega)
    have := length_mmapNew hb
    exact ⟨b, hb, by omega⟩

/-- `init` succeeds if both rings have room for a header. -/
lemma exists_initSi_eq_ok {paramA paramB bufferEntries : ℤ} {input : Buffer}
    (hsize : 16 ≤ calculateBufferSize 1 bufferEntries) (hinput : 16 ≤ input.length) :
    ∃ s, initSi R paramA paramB bufferEntries input = .ok s :=
  exists_initSi_iff.mpr ⟨by omega, by omega⟩

/-- Passing on to the next sample changes the position only. -/
lemma Si.advance_eq (h : s.advance = .ok s') :
    ∃ oldIndex input, s' = { s with inputBuffer := input, oldIndex := oldIndex } := by
  obtain ⟨⟨items, input⟩, -, h⟩ := Fallible.bind_eq_ok.mp h
  obtain ⟨next, -, h⟩ := Fallible.bind_eq_ok.mp h
  obtain ⟨oldIndex, -, h⟩ := Fallible.bind_eq_ok.mp h
  exact ⟨oldIndex, input, (Except.ok.inj h).symm⟩

/-- A call of `event` only reads the index of the input ring. -/
lemma Si.event_eq (h : s.event = .ok s') :
    ∃ input index, s' = { s with inputBuffer := input, index := index } := by
  rw [Si.event] at h
  cases hindex : s.index with
  | some index =>
    simp only [hindex] at h
    obtain rfl := Except.ok.inj h
    exact ⟨s.inputBuffer, some index, by rw [← hindex]⟩
  | none =>
    simp only [hindex] at h
    obtain ⟨⟨index, input⟩, -, h⟩ := Fallible.bind_eq_ok.mp h
    dsimp only at h
    split_ifs at h with heq
    · exact ⟨input, none, (Except.ok.inj h).symm⟩
    · exact ⟨input, some index, (Except.ok.inj h).symm⟩

end Frames

section Cases

variable {R : Type} [Field R] [LinearOrder R] {libm : Libm R} {clock : ℕ → ℤ} {s s' : Si R}

/-- **Everything an iteration can do**: nothing outside a call; the end of the call; or a sample
observed, recorded and passed. -/
lemma Si.iterate_cases (h : s.iterate libm clock = .ok s') :
    (s.index = none ∧ s' = s) ∨
    (∃ index, s.index = some index ∧ (s.oldIndex = index ∨ s.trip = true) ∧
      s' = { s with index := none }) ∨
    (∃ index currentRms p r, s.index = some index ∧ s.oldIndex ≠ index ∧ s.trip = false ∧
      s.observe libm clock = .ok (currentRms, p) ∧
      p.record libm clock currentRms = .ok r ∧ r.advance = .ok s') := by
  rw [Si.iterate] at h
  cases hindex : s.index with
  | none =>
    simp only [hindex] at h
    exact Or.inl ⟨rfl, (Except.ok.inj h).symm⟩
  | some index =>
    simp only [hindex] at h
    by_cases hend : s.oldIndex = index ∨ s.trip = true
    · rw [if_pos hend] at h
      exact Or.inr (Or.inl ⟨index, rfl, hend, (Except.ok.inj h).symm⟩)
    · rw [if_neg hend] at h
      push Not at hend
      obtain ⟨hne, htrip⟩ := hend
      right
      right
      obtain ⟨⟨currentRms, p⟩, hobserve, h⟩ := Fallible.bind_eq_ok.mp h
      obtain ⟨r, hrecord, h⟩ := Fallible.bind_eq_ok.mp h
      exact ⟨index, currentRms, p, r, rfl, hne, by simpa using htrip, hobserve, hrecord, h⟩

/-- What recording can do: nothing if the module does not record, and else the average is taken
and compared. -/
lemma Si.record_cases {currentRms : R} (h : s.record libm clock currentRms = .ok s') :
    (s.isRecording = false ∧ s' = s) ∨
    (s.isRecording = true ∧ ∃ averageCurrent q, s.accumulate currentRms = .ok (averageCurrent, q) ∧
      q.checkTrip libm clock averageCurrent = .ok s') := by
  rw [Si.record] at h
  split_ifs at h with hrecording
  · obtain ⟨⟨averageCurrent, q⟩, haccumulate, h⟩ := Fallible.bind_eq_ok.mp h
    exact Or.inr ⟨hrecording, averageCurrent, q, haccumulate, h⟩
  · exact Or.inl ⟨by simpa using hrecording, (Except.ok.inj h).symm⟩

/-- The first part of an iteration reads the ring and picks up. -/
lemma Si.observe_eq {currentRms : R} (h : s.observe libm clock = .ok (currentRms, s')) :
    ∃ samples input, readSamples s.oldIndex s.maxItems s.vector s.inputBuffer =
        .ok (samples, input) ∧ currentRms = rms libm s.vector samples ∧
      s' = pickup clock currentRms { s with inputBuffer := input } := by
  obtain ⟨⟨samples, input⟩, hsamples, h⟩ := Fallible.bind_eq_ok.mp h
  obtain ⟨rfl, rfl⟩ := Prod.mk.inj (Except.ok.inj h)
  exact ⟨samples, input, hsamples, rfl, rfl⟩

/-- The first part of an iteration: a pickup, or nothing but reading the ring. -/
lemma Si.observe_cases {currentRms : R} (h : s.observe libm clock = .ok (currentRms, s')) :
    ∃ input, (s' = { s with inputBuffer := input }) ∨
      (s.isRecording = false ∧ s' = { s with
        inputBuffer := input
        startTime := some (clock s.reads)
        reads := s.reads + 1
        total := some 0
        sampleCount := some 0
        isRecording := true }) := by
  obtain ⟨-, input, -, -, rfl⟩ := observe_eq h
  refine ⟨input, ?_⟩
  rw [Si.pickup]
  split_ifs with hpickup
  · exact Or.inr ⟨hpickup.2, rfl⟩
  · exact Or.inl rfl

omit [LinearOrder R] in
/-- Accumulating changes the record only. -/
lemma Si.accumulate_eq {currentRms averageCurrent : R}
    (h : s.accumulate currentRms = .ok (averageCurrent, s')) :
    ∃ total sampleCount, s.total = some total ∧ s.sampleCount = some sampleCount ∧
      averageCurrent = (total + currentRms) / (sampleCount + 1) ∧
      s' = { s with
        total := some (total + currentRms)
        sampleCount := some (sampleCount + 1) } := by
  rw [Si.accumulate] at h
  cases htotal : s.total with
  | none =>
    simp only [htotal] at h
    cases h
  | some total =>
    cases hcount : s.sampleCount with
    | none =>
      simp only [htotal, hcount] at h
      cases h
    | some sampleCount =>
      simp only [htotal, hcount] at h
      obtain ⟨rfl, rfl⟩ := Prod.mk.inj (Except.ok.inj h)
      exact ⟨total, sampleCount, rfl, rfl, rfl, rfl⟩

/-- What the comparison can do: reset the pickup, find that the time has not come, or trip. -/
lemma Si.checkTrip_cases {averageCurrent : R}
    (h : s.checkTrip libm clock averageCurrent = .ok s') :
    (averageCurrent ≤ s.paramB ∧ s' = { s with isRecording := false }) ∨
    (∃ startTime, (s.paramB : R) < averageCurrent ∧ s.startTime = some startTime ∧
      (((startTime - clock s.reads : ℤ) : R) ≤
          tripTime libm (s.paramA : R) (s.paramB : R) averageCurrent ∧
          s' = { s with reads := s.reads + 1 } ∨
        tripTime libm (s.paramA : R) (s.paramB : R) averageCurrent <
          ((startTime - clock s.reads : ℤ) : R) ∧
          ∃ r output, writeOutputBool 1 s.outputBuffer = .ok (r, output) ∧
            s' = { s with
              reads := s.reads + 1
              trip := true
              outputBuffer := output
              raised := s.raised + 1 })) := by
  rw [Si.checkTrip] at h
  split_ifs at h with habove
  · right
    cases hstart : s.startTime with
    | none =>
      simp only [hstart] at h
      cases h
    | some startTime =>
      simp only [hstart] at h
      refine ⟨startTime, habove, rfl, ?_⟩
      split_ifs at h with hlate
      · obtain ⟨⟨r, output⟩, hwrite, h⟩ := Fallible.bind_eq_ok.mp h
        exact Or.inr ⟨hlate, r, output, hwrite, (Except.ok.inj h).symm⟩
      · exact Or.inl ⟨not_lt.mp hlate, (Except.ok.inj h).symm⟩
  · exact Or.inl ⟨not_lt.mp habove, (Except.ok.inj h).symm⟩

end Cases

end Tmee
