import Tmee.Si.CatchUp
import Tmee.Subscriber.RoundTrip

set_option relaxedAutoImplicit false
set_option autoImplicit false

/-!
# The protection on a stream of samples

The subscriber of sampled values fills the ring that the protection measures from. The two take
steps in any order: samples arrive between any two turns of the loop of `event`. The protection
remembers a slot, the subscriber's index wraps around, and the newest entries of the ring are all
that is left of the stream; what the protection computes is followed by the numbers of the samples.

## Main definitions

* `Tmee.Measurement`, `Tmee.measurementStep` — the subscriber and the protection on its ring.
* `Tmee.Observed`, `Tmee.observedNext` — the samples stored and the RMS values computed, noted along
  a run.
* `Tmee.lastSamples` — the samples of one RMS value.
* `Tmee.Timely` — the protection is not too far behind.

## Main results

* `Tmee.StreamInv.step` — what every step keeps.
* `Tmee.stream_measured` — the RMS values of a run are those of one sample after the other.
-/

namespace Tmee

open NumberedRing

/-! ## Both sides -/

/-- The subscriber of sampled values, and the protection on its ring. -/
structure Measurement (R : Type) where
  sub : Subscriber
  si : Si R

/-- What happens to them. -/
inductive MeasurementInput
  /-- An ASDU arrives. -/
  | asdu (asdu : Asdu)
  | event
  | iteration

/-- The samples stored and the RMS values computed so far. -/
structure Observed (R : Type) where
  samples : List Asdu
  values : List R

section Model

variable {R : Type} [Field R] [LinearOrder R] (libm : Libm R) (clock : ℕ → ℤ)

/-- A run of the two on one file. -/
def measurementStep (s : Measurement R) : MeasurementInput → Except Fault (Measurement R)
  | .asdu asdu => do
    let sub ← svUpdateListener s.sub asdu
    return ⟨sub, { s.si with inputBuffer := sub.outputBuffer }⟩
  | .event => do
    let si ← s.si.event
    return ⟨{ s.sub with outputBuffer := si.inputBuffer }, si⟩
  | .iteration => do
    let si ← s.si.iterate libm clock
    return ⟨{ s.sub with outputBuffer := si.inputBuffer }, si⟩

/-- The notes after a step. -/
def observedNext (o : Observed R) (s : Measurement R) : MeasurementInput → Observed R
  | .asdu asdu => if asdu.IsSample then { o with samples := o.samples ++ [asdu] } else o
  | .event => o
  | .iteration =>
    match s.si.evaluation libm clock with
    | none => o
    | some (currentRms, _) => { o with values := o.values ++ [currentRms] }

end Model

/-- The number of the sample under the index of the ring: of the newest one, if there is any. -/
def newestSample (samples : List Asdu) : ℤ := ((samples.length - 1 : ℕ) : ℤ)

/-- The samples of one RMS value: the first words of sample number `k` and of those before it, the
last one first. Before the first sample there are zeros. -/
def lastSamples (samples : List Asdu) (k : ℤ) : List ℤ :=
  (List.range 80).map fun i : ℕ => sampleEntry samples (k - i) 0

/-- The samples of the RMS value behind the last one are all in the ring; the first one belongs to
sample `start`. -/
def Timely {R : Type} (n start : ℤ) (o : Observed R) : Prop :=
  newestSample o.samples - (start + o.values.length) + 80 ≤ n

/-! ## The ring -/

/-- **The ring of the stream**: the samples are its entries, and its header says so. -/
structure StreamRing (n : ℤ) (samples : List Asdu) (sub : Subscriber) : Prop where
  sampleInv : SampleInv n samples sub
  wellFormed : WellFormed TypeCode.smv92 68 sub.outputBuffer
  items_eq : sub.outputBuffer.items = n
  index_eq : sub.outputBuffer.index = newestSample samples % n

section Ring

variable {n : ℤ} {samples : List Asdu} {sub sub' : Subscriber} {asdu : Asdu}

lemma newestSample_nonneg (samples : List Asdu) : 0 ≤ newestSample samples := Int.natCast_nonneg _

lemma newestSample_concat (samples : List Asdu) (asdu : Asdu) :
    newestSample (samples ++ [asdu]) = samples.length := by
  simp [newestSample]

lemma newestSample_le (samples : List Asdu) (asdu : Asdu) :
    newestSample samples ≤ newestSample (samples ++ [asdu]) := by
  rw [newestSample_concat, newestSample]
  omega

/-- The ring after `init`. -/
lemma streamRing_init (hn : 1 ≤ n) (hn' : n ≤ 256)
    (hinit : initSubscriber TypeCode.smv92 n = .ok sub) : StreamRing n [] sub := by
  have hcode : typeToItemSize TypeCode.smv92 = (68 : ℕ) := rfl
  have hcalc : calculateBufferSize (68 : ℕ) n = 16 + (68 : ℕ) * n := by
    rw [calculateBufferSize, wrap32]
    exact Int.bmod_eq_of_le_mul_two (by push_cast; omega) (by push_cast; omega)
  have hlen : 16 ≤ calculateBufferSize (68 : ℕ) n := by rw [hcalc]; push_cast; omega
  obtain ⟨sub₁, hsub₁, hinv⟩ := sampleInv_of_init hn (by omega)
  obtain rfl := Except.ok.inj (hsub₁.symm.trans hinit)
  obtain ⟨b, hb, hout⟩ := outputBuffer_initSubscriber hcode hlen hinit
  rw [hcalc] at hb
  obtain ⟨b', hfields, hheader, hindex, -⟩ := headerInv_of_writeFields
    (show 0 ≤ TypeCode.smv92 by decide) (by decide) hn (by omega) (by decide) hb
    (show List.Perm [HeaderField.size, .items, .index, .type] [.type, .size, .items, .index] by
      decide)
  have hblen := length_mmapNew hb
  have hwrites : initHeader TypeCode.smv92 (68 : ℕ) n =
      writeFields TypeCode.smv92 ((68 : ℕ) : ℤ) n [.size, .items, .index, .type] := by
    simp [initHeader, writeFields, HeaderField.write]
  have hfresh := initHeader_eq (b := b) (by push_cast at hblen; omega)
    (get_mmapNew hb 1 semaphorePos) TypeCode.smv92 (68 : ℕ) n
  rw [hwrites, hfields] at hfresh
  obtain ⟨-, rfl⟩ := Prod.mk.inj (Except.ok.inj hfresh)
  rw [← hout] at hheader hindex
  exact ⟨hinv, hheader.wellFormed (by rw [hindex]; omega), hheader.items_eq,
    by rw [hindex]; rfl⟩

/-- **A sample stored**: the index goes to it. -/
lemma StreamRing.push (h : StreamRing n samples sub) (hn : 1 ≤ n) (hn' : n ≤ 256)
    (hsample : asdu.IsSample) (hstep : svUpdateListener sub asdu = .ok sub') :
    StreamRing n (samples ++ [asdu]) sub' := by
  have hsize : 16 + 68 * n < 2 ^ 31 := by omega
  obtain ⟨sub₁, hsub₁, -, -, -, -, hbytes⟩ := h.sampleInv.stored hn hsize hsample
  obtain rfl := Except.ok.inj (hsub₁.symm.trans hstep)
  have hs₀ : 0 ≤ (samples.length : ℤ) % n := Int.emod_nonneg _ (by omega)
  have hs₁ : (samples.length : ℤ) % n < n := Int.emod_lt_of_pos _ (by omega)
  have hstores := h.sampleInv.stores
  -- the index is written as a byte, which is all of it
  have hindex : sub₁.outputBuffer.index = (samples.length : ℤ) % n := by
    have hfits : asdu.Fits 68 := (Asdu.fits_iff asdu).mpr hsample
    have hitem : sub.itemSize = 68 := hstores.itemSize_eq
    rw [svUpdateListener, hitem, if_neg (not_not_intro hfits)] at hsub₁
    have hinv := storeMessage_of_ok hstores (by omega) (by omega) (by omega)
      (fillsSlot_storeAsdu hfits) hsub₁
    rw [hinv.2.2.2.2, h.sampleInv.raised_eq, Int.emod_eq_of_lt hs₀ (by omega)]
  have hframe : ∀ w a, (a + w ≤ 8 ∨ 9 ≤ a) → a + w ≤ 16 →
      sub₁.outputBuffer.get w a = sub.outputBuffer.get w a := fun w a hi ha =>
    get_congr fun i _ => hbytes (a + i) (by omega) (Or.inl (by omega))
  have hlength : sub₁.outputBuffer.length = sub.outputBuffer.length := by
    have hpush := (h.sampleInv.push hn hsize hsample hstep).stores.length_eq
    rw [hpush, hstores.length_eq]
  have hitems : sub₁.outputBuffer.items = n := (hframe 4 4 (by omega) (by omega)).trans h.items_eq
  have hlock : sub₁.outputBuffer.lock = sub.outputBuffer.lock :=
    hframe 1 semaphorePos (by decide) (by decide)
  refine ⟨h.sampleInv.push hn hsize hsample hstep, ⟨?_, ?_, ?_, ?_, ?_, ?_, ?_⟩, hitems, ?_⟩
  · rw [← h.wellFormed.type_eq, Buffer.type, Buffer.type, hframe 4 12 (by omega) (by omega)]
  · rw [← h.wellFormed.size_eq]
    exact hframe 4 0 (by omega) (by omega)
  · omega
  · rwa [hindex]
  · rwa [hindex, hitems]
  · rw [hlock, h.wellFormed.lock_eq]
  · rw [hitems, hlength, ← h.items_eq]
    exact h.wellFormed.fits
  · rw [hindex, newestSample_concat]

/-- An ASDU of another size changes nothing. -/
lemma StreamRing.rejected (h : StreamRing n samples sub) (hsample : ¬ asdu.IsSample)
    (hstep : svUpdateListener sub asdu = .ok sub') : sub' = sub :=
  Except.ok.inj (hstep.symm.trans (h.sampleInv.rejected hsample))

/-- **What an RMS value is computed from**: while its samples are in the ring, the slots behind the
one of sample `k` hold them. -/
lemma StreamRing.map_ringWindow (h : StreamRing n samples sub) {k : ℤ}
    (hk : k < samples.length) (htimely : newestSample samples - k + 80 ≤ n) :
    (ringWindow (k % n) n 80).map (sampleAt sub.outputBuffer) = lastSamples samples k := by
  rw [ringWindow, lastSamples, List.map_map]
  apply List.map_congr_left
  intro i hi
  rw [List.mem_range] at hi
  have hn : 0 < n := h.items_eq ▸ h.wellFormed.items_pos
  have hslot : (k % n - i) % n = (k - i) % n := Int.emod_sub_emod _ _ _
  have hnewest : (samples.length : ℤ) - 1 ≤ newestSample samples := by
    unfold newestSample
    omega
  have hheld := h.sampleInv.holds.slot_eq hn (k := k - i) (by omega) (by omega)
  have hword : sampleSlots sub.outputBuffer ((k - i) % n) 0 = sampleEntry samples (k - i) 0 :=
    congrFun hheld 0
  show sampleAt sub.outputBuffer ((k % n - i) % n) = _
  rw [hslot, ← hword]
  rfl

/-- Samples that arrive later do not change the samples of an RMS value. -/
lemma lastSamples_concat {k : ℤ} (hk : k < samples.length) (asdu : Asdu) :
    lastSamples (samples ++ [asdu]) k = lastSamples samples k := by
  apply List.map_congr_left
  intro i _
  rw [sampleEntry_concat_of_lt (by omega)]

end Ring

/-! ## The two in step -/

/-- **The rings fit together**: that of the subscriber has room for the samples of an RMS value, its
index fits a byte, and the protection's own number of entries leads to its slots. -/
structure RingsFit (n bufferEntries : ℤ) : Prop where
  window_le : 80 ≤ n
  le_byte : n ≤ 256
  le_entries : n ≤ bufferEntries
  entries_lt : bufferEntries < 2 ^ 31
  last_slot : (2 ^ 32 - 1) % bufferEntries = n - 1

section Stream

variable {R : Type} [Field R]

/-- **What every step keeps**: the protection is at the sample behind the RMS values computed, a
call in progress goes on to a sample that has been stored, and the RMS values are those of one
sample after the other from sample `start` on. -/
structure StreamInv (n bufferEntries start : ℤ) (libm : Libm R) (s : Measurement R)
    (o : Observed R) : Prop where
  ring : StreamRing n o.samples s.sub
  shared : s.si.inputBuffer = s.sub.outputBuffer
  ready : s.si.Ready bufferEntries
  start_nonneg : 0 ≤ start
  position_eq : s.si.oldIndex = (start + o.values.length) % n
  position_le : start + o.values.length ≤ newestSample o.samples
  index_eq : ∀ index, s.si.index = some index →
    ∃ k, start + o.values.length ≤ k ∧ k ≤ newestSample o.samples ∧ index = k % n
  value_eq : ∀ (j : ℕ) value, o.values[j]? = some value →
    value = rms libm 80 (lastSamples o.samples (start + j))

variable {libm : Libm R} {clock : ℕ → ℤ} {n bufferEntries start : ℤ} {s s' : Measurement R}
  {o : Observed R}

namespace StreamInv

/-- The slots that the protection computes are those of the ring. -/
lemma windowSlots_eq (hfits : RingsFit n bufferEntries)
    (h : StreamInv n bufferEntries start libm s o) :
    windowSlots s.si.oldIndex s.si.maxItems s.si.vector =
      .ok (ringWindow s.si.oldIndex n 80) := by
  obtain ⟨hwindow, hbyte, hentries, hint, hlast⟩ := hfits
  have hu : u32 bufferEntries = bufferEntries := Int.emod_eq_of_lt (by omega) (by omega)
  have ho₀ : 0 ≤ s.si.oldIndex := h.position_eq ▸ Int.emod_nonneg _ (by omega)
  have ho₁ : s.si.oldIndex < n := h.position_eq ▸ Int.emod_lt_of_pos _ (by omega)
  rw [h.ready.maxItems_eq, h.ready.vector_eq, hu]
  exact (windowSlots_eq_ringWindow_iff (by omega) (by omega) (by omega) ho₀ ho₁ (by omega)
    (by push_cast; omega)).mpr ⟨by omega, Or.inr hlast⟩

/-- A sample whose RMS value has been computed is in the stream. -/
lemma lt_length (h : StreamInv n bufferEntries start libm s o) {j : ℕ} (hj : j < o.values.length) :
    start + j < o.samples.length := by
  have hle := h.position_le
  have h₀ := h.start_nonneg
  unfold newestSample at hle
  omega

/-- The protection leaves the ring as it is. -/
lemma sub_eq (h : StreamInv n bufferEntries start libm s o) {si : Si R}
    (hbuffer : si.inputBuffer = s.si.inputBuffer) :
    { s.sub with outputBuffer := si.inputBuffer } = s.sub := by
  rw [hbuffer, h.shared]

/-- A position that shares its slot with the newest sample is at it. -/
lemma eq_newestSample (h : StreamInv n bufferEntries start libm s o) (htimely : Timely n start o)
    (hslot : s.si.oldIndex = newestSample o.samples % n) :
    start + o.values.length = newestSample o.samples := by
  unfold Timely at htimely
  have hle := h.position_le
  exact eq_of_emod_eq (h.position_eq.symm.trans hslot) (by omega) (by omega)

variable [LinearOrder R]

/-- **No step faults.** -/
lemma exists_step (hfits : RingsFit n bufferEntries) (h : StreamInv n bufferEntries start libm s o)
    (clock : ℕ → ℤ) (i : MeasurementInput) : ∃ s', measurementStep libm clock s i = .ok s' := by
  have hn := hfits.window_le
  have hbyte := hfits.le_byte
  have hring := h.ring.wellFormed
  rw [← h.shared] at hring
  have hitems : s.si.inputBuffer.items = n := by rw [h.shared, h.ring.items_eq]
  cases i with
  | asdu asdu =>
    have hlistener : ∃ sub, svUpdateListener s.sub asdu = .ok sub := by
      by_cases hsample : asdu.IsSample
      · obtain ⟨sub, hsub, -⟩ := h.ring.sampleInv.stored (by omega) (by omega) hsample
        exact ⟨sub, hsub⟩
      · exact ⟨_, h.ring.sampleInv.rejected hsample⟩
    obtain ⟨sub, hsub⟩ := hlistener
    exact ⟨_, by rw [measurementStep, hsub]; rfl⟩
  | event =>
    have hevent : ∃ si, s.si.event = .ok si := by
      cases hindex : s.si.index with
      | none => exact ⟨_, Si.event_of_idle hring.length_ge hindex⟩
      | some index => exact ⟨s.si, by simp only [Si.event, hindex]⟩
    obtain ⟨si, hsi⟩ := hevent
    exact ⟨_, by rw [measurementStep, hsi]; rfl⟩
  | iteration =>
    have hmem := mem_ringWindow (o := s.si.oldIndex) (v := 80) (show 0 < n by omega)
    obtain ⟨si, hsi⟩ := h.ready.exists_iterate (by have := hfits.le_entries; omega) hring
      (h.position_eq ▸ Int.emod_nonneg _ (by omega))
      (by rw [hitems, h.position_eq]; exact Int.emod_lt_of_pos _ (by omega))
      (h.windowSlots_eq hfits) (by rwa [hitems]) libm clock
    exact ⟨_, by rw [measurementStep, hsi]; rfl⟩

/-- **An ASDU arrives.** -/
lemma asdu (hfits : RingsFit n bufferEntries) (h : StreamInv n bufferEntries start libm s o)
    {asdu : Asdu} (hstep : measurementStep libm clock s (.asdu asdu) = .ok s') :
    StreamInv n bufferEntries start libm s' (observedNext libm clock o s (.asdu asdu)) := by
  have hn := hfits.window_le
  obtain ⟨sub, hsub, hreturn⟩ := Fallible.bind_eq_ok.mp hstep
  obtain rfl := Except.ok.inj hreturn
  have hready : { s.si with inputBuffer := sub.outputBuffer }.Ready bufferEntries :=
    ready_siStep s.si (.input sub.outputBuffer) _ h.ready
      (show siStep libm clock s.si (.input sub.outputBuffer) = _ from rfl)
  rw [observedNext]
  by_cases hsample : asdu.IsSample
  · rw [if_pos hsample]
    have hle := newestSample_le o.samples asdu
    refine ⟨h.ring.push (by omega) hfits.le_byte hsample hsub, rfl, hready, h.start_nonneg,
      h.position_eq, h.position_le.trans hle, fun index hindex => ?_, fun j value hj => ?_⟩
    · obtain ⟨k, hk₀, hk₁, rfl⟩ := h.index_eq index hindex
      exact ⟨k, hk₀, hk₁.trans hle, rfl⟩
    · rw [lastSamples_concat (h.lt_length (List.getElem?_eq_some_iff.mp hj).1)]
      exact h.value_eq j value hj
  · rw [if_neg hsample]
    obtain rfl := h.ring.rejected hsample hsub
    exact ⟨h.ring, rfl, hready, h.start_nonneg, h.position_eq, h.position_le, h.index_eq,
      h.value_eq⟩

/-- **A call of `event`** goes on to the newest sample. -/
lemma event (h : StreamInv n bufferEntries start libm s o)
    (hstep : measurementStep libm clock s .event = .ok s') :
    StreamInv n bufferEntries start libm s' o := by
  obtain ⟨si, hsi, hreturn⟩ := Fallible.bind_eq_ok.mp hstep
  obtain rfl := Except.ok.inj hreturn
  have hready := ready_siStep s.si .event si h.ready
    (show siStep libm clock s.si .event = .ok si from hsi)
  have hring := h.ring.wellFormed
  rw [← h.shared] at hring
  cases hindex : s.si.index with
  | some index =>
    obtain rfl : s.si = si := by
      simp only [Si.event, hindex] at hsi
      exact Except.ok.inj hsi
    rw [h.sub_eq rfl]
    exact h
  | none =>
    rw [Si.event_of_idle hring.length_ge hindex] at hsi
    obtain rfl := Except.ok.inj hsi
    split_ifs with hsame
    · rw [h.sub_eq rfl]
      exact h
    · rw [h.sub_eq rfl]
      refine ⟨h.ring, h.shared, ?_, h.start_nonneg, h.position_eq, h.position_le, ?_, h.value_eq⟩
      · rwa [if_neg hsame] at hready
      · intro index hi
        refine ⟨newestSample o.samples, h.position_le, le_rfl, ?_⟩
        rw [← h.ring.index_eq, ← h.shared]
        exact (Option.some.inj hi).symm

/-- A turn that takes a sample goes on by one slot. -/
lemma turn (hfits : RingsFit n bufferEntries) (h : StreamInv n bufferEntries start libm s o)
    {index : ℤ} {currentRms : R} {p r si : Si R} (hindex : s.si.index = some index)
    (hne : s.si.oldIndex ≠ index) (htrip : s.si.trip = false)
    (hobserve : s.si.observe libm clock = .ok (currentRms, p))
    (hrecord : p.record libm clock currentRms = .ok r) (hadvance : r.advance = .ok si) :
    si.inputBuffer = s.si.inputBuffer ∧ si.oldIndex = (s.si.oldIndex + 1) % n ∧
      si.index = s.si.index := by
  have hn := hfits.window_le
  have hring := h.ring.wellFormed
  rw [← h.shared] at hring
  have hitems : s.si.inputBuffer.items = n := by rw [h.shared, h.ring.items_eq]
  obtain ⟨hbuffer, hold, hsame, -⟩ := Si.evaluatedNext_of_sample [] hring
    h.ready.vector_eq (h.position_eq ▸ Int.emod_nonneg _ (by omega))
    (by rw [hitems, h.position_eq]; exact Int.emod_lt_of_pos _ (by omega))
    (by rw [h.ready.maxItems_eq]; exact Int.emod_nonneg _ (by decide))
    hindex hne htrip hobserve hrecord hadvance
  exact ⟨hbuffer, by rw [hold, hitems], hsame⟩

/-- **A turn of the loop** computes the RMS value of the next sample, if there is one. -/
lemma iteration (hfits : RingsFit n bufferEntries) (h : StreamInv n bufferEntries start libm s o)
    (htimely : (s.si.evaluation libm clock).isSome → Timely n start o)
    (hstep : measurementStep libm clock s .iteration = .ok s') :
    StreamInv n bufferEntries start libm s' (observedNext libm clock o s .iteration) := by
  obtain ⟨si, hsi, hreturn⟩ := Fallible.bind_eq_ok.mp hstep
  obtain rfl := Except.ok.inj hreturn
  have hready := ready_siStep s.si .iteration si h.ready
    (show siStep libm clock s.si .iteration = .ok si from hsi)
  have hring := h.ring.wellFormed
  rw [← h.shared] at hring
  rw [observedNext]
  rcases Si.iterate_cases hsi with ⟨hnone, rfl⟩ | ⟨index, hindex, hend, rfl⟩ |
    ⟨index, currentRms, p, r, hindex, hne, htrip, hobserve, hrecord, hadvance⟩
  · rw [Si.evaluation_eq_none (Or.inl hnone), h.sub_eq rfl]
    exact h
  · rw [Si.evaluation_eq_none (Or.inr ⟨index, hindex, hend⟩), h.sub_eq rfl]
    exact ⟨h.ring, h.shared, hready, h.start_nonneg, h.position_eq, h.position_le, nofun,
      h.value_eq⟩
  · have heval := Si.evaluation_eq hindex hne htrip hobserve
    have hn := hfits.window_le
    have hitems : s.si.inputBuffer.items = n := by rw [h.shared, h.ring.items_eq]
    have hmem := mem_ringWindow (o := s.si.oldIndex) (v := 80) (show 0 < n by omega)
    obtain ⟨hbuffer, hold, hsame⟩ := h.turn hfits hindex hne htrip hobserve hrecord hadvance
    -- the call goes on to a later sample
    obtain ⟨k, hk₀, hk₁, rfl⟩ := h.index_eq index hindex
    have hlt : start + o.values.length < k :=
      lt_of_le_of_ne hk₀ fun heq => hne (by rw [h.position_eq, heq])
    have hlength : start + o.values.length < o.samples.length := by
      have h₀ := h.start_nonneg
      unfold newestSample at hk₁
      omega
    -- the samples read are those of the stream
    obtain ⟨samples, input, hsamples, rfl, -⟩ := Si.observe_eq hobserve
    have hread := readSamples_eq hring (h.windowSlots_eq hfits) (by rwa [hitems])
    obtain ⟨rfl, -⟩ := Prod.mk.inj (Except.ok.inj (hsamples.symm.trans hread))
    have hstream := h.ring.map_ringWindow hlength (htimely (by rw [heval]; rfl))
    rw [heval, h.sub_eq hbuffer]
    have hcount : ((o.values ++ [rms libm s.si.vector ((ringWindow s.si.oldIndex n 80).map
        (sampleAt s.si.inputBuffer))]).length : ℤ) = o.values.length + 1 := by simp
    refine ⟨h.ring, hbuffer.trans h.shared, hready, h.start_nonneg, ?_, ?_, ?_, ?_⟩
    · rw [hcount, hold, h.position_eq, Int.emod_add_emod, add_assoc]
    · rw [hcount]
      show _ ≤ newestSample o.samples
      omega
    · intro index hi
      rw [hcount]
      exact ⟨k, by omega, hk₁, Option.some.inj (hi.symm.trans (hsame.trans hindex))⟩
    · intro j value hj
      rcases lt_or_eq_of_le (Nat.lt_succ_iff.mp
        (by simpa using (List.getElem?_eq_some_iff.mp hj).1)) with hbefore | rfl
      · rw [List.getElem?_append_left hbefore] at hj
        exact h.value_eq j value hj
      · rw [List.getElem?_concat_length] at hj
        rw [← Option.some.inj hj, h.ready.vector_eq, h.shared, h.position_eq, hstream]

/-- **Every step keeps the stream**, if the protection is in time for the RMS values it computes. -/
lemma step (hfits : RingsFit n bufferEntries) (h : StreamInv n bufferEntries start libm s o)
    {i : MeasurementInput} {o' : Observed R}
    (htimely : i = .iteration → (s.si.evaluation libm clock).isSome → Timely n start o)
    (hwatch : Run.watch (measurementStep libm clock) (observedNext libm clock) (s, o) i =
      .ok (s', o')) : StreamInv n bufferEntries start libm s' o' := by
  obtain ⟨hstep, hnotes⟩ := Run.watch_eq_ok.mp hwatch
  dsimp only at hstep hnotes
  subst hnotes
  cases i with
  | asdu asdu => exact h.asdu hfits hstep
  | event => exact h.event hstep
  | iteration => exact h.iteration hfits (htimely rfl) hstep

end StreamInv

/-- A call in progress goes on to the newest sample; and one that has returned untripped has come
to it. -/
structure Arrives (n start : ℤ) (s : Measurement R) (o : Observed R) : Prop where
  index_eq : ∀ index, s.si.index = some index → index = newestSample o.samples % n
  arrived : s.si.index = none → s.si.trip = false →
    start + o.values.length = newestSample o.samples

namespace StreamInv

variable [LinearOrder R]

/-- A turn of the loop keeps this. -/
lemma arrives_iteration (hfits : RingsFit n bufferEntries)
    (h : StreamInv n bufferEntries start libm s o) (htimely : Timely n start o)
    (harrives : Arrives n start s o) (hstep : measurementStep libm clock s .iteration = .ok s') :
    Arrives n start s' (observedNext libm clock o s .iteration) ∧
      Timely n start (observedNext libm clock o s .iteration) := by
  obtain ⟨si, hsi, hreturn⟩ := Fallible.bind_eq_ok.mp hstep
  obtain rfl := Except.ok.inj hreturn
  rw [observedNext]
  rcases Si.iterate_cases hsi with ⟨hnone, rfl⟩ | ⟨index, hindex, hend, rfl⟩ |
    ⟨index, currentRms, p, r, hindex, hne, htrip, hobserve, hrecord, hadvance⟩
  · rw [Si.evaluation_eq_none (Or.inl hnone)]
    exact ⟨⟨harrives.index_eq, harrives.arrived⟩, htimely⟩
  · rw [Si.evaluation_eq_none (Or.inr ⟨index, hindex, hend⟩)]
    refine ⟨⟨nofun, fun _ htrip => h.eq_newestSample htimely ?_⟩, htimely⟩
    have htrip : s.si.trip = false := htrip
    rw [hend.resolve_right (by simp [htrip]), harrives.index_eq index hindex]
  · obtain ⟨-, -, hsame⟩ := h.turn hfits hindex hne htrip hobserve hrecord hadvance
    rw [Si.evaluation_eq hindex hne htrip hobserve]
    have hbusy : si.index ≠ none := by simp [hsame, hindex]
    refine ⟨⟨fun i hi => harrives.index_eq i (hsame.symm.trans hi),
      fun hidle => absurd hidle hbusy⟩, ?_⟩
    unfold Timely at htimely ⊢
    have hcount : (o.values ++ [currentRms]).length = o.values.length + 1 := by simp
    dsimp only
    omega

/-- **A call that returns untripped** has computed the RMS values of all samples but the newest. -/
lemma call (hfits : RingsFit n bufferEntries) (h : StreamInv n bufferEntries start libm s o)
    (htimely : Timely n start o) (hidle : s.si.index = none) {k : ℕ} {o' : Observed R}
    (hrun : Run.exec (Run.watch (measurementStep libm clock) (observedNext libm clock)) (s, o)
      (.event :: List.replicate k .iteration) = .ok (s', o')) (hidle' : s'.si.index = none)
    (htrip : s'.si.trip = false) : start + o'.values.length = newestSample o'.samples := by
  obtain ⟨⟨t, notes⟩, hevent, hloop⟩ := Run.exec_cons_eq_ok.mp hrun
  obtain ⟨hstep, hnotes⟩ := Run.watch_eq_ok.mp hevent
  dsimp only [observedNext] at hstep hnotes
  subst notes
  have hring := h.ring.wellFormed
  rw [← h.shared] at hring
  have harrives : Arrives n start t o := by
    obtain ⟨si, hsi, hreturn⟩ := Fallible.bind_eq_ok.mp hstep
    obtain rfl := Except.ok.inj hreturn
    rw [Si.event_of_idle hring.length_ge hidle] at hsi
    obtain rfl := Except.ok.inj hsi
    have hindex : s.si.inputBuffer.index = newestSample o.samples % n := by
      rw [h.shared, h.ring.index_eq]
    split_ifs with hsame
    · refine ⟨fun index hi => ?_, fun _ _ => h.eq_newestSample htimely (hsame.trans hindex)⟩
      cases hidle.symm.trans hi
    · exact ⟨fun index hi => (Option.some.inj hi).symm.trans hindex, nofun⟩
  let Inv (u : Measurement R × Observed R) : Prop :=
    StreamInv n bufferEntries start libm u.1 u.2 ∧ Timely n start u.2 ∧ Arrives n start u.1 u.2
  have hturn : ∀ u i u', Inv u → i = MeasurementInput.iteration →
      Run.watch (measurementStep libm clock) (observedNext libm clock) u i = .ok u' → Inv u' := by
    rintro ⟨u, notes⟩ i ⟨u', notes'⟩ ⟨hinv, hin, harr⟩ rfl hwatch
    obtain ⟨hstep, hnotes⟩ := Run.watch_eq_ok.mp hwatch
    dsimp only at hstep hnotes
    subst hnotes
    obtain ⟨harr', hin'⟩ := hinv.arrives_iteration hfits hin harr hstep
    exact ⟨hinv.iteration hfits (fun _ => hin) hstep, hin', harr'⟩
  exact (Run.exec_invariant_of_guarded hturn ⟨h.event hstep, htimely, harrives⟩
    (fun _ _ _ hperforms => List.eq_of_mem_replicate hperforms.mem) hloop).2.2.arrived hidle' htrip

end StreamInv

/-! ## Whole runs -/

section Runs

/-- Right after `init` the protection is at the newest sample. -/
lemma streamInv_init {paramA paramB : ℤ} (hfits : RingsFit n bufferEntries) {samples : List Asdu}
    {sub : Subscriber} {si : Si R} (h : StreamRing n samples sub)
    (hsi : initSi R paramA paramB bufferEntries sub.outputBuffer = .ok si) (libm : Libm R) :
    StreamInv n bufferEntries (newestSample samples) libm ⟨sub, si⟩ ⟨samples, []⟩ := by
  have hready := ready_initSi hfits.entries_lt hsi
  obtain ⟨oldIndex, input, output, hread, rfl⟩ := initSi_eq hsi
  obtain ⟨rfl, rfl⟩ := Prod.mk.inj (Except.ok.inj
    ((readIndex_eq h.wellFormed.length_ge).symm.trans hread))
  refine ⟨h, rfl, hready, newestSample_nonneg samples, ?_, ?_, nofun, nofun⟩
  · show sub.outputBuffer.index = _
    rw [h.index_eq]
    simp
  · simp

variable [LinearOrder R]

/-- **What a run measures**, from sample `start` on: each RMS value belongs to the sample behind the
one before, it is that of this sample and the 79 before it, and none is ahead of the samples. A
call that returns untripped has come to the newest sample, and no step faults. -/
structure StreamLaw (n start : ℤ) (libm : Libm R) (clock : ℕ → ℤ) (s : Measurement R)
    (o : Observed R) : Prop where
  values_eq : o.values =
    (List.range o.values.length).map fun j : ℕ => rms libm 80 (lastSamples o.samples (start + j))
  behind : start + o.values.length ≤ newestSample o.samples
  call : Timely n start o → s.si.index = none → ∀ k s' o',
    Run.exec (Run.watch (measurementStep libm clock) (observedNext libm clock)) (s, o)
      (.event :: List.replicate k .iteration) = .ok (s', o') →
    s'.si.index = none → s'.si.trip = false →
      start + o'.values.length = newestSample o'.samples
  no_fault : ∀ i, ∃ s', measurementStep libm clock s i = .ok s'

lemma StreamInv.law (hfits : RingsFit n bufferEntries)
    (h : StreamInv n bufferEntries start libm s o) (clock : ℕ → ℤ) :
    StreamLaw n start libm clock s o where
  values_eq := by
    apply List.ext_getElem?
    intro j
    rw [List.getElem?_map]
    by_cases hj : j < o.values.length
    · rw [List.getElem?_range hj, List.getElem?_eq_getElem hj]
      exact congrArg some (h.value_eq j _ (List.getElem?_eq_getElem hj))
    · rw [List.getElem?_eq_none (by omega), List.getElem?_eq_none (by simpa using hj)]
      rfl
  behind := h.position_le
  call := fun htimely hidle _ _ _ hrun hidle' htrip =>
    h.call hfits htimely hidle hrun hidle' htrip
  no_fault := h.exists_step hfits clock

/-- **Run lemma** for the subscriber alone. -/
lemma StreamRing.exec {samples : List Asdu} {sub sub' : Subscriber} (hn : 1 ≤ n) (hn' : n ≤ 256)
    (h : StreamRing n samples sub) {asdus : List Asdu}
    (hrun : Run.exec svUpdateListener sub asdus = .ok sub') :
    StreamRing n (samples ++ asdus.filter (fun asdu => asdu.IsSample)) sub' := by
  induction asdus generalizing samples sub with
  | nil =>
    obtain rfl := Except.ok.inj hrun
    simpa using h
  | cons asdu asdus ih =>
    obtain ⟨sub₁, hstep, hrest⟩ := Run.exec_cons_eq_ok.mp hrun
    by_cases hsample : asdu.IsSample
    · simpa [hsample] using ih (h.push hn hn' hsample hstep) hrest
    · obtain rfl := h.rejected hsample hstep
      simpa [hsample] using ih h hrest

/-- A step adds one sample at most to those that the protection is behind. -/
lemma newestSample_observedNext (libm : Libm R) (clock : ℕ → ℤ) (o : Observed R)
    (s : Measurement R) (i : MeasurementInput) :
    newestSample (observedNext libm clock o s i).samples -
        (observedNext libm clock o s i).values.length ≤
      newestSample o.samples - o.values.length + 1 := by
  cases i with
  | asdu asdu =>
    rw [observedNext]
    split_ifs with hsample
    · rw [newestSample_concat, newestSample]
      dsimp only
      omega
    · omega
  | event =>
    rw [observedNext]
    omega
  | iteration =>
    rw [observedNext]
    split
    · omega
    · simp only [List.length_append, List.length_singleton]
      omega

/-- **Short runs are in time**: they go through, and the samples of every RMS value are in the
ring. -/
lemma StreamInv.exists_run (hfits : RingsFit n bufferEntries)
    (h : StreamInv n bufferEntries start libm s o) (clock : ℕ → ℤ) (is : List MeasurementInput)
    (hshort : newestSample o.samples - (start + o.values.length) + 80 + is.length ≤ n) :
    ∃ s' o', Run.exec (Run.watch (measurementStep libm clock) (observedNext libm clock)) (s, o) is =
        .ok (s', o') ∧
      ∀ u i u', Run.Performs (Run.watch (measurementStep libm clock) (observedNext libm clock))
        (s, o) is u i u' → Timely n start u.2 := by
  induction is generalizing s o with
  | nil => exact ⟨s, o, rfl, fun u i u' hperforms => absurd hperforms Run.not_performs_nil⟩
  | cons i is ih =>
    rw [List.length_cons] at hshort
    have htimely : Timely n start o := by
      unfold Timely
      omega
    obtain ⟨s₁, hs₁⟩ := h.exists_step hfits clock i
    have hwatch : Run.watch (measurementStep libm clock) (observedNext libm clock) (s, o) i =
        .ok (s₁, observedNext libm clock o s i) := Run.watch_eq_ok.mpr ⟨hs₁, rfl⟩
    have hlag := newestSample_observedNext libm clock o s i
    obtain ⟨s', o', hrun, hall⟩ := ih (h.step hfits (fun _ _ => htimely) hwatch) (by omega)
    refine ⟨s', o', Run.exec_cons_eq_ok.mpr ⟨_, hwatch, hrun⟩, fun u j u' hperforms => ?_⟩
    rcases (Run.performs_cons_iff hwatch).mp hperforms with ⟨rfl, -, -⟩ | hrest
    · exact htimely
    · exact hall u j u' hrest

/-- **The protection measures the stream.** For every run of the subscriber and the protection on
its ring, in which samples arrive at any time, on rings that fit together: as long as the samples of
each RMS value are in the ring when it is computed, the RMS values are those of one sample after the
other, none left out and none twice, each that of the sample and the 79 before it; a call that
returns untripped leaves just the newest sample for the next one; and no step faults.

**Proof sketch.** The slot of the protection is that of the sample behind the RMS values computed
(`StreamInv`). A turn of the loop reads the slots behind it, which are slots of the ring
(`windowSlots_eq_ringWindow_iff`) and hold the samples before it as long as these have not been
overwritten (`StreamRing.map_ringWindow`). -/
theorem stream_measured {paramA paramB : ℤ} (hfits : RingsFit n bufferEntries) {before : List Asdu}
    {sub₀ sub : Subscriber} {si : Si R} (hinit : initSubscriber TypeCode.smv92 n = .ok sub₀)
    (hbefore : Run.exec svUpdateListener sub₀ before = .ok sub)
    (hsi : initSi R paramA paramB bufferEntries sub.outputBuffer = .ok si)
    {is : List MeasurementInput}
    (hrun : Run.exec (Run.watch (measurementStep libm clock) (observedNext libm clock))
      (⟨sub, si⟩, ⟨before.filter (fun asdu => asdu.IsSample), []⟩) is = .ok (s, o))
    (htimely : ∀ u u', Run.Performs
      (Run.watch (measurementStep libm clock) (observedNext libm clock))
      (⟨sub, si⟩, ⟨before.filter (fun asdu => asdu.IsSample), []⟩) is u .iteration u' →
      (u.1.si.evaluation libm clock).isSome →
        Timely n (newestSample (before.filter fun asdu => asdu.IsSample)) u.2) :
    StreamLaw n (newestSample (before.filter fun asdu => asdu.IsSample)) libm clock s o := by
  have hn := hfits.window_le
  have hring := (streamRing_init (by omega) hfits.le_byte hinit).exec (by omega) hfits.le_byte
    hbefore
  rw [List.nil_append] at hring
  let start := newestSample (before.filter fun asdu => asdu.IsSample)
  let Inv (u : Measurement R × Observed R) : Prop :=
    StreamInv n bufferEntries start libm u.1 u.2
  let Guard (u : Measurement R × Observed R) (i : MeasurementInput) : Prop :=
    i = .iteration → (u.1.si.evaluation libm clock).isSome → Timely n start u.2
  have hstep : ∀ u i u', Inv u → Guard u i →
      Run.watch (measurementStep libm clock) (observedNext libm clock) u i = .ok u' → Inv u' :=
    fun u i u' hu hguard hwatch => hu.step hfits hguard hwatch
  have hinv : Inv (s, o) := by
    refine Run.exec_invariant_of_guarded hstep (streamInv_init hfits hring hsi libm)
      (fun u i u' hperforms hi => ?_) hrun
    subst hi
    exact htimely u u' hperforms
  exact hinv.law hfits clock

end Runs

end Stream

/-- Two samples of different currents, a call, and a third sample during the call, on rings of 128
entries. -/
theorem stream_measured_two : ∃ sub₀ si s o, initSubscriber TypeCode.smv92 128 = .ok sub₀ ∧
    initSi ℝ 1 1 128 sub₀.outputBuffer = .ok si ∧
    Run.exec (Run.watch (measurementStep realLibm millisecondClock)
      (observedNext realLibm millisecondClock)) (⟨sub₀, si⟩, ⟨[], []⟩)
      [.asdu (currentAsdu 40 0), .asdu (currentAsdu 30 1), .event, .asdu (currentAsdu 50 2),
        .iteration, .iteration] = .ok (s, o) ∧
    StreamLaw 128 0 realLibm millisecondClock s o := by
  have hfits : RingsFit 128 128 := by constructor <;> decide
  obtain ⟨sub₀, hsub₀, -⟩ := sampleInv_of_init (n := 128) (by decide) (by decide)
  have hring := streamRing_init (by decide) (by decide) hsub₀
  obtain ⟨si, hsi⟩ : ∃ si, initSi ℝ 1 1 128 sub₀.outputBuffer = .ok si :=
    exists_initSi_eq_ok (show 16 ≤ calculateBufferSize 1 128 by decide) hring.wellFormed.length_ge
  have hnone : Run.exec svUpdateListener sub₀ [] = .ok sub₀ := rfl
  obtain ⟨s, o, hrun, htimely⟩ := (streamInv_init hfits hring hsi realLibm).exists_run hfits
    millisecondClock [.asdu (currentAsdu 40 0), .asdu (currentAsdu 30 1), .event,
      .asdu (currentAsdu 50 2), .iteration, .iteration] (by decide)
  exact ⟨sub₀, si, s, o, hsub₀, hsi, hrun, stream_measured hfits hsub₀ hnone hsi hrun
    fun u u' hperforms _ => htimely u _ u' hperforms⟩

end Tmee
