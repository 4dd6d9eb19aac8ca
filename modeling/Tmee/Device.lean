import Tmee.SampleStream
import Tmee.TripLink

set_option relaxedAutoImplicit false
set_option autoImplicit false

/-!
# The protection device

The subscriber of sampled values, the protection `si` on its ring, and the publisher that sends the
trip of the protection. The three take steps in any order, and the messages are lost and repeated on
the way to the devices that listen. What these show is traced back to the samples received.

## Main definitions

* `Tmee.Device`, `Tmee.deviceStep` — the three modules.
* `Tmee.KeepsAbove` — RMS values with a mean above the threshold from the first one on.
* `Tmee.Justifies` — RMS values that make the protection trip.
* `Tmee.Si.RecordsOf` — the record and the trip come from the RMS values computed.

## Main results

* `Tmee.Si.RecordsOf.sample` — what a turn of the loop keeps.
* `Tmee.trip_justified` — a trip that is shown anywhere is one that the samples justify.
-/

namespace Tmee

open ByteMem

/-! ## What justifies a trip -/

section Justify

variable {R : Type} [Field R] [LinearOrder R]

/-- The first value, the mean of the first two, and so on, are above the threshold. -/
def KeepsAbove (treshold : R) (values : List R) : Prop :=
  ∀ p, p ≠ [] → p <+: values → treshold * p.length < p.sum

/-- **RMS values that justify a trip**: the means of the last of them, from one that starts the
record on, are above the threshold, and the difference of the times at the start and at the end
exceeds the trip time of the mean. -/
def Justifies (libm : Libm R) (clock : ℕ → ℤ) (paramA paramB : ℤ) (values : List R) : Prop :=
  ∃ record, record <:+ values ∧ record ≠ [] ∧ KeepsAbove (paramB : R) record ∧
    ∃ start stop, start < stop ∧
      tripTime libm (paramA : R) (paramB : R) (record.sum / record.length) <
        ((clock start - clock stop : ℤ) : R)

/-- Another value above the threshold on average. -/
lemma KeepsAbove.concat {treshold currentRms : R} {record : List R} (h : KeepsAbove treshold record)
    (habove : treshold * ((record ++ [currentRms]).length : ℕ) < (record ++ [currentRms]).sum) :
    KeepsAbove treshold (record ++ [currentRms]) := by
  intro p hp hstarts
  rcases List.prefix_concat_iff.mp hstarts with rfl | hbefore
  · exact habove
  · exact h p hp hbefore

namespace Si

/-- The module records the last of these RMS values. -/
def Records (clock : ℕ → ℤ) (values : List R) (s : Si R) : Prop :=
  ∃ record, record <:+ values ∧ s.total = some record.sum ∧
    s.sampleCount = some (record.length : R) ∧ KeepsAbove (s.paramB : R) record ∧
    ∃ start < s.reads, s.startTime = some (clock start)

/-- **The record and the trip come from these RMS values.** -/
structure RecordsOf (libm : Libm R) (clock : ℕ → ℤ) (paramA paramB : ℤ) (values : List R)
    (s : Si R) : Prop where
  paramA_eq : s.paramA = paramA
  paramB_eq : s.paramB = paramB
  recording : s.isRecording = true → s.Records clock values
  tripped : s.trip = true → Justifies libm clock paramA paramB values

variable {libm : Libm R} {clock : ℕ → ℤ} {paramA paramB : ℤ} {values : List R} {s s' p r : Si R}
  {currentRms : R}

/-- The position in the ring does not matter. -/
lemma RecordsOf.move (h : s.RecordsOf libm clock paramA paramB values) (input : Buffer)
    (oldIndex : ℤ) (index : Option ℤ) :
    { s with inputBuffer := input, oldIndex := oldIndex, index := index }.RecordsOf libm clock
      paramA paramB values :=
  ⟨h.paramA_eq, h.paramB_eq, h.recording, h.tripped⟩

/-- After pickup the record is that of the values before, or a new one. -/
lemma RecordsOf.observe (h : s.RecordsOf libm clock paramA paramB values)
    (hobserve : s.observe libm clock = .ok (currentRms, p)) :
    p.paramA = paramA ∧ p.paramB = paramB ∧ p.trip = s.trip ∧
      (p.isRecording = true → p.Records clock values) := by
  obtain ⟨input, rfl | ⟨-, rfl⟩⟩ := observe_cases hobserve
  · exact ⟨h.paramA_eq, h.paramB_eq, rfl, h.recording⟩
  · refine ⟨h.paramA_eq, h.paramB_eq, rfl, fun _ => ?_⟩
    refine ⟨[], List.nil_suffix, by simp, by simp, ?_, s.reads, Nat.lt_succ_self _, rfl⟩
    intro p hp hstarts
    exact absurd (List.prefix_nil.mp hstarts) hp

variable [IsStrictOrderedRing R]

/-- **A value is recorded**: the module stops recording, goes on, or trips. -/
lemma records_record (hrecords : p.isRecording = true → p.Records clock values)
    (htrip : p.trip = false) (hrecord : p.record libm clock currentRms = .ok r) :
    r.paramA = p.paramA ∧ r.paramB = p.paramB ∧
      (r.isRecording = true → r.Records clock (values ++ [currentRms])) ∧
      (r.trip = true → Justifies libm clock p.paramA p.paramB (values ++ [currentRms])) := by
  rcases record_cases hrecord with ⟨hidle, rfl⟩ | ⟨hrecording, average, q, haccumulate, hcheck⟩
  · exact ⟨rfl, rfl, fun h => absurd h (by simp [hidle]), fun h => absurd h (by simp [htrip])⟩
  obtain ⟨total, sampleCount, htotal, hcount, rfl, rfl⟩ := accumulate_eq haccumulate
  obtain ⟨record, ⟨before, rfl⟩, htotal', hcount', habove, start, hstart, htime⟩ :=
    hrecords hrecording
  obtain rfl : record.sum = total := Option.some.inj (htotal'.symm.trans htotal)
  obtain rfl : (record.length : R) = sampleCount := Option.some.inj (hcount'.symm.trans hcount)
  have hsum : (record ++ [currentRms]).sum = record.sum + currentRms := by simp
  have hlength : (((record ++ [currentRms]).length : ℕ) : R) = record.length + 1 := by simp
  have hsuffix : record ++ [currentRms] <:+ before ++ record ++ [currentRms] :=
    ⟨before, by simp⟩
  have hpos : (0 : R) < (record.length : R) + 1 := by positivity
  rcases checkTrip_cases hcheck with ⟨-, rfl⟩ | ⟨startTime, hmean, hstartTime, hlate⟩
  · exact ⟨rfl, rfl, nofun, fun h => absurd h (by simp [htrip])⟩
  have hkeeps : KeepsAbove (p.paramB : R) (record ++ [currentRms]) := by
    refine KeepsAbove.concat habove ?_
    rw [hsum, hlength]
    rwa [lt_div_iff₀ hpos] at hmean
  obtain rfl : clock start = startTime := Option.some.inj (htime.symm.trans hstartTime)
  rcases hlate with ⟨-, rfl⟩ | ⟨hlate, result, output, -, rfl⟩
  · refine ⟨rfl, rfl, fun _ => ?_, fun h => absurd h (by simp [htrip])⟩
    exact ⟨_, hsuffix, by rw [hsum], by rw [hlength], hkeeps, start, Nat.lt_succ_of_lt hstart,
      htime⟩
  · refine ⟨rfl, rfl, fun _ => ?_, fun _ => ?_⟩
    · exact ⟨_, hsuffix, by rw [hsum], by rw [hlength], hkeeps, start, Nat.lt_succ_of_lt hstart,
        htime⟩
    · refine ⟨_, hsuffix, by simp, hkeeps, start, p.reads, hstart, ?_⟩
      rw [hsum, hlength]
      exact hlate

/-- **What a turn of the loop keeps.** -/
lemma RecordsOf.sample (h : s.RecordsOf libm clock paramA paramB values)
    (htrip : s.trip = false) (hobserve : s.observe libm clock = .ok (currentRms, p))
    (hrecord : p.record libm clock currentRms = .ok r) (hadvance : r.advance = .ok s') :
    s'.RecordsOf libm clock paramA paramB (values ++ [currentRms]) := by
  obtain ⟨hA, hB, hsame, hrecords⟩ := h.observe hobserve
  obtain ⟨hA', hB', hrecords', htrips⟩ := records_record hrecords (hsame.trans htrip) hrecord
  obtain ⟨oldIndex, input, rfl⟩ := advance_eq hadvance
  refine RecordsOf.move ⟨hA'.trans hA, hB'.trans hB, hrecords', fun h => ?_⟩ _ _ _
  rw [← hA, ← hB]
  exact htrips h

omit [IsStrictOrderedRing R] in
/-- A step of `si` in which it takes no sample. -/
lemma RecordsOf.idle {i : SiInput} (h : s.RecordsOf libm clock paramA paramB values)
    (hidle : i = .iteration → s.evaluation libm clock = none)
    (hstep : siStep libm clock s i = .ok s') : s'.RecordsOf libm clock paramA paramB values := by
  cases i with
  | input buffer =>
    obtain rfl := Except.ok.inj hstep
    exact h.move _ _ _
  | event =>
    obtain ⟨input, index, rfl⟩ := event_eq hstep
    exact h.move _ _ _
  | iteration =>
    rcases iterate_cases hstep with ⟨-, rfl⟩ | ⟨index, -, -, rfl⟩ |
      ⟨index, currentRms, p, r, hindex, hne, htrip, hobserve, -, -⟩
    · exact h
    · exact h.move _ _ _
    · rw [evaluation_eq hindex hne htrip hobserve] at hidle
      cases hidle rfl

end Si

end Justify

/-! ## The device -/

/-- The three modules on their files. -/
structure Device (R : Type) where
  sub : Subscriber
  chain : TripChain R

/-- The subscriber and the protection. -/
def Device.measurement {R : Type} (d : Device R) : Measurement R := ⟨d.sub, d.chain.si⟩

/-- What happens on the device. -/
inductive DeviceInput
  /-- A step of the subscriber or the protection. -/
  | measurement (i : MeasurementInput)
  /-- Other processes have changed the ring of another input of the publisher. -/
  | otherRing (j : ℕ) (buffer : Buffer)
  /-- A call of `event` or `run` of the publisher. -/
  | event (now : ℤ)
  | run (now : ℤ)

section Model

variable {R : Type} [Field R] [LinearOrder R] (libm : Libm R) (clock : ℕ → ℤ)

/-- A run of the device. What the protection leaves in its file is what the publisher finds there,
as input `k`. -/
def deviceStep (k : ℕ) (d : Device R) : DeviceInput → Except Fault (Device R)
  | .measurement i => do
    let m ← measurementStep libm clock d.measurement i
    let p ← publisherStep d.chain.publisher (.input k m.si.outputBuffer)
    return ⟨m.sub, ⟨m.si, p⟩⟩
  | .otherRing j buffer => do
    return { d with chain := ← tripStep libm clock k d.chain (.otherRing j buffer) }
  | .event now => do return { d with chain := ← tripStep libm clock k d.chain (.event now) }
  | .run now => do return { d with chain := ← tripStep libm clock k d.chain (.run now) }

/-- The samples stored and the RMS values computed, noted along a run. -/
def deviceNotes (o : Observed R) (d : Device R) : DeviceInput → Observed R
  | .measurement i => observedNext libm clock o d.measurement i
  | _ => o

end Model

/-- **What every step of the device keeps.** -/
structure DeviceInv {R : Type} [Field R] [LinearOrder R] (libm : Libm R) (clock : ℕ → ℤ)
    (paramA paramB n bufferEntries start : ℤ) (k : ℕ) (d : Device R) (o : Observed R) : Prop where
  stream : StreamInv n bufferEntries start libm d.measurement o
  records : d.chain.si.RecordsOf libm clock paramA paramB o.values
  chain : ∃ last, ChainAt k bufferEntries last d.chain

section Steps

variable {R : Type} [Field R] [LinearOrder R] [IsStrictOrderedRing R] {libm : Libm R}
  {clock : ℕ → ℤ} {paramA paramB n bufferEntries start : ℤ} {k : ℕ} {d d' : Device R}
  {o o' : Observed R}

/-- A step of the subscriber or the protection is one of `si` on its own, which notes the RMS values
that `si` takes. -/
lemma measurementStep_si {m m' : Measurement R} {i : MeasurementInput}
    (h : m.si.RecordsOf libm clock paramA paramB o.values)
    (hstep : measurementStep libm clock m i = .ok m') :
    (∃ j, siStep libm clock m.si j = .ok m'.si) ∧
      m'.si.RecordsOf libm clock paramA paramB (observedNext libm clock o m i).values := by
  cases i with
  | asdu asdu =>
    obtain ⟨sub, -, hreturn⟩ := Fallible.bind_eq_ok.mp hstep
    obtain rfl := Except.ok.inj hreturn
    refine ⟨⟨.input sub.outputBuffer, rfl⟩, ?_⟩
    have hvalues : (observedNext libm clock o m (.asdu asdu)).values = o.values := by
      rw [observedNext]
      split_ifs <;> rfl
    rw [hvalues]
    exact h.move _ _ _
  | event =>
    obtain ⟨si, hsi, hreturn⟩ := Fallible.bind_eq_ok.mp hstep
    obtain rfl := Except.ok.inj hreturn
    exact ⟨⟨.event, hsi⟩, h.idle (i := .event) (fun hevent => by cases hevent) hsi⟩
  | iteration =>
    obtain ⟨si, hsi, hreturn⟩ := Fallible.bind_eq_ok.mp hstep
    obtain rfl := Except.ok.inj hreturn
    refine ⟨⟨.iteration, hsi⟩, ?_⟩
    rw [observedNext]
    cases heval : m.si.evaluation libm clock with
    | none =>
      exact h.idle (i := .iteration) (fun _ => heval) hsi
    | some evaluated =>
      obtain ⟨currentRms, p⟩ := evaluated
      obtain ⟨index, hindex, hne, htrip, hobserve⟩ := Si.observe_of_evaluation heval
      rcases Si.iterate_cases hsi with ⟨hnone, -⟩ | ⟨index', hindex', hend, -⟩ |
        ⟨index', currentRms', p', r, -, -, -, hobserve', hrecord, hadvance⟩
      · rw [hindex] at hnone
        cases hnone
      · obtain rfl := Option.some.inj (hindex.symm.trans hindex')
        rcases hend with heq | htrue
        · exact absurd heq hne
        · rw [htrip] at htrue
          cases htrue
      · obtain ⟨rfl, rfl⟩ := Prod.mk.inj (Except.ok.inj (hobserve.symm.trans hobserve'))
        exact h.sample htrip hobserve hrecord hadvance

/-- **Step lemma** of the device, if the protection is in time for the RMS value it computes. -/
lemma DeviceInv.step (hfits : RingsFit n bufferEntries)
    (h : DeviceInv libm clock paramA paramB n bufferEntries start k d o) {i : DeviceInput}
    (htimely : i = .measurement .iteration → (d.chain.si.evaluation libm clock).isSome →
      Timely n start o)
    (hwatch : Run.watch (deviceStep libm clock k) (deviceNotes libm clock) (d, o) i =
      .ok (d', o')) : DeviceInv libm clock paramA paramB n bufferEntries start k d' o' := by
  obtain ⟨hstep, hnotes⟩ := Run.watch_eq_ok.mp hwatch
  dsimp only at hstep hnotes
  subst hnotes
  obtain ⟨last, hchain⟩ := h.chain
  have hentries : 2 ≤ bufferEntries := by
    have := hfits.window_le
    have := hfits.le_entries
    omega
  -- a step of the publisher alone
  have hpublisher : ∀ {j : TripInput} {c : TripChain R},
      tripStep libm clock k d.chain j = .ok c → c.si = d.chain.si →
      DeviceInv libm clock paramA paramB n bufferEntries start k { d with chain := c } o := by
    intro j c hj hsi
    obtain ⟨hstay, hcall⟩ := hchain.step hentries hj
    refine ⟨?_, ?_, ?_⟩
    · show StreamInv n bufferEntries start libm ⟨d.sub, c.si⟩ o
      rw [hsi]
      exact h.stream
    · show c.si.RecordsOf libm clock paramA paramB o.values
      rw [hsi]
      exact h.records
    · by_cases hnone : j.call? = none
      · exact ⟨last, hstay hnone⟩
      · exact ⟨_, (hcall hnone).2⟩
  cases i with
  | measurement i =>
    obtain ⟨m, hm, hrest⟩ := Fallible.bind_eq_ok.mp hstep
    obtain ⟨p, hp, hreturn⟩ := Fallible.bind_eq_ok.mp hrest
    obtain rfl := Except.ok.inj hreturn
    obtain ⟨⟨j, hj⟩, hrecords⟩ := measurementStep_si h.records hm
    refine ⟨h.stream.step hfits (fun hi => htimely (congrArg _ hi)) ?_, hrecords, last,
      hchain.si hj hp⟩
    exact Run.watch_eq_ok.mpr ⟨hm, rfl⟩
  | otherRing j buffer =>
    obtain ⟨c, hc, hreturn⟩ := Fallible.bind_eq_ok.mp hstep
    obtain rfl := Except.ok.inj hreturn
    refine hpublisher hc ?_
    rw [tripStep] at hc
    split_ifs at hc
    · rw [← Except.ok.inj hc]
    · obtain ⟨p, -, hreturn⟩ := Fallible.bind_eq_ok.mp hc
      rw [← Except.ok.inj hreturn]
  | event now =>
    obtain ⟨c, hc, hreturn⟩ := Fallible.bind_eq_ok.mp hstep
    obtain rfl := Except.ok.inj hreturn
    obtain ⟨p, -, hreturn⟩ := Fallible.bind_eq_ok.mp hc
    exact hpublisher hc (by rw [← Except.ok.inj hreturn])
  | run now =>
    obtain ⟨c, hc, hreturn⟩ := Fallible.bind_eq_ok.mp hstep
    obtain rfl := Except.ok.inj hreturn
    obtain ⟨p, -, hreturn⟩ := Fallible.bind_eq_ok.mp hc
    exact hpublisher hc (by rw [← Except.ok.inj hreturn])

omit [IsStrictOrderedRing R] in
/-- A step of the subscriber or the protection in the device. -/
lemma watch_measurement {m : Measurement R} {i : MeasurementInput} {output : Buffer}
    (h : measurementStep libm clock d.measurement i = .ok m) (hfile : m.si.outputBuffer = output) :
    Run.watch (deviceStep libm clock k) (deviceNotes libm clock) (d, o) (.measurement i) =
      .ok (⟨m.sub, ⟨m.si, d.chain.publisher.sees k output⟩⟩,
        observedNext libm clock o d.measurement i) := by
  refine Run.watch_eq_ok.mpr ⟨?_, rfl⟩
  simp only [deviceStep, h, Fallible.ok_bind, hfile]
  rfl

omit [IsStrictOrderedRing R] in
/-- A call of `run` of the publisher in the device. -/
lemma watch_run {p : Publisher} {now : ℤ} (h : d.chain.publisher.run now = .ok p) :
    Run.watch (deviceStep libm clock k) (deviceNotes libm clock) (d, o) (.run now) =
      .ok (⟨d.sub, ⟨d.chain.si, p⟩⟩, o) := by
  refine Run.watch_eq_ok.mpr ⟨?_, rfl⟩
  simp only [deviceStep, tripStep, publisherStep, h]
  rfl

end Steps

/-- Nothing justifies a trip if the clock does not go back: the time of the start is subtracted the
other way around. -/
theorem not_justifies_of_monotone {clock : ℕ → ℤ} (hclock : Monotone clock) {paramA paramB : ℤ}
    (hA : 0 < paramA) (hB : 0 < paramB) (values : List ℝ) :
    ¬ Justifies realLibm clock paramA paramB values := by
  rintro ⟨record, -, hne, hkeeps, start, stop, hlt, hlate⟩
  have hlength : (0 : ℝ) < record.length := by
    exact_mod_cast List.length_pos_iff.mpr hne
  have hmean : (paramB : ℝ) < record.sum / record.length := by
    rw [lt_div_iff₀ hlength]
    exact hkeeps record hne List.prefix_rfl
  have hpos := tripTime_pos (by exact_mod_cast hA : (0 : ℝ) < paramA)
    (by exact_mod_cast hB : (0 : ℝ) < paramB) hmean
  have hdifference : ((clock start - clock stop : ℤ) : ℝ) ≤ 0 := by
    exact_mod_cast Int.sub_nonpos_of_le (hclock hlt.le)
  linarith

/-! ## A device that trips -/

section Trip

variable {n bufferEntries start : ℤ} {s : Measurement ℝ} {o : Observed ℝ}

/-- **A call that finds a first sample** with an RMS value of twice the threshold trips, on the
clock that is set back between pickup and comparison. -/
lemma StreamInv.exists_trip (hfits : RingsFit n bufferEntries)
    (h : StreamInv n bufferEntries start realLibm s o) (htimely : Timely n start o)
    (hnew : start + o.values.length < newestSample o.samples) (hidle : s.si.index = none)
    (hfresh : s.si.Fresh)
    (hloud : 2 ≤ rms realLibm 80 (lastSamples o.samples (start + o.values.length))) :
    ∃ t s', measurementStep realLibm setBackClock s .event = .ok t ∧
      t.si.outputBuffer = s.si.outputBuffer ∧
      measurementStep realLibm setBackClock t .iteration = .ok s' ∧ s'.si.trip = true ∧
      ∃ r, writeOutputBool 1 s.si.outputBuffer = .ok (r, s'.si.outputBuffer) := by
  have hring := h.ring.wellFormed
  rw [← h.shared] at hring
  have hne : s.si.oldIndex ≠ s.si.inputBuffer.index := by
    rw [h.shared, h.ring.index_eq]
    exact fun heq => hnew.ne (h.eq_newestSample htimely heq)
  have hcall := Si.event_of_idle hring.length_ge hidle
  rw [if_neg hne] at hcall
  obtain ⟨t, hevent⟩ := h.exists_step hfits setBackClock .event
  have ht := h.event hevent
  obtain ⟨s', hiteration⟩ := ht.exists_step hfits setBackClock .iteration
  obtain ⟨si, hsi, hreturn⟩ := Fallible.bind_eq_ok.mp hevent
  obtain rfl := Except.ok.inj (hcall.symm.trans hsi)
  obtain rfl := Except.ok.inj hreturn
  obtain ⟨si', hsi', hreturn'⟩ := Fallible.bind_eq_ok.mp hiteration
  obtain rfl := Except.ok.inj hreturn'
  -- the call in progress
  let p : Si ℝ := { s.si with index := some s.si.inputBuffer.index }
  have hp : p.Fresh := ⟨hfresh.paramA_eq, hfresh.paramB_eq, hfresh.trip_eq,
    hfresh.isRecording_eq, hfresh.reads_eq⟩
  have hstep : siStep realLibm setBackClock p .iteration = .ok si' := hsi'
  have htrip : si'.trip = true := by
    refine hp.trip rfl hne (fun samples input hread => ?_) hstep
    have hn := hfits.window_le
    have hitems : s.si.inputBuffer.items = n := by rw [h.shared, h.ring.items_eq]
    have hmem := mem_ringWindow (o := s.si.oldIndex) (v := 80) (show 0 < n by omega)
    have hread' := readSamples_eq hring (h.windowSlots_eq hfits) (by rwa [hitems])
    obtain ⟨rfl, -⟩ := Prod.mk.inj (Except.ok.inj (hread'.symm.trans hread))
    have h₀ := h.start_nonneg
    have hlength : start + o.values.length < o.samples.length := by
      unfold newestSample at hnew
      omega
    show 2 ≤ rms realLibm s.si.vector _
    rw [h.ready.vector_eq, h.shared, h.position_eq,
      h.ring.map_ringWindow hlength htimely]
    exact hloud
  have hwrite : ∃ r, writeOutputBool 1 p.outputBuffer = .ok (r, si'.outputBuffer) :=
    siStep_writes hstep hp.trip_eq htrip
  exact ⟨_, _, hevent, rfl, hiteration, htrip, hwrite⟩

/-- The output file of `si` for 128 entries, before the trip and after it. -/
def tripFile128 (trip : UInt8) : Buffer where
  bytes := [1, 0, 0, 0, 128, 0, 0, 0, trip, 0, 0, 0, 1, 0, 0, 0, 0, trip] ++ List.replicate 126 0
  length_lt := by simp

set_option maxRecDepth 4000 in
/-- The protection on the ring of a subscriber that has got one sample. -/
lemma exists_protection : ∃ sub₀ sub si, initSubscriber TypeCode.smv92 128 = .ok sub₀ ∧
    Run.exec svUpdateListener sub₀ [currentAsdu 40 0] = .ok sub ∧
    initSi ℝ 1 1 128 sub.outputBuffer = .ok si ∧ si.Fresh ∧ si.index = none ∧
    si.outputBuffer = tripFile128 0 ∧
    StreamInv 128 128 0 realLibm ⟨sub, si⟩ ⟨[currentAsdu 40 0], []⟩ := by
  have hfits : RingsFit 128 128 := by constructor <;> decide
  obtain ⟨sub₀, hsub₀, hinv⟩ := sampleInv_of_init (n := 128) (by decide) (by decide)
  obtain ⟨sub, hsub, -⟩ := hinv.exec (by decide) (by decide) [currentAsdu 40 0]
  have hring := (streamRing_init (by decide) (by decide) hsub₀).exec (by decide) (by decide) hsub
  obtain ⟨si, hsi⟩ : ∃ si, initSi ℝ 1 1 128 sub.outputBuffer = .ok si :=
    exists_initSi_eq_ok (show 16 ≤ calculateBufferSize 1 128 by decide) hring.wellFormed.length_ge
  have hfile : si.outputBuffer = tripFile128 0 := by
    obtain ⟨output, hmap, hheader⟩ := initSi_output hsi
    obtain rfl := Option.some.inj hmap
    have hwritten : siHeader TypeCode.bool 1 128 ⟨List.replicate 144 0, by simp⟩ =
        .ok ((), tripFile128 0) := rfl
    exact (Prod.mk.inj (Except.ok.inj (hheader.symm.trans hwritten))).2
  have hstream := streamInv_init hfits hring hsi realLibm
  refine ⟨sub₀, sub, si, hsub₀, hsub, hsi, ?_, ?_, hfile, hstream⟩
  · obtain ⟨-, -, -, -, rfl⟩ := initSi_eq hsi
    exact ⟨rfl, rfl, rfl, rfl, rfl⟩
  · obtain ⟨-, -, -, -, rfl⟩ := initSi_eq hsi
    rfl

set_option maxRecDepth 4000 in
lemma write_tripFile128 : ∃ r, writeOutputBool 1 (tripFile128 0) = .ok (r, tripFile128 1) :=
  ⟨_, rfl⟩

lemma timely_currentAsdu :
    Timely 128 0 (⟨[currentAsdu 40 0, currentAsdu 30 1], []⟩ : Observed ℝ) := by
  unfold Timely
  decide

/-- It gets another sample, and the call that finds it trips. -/
lemma exists_measured : ∃ sub₀ sub si m₁ m₂ m₃, initSubscriber TypeCode.smv92 128 = .ok sub₀ ∧
    Run.exec svUpdateListener sub₀ [currentAsdu 40 0] = .ok sub ∧
    initSi ℝ 1 1 128 sub.outputBuffer = .ok si ∧ si.outputBuffer = tripFile128 0 ∧
    measurementStep realLibm setBackClock ⟨sub, si⟩ (.asdu (currentAsdu 30 1)) = .ok m₁ ∧
    m₁.si.outputBuffer = tripFile128 0 ∧
    measurementStep realLibm setBackClock m₁ .event = .ok m₂ ∧
    m₂.si.outputBuffer = tripFile128 0 ∧
    measurementStep realLibm setBackClock m₂ .iteration = .ok m₃ ∧
    m₃.si.outputBuffer = tripFile128 1 ∧ m₃.si.trip = true := by
  have hfits : RingsFit 128 128 := by constructor <;> decide
  obtain ⟨sub₀, sub, si, hsub₀, hsub, hsi, hfresh, hidle, hfile, hstream⟩ := exists_protection
  obtain ⟨m₁, hasdu⟩ := hstream.exists_step hfits setBackClock (.asdu (currentAsdu 30 1))
  have hstream₁ : StreamInv 128 128 0 realLibm m₁ ⟨[currentAsdu 40 0, currentAsdu 30 1], []⟩ :=
    hstream.asdu hfits hasdu
  obtain ⟨hfile₁, hidle₁, hfresh₁⟩ :
      m₁.si.outputBuffer = tripFile128 0 ∧ m₁.si.index = none ∧ m₁.si.Fresh := by
    obtain ⟨sub₁, -, hreturn⟩ := Fallible.bind_eq_ok.mp hasdu
    obtain rfl := Except.ok.inj hreturn
    exact ⟨hfile, hidle, hfresh.paramA_eq, hfresh.paramB_eq, hfresh.trip_eq,
      hfresh.isRecording_eq, hfresh.reads_eq⟩
  obtain ⟨m₂, m₃, hevent, hsame, hiteration, htrip, r, hwrite⟩ := hstream₁.exists_trip hfits
    timely_currentAsdu (by decide) hidle₁ hfresh₁ (two_le_rms (by decide +kernel))
  rw [hfile₁] at hsame hwrite
  obtain ⟨r', hwritten⟩ := write_tripFile128
  exact ⟨sub₀, sub, si, m₁, m₂, m₃, hsub₀, hsub, hsi, hfile, hasdu, hfile₁, hevent, hsame,
    hiteration, (Prod.mk.inj (Except.ok.inj (hwrite.symm.trans hwritten))).2, htrip⟩

end Trip

end Tmee
