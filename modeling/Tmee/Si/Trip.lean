import Mathlib.Analysis.SpecialFunctions.Pow.Real
import Tmee.Si.Event

set_option relaxedAutoImplicit false
set_option autoImplicit false

/-!
# When the inverse protection trips

`event` measures the time since pickup as `start_time - current_time()`. The pickup was read from
the same clock before, so on a clock that does not go back the difference is never positive, and
it never exceeds a positive trip time.

## Main definitions

* `Tmee.realLibm` — the real square root and power.
* `Tmee.Si.Continues`, `Tmee.Si.Due` — the record of the iteration ahead, and when it has to trip.
* `Tmee.TripsWhenDue` — a run trips in the iterations that are due and in no others.
* `Tmee.Si.Started` — the pickup was read from the clock before.

## Main results

* `Tmee.tripTime_pos` — the trip time of the curve is positive.
* `Tmee.Si.iterate_quiet` — no iteration trips.
* `Tmee.tripsWhenDue_iff` — a run trips when due if and only if nothing in it is due.
-/

namespace Tmee

/-- The real square root and power. -/
noncomputable def realLibm : Libm ℝ where
  sqrt := Real.sqrt
  pow := fun x y => x ^ y

section Spec

variable {R : Type} [Field R] [LinearOrder R]

namespace Si

/-- The record that the iteration ahead adds the RMS value `x` to: its total, the number of its
values, the time of its pickup, and the reading of the clock that comes next. A value above the
threshold starts a record if there is none. -/
def Continues (clock : ℕ → ℤ) (s : Si R) (x total sampleCount : R) (startTime : ℤ) (reads : ℕ) :
    Prop :=
  (s.isRecording = true ∧ s.total = some total ∧ s.sampleCount = some sampleCount ∧
    s.startTime = some startTime ∧ reads = s.reads) ∨
  (s.isRecording = false ∧ (s.paramB : R) < x ∧ total = 0 ∧ sampleCount = 0 ∧
    startTime = clock s.reads ∧ reads = s.reads + 1)

/-- **The iteration that starts in `s` has to trip**: there is a new sample, the module has not
tripped, with the RMS value of the samples in the ring the average of the record is above the
threshold, and more than the trip time has passed since pickup. -/
def Due (libm : Libm R) (clock : ℕ → ℤ) (s : Si R) : Prop :=
  ∃ index samples input total sampleCount startTime reads,
    s.index = some index ∧ s.oldIndex ≠ index ∧ s.trip = false ∧
    readSamples s.oldIndex s.maxItems s.vector s.inputBuffer = .ok (samples, input) ∧
    s.Continues clock (rms libm s.vector samples) total sampleCount startTime reads ∧
    (s.paramB : R) < (total + rms libm s.vector samples) / (sampleCount + 1) ∧
    tripTime libm (s.paramA : R) (s.paramB : R)
        ((total + rms libm s.vector samples) / (sampleCount + 1)) <
      ((clock reads - startTime : ℤ) : R)

/-- The module trips: the flag is set, one true is written, and the event is raised. -/
structure Trips (s s' : Si R) : Prop where
  trip_eq : s'.trip = true
  raised_eq : s'.raised = s.raised + 1
  output_eq : ∃ r, writeOutputBool 1 s.outputBuffer = .ok (r, s'.outputBuffer)

/-- The module does not trip: nothing is set, written or raised. -/
structure Quiet (s s' : Si R) : Prop where
  trip_eq : s'.trip = s.trip
  raised_eq : s'.raised = s.raised
  output_eq : s'.outputBuffer = s.outputBuffer

end Si

/-- The run trips in every iteration that is due, and in no other. -/
def TripsWhenDue (libm : Libm R) (clock : ℕ → ℤ) (s : Si R) (is : List SiInput) : Prop :=
  ∀ t t', Run.Performs (siStep libm clock) s is t .iteration t' →
    (t.Due libm clock → t.Trips t') ∧ (¬ t.Due libm clock → t.Quiet t')

namespace Si

/-- The parameters are those of the configuration, and the pickup is a reading of the clock that
has been made. -/
structure Started (clock : ℕ → ℤ) (paramA paramB : ℤ) (s : Si R) : Prop where
  paramA_eq : s.paramA = paramA
  paramB_eq : s.paramB = paramB
  startTime_read : ∀ startTime, s.startTime = some startTime → ∃ k ≤ s.reads, startTime = clock k

end Si

end Spec

section Invariant

variable {R : Type} [Field R] [LinearOrder R] {libm : Libm R} {clock : ℕ → ℤ}
  {paramA paramB : ℤ} {s s' : Si R}

namespace Si

omit [Field R] [LinearOrder R] in
lemma Quiet.refl (s : Si R) : s.Quiet s := ⟨rfl, rfl, rfl⟩

omit [Field R] [LinearOrder R] in
lemma Quiet.trans {s₁ s₂ s₃ : Si R} (h₁ : s₁.Quiet s₂) (h₂ : s₂.Quiet s₃) : s₁.Quiet s₃ :=
  ⟨h₂.trip_eq.trans h₁.trip_eq, h₂.raised_eq.trans h₁.raised_eq,
    h₂.output_eq.trans h₁.output_eq⟩

omit [Field R] [LinearOrder R] in
/-- More readings of the clock do not matter. -/
lemma Started.of_eq (h : s.Started clock paramA paramB) (hA : s'.paramA = s.paramA)
    (hB : s'.paramB = s.paramB) (hstart : s'.startTime = s.startTime)
    (hreads : s.reads ≤ s'.reads) : s'.Started clock paramA paramB where
  paramA_eq := hA.trans h.paramA_eq
  paramB_eq := hB.trans h.paramB_eq
  startTime_read := by
    intro startTime hs'
    obtain ⟨k, hk, rfl⟩ := h.startTime_read startTime (hstart ▸ hs')
    exact ⟨k, hk.trans hreads, rfl⟩

/-- The pickup of an iteration is a reading of the clock. -/
lemma Started.observe {currentRms : R} (h : s.Started clock paramA paramB)
    (hobserve : s.observe libm clock = .ok (currentRms, s')) :
    s'.Started clock paramA paramB ∧ s.Quiet s' := by
  obtain ⟨input, rfl | ⟨-, rfl⟩⟩ := observe_cases hobserve
  · exact ⟨h.of_eq rfl rfl rfl le_rfl, rfl, rfl, rfl⟩
  · refine ⟨⟨h.paramA_eq, h.paramB_eq, ?_⟩, rfl, rfl, rfl⟩
    intro startTime hstart
    exact ⟨s.reads, Nat.le_succ _, (Option.some.inj hstart).symm⟩

end Si

variable [IsStrictOrderedRing R]

namespace Si

/-- **The time since pickup is never positive** as the comparison computes it, so the comparison
never trips.

**Proof sketch.** The pickup is an earlier reading of a clock that does not go back. -/
lemma Started.checkTrip {averageCurrent : R} (h : s.Started clock paramA paramB)
    (hclock : Monotone clock)
    (hpos : (paramB : R) < averageCurrent → 0 < tripTime libm (paramA : R) paramB averageCurrent)
    (hcheck : s.checkTrip libm clock averageCurrent = .ok s') :
    s'.Started clock paramA paramB ∧ s.Quiet s' := by
  rcases checkTrip_cases hcheck with ⟨-, rfl⟩ | ⟨startTime, habove, hstart, hlate⟩
  · exact ⟨h.of_eq rfl rfl rfl le_rfl, rfl, rfl, rfl⟩
  · rcases hlate with ⟨-, rfl⟩ | ⟨hlate, -⟩
    · exact ⟨h.of_eq rfl rfl rfl (Nat.le_succ _), rfl, rfl, rfl⟩
    · exfalso
      obtain ⟨k, hk, rfl⟩ := h.startTime_read startTime hstart
      have hle : clock k - clock s.reads ≤ 0 := sub_nonpos.mpr (hclock hk)
      have hcast : ((clock k - clock s.reads : ℤ) : R) ≤ 0 := by exact_mod_cast hle
      rw [h.paramB_eq] at habove
      rw [h.paramA_eq, h.paramB_eq] at hlate
      exact absurd (hlate.trans_le hcast) (not_lt.mpr (hpos habove).le)

/-- Recording keeps the invariant and does not trip. -/
lemma Started.record {currentRms : R} (h : s.Started clock paramA paramB)
    (hclock : Monotone clock)
    (hpos : ∀ averageCurrent : R, (paramB : R) < averageCurrent →
      0 < tripTime libm (paramA : R) paramB averageCurrent)
    (hrecord : s.record libm clock currentRms = .ok s') :
    s'.Started clock paramA paramB ∧ s.Quiet s' := by
  rcases record_cases hrecord with ⟨-, rfl⟩ | ⟨-, averageCurrent, q, haccumulate, hcheck⟩
  · exact ⟨h, Quiet.refl _⟩
  · obtain ⟨total, sampleCount, -, -, -, rfl⟩ := accumulate_eq haccumulate
    have hq : Started clock paramA paramB { s with
        total := some (total + currentRms)
        sampleCount := some (sampleCount + 1) } := h.of_eq rfl rfl rfl le_rfl
    obtain ⟨hs', hquiet⟩ := hq.checkTrip hclock (hpos averageCurrent) hcheck
    exact ⟨hs', hquiet.trip_eq, hquiet.raised_eq, hquiet.output_eq⟩

/-- **No iteration trips**, on a clock that does not go back and with positive trip times. -/
lemma iterate_quiet (h : s.Started clock paramA paramB) (hclock : Monotone clock)
    (hpos : ∀ averageCurrent : R, (paramB : R) < averageCurrent →
      0 < tripTime libm (paramA : R) paramB averageCurrent)
    (hiterate : s.iterate libm clock = .ok s') :
    s'.Started clock paramA paramB ∧ s.Quiet s' := by
  rcases iterate_cases hiterate with ⟨-, rfl⟩ | ⟨index, -, -, rfl⟩ |
    ⟨index, currentRms, p, r, -, -, -, hobserve, hrecord, hadvance⟩
  · exact ⟨h, Quiet.refl _⟩
  · exact ⟨h.of_eq rfl rfl rfl le_rfl, rfl, rfl, rfl⟩
  · obtain ⟨hp, hsp⟩ := h.observe hobserve
    obtain ⟨hr, hpr⟩ := hp.record hclock hpos hrecord
    obtain ⟨oldIndex, input, rfl⟩ := advance_eq hadvance
    exact ⟨hr.of_eq rfl rfl rfl le_rfl, (hsp.trans hpr).trans ⟨rfl, rfl, rfl⟩⟩

end Si

/-- Every step of the module keeps the invariant. -/
lemma started_siStep (hclock : Monotone clock)
    (hpos : ∀ averageCurrent : R, (paramB : R) < averageCurrent →
      0 < tripTime libm (paramA : R) paramB averageCurrent) (s : Si R) (i : SiInput) (s' : Si R)
    (h : s.Started clock paramA paramB) (hstep : siStep libm clock s i = .ok s') :
    s'.Started clock paramA paramB := by
  cases i with
  | input buffer =>
    obtain rfl := Except.ok.inj hstep
    exact h.of_eq rfl rfl rfl le_rfl
  | event =>
    obtain ⟨input, index, rfl⟩ := Si.event_eq hstep
    exact h.of_eq rfl rfl rfl le_rfl
  | iteration => exact (Si.iterate_quiet h hclock hpos hstep).1

omit [Field R] [LinearOrder R] [IsStrictOrderedRing R] in
/-- The module starts with its parameters and without a pickup. -/
lemma started_initSi {bufferEntries : ℤ} {input : Buffer}
    (h : initSi R paramA paramB bufferEntries input = .ok s) : s.Started clock paramA paramB := by
  obtain ⟨oldIndex, input', output, -, rfl⟩ := initSi_eq h
  exact ⟨rfl, rfl, fun startTime hnone => by cases hnone⟩

end Invariant

/-- **The trip time is positive** for a positive time dial and an average above the threshold. -/
lemma tripTime_pos {timeDial treshold averageCurrent : ℝ} (hdial : 0 < timeDial)
    (htreshold : 0 < treshold) (h : treshold < averageCurrent) :
    0 < tripTime realLibm timeDial treshold averageCurrent := by
  have hratio : 1 < averageCurrent / treshold := (one_lt_div htreshold).mpr h
  have hpow : 1 < (averageCurrent / treshold) ^ (2 / 100 : ℝ) :=
    Real.one_lt_rpow hratio (by norm_num)
  have hdenominator : 0 < (averageCurrent / treshold) ^ (2 / 100 : ℝ) - 1 := sub_pos.mpr hpow
  have hquotient : 0 < 14 / 100 / ((averageCurrent / treshold) ^ (2 / 100 : ℝ) - 1) :=
    div_pos (by norm_num) hdenominator
  show 0 < timeDial * (14 / 100 / ((averageCurrent / treshold) ^ (2 / 100 : ℝ) - 1) + 0)
  rw [add_zero]
  exact mul_pos hdial hquotient

/-! ## A due sample -/

/-- A sample ring of two entries with the value `3` in slot `0`. -/
def sampleRing (index : UInt8) : Buffer where
  bytes := [68, 0, 0, 0, 2, 0, 0, 0, index, 0, 0, 0, 68, 0, 0, 0, 3, 0, 0, 0] ++
    List.replicate 132 0
  length_lt := by simp

lemma length_sampleRing (index : UInt8) : (sampleRing index).length = 152 := by
  simp [Buffer.length, sampleRing]

/-- Equal samples give a constant list. -/
lemma readSamples_replicate {b : Buffer} {n : ℕ} {x : ℤ} (hn : n ≤ 2 ^ 31)
    (h : readInputSmv 0 0 b = .ok (x, b)) :
    readSamples 0 1 n b = .ok (List.replicate n x, b) := by
  induction n with
  | zero => rfl
  | succ n ih =>
    have hdifference : cInt (0 - n) = .ok (0 - n : ℤ) := cInt_eq_ok (by omega) (by omega)
    have hindex : sampleIndex 0 1 n = .ok 0 := by
      simp only [sampleIndex, hdifference, bind, Except.bind, Int.emod_one]
      rfl
    rw [readSamples, bufM_bind_ok (ih (by omega)), bufM_lift_ok hindex, bufM_bind_ok h,
      List.replicate_succ']
    rfl

/-- The RMS value of samples whose squares have this sum. -/
lemma rms_eq_sqrt (n : ℕ) (samples : List ℤ) : rms realLibm n samples =
    Real.sqrt (((samples.map (· ^ 2)).sum : ℤ) / n) := by
  have hsum : ∀ total : ℝ, samples.foldl
      (fun (total : ℝ) (current : ℤ) => total + realLibm.pow (current : ℝ) 2) total =
        total + ((samples.map (· ^ 2)).sum : ℤ) := by
    induction samples with
    | nil => simp
    | cons x samples ih =>
      intro total
      have hpow : realLibm.pow (x : ℝ) 2 = (x : ℝ) ^ 2 := Real.rpow_two _
      rw [List.foldl_cons, ih, hpow, List.map_cons, List.sum_cons]
      push_cast
      ring
  show Real.sqrt (samples.foldl
    (fun (total : ℝ) (current : ℤ) => total + realLibm.pow (current : ℝ) 2) 0 / (n : ℝ)) = _
  rw [hsum, zero_add]

/-- The RMS value of equal samples. -/
lemma rms_replicate {n : ℕ} (hn : n ≠ 0) {x : ℤ} (hx : 0 ≤ x) :
    rms realLibm n (List.replicate n x) = x := by
  have hmean : (((List.replicate n x).map (· ^ 2)).sum : ℤ) / (n : ℝ) = (x : ℝ) ^ 2 := by
    rw [List.map_replicate, List.sum_replicate, nsmul_eq_mul]
    push_cast
    exact mul_div_cancel_left₀ _ (Nat.cast_ne_zero.mpr hn)
  rw [rms_eq_sqrt, hmean]
  exact Real.sqrt_sq (by exact_mod_cast hx)

/-- Twice the threshold trips within a millisecond. -/
lemma tripTime_lt {x : ℝ} (hx : 2 ≤ x) : tripTime realLibm 1 1 x < 1000 := by
  have hpow : (1.01 : ℝ) < x ^ (2 / 100 : ℝ) := by
    have hroot : ((1.01 : ℝ) ^ 50) ^ (2 / 100 : ℝ) = 1.01 := by
      rw [show (2 / 100 : ℝ) = ((50 : ℕ) : ℝ)⁻¹ by norm_num]
      exact Real.pow_rpow_inv_natCast (by norm_num) (by norm_num)
    have hlt : (1.01 : ℝ) ^ 50 < x := lt_of_lt_of_le (by norm_num) hx
    rw [← hroot]
    exact Real.rpow_lt_rpow (by norm_num) hlt (by norm_num)
  have hquotient : 14 / 100 / (x ^ (2 / 100 : ℝ) - 1) < 1000 := by
    rw [div_lt_iff₀ (by linarith)]
    linarith
  show 1 * (14 / 100 / ((x / 1) ^ (2 / 100 : ℝ) - 1) + 0) < 1000
  rw [div_one, add_zero, one_mul]
  exact hquotient

/-- It does not trip within a microsecond. -/
lemma one_le_tripTime_three : 1 ≤ tripTime realLibm 1 1 3 := by
  have hlower : (1 : ℝ) < 3 ^ (2 / 100 : ℝ) := Real.one_lt_rpow (by norm_num) (by norm_num)
  have hpow : (3 : ℝ) ^ (2 / 100 : ℝ) ≤ 1.14 := by
    have hroot : ((1.14 : ℝ) ^ 50) ^ (2 / 100 : ℝ) = 1.14 := by
      rw [show (2 / 100 : ℝ) = ((50 : ℕ) : ℝ)⁻¹ by norm_num]
      exact Real.pow_rpow_inv_natCast (by norm_num) (by norm_num)
    rw [← hroot]
    exact Real.rpow_le_rpow (by norm_num) (by norm_num) (by norm_num)
  have hquotient : 1 ≤ 14 / 100 / ((3 : ℝ) ^ (2 / 100 : ℝ) - 1) := by
    rw [one_le_div (by linarith)]
    linarith
  show 1 ≤ 1 * (14 / 100 / ((3 / 1 : ℝ) ^ (2 / 100 : ℝ) - 1) + 0)
  rw [div_one, add_zero, one_mul]
  exact hquotient

section Pickup

variable {s : Si ℝ}

/-- The state in which the first sample of `sampleRing` is to be taken. -/
structure AtPickup (s : Si ℝ) : Prop where
  paramA_eq : s.paramA = 1
  paramB_eq : s.paramB = 1
  maxItems_eq : s.maxItems = 1
  vector_eq : s.vector = 80
  input_eq : s.inputBuffer = sampleRing 1
  oldIndex_eq : s.oldIndex = 0
  trip_eq : s.trip = false
  isRecording_eq : s.isRecording = false
  reads_eq : s.reads = 0
  index_eq : s.index = some 1

/-- All samples are three times the threshold. -/
lemma AtPickup.readSamples (h : AtPickup s) :
    readSamples s.oldIndex s.maxItems s.vector s.inputBuffer =
      .ok (List.replicate 80 3, s.inputBuffer) := by
  have hread : readInputSmv 0 0 (sampleRing 1) = .ok (3, sampleRing 1) :=
    readInputSmv_eq (k := 0) (n := 0) (by rw [length_sampleRing]; omega) (by decide)
  rw [h.oldIndex_eq, h.maxItems_eq, h.vector_eq, h.input_eq]
  exact readSamples_replicate (by norm_num) hread

lemma AtPickup.rms_eq (h : AtPickup s) : rms realLibm s.vector (List.replicate 80 3) = 3 := by
  rw [h.vector_eq, rms_replicate (by norm_num) (by norm_num)]
  norm_num

/-- The module picks up. -/
lemma AtPickup.observe {clock : ℕ → ℤ} (h : AtPickup s) :
    s.observe realLibm clock = .ok (3, { s with
      startTime := some (clock 0)
      reads := 1
      total := some 0
      sampleCount := some 0
      isRecording := true }) := by
  have habove : (3 : ℝ) > (s.paramB : ℝ) ∧ s.isRecording = false := by
    rw [h.paramB_eq]
    exact ⟨by norm_num, h.isRecording_eq⟩
  simp only [Si.observe, h.readSamples, Fallible.ok_bind, h.rms_eq, Si.pickup, if_pos habove,
    h.reads_eq]
  rfl

/-- The clock of the run, a thousand microseconds between two readings. -/
def millisecondClock (k : ℕ) : ℤ := 1000 * k

lemma monotone_millisecondClock : Monotone millisecondClock := by
  intro j k hjk
  unfold millisecondClock
  omega

/-- A clock with one microsecond between two readings. -/
def microsecondClock (k : ℕ) : ℤ := k

lemma monotone_microsecondClock : Monotone microsecondClock := by
  intro j k hjk
  unfold microsecondClock
  omega

/-- The first RMS value is the average. -/
lemma accumulate_first {p : Si ℝ} (htotal : p.total = some 0) (hcount : p.sampleCount = some 0)
    (x : ℝ) : p.accumulate x = .ok (x, { p with total := some x, sampleCount := some 1 }) := by
  simp only [Si.accumulate, htotal, hcount, zero_add, div_one]

/-- What the iteration at the pickup is due by: the trip time for three times the threshold, and the
time between two readings of the clock. -/
lemma AtPickup.due_iff {clock : ℕ → ℤ} (h : AtPickup s) :
    s.Due realLibm clock ↔ tripTime realLibm 1 1 3 < ((clock 1 - clock 0 : ℤ) : ℝ) := by
  have hone : (1 : ℝ) < (0 + 3) / (0 + 1) := by norm_num
  have hthree : ((0 : ℝ) + 3) / (0 + 1) = 3 := by norm_num
  constructor
  · rintro ⟨index, samples, input, total, sampleCount, startTime, reads, -, -, -, hread, hrecord, -,
      hlate⟩
    rw [h.readSamples] at hread
    obtain ⟨rfl, -⟩ := Prod.mk.inj (Except.ok.inj hread)
    rcases hrecord with ⟨hrecording, -⟩ | ⟨-, -, rfl, rfl, rfl, rfl⟩
    · rw [h.isRecording_eq] at hrecording
      cases hrecording
    · rwa [h.rms_eq, hthree, h.paramA_eq, h.paramB_eq, h.reads_eq, Int.cast_one] at hlate
  · intro hlate
    refine ⟨1, _, _, 0, 0, clock 0, 1, h.index_eq, ?_, h.trip_eq, h.readSamples,
      Or.inr ⟨h.isRecording_eq, ?_, rfl, rfl, by rw [h.reads_eq], by rw [h.reads_eq]⟩, ?_, ?_⟩
    · rw [h.oldIndex_eq]
      decide
    · rw [h.rms_eq, h.paramB_eq]
      norm_num
    · rw [h.rms_eq, h.paramB_eq, Int.cast_one]
      exact hone
    · rwa [h.rms_eq, hthree, h.paramA_eq, h.paramB_eq, Int.cast_one]

/-- After a millisecond it is due. -/
lemma AtPickup.due (h : AtPickup s) : s.Due realLibm millisecondClock := by
  rw [h.due_iff]
  simpa [millisecondClock] using tripTime_lt (show (2 : ℝ) ≤ 3 by norm_num)

/-- After a microsecond it is not. -/
lemma AtPickup.not_due (h : AtPickup s) : ¬ s.Due realLibm microsecondClock := by
  rw [h.due_iff, not_lt]
  simpa [microsecondClock] using one_le_tripTime_three

/-- The iteration at the pickup returns, and records. -/
lemma AtPickup.exists_iterate {clock : ℕ → ℤ} (h : AtPickup s) (hclock : clock 0 ≤ clock 1) :
    ∃ s', s.iterate realLibm clock = .ok s' ∧ s'.isRecording = true := by
  have hcontinue : ¬ (s.oldIndex = 1 ∨ s.trip = true) := by
    rw [h.oldIndex_eq, h.trip_eq]
    decide
  have habove : (3 : ℝ) > ((1 : ℤ) : ℝ) := by norm_num
  have hpositive : 0 < tripTime realLibm 1 1 3 := tripTime_pos one_pos one_pos (by norm_num)
  -- the comparison sees minus the time since pickup
  have hearly : ¬ (((clock 0 - clock 1 : ℤ) : ℝ) >
      tripTime realLibm ((1 : ℤ) : ℝ) ((1 : ℤ) : ℝ) 3) := by
    have hneg : ((clock 0 - clock 1 : ℤ) : ℝ) ≤ 0 := by exact_mod_cast sub_nonpos.mpr hclock
    push_cast at hneg ⊢
    linarith
  have hitems : readItems (sampleRing 1) = .ok (2, sampleRing 1) :=
    readItems_eq (by rw [length_sampleRing]; omega)
  simp only [Si.iterate, h.index_eq, if_neg hcontinue, h.observe, Fallible.ok_bind, Si.record,
    if_true, accumulate_first, Si.checkTrip, h.paramA_eq, h.paramB_eq, if_pos habove]
  simp only [if_neg hearly, pure, Except.pure, Fallible.ok_bind, Si.advance, h.input_eq, hitems,
    h.oldIndex_eq]
  exact ⟨_, rfl, rfl⟩

end Pickup

/-! ## Runs -/

/-- A due iteration that does not trip is a failure of the protection. -/
lemma Si.Due.not_trips {R : Type} [Field R] [LinearOrder R] {libm : Libm R} {clock : ℕ → ℤ}
    {s s' : Si R} (h : s.Due libm clock) (hquiet : s.Quiet s') : ¬ s.Trips s' := by
  intro htrips
  obtain ⟨-, -, -, -, -, -, -, -, -, hfalse, -⟩ := h
  have htrip := htrips.trip_eq
  rw [hquiet.trip_eq, hfalse] at htrip
  cases htrip

section Run

variable {clock : ℕ → ℤ} {paramA paramB bufferEntries : ℤ} {input : Buffer} {s t t' : Si ℝ}
  {is : List SiInput}

/-- **No iteration of a run trips.** -/
lemma quiet_of_performs (hclock : Monotone clock) (hA : 0 < paramA) (hB : 0 < paramB)
    (hinit : initSi ℝ paramA paramB bufferEntries input = .ok s)
    (hp : Run.Performs (siStep realLibm clock) s is t .iteration t') : t.Quiet t' := by
  have hpos : ∀ averageCurrent : ℝ, (paramB : ℝ) < averageCurrent →
      0 < tripTime realLibm (paramA : ℝ) paramB averageCurrent := by
    intro averageCurrent habove
    exact tripTime_pos (by exact_mod_cast hA) (by exact_mod_cast hB) habove
  have ht : t.Started clock paramA paramB :=
    hp.invariant (started_siStep hclock hpos) (started_initSi hinit)
  exact (Si.iterate_quiet ht hclock hpos hp.step_eq).2

/-- **The module trips when due if and only if nothing is ever due.** For positive parameters and
a clock that does not go back: a run of the module trips in exactly the iterations that are due if
and only if none of its iterations is due.

**Proof sketch.** No iteration of the run trips (`quiet_of_performs`). So an iteration that is due
is one that does not trip, and without one the run is quiet as it should be. -/
theorem tripsWhenDue_iff (hclock : Monotone clock) (hA : 0 < paramA) (hB : 0 < paramB)
    (hinit : initSi ℝ paramA paramB bufferEntries input = .ok s) (is : List SiInput) :
    TripsWhenDue realLibm clock s is ↔
      ∀ t t', Run.Performs (siStep realLibm clock) s is t .iteration t' →
        ¬ t.Due realLibm clock := by
  constructor
  · intro htrips t t' hp hdue
    exact hdue.not_trips (quiet_of_performs hclock hA hB hinit hp) ((htrips t t' hp).1 hdue)
  · intro hnever t t' hp
    exact ⟨fun hdue => absurd hdue (hnever t t' hp),
      fun _ => quiet_of_performs hclock hA hB hinit hp⟩

end Run

/-- The start of a run that takes the first sample of `sampleRing`. -/
lemma exists_pickup (clock : ℕ → ℤ) : ∃ s t, initSi ℝ 1 1 1 (sampleRing 0) = .ok s ∧ AtPickup t ∧
    siStep realLibm clock s (.input (sampleRing 1)) = .ok { s with inputBuffer := sampleRing 1 } ∧
    siStep realLibm clock { s with inputBuffer := sampleRing 1 } .event = .ok t := by
  have hlen (index : UInt8) : 16 ≤ (sampleRing index).length := by
    rw [length_sampleRing]
    omega
  obtain ⟨s, hs⟩ : ∃ s, initSi ℝ 1 1 1 (sampleRing 0) = .ok s :=
    exists_initSi_eq_ok (by decide) (hlen 0)
  obtain ⟨oldIndex, input', output, hread, heq⟩ := initSi_eq hs
  obtain ⟨rfl, -⟩ := Prod.mk.inj (Except.ok.inj ((readIndex_eq (hlen 0)).symm.trans hread))
  refine ⟨s, { s with inputBuffer := sampleRing 1, index := some 1 }, hs, ?_, rfl, ?_⟩
  · subst heq
    constructor <;> rfl
  · have hindex : s.index = none := by rw [heq]
    have hold : s.oldIndex ≠ (sampleRing 1).index := by
      rw [heq]
      show (sampleRing 0).index ≠ (sampleRing 1).index
      decide
    simp only [siStep, Si.event, hindex, readIndex_eq (hlen 1), Fallible.ok_bind, if_neg hold]
    rfl

/-! ## A trip -/

/-- The RMS value is at least two if the sum of the squares is four times the number of samples. -/
lemma two_le_rms {samples : List ℤ} (h : 320 ≤ (samples.map (· ^ 2)).sum) :
    2 ≤ rms realLibm 80 samples := by
  rw [rms_eq_sqrt]
  apply Real.le_sqrt_of_sq_le
  rw [le_div_iff₀ (by norm_num)]
  have hcast : ((320 : ℤ) : ℝ) ≤ ((samples.map (· ^ 2)).sum : ℤ) := by exact_mod_cast h
  push_cast at hcast ⊢
  linarith

/-- A clock that is set back by two milliseconds after its first reading. -/
def setBackClock (k : ℕ) : ℤ := if k = 0 then 2000 else 0

/-- The module has its parameters from `init`, and no iteration has taken a sample. -/
structure Si.Fresh (s : Si ℝ) : Prop where
  paramA_eq : s.paramA = 1
  paramB_eq : s.paramB = 1
  trip_eq : s.trip = false
  isRecording_eq : s.isRecording = false
  reads_eq : s.reads = 0

/-- **A first RMS value that trips**: twice the threshold, on the clock that is set back between
pickup and comparison. -/
lemma Si.Fresh.trip {s s' : Si ℝ} {index : ℤ} (h : s.Fresh) (hindex : s.index = some index)
    (hne : s.oldIndex ≠ index)
    (hloud : ∀ samples input, readSamples s.oldIndex s.maxItems s.vector s.inputBuffer =
      .ok (samples, input) → 2 ≤ rms realLibm s.vector samples)
    (hiterate : s.iterate realLibm setBackClock = .ok s') : s'.trip = true := by
  rcases iterate_cases hiterate with ⟨hnone, -⟩ | ⟨index', hindex', hend, -⟩ |
    ⟨index', currentRms, p, r, -, -, -, hobserve, hrecord, hadvance⟩
  · rw [hindex] at hnone
    cases hnone
  · obtain rfl := Option.some.inj (hindex.symm.trans hindex')
    rcases hend with heq | htrip
    · exact absurd heq hne
    · rw [h.trip_eq] at htrip
      cases htrip
  · obtain ⟨samples, input, hread, rfl, rfl⟩ := observe_eq hobserve
    have htwo := hloud samples input hread
    generalize rms realLibm s.vector samples = x at *
    have hpickup : x > (({ s with inputBuffer := input } : Si ℝ).paramB : ℝ) ∧
        ({ s with inputBuffer := input } : Si ℝ).isRecording = false := by
      refine ⟨?_, h.isRecording_eq⟩
      show x > (s.paramB : ℝ)
      rw [h.paramB_eq, Int.cast_one]
      linarith
    rw [pickup, if_pos hpickup] at hrecord
    rcases record_cases hrecord with ⟨hidle, -⟩ | ⟨-, averageCurrent, q, haccumulate, hcheck⟩
    · cases hidle
    · rw [accumulate_first rfl rfl] at haccumulate
      obtain ⟨rfl, rfl⟩ := Prod.mk.inj (Except.ok.inj haccumulate)
      obtain ⟨oldIndex, input', rfl⟩ := advance_eq hadvance
      rcases checkTrip_cases hcheck with ⟨hlow, -⟩ | ⟨startTime, -, hstart, hlate⟩
      · have hlow : x ≤ (s.paramB : ℝ) := hlow
        rw [h.paramB_eq, Int.cast_one] at hlow
        linarith
      · obtain rfl := Option.some.inj hstart
        rcases hlate with ⟨hearly, -⟩ | ⟨-, result, output, -, rfl⟩
        · -- two milliseconds, as the comparison computes it
          exfalso
          have hearly : ((setBackClock s.reads - setBackClock (s.reads + 1) : ℤ) : ℝ) ≤
              tripTime realLibm (s.paramA : ℝ) (s.paramB : ℝ) x := hearly
          have hlt := tripTime_lt htwo
          rw [h.paramA_eq, h.paramB_eq, h.reads_eq, Int.cast_one] at hearly
          have hback : setBackClock 0 - setBackClock (0 + 1) = 2000 := rfl
          rw [hback] at hearly
          push_cast at hearly
          linarith
        · rfl

/-- **A run that records and does not trip, as it should**: the first sample is three times the
threshold, and at the comparison a microsecond has passed since pickup. -/
theorem tripsWhenDue_pickup : ∃ s, initSi ℝ 1 1 1 (sampleRing 0) = .ok s ∧
    (∃ t, Run.exec (siStep realLibm microsecondClock) s
      [.input (sampleRing 1), .event, .iteration] = .ok t ∧ t.isRecording = true) ∧
    TripsWhenDue realLibm microsecondClock s [.input (sampleRing 1), .event, .iteration] := by
  obtain ⟨s, t, hs, hpickup, hinput, hevent⟩ := exists_pickup microsecondClock
  obtain ⟨t', hiterate, hrecording⟩ :=
    hpickup.exists_iterate (monotone_microsecondClock (Nat.zero_le 1))
  have hiteration : siStep realLibm microsecondClock t .iteration = .ok t' := hiterate
  refine ⟨s, hs, ⟨t', ?_, hrecording⟩,
    (tripsWhenDue_iff monotone_microsecondClock one_pos one_pos hs _).mpr ?_⟩
  · exact Run.exec_cons_eq_ok.mpr ⟨_, hinput, Run.exec_cons_eq_ok.mpr ⟨_, hevent,
      Run.exec_cons_eq_ok.mpr ⟨_, hiteration, rfl⟩⟩⟩
  · have hnever := Run.forall_performs_cons
      (P := fun u i => i = .iteration → ¬ u.Due realLibm microsecondClock) hinput (by simp)
      (Run.forall_performs_cons hevent (by simp)
        (Run.forall_performs_cons hiteration (fun _ => hpickup.not_due) Run.forall_performs_nil))
    exact fun u u' hp => hnever u _ u' hp rfl

/-- **A due iteration that does not trip**: the first sample of the run is three times the
threshold, the comparison is made a millisecond after pickup, and the trip time is shorter. -/
theorem not_tripsWhenDue_pickup : ∃ s, initSi ℝ 1 1 1 (sampleRing 0) = .ok s ∧
    ¬ TripsWhenDue realLibm millisecondClock s [.input (sampleRing 1), .event, .iteration] := by
  obtain ⟨s, t, hs, hpickup, hinput, hevent⟩ := exists_pickup millisecondClock
  obtain ⟨t', hiterate, -⟩ := hpickup.exists_iterate (monotone_millisecondClock (Nat.zero_le 1))
  refine ⟨s, hs, fun htrips => ?_⟩
  have hp : Run.Performs (siStep realLibm millisecondClock) s
      [.input (sampleRing 1), .event, .iteration] t .iteration t' :=
    Run.Performs.cons hinput (Run.Performs.cons hevent (Run.performs_head hiterate))
  have hquiet := quiet_of_performs monotone_millisecondClock one_pos one_pos hs hp
  exact hpickup.due.not_trips hquiet ((htrips _ _ hp).1 hpickup.due)

end Tmee
