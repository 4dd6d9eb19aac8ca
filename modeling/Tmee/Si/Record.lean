import Mathlib.Algebra.BigOperators.Group.List.Basic
import Tmee.Si.Trip

set_option relaxedAutoImplicit false
set_option autoImplicit false

/-!
# What the protection records

From pickup on the module adds up RMS values and counts them. The fields are not assigned before
the first pickup; a reset leaves them, and the next pickup assigns them anew. Once the module has
tripped it takes no more samples.

## Main definitions

* `Tmee.Si.evaluation` — the RMS value of the iteration ahead.
* `Tmee.Si.recordedNext` — the RMS values of the iterations since the last pickup.
* `Tmee.Si.OnRecord` — the record is that of these values, and their mean is above the threshold.
* `Tmee.ProtectionLaw` — what a run of the module keeps.

## Main results

* `Tmee.onRecord_siStep` — every step keeps the record.
* `Tmee.siStep_trips` — a step trips, or changes nothing that a trip changes.
* `Tmee.protectionLaw` — every run keeps the law.
-/

namespace Tmee

section Law

variable {R : Type} [Field R] [LinearOrder R]

namespace Si

/-- The RMS value of the iteration ahead and the state after its pickup; nothing if the iteration
takes no sample. -/
def evaluation (libm : Libm R) (clock : ℕ → ℤ) (s : Si R) : Option (R × Si R) :=
  match s.index with
  | none => none
  | some index =>
    if s.oldIndex = index ∨ s.trip = true then none else (s.observe libm clock).toOption

/-- The RMS value makes the module pick up. -/
def PicksUp (currentRms : R) (s : Si R) : Prop :=
  currentRms > (s.paramB : R) ∧ s.isRecording = false

instance (currentRms : R) (s : Si R) : Decidable (s.PicksUp currentRms) :=
  inferInstanceAs (Decidable (_ ∧ _))

/-- The RMS values of the iterations since the last pickup, that one included. -/
def recordedNext (libm : Libm R) (clock : ℕ → ℤ) (past : List R) (s : Si R) : SiInput → List R
  | .iteration =>
    match s.evaluation libm clock with
    | none => past
    | some (currentRms, _) => (if s.PicksUp currentRms then [] else past) ++ [currentRms]
  | _ => past

/-- The record is that of the RMS values in `past`: their sum and their number, which is not zero;
and their mean is above the threshold. -/
structure OnRecord (past : List R) (s : Si R) : Prop where
  total_eq : s.total = some past.sum
  sampleCount_eq : s.sampleCount = some (past.length : R)
  one_le : 1 ≤ past.length
  above : (s.paramB : R) * past.length < past.sum

/-- Since `s₀` the output has been written, and the event raised, once if the module has tripped,
and not at all otherwise. -/
def TrippedOnce (s₀ s : Si R) : Prop :=
  (s.trip = false ∧ s.raised = s₀.raised ∧ s.outputBuffer = s₀.outputBuffer) ∨
    (s.trip = true ∧ s.raised = s₀.raised + 1 ∧
      ∃ r, writeOutputBool 1 s₀.outputBuffer = .ok (r, s.outputBuffer))

end Si

/-- **What a run of the module keeps.** After every part of the run a recording module has recorded
exactly the iterations since the last pickup, with a mean above the threshold. Whenever an
iteration comes to the record, its fields are assigned, and the number it divides by is not zero.
A step trips if and only if the flag goes from zero to one, and only then is the output written and
the event raised; this happens once at most. A module that has tripped changes nothing but its
position in the ring. -/
structure ProtectionLaw (libm : Libm R) (clock : ℕ → ℤ) (s₀ : Si R) (is : List SiInput) : Prop where
  record : ∀ pre t past, pre <+: is →
    Run.exec (Run.watch (siStep libm clock) (Si.recordedNext libm clock)) (s₀, []) pre =
      .ok (t, past) → t.isRecording = true → t.OnRecord past
  assigned : ∀ pre t currentRms p, pre <+: is → Run.exec (siStep libm clock) s₀ pre = .ok t →
    t.evaluation libm clock = some (currentRms, p) → p.isRecording = true →
      ∃ total sampleCount, p.total = some total ∧ p.sampleCount = some sampleCount ∧
        sampleCount + 1 ≠ 0
  trips : ∀ t i t', Run.Performs (siStep libm clock) s₀ is t i t' →
    (t.trip = false ∧ t.Trips t') ∨ t.Quiet t'
  once : ∀ pre t, pre <+: is → Run.exec (siStep libm clock) s₀ pre = .ok t → s₀.TrippedOnce t
  latched : ∀ t i t', Run.Performs (siStep libm clock) s₀ is t i t' → t.trip = true →
    t' = { t with
      inputBuffer := t'.inputBuffer
      index := t'.index
      oldIndex := t'.oldIndex }

end Law

section Record

variable {R : Type} [Field R] [LinearOrder R] {libm : Libm R} {clock : ℕ → ℤ} {s s' p : Si R}
  {currentRms : R} {past : List R}

namespace Si

/-- What the record is does not depend on the ring or the position in it. -/
lemma OnRecord.of_eq (h : s.OnRecord past) (htotal : s'.total = s.total)
    (hcount : s'.sampleCount = s.sampleCount) (hparam : s'.paramB = s.paramB) :
    s'.OnRecord past where
  total_eq := htotal.trans h.total_eq
  sampleCount_eq := hcount.trans h.sampleCount_eq
  one_le := h.one_le
  above := hparam ▸ h.above

/-- An iteration that takes a sample has an evaluation. -/
lemma evaluation_eq {index : ℤ} (hindex : s.index = some index) (hne : s.oldIndex ≠ index)
    (htrip : s.trip = false) (hobserve : s.observe libm clock = .ok (currentRms, p)) :
    s.evaluation libm clock = some (currentRms, p) := by
  have hcontinue : ¬ (s.oldIndex = index ∨ s.trip = true) := by
    rw [htrip]
    simp [hne]
  simp only [evaluation, hindex, if_neg hcontinue, hobserve]
  rfl

/-- Conversely an evaluation is the first part of an iteration. -/
lemma observe_of_evaluation (h : s.evaluation libm clock = some (currentRms, p)) :
    ∃ index, s.index = some index ∧ s.oldIndex ≠ index ∧ s.trip = false ∧
      s.observe libm clock = .ok (currentRms, p) := by
  rw [evaluation] at h
  cases hindex : s.index with
  | none =>
    simp only [hindex] at h
    cases h
  | some index =>
    simp only [hindex] at h
    split_ifs at h with hend
    push Not at hend
    cases hobserve : s.observe libm clock with
    | error f =>
      rw [hobserve] at h
      cases h
    | ok o =>
      rw [hobserve] at h
      obtain rfl := Option.some.inj h
      exact ⟨index, rfl, hend.1, by simpa using hend.2, rfl⟩

/-- An iteration that takes no sample has none. -/
lemma evaluation_eq_none (h : s.index = none ∨ ∃ index, s.index = some index ∧
    (s.oldIndex = index ∨ s.trip = true)) : s.evaluation libm clock = none := by
  rw [evaluation]
  rcases h with hnone | ⟨index, hindex, hend⟩
  · simp only [hnone]
  · simp only [hindex, if_pos hend]

/-- Before the RMS value is added, the record is that of the iterations before. -/
lemma record_of_observe (h : s.isRecording = true → s.OnRecord past)
    (hobserve : s.observe libm clock = .ok (currentRms, p)) (hrecording : p.isRecording = true) :
    p.total = some (if s.PicksUp currentRms then [] else past).sum ∧
      p.sampleCount = some (((if s.PicksUp currentRms then [] else past).length : ℕ) : R) := by
  obtain ⟨-, input, -, -, rfl⟩ := observe_eq hobserve
  by_cases hpickup : s.PicksUp currentRms
  · have hp : (pickup clock currentRms { s with inputBuffer := input }).total = some 0 ∧
        (pickup clock currentRms { s with inputBuffer := input }).sampleCount = some 0 := by
      rw [pickup, if_pos (show currentRms > (s.paramB : R) ∧ s.isRecording = false from hpickup)]
      exact ⟨rfl, rfl⟩
    rw [if_pos hpickup]
    simpa using hp
  · have hp : pickup clock currentRms { s with inputBuffer := input } =
        { s with inputBuffer := input } := if_neg hpickup
    rw [hp] at hrecording ⊢
    rw [if_neg hpickup]
    obtain ⟨htotal, hcount, -, -⟩ := h hrecording
    exact ⟨htotal, hcount⟩

end Si

variable [IsStrictOrderedRing R]

namespace Si

/-- **Adding a value to the record**: if the module goes on recording, the mean is above the
threshold. -/
lemma onRecord_of_record {xs : List R} (htotal : p.total = some xs.sum)
    (hcount : p.sampleCount = some (xs.length : R))
    (hrecord : p.record libm clock currentRms = .ok s') (hp : p.isRecording = true)
    (hrecording : s'.isRecording = true) : s'.OnRecord (xs ++ [currentRms]) := by
  have hpos : (0 : R) < (xs.length : R) + 1 := by positivity
  rcases record_cases hrecord with ⟨hno, -⟩ | ⟨-, averageCurrent, q, haccumulate, hcheck⟩
  · rw [hno] at hp
    cases hp
  · obtain ⟨total, sampleCount, htotal', hcount', haverage, rfl⟩ := accumulate_eq haccumulate
    obtain rfl : xs.sum = total := Option.some.inj (htotal.symm.trans htotal')
    obtain rfl : (xs.length : R) = sampleCount := Option.some.inj (hcount.symm.trans hcount')
    have hsum : (xs ++ [currentRms]).sum = xs.sum + currentRms := by simp
    have hlength : (((xs ++ [currentRms]).length : ℕ) : R) = xs.length + 1 := by simp
    -- the comparison goes on recording only above the threshold
    have habove : (p.paramB : R) < averageCurrent →
        (p.paramB : R) * (xs.length + 1) < xs.sum + currentRms := by
      intro h
      rwa [haverage, lt_div_iff₀ hpos] at h
    rcases checkTrip_cases hcheck with ⟨-, rfl⟩ | ⟨startTime, hlt, -, hcases⟩
    · cases hrecording
    · rcases hcases with ⟨-, rfl⟩ | ⟨-, r, output, -, rfl⟩
      · exact ⟨by rw [hsum], by rw [hlength], by simp, by rw [hsum, hlength]; exact habove hlt⟩
      · exact ⟨by rw [hsum], by rw [hlength], by simp, by rw [hsum, hlength]; exact habove hlt⟩

/-- The iteration that takes a sample keeps the record. -/
lemma onRecord_of_sample {r : Si R} (h : s.isRecording = true → s.OnRecord past)
    (hobserve : s.observe libm clock = .ok (currentRms, p))
    (hrecord : p.record libm clock currentRms = .ok r) (hadvance : r.advance = .ok s')
    (hrecording : s'.isRecording = true) :
    s'.OnRecord ((if s.PicksUp currentRms then [] else past) ++ [currentRms]) := by
  obtain ⟨oldIndex, input, rfl⟩ := advance_eq hadvance
  have hr : r.isRecording = true := hrecording
  have hp : p.isRecording = true := by
    rcases record_cases hrecord with ⟨-, rfl⟩ | ⟨hp, -⟩
    · exact hr
    · exact hp
  obtain ⟨htotal, hcount⟩ := record_of_observe h hobserve hp
  have hrec := onRecord_of_record htotal hcount hrecord hp hr
  exact hrec.of_eq rfl rfl rfl

end Si

/-- **Every step keeps the record.** -/
lemma onRecord_siStep (s : Si R × List R) (i : SiInput) (s' : Si R × List R)
    (h : s.1.isRecording = true → s.1.OnRecord s.2)
    (hwatch : Run.watch (siStep libm clock) (Si.recordedNext libm clock) s i = .ok s') :
    s'.1.isRecording = true → s'.1.OnRecord s'.2 := by
  obtain ⟨s, past⟩ := s
  obtain ⟨s', past'⟩ := s'
  obtain ⟨hstep, hpast⟩ := Run.watch_eq_ok.mp hwatch
  clear hwatch
  dsimp only at h hstep hpast ⊢
  subst hpast
  intro hrecording
  cases i with
  | input buffer =>
    obtain rfl := Except.ok.inj hstep
    exact (h hrecording).of_eq rfl rfl rfl
  | event =>
    obtain ⟨input, index, rfl⟩ := Si.event_eq hstep
    exact (h hrecording).of_eq rfl rfl rfl
  | iteration =>
    rw [Si.recordedNext]
    rcases Si.iterate_cases hstep with ⟨hnone, rfl⟩ | ⟨index, hindex, hend, rfl⟩ |
      ⟨index, currentRms, p, r, hindex, hne, htrip, hobserve, hrecord, hadvance⟩
    · rw [Si.evaluation_eq_none (Or.inl hnone)]
      exact h hrecording
    · rw [Si.evaluation_eq_none (Or.inr ⟨index, hindex, hend⟩)]
      exact (h hrecording).of_eq rfl rfl rfl
    · rw [Si.evaluation_eq hindex hne htrip hobserve]
      exact Si.onRecord_of_sample h hobserve hrecord hadvance hrecording

omit [IsStrictOrderedRing R] in
/-- **What a step does to the output**: it trips, and the flag was zero before; or it leaves the
flag, the output ring and the event alone. -/
lemma siStep_trips {i : SiInput} (hstep : siStep libm clock s i = .ok s') :
    (s.trip = false ∧ s.Trips s') ∨ s.Quiet s' := by
  cases i with
  | input buffer =>
    obtain rfl := Except.ok.inj hstep
    exact Or.inr ⟨rfl, rfl, rfl⟩
  | event =>
    obtain ⟨input, index, rfl⟩ := Si.event_eq hstep
    exact Or.inr ⟨rfl, rfl, rfl⟩
  | iteration =>
    rcases Si.iterate_cases hstep with ⟨-, rfl⟩ | ⟨index, -, -, rfl⟩ |
      ⟨index, currentRms, p, r, -, -, htrip, hobserve, hrecord, hadvance⟩
    · exact Or.inr (Si.Quiet.refl _)
    · exact Or.inr ⟨rfl, rfl, rfl⟩
    · have hsp : s.Quiet p := by
        obtain ⟨input, rfl | ⟨-, rfl⟩⟩ := Si.observe_cases hobserve <;> exact ⟨rfl, rfl, rfl⟩
      obtain ⟨oldIndex, input, rfl⟩ := Si.advance_eq hadvance
      rcases Si.record_cases hrecord with ⟨-, rfl⟩ | ⟨-, average, q, haccumulate, hcheck⟩
      · exact Or.inr (hsp.trans ⟨rfl, rfl, rfl⟩)
      · obtain ⟨total, sampleCount, -, -, -, rfl⟩ := Si.accumulate_eq haccumulate
        rcases Si.checkTrip_cases hcheck with ⟨-, rfl⟩ | ⟨startTime, -, -, hlate⟩
        · exact Or.inr (hsp.trans ⟨rfl, rfl, rfl⟩)
        · rcases hlate with ⟨-, rfl⟩ | ⟨-, r, output, hwrite, rfl⟩
          · exact Or.inr (hsp.trans ⟨rfl, rfl, rfl⟩)
          · refine Or.inl ⟨htrip, rfl, congrArg (· + 1) hsp.raised_eq, r, ?_⟩
            rw [← hsp.output_eq]
            exact hwrite

omit [IsStrictOrderedRing R] in
/-- The step in which the flag goes up writes it. -/
lemma siStep_writes {i : SiInput} (hstep : siStep libm clock s i = .ok s') (hfalse : s.trip = false)
    (htrip : s'.trip = true) :
    ∃ r, writeOutputBool 1 s.outputBuffer = .ok (r, s'.outputBuffer) := by
  rcases siStep_trips hstep with ⟨-, htrips⟩ | hquiet
  · exact htrips.output_eq
  · rw [hquiet.trip_eq, hfalse] at htrip
    cases htrip

omit [IsStrictOrderedRing R] in
/-- **A module that has tripped** changes its position in the ring only. -/
lemma siStep_latched {i : SiInput} (hstep : siStep libm clock s i = .ok s')
    (htrip : s.trip = true) :
    s' = { s with
      inputBuffer := s'.inputBuffer
      index := s'.index
      oldIndex := s'.oldIndex } := by
  cases i with
  | input buffer =>
    obtain rfl := Except.ok.inj hstep
    rfl
  | event =>
    obtain ⟨input, index, rfl⟩ := Si.event_eq hstep
    rfl
  | iteration =>
    rcases Si.iterate_cases hstep with ⟨-, rfl⟩ | ⟨index, -, -, rfl⟩ |
      ⟨index, currentRms, p, r, -, -, hfalse, -, -, -⟩
    · rfl
    · rfl
    · rw [hfalse] at htrip
      cases htrip

omit [IsStrictOrderedRing R] in
/-- **The output is written once at most**, together with the flag and the event. -/
lemma trippedOnce_siStep (s₀ s : Si R) (i : SiInput) (s' : Si R) (h : s₀.TrippedOnce s)
    (hstep : siStep libm clock s i = .ok s') : s₀.TrippedOnce s' := by
  rcases siStep_trips hstep with ⟨hfalse, htrips⟩ | hquiet
  · rcases h with ⟨-, hraised, houtput⟩ | ⟨htrue, -⟩
    · right
      exact ⟨htrips.trip_eq, by rw [htrips.raised_eq, hraised], houtput ▸ htrips.output_eq⟩
    · rw [hfalse] at htrue
      cases htrue
  · rcases h with ⟨htrip, hraised, houtput⟩ | ⟨htrip, hraised, hwritten⟩
    · exact Or.inl ⟨hquiet.trip_eq.trans htrip, hquiet.raised_eq.trans hraised,
        hquiet.output_eq.trans houtput⟩
    · exact Or.inr ⟨hquiet.trip_eq.trans htrip, hquiet.raised_eq.trans hraised,
        hquiet.output_eq ▸ hwritten⟩

/-- **The protection keeps its law.** From a successful `init` on, over any samples, parameters and
clock, every run of the module keeps the law.

**Proof sketch.** Every step keeps the record (`onRecord_siStep`), which also gives the fields an
iteration reads, and leaves the output alone or trips (`siStep_trips`). -/
theorem protectionLaw {paramA paramB bufferEntries : ℤ} {input : Buffer} {s₀ : Si R}
    (libm : Libm R) (clock : ℕ → ℤ) (hinit : initSi R paramA paramB bufferEntries input = .ok s₀)
    (is : List SiInput) : ProtectionLaw libm clock s₀ is := by
  have hrun (pre : List SiInput) (t : Si R) (past : List R)
      (h : Run.exec (Run.watch (siStep libm clock) (Si.recordedNext libm clock)) (s₀, []) pre =
        .ok (t, past)) : t.isRecording = true → t.OnRecord past := by
    refine Run.exec_invariant onRecord_siStep ?_ h
    obtain ⟨-, -, -, -, rfl⟩ := initSi_eq hinit
    rintro ⟨⟩
  constructor
  · intro pre t past _ h
    exact hrun pre t past h
  · intro pre t currentRms p _ h hevaluation hp
    obtain ⟨past, hpast⟩ := Run.exists_watch h (Si.recordedNext libm clock) []
    obtain ⟨-, -, -, -, hobserve⟩ := Si.observe_of_evaluation hevaluation
    obtain ⟨htotal, hcount⟩ := Si.record_of_observe (hrun pre t past hpast) hobserve hp
    exact ⟨_, _, htotal, hcount, by positivity⟩
  · intro t i t' hp
    exact siStep_trips hp.step_eq
  · intro pre t _ h
    refine Run.exec_invariant (trippedOnce_siStep s₀) ?_ h
    obtain ⟨-, -, -, -, rfl⟩ := initSi_eq hinit
    exact Or.inl ⟨rfl, rfl, rfl⟩
  · intro t i t' hp htrip
    exact siStep_latched hp.step_eq htrip

end Record

/-- The run that picks up at the first sample keeps the law. -/
theorem protectionLaw_pickup : ∃ s, initSi ℝ 1 1 1 (sampleRing 0) = .ok s ∧
    ProtectionLaw realLibm millisecondClock s [.input (sampleRing 1), .event, .iteration] := by
  have hlen : 16 ≤ (sampleRing 0).length := by
    rw [length_sampleRing]
    omega
  obtain ⟨s, hs⟩ : ∃ s, initSi ℝ 1 1 1 (sampleRing 0) = .ok s :=
    exists_initSi_eq_ok (by decide) hlen
  exact ⟨s, hs, protectionLaw realLibm millisecondClock hs _⟩

end Tmee
