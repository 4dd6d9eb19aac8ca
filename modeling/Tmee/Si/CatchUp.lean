import Tmee.Si.Record
import Tmee.Si.Window

set_option relaxedAutoImplicit false
set_option autoImplicit false

/-!
# Catching up with the input ring

A call of `event` computes one RMS value for every slot by which the index of the input ring has
advanced. The loop computes before it advances `old_index`, so the value belongs to the slot that
the module leaves and not to the one it comes to: the newest sample waits for the next call.

## Main definitions

* `Tmee.writtenSlots`, `Tmee.evaluatedSlots` — the slots a call has to evaluate, and those it does.
* `Tmee.Si.Calls` — a call that returns, with the slots of its RMS values.
* `Tmee.Si.CatchesUp` — a call that evaluates what has been written.

## Main results

* `Tmee.Si.Calls.slots_eq` — what a call evaluates.
* `Tmee.catchesUp_iff` — when this is what has been written.
-/

namespace Tmee

/-- The slots written on the way from position `o` to `index`, in the order of the writes. -/
def writtenSlots (o index n : ℤ) : List ℤ :=
  (List.range ((index - o) % n).toNat).map fun j : ℕ => (o + 1 + j) % n

/-- The slots of the last samples of the RMS values on the way from position `o` to `index`. -/
def evaluatedSlots (o index n m : ℤ) : List ℤ :=
  (List.range ((index - o) % n).toNat).map fun j : ℕ => (o + j) % n % m

section Spec

variable {R : Type} [Field R] [LinearOrder R]

namespace Si

/-- The slots of the last samples of the RMS values so far; the last sample of a value is the one
with `i = 0`. -/
def evaluatedNext (libm : Libm R) (clock : ℕ → ℤ) (slots : List ℤ) (s : Si R) : SiInput → List ℤ
  | .iteration =>
    match s.evaluation libm clock, sampleIndex s.oldIndex s.maxItems 0 with
    | some _, .ok slot => slots ++ [slot]
    | _, _ => slots
  | _ => slots

/-- A call of `event` that returns in `s'`, with the slots of the last samples of its RMS values. -/
def Calls (libm : Libm R) (clock : ℕ → ℤ) (s : Si R) (slots : List ℤ) (s' : Si R) : Prop :=
  s'.index = none ∧ ∃ k, Run.exec (Run.watch (siStep libm clock) (evaluatedNext libm clock)) (s, [])
    (.event :: List.replicate k .iteration) = .ok (s', slots)

/-- **A call catches up**: it returns, and unless it trips every sample written since the last call
has been the last one of one RMS value, in the order of the writes, and the module is at the index
of the ring. -/
def CatchesUp (libm : Libm R) (clock : ℕ → ℤ) (s : Si R) : Prop :=
  ∃ slots s', s.Calls libm clock slots s' ∧ (s'.trip = false →
    slots = writtenSlots s.oldIndex s.inputBuffer.index s.inputBuffer.items ∧
      s'.oldIndex = s.inputBuffer.index)

/-- What `init` provides and no later step changes: the number of entries and the window, the
record of a module that records, and an output ring. -/
structure Ready (bufferEntries : ℤ) (s : Si R) : Prop where
  maxItems_eq : s.maxItems = u32 bufferEntries
  vector_eq : s.vector = 80
  total_assigned : s.isRecording = true → s.total.isSome
  sampleCount_assigned : s.isRecording = true → s.sampleCount.isSome
  startTime_assigned : s.isRecording = true → s.startTime.isSome
  output : 1 ≤ bufferEntries → Writable TypeCode.bool 1 s.outputBuffer

/-- The part of the state that says where in the ring the module is. -/
structure Stays (s s' : Si R) : Prop where
  input_eq : s'.inputBuffer = s.inputBuffer
  oldIndex_eq : s'.oldIndex = s.oldIndex
  index_eq : s'.index = s.index
  maxItems_eq : s'.maxItems = s.maxItems
  vector_eq : s'.vector = s.vector

end Si

end Spec

/-! ## Reading leaves the ring alone -/

section Read

variable {b b' : Buffer} {o m r : ℤ} {v : ℕ} {samples : List ℤ}

lemma readInputSmv_frame {varIndex index : ℤ} (hlen : 16 ≤ b.length) (hlock : b.lock = 0)
    (h : readInputSmv varIndex index b = .ok (r, b')) : b' = b := by
  apply locked_frame hlen hlock ?_ h
  intro c x c' hbody
  obtain ⟨offset, c₁, hoffset, hrest₁⟩ := bufM_bind_eq_ok hbody
  obtain ⟨base, c₂, hbase, hrest₂⟩ := bufM_bind_eq_ok hrest₁
  obtain ⟨word, c₃, hword, hload⟩ := bufM_bind_eq_ok hrest₂
  rw [load_frame hload, (bufM_lift_eq_ok hword).2, (bufM_lift_eq_ok hbase).2,
    (bufM_lift_eq_ok hoffset).2]

/-- Reading the samples leaves the ring as it was; and it needs a positive number of entries. -/
lemma readSamples_frame (hlen : 16 ≤ b.length) (hlock : b.lock = 0)
    (h : readSamples o m v b = .ok (samples, b')) : b' = b ∧ (v ≠ 0 → m ≠ 0) := by
  induction v generalizing samples b' with
  | zero => exact ⟨(Prod.mk.inj (Except.ok.inj h)).2.symm, fun hne => absurd rfl hne⟩
  | succ v ih =>
    obtain ⟨first, c₁, hfirst, hrest₁⟩ := bufM_bind_eq_ok h
    obtain ⟨index, c₂, hindex, hrest₂⟩ := bufM_bind_eq_ok hrest₁
    obtain ⟨current, c₃, hcurrent, hlast⟩ := bufM_bind_eq_ok hrest₂
    have hc₁ := (ih hfirst).1
    obtain ⟨hindex, hc₂⟩ := bufM_lift_eq_ok hindex
    have hc₂ : c₂ = b := hc₂.trans hc₁
    have hc₃ : c₃ = b := by
      rw [hc₂] at hcurrent
      exact readInputSmv_frame hlen hlock hcurrent
    refine ⟨(Prod.mk.inj (Except.ok.inj hlast)).2.symm.trans hc₃, fun _ hm => ?_⟩
    obtain ⟨difference, -, hrem⟩ := Fallible.bind_eq_ok.mp hindex
    rw [if_pos hm] at hrem
    cases hrem

end Read

/-! ## Slots -/

section Slots

variable {o index n m : ℤ}

/-- A position at the index has nothing to evaluate. -/
lemma evaluatedSlots_self (o n m : ℤ) : evaluatedSlots o o n m = [] := by
  simp [evaluatedSlots]

lemma writtenSlots_self (o n : ℤ) : writtenSlots o o n = [] := by
  simp [writtenSlots]

/-- Behind the index there is a slot, and one fewer from the next position on. -/
lemma exists_emod_sub_eq (ho₀ : 0 ≤ o) (ho : o < n) (hi₀ : 0 ≤ index) (hi : index < n)
    (hne : o ≠ index) : ∃ d : ℕ, ((index - o) % n).toNat = d + 1 ∧
      ((index - (o + 1) % n) % n).toNat = d := by
  have hsub : (index - (o + 1) % n) % n = (index - o - 1) % n := by
    rw [Int.sub_emod_emod]
    congr 1
    ring
  rw [hsub]
  rcases lt_or_gt_of_ne hne with hlt | hgt
  · refine ⟨(index - o - 1).toNat, ?_, ?_⟩
    · rw [Int.emod_eq_of_lt (by omega) (by omega)]
      omega
    · rw [Int.emod_eq_of_lt (by omega) (by omega)]
  · have hwrap (x : ℤ) (h₁ : -n ≤ x) (h₂ : x < 0) : x % n = x + n := by
      rw [← Int.add_emod_right]
      exact Int.emod_eq_of_lt (by omega) (by omega)
    refine ⟨(index - o - 1 + n).toNat, ?_, ?_⟩
    · rw [hwrap _ (by omega) (by omega)]
      omega
    · rw [hwrap _ (by omega) (by omega)]

/-- The first slot on the way is the one of the position itself. -/
lemma evaluatedSlots_cons (ho₀ : 0 ≤ o) (ho : o < n) (hi₀ : 0 ≤ index) (hi : index < n)
    (hne : o ≠ index) :
    evaluatedSlots o index n m = o % m :: evaluatedSlots ((o + 1) % n) index n m := by
  obtain ⟨d, hd, hd'⟩ := exists_emod_sub_eq ho₀ ho hi₀ hi hne
  have hfirst : (o + ((0 : ℕ) : ℤ)) % n % m = o % m := by
    rw [Nat.cast_zero, add_zero, Int.emod_eq_of_lt ho₀ ho]
  rw [evaluatedSlots, evaluatedSlots, hd, hd', List.range_succ_eq_map, List.map_cons, hfirst,
    List.map_map]
  congr 1
  apply List.map_congr_left
  intro j _
  have hnext : o + ((j + 1 : ℕ) : ℤ) = o + 1 + j := by
    push_cast
    ring
  show (o + ((j + 1 : ℕ) : ℤ)) % n % m = ((o + 1) % n + j) % n % m
  rw [hnext, Int.emod_add_emod]

/-- The first slot written is the one behind the position. -/
lemma writtenSlots_cons (ho₀ : 0 ≤ o) (ho : o < n) (hi₀ : 0 ≤ index) (hi : index < n)
    (hne : o ≠ index) :
    writtenSlots o index n = (o + 1) % n :: writtenSlots ((o + 1) % n) index n := by
  obtain ⟨d, hd, hd'⟩ := exists_emod_sub_eq ho₀ ho hi₀ hi hne
  have hfirst : (o + 1 + ((0 : ℕ) : ℤ)) % n = (o + 1) % n := by rw [Nat.cast_zero, add_zero]
  rw [writtenSlots, writtenSlots, hd, hd', List.range_succ_eq_map, List.map_cons, hfirst,
    List.map_map]
  congr 1
  apply List.map_congr_left
  intro j _
  have hnext : o + 1 + ((j + 1 : ℕ) : ℤ) = o + 1 + (1 + j) := by
    push_cast
    ring
  show (o + 1 + ((j + 1 : ℕ) : ℤ)) % n = ((o + 1) % n + 1 + j) % n
  rw [hnext, add_assoc ((o + 1) % n), Int.emod_add_emod]

/-- **What is evaluated is what has been written** only if there is nothing to evaluate, or one
step from the last slot to slot `0`, and the last slot is taken for slot `0`. -/
lemma evaluatedSlots_eq_writtenSlots_iff (hm : 0 ≤ m) (ho₀ : 0 ≤ o) (ho : o < n) (hi₀ : 0 ≤ index)
    (hi : index < n) : evaluatedSlots o index n m = writtenSlots o index n ↔
      index = o ∨ (o + 1 = n ∧ index = 0 ∧ m ∣ n - 1) := by
  have hle : o % m ≤ o := by
    rcases hm.eq_or_lt with rfl | hpos
    · rw [Int.emod_zero]
    · exact emod_le_self ho₀ hpos
  constructor
  · intro h
    by_contra hcon
    push Not at hcon
    obtain ⟨hne, hlast⟩ := hcon
    rw [evaluatedSlots_cons ho₀ ho hi₀ hi (Ne.symm hne),
      writtenSlots_cons ho₀ ho hi₀ hi (Ne.symm hne)] at h
    obtain ⟨hhead, htail⟩ := List.cons.inj h
    -- the first slot is below the one behind it unless that one is slot `0`
    have hend : o + 1 = n := by
      by_contra hlt
      rw [Int.emod_eq_of_lt (show 0 ≤ o + 1 by omega) (by omega)] at hhead
      omega
    rw [hend, Int.emod_self] at hhead htail
    have hdvd : m ∣ n - 1 := by
      have ho' : o = n - 1 := by omega
      exact ho' ▸ Int.dvd_of_emod_eq_zero hhead
    -- a second slot would be slot `0` and slot `1`
    have hzero : (0 : ℤ) ≠ index := fun hzero => hlast hend hzero.symm hdvd
    rw [evaluatedSlots_cons le_rfl (by omega) hi₀ hi hzero,
      writtenSlots_cons le_rfl (by omega) hi₀ hi hzero] at htail
    obtain ⟨hsecond, -⟩ := List.cons.inj htail
    rw [Int.zero_emod, zero_add, Int.emod_eq_of_lt (by omega) (by omega)] at hsecond
    omega
  · rintro (rfl | ⟨hend, rfl, hdvd⟩)
    · rw [evaluatedSlots_self, writtenSlots_self]
    · rcases ho₀.eq_or_lt with rfl | hpos
      · rw [evaluatedSlots_self, writtenSlots_self]
      · rw [evaluatedSlots_cons ho₀ ho hi₀ hi hpos.ne', writtenSlots_cons ho₀ ho hi₀ hi hpos.ne',
          hend, Int.emod_self, evaluatedSlots_self, writtenSlots_self]
        have hzero : o % m = 0 := Int.emod_eq_zero_of_dvd (by rwa [show o = n - 1 by omega])
        rw [hzero]

end Slots

/-! ## The way of the module through the ring -/

section Loop

variable {R : Type} [Field R] [LinearOrder R] {libm : Libm R} {clock : ℕ → ℤ}
  {s s' p : Si R} {currentRms : R} {type index : ℤ} {slots slots' : List ℤ}

namespace Si

/-- Recording does not move the module. -/
lemma stays_record (h : s.record libm clock currentRms = .ok s') : s.Stays s' := by
  rcases record_cases h with ⟨-, rfl⟩ | ⟨-, average, q, haccumulate, hcheck⟩
  · exact ⟨rfl, rfl, rfl, rfl, rfl⟩
  · obtain ⟨total, sampleCount, -, -, -, rfl⟩ := accumulate_eq haccumulate
    rcases checkTrip_cases hcheck with ⟨-, rfl⟩ | ⟨startTime, -, -, hlate⟩
    · exact ⟨rfl, rfl, rfl, rfl, rfl⟩
    · rcases hlate with ⟨-, rfl⟩ | ⟨-, r, output, -, rfl⟩ <;> exact ⟨rfl, rfl, rfl, rfl, rfl⟩

/-- An RMS value does not move the module, and needs a positive number of entries. -/
lemma stays_observe (hlen : 16 ≤ s.inputBuffer.length) (hlock : s.inputBuffer.lock = 0)
    (h : s.observe libm clock = .ok (currentRms, s')) :
    s.Stays s' ∧ (s.vector ≠ 0 → s.maxItems ≠ 0) := by
  obtain ⟨samples, input, hsamples, -, rfl⟩ := observe_eq h
  obtain ⟨rfl, hentries⟩ := readSamples_frame hlen hlock hsamples
  refine ⟨?_, hentries⟩
  rw [pickup]
  split_ifs <;> exact ⟨rfl, rfl, rfl, rfl, rfl⟩

omit [Field R] [LinearOrder R] in
/-- Passing on to the next sample. -/
lemma advance_next (h : WellFormed type 68 s.inputBuffer) (h₀ : 0 ≤ s.oldIndex)
    (h₁ : s.oldIndex < s.inputBuffer.items) :
    s.advance = .ok { s with oldIndex := (s.oldIndex + 1) % s.inputBuffer.items } := by
  have hitems := h.items_lt
  have hnext : cInt (s.oldIndex + 1) = .ok (s.oldIndex + 1) := cInt_eq_ok (by omega) (by omega)
  have hrem : cRem (s.oldIndex + 1) s.inputBuffer.items =
      .ok ((s.oldIndex + 1) % s.inputBuffer.items) := cRem_eq_ok (by omega) h.items_pos hitems
  simp only [advance, readItems_eq h.length_ge, Fallible.ok_bind, hnext, hrem]
  rfl

/-- **One turn of the loop** evaluates the slot of its position, modulo the number of entries, and
goes on to the next one. -/
lemma evaluatedNext_of_sample (slots : List ℤ) {r : Si R} (hring : WellFormed type 68 s.inputBuffer)
    (hvector : s.vector = 80) (h₀ : 0 ≤ s.oldIndex) (h₁ : s.oldIndex < s.inputBuffer.items)
    (hentries₀ : 0 ≤ s.maxItems) (hindex : s.index = some index) (hne : s.oldIndex ≠ index)
    (htrip : s.trip = false) (hobserve : s.observe libm clock = .ok (currentRms, p))
    (hrecord : p.record libm clock currentRms = .ok r) (hadvance : r.advance = .ok s') :
    s'.inputBuffer = s.inputBuffer ∧ s'.oldIndex = (s.oldIndex + 1) % s.inputBuffer.items ∧
      s'.index = s.index ∧ s'.maxItems = s.maxItems ∧ s'.vector = s.vector ∧
      evaluatedNext libm clock slots s .iteration = slots ++ [s.oldIndex % s.maxItems] := by
  obtain ⟨hp, hentries⟩ := stays_observe hring.length_ge hring.lock_eq hobserve
  have hr := stays_record hrecord
  have hbuffer : r.inputBuffer = s.inputBuffer := hr.input_eq.trans hp.input_eq
  have hold : r.oldIndex = s.oldIndex := hr.oldIndex_eq.trans hp.oldIndex_eq
  have hnext := advance_next (hbuffer ▸ hring) (hold ▸ h₀) (by rwa [hold, hbuffer])
  obtain rfl := Except.ok.inj (hnext.symm.trans hadvance)
  have hpos : 0 < s.maxItems := by
    have := hentries (by rw [hvector]; decide)
    omega
  have hslot : sampleIndex s.oldIndex s.maxItems 0 = .ok (s.oldIndex % s.maxItems) := by
    have hitems := hring.items_lt
    rw [sampleIndex_of_le hpos (by simpa using h₀) (by omega), Nat.cast_zero, sub_zero]
  refine ⟨hbuffer, by rw [hold, hbuffer], hr.index_eq.trans hp.index_eq,
    hr.maxItems_eq.trans hp.maxItems_eq, hr.vector_eq.trans hp.vector_eq, ?_⟩
  rw [evaluatedNext, evaluation_eq hindex hne htrip hobserve, hslot]

/-- Outside a call nothing is evaluated. -/
lemma exec_idle (h : s.index = none) (k : ℕ) :
    Run.exec (Run.watch (siStep libm clock) (evaluatedNext libm clock)) (s, slots)
      (List.replicate k .iteration) = .ok (s, slots) := by
  have hstep : Run.watch (siStep libm clock) (evaluatedNext libm clock) (s, slots) .iteration =
      .ok (s, slots) := by
    refine Run.watch_eq_ok.mpr ⟨?_, ?_⟩
    · simp only [siStep, iterate, h]
    · rw [evaluatedNext, evaluation_eq_none (Or.inl h)]
  induction k with
  | zero => rfl
  | succ k ih =>
    rw [List.replicate_succ]
    exact Run.exec_cons_eq_ok.mpr ⟨_, hstep, ih⟩

/-- **The loop of a call**, by induction on the number of its turns. -/
lemma loop_slots {k : ℕ} (hring : WellFormed type 68 s.inputBuffer) (hvector : s.vector = 80)
    (hentries : 0 ≤ s.maxItems) (h₀ : 0 ≤ s.oldIndex) (h₁ : s.oldIndex < s.inputBuffer.items)
    (hindex : s.index = some index) (hi₀ : 0 ≤ index) (hi₁ : index < s.inputBuffer.items)
    (hrun : Run.exec (Run.watch (siStep libm clock) (evaluatedNext libm clock)) (s, slots)
      (List.replicate k .iteration) = .ok (s', slots')) (hend : s'.index = none)
    (htrip : s'.trip = false) :
    slots' = slots ++ evaluatedSlots s.oldIndex index s.inputBuffer.items s.maxItems ∧
      s'.oldIndex = index := by
  induction k generalizing s slots with
  | zero =>
    obtain ⟨rfl, -⟩ := Prod.mk.inj (Except.ok.inj hrun)
    rw [hindex] at hend
    cases hend
  | succ k ih =>
    rw [List.replicate_succ] at hrun
    obtain ⟨⟨t, slots₁⟩, hwatch, hrest⟩ := Run.exec_cons_eq_ok.mp hrun
    obtain ⟨hstep, hslots⟩ := Run.watch_eq_ok.mp hwatch
    have hiterate : s.iterate libm clock = .ok t := hstep
    dsimp only at hslots
    rcases iterate_cases hiterate with ⟨hnone, -⟩ | ⟨i, hi, hstop, ht⟩ |
      ⟨i, currentRms, p, r, hi, hne, hfalse, hobserve, hrecord, hadvance⟩
    · rw [hindex] at hnone
      cases hnone
    · obtain rfl : index = i := Option.some.inj (hindex.symm.trans hi)
      have hidle : t.index = none := by rw [ht]
      obtain ⟨rfl, rfl⟩ := Prod.mk.inj (Except.ok.inj ((exec_idle hidle k).symm.trans hrest))
      have hfalse : s.trip = false := by
        rw [ht] at htrip
        exact htrip
      have heq : s.oldIndex = index := hstop.resolve_right (by simp [hfalse])
      refine ⟨?_, by rw [ht]; exact heq⟩
      rw [hslots, evaluatedNext, evaluation_eq_none (Or.inr ⟨index, hindex, hstop⟩), heq,
        evaluatedSlots_self, List.append_nil]
    · obtain rfl : index = i := Option.some.inj (hindex.symm.trans hi)
      obtain ⟨hbuffer, hold, htindex, hmax, htvector, hnext⟩ := evaluatedNext_of_sample
        slots hring hvector h₀ h₁ hentries hindex hne hfalse hobserve hrecord hadvance
      have hpos := hring.items_pos
      have := ih (s := t) (by rwa [hbuffer]) (htvector.trans hvector) (by rwa [hmax])
        (by rw [hold]; exact Int.emod_nonneg _ hpos.ne')
        (by rw [hold, hbuffer]; exact Int.emod_lt_of_pos _ hpos) (htindex.trans hindex)
        (by rwa [hbuffer]) hrest
      obtain ⟨hslots', hlast⟩ := this
      refine ⟨?_, hlast⟩
      rw [hslots', hslots, hnext, hold, hbuffer, hmax, evaluatedSlots_cons h₀ h₁ hi₀ hi₁ hne,
        List.append_assoc]
      rfl

omit [Field R] [LinearOrder R] in
/-- A call that finds a new index goes to the loop, and else returns at once. -/
lemma event_of_idle (hlen : 16 ≤ s.inputBuffer.length) (hidle : s.index = none) :
    s.event = .ok (if s.oldIndex = s.inputBuffer.index then s
      else { s with index := some s.inputBuffer.index }) := by
  simp only [event, hidle, readIndex_eq hlen, Fallible.ok_bind]
  split_ifs <;> (cases s; cases hidle; rfl)

/-- **What a call evaluates**: unless it trips, one RMS value for each slot from the position on to
the one before the index, taken modulo the number of entries. -/
lemma Calls.slots_eq (h : s.Calls libm clock slots s') (hring : WellFormed type 68 s.inputBuffer)
    (hvector : s.vector = 80) (hentries : 0 ≤ s.maxItems) (hidle : s.index = none)
    (h₀ : 0 ≤ s.oldIndex) (h₁ : s.oldIndex < s.inputBuffer.items) (htrip : s'.trip = false) :
    slots = evaluatedSlots s.oldIndex s.inputBuffer.index s.inputBuffer.items s.maxItems ∧
      s'.oldIndex = s.inputBuffer.index := by
  obtain ⟨hend, k, hrun⟩ := h
  obtain ⟨⟨t, slots₁⟩, hwatch, hrest⟩ := Run.exec_cons_eq_ok.mp hrun
  obtain ⟨hstep, hslots⟩ := Run.watch_eq_ok.mp hwatch
  obtain rfl : slots₁ = [] := hslots
  have hevent : s.event = .ok t := hstep
  rw [event_of_idle hring.length_ge hidle] at hevent
  obtain rfl := Except.ok.inj hevent
  split_ifs at hrest with hsame
  · obtain ⟨rfl, rfl⟩ := Prod.mk.inj (Except.ok.inj ((exec_idle hidle k).symm.trans hrest))
    exact ⟨by rw [hsame, evaluatedSlots_self], hsame⟩
  · have hloop := loop_slots (s := { s with index := some s.inputBuffer.index }) hring hvector
      hentries h₀ h₁ rfl hring.index_nonneg hring.index_lt hrest hend htrip
    simpa using hloop

end Si

end Loop

/-! ## Turns that return -/

section Ready

variable {R : Type} [Field R] [LinearOrder R] {libm : Libm R} {clock : ℕ → ℤ}
  {bufferEntries : ℤ} {s s' p : Si R} {currentRms : R} {type : ℤ}

namespace Si

/-- A module that picks up assigns its record. -/
lemma Ready.observe (h : s.Ready bufferEntries)
    (hobserve : s.observe libm clock = .ok (currentRms, p)) : p.Ready bufferEntries := by
  obtain ⟨input, rfl | ⟨-, rfl⟩⟩ := observe_cases hobserve
  · exact ⟨h.maxItems_eq, h.vector_eq, h.total_assigned, h.sampleCount_assigned,
      h.startTime_assigned, h.output⟩
  · exact ⟨h.maxItems_eq, h.vector_eq, fun _ => rfl, fun _ => rfl, fun _ => rfl, h.output⟩

/-- Writing the output keeps the output ring. -/
lemma Ready.record (h : s.Ready bufferEntries)
    (hrecord : s.record libm clock currentRms = .ok s') : s'.Ready bufferEntries := by
  rcases record_cases hrecord with ⟨-, rfl⟩ | ⟨hrecording, average, q, haccumulate, hcheck⟩
  · exact h
  · obtain ⟨total, sampleCount, -, -, -, rfl⟩ := accumulate_eq haccumulate
    have hstart := h.startTime_assigned hrecording
    rcases checkTrip_cases hcheck with ⟨-, rfl⟩ | ⟨startTime, -, -, hlate⟩
    · exact ⟨h.maxItems_eq, h.vector_eq, fun _ => rfl, fun _ => rfl, fun _ => hstart, h.output⟩
    · rcases hlate with ⟨-, rfl⟩ | ⟨-, r, output, hwrite, rfl⟩
      · exact ⟨h.maxItems_eq, h.vector_eq, fun _ => rfl, fun _ => rfl, fun _ => hstart, h.output⟩
      · refine ⟨h.maxItems_eq, h.vector_eq, fun _ => rfl, fun _ => rfl, fun _ => hstart, ?_⟩
        intro hentries
        have hout := h.output hentries
        have hwritten := Writer.write_eq (w := .bool) hout 1#8
        obtain ⟨-, rfl⟩ := Prod.mk.inj (Except.ok.inj (hwritten.symm.trans hwrite))
        exact Writable.written (w := .bool) hout _

end Si

/-- **Every step keeps what `init` provides.** -/
lemma ready_siStep (s : Si R) (i : SiInput) (s' : Si R) (h : s.Ready bufferEntries)
    (hstep : siStep libm clock s i = .ok s') : s'.Ready bufferEntries := by
  cases i with
  | input buffer =>
    obtain rfl := Except.ok.inj hstep
    exact ⟨h.maxItems_eq, h.vector_eq, h.total_assigned, h.sampleCount_assigned,
      h.startTime_assigned, h.output⟩
  | event =>
    obtain ⟨input, index, rfl⟩ := Si.event_eq hstep
    exact ⟨h.maxItems_eq, h.vector_eq, h.total_assigned, h.sampleCount_assigned,
      h.startTime_assigned, h.output⟩
  | iteration =>
    rcases Si.iterate_cases hstep with ⟨-, rfl⟩ | ⟨index, -, -, rfl⟩ |
      ⟨index, currentRms, p, r, -, -, -, hobserve, hrecord, hadvance⟩
    · exact h
    · exact ⟨h.maxItems_eq, h.vector_eq, h.total_assigned, h.sampleCount_assigned,
        h.startTime_assigned, h.output⟩
    · obtain ⟨oldIndex, input, rfl⟩ := Si.advance_eq hadvance
      have hr := (h.observe hobserve).record hrecord
      exact ⟨hr.maxItems_eq, hr.vector_eq, hr.total_assigned, hr.sampleCount_assigned,
        hr.startTime_assigned, hr.output⟩

omit [Field R] [LinearOrder R] in
/-- `init` sets up the output ring. -/
lemma ready_initSi {paramA paramB : ℤ} {input : Buffer} (hentries : bufferEntries < 2 ^ 31)
    (h : initSi R paramA paramB bufferEntries input = .ok s) : s.Ready bufferEntries := by
  have houtput : 1 ≤ bufferEntries → Writable TypeCode.bool 1 s.outputBuffer :=
    fun hpos => (headerInv_initSi hpos hentries h).writable
  obtain ⟨oldIndex, input', output, -, rfl⟩ := initSi_eq h
  exact ⟨rfl, rfl, nofun, nofun, nofun, houtput⟩

namespace Si

/-- Recording returns if the record is assigned and the output can be written. -/
lemma Ready.exists_record (h : s.Ready bufferEntries) (hentries : 1 ≤ bufferEntries)
    (libm : Libm R) (clock : ℕ → ℤ) (currentRms : R) :
    ∃ r, s.record libm clock currentRms = .ok r := by
  rw [Si.record]
  split_ifs with hrecording
  · obtain ⟨total, htotal⟩ := Option.isSome_iff_exists.mp (h.total_assigned hrecording)
    obtain ⟨sampleCount, hcount⟩ := Option.isSome_iff_exists.mp (h.sampleCount_assigned hrecording)
    obtain ⟨startTime, hstart⟩ := Option.isSome_iff_exists.mp (h.startTime_assigned hrecording)
    have hwrite : ∃ x, writeOutputBool 1 s.outputBuffer = .ok x :=
      ⟨_, Writer.write_eq (w := .bool) (h.output hentries) 1#8⟩
    obtain ⟨x, hwrite⟩ := hwrite
    simp only [accumulate, htotal, hcount, Fallible.ok_bind, checkTrip, hstart, hwrite]
    split_ifs <;> exact ⟨_, rfl⟩
  · exact ⟨s, rfl⟩

/-- **A turn of the loop returns** if the slots it computes are slots of the ring. -/
lemma Ready.exists_iterate {slots : List ℤ} (h : s.Ready bufferEntries)
    (hentries : 1 ≤ bufferEntries) (hring : WellFormed type 68 s.inputBuffer)
    (h₀ : 0 ≤ s.oldIndex) (h₁ : s.oldIndex < s.inputBuffer.items)
    (hslots : windowSlots s.oldIndex s.maxItems s.vector = .ok slots)
    (hmem : ∀ slot ∈ slots, 0 ≤ slot ∧ slot < s.inputBuffer.items) (libm : Libm R)
    (clock : ℕ → ℤ) : ∃ s', s.iterate libm clock = .ok s' := by
  rw [iterate]
  cases hindex : s.index with
  | none => exact ⟨s, rfl⟩
  | some index =>
    dsimp only
    split_ifs with hend
    · exact ⟨_, rfl⟩
    · obtain ⟨currentRms, p, hobserve⟩ : ∃ currentRms p,
          s.observe libm clock = .ok (currentRms, p) := by
        rw [Si.observe, readSamples_eq hring hslots hmem]
        exact ⟨_, _, rfl⟩
      have hp := (stays_observe hring.length_ge hring.lock_eq hobserve).1
      obtain ⟨r, hrecord⟩ := (h.observe hobserve).exists_record hentries libm clock
        currentRms
      have hr := stays_record hrecord
      have hbuffer : r.inputBuffer = s.inputBuffer := hr.input_eq.trans hp.input_eq
      have hold : r.oldIndex = s.oldIndex := hr.oldIndex_eq.trans hp.oldIndex_eq
      have hadvance := advance_next (hbuffer ▸ hring) (hold ▸ h₀) (by rwa [hold, hbuffer])
      exact ⟨_, by rw [hobserve, Fallible.ok_bind, hrecord, Fallible.ok_bind, hadvance]⟩

end Si

/-- The slots of a window at the last slot of the ring are slots of the ring, if the number of
entries is smaller than that of the ring. -/
lemma exists_windowSlots {o m n : ℤ} {v : ℕ} (hm : 0 < m) (hmn : m < n) (hn : n < 2 ^ 31)
    (ho₀ : 0 ≤ o) (ho : o < n) (hv : (v : ℤ) < 2 ^ 31) :
    ∃ slots, windowSlots o m v = .ok slots ∧ ∀ slot ∈ slots, 0 ≤ slot ∧ slot < n := by
  refine ⟨(List.range v).map fun i : ℕ => (if (i : ℤ) ≤ o then o - i else 2 ^ 32 + (o - i)) % m,
    windowSlots_eq_ok_iff.mpr fun i hi => ?_, fun slot hslot => ?_⟩
  · split_ifs with hle
    · exact sampleIndex_of_le hm hle (by omega)
    · have hmod₀ := Int.emod_nonneg (2 ^ 32 + (o - i)) hm.ne'
      have hmod₁ := Int.emod_lt_of_pos (2 ^ 32 + (o - i)) hm
      rw [sampleIndex_of_gt hm.ne' ho₀ (by omega) (by omega), wrap32,
        Int.bmod_eq_of_le_mul_two (by omega) (by omega)]
  · obtain ⟨i, -, rfl⟩ := List.mem_map.mp hslot
    have hmod₁ := Int.emod_lt_of_pos (if (i : ℤ) ≤ o then o - i else 2 ^ 32 + (o - i)) hm
    exact ⟨Int.emod_nonneg _ hm.ne', hmod₁.trans hmn⟩

end Ready

/-! ## When a call catches up -/

section CatchUp

variable {R : Type} [Field R] [LinearOrder R] {libm : Libm R} {clock : ℕ → ℤ}
  {paramA paramB bufferEntries type : ℤ} {input : Buffer} {s₀ s s' : Si R} {is : List SiInput}

namespace Si

/-- A call that has nothing to do returns. -/
lemma calls_of_caughtUp (hring : WellFormed type 68 s.inputBuffer) (hidle : s.index = none)
    (h : s.inputBuffer.index = s.oldIndex) : s.Calls libm clock [] s := by
  refine ⟨hidle, 0, Run.exec_cons_eq_ok.mpr ⟨(s, []), Run.watch_eq_ok.mpr ⟨?_, rfl⟩, rfl⟩⟩
  show s.event = .ok s
  rw [event_of_idle hring.length_ge hidle, if_pos h.symm]

/-- A turn at a slot that is not the index takes a sample and goes on to the next slot. -/
lemma Ready.exists_turn {slots : List ℤ} {index : ℤ} (h : s.Ready bufferEntries)
    (hentries : 1 ≤ bufferEntries) (hring : WellFormed type 68 s.inputBuffer)
    (h₀ : 0 ≤ s.oldIndex) (h₁ : s.oldIndex < s.inputBuffer.items)
    (hslots : windowSlots s.oldIndex s.maxItems s.vector = .ok slots)
    (hmem : ∀ slot ∈ slots, 0 ≤ slot ∧ slot < s.inputBuffer.items) (hindex : s.index = some index)
    (hne : s.oldIndex ≠ index) (htrip : s.trip = false) (libm : Libm R) (clock : ℕ → ℤ) :
    ∃ t, s.iterate libm clock = .ok t ∧ t.oldIndex = (s.oldIndex + 1) % s.inputBuffer.items ∧
      t.index = some index := by
  obtain ⟨t, ht⟩ := h.exists_iterate hentries hring h₀ h₁ hslots hmem libm clock
  have hmax₀ : 0 ≤ s.maxItems := by
    rw [h.maxItems_eq]
    exact Int.emod_nonneg _ (by decide)
  rcases iterate_cases ht with ⟨hnone, -⟩ | ⟨index', hindex', hend, -⟩ |
    ⟨index', currentRms, p, r, hindex', hne', hfalse, hobserve, hrecord, hadvance⟩
  · cases hindex.symm.trans hnone
  · obtain rfl := Option.some.inj (hindex.symm.trans hindex')
    rcases hend with hend | hend
    · exact absurd hend hne
    · cases htrip.symm.trans hend
  · obtain ⟨-, hold, hsame, -⟩ := evaluatedNext_of_sample [] hring h.vector_eq h₀ h₁ hmax₀
      hindex' hne' hfalse hobserve hrecord hadvance
    exact ⟨t, ht, hold, hsame.trans hindex⟩

/-- The call that passes from the last slot to slot `0` returns. -/
lemma Ready.exists_calls (h : s.Ready bufferEntries) (hint₀ : -2 ^ 31 ≤ bufferEntries)
    (hint₁ : bufferEntries < 2 ^ 31) (hring : WellFormed type 68 s.inputBuffer)
    (hidle : s.index = none) (htrip : s.trip = false) (hpos : 0 < s.oldIndex)
    (hlast : s.oldIndex + 1 = s.inputBuffer.items) (hzero : s.inputBuffer.index = 0)
    (hdvd : u32 bufferEntries ∣ s.inputBuffer.items - 1) (libm : Libm R) (clock : ℕ → ℤ) :
    ∃ slots s', s.Calls libm clock slots s' := by
  have hitems := hring.items_lt
  have hle : u32 bufferEntries ≤ s.inputBuffer.items - 1 := Int.le_of_dvd (by omega) hdvd
  have hne : u32 bufferEntries ≠ 0 := by
    intro h0
    rw [h0, zero_dvd_iff] at hdvd
    omega
  have hu₀ : 0 ≤ u32 bufferEntries := Int.emod_nonneg _ (by decide)
  have hentries : 1 ≤ bufferEntries := by
    unfold u32 at hle hne hu₀
    omega
  -- the event notices the new index
  have hevent : siStep libm clock s .event = .ok { s with index := some 0 } := by
    show s.event = _
    rw [event_of_idle hring.length_ge hidle, if_neg (by omega), hzero]
  -- one turn takes the sample
  obtain ⟨slots, hslots, hmem⟩ := exists_windowSlots (v := s.vector) (show 0 < s.maxItems by
      rw [h.maxItems_eq]
      omega) (show s.maxItems < s.inputBuffer.items by
      rw [h.maxItems_eq]
      omega) hitems hpos.le (by omega) (by rw [h.vector_eq]; decide)
  have hready : Ready bufferEntries { s with index := some 0 } :=
    ⟨h.maxItems_eq, h.vector_eq, h.total_assigned, h.sampleCount_assigned, h.startTime_assigned,
      h.output⟩
  obtain ⟨t, ht, hold, hsame⟩ := hready.exists_turn hentries hring hpos.le
    (by show s.oldIndex < s.inputBuffer.items; omega) hslots hmem rfl hpos.ne' htrip libm clock
  have hnext : t.oldIndex = 0 := by
    rw [hold]
    show (s.oldIndex + 1) % s.inputBuffer.items = 0
    rw [hlast, Int.emod_self]
  -- the next turn ends the loop
  have hend : t.iterate libm clock = .ok { t with index := none } := by
    simp only [iterate, hsame, hnext, true_or, if_true]
  have hrun : Run.exec (siStep libm clock) s (.event :: List.replicate 2 .iteration) =
      .ok { t with index := none } :=
    Run.exec_cons_eq_ok.mpr ⟨_, hevent, Run.exec_cons_eq_ok.mpr ⟨t, ht,
      Run.exec_cons_eq_ok.mpr ⟨_, hend, rfl⟩⟩⟩
  obtain ⟨evaluated, hwatch⟩ := Run.exists_watch hrun (evaluatedNext libm clock) []
  exact ⟨evaluated, _, rfl, 2, hwatch⟩

end Si

/-- **When a call catches up.** In every state that a run of the module reaches between two calls,
untripped and at a position of its input ring: a call that does not trip evaluates exactly the
samples written since the last call if and only if there is none, or it is the one in slot `0`
behind the last slot and the number of entries divides the number of the last slot. In these two
cases the call returns in any event.

**Proof sketch.** The loop evaluates the slots from the position on to the one before the index,
modulo the number of entries (`Si.Calls.slots_eq`), which is one step behind the slots written
(`evaluatedSlots_eq_writtenSlots_iff`). In the two cases the slots computed are slots of the ring,
so no access leaves it. -/
theorem catchesUp_iff (hint₀ : -2 ^ 31 ≤ bufferEntries) (hint₁ : bufferEntries < 2 ^ 31)
    (hinit : initSi R paramA paramB bufferEntries input = .ok s₀)
    (hrun : Run.exec (siStep libm clock) s₀ is = .ok s) (hidle : s.index = none)
    (htrip : s.trip = false) (hring : WellFormed type 68 s.inputBuffer) (h₀ : 0 ≤ s.oldIndex)
    (h₁ : s.oldIndex < s.inputBuffer.items) :
    ((∀ slots s', s.Calls libm clock slots s' → s'.trip = false) → (s.CatchesUp libm clock ↔
      s.inputBuffer.index = s.oldIndex ∨ (s.oldIndex + 1 = s.inputBuffer.items ∧
        s.inputBuffer.index = 0 ∧ u32 bufferEntries ∣ s.inputBuffer.items - 1))) ∧
    ((s.inputBuffer.index = s.oldIndex ∨ (s.oldIndex + 1 = s.inputBuffer.items ∧
        s.inputBuffer.index = 0 ∧ u32 bufferEntries ∣ s.inputBuffer.items - 1)) →
      s.CatchesUp libm clock) := by
  have hready : s.Ready bufferEntries :=
    Run.exec_invariant ready_siStep (ready_initSi hint₁ hinit) hrun
  have hentries : 0 ≤ s.maxItems := by
    rw [hready.maxItems_eq]
    exact Int.emod_nonneg _ (by decide)
  have hslots := evaluatedSlots_eq_writtenSlots_iff hentries h₀ h₁ hring.index_nonneg hring.index_lt
  rw [hready.maxItems_eq] at hslots
  -- a call that returns has caught up if the two lists agree
  have hcatches (slots : List ℤ) (s' : Si R) (hcalls : s.Calls libm clock slots s')
      (heq : evaluatedSlots s.oldIndex s.inputBuffer.index s.inputBuffer.items
        (u32 bufferEntries) = writtenSlots s.oldIndex s.inputBuffer.index s.inputBuffer.items) :
      s.CatchesUp libm clock := by
    refine ⟨slots, s', hcalls, fun htrip' => ?_⟩
    obtain ⟨hevaluated, hlast⟩ :=
      hcalls.slots_eq hring hready.vector_eq hentries hidle h₀ h₁ htrip'
    rw [hready.maxItems_eq] at hevaluated
    exact ⟨hevaluated.trans heq, hlast⟩
  have hreturns : (s.inputBuffer.index = s.oldIndex ∨ (s.oldIndex + 1 = s.inputBuffer.items ∧
      s.inputBuffer.index = 0 ∧ u32 bufferEntries ∣ s.inputBuffer.items - 1)) →
      s.CatchesUp libm clock := by
    intro hcond
    by_cases hsame : s.inputBuffer.index = s.oldIndex
    · exact hcatches [] s (Si.calls_of_caughtUp hring hidle hsame) (hslots.mpr hcond)
    · obtain ⟨hlast, hzero, hdvd⟩ := hcond.resolve_left hsame
      obtain ⟨slots, s', hcalls⟩ := hready.exists_calls hint₀ hint₁ hring hidle htrip
        (by omega) hlast hzero hdvd libm clock
      exact hcatches slots s' hcalls (hslots.mpr hcond)
  refine ⟨fun hno => ⟨?_, hreturns⟩, hreturns⟩
  rintro ⟨slots, s', hcalls, hcaught⟩
  have htrip' := hno slots s' hcalls
  obtain ⟨hwritten, -⟩ := hcaught htrip'
  obtain ⟨hevaluated, -⟩ := hcalls.slots_eq hring hready.vector_eq hentries hidle h₀ h₁ htrip'
  rw [hready.maxItems_eq] at hevaluated
  exact hslots.mp (hevaluated.symm.trans hwritten)

end CatchUp

/-! ## A ring of two samples -/

/-- **No run trips** on a clock that does not go back. -/
lemma trip_eq_false_of_exec {clock : ℕ → ℤ} {paramA paramB bufferEntries : ℤ} {input : Buffer}
    {s₀ s : Si ℝ} {is : List SiInput} (hclock : Monotone clock) (hA : 0 < paramA) (hB : 0 < paramB)
    (hinit : initSi ℝ paramA paramB bufferEntries input = .ok s₀)
    (hrun : Run.exec (siStep realLibm clock) s₀ is = .ok s) : s.trip = false := by
  have hpos : ∀ averageCurrent : ℝ, (paramB : ℝ) < averageCurrent →
      0 < tripTime realLibm (paramA : ℝ) paramB averageCurrent := by
    intro averageCurrent habove
    exact tripTime_pos (by exact_mod_cast hA) (by exact_mod_cast hB) habove
  have hstep (t : Si ℝ) (i : SiInput) (t' : Si ℝ)
      (h : t.Started clock paramA paramB ∧ t.trip = false)
      (ht : siStep realLibm clock t i = .ok t') :
      t'.Started clock paramA paramB ∧ t'.trip = false := by
    refine ⟨started_siStep hclock hpos t i t' h.1 ht, ?_⟩
    cases i with
    | input buffer =>
      obtain rfl := Except.ok.inj ht
      exact h.2
    | event =>
      obtain ⟨buffer, index, rfl⟩ := Si.event_eq ht
      exact h.2
    | iteration => exact (Si.iterate_quiet h.1 hclock hpos ht).2.trip_eq.trans h.2
  refine (Run.exec_invariant hstep ⟨started_initSi hinit, ?_⟩ hrun).2
  obtain ⟨-, -, -, -, rfl⟩ := initSi_eq hinit
  rfl

lemma wellFormed_sampleRing_zero : WellFormed TypeCode.smv92 68 (sampleRing 0) := by
  constructor <;> decide +kernel

lemma wellFormed_sampleRing_one : WellFormed TypeCode.smv92 68 (sampleRing 1) := by
  constructor <;> decide +kernel

/-- The module at slot `o` of a ring of two samples, whose index then becomes `i`. -/
lemma exists_sampleRing_run (o i : UInt8) {bufferEntries : ℤ}
    (hentries : 16 ≤ calculateBufferSize 1 bufferEntries) :
    ∃ s₀ s, initSi ℝ 1 1 bufferEntries (sampleRing o) = .ok s₀ ∧
      Run.exec (siStep realLibm millisecondClock) s₀ [.input (sampleRing i)] = .ok s ∧
      s.index = none ∧ s.trip = false ∧ s.inputBuffer = sampleRing i ∧
      s.oldIndex = (sampleRing o).index := by
  have hlen : 16 ≤ (sampleRing o).length := by
    rw [length_sampleRing]
    omega
  obtain ⟨s₀, hinit⟩ := exists_initSi_eq_ok hentries hlen
  refine ⟨s₀, { s₀ with inputBuffer := sampleRing i }, hinit, rfl, ?_⟩
  obtain ⟨oldIndex, input, output, hread, rfl⟩ := initSi_eq hinit
  obtain ⟨rfl, -⟩ := Prod.mk.inj (Except.ok.inj ((readIndex_eq hlen).symm.trans hread))
  exact ⟨rfl, rfl, rfl, rfl⟩

/-- From slot `1` to slot `0` of a ring of two samples, with an output ring of one entry. -/
theorem catchesUp_wrap : ∃ s₀ s, initSi ℝ 1 1 1 (sampleRing 1) = .ok s₀ ∧
    Run.exec (siStep realLibm millisecondClock) s₀ [.input (sampleRing 0)] = .ok s ∧
    s.CatchesUp realLibm millisecondClock := by
  obtain ⟨s₀, s, hinit, hrun, hidle, htrip, hinput, hold⟩ :=
    exists_sampleRing_run 1 0 (show 16 ≤ calculateBufferSize 1 1 by decide)
  have hring := wellFormed_sampleRing_zero
  rw [← hinput] at hring
  have hone : s.oldIndex = 1 := hold.trans (by decide +kernel)
  have htwo : s.inputBuffer.items = 2 := by
    rw [hinput]
    decide +kernel
  have hzero : s.inputBuffer.index = 0 := by
    rw [hinput]
    decide +kernel
  refine ⟨s₀, s, hinit, hrun, (catchesUp_iff (by decide) (by decide) hinit hrun hidle htrip hring
    (by omega) (by omega)).2 (Or.inr ⟨by omega, hzero, ?_⟩)⟩
  rw [htwo]
  decide

/-- **The newest sample waits**: the call that finds index `1` evaluates slot `0`. -/
theorem not_catchesUp_one : ∃ s₀ s, initSi ℝ 1 1 1 (sampleRing 0) = .ok s₀ ∧
    Run.exec (siStep realLibm millisecondClock) s₀ [.input (sampleRing 1)] = .ok s ∧
    s.index = none ∧ s.trip = false ∧ WellFormed TypeCode.smv92 68 s.inputBuffer ∧
    0 ≤ s.oldIndex ∧ s.oldIndex < s.inputBuffer.items ∧
    ¬ s.CatchesUp realLibm millisecondClock := by
  obtain ⟨s₀, s, hinit, hrun, hidle, htrip, hinput, hold⟩ :=
    exists_sampleRing_run 0 1 (show 16 ≤ calculateBufferSize 1 1 by decide)
  have hring := wellFormed_sampleRing_one
  rw [← hinput] at hring
  have hzero : s.oldIndex = 0 := hold.trans (by decide +kernel)
  have htwo : s.inputBuffer.items = 2 := by
    rw [hinput]
    decide +kernel
  have hone : s.inputBuffer.index = 1 := by
    rw [hinput]
    decide +kernel
  have hready : s.Ready 1 := Run.exec_invariant ready_siStep (ready_initSi (by decide) hinit) hrun
  have hentries : s.maxItems = 1 := hready.maxItems_eq
  refine ⟨s₀, s, hinit, hrun, hidle, htrip, hring, by omega, by omega, ?_⟩
  rintro ⟨slots, s', hcalls, hcaught⟩
  -- on this clock no call trips
  have htrip' : s'.trip = false := by
    obtain ⟨-, k, hexec⟩ := hcalls
    exact trip_eq_false_of_exec monotone_millisecondClock one_pos one_pos hinit
      (Run.exec_append_eq_ok.mpr ⟨s, hrun, Run.exec_of_watch hexec⟩)
  obtain ⟨hwritten, -⟩ := hcaught htrip'
  obtain ⟨hevaluated, -⟩ := hcalls.slots_eq hring hready.vector_eq (by omega) hidle (by omega)
    (by omega) htrip'
  rw [hevaluated, hzero, htwo, hone, hentries] at hwritten
  exact absurd hwritten (by decide)

end Tmee
