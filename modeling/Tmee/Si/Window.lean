import Tmee.Si.Event

set_option relaxedAutoImplicit false
set_option autoImplicit false

/-!
# The window of one RMS value

An RMS value is computed from the last `vector` samples. Their slots are computed modulo the number
of entries of the module's own output ring, in unsigned arithmetic, so they are those of the input
ring only if the two sizes fit together.

## Main definitions

* `Tmee.ringWindow` — the last slots of a ring.
* `Tmee.windowSlots` — the slots that the module reads.
* `Tmee.Si.ReadsWindow` — the module reads the last slots of its input ring.

## Main results

* `Tmee.readSamples_eq` — the samples read are those of `windowSlots`.
* `Tmee.readsWindow_iff` — when they are the last slots of the input ring.
-/

namespace Tmee

/-- The slots of the `v` entries up to position `o` of a ring of `n` entries, the last one first. -/
def ringWindow (o n : ℤ) (v : ℕ) : List ℤ := (List.range v).map fun i : ℕ => (o - i) % n

/-- The slots whose samples make one RMS value, as the module computes them. -/
def windowSlots (oldIndex maxItems : ℤ) : ℕ → Except Fault (List ℤ)
  | 0 => .ok []
  | n + 1 => do
    let slots ← windowSlots oldIndex maxItems n
    let index ← sampleIndex oldIndex maxItems n
    return slots ++ [index]

/-- The first word of the sample in slot `s`. -/
def sampleAt (b : Buffer) (s : ℤ) : ℤ := b.get 4 (16 + 68 * s.toNat)

namespace Si

/-- **The module reads the window of its input ring**: the slots for one RMS value are the last
`vector` slots up to its position, each of them in the ring and none twice, and the samples are
what these slots hold. -/
structure ReadsWindow {R : Type} (s : Si R) : Prop where
  slots_eq : windowSlots s.oldIndex s.maxItems s.vector =
    .ok (ringWindow s.oldIndex s.inputBuffer.items s.vector)
  in_ring : ∀ slot ∈ ringWindow s.oldIndex s.inputBuffer.items s.vector,
    0 ≤ slot ∧ slot < s.inputBuffer.items
  nodup : (ringWindow s.oldIndex s.inputBuffer.items s.vector).Nodup
  samples_eq : readSamples s.oldIndex s.maxItems s.vector s.inputBuffer =
    .ok ((ringWindow s.oldIndex s.inputBuffer.items s.vector).map (sampleAt s.inputBuffer),
      s.inputBuffer)

end Si

section Slots

variable {o m n : ℤ} {v i : ℕ}

/-- The slots computed one by one. -/
lemma windowSlots_eq_ok_iff {f : ℕ → ℤ} :
    windowSlots o m v = .ok ((List.range v).map f) ↔ ∀ i < v, sampleIndex o m i = .ok (f i) := by
  induction v with
  | zero => simp [windowSlots]
  | succ v ih =>
    rw [windowSlots, List.range_succ, List.map_append, Nat.forall_lt_succ_right, ← ih]
    constructor
    · intro h
      obtain ⟨slots, hslots, h⟩ := Fallible.bind_eq_ok.mp h
      obtain ⟨index, hindex, h⟩ := Fallible.bind_eq_ok.mp h
      obtain ⟨rfl, hlast⟩ := List.append_inj' (Except.ok.inj h) rfl
      obtain rfl : index = f v := by simpa using hlast
      exact ⟨hslots, hindex⟩
    · rintro ⟨hslots, hindex⟩
      rw [hslots, Fallible.ok_bind, hindex]
      rfl

/-- A slot behind the position, before the ring wraps around. -/
lemma sampleIndex_of_le (hm : 0 < m) (hi : (i : ℤ) ≤ o) (ho : o < 2 ^ 31) :
    sampleIndex o m i = .ok ((o - i) % m) := by
  have hsub : cInt (o - i) = .ok (o - i) := cInt_eq_ok (by omega) (by omega)
  have hu : u32 (o - i) = o - i := Int.emod_eq_of_lt (by omega) (by omega)
  have hle := emod_le_self (show 0 ≤ o - i by omega) hm
  have h₀ := Int.emod_nonneg (o - i) hm.ne'
  rw [sampleIndex, hsub, Fallible.ok_bind, if_neg hm.ne', hu, wrap32,
    Int.bmod_eq_of_le_mul_two (by omega) (by omega)]

/-- A slot behind the position, after the ring has wrapped around: the difference is negative, and
becomes a large unsigned number. -/
lemma sampleIndex_of_gt (hm : m ≠ 0) (ho : 0 ≤ o) (hi : o < i) (hi' : (i : ℤ) < 2 ^ 31) :
    sampleIndex o m i = .ok (wrap32 ((2 ^ 32 + (o - i)) % m)) := by
  have hsub : cInt (o - i) = .ok (o - i) := cInt_eq_ok (by omega) (by omega)
  have hu : u32 (o - i) = 2 ^ 32 + (o - i) := by
    unfold u32
    omega
  rw [sampleIndex, hsub, Fallible.ok_bind, if_neg hm, hu]

/-- An unsigned number is a small `int` only if it is that number. -/
lemma wrap32_eq_iff {x y : ℤ} (hx₀ : 0 ≤ x) (hx : x < 2 ^ 32) (hy₀ : 0 ≤ y) (hy : y < 2 ^ 31) :
    wrap32 x = y ↔ x = y := by
  rw [wrap32, Int.bmod_def]
  split_ifs <;> omega

/-- The remainders of the largest unsigned numbers follow one another down to zero. -/
lemma emod_of_max_emod {k : ℤ} (hm : 0 < m) (hmax : (2 ^ 32 - 1) % m = n - 1) (hk₁ : 1 ≤ k)
    (hk : k ≤ n) : (2 ^ 32 - k) % m = n - k := by
  have hlt := Int.emod_lt_of_pos (2 ^ 32 - 1) hm
  have hdiv := Int.emod_add_mul_ediv (2 ^ 32 - 1) m
  have hsplit : (2 ^ 32 - k : ℤ) = (n - k) + m * ((2 ^ 32 - 1) / m) := by omega
  rw [hsplit, Int.add_mul_emod_self_left]
  exact Int.emod_eq_of_lt (by omega) (by omega)

/-- The slots of a ring that is not shorter than the window are different. -/
lemma nodup_ringWindow (hv : (v : ℤ) ≤ n) : (ringWindow o n v).Nodup := by
  apply List.Nodup.map_on ?_ List.nodup_range
  intro i hi j hj h
  rw [List.mem_range] at hi hj
  -- equal slots are a multiple of `n` apart
  have hdvd : n ∣ (o - i) - (o - j) := Int.ModEq.dvd (Int.ModEq.symm h)
  obtain ⟨c, hc⟩ := hdvd
  rcases lt_trichotomy c 0 with hneg | rfl | hpos
  · have := mul_le_mul_of_nonneg_left (show c ≤ -1 by omega) (show 0 ≤ n by omega)
    omega
  · omega
  · have := mul_le_mul_of_nonneg_left (show 1 ≤ c by omega) (show 0 ≤ n by omega)
    omega

lemma mem_ringWindow (hn : 0 < n) : ∀ slot ∈ ringWindow o n v, 0 ≤ slot ∧ slot < n := by
  intro slot hslot
  obtain ⟨i, -, rfl⟩ := List.mem_map.mp hslot
  exact ⟨Int.emod_nonneg _ hn.ne', Int.emod_lt_of_pos _ hn⟩

/-- **The slots are those of the ring** if and only if the position is a slot of the module's own
ring as well, and either the window does not wrap around or the two sizes fit together. -/
lemma windowSlots_eq_ringWindow_iff (hm₀ : 0 ≤ m) (hm : m < 2 ^ 32) (hn : n < 2 ^ 31) (ho₀ : 0 ≤ o)
    (ho : o < n) (hv₀ : 0 < v) (hv : (v : ℤ) ≤ n) :
    windowSlots o m v = .ok (ringWindow o n v) ↔
      o < m ∧ ((v : ℤ) ≤ o + 1 ∨ (2 ^ 32 - 1) % m = n - 1) := by
  rw [ringWindow, windowSlots_eq_ok_iff]
  constructor
  · intro h
    have hne : m ≠ 0 := by
      rintro rfl
      have hzero := h 0 hv₀
      have hsub : cInt (o - (0 : ℕ)) = .ok (o - (0 : ℕ)) := cInt_eq_ok (by omega) (by omega)
      rw [sampleIndex, hsub] at hzero
      cases hzero
    have hm' : 0 < m := by omega
    -- the last sample
    have hlast : o % m = o := by
      have hzero := h 0 hv₀
      rw [sampleIndex_of_le hm' (by simpa using ho₀) (by omega)] at hzero
      have heq := Except.ok.inj hzero
      rw [Nat.cast_zero, sub_zero, Int.emod_eq_of_lt ho₀ ho] at heq
      exact heq
    have hlt : o < m := hlast ▸ Int.emod_lt_of_pos o hm'
    refine ⟨hlt, ?_⟩
    by_contra hcon
    rw [not_or, not_le] at hcon
    obtain ⟨hwraps, hmax⟩ := hcon
    -- the first sample behind the start of the ring
    have hfirst := h (o + 1).toNat (by omega)
    have hcast : (((o + 1).toNat : ℕ) : ℤ) = o + 1 := Int.toNat_of_nonneg (by omega)
    rw [sampleIndex_of_gt hne ho₀ (by omega) (by omega), hcast] at hfirst
    have heq := Except.ok.inj hfirst
    have hslot : (o - (o + 1)) % n = n - 1 := by
      have hone : o - (o + 1) = -1 := by ring
      rw [hone, Int.neg_emod_eq_sub_emod, Int.emod_eq_of_lt (by omega) (by omega)]
    have hnumber : (2 ^ 32 + (o - (o + 1)) : ℤ) = 2 ^ 32 - 1 := by ring
    rw [hslot, hnumber] at heq
    have hmod₁ := Int.emod_lt_of_pos (2 ^ 32 - 1) hm'
    have hmod₀ := Int.emod_nonneg (2 ^ 32 - 1) hne
    exact hmax ((wrap32_eq_iff hmod₀ (by omega) (by omega) (by omega)).mp heq)
  · rintro ⟨hlt, hfits⟩ i hi
    have hm' : 0 < m := by omega
    rcases le_or_gt (i : ℤ) o with hle | hgt
    · rw [sampleIndex_of_le hm' hle (by omega), Int.emod_eq_of_lt (by omega) (by omega),
        Int.emod_eq_of_lt (by omega) (by omega)]
    · have hmax : (2 ^ 32 - 1) % m = n - 1 := hfits.resolve_left (by omega)
      have hslot : (o - i) % n = n - (i - o) := by
        have hneg : o - i = (n - (i - o)) + n * (-1) := by ring
        rw [hneg, Int.add_mul_emod_self_left]
        exact Int.emod_eq_of_lt (by omega) (by omega)
      have hnumber : (2 ^ 32 + (o - i) : ℤ) = 2 ^ 32 - (i - o) := by ring
      rw [sampleIndex_of_gt hm'.ne' ho₀ hgt (by omega), hslot, hnumber,
        emod_of_max_emod hm' hmax (by omega) (by omega), wrap32]
      exact congrArg _ (Int.bmod_eq_of_le_mul_two (by omega) (by omega))

end Slots

section Read

variable {b : Buffer} {o m : ℤ} {v : ℕ} {slots : List ℤ}

/-- A sample in the ring is read. -/
lemma readInputSmv_zero_eq {type s : ℤ} (h : WellFormed type 68 b) (h₀ : 0 ≤ s) (h₁ : s < b.items) :
    readInputSmv 0 s b = .ok (sampleAt b s, b) := by
  have hfits := h.slot_fits h₀ h₁
  obtain ⟨n, rfl⟩ := Int.eq_ofNat_of_zero_le h₀
  exact readInputSmv_eq (k := 0) (by rw [Int.toNat_natCast] at hfits; omega) h.lock_eq

/-- **The samples read are those in the slots computed**, if these are slots of the ring. -/
lemma readSamples_eq {type : ℤ} (h : WellFormed type 68 b) (hslots : windowSlots o m v = .ok slots)
    (hring : ∀ slot ∈ slots, 0 ≤ slot ∧ slot < b.items) :
    readSamples o m v b = .ok (slots.map (sampleAt b), b) := by
  induction v generalizing slots with
  | zero =>
    obtain rfl := Except.ok.inj hslots
    rfl
  | succ v ih =>
    obtain ⟨first, hfirst, hslots⟩ := Fallible.bind_eq_ok.mp hslots
    obtain ⟨index, hindex, hslots⟩ := Fallible.bind_eq_ok.mp hslots
    obtain rfl := Except.ok.inj hslots
    simp only [List.mem_append, List.mem_singleton] at hring
    obtain ⟨h₀, h₁⟩ := hring index (Or.inr rfl)
    rw [readSamples, bufM_bind_ok (ih hfirst fun slot hslot => hring slot (Or.inl hslot)),
      bufM_lift_ok hindex, bufM_bind_ok (readInputSmv_zero_eq h h₀ h₁), List.map_append]
    rfl

end Read

/-- **The window of an RMS value** is that of the input ring if and only if the position is below
`buffer_entries`, and either the window does not reach behind the start of the ring or the largest
unsigned number leaves the remainder `items - 1` when divided by `buffer_entries`.

**Proof sketch.** The newest slot is the position modulo `buffer_entries`, and the first one behind
the start of the ring is the largest unsigned number modulo `buffer_entries`; the slots behind it
follow one another down. -/
theorem readsWindow_iff {R : Type} {s : Si R} {type bufferEntries : ℤ}
    (hring : WellFormed type 68 s.inputBuffer) (hentries : s.maxItems = u32 bufferEntries)
    (hvector₀ : 0 < s.vector) (hvector : (s.vector : ℤ) ≤ s.inputBuffer.items)
    (h₀ : 0 ≤ s.oldIndex) (h₁ : s.oldIndex < s.inputBuffer.items) :
    s.ReadsWindow ↔ s.oldIndex < u32 bufferEntries ∧ ((s.vector : ℤ) ≤ s.oldIndex + 1 ∨
      (2 ^ 32 - 1) % u32 bufferEntries = s.inputBuffer.items - 1) := by
  have hm₀ : 0 ≤ u32 bufferEntries := Int.emod_nonneg _ (by decide)
  have hm : u32 bufferEntries < 2 ^ 32 := Int.emod_lt_of_pos _ (by decide)
  have hslots := windowSlots_eq_ringWindow_iff hm₀ hm hring.items_lt h₀ h₁ hvector₀ hvector
  rw [← hentries] at hslots ⊢
  rw [← hslots]
  constructor
  · exact Si.ReadsWindow.slots_eq
  · intro h
    have hmem := mem_ringWindow (o := s.oldIndex) (v := s.vector) hring.items_pos
    exact ⟨h, hmem, nodup_ringWindow hvector, readSamples_eq hring h hmem⟩

/-- A sample ring of 80 entries without a current. -/
def silentRing (index : UInt8) : Buffer where
  bytes := [68, 0, 0, 0, 80, 0, 0, 0, index, 0, 0, 0, 68, 0, 0, 0] ++ List.replicate 5440 0
  length_lt := by
    rw [List.length_append, List.length_replicate]
    exact (by decide : 16 + 5440 < 2 ^ 31)

/-- The module on a sample ring of 80 entries, right after `init`. -/
lemma initSi_silentRing {bufferEntries : ℤ} {index : UInt8}
    (hentries : 16 ≤ calculateBufferSize 1 bufferEntries) (hlen : 16 ≤ (silentRing index).length) :
    ∃ s, initSi ℚ 2 800 bufferEntries (silentRing index) = .ok s ∧ s.vector = 80 ∧
      s.maxItems = u32 bufferEntries ∧ s.inputBuffer = silentRing index ∧
      s.oldIndex = (silentRing index).index := by
  obtain ⟨s, hs⟩ := exists_initSi_eq_ok hentries hlen
  refine ⟨s, hs, ?_⟩
  obtain ⟨oldIndex, input, output, hread, rfl⟩ := initSi_eq hs
  obtain ⟨rfl, rfl⟩ := Prod.mk.inj (Except.ok.inj ((readIndex_eq hlen).symm.trans hread))
  exact ⟨rfl, rfl, rfl, rfl⟩

/-- An input ring of 80 entries and an output ring of 100, at the last slot. -/
theorem readsWindow_lastSlot : ∃ s, initSi ℚ 2 800 100 (silentRing 79) = .ok s ∧
    (s.ReadsWindow ↔ s.oldIndex < u32 100 ∧ ((s.vector : ℤ) ≤ s.oldIndex + 1 ∨
      (2 ^ 32 - 1) % u32 100 = s.inputBuffer.items - 1)) := by
  have hring : WellFormed TypeCode.smv92 68 (silentRing 79) := by
    constructor <;> decide +kernel
  have hentries : 16 ≤ calculateBufferSize 1 100 := by decide
  obtain ⟨s, hs, hvector, hmax, hinput, hold⟩ := initSi_silentRing hentries hring.length_ge
  have hitems : (silentRing 79).items = 80 := by decide +kernel
  rw [← hinput] at hring hitems
  rw [← hinput] at hold
  refine ⟨s, hs, readsWindow_iff hring hmax (by omega) (by omega) ?_ ?_⟩
  · exact hold ▸ hring.index_nonneg
  · exact hold ▸ hring.index_lt

/-- **With the ten entries of `SI.ini` the window is wrong**: at position 20 of a ring of 80
entries the newest sample of the window is the one in slot 0. -/
theorem not_readsWindow_ten : ∃ s, initSi ℚ 2 800 10 (silentRing 20) = .ok s ∧
    WellFormed TypeCode.smv92 68 s.inputBuffer ∧ (s.vector : ℤ) ≤ s.inputBuffer.items ∧
    ¬ s.ReadsWindow := by
  have hring : WellFormed TypeCode.smv92 68 (silentRing 20) := by
    constructor <;> decide +kernel
  have hentries : 16 ≤ calculateBufferSize 1 10 := by decide
  obtain ⟨s, hs, hvector, hmax, hinput, hold⟩ := initSi_silentRing hentries hring.length_ge
  have hitems : (silentRing 20).items = 80 := by decide +kernel
  have hindex : (silentRing 20).index = 20 := by decide +kernel
  rw [hindex] at hold
  refine ⟨s, hs, hinput ▸ hring, by rw [hinput, hvector, hitems]; decide, fun h => ?_⟩
  have hslots := h.slots_eq
  rw [ringWindow, windowSlots_eq_ok_iff] at hslots
  have hnewest := hslots 0 (by rw [hvector]; decide)
  rw [hold, hmax, hinput, hitems] at hnewest
  exact absurd hnewest (by decide)

end Tmee
