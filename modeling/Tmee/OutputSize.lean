import Tmee.Si.Event
import Tmee.Subscriber.Listeners

set_option relaxedAutoImplicit false
set_option autoImplicit false

/-!
# The number of entries of an output ring

`buffer_entries` is taken from the configuration as it is. The size of the mapping is computed from
it in `int`, and the number itself is kept as a `uint32_t`, by which the index of every store is
reduced.

## Main definitions

* `Tmee.OutputSafe` — `init` does not get a mapping, or all stores are inside the one it gets.
* `Tmee.storeTrip` — a store of the protection module.

## Main results

* `Tmee.exec_feed_iff` — when all stores of a subscriber are inside the mapping.
* `Tmee.outputSafe_iff` — the numbers of entries that are safe.
-/

namespace Tmee

/-- **The output ring is safe**: either the mapping is refused, so that `init` does not return, or
`init` returns and every history of stores runs to its end, without a remainder by zero and without
an access outside the mapping. -/
def OutputSafe {σ ι : Type} (itemSize bufferEntries : ℤ) (init : Except Fault σ)
    (step : σ → ι → Except Fault σ) : Prop :=
  mmapNew (calculateBufferSize itemSize bufferEntries) = none ∨
    ∃ d, init = .ok d ∧ ∀ is, ∃ t, Run.exec step d is = .ok t

/-- A call of `write_output_bool` by the protection module. -/
def storeTrip {R : Type} (s : Si R) (value : BitVec 8) : Except Fault (Si R) := do
  let (_, output) ← writeOutputBool value s.outputBuffer
  return { s with outputBuffer := output }

/-! ## Sizes in 32 bits -/

section Size

variable {size : ℕ} {n : ℤ}

/-- Where the mapping is refused. -/
lemma mmapNew_eq_none_iff : mmapNew (calculateBufferSize size n) = none ↔
    calculateBufferSize size n ≤ 0 := by
  constructor
  · intro h
    by_contra hpos
    obtain ⟨b, hb⟩ := exists_mmapNew (show 0 < calculateBufferSize size n by omega)
    rw [h] at hb
    cases hb
  · intro h
    exact dif_neg (by omega)

/-- The size computed is that of the ring for the number as a `uint32_t` if and only if that is a
positive `int` and nothing wraps around. -/
lemma fits_iff (hsize : 0 < size) (hn₀ : -2 ^ 31 ≤ n) (hn₁ : n < 2 ^ 31)
    (hlen : 16 ≤ calculateBufferSize size n) :
    (0 < u32 n ∧ 16 + size * u32 n ≤ calculateBufferSize size n) ↔
      1 ≤ n ∧ 16 + size * n < 2 ^ 31 := by
  have hlt : calculateBufferSize size n < 2 ^ 31 := Int.bmod_lt (by decide)
  have hmul (m : ℤ) (hm : 0 ≤ m) : m ≤ size * m := by
    have := mul_le_mul_of_nonneg_right (show (1 : ℤ) ≤ size by omega) hm
    omega
  rcases lt_or_ge n 0 with hneg | hpos
  · have hu : u32 n = n + 2 ^ 32 := by
      unfold u32
      omega
    have := hmul (u32 n) (by omega)
    constructor
    · rintro ⟨-, hfits⟩
      omega
    · rintro ⟨hone, -⟩
      omega
  · have hu : u32 n = n := Int.emod_eq_of_lt hpos (by omega)
    rw [hu]
    constructor
    · rintro ⟨hone, hfits⟩
      exact ⟨hone, by omega⟩
    · rintro ⟨hone, hfits⟩
      refine ⟨hone, le_of_eq ?_⟩
      have := hmul n (by omega)
      rw [calculateBufferSize, wrap32]
      exact (Int.bmod_eq_of_le_mul_two (by push_cast; omega) (by push_cast; omega)).symm

end Size

/-! ## The subscribers -/

section Feed

variable {size length : ℕ} {m : ℤ} {d : Subscriber} {fs : List (Option (ℤ → BufM Unit))}

/-- A slot of a ring that fits lies inside the mapping. -/
lemma slotOffset_of_fits {s : ℤ} (hlength : length < 2 ^ 31) (hfits : 16 + size * m ≤ length)
    (h₀ : 0 ≤ s) (h₁ : s < m) : slotOffset size s + size ≤ length := by
  have hmul : size * (s + 1) ≤ size * m := mul_le_mul_of_nonneg_left (by omega) (by omega)
  have hexp : size * (s + 1) = s * size + size := by ring
  have hnonneg := mul_nonneg h₀ (Int.natCast_nonneg size)
  have hwrap : u32 (s * size) = s * size := Int.emod_eq_of_lt hnonneg (by omega)
  rw [slotOffset, hwrap]
  omega

/-- Stores into a ring that fits run to their end. -/
lemma exec_feed_of_fits (h : StoreInv size m length d) (hm : 0 < m) (hm' : m < 2 ^ 32)
    (hlen : 16 ≤ length) (hlength : length < 2 ^ 31) (hfits : 16 + size * m ≤ length)
    (hfs : ∀ fill, some fill ∈ fs → FillsSlot size fill) : ∃ t, Run.exec feed d fs = .ok t := by
  rw [exec_feed_isOk_iff h hm hm' hlen hfs]
  intro k _ _
  exact slotOffset_of_fits hlength hfits (Int.emod_nonneg _ hm.ne') (Int.emod_lt_of_pos _ hm)

/-- A store keeps the number of slots. -/
lemma maxItems_of_feed (d : Subscriber) (f : Option (ℤ → BufM Unit)) (d' : Subscriber)
    (hm : d.maxItems = m) (h : feed d f = .ok d') : d'.maxItems = m := by
  cases f with
  | none =>
    obtain rfl := Except.ok.inj h
    exact hm
  | some fill =>
    rw [feed, storeMessage] at h
    split_ifs at h
    simp only at h
    split at h
    · cases h
    · split at h
      · cases h
      · rw [← Except.ok.inj h]
        exact hm

/-- Without slots the first store divides by zero. -/
lemma not_exec_feed_zero (hzero : d.maxItems = 0) {fill : ℤ → BufM Unit} :
    ¬ ∃ t, Run.exec feed d (fs ++ [some fill]) = .ok t := by
  rintro ⟨t, ht⟩
  obtain ⟨t', hpre, hlast⟩ := Run.exec_concat_eq_ok.mp ht
  have hmax := Run.exec_invariant maxItems_of_feed hzero hpre
  rw [feed, storeMessage, if_pos hmax] at hlast
  cases hlast

/-- In a ring that does not fit, the first store into a slot that ends behind the mapping faults.

**Proof sketch.** The slot number is the number of slots that the mapping has room for. Its offset
does not wrap around, since it still lies inside the mapping. -/
lemma not_exec_feed (h : StoreInv size m length d) (hzero : d.raised = 0) (hsize : 0 < size)
    (hm : 0 < m) (hm' : m < 2 ^ 32) (hlen : 16 ≤ length) (hlength : length < 2 ^ 31)
    (hexceeds : length < 16 + size * m) {fill : ℤ → BufM Unit} (hfill : FillsSlot size fill)
    (hfs : ∀ fill, some fill ∈ fs → FillsSlot size fill)
    (hcount : fs.countP Option.isSome = (length - 16) / size) :
    ¬ ∃ t, Run.exec feed d (fs ++ [some fill]) = .ok t := by
  rintro ⟨t, ht⟩
  obtain ⟨t', hpre, hlast⟩ := Run.exec_concat_eq_ok.mp ht
  obtain ⟨hinv, hraised⟩ := storeInv_of_exec h hm hm' hlen hfs hpre
  obtain ⟨hslot, -⟩ := storeMessage_of_ok hinv hm hm' hlen hfill hlast
  rw [hraised, hzero, zero_add, hcount] at hslot
  set k := (length - 16) / size with hk
  have hle : k * size ≤ length - 16 := Nat.div_mul_le_self _ _
  have hgt : length - 16 < k * size + size := by
    have := Nat.lt_div_mul_add hsize (a := length - 16)
    rwa [← hk] at this
  have hkm : (k : ℤ) < m := by
    by_contra hcon
    have hmul : size * m ≤ size * k := mul_le_mul_of_nonneg_left (by omega) (by omega)
    have hcomm : (size * k : ℤ) = ((k * size : ℕ) : ℤ) := by
      push_cast
      ring
    omega
  have hwrap : u32 ((k : ℤ) * size) = ((k * size : ℕ) : ℤ) := by
    push_cast
    exact Int.emod_eq_of_lt (by positivity) (by exact_mod_cast (by omega : k * size < 2 ^ 32))
  rw [Int.emod_eq_of_lt (Int.natCast_nonneg k) hkm, slotOffset, hwrap, Int.toNat_natCast] at hslot
  omega

end Feed

section Listener

variable {σ ι : Type} {κ : Type*} {step : σ → ι → Except Fault σ} {subscriber : σ → Subscriber}
  {key : σ → κ} {next : κ → ι → κ} {lab : κ → ι → Option (ℤ → BufM Unit)} {size : ℕ} {type n : ℤ}
  {init : Except Fault σ}

/-- **A subscriber is safe** if and only if the mapping is refused or the ring fits, for a listener
in lockstep with the stores that can be made to store any number of messages. -/
lemma outputSafe_iff_of_lockstep (hlockstep : Run.Lockstep step feed subscriber key next lab)
    (hsize : typeToItemSize type = size) (hpos : 0 < size) (hfour : 4 ∣ size)
    (hn₀ : -2 ^ 31 ≤ n) (hn₁ : n < 2 ^ 31)
    (hinit : ∀ s, init = .ok s → initSubscriber type n = .ok (subscriber s))
    (hinit' : ∀ d, initSubscriber type n = .ok d → ∃ s, init = .ok s)
    (hfills : ∀ s, init = .ok s → ∀ is fill, some fill ∈ Run.labels next lab (key s) is →
      FillsSlot size fill)
    (hmany : ∀ s, init = .ok s → ∀ k, ∃ is fs fill, Run.labels next lab (key s) is =
      fs ++ [some fill] ∧ fs.countP Option.isSome = k) :
    OutputSafe size n init step ↔
      calculateBufferSize size n ≤ 0 ∨ (1 ≤ n ∧ 16 + size * n < 2 ^ 31) := by
  rw [OutputSafe, mmapNew_eq_none_iff]
  by_cases hzero : calculateBufferSize size n ≤ 0
  · simp only [hzero, true_or]
  simp only [hzero, false_or]
  have hlt : calculateBufferSize size n < 2 ^ 31 := Int.bmod_lt (by decide)
  by_cases hlen : 16 ≤ calculateBufferSize size n
  · obtain ⟨d, hd, hinv, hraised⟩ := exists_initSubscriber hsize hlen
    obtain ⟨s, hs⟩ := hinit' d hd
    obtain rfl : d = subscriber s := Except.ok.inj (hd.symm.trans (hinit s hs))
    have hm' : u32 n < 2 ^ 32 := Int.emod_lt_of_pos _ (by decide)
    rw [← fits_iff hpos hn₀ hn₁ hlen]
    constructor
    · rintro ⟨s', hs', hruns⟩
      obtain rfl : s = s' := Except.ok.inj (hs.symm.trans hs')
      -- enough messages to reach the end of the mapping
      obtain ⟨is, fs, fill, hlabels, hcount⟩ :=
        hmany s hs (((calculateBufferSize size n).toNat - 16) / size)
      obtain ⟨t, ht⟩ := hruns is
      have hfeed := hlockstep.exec ht
      have hmem := hfills s hs is
      rw [hlabels] at hfeed hmem
      have hm : 0 < u32 n := by
        by_contra hcon
        have hmod : u32 n = 0 := le_antisymm (by omega) (Int.emod_nonneg _ (by decide))
        exact not_exec_feed_zero (hinv.maxItems_eq.trans hmod) ⟨_, hfeed⟩
      refine ⟨hm, ?_⟩
      by_contra hexceeds
      exact not_exec_feed hinv hraised hpos hm hm' (by omega) (by omega) (by omega)
        (hmem fill (by simp)) (fun f hf => hmem f (List.mem_append_left _ hf)) hcount
        ⟨_, hfeed⟩
    · rintro ⟨hm, hfits⟩
      refine ⟨s, hs, fun is => ?_⟩
      obtain ⟨u, hu⟩ := exec_feed_of_fits hinv hm hm' (by omega) (by omega) (by omega)
        (hfills s hs is)
      exact hlockstep.exists_exec hu
  · constructor
    · rintro ⟨s, hs, -⟩
      exact absurd (le_of_initSubscriber hsize hfour (hinit s hs)) hlen
    · rintro ⟨hone, hfits⟩
      exfalso
      apply hlen
      have hmul := mul_nonneg (Int.natCast_nonneg size) (show 0 ≤ n by omega)
      rw [calculateBufferSize, wrap32, Int.bmod_eq_of_le_mul_two (by push_cast; omega)
        (by push_cast; omega)]
      omega

/-- Sampled values. -/
lemma svOutputSafe_iff (hn₀ : -2 ^ 31 ≤ n) (hn₁ : n < 2 ^ 31) :
    OutputSafe 68 n (initSubscriber TypeCode.smv92 n) svUpdateListener ↔
      calculateBufferSize 68 n ≤ 0 ∨ (1 ≤ n ∧ 16 + 68 * n < 2 ^ 31) := by
  have hsize : typeToItemSize TypeCode.smv92 = (68 : ℕ) := rfl
  have hitem (d : Subscriber) (h : initSubscriber TypeCode.smv92 n = .ok d) : d.itemSize = 68 := by
    obtain ⟨d', hd', hinv, -⟩ :=
      exists_initSubscriber hsize (le_of_initSubscriber hsize (by decide) h)
    obtain rfl := Except.ok.inj (hd'.symm.trans h)
    exact hinv.itemSize_eq
  refine outputSafe_iff_of_lockstep lockstep_svUpdateListener hsize (by decide) (by decide) hn₀ hn₁
    (fun _ h => h) (fun d h => ⟨d, h⟩) (fun d h is fill hmem => ?_) (fun d h k => ?_)
  · rw [labels_asduFill, hitem d h] at hmem
    obtain ⟨asdu, -, hasdu⟩ := List.mem_map.mp hmem
    rw [asduFill] at hasdu
    split_ifs at hasdu with hfits
    rw [← Option.some.inj hasdu]
    exact fillsSlot_storeAsdu hfits
  · have hfits : sampleAsdu.Fits 68 := by decide
    refine ⟨List.replicate (k + 1) sampleAsdu, List.replicate k (some (storeAsdu sampleAsdu)),
      storeAsdu sampleAsdu, ?_, ?_⟩
    · rw [labels_asduFill, hitem d h, List.map_replicate, asduFill, if_pos hfits,
        List.replicate_succ']
    · rw [List.countP_replicate, if_pos (by rfl)]

/-- Messages without values, each with a state number of its own. -/
def freshMessages : BitVec 32 → ℕ → List GooseMessage
  | _, 0 => []
  | stNum, k + 1 => ⟨stNum + 1, [], Nat.zero_le _⟩ :: freshMessages (stNum + 1) k

/-- Every message with a new state number is stored. -/
lemma labels_freshMessages (stNum : BitVec 32) (k : ℕ) :
    Run.labels (fun _ message => message.stNum) gooseFill stNum (freshMessages stNum k) =
      List.replicate k (some (printToBuffer [])) := by
  induction k generalizing stNum with
  | zero => rfl
  | succ k ih =>
    have hnew : stNum + 1 ≠ stNum := by bv_omega
    rw [freshMessages, Run.labels, gooseFill, if_pos hnew, ih, List.replicate_succ]

/-- GOOSE. -/
lemma gooseOutputSafe_iff (hn₀ : -2 ^ 31 ≤ n) (hn₁ : n < 2 ^ 31) :
    OutputSafe 1024 n (initGoose n) gooseListener ↔
      calculateBufferSize 1024 n ≤ 0 ∨ (1 ≤ n ∧ 16 + 1024 * n < 2 ^ 31) := by
  have hsize : typeToItemSize TypeCode.goose = (1024 : ℕ) := rfl
  refine outputSafe_iff_of_lockstep lockstep_gooseListener hsize (by decide) (by decide) hn₀ hn₁
    (fun g h => (initGoose_eq_ok h).1) (fun d h => ⟨⟨d, 0⟩, initGooseIn_eq_ok.mpr ⟨h, rfl⟩⟩)
    (fun g _ is fill hmem => fillsSlot_of_mem_gooseFill hmem) (fun g _ k => ?_)
  refine ⟨freshMessages g.oldStNum (k + 1), List.replicate k (some (printToBuffer [])),
    printToBuffer [], ?_, ?_⟩
  · rw [labels_freshMessages, List.replicate_succ']
  · rw [List.countP_replicate, if_pos (by rfl)]

end Listener

/-! ## The protection module -/

section Si

variable {b b' : Buffer} {r : ℤ} {u : Unit}

lemma length_of_store {w : ℕ} {a v : ℤ} (h : store w a v b = .ok (u, b')) :
    b'.length = b.length := by
  rw [store] at h
  split_ifs at h
  obtain ⟨-, rfl⟩ := Prod.mk.inj (Except.ok.inj h)
  exact Buffer.length_put _ _ _ _

lemma length_of_lockBuffer (h : lockBuffer 1 b = .ok (r, b')) : b'.length = b.length := by
  obtain ⟨semaphore, c₁, hload, hrest⟩ := bufM_bind_eq_ok h
  rw [if_neg one_ne_zero] at hrest
  split_ifs at hrest with hset
  · cases hrest
  · obtain ⟨x, c₂, hstore, hlast⟩ := bufM_bind_eq_ok hrest
    obtain ⟨-, rfl⟩ := Prod.mk.inj (Except.ok.inj hlast)
    rw [length_of_store hstore, load_frame hload]

lemma length_of_freeBufferLock (h : freeBufferLock b = .ok (r, b')) : b'.length = b.length := by
  obtain ⟨semaphore, c₁, hload, hrest⟩ := bufM_bind_eq_ok h
  split_ifs at hrest with hfree
  · obtain ⟨-, rfl⟩ := Prod.mk.inj (Except.ok.inj hrest)
    rw [load_frame hload]
  · obtain ⟨x, c₂, hstore, hlast⟩ := bufM_bind_eq_ok hrest
    obtain ⟨-, rfl⟩ := Prod.mk.inj (Except.ok.inj hlast)
    rw [length_of_store hstore, load_frame hload]

/-- A header write keeps the length of the mapping. -/
lemma length_of_locked_store {w : ℕ} {a v : ℤ} (h : locked (store w a v) b = .ok (u, b')) :
    b'.length = b.length := by
  obtain ⟨x, c₁, hlock, hrest₁⟩ := bufM_bind_eq_ok h
  obtain ⟨y, c₂, hstore, hrest₂⟩ := bufM_bind_eq_ok hrest₁
  obtain ⟨z, c₃, hfree, hlast⟩ := bufM_bind_eq_ok hrest₂
  obtain ⟨-, rfl⟩ := Prod.mk.inj (Except.ok.inj hlast)
  rw [length_of_freeBufferLock hfree, length_of_store hstore, length_of_lockBuffer hlock]

lemma length_of_siHeader {type size items : ℤ} (h : siHeader type size items b = .ok (u, b')) :
    b'.length = b.length := by
  obtain ⟨x, c₁, htype, hrest₁⟩ := bufM_bind_eq_ok h
  obtain ⟨y, c₂, hsize, hrest₂⟩ := bufM_bind_eq_ok hrest₁
  obtain ⟨z, c₃, hitems, hindex⟩ := bufM_bind_eq_ok hrest₂
  rw [length_of_locked_store hindex, length_of_locked_store hitems, length_of_locked_store hsize,
    length_of_locked_store htype]

/-- A mapping that ends before the header does faults when it is written. -/
lemma length_ge_of_writeOutput {type size : ℤ} {put : ℤ → BufM Unit} {x : Option ℤ × Buffer}
    (h : writeOutput type size put b = .ok x) : 16 ≤ b.length := by
  obtain ⟨type', c, htype, -⟩ := bufM_bind_eq_ok h
  obtain ⟨word, c', hload, -⟩ := bufM_bind_eq_ok htype
  rw [load] at hload
  split_ifs at hload with hfits
  omega

variable {R : Type} {paramA paramB n : ℤ} {input : Buffer} {s : Si R}

/-- The header of a `BOOL` ring without entries. -/
def noEntries : Buffer where
  bytes := [1, 0, 0, 0, 0, 0, 0, 0, 0, 0, 0, 0, 1, 0, 0, 0]
  length_lt := by simp

/-- Without entries the first store divides by zero. -/
lemma writeOutputBool_of_noEntries (h : initSi R paramA paramB 0 input = .ok s) :
    writeOutputBool 1 s.outputBuffer = .error .divideByZero := by
  obtain ⟨output, hmap, hheader⟩ := initSi_output h
  obtain rfl := Option.some.inj hmap
  have hempty : siHeader TypeCode.bool 1 0 ⟨List.replicate 16 0, by simp⟩ =
      .ok ((), noEntries) := by
    decide +kernel
  obtain ⟨-, houtput⟩ := Prod.mk.inj (Except.ok.inj (hempty.symm.trans hheader))
  rw [← houtput]
  decide +kernel

/-- Any stores into an output ring run to their end. -/
lemma exec_storeTrip {values : List (BitVec 8)} (h : HeaderInv TypeCode.bool 1 n s.outputBuffer) :
    ∃ t, Run.exec storeTrip s values = .ok t := by
  induction values generalizing s with
  | nil => exact ⟨s, rfl⟩
  | cons value values ih =>
    obtain ⟨r, output, hwrite, hinv⟩ := h.write .bool value
    obtain ⟨t, ht⟩ := ih (s := { s with outputBuffer := output }) hinv
    have hstore : storeTrip s value = .ok { s with outputBuffer := output } :=
      Fallible.bind_eq_ok.mpr ⟨(r, output), hwrite, rfl⟩
    exact ⟨t, Run.exec_cons_eq_ok.mpr ⟨_, hstore, ht⟩⟩

/-- The protection module. -/
lemma siOutputSafe_iff (hn₀ : -2 ^ 31 ≤ n) (hn₁ : n < 2 ^ 31) (hinput : 16 ≤ input.length) :
    OutputSafe 1 n (initSi R paramA paramB n input) storeTrip ↔
      calculateBufferSize 1 n ≤ 0 ∨ (1 ≤ n ∧ 16 + 1 * n < 2 ^ 31) := by
  have hnone : mmapNew (calculateBufferSize ((1 : ℕ) : ℤ) n) = none ↔
      calculateBufferSize ((1 : ℕ) : ℤ) n ≤ 0 := mmapNew_eq_none_iff
  rw [Nat.cast_one] at hnone
  rw [OutputSafe, hnone]
  by_cases hzero : calculateBufferSize 1 n ≤ 0
  · simp only [hzero, true_or]
  simp only [hzero, false_or]
  have hsize : calculateBufferSize 1 n = 16 + n ∧ 16 + n < 2 ^ 31 := by
    unfold calculateBufferSize wrap32 at *
    rw [Int.bmod_def] at *
    split_ifs at hzero ⊢ <;> omega
  constructor
  · rintro ⟨s, hs, hruns⟩
    obtain ⟨t, ht⟩ := hruns [1]
    obtain ⟨s', hstore, -⟩ := Run.exec_cons_eq_ok.mp ht
    obtain ⟨⟨x, output⟩, hwrite, -⟩ := Fallible.bind_eq_ok.mp hstore
    obtain ⟨output₀, hmap, hheader⟩ := initSi_output hs
    -- the header has been written, and the store reads it
    have hlen : 16 ≤ calculateBufferSize 1 n := by
      have hge := length_ge_of_writeOutput hwrite
      have hmapped := length_mmapNew hmap
      have hsame := length_of_siHeader hheader
      omega
    refine ⟨?_, by omega⟩
    by_contra hcon
    obtain rfl : n = 0 := by omega
    rw [writeOutputBool_of_noEntries hs] at hwrite
    cases hwrite
  · rintro ⟨hone, hfits⟩
    obtain ⟨s, hs⟩ : ∃ s, initSi R paramA paramB n input = .ok s :=
      exists_initSi_eq_ok (by omega) hinput
    exact ⟨s, hs, fun values => exec_storeTrip (headerInv_initSi hone hn₁ hs)⟩

end Si

/-- **The numbers of entries that are safe.** For every `buffer_entries` that is an `int`: the
output ring of each of the three modules is safe if and only if the size computed in 32 bits is not
positive, so that there is no mapping, or there is at least one entry and the size does not
overflow.

**Proof sketch.** If the ring fits, every slot lies inside the mapping. If it does not, either
there are no entries and the first store divides by zero, or the slot behind the mapping has a
number below the number of entries, and enough stores get there. -/
theorem outputSafe_iff (R : Type) (paramA paramB : ℤ) {n : ℤ} {input : Buffer}
    (hn₀ : -2 ^ 31 ≤ n) (hn₁ : n < 2 ^ 31) (hinput : 16 ≤ input.length) :
    (OutputSafe 68 n (initSubscriber TypeCode.smv92 n) svUpdateListener ↔
      calculateBufferSize 68 n ≤ 0 ∨ (1 ≤ n ∧ 16 + 68 * n < 2 ^ 31)) ∧
    (OutputSafe 1024 n (initGoose n) gooseListener ↔
      calculateBufferSize 1024 n ≤ 0 ∨ (1 ≤ n ∧ 16 + 1024 * n < 2 ^ 31)) ∧
    (OutputSafe 1 n (initSi R paramA paramB n input) storeTrip ↔
      calculateBufferSize 1 n ≤ 0 ∨ (1 ≤ n ∧ 16 + 1 * n < 2 ^ 31)) :=
  ⟨svOutputSafe_iff hn₀ hn₁, gooseOutputSafe_iff hn₀ hn₁, siOutputSafe_iff hn₀ hn₁ hinput⟩

/-- The safe numbers are those of rings of 4000 entries. -/
theorem outputSafe_4000 :
    OutputSafe 68 4000 (initSubscriber TypeCode.smv92 4000) svUpdateListener ∧
      OutputSafe 1024 4000 (initGoose 4000) gooseListener ∧
      OutputSafe 1 4000 (initSi ℚ 2 800 4000 ⟨List.replicate 16 0, by decide⟩) storeTrip := by
  have hinput : 16 ≤ (⟨List.replicate 16 0, by decide⟩ : Buffer).length := by decide
  obtain ⟨hsv, hgoose, hsi⟩ := outputSafe_iff ℚ 2 800 (show -2 ^ 31 ≤ (4000 : ℤ) by decide)
    (by decide) hinput
  exact ⟨hsv.mpr (Or.inr (by decide)), hgoose.mpr (Or.inr (by decide)),
    hsi.mpr (Or.inr (by decide))⟩

/-- **Without entries no module is safe**: `init` returns, and the first store divides by zero. -/
theorem not_outputSafe_zero :
    ¬ OutputSafe 68 0 (initSubscriber TypeCode.smv92 0) svUpdateListener ∧
      ¬ OutputSafe 1024 0 (initGoose 0) gooseListener ∧
      ¬ OutputSafe 1 0 (initSi ℚ 2 800 0 ⟨List.replicate 16 0, by decide⟩) storeTrip := by
  have hinput : 16 ≤ (⟨List.replicate 16 0, by decide⟩ : Buffer).length := by decide
  rw [svOutputSafe_iff (by decide) (by decide), gooseOutputSafe_iff (by decide) (by decide),
    siOutputSafe_iff (by decide) (by decide) hinput]
  decide

end Tmee
