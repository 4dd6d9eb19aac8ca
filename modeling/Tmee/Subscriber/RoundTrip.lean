import Mathlib.Data.Fin.Basic
import Tmee.Lib.Ring
import Tmee.MemFile.Readers
import Tmee.Subscriber.Listeners

set_option relaxedAutoImplicit false
set_option autoImplicit false

/-!
# Sampled values from the subscriber to its readers

`svUpdateListener` writes a sample by byte offsets with a stride of `item_size`, `read_input_smv`
reads it by `int` offsets with a stride of 17. The ring is followed through the stores as a ring of
numbered entries (`NumberedRing.Holds`): the `k`-th sample stored has number `k`.

## Main definitions

* `Tmee.Asdu.IsSample` — the ASDUs that are stored.
* `Tmee.Asdu.word` — what is stored of an ASDU: 16 data words and the sample counter.
* `Tmee.SampleInv` — the ring after the samples `samples`.
* `Tmee.SampleLaw` — what readers get, and what a further ASDU changes.

## Main results

* `Tmee.SampleInv.push` — one sample stored.
* `Tmee.samples_readBack` — after any sequence of ASDUs readers get the last samples.
-/

namespace Tmee

open ByteMem NumberedRing

/-- An ASDU with 64 bytes of data. -/
def Asdu.IsSample (asdu : Asdu) : Prop := asdu.dataSize = 64

instance : DecidablePred Asdu.IsSample := fun asdu =>
  inferInstanceAs (Decidable (asdu.dataSize = 64))

/-- Word `v` of a slot: the data words, and behind them the sample counter. -/
def Asdu.word (asdu : Asdu) (v : Fin 17) : ℤ :=
  if v.val < 16 then (asdu.getInt32 (4 * v)).toInt else asdu.smpCnt.toNat

/-- The guard lets exactly the samples pass. -/
lemma Asdu.fits_iff (asdu : Asdu) : asdu.Fits 68 ↔ asdu.IsSample := by
  constructor
  · intro h
    exact BitVec.eq_of_toNat_eq h.dataSize_eq
  · intro h
    rw [Asdu.Fits, show asdu.dataSize = 64 from h]
    decide

/-! ## One sample in its slot -/

/-- The loop over the data words writes every word from byte `i` on, and nothing before it. -/
lemma get_storeWords {asdu : Asdu} {base i : ℕ} {b b' : Buffer} (hi : 4 ∣ i)
    (hroom : base + asdu.dataSize.toNat + 4 ≤ b.length)
    (h : storeWords asdu base i b = .ok ((), b')) :
    (∀ a, a + 4 ≤ base + i → b'.get 4 a = b.get 4 a) ∧
      ∀ v, i ≤ 4 * v → 4 * v < asdu.dataSize.toNat →
        b'.get 4 (base + 4 * v) = (asdu.getInt32 (4 * v)).toInt := by
  fun_induction storeWords asdu base i generalizing b with
  | case1 i hlt ih =>
    have hstore : store 4 ((base : ℤ) + i) (asdu.getInt32 i).toInt b =
        .ok ((), b.put 4 (base + i) (asdu.getInt32 i).toInt) := by
      rw [← Nat.cast_add]
      exact store_eq_ok (by omega)
    rw [bufM_bind_ok hstore] at h
    obtain ⟨hframe, hwords⟩ := ih (by omega) (by rwa [Buffer.length_put]) h
    constructor
    · intro a ha
      rw [hframe a (by omega), Buffer.get_put_of_disjoint (by omega)]
    · intro v hv hv'
      by_cases hfirst : i = 4 * v
      · subst hfirst
        rw [hframe _ (by omega), Buffer.get_put_self _ (by omega)]
        exact BitVec.toInt_bmod_cancel _
      · exact hwords v (by omega) hv'
  | case2 i hge =>
    obtain rfl : b = b' := congrArg Prod.snd (Except.ok.inj h)
    exact ⟨fun _ _ => rfl, fun v hv hv' => absurd hv' (by omega)⟩

/-- **A sample in its slot**: all its words can be read back, and the bytes outside the slot are
as before. -/
lemma storeAsdu_spec {asdu : Asdu} (h : asdu.IsSample) {base : ℕ} {b : Buffer}
    (hfits : base + 68 ≤ b.length) : ∃ b', storeAsdu asdu base b = .ok ((), b') ∧
      b'.length = b.length ∧ (∀ v : Fin 17, b'.get 4 (base + 4 * v) = asdu.word v) ∧
      ∀ i, i < base ∨ base + 68 ≤ i → b'.bytes[i]? = b.bytes[i]? := by
  have hsize : asdu.dataSize.toNat = 64 := ((Asdu.fits_iff asdu).mpr h).dataSize_eq
  have hroom : base + asdu.dataSize.toNat + 4 ≤ b.length := by omega
  obtain ⟨c, hc, hlen, hframe⟩ := storeWords_eq (i := 0) hroom
  have hwords := (get_storeWords (dvd_zero 4) hroom hc).2
  have hstore : store 4 ((base : ℤ) + asdu.dataSize.toNat) asdu.smpCnt.toNat c =
      .ok ((), c.put 4 (base + asdu.dataSize.toNat) asdu.smpCnt.toNat) := by
    rw [← Nat.cast_add]
    exact store_eq_ok (by omega)
  refine ⟨c.put 4 (base + asdu.dataSize.toNat) asdu.smpCnt.toNat, ?_, ?_, ?_, ?_⟩
  · rw [storeAsdu, bufM_bind_ok hc, hstore]
  · rw [Buffer.length_put, hlen]
  · intro v
    have hv := v.isLt
    rw [Asdu.word]
    split_ifs with hdata
    · rw [Buffer.get_put_of_disjoint (by omega)]
      exact hwords v (by omega) (by omega)
    · have hlast : 4 * v.val = asdu.dataSize.toNat := by omega
      have hcnt := asdu.smpCnt.isLt
      rw [hlast, Buffer.get_put_self _ (by omega)]
      exact Int.bmod_eq_of_le_mul_two (by omega) (by omega)
  · intro i hi
    rw [Buffer.getElem?_put_of_disjoint (by omega), hframe i (by omega)]

/-! ## The ring of samples -/

/-- The words of the slots of a ring. -/
def sampleSlots (b : Buffer) (s : ℤ) (v : Fin 17) : ℤ := b.get 4 (16 + 68 * s.toNat + 4 * v)

/-- The words of sample number `k`; before the first one the ring is zero. -/
def sampleEntry (samples : List Asdu) (k : ℤ) (v : Fin 17) : ℤ :=
  if 0 ≤ k then (samples[k.toNat]?).elim 0 (fun asdu => asdu.word v) else 0

/-- **The ring after the samples** `samples`: they are its entries, in the order in which they were
stored, and the lock is free. -/
structure SampleInv (n : ℤ) (samples : List Asdu) (d : Subscriber) : Prop where
  stores : StoreInv 68 n (16 + 68 * n.toNat) d
  raised_eq : d.raised = samples.length
  lock_eq : d.outputBuffer.lock = 0
  index_eq : samples ≠ [] → d.bufferIndex = (samples.length - 1) % n
  holds : Holds n (sampleEntry samples) (samples.length - 1) (sampleSlots d.outputBuffer)

section Ring

variable {n : ℤ} {samples : List Asdu} {d d' : Subscriber} {asdu : Asdu}

/-- A new sample does not change the entries before it. -/
lemma sampleEntry_concat_of_lt {k : ℤ} (hk : k < samples.length) :
    sampleEntry (samples ++ [asdu]) k = sampleEntry samples k := by
  ext v
  rw [sampleEntry, sampleEntry]
  split_ifs with h₀
  · rw [List.getElem?_append_left (by omega)]
  · rfl

/-- A new sample is the next entry. -/
lemma sampleEntry_concat_self :
    sampleEntry (samples ++ [asdu]) samples.length = asdu.word := by
  ext v
  simp [sampleEntry]

/-- The offsets of the slots of a ring whose size fits an `int`. -/
lemma slotOffset_of_lt {s : ℤ} (hsize : 16 + 68 * n < 2 ^ 31) (h₀ : 0 ≤ s) (h₁ : s < n) :
    slotOffset 68 s = 16 + 68 * s.toNat := by
  have hwrap : u32 (s * (68 : ℕ)) = s * 68 := Int.emod_eq_of_lt (by omega) (by push_cast; omega)
  rw [slotOffset, hwrap]
  omega

/-- Bytes that are as before make up loads that are as before. -/
lemma get_congr {b b' : Buffer} {w a : ℕ} (h : ∀ i < w, b'.bytes[a + i]? = b.bytes[a + i]?) :
    b'.get w a = b.get w a := by
  rw [Buffer.get, Buffer.get, window_congr h]

/-- What the listener does with a sample: it fills the next slot, and all other bytes but one of the
index stay as they are. -/
lemma SampleInv.stored (h : SampleInv n samples d) (hn : 1 ≤ n) (hsize : 16 + 68 * n < 2 ^ 31)
    (hsample : asdu.IsSample) : ∃ d', svUpdateListener d asdu = .ok d' ∧
      StoreInv 68 n (16 + 68 * n.toNat) d' ∧ d'.raised = d.raised + 1 ∧
      d'.bufferIndex = (samples.length : ℤ) % n ∧
      sampleSlots d'.outputBuffer ((samples.length : ℤ) % n) = asdu.word ∧
      ∀ i, i ≠ 8 → (i < 16 + 68 * ((samples.length : ℤ) % n).toNat ∨
        16 + 68 * ((samples.length : ℤ) % n).toNat + 68 ≤ i) →
        d'.outputBuffer.bytes[i]? = d.outputBuffer.bytes[i]? := by
  have hfits : asdu.Fits 68 := (Asdu.fits_iff asdu).mpr hsample
  have hitem : d.itemSize = 68 := h.stores.itemSize_eq
  have hlen : d.outputBuffer.length = 16 + 68 * n.toNat := h.stores.length_eq
  have hraised : (d.raised : ℤ) % n = (samples.length : ℤ) % n := by rw [h.raised_eq]
  have hs₀ : 0 ≤ (samples.length : ℤ) % n := Int.emod_nonneg _ (by omega)
  have hs₁ : (samples.length : ℤ) % n < n := Int.emod_lt_of_pos _ (by omega)
  generalize (samples.length : ℤ) % n = s at *
  have hoffset : slotOffset 68 s = 16 + 68 * s.toNat := slotOffset_of_lt hsize hs₀ hs₁
  obtain ⟨d', hd', hstores, hcount, hindex, -⟩ := storeMessage_eq h.stores (by omega) (by omega)
    (by omega) (fillsSlot_storeAsdu hfits) (by rw [hraised, hoffset]; omega)
  obtain ⟨b, hfill, hput⟩ := outputBuffer_of_storeMessage h.stores (by omega) hd'
  rw [hraised, hoffset] at hfill
  rw [hraised] at hput
  obtain ⟨b', hb', hlen', hwords, hframe⟩ :=
    storeAsdu_spec hsample (show 16 + 68 * s.toNat + 68 ≤ d.outputBuffer.length by omega)
  obtain rfl : b' = b := congrArg Prod.snd (Except.ok.inj (hb'.symm.trans hfill))
  have hput' : store 1 8 s b' = .ok ((), b'.put 1 8 s) := store_eq_ok (a := 8) (by omega)
  have hout : d'.outputBuffer = b'.put 1 8 s :=
    congrArg Prod.snd (Except.ok.inj (hput.symm.trans hput'))
  refine ⟨d', ?_, hstores, hcount, hindex.trans hraised, ?_, ?_⟩
  · rw [svUpdateListener, if_neg (by rw [hitem]; exact not_not_intro hfits), hd']
  · ext v
    rw [sampleSlots, hout, Buffer.get_put_of_disjoint (by omega)]
    exact hwords v
  · intro i hi hslot
    rw [hout, Buffer.getElem?_put_of_disjoint (by omega), hframe i hslot]

/-- **One sample stored** is one entry more in the ring. -/
lemma SampleInv.push (h : SampleInv n samples d) (hn : 1 ≤ n) (hsize : 16 + 68 * n < 2 ^ 31)
    (hsample : asdu.IsSample) (hstep : svUpdateListener d asdu = .ok d') :
    SampleInv n (samples ++ [asdu]) d' := by
  obtain ⟨d₁, hd₁, hstores, hcount, hindex, hslot, hbytes⟩ := h.stored hn hsize hsample
  obtain rfl : d₁ = d' := Except.ok.inj (hd₁.symm.trans hstep)
  have hframe : ∀ w a, (a + w ≤ 8 ∨ 9 ≤ a) → (a + w ≤ 16 + 68 * ((samples.length : ℤ) % n).toNat ∨
      16 + 68 * ((samples.length : ℤ) % n).toNat + 68 ≤ a) →
      d₁.outputBuffer.get w a = d.outputBuffer.get w a :=
    fun w a hi ha => get_congr fun i _ => hbytes (a + i) (by omega) (by omega)
  have hnext : (((samples ++ [asdu]).length : ℕ) : ℤ) - 1 = samples.length := by simp
  refine ⟨hstores, ?_, ?_, ?_, ?_⟩
  · rw [hcount, h.raised_eq, List.length_append, List.length_singleton]
  · rw [← h.lock_eq]
    exact hframe 1 semaphorePos (by decide) (Or.inl (by unfold semaphorePos; omega))
  · intro _
    rw [hindex, hnext]
  · have hentries : Holds n (sampleEntry (samples ++ [asdu])) (samples.length - 1)
        (sampleSlots d.outputBuffer) :=
      h.holds.congr (by omega) fun k _ hk => (sampleEntry_concat_of_lt (by omega)).symm
    have hhi : (samples.length : ℤ) - 1 + 1 = samples.length := by omega
    rw [hnext, ← hhi]
    apply hentries.push (by omega)
    · rw [hhi, hslot, sampleEntry_concat_self]
    · intro s hs₀ hs₁ hne
      rw [hhi] at hne
      ext v
      have hv := v.isLt
      have hother : s.toNat ≠ ((samples.length : ℤ) % n).toNat := by
        have := Int.emod_nonneg (samples.length : ℤ) (by omega : n ≠ 0)
        omega
      exact hframe 4 _ (by omega) (by omega)

/-- An ASDU of another size changes nothing. -/
lemma SampleInv.rejected (h : SampleInv n samples d) (hsample : ¬ asdu.IsSample) :
    svUpdateListener d asdu = .ok d := by
  have hitem : d.itemSize = 68 := h.stores.itemSize_eq
  exact if_pos (by rwa [hitem, Asdu.fits_iff])

/-- **Reading back**: the slot `j` places behind the last one holds the sample stored `j` stores
ago, as long as that has not been overwritten. -/
lemma SampleInv.readBack (h : SampleInv n samples d) (hn : 1 ≤ n) {j : ℕ} (hj : (j : ℤ) < n)
    (hsample : samples.reverse[j]? = some asdu) (v : Fin 17) :
    readInputSmv v ((d.bufferIndex - j) % n) d.outputBuffer =
      .ok (asdu.word v, d.outputBuffer) := by
  have hlt : j < samples.length := by
    obtain ⟨hlt, -⟩ := List.getElem?_eq_some_iff.mp hsample
    simpa using hlt
  have hne : samples ≠ [] := List.ne_nil_of_length_pos (by omega)
  have hslot : (d.bufferIndex - j) % n = ((samples.length : ℤ) - 1 - j) % n := by
    rw [h.index_eq hne, Int.emod_sub_emod]
  rw [hslot]
  have hs₀ := Int.emod_nonneg ((samples.length : ℤ) - 1 - j) (by omega : n ≠ 0)
  have hs₁ := Int.emod_lt_of_pos ((samples.length : ℤ) - 1 - j) (by omega : 0 < n)
  have hheld := h.holds.slot_eq (by omega) (k := (samples.length : ℤ) - 1 - j) (by omega) (by omega)
  have hword : sampleSlots d.outputBuffer (((samples.length : ℤ) - 1 - j) % n) v = asdu.word v := by
    have hnum : ((samples.length : ℤ) - 1 - j).toNat = samples.length - 1 - j := by omega
    rw [hheld, sampleEntry, if_pos (by omega), hnum, ← List.getElem?_reverse hlt, hsample]
    rfl
  generalize ((samples.length : ℤ) - 1 - j) % n = s at *
  lift s to ℕ using hs₀
  have hv := v.isLt
  rw [readInputSmv_eq (by rw [h.stores.length_eq]; omega) h.lock_eq, ← hword]
  rfl

end Ring

/-! ## Sequences of ASDUs -/

/-- **The law of a ring of `n` samples** that has stored `samples`: an event was raised for each;
readers get the last `n` of them; an ASDU of another size changes nothing; and one of 64 bytes
is stored without changing another slot. -/
structure SampleLaw (n : ℤ) (samples : List Asdu) (d : Subscriber) : Prop where
  raised_eq : d.raised = samples.length
  readsBack : ∀ (j : ℕ) (asdu : Asdu), (j : ℤ) < n → samples.reverse[j]? = some asdu →
    (∀ v : ℕ, v < 16 → readInputSmv v ((d.bufferIndex - j) % n) d.outputBuffer =
      .ok ((asdu.getInt32 (4 * v)).toInt, d.outputBuffer)) ∧
    readInputSmv 16 ((d.bufferIndex - j) % n) d.outputBuffer =
      .ok (asdu.smpCnt.toNat, d.outputBuffer)
  rejects : ∀ asdu : Asdu, asdu.dataSize ≠ 64 → svUpdateListener d asdu = .ok d
  stores : ∀ asdu : Asdu, asdu.dataSize = 64 → ∃ d', svUpdateListener d asdu = .ok d' ∧
    d'.raised = d.raised + 1 ∧ ∀ s : ℤ, 0 ≤ s → s < n → s ≠ d'.bufferIndex → ∀ i < 68,
      d'.outputBuffer.bytes[16 + 68 * s.toNat + i]? = d.outputBuffer.bytes[16 + 68 * s.toNat + i]?

section Runs

variable {n : ℤ} {samples : List Asdu} {d : Subscriber}

/-- The invariant gives the law. -/
lemma SampleInv.law (h : SampleInv n samples d) (hn : 1 ≤ n) (hsize : 16 + 68 * n < 2 ^ 31) :
    SampleLaw n samples d where
  raised_eq := h.raised_eq
  readsBack := by
    intro j asdu hj hsample
    constructor
    · intro v hv
      rw [h.readBack hn hj hsample ⟨v, by omega⟩, Asdu.word, if_pos hv]
    · exact h.readBack hn hj hsample 16
  rejects := fun asdu hasdu => h.rejected hasdu
  stores := by
    intro asdu hasdu
    obtain ⟨d', hd', -, hraised, hindex, -, hbytes⟩ := h.stored hn hsize hasdu
    refine ⟨d', hd', hraised, ?_⟩
    intro s hs₀ hs₁ hne i hi
    have hlast₀ := Int.emod_nonneg (samples.length : ℤ) (by omega : n ≠ 0)
    rw [hindex] at hne
    exact hbytes _ (by omega) (by omega)

/-- A ring that has just been set up has stored nothing. -/
lemma sampleInv_of_init (hn : 1 ≤ n) (hsize : 16 + 68 * n < 2 ^ 31) :
    ∃ d, initSubscriber TypeCode.smv92 n = .ok d ∧ SampleInv n [] d := by
  have hcode : typeToItemSize TypeCode.smv92 = (68 : ℕ) := rfl
  have hcalc : calculateBufferSize (68 : ℕ) n = 16 + 68 * n := by
    rw [calculateBufferSize, wrap32]
    exact Int.bmod_eq_of_le_mul_two (by push_cast; omega) (by push_cast; omega)
  have hlen : 16 ≤ calculateBufferSize (68 : ℕ) n := by omega
  obtain ⟨d, hd, hstores, hraised⟩ := initSubscriber_eq hcode (by omega) (by omega) hlen
  rw [hcalc] at hstores
  refine ⟨d, hd, ⟨?_, hraised, ?_, fun hne => absurd rfl hne, ?_⟩⟩
  · have hnat : (16 + 68 * n).toNat = 16 + 68 * n.toNat := by omega
    rwa [hnat] at hstores
  · exact get_initSubscriber hcode hlen hd (by decide)
  · intro s _ _
    ext v
    have hlatest := latest_le (by omega : 0 < n) (([] : List Asdu).length - 1) s
    rw [sampleSlots, get_initSubscriber hcode hlen hd (by omega), sampleEntry,
      if_neg (by simp only [List.length_nil] at hlatest ⊢; omega)]

/-- **Run lemma**: any sequence of ASDUs is taken, and stores its samples in order. -/
lemma SampleInv.exec (h : SampleInv n samples d) (hn : 1 ≤ n) (hsize : 16 + 68 * n < 2 ^ 31)
    (asdus : List Asdu) : ∃ t, Run.exec svUpdateListener d asdus = .ok t ∧
      SampleInv n (samples ++ asdus.filter (fun asdu => asdu.IsSample)) t := by
  induction asdus generalizing d samples with
  | nil => exact ⟨d, rfl, by simpa using h⟩
  | cons asdu asdus ih =>
    by_cases hsample : asdu.IsSample
    · obtain ⟨d', hd', -⟩ := h.stored hn hsize hsample
      obtain ⟨t, ht, hinv⟩ := ih (h.push hn hsize hsample hd')
      refine ⟨t, Run.exec_cons_eq_ok.mpr ⟨d', hd', ht⟩, ?_⟩
      simpa [hsample] using hinv
    · obtain ⟨t, ht, hinv⟩ := ih h
      refine ⟨t, Run.exec_cons_eq_ok.mpr ⟨d, h.rejected hsample, ht⟩, ?_⟩
      simpa [hsample] using hinv

end Runs

/-- **Samples survive the ring**: for every ring whose size fits an `int` and every sequence of
ASDUs, the listener takes them all, and readers get the last samples, word by word. -/
theorem samples_readBack {n : ℤ} (hn : 1 ≤ n) (hsize : 16 + 68 * n < 2 ^ 31) :
    ∃ d, initSubscriber TypeCode.smv92 n = .ok d ∧ ∀ asdus : List Asdu,
      ∃ t, Run.exec svUpdateListener d asdus = .ok t ∧
        SampleLaw n (asdus.filter fun asdu => asdu.IsSample) t := by
  obtain ⟨d, hd, hinv⟩ := sampleInv_of_init hn hsize
  refine ⟨d, hd, fun asdus => ?_⟩
  obtain ⟨t, ht, hinv'⟩ := hinv.exec hn hsize asdus
  exact ⟨t, ht, hinv'.law hn hsize⟩

/-- An ASDU with the same value in all its words. -/
def currentAsdu (current : BitVec 32) (smpCnt : BitVec 16) : Asdu := ⟨64, fun _ => current, smpCnt⟩

/-- Three samples and an ASDU of 60 bytes on a ring of two slots: the last two samples are read
back. -/
theorem samples_readBack_two : ∃ d t, initSubscriber TypeCode.smv92 2 = .ok d ∧
    Run.exec svUpdateListener d [currentAsdu 40 0, ⟨60, fun _ => 20, 1⟩, currentAsdu 30 2,
      currentAsdu 50 3] = .ok t ∧
    SampleLaw 2 [currentAsdu 40 0, currentAsdu 30 2, currentAsdu 50 3] t ∧
    readInputSmv 0 ((t.bufferIndex - (0 : ℕ)) % 2) t.outputBuffer = .ok (50, t.outputBuffer) ∧
    readInputSmv 16 ((t.bufferIndex - (1 : ℕ)) % 2) t.outputBuffer = .ok (2, t.outputBuffer) := by
  obtain ⟨d, hd, hall⟩ := samples_readBack (n := 2) (by decide) (by decide)
  obtain ⟨t, ht, hlaw⟩ := hall [currentAsdu 40 0, ⟨60, fun _ => 20, 1⟩, currentAsdu 30 2,
    currentAsdu 50 3]
  exact ⟨d, t, hd, ht, hlaw, (hlaw.readsBack 0 (currentAsdu 50 3) (by decide) rfl).1 0 (by decide),
    (hlaw.readsBack 1 (currentAsdu 30 2) (by decide) rfl).2⟩

end Tmee
