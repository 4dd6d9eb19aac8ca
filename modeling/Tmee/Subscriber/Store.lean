import Mathlib.Data.List.Count
import Tmee.Lib.Run
import Tmee.MemFile.Header

set_option relaxedAutoImplicit false
set_option autoImplicit false

/-!
# Storing messages in an output ring

`smv_subscriber` and `goose_subscriber` set up their ring in the same way and store a message in
the same way: count a private 32-bit index on, fill the slot, and copy the index into the header
through the `char *` of the buffer, that is, its low byte only.

## Main definitions

* `Tmee.Subscriber` — the private data of a subscriber that its listener works on.
* `Tmee.initSubscriber`, `Tmee.storeMessage` — setting up the ring, and storing one message.
* `Tmee.FillsSlot` — code that writes one slot and nothing else.
* `Tmee.StoreInv` — what every store keeps.

## Main results

* `Tmee.storeMessage_eq` — one store: the slot it takes and the index consumers read after it.
* `Tmee.mirrors_feed_iff` — when the header index equals the private one after every store.
-/

namespace Tmee

open ByteMem

/-- The private data of a subscriber, as far as it concerns the ring. -/
structure Subscriber where
  itemSize : ℤ
  maxItems : ℤ
  /-- The private index, a `uint32_t`. -/
  bufferIndex : ℤ
  outputBuffer : Buffer
  outputBufferSize : ℤ
  /-- How often the listener has raised its event. -/
  raised : ℕ
  deriving DecidableEq

/-- `pre_init` and `init`, for a file that could be created and what `mmap_fd_write` makes of it.
Without a mapping the first header write goes through a null pointer. -/
def initSubscriberIn (mmap : ℤ → Option Buffer) (type bufferEntries : ℤ) :
    Except Fault Subscriber :=
  let itemSize := typeToItemSize type
  let size := calculateBufferSize itemSize bufferEntries
  match mmap size with
  | none => .error .nullPointer
  | some b =>
    match initHeader type itemSize bufferEntries b with
    | .ok (_, b) => .ok
        { itemSize := itemSize
          maxItems := u32 bufferEntries
          bufferIndex := u32 (-1)
          outputBuffer := b
          outputBufferSize := u32 size
          raised := 0 }
    | .error f => .error f

/-- The same where nothing but the bytes asked for can be accessed. -/
def initSubscriber (type bufferEntries : ℤ) : Except Fault Subscriber :=
  initSubscriberIn mmapNew type bufferEntries

/-- The part of both listeners behind their guard: `fill` writes the message at the byte offset of
its slot. The offset is computed in `uint32_t`, and so is the index. -/
def storeMessage (fill : ℤ → BufM Unit) (d : Subscriber) : Except Fault Subscriber :=
  if d.maxItems = 0 then .error .divideByZero
  else
    let bufferIndex := u32 (d.bufferIndex + 1) % d.maxItems
    match fill (16 + u32 (bufferIndex * d.itemSize)) d.outputBuffer with
    | .error f => .error f
    | .ok (_, b) =>
      match store 1 8 bufferIndex b with
      | .error f => .error f
      | .ok (_, b) =>
        .ok { d with bufferIndex := bufferIndex, outputBuffer := b, raised := d.raised + 1 }

/-- A message that the guard turns away changes nothing; another one is stored. -/
def feed (d : Subscriber) : Option (ℤ → BufM Unit) → Except Fault Subscriber
  | none => .ok d
  | some fill => storeMessage fill d

/-- `fill` writes a slot of `size` bytes if it lies inside the buffer, and faults otherwise. -/
structure FillsSlot (size : ℕ) (fill : ℤ → BufM Unit) : Prop where
  fits : ∀ (b : Buffer) (base : ℕ), base + size ≤ b.length → ∃ b', fill base b = .ok ((), b') ∧
    b'.length = b.length ∧ ∀ i, i < base ∨ base + size ≤ i → b'.bytes[i]? = b.bytes[i]?
  exceeds : ∀ (b : Buffer) (base : ℕ), b.length < base + size → ∃ f, fill base b = .error f

/-- **What every store keeps**: the ring has `n` slots of `size` bytes in `length` bytes, the index
field stays below 256, and the slot taken next is the number of stores so far, modulo `n`. -/
structure StoreInv (size : ℕ) (n : ℤ) (length : ℕ) (d : Subscriber) : Prop where
  itemSize_eq : d.itemSize = size
  maxItems_eq : d.maxItems = n
  length_eq : d.outputBuffer.length = length
  index_nonneg : 0 ≤ d.outputBuffer.index
  index_lt : d.outputBuffer.index < 256
  next_eq : u32 (d.bufferIndex + 1) % n = d.raised % n

/-- The byte offset of slot `s`, computed in `uint32_t`. -/
def slotOffset (size : ℕ) (s : ℤ) : ℕ := 16 + (u32 (s * size)).toNat

section Init

variable {type n : ℤ} {mmap : ℤ → Option Buffer}

/-- A mapping of zeros that holds a header makes `init` succeed, with an empty ring. The number of
slots is what an `uint32_t` holds. -/
lemma initSubscriberIn_eq {size : ℕ} (hsize : typeToItemSize type = size) {b : Buffer}
    (hb : mmap (calculateBufferSize size n) = some b) (hlen : 16 ≤ b.length)
    (hzero : ∀ w a, b.get w a = 0) :
    ∃ d, initSubscriberIn mmap type n = .ok d ∧ StoreInv size (u32 n) b.length d ∧ d.raised = 0 ∧
      d.outputBuffer = b.fresh type size n := by
  have hheader := initHeader_eq hlen (hzero 1 semaphorePos) type size n
  have hindex := Buffer.index_fresh hlen type size n
  rw [initSubscriberIn]
  simp only [hsize, hb, hheader]
  refine ⟨_, rfl, ⟨rfl, rfl, ?_, ?_, ?_, ?_⟩, rfl, rfl⟩
  · rw [Buffer.length_fresh]
  · exact hindex.ge
  · exact hindex.trans_lt (by decide)
  · show u32 (u32 (-1) + 1) % u32 n = ((0 : ℕ) : ℤ) % u32 n
    simp [u32]

/-- **Where whole pages are mapped**, `init` succeeds with an empty ring that can be accessed as far
as its pages go. -/
lemma storeInv_of_initSubscriberIn {size : ℕ} {d : Subscriber} (hmmap : MapsPages mmap)
    (hsize : typeToItemSize type = size) (hn : 0 < n) (hn' : n < 2 ^ 31)
    (h : initSubscriberIn mmap type n = .ok d) :
    (16 ≤ d.outputBuffer.length ∧ calculateBufferSize size n ≤ d.outputBuffer.length) ∧
      StoreInv size n d.outputBuffer.length d ∧ d.raised = 0 ∧ d.outputBuffer.index = 0 := by
  have hu : u32 n = n := Int.emod_eq_of_lt hn.le (by omega)
  by_cases hmapped : 0 < calculateBufferSize size n ∧ calculateBufferSize size n < 2 ^ 31
  · obtain ⟨b, hb, hroom, hlen, hzero⟩ := hmmap.maps _ hmapped.1 hmapped.2
    obtain ⟨d', hd', hinv, hraised, hout⟩ := initSubscriberIn_eq hsize hb hlen hzero
    obtain rfl : d' = d := Except.ok.inj (hd'.symm.trans h)
    rw [hu] at hinv
    have hlength : d'.outputBuffer.length = b.length := hinv.length_eq
    refine ⟨⟨hlength ▸ hlen, hlength ▸ hroom⟩, hlength ▸ hinv, hraised, ?_⟩
    rw [hout]
    exact Buffer.index_fresh hlen type size n
  · simp only [initSubscriberIn, hsize, hmmap.refuses _ hmapped] at h
    cases h

/-- A ring whose size is positive in 32 bits is set up. -/
lemma exists_initSubscriberIn {size : ℕ} (hmmap : MapsPages mmap)
    (hsize : typeToItemSize type = size) (hpos : 0 < calculateBufferSize size n) :
    ∃ d, initSubscriberIn mmap type n = .ok d := by
  obtain ⟨b, hb, -, hlen, hzero⟩ := hmmap.maps _ hpos (Int.bmod_lt (by decide))
  obtain ⟨d, hd, -⟩ := initSubscriberIn_eq hsize hb hlen hzero
  exact ⟨d, hd⟩

/-- A mapping that holds a header makes `init` succeed, also where only the bytes asked for can be
accessed. -/
lemma exists_initSubscriber {size : ℕ} (hsize : typeToItemSize type = size)
    (hlen : 16 ≤ calculateBufferSize size n) :
    ∃ d, initSubscriber type n = .ok d ∧
      StoreInv size (u32 n) (calculateBufferSize size n).toNat d ∧ d.raised = 0 := by
  obtain ⟨b, hb⟩ := exists_mmapNew (show 0 < calculateBufferSize size n by omega)
  have hblen := length_mmapNew hb
  obtain ⟨d, hd, hinv, hraised, -⟩ := initSubscriberIn_eq hsize hb (by omega) (get_mmapNew hb)
  refine ⟨d, hd, ?_, hraised⟩
  rwa [show (calculateBufferSize size n).toNat = b.length by omega]

/-- The same for a positive number of slots. -/
lemma initSubscriber_eq {size : ℕ} (hsize : typeToItemSize type = size) (hn : 0 < n)
    (hn' : n < 2 ^ 31) (hlen : 16 ≤ calculateBufferSize size n) :
    ∃ d, initSubscriber type n = .ok d ∧
      StoreInv size n (calculateBufferSize size n).toNat d ∧ d.raised = 0 := by
  have hu : u32 n = n := Int.emod_eq_of_lt hn.le (by omega)
  simpa only [hu] using exists_initSubscriber hsize hlen

/-- The ring file after `init`: a header, and zeros. -/
lemma outputBuffer_initSubscriber {d : Subscriber} {size : ℕ} (hsize : typeToItemSize type = size)
    (hlen : 16 ≤ calculateBufferSize size n) (h : initSubscriber type n = .ok d) :
    ∃ b, mmapNew (calculateBufferSize size n) = some b ∧ d.outputBuffer = b.fresh type size n := by
  obtain ⟨b, hb⟩ := exists_mmapNew (show 0 < calculateBufferSize size n by omega)
  have hblen := length_mmapNew hb
  obtain ⟨d', hd', -, -, hout⟩ := initSubscriberIn_eq hsize hb (by omega) (get_mmapNew hb)
  obtain rfl : d' = d := Except.ok.inj (hd'.symm.trans h)
  exact ⟨b, hb, hout⟩

/-- Above the header fields a ring that has been set up is zero. -/
lemma get_initSubscriber {d : Subscriber} {size w a : ℕ} (hsize : typeToItemSize type = size)
    (hlen : 16 ≤ calculateBufferSize size n) (h : initSubscriber type n = .ok d) (ha : 14 ≤ a) :
    d.outputBuffer.get w a = 0 := by
  obtain ⟨b, hb, hout⟩ := outputBuffer_initSubscriber hsize hlen h
  rw [hout, Buffer.get_fresh_of_le ha, get_mmapNew hb]

/-- Conversely `init` succeeds only with a mapping that holds a header. -/
lemma le_of_initSubscriber {d : Subscriber} {size : ℕ} (hsize : typeToItemSize type = size)
    (hfour : 4 ∣ size) (h : initSubscriber type n = .ok d) : 16 ≤ calculateBufferSize size n := by
  rw [initSubscriber, initSubscriberIn, hsize] at h
  cases hb : mmapNew (calculateBufferSize size n) with
  | none =>
    simp only [hb] at h
    cases h
  | some b =>
    simp only [hb] at h
    have hblen := length_mmapNew hb
    by_contra hshort
    have hmod : calculateBufferSize size n % 4 = 0 := by
      obtain ⟨k, rfl⟩ := hfour
      rw [calculateBufferSize, wrap32, Nat.cast_mul, mul_assoc, Int.bmod_def]
      generalize (k : ℤ) * n = x
      split_ifs <;> omega
    obtain ⟨f, hf⟩ := initHeader_of_short (b := b) (by unfold semaphorePos; omega) type size n
    rw [hf] at h
    cases h

end Init

section Store

variable {size length : ℕ} {n : ℤ} {d : Subscriber} {fill : ℤ → BufM Unit}

lemma index_congr {b b' : Buffer} (h : ∀ i < 16, b'.bytes[i]? = b.bytes[i]?) :
    b'.index = b.index := by
  have hwindow : window b'.bytes 8 4 = window b.bytes 8 4 :=
    window_congr fun i hi => h (8 + i) (by omega)
  rw [Buffer.index, Buffer.get, hwindow, Buffer.index, Buffer.get]

/-- The byte offset of a slot, as the listeners compute it. -/
lemma StoreInv.offset_eq (h : StoreInv size n length d) (s : ℤ) :
    16 + u32 (s * d.itemSize) = ((slotOffset size s : ℕ) : ℤ) := by
  rw [h.itemSize_eq, slotOffset]
  have : 0 ≤ u32 (s * size) := Int.emod_nonneg _ (by decide)
  omega

/-- **One store**: it takes the next slot, and consumers then read its number modulo 256. -/
lemma storeMessage_eq (h : StoreInv size n length d) (hn : 0 < n) (hn' : n < 2 ^ 32)
    (hlen : 16 ≤ length) (hfill : FillsSlot size fill)
    (hfits : slotOffset size (d.raised % n) + size ≤ length) :
    ∃ d', storeMessage fill d = .ok d' ∧ StoreInv size n length d' ∧ d'.raised = d.raised + 1 ∧
      d'.bufferIndex = d.raised % n ∧ d'.outputBuffer.index = d.raised % n % 256 := by
  set s : ℤ := d.raised % n with hs
  have hs₀ : 0 ≤ s := Int.emod_nonneg _ hn.ne'
  have hs₁ : s < n := Int.emod_lt_of_pos _ hn
  have hoffset := h.offset_eq s
  obtain ⟨b, hb, hblen, hframe⟩ := hfill.fits d.outputBuffer (slotOffset size s)
    (by rw [h.length_eq]; exact hfits)
  have hindex : b.index = d.outputBuffer.index := by
    apply index_congr
    intro i hi
    exact hframe i (Or.inl (by unfold slotOffset; omega))
  have hlen' : b.length = length := hblen.trans h.length_eq
  have hstore : store 1 8 s b = .ok ((), b.put 1 8 s) := store_eq_ok (a := 8) (by omega)
  have hput : (b.put 1 8 s).index = s % 256 :=
    Buffer.index_put_byte (by omega) (hindex ▸ h.index_nonneg) (hindex ▸ h.index_lt) s
  refine ⟨{ d with bufferIndex := s, outputBuffer := b.put 1 8 s, raised := d.raised + 1 },
    ?_, ?_, rfl, rfl, hput⟩
  · rw [storeMessage, if_neg (by rw [h.maxItems_eq]; exact hn.ne')]
    simp only [h.maxItems_eq, h.next_eq, ← hs, hoffset, hb, hstore]
  · refine ⟨h.itemSize_eq, h.maxItems_eq, ?_, ?_, ?_, ?_⟩
    · rw [Buffer.length_put, hlen']
    · show 0 ≤ (b.put 1 8 s).index
      rw [hput]
      exact Int.emod_nonneg _ (by decide)
    · show (b.put 1 8 s).index < 256
      rw [hput]
      exact Int.emod_lt_of_pos _ (by decide)
    · show u32 (s + 1) % n = ((d.raised + 1 : ℕ) : ℤ) % n
      have hsmall : u32 (s + 1) = s + 1 := by
        unfold u32
        omega
      rw [hsmall, hs, Int.emod_add_emod]
      push_cast
      rfl

/-- A store whose slot does not fit faults. -/
lemma storeMessage_of_exceeds (h : StoreInv size n length d) (hn : 0 < n)
    (hfill : FillsSlot size fill) (hexceeds : length < slotOffset size (d.raised % n) + size) :
    ∃ f, storeMessage fill d = .error f := by
  have hoffset := h.offset_eq (d.raised % n)
  obtain ⟨f, hf⟩ := hfill.exceeds d.outputBuffer _ (by rw [h.length_eq]; exact hexceeds)
  refine ⟨f, ?_⟩
  rw [storeMessage, if_neg (by rw [h.maxItems_eq]; exact hn.ne')]
  simp only [h.maxItems_eq, h.next_eq, hoffset, hf]

/-- **A store that succeeds** had room for its slot. -/
lemma storeMessage_of_ok {d' : Subscriber} (h : StoreInv size n length d) (hn : 0 < n)
    (hn' : n < 2 ^ 32) (hlen : 16 ≤ length) (hfill : FillsSlot size fill)
    (hok : storeMessage fill d = .ok d') :
    slotOffset size (d.raised % n) + size ≤ length ∧ StoreInv size n length d' ∧
      d'.raised = d.raised + 1 ∧ d'.bufferIndex = d.raised % n ∧
      d'.outputBuffer.index = d.raised % n % 256 := by
  by_cases hfits : slotOffset size (d.raised % n) + size ≤ length
  · obtain ⟨d₁, hd₁, hspec⟩ := storeMessage_eq h hn hn' hlen hfill hfits
    obtain rfl : d₁ = d' := Except.ok.inj (hd₁.symm.trans hok)
    exact ⟨hfits, hspec⟩
  · obtain ⟨f, hf⟩ := storeMessage_of_exceeds h hn hfill (by omega)
    rw [hf] at hok
    cases hok

/-- The buffer after a store: the slot filled, and one byte of the index written. -/
lemma outputBuffer_of_storeMessage {d' : Subscriber} (h : StoreInv size n length d) (hn : 0 < n)
    (hok : storeMessage fill d = .ok d') :
    ∃ b, fill (slotOffset size (d.raised % n)) d.outputBuffer = .ok ((), b) ∧
      store 1 8 (d.raised % n) b = .ok ((), d'.outputBuffer) := by
  rw [storeMessage, if_neg (by rw [h.maxItems_eq]; exact hn.ne')] at hok
  simp only [h.maxItems_eq, h.next_eq, h.offset_eq] at hok
  split at hok
  · cases hok
  · rename_i b hfill
    split at hok
    · cases hok
    · rename_i b' hstore
      rw [← Except.ok.inj hok]
      exact ⟨b, hfill, hstore⟩

/-- The first 257 slots have their offsets without wrap-around. -/
lemma slotOffset_of_le (hsize : size ≤ 1024) {k : ℕ} (hk : k ≤ 256) :
    slotOffset size (k : ℤ) = 16 + k * size := by
  have hmul : k * size ≤ 256 * 1024 := Nat.mul_le_mul hk hsize
  have hwrap : u32 ((k : ℤ) * size) = ((k * size : ℕ) : ℤ) := by
    unfold u32
    push_cast
    exact Int.emod_eq_of_lt (by positivity) (by exact_mod_cast (by omega : k * size < 2 ^ 32))
  rw [slotOffset, hwrap, Int.toNat_natCast]

end Store

section Feed

variable {size length : ℕ} {n : ℤ} {d : Subscriber} {fs : List (Option (ℤ → BufM Unit))}

/-- The slots that the first `count` stores take in a ring of `n` slots lie inside `length`
bytes. -/
def SlotsFit (size : ℕ) (n : ℤ) (count length : ℕ) : Prop :=
  ∀ s < count, (s : ℤ) < n → slotOffset size s + size ≤ length

/-- **Run lemma**: stores keep the invariant and are counted. -/
lemma storeInv_of_exec (h : StoreInv size n length d) (hn : 0 < n) (hn' : n < 2 ^ 32)
    (hlen : 16 ≤ length) (hfs : ∀ fill, some fill ∈ fs → FillsSlot size fill) {t : Subscriber}
    (hexec : Run.exec feed d fs = .ok t) :
    StoreInv size n length t ∧ t.raised = d.raised + fs.countP Option.isSome := by
  induction fs generalizing d with
  | nil =>
    obtain rfl : d = t := by simpa using hexec
    exact ⟨h, by simp⟩
  | cons f fs ih =>
    obtain ⟨d₁, hstep, hrest⟩ := Run.exec_cons_eq_ok.mp hexec
    have hfs' : ∀ fill, some fill ∈ fs → FillsSlot size fill :=
      fun fill hmem => hfs fill (List.mem_cons_of_mem _ hmem)
    cases f with
    | none =>
      obtain rfl := Except.ok.inj hstep
      simpa using ih h hfs' hrest
    | some fill =>
      obtain ⟨-, hinv, hraised, -⟩ :=
        storeMessage_of_ok h hn hn' hlen (hfs fill List.mem_cons_self) hstep
      obtain ⟨hinv', hcount⟩ := ih hinv hfs' hrest
      exact ⟨hinv', by simp [hcount, hraised]; omega⟩

/-- **When all stores of a run go through**: the slot of each lies inside the buffer.

**Proof sketch.** Induction on the messages; the next store takes slot `d.raised % n`, and
`storeMessage_eq` and `storeMessage_of_exceeds` say what becomes of it. -/
lemma exec_feed_isOk_iff (h : StoreInv size n length d) (hn : 0 < n) (hn' : n < 2 ^ 32)
    (hlen : 16 ≤ length) (hfs : ∀ fill, some fill ∈ fs → FillsSlot size fill) :
    (∃ t, Run.exec feed d fs = .ok t) ↔ ∀ k : ℕ, d.raised ≤ k →
      k < d.raised + fs.countP Option.isSome → slotOffset size (k % n) + size ≤ length := by
  induction fs generalizing d with
  | nil =>
    constructor
    · intro _ k hk hk'
      simp only [List.countP_nil] at hk'
      omega
    · exact fun _ => ⟨d, rfl⟩
  | cons f fs ih =>
    have hfs' : ∀ fill, some fill ∈ fs → FillsSlot size fill :=
      fun fill hmem => hfs fill (List.mem_cons_of_mem _ hmem)
    cases f with
    | none =>
      have hcons : (∃ t, Run.exec feed d (none :: fs) = .ok t) ↔
          ∃ t, Run.exec feed d fs = .ok t := by
        simp [Run.exec_cons_eq_ok, feed]
      rw [hcons, ih h hfs', List.countP_cons_of_neg (by simp)]
    | some fill =>
      rw [List.countP_cons_of_pos (by simp)]
      by_cases hfits : slotOffset size (d.raised % n) + size ≤ length
      · obtain ⟨d', hd', hinv, hraised, -⟩ :=
          storeMessage_eq h hn hn' hlen (hfs fill List.mem_cons_self) hfits
        have hcons : (∃ t, Run.exec feed d (some fill :: fs) = .ok t) ↔
            ∃ t, Run.exec feed d' fs = .ok t := by
          simp [Run.exec_cons_eq_ok, feed, hd']
        rw [hcons, ih hinv hfs', hraised]
        constructor
        · intro hall k hk hk'
          rcases Nat.eq_or_lt_of_le hk with rfl | hlt
          · exact hfits
          · exact hall k hlt (by omega)
        · exact fun hall k hk hk' => hall k (by omega) (by omega)
      · constructor
        · rintro ⟨t, ht⟩
          obtain ⟨d', hstep, -⟩ := Run.exec_cons_eq_ok.mp ht
          exact absurd
            (storeMessage_of_ok h hn hn' hlen (hfs fill List.mem_cons_self) hstep).1 hfits
        · exact fun hall => absurd (hall d.raised le_rfl (by omega)) hfits

/-- The same for a ring into which nothing has been stored. -/
lemma exec_feed_isOk_iff_slotsFit (h : StoreInv size n length d) (hzero : d.raised = 0)
    (hn : 0 < n) (hn' : n < 2 ^ 32) (hlen : 16 ≤ length)
    (hfs : ∀ fill, some fill ∈ fs → FillsSlot size fill) :
    (∃ t, Run.exec feed d fs = .ok t) ↔ SlotsFit size n (fs.countP Option.isSome) length := by
  rw [exec_feed_isOk_iff h hn hn' hlen hfs, hzero]
  simp only [Nat.zero_le, Nat.zero_add, true_imp_iff]
  constructor
  · intro hall s hs hsn
    have hmod := hall s hs
    rwa [Int.emod_eq_of_lt (Int.natCast_nonneg s) hsn] at hmod
  · intro hfit k hk
    have hnonneg := Int.emod_nonneg (k : ℤ) hn.ne'
    have hle := emod_le_self (Int.natCast_nonneg k) hn
    have hlt := Int.emod_lt_of_pos (k : ℤ) hn
    obtain ⟨s, hs⟩ := Int.eq_ofNat_of_zero_le hnonneg
    rw [hs] at hle hlt ⊢
    exact hfit s (by omega) hlt

/-- A list with more than `k` marked elements has a marked element behind exactly `k` others. -/
lemma exists_prefix_countP {α : Type*} (p : α → Bool) {l : List α} {k : ℕ} (h : k < l.countP p) :
    ∃ pre x, pre ++ [x] <+: l ∧ p x ∧ pre.countP p = k := by
  induction l generalizing k with
  | nil => simp at h
  | cons a l ih =>
    by_cases ha : p a
    · cases k with
      | zero => exact ⟨[], a, by simp, ha, rfl⟩
      | succ k =>
        obtain ⟨pre, x, hpre, hx, hcount⟩ := ih (k := k) (by simp [ha] at h; omega)
        exact ⟨a :: pre, x, by simpa using hpre, hx, by simp [ha, hcount]⟩
    · obtain ⟨pre, x, hpre, hx, hcount⟩ := ih (k := k) (by simpa [ha] using h)
      exact ⟨a :: pre, x, by simpa using hpre, hx, by simp [ha, hcount]⟩

/-- In a large ring the 257th store leaves the index field at `0`. -/
lemma exists_store_unmirrored (h : StoreInv size n length d) (hzero : d.raised = 0)
    (hn : 256 < n) (hn' : n < 2 ^ 32) (hlen : 16 ≤ length)
    (hfs : ∀ fill, some fill ∈ fs → FillsSlot size fill) {u : Subscriber}
    (hexec : Run.exec feed d fs = .ok u) (hcount : 256 < fs.countP Option.isSome) :
    ∃ t fill t', Run.Performs feed d fs t (some fill) t' ∧
      t'.outputBuffer.index ≠ t'.bufferIndex := by
  obtain ⟨pre, x, hpre, hx, hpreCount⟩ := exists_prefix_countP Option.isSome hcount
  obtain ⟨fill, rfl⟩ := Option.isSome_iff_exists.mp hx
  have hmem : ∀ f, some f ∈ pre ++ [some fill] → FillsSlot size f :=
    fun f hf => hfs f (hpre.subset hf)
  obtain ⟨rest, hrest⟩ := id hpre
  rw [← hrest, Run.exec_append_eq_ok] at hexec
  obtain ⟨t', hexec', -⟩ := hexec
  obtain ⟨t, ht, hstep⟩ := Run.exec_concat_eq_ok.mp hexec'
  obtain ⟨hinv, hraised⟩ := storeInv_of_exec h (by omega) hn' hlen
    (fun f hf => hmem f (List.mem_append_left _ hf)) ht
  obtain ⟨-, -, -, hbuffer, hindex⟩ :=
    storeMessage_of_ok hinv (by omega) hn' hlen (hmem fill (by simp)) hstep
  have h256 : (t.raised : ℤ) % n = 256 := by
    rw [hraised, hzero, hpreCount]
    exact Int.emod_eq_of_lt (by decide) (by exact_mod_cast hn)
  refine ⟨t, fill, t', ⟨pre, hpre, ht, hstep⟩, ?_⟩
  rw [hbuffer, hindex, h256]
  decide

/-- **All messages are stored, and the header mirrors the private index after every store**,
exactly if the slots taken lie inside the buffer and the ring has at most 256 slots, or at most 256
messages are stored.

**Proof sketch.** The store with number `k` takes slot `k % n` and leaves `k % n % 256` in the
index field; the first slot number that differs is 256, which the 257th store takes. -/
lemma mirrors_feed_iff (h : StoreInv size n length d) (hzero : d.raised = 0) (hn : 0 < n)
    (hn' : n < 2 ^ 32) (hlen : 16 ≤ length)
    (hfs : ∀ fill, some fill ∈ fs → FillsSlot size fill) :
    ((∃ t, Run.exec feed d fs = .ok t) ∧
      ∀ t fill t', Run.Performs feed d fs t (some fill) t' →
        t'.outputBuffer.index = t'.bufferIndex) ↔
      (n ≤ 256 ∨ fs.countP Option.isSome ≤ 256) ∧
        SlotsFit size n (fs.countP Option.isSome) length := by
  rw [exec_feed_isOk_iff_slotsFit h hzero hn hn' hlen hfs, and_comm, and_congr_left_iff]
  intro hfit
  constructor
  · intro hmirrors
    by_contra hcon
    push Not at hcon
    obtain ⟨u, hu⟩ := (exec_feed_isOk_iff_slotsFit h hzero hn hn' hlen hfs).mpr hfit
    obtain ⟨t, fill, t', hperf, hne⟩ :=
      exists_store_unmirrored h hzero hcon.1 hn' hlen hfs hu hcon.2
    exact hne (hmirrors t fill t' hperf)
  · rintro hcond t fill t' ⟨pre, hpre, ht, hstep⟩
    have hmemPre : ∀ f, some f ∈ pre → FillsSlot size f :=
      fun f hf => hfs f (hpre.subset (List.mem_append_left _ hf))
    obtain ⟨hinv, hraised⟩ := storeInv_of_exec h hn hn' hlen hmemPre ht
    obtain ⟨-, -, -, hbuffer, hindex⟩ :=
      storeMessage_of_ok hinv hn hn' hlen (hfs fill (hpre.subset (by simp))) hstep
    rw [hbuffer, hindex]
    apply Int.emod_eq_of_lt (Int.emod_nonneg _ hn.ne')
    have hlt := Int.emod_lt_of_pos (t.raised : ℤ) hn
    have hle := emod_le_self (Int.natCast_nonneg t.raised) hn
    have hcount := hpre.sublist.countP_le (p := Option.isSome)
    rw [List.countP_append, List.countP_cons_of_pos (by simp)] at hcount
    simp only [List.countP_nil] at hcount
    omega

end Feed

end Tmee
