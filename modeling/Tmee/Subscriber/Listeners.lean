import Tmee.Subscriber.Store

set_option relaxedAutoImplicit false
set_option autoImplicit false

/-!
# The listeners of the subscribers

`svUpdateListener` of `smv_subscriber` and `gooseListener` of `goose_subscriber`. A message is
given by what the protocol library returns for it. The handlers of the event raised after a store
read the ring and leave it as it is.

## Main definitions

* `Tmee.Asdu`, `Tmee.svUpdateListener` — sampled values.
* `Tmee.GooseMessage`, `Tmee.gooseListener` — GOOSE messages.
* `Tmee.Subscriber.Mirrors` — consumers read the private index from the header.

## Main results

* `Tmee.index_mirrored_iff` — when consumers read the private index after every stored message.
-/

namespace Tmee

open ByteMem

/-! ## Sampled values -/

/-- A sampled value message: `SVSubscriber_ASDU_getDataSize`, `.._getINT32` and `.._getSmpCnt`. -/
structure Asdu where
  dataSize : BitVec 32
  getInt32 : ℕ → BitVec 32
  smpCnt : BitVec 16

/-- The guard of the listener, in `uint32_t`. -/
def Asdu.Fits (asdu : Asdu) (itemSize : ℤ) : Prop :=
  itemSize = u32 (asdu.dataSize.toNat + 4)

instance (asdu : Asdu) (itemSize : ℤ) : Decidable (asdu.Fits itemSize) :=
  inferInstanceAs (Decidable (_ = _))

/-- The loop over the data words from byte `i` on. -/
def storeWords (asdu : Asdu) (base : ℤ) (i : ℕ) : BufM Unit :=
  if i < asdu.dataSize.toNat then do
    store 4 (base + i) (asdu.getInt32 i).toInt
    storeWords asdu base (i + 4)
  else pure ()
termination_by asdu.dataSize.toNat - i

/-- The data words, then the sample counter. -/
def storeAsdu (asdu : Asdu) (base : ℤ) : BufM Unit := do
  storeWords asdu base 0
  store 4 (base + asdu.dataSize.toNat) asdu.smpCnt.toNat

/-- The callback for sampled values. -/
def svUpdateListener (d : Subscriber) (asdu : Asdu) : Except Fault Subscriber :=
  if ¬ asdu.Fits d.itemSize then .ok d else storeMessage (storeAsdu asdu) d

/-! ## GOOSE -/

/-- A GOOSE message: its state number, and the bytes that `MmsValue_printToBuffer` writes for its
values into a buffer of 1024 bytes. -/
structure GooseMessage where
  stNum : BitVec 32
  printed : List UInt8
  length_printed : printed.length ≤ 1024

/-- The private data of the GOOSE subscriber. -/
structure GooseSubscriber where
  subscriber : Subscriber
  oldStNum : BitVec 32
  deriving DecidableEq

/-- `pre_init` and `init` of the GOOSE subscriber, with what `mmap_fd_write` gives. -/
def initGooseIn (mmap : ℤ → Option Buffer) (bufferEntries : ℤ) : Except Fault GooseSubscriber :=
  match initSubscriberIn mmap TypeCode.goose bufferEntries with
  | .ok d => .ok ⟨d, 0⟩
  | .error f => .error f

/-- The same where nothing but the bytes asked for can be accessed. -/
def initGoose (bufferEntries : ℤ) : Except Fault GooseSubscriber :=
  initGooseIn mmapNew bufferEntries

/-- `MmsValue_printToBuffer(values, buffer, 1024)`, which needs 1024 bytes to write to. -/
def printToBuffer (printed : List UInt8) (base : ℤ) : BufM Unit := fun b =>
  if 0 ≤ base ∧ base + 1024 ≤ b.length then
    .ok ((), ⟨overwrite b.bytes base.toNat printed, by rw [length_overwrite]; exact b.length_lt⟩)
  else .error .outOfBounds

/-- The callback for GOOSE messages: a state number seen last is skipped. -/
def gooseListener (g : GooseSubscriber) (message : GooseMessage) :
    Except Fault GooseSubscriber :=
  if message.stNum ≠ g.oldStNum then
    match storeMessage (printToBuffer message.printed) g.subscriber with
    | .ok d => .ok ⟨d, message.stNum⟩
    | .error f => .error f
  else .ok g

/-- The number of messages whose state number differs from the one before. -/
def stNumChanges : BitVec 32 → List GooseMessage → ℕ
  | _, [] => 0
  | old, message :: messages =>
    (if message.stNum ≠ old then 1 else 0) + stNumChanges message.stNum messages

/-! ## Slots of the messages -/

/-- A loop over the data words keeps the length of the buffer. -/
lemma length_storeWords {asdu : Asdu} {base : ℤ} {i : ℕ} {b b' : Buffer}
    (h : storeWords asdu base i b = .ok ((), b')) : b'.length = b.length := by
  fun_induction storeWords asdu base i generalizing b with
  | case1 i hi ih =>
    cases hstore : store 4 (base + i) (asdu.getInt32 i).toInt b with
    | error f =>
      simp only [bind, StateT.bind, hstore, Except.bind] at h
      cases h
    | ok r =>
      rw [bufM_bind_ok hstore] at h
      rw [ih h]
      rw [store] at hstore
      split_ifs at hstore
      obtain rfl := Except.ok.inj hstore
      exact Buffer.length_put _ _ _ _
  | case2 i hi =>
    obtain rfl : b = b' := congrArg Prod.snd (Except.ok.inj h)
    rfl

/-- The data words and a word behind them lie in a slot. -/
lemma storeWords_eq {asdu : Asdu} {base : ℕ} {i : ℕ} {b : Buffer}
    (h : base + asdu.dataSize.toNat + 4 ≤ b.length) :
    ∃ b', storeWords asdu base i b = .ok ((), b') ∧ b'.length = b.length ∧
      ∀ j, j < base ∨ base + asdu.dataSize.toNat + 4 ≤ j → b'.bytes[j]? = b.bytes[j]? := by
  fun_induction storeWords asdu base i generalizing b with
  | case1 i hi ih =>
    have hstore : store 4 ((base : ℤ) + i) (asdu.getInt32 i).toInt b =
        .ok ((), b.put 4 (base + i) (asdu.getInt32 i).toInt) := by
      rw [← Nat.cast_add]
      exact store_eq_ok (by omega)
    obtain ⟨b', hb', hlen, hframe⟩ :=
      ih (b := b.put 4 (base + i) (asdu.getInt32 i).toInt) (by rwa [Buffer.length_put])
    refine ⟨b', ?_, ?_, ?_⟩
    · rw [bufM_bind_ok hstore]
      exact hb'
    · rw [hlen, Buffer.length_put]
    · intro j hj
      rw [hframe j hj]
      exact Buffer.getElem?_put_of_disjoint (by omega)
  | case2 i hi => exact ⟨b, rfl, rfl, fun _ _ => rfl⟩

/-- A message that passes the guard of a ring with 68-byte items has 64 bytes of data. -/
lemma Asdu.Fits.dataSize_eq {asdu : Asdu} (h : asdu.Fits 68) : asdu.dataSize.toNat = 64 := by
  have hlt := asdu.dataSize.isLt
  unfold Asdu.Fits u32 at h
  omega

lemma fillsSlot_storeAsdu {asdu : Asdu} (h : asdu.Fits 68) : FillsSlot 68 (storeAsdu asdu) := by
  have hsize := h.dataSize_eq
  constructor
  · intro b base hfits
    have hroom : base + asdu.dataSize.toNat + 4 ≤ b.length := by omega
    obtain ⟨b', hb', hlen, hframe⟩ := storeWords_eq (i := 0) hroom
    have hstore : store 4 ((base : ℤ) + asdu.dataSize.toNat) asdu.smpCnt.toNat b' =
        .ok ((), b'.put 4 (base + asdu.dataSize.toNat) asdu.smpCnt.toNat) := by
      rw [← Nat.cast_add]
      exact store_eq_ok (by omega)
    refine ⟨b'.put 4 (base + asdu.dataSize.toNat) asdu.smpCnt.toNat, ?_, ?_, ?_⟩
    · rw [storeAsdu, bufM_bind_ok hb', hstore]
    · rw [Buffer.length_put, hlen]
    · intro i hi
      rw [Buffer.getElem?_put_of_disjoint (by omega), hframe i (by omega)]
  · intro b base hexceeds
    cases hwords : storeWords asdu base 0 b with
    | error f =>
      refine ⟨f, ?_⟩
      simp only [storeAsdu, bind, StateT.bind, hwords, Except.bind]
    | ok r =>
      refine ⟨.outOfBounds, ?_⟩
      have hlen := length_storeWords hwords
      rw [storeAsdu, bufM_bind_ok hwords]
      exact if_neg (by omega)

lemma fillsSlot_printToBuffer (message : GooseMessage) :
    FillsSlot 1024 (printToBuffer message.printed) := by
  have hprinted := message.length_printed
  constructor
  · intro b base hfits
    refine ⟨_, if_pos ⟨by omega, by omega⟩, ?_, ?_⟩
    · exact length_overwrite _ _ _
    · intro i hi
      exact getElem?_overwrite_of_disjoint (by omega)
  · intro b base hexceeds
    exact ⟨.outOfBounds, if_neg (by omega)⟩

/-! ## The listeners as feeds -/

/-- What an ASDU writes into its slot, if it passes the guard. -/
def asduFill (itemSize : ℤ) (asdu : Asdu) : Option (ℤ → BufM Unit) :=
  if asdu.Fits itemSize then some (storeAsdu asdu) else none

/-- What a GOOSE message writes into its slot, if its state number is new. -/
def gooseFill (old : BitVec 32) (message : GooseMessage) : Option (ℤ → BufM Unit) :=
  if message.stNum ≠ old then some (printToBuffer message.printed) else none

/-- A store keeps the item size. -/
lemma itemSize_of_storeMessage {fill : ℤ → BufM Unit} {d d' : Subscriber}
    (h : storeMessage fill d = .ok d') : d'.itemSize = d.itemSize := by
  rw [storeMessage] at h
  split_ifs at h
  simp only at h
  split at h
  · cases h
  · split at h
    · cases h
    · rw [← Except.ok.inj h]

/-- The listener for sampled values stores what the guard lets through. -/
lemma lockstep_svUpdateListener : Run.Lockstep svUpdateListener feed id Subscriber.itemSize
    (fun itemSize _ => itemSize) asduFill where
  simulates := by
    intro d asdu d' h
    rw [svUpdateListener] at h
    by_cases hfits : asdu.Fits d.itemSize
    · rw [if_neg (not_not_intro hfits)] at h
      refine ⟨?_, itemSize_of_storeMessage h⟩
      rw [asduFill, if_pos hfits]
      exact h
    · rw [if_pos hfits] at h
      obtain rfl := Except.ok.inj h
      refine ⟨?_, rfl⟩
      rw [asduFill, if_neg hfits]
      rfl
  reflects := by
    intro d asdu d' h
    rw [svUpdateListener]
    by_cases hfits : asdu.Fits d.itemSize
    · rw [asduFill, if_pos hfits] at h
      rw [if_neg (not_not_intro hfits)]
      exact ⟨d', h⟩
    · rw [if_pos hfits]
      exact ⟨d, rfl⟩

/-- The listener for GOOSE messages stores those with a new state number. -/
lemma lockstep_gooseListener : Run.Lockstep gooseListener feed GooseSubscriber.subscriber
    GooseSubscriber.oldStNum (fun _ message => message.stNum) gooseFill where
  simulates := by
    intro g message g' h
    rw [gooseListener] at h
    by_cases hnew : message.stNum ≠ g.oldStNum
    · rw [if_pos hnew] at h
      rw [gooseFill, if_pos hnew, feed]
      cases hstore : storeMessage (printToBuffer message.printed) g.subscriber with
      | error f =>
        simp only [hstore] at h
        cases h
      | ok d =>
        simp only [hstore] at h
        rw [← Except.ok.inj h]
        exact ⟨rfl, rfl⟩
    · rw [if_neg hnew] at h
      obtain rfl := Except.ok.inj h
      rw [gooseFill, if_neg hnew]
      exact ⟨rfl, (not_not.mp hnew).symm⟩
  reflects := by
    intro g message d h
    rw [gooseListener]
    by_cases hnew : message.stNum ≠ g.oldStNum
    · rw [gooseFill, if_pos hnew, feed] at h
      rw [if_pos hnew, h]
      exact ⟨_, rfl⟩
    · rw [if_neg hnew]
      exact ⟨g, rfl⟩

/-- The stores among ASDUs. -/
lemma labels_asduFill (itemSize : ℤ) (asdus : List Asdu) :
    Run.labels (fun itemSize _ => itemSize) asduFill itemSize asdus =
      asdus.map (asduFill itemSize) := by
  induction asdus with
  | nil => rfl
  | cons asdu asdus ih => rw [Run.labels, ih, List.map_cons]

lemma countP_asduFill (itemSize : ℤ) (asdus : List Asdu) :
    (asdus.map (asduFill itemSize)).countP Option.isSome =
      asdus.countP (fun asdu => asdu.Fits itemSize) := by
  rw [List.countP_map]
  apply List.countP_congr
  intro asdu _
  by_cases h : asdu.Fits itemSize <;> simp [asduFill, h]

/-- The stores among GOOSE messages. -/
lemma countP_gooseFill (old : BitVec 32) (messages : List GooseMessage) :
    (Run.labels (fun _ message => message.stNum) gooseFill old messages).countP Option.isSome =
      stNumChanges old messages := by
  induction messages generalizing old with
  | nil => rfl
  | cons message messages ih =>
    rw [Run.labels, List.countP_cons, ih, stNumChanges, gooseFill]
    by_cases h : message.stNum ≠ old
    · simp [h, Nat.add_comm]
    · simp [h]

lemma fillsSlot_of_mem_gooseFill {old : BitVec 32} {messages : List GooseMessage}
    {fill : ℤ → BufM Unit}
    (h : some fill ∈ Run.labels (fun _ message => message.stNum) gooseFill old messages) :
    FillsSlot 1024 fill := by
  induction messages generalizing old with
  | nil => cases h
  | cons message messages ih =>
    rw [Run.labels, List.mem_cons] at h
    rcases h with hhead | htail
    · rw [gooseFill] at hhead
      split_ifs at hhead with hnew
      rw [Option.some.inj hhead]
      exact fillsSlot_printToBuffer message
    · exact ih htail

/-! ## The index in the header -/

/-- Consumers read the private index from the header. -/
def Subscriber.Mirrors (d : Subscriber) : Prop :=
  readIndex d.outputBuffer = .ok (d.bufferIndex, d.outputBuffer)

lemma Subscriber.mirrors_iff {d : Subscriber} (hlen : 12 ≤ d.outputBuffer.length) :
    d.Mirrors ↔ d.outputBuffer.index = d.bufferIndex := by
  have hread : readIndex d.outputBuffer = .ok (d.outputBuffer.index, d.outputBuffer) :=
    load_eq_ok (a := 8) (by omega)
  rw [Subscriber.Mirrors, hread]
  simp

/-- All ASDUs are handled, and after every one stored consumers read the private index. -/
def SvMirrors (d : Subscriber) (asdus : List Asdu) : Prop :=
  (∃ t, Run.exec svUpdateListener d asdus = .ok t) ∧
    ∀ t asdu t', Run.Performs svUpdateListener d asdus t asdu t' → asdu.Fits t.itemSize →
      t'.Mirrors

/-- All GOOSE messages are handled, and after every one stored consumers read the private index. -/
def GooseMirrors (g : GooseSubscriber) (messages : List GooseMessage) : Prop :=
  (∃ t, Run.exec gooseListener g messages = .ok t) ∧
    ∀ t message t', Run.Performs gooseListener g messages t message t' →
      message.stNum ≠ t.oldStNum → t'.subscriber.Mirrors

section Mirrors

variable {length : ℕ} {n : ℤ}

/-- A buffer holds a header after every store. -/
lemma length_of_performs {size : ℕ} {d t t' : Subscriber} {fill : ℤ → BufM Unit}
    {fs : List (Option (ℤ → BufM Unit))} (h : StoreInv size n length d) (hn : 0 < n)
    (hn' : n < 2 ^ 32) (hlen : 16 ≤ length) (hfs : ∀ fill, some fill ∈ fs → FillsSlot size fill)
    (hperf : Run.Performs feed d fs t (some fill) t') : 12 ≤ t'.outputBuffer.length := by
  obtain ⟨pre, hpre, ht, hstep⟩ := hperf
  have hexec := Run.exec_concat_eq_ok.mpr ⟨t, ht, hstep⟩
  obtain ⟨hinv, -⟩ := storeInv_of_exec h hn hn' hlen (fun f hf => hfs f (hpre.subset hf)) hexec
  rw [hinv.length_eq]
  omega

/-- Sampled values: the condition in terms of the ring and the messages. -/
lemma svMirrors_iff {d : Subscriber} (h : StoreInv 68 n length d) (hzero : d.raised = 0)
    (hn : 0 < n) (hn' : n < 2 ^ 31) (hlen : 16 ≤ length) (asdus : List Asdu) :
    SvMirrors d asdus ↔ (n ≤ 256 ∨ asdus.countP (fun asdu => asdu.Fits 68) ≤ 256) ∧
      SlotsFit 68 n (asdus.countP (fun asdu => asdu.Fits 68)) length := by
  have hlabels : Run.labels (fun itemSize _ => itemSize) asduFill d.itemSize asdus =
      asdus.map (asduFill 68) := by
    rw [labels_asduFill, h.itemSize_eq]
    rfl
  have hfs : ∀ fill, some fill ∈ asdus.map (asduFill 68) → FillsSlot 68 fill := by
    intro fill hmem
    obtain ⟨asdu, -, hasdu⟩ := List.mem_map.mp hmem
    rw [asduFill] at hasdu
    split_ifs at hasdu with hfits
    rw [← Option.some.inj hasdu]
    exact fillsSlot_storeAsdu hfits
  have hlen' : ∀ t fill t', Run.Performs feed d (asdus.map (asduFill 68)) t (some fill) t' →
      12 ≤ t'.outputBuffer.length := fun _ _ _ => length_of_performs h hn (by omega) hlen hfs
  have hexec : (∃ t, Run.exec svUpdateListener d asdus = .ok t) ↔
      ∃ t, Run.exec feed d (asdus.map (asduFill 68)) = .ok t := by
    rw [← hlabels]
    constructor
    · rintro ⟨t, ht⟩
      exact ⟨_, lockstep_svUpdateListener.exec ht⟩
    · rintro ⟨t, ht⟩
      exact lockstep_svUpdateListener.exists_exec ht
  rw [← countP_asduFill, ← mirrors_feed_iff h hzero hn (by omega) hlen hfs, SvMirrors, hexec,
    and_congr_right_iff]
  intro _
  constructor
  · intro hmirrors t fill t' hperf
    rw [← hlabels] at hperf
    obtain ⟨u, asdu, u', hsv, rfl, hfill, rfl⟩ := lockstep_svUpdateListener.performs_of hperf
    rw [asduFill] at hfill
    split_ifs at hfill with hfits
    rw [hlabels] at hperf
    exact (Subscriber.mirrors_iff (hlen' _ _ _ hperf)).mp (hmirrors u asdu u' hsv hfits)
  · intro hmirrors t asdu t' hperf hfits
    have hfeed := lockstep_svUpdateListener.performs hperf
    rw [hlabels, asduFill, if_pos hfits] at hfeed
    exact (Subscriber.mirrors_iff (hlen' _ _ _ hfeed)).mpr (hmirrors _ _ _ hfeed)

/-- GOOSE: the condition in terms of the ring and the messages. -/
lemma gooseMirrors_iff {g : GooseSubscriber} (h : StoreInv 1024 n length g.subscriber)
    (hzero : g.subscriber.raised = 0) (hn : 0 < n) (hn' : n < 2 ^ 31) (hlen : 16 ≤ length)
    (messages : List GooseMessage) :
    GooseMirrors g messages ↔ (n ≤ 256 ∨ stNumChanges g.oldStNum messages ≤ 256) ∧
      SlotsFit 1024 n (stNumChanges g.oldStNum messages) length := by
  have hfs : ∀ fill, some fill ∈ Run.labels (fun _ message => message.stNum) gooseFill g.oldStNum
      messages → FillsSlot 1024 fill := fun fill => fillsSlot_of_mem_gooseFill
  have hlen' : ∀ t fill t', Run.Performs feed g.subscriber
      (Run.labels (fun _ message => message.stNum) gooseFill g.oldStNum messages)
      t (some fill) t' → 12 ≤ t'.outputBuffer.length :=
    fun _ _ _ => length_of_performs h hn (by omega) hlen hfs
  have hexec : (∃ t, Run.exec gooseListener g messages = .ok t) ↔
      ∃ t, Run.exec feed g.subscriber
        (Run.labels (fun _ message => message.stNum) gooseFill g.oldStNum messages) = .ok t := by
    constructor
    · rintro ⟨t, ht⟩
      exact ⟨_, lockstep_gooseListener.exec ht⟩
    · rintro ⟨t, ht⟩
      exact lockstep_gooseListener.exists_exec ht
  rw [← countP_gooseFill, ← mirrors_feed_iff h hzero hn (by omega) hlen hfs, GooseMirrors, hexec,
    and_congr_right_iff]
  intro _
  constructor
  · intro hmirrors t fill t' hperf
    obtain ⟨u, message, u', hgoose, rfl, hfill, rfl⟩ := lockstep_gooseListener.performs_of hperf
    rw [gooseFill] at hfill
    split_ifs at hfill with hnew
    exact (Subscriber.mirrors_iff (hlen' _ _ _ hperf)).mp (hmirrors u message u' hgoose hnew)
  · intro hmirrors t message t' hperf hnew
    have hfeed := lockstep_gooseListener.performs hperf
    rw [gooseFill, if_pos hnew] at hfeed
    exact (Subscriber.mirrors_iff (hlen' _ _ _ hfeed)).mpr (hmirrors _ _ _ hfeed)

end Mirrors

/-- An accepted configuration of the GOOSE subscriber sets up the ring. -/
lemma initGooseIn_eq_ok {mmap : ℤ → Option Buffer} {n : ℤ} {g : GooseSubscriber} :
    initGooseIn mmap n = .ok g ↔
      initSubscriberIn mmap TypeCode.goose n = .ok g.subscriber ∧ g.oldStNum = 0 := by
  obtain ⟨d, old⟩ := g
  rw [initGooseIn]
  cases initSubscriberIn mmap TypeCode.goose n with
  | error f => simp
  | ok d' =>
    simp only [Except.ok.injEq, GooseSubscriber.mk.injEq]
    exact and_congr_right fun _ => eq_comm

lemma initGoose_eq_ok {n : ℤ} {g : GooseSubscriber} (h : initGoose n = .ok g) :
    initSubscriber TypeCode.goose n = .ok g.subscriber ∧ g.oldStNum = 0 :=
  initGooseIn_eq_ok.mp h

/-- **Consumers read the private index after every stored message**, and no store leaves the bytes
that can be accessed, exactly if the ring has at most 256 slots or at most 256 messages are stored,
and the slots that the messages take can be accessed.

**Proof sketch.** Both listeners run in lockstep with `feed`, for which `mirrors_feed_iff` says
when the index byte is the whole index. -/
theorem index_mirrored_iff {mmap : ℤ → Option Buffer} (hmmap : MapsPages mmap) {n : ℤ}
    (hn : 1 ≤ n) (hn' : n < 2 ^ 31) :
    (∀ (asdus : List Asdu) (d : Subscriber), initSubscriberIn mmap TypeCode.smv92 n = .ok d →
      (SvMirrors d asdus ↔ (n ≤ 256 ∨ asdus.countP (fun asdu => asdu.Fits 68) ≤ 256) ∧
        SlotsFit 68 n (asdus.countP (fun asdu => asdu.Fits 68)) d.outputBuffer.length)) ∧
    (∀ (messages : List GooseMessage) (g : GooseSubscriber), initGooseIn mmap n = .ok g →
      (GooseMirrors g messages ↔ (n ≤ 256 ∨ stNumChanges 0 messages ≤ 256) ∧
        SlotsFit 1024 n (stNumChanges 0 messages) g.subscriber.outputBuffer.length)) := by
  constructor
  · intro asdus d hinit
    have hsize : typeToItemSize TypeCode.smv92 = (68 : ℕ) := rfl
    obtain ⟨⟨hlen, -⟩, hinv, hzero, -⟩ :=
      storeInv_of_initSubscriberIn hmmap hsize (by omega) hn' hinit
    exact svMirrors_iff hinv hzero (by omega) hn' hlen asdus
  · intro messages g hinit
    obtain ⟨hinit', hold⟩ := initGooseIn_eq_ok.mp hinit
    have hsize : typeToItemSize TypeCode.goose = (1024 : ℕ) := rfl
    obtain ⟨⟨hlen, -⟩, hinv, hzero, -⟩ :=
      storeInv_of_initSubscriberIn hmmap hsize (by omega) hn' hinit'
    rw [gooseMirrors_iff hinv hzero (by omega) hn' hlen, hold]

/-- A sampled value message of 64 bytes. -/
def sampleAsdu : Asdu := ⟨64, fun i => BitVec.ofNat 32 i, 1⟩

/-- A GOOSE message whose dataset is printed as `{true}`. -/
def trueMessage (stNum : BitVec 32) : GooseMessage where
  stNum := stNum
  printed := [123, 116, 114, 117, 101, 125, 0]
  length_printed := by decide

/-- In rings of two slots, which are in a page, three messages are mirrored. -/
theorem index_mirrored_two :
    (∃ d, initSubscriberIn mmapPages TypeCode.smv92 2 = .ok d ∧
      SvMirrors d (List.replicate 3 sampleAsdu)) ∧
    (∃ g, initGooseIn mmapPages 2 = .ok g ∧
      GooseMirrors g [trueMessage 1, trueMessage 2, trueMessage 3]) := by
  have hslots {size count length : ℕ} (hsize : size ≤ 1024) (hroom : 16 + 2 * size ≤ length) :
      SlotsFit size 2 count length := by
    intro s _ hs
    rw [slotOffset_of_le hsize (by omega)]
    have : s * size ≤ 1 * size := Nat.mul_le_mul_right size (by omega)
    omega
  constructor
  · have hsize : typeToItemSize TypeCode.smv92 = (68 : ℕ) := rfl
    have hcalc : calculateBufferSize (68 : ℕ) 2 = 152 := by decide
    obtain ⟨d, hd⟩ := exists_initSubscriberIn mapsPages_mmapPages hsize (n := 2) (by omega)
    obtain ⟨⟨-, hroom⟩, -⟩ :=
      storeInv_of_initSubscriberIn mapsPages_mmapPages hsize (by decide) (by decide) hd
    refine ⟨d, hd, ((index_mirrored_iff mapsPages_mmapPages (by decide) (by decide)).1 _ d hd).mpr
      ⟨Or.inl (by decide), hslots (by decide) (by omega)⟩⟩
  · have hsize : typeToItemSize TypeCode.goose = (1024 : ℕ) := rfl
    have hcalc : calculateBufferSize (1024 : ℕ) 2 = 2064 := by decide
    obtain ⟨d, hd⟩ := exists_initSubscriberIn mapsPages_mmapPages hsize (n := 2) (by omega)
    obtain ⟨⟨-, hroom⟩, -⟩ :=
      storeInv_of_initSubscriberIn mapsPages_mmapPages hsize (by decide) (by decide) hd
    have hg : initGooseIn mmapPages 2 = .ok ⟨d, 0⟩ := initGooseIn_eq_ok.mpr ⟨hd, rfl⟩
    refine ⟨⟨d, 0⟩, hg, ((index_mirrored_iff mapsPages_mmapPages (by decide) (by decide)).2 _
      ⟨d, 0⟩ hg).mpr ⟨Or.inl (by decide), hslots (by decide) ?_⟩⟩
    show 16 + 2 * 1024 ≤ d.outputBuffer.length
    omega

/-- **The header does not mirror the index in general**: in a ring of 257 slots the 257th message
goes to slot 256, and consumers read index `0`. -/
theorem not_svMirrors_replicate :
    ∃ d, initSubscriberIn mmapPages TypeCode.smv92 257 = .ok d ∧
      ¬ SvMirrors d (List.replicate 257 sampleAsdu) := by
  have hsize : typeToItemSize TypeCode.smv92 = (68 : ℕ) := rfl
  obtain ⟨d, hd⟩ := exists_initSubscriberIn mapsPages_mmapPages hsize
    (show 0 < calculateBufferSize (68 : ℕ) 257 by decide)
  obtain ⟨⟨hlen, -⟩, hinv, hzero, -⟩ :=
    storeInv_of_initSubscriberIn mapsPages_mmapPages hsize (by decide) (by decide) hd
  refine ⟨d, hd, ?_⟩
  rw [svMirrors_iff hinv hzero (by decide) (by decide) hlen, List.countP_replicate,
    if_pos (by decide)]
  exact fun hcond => absurd hcond.1 (by decide)

end Tmee
