import Tmee.Lib.Fallible
import Tmee.Lib.Ring
import Tmee.MemFile.Readers
import Tmee.Subscriber.Listeners

set_option relaxedAutoImplicit false
set_option autoImplicit false

/-!
# Consumers that watch the index

Consumers of a ring notice a new message only by its index: they compare the index in the header
with the one they have seen last, which at the start is the index of the empty ring. A subscriber
counts its private index from `-1` on, so that its first message goes to slot `0`, whose number the
header holds from the start.

## Main definitions

* `Tmee.polled` — a listener and a consumer that reads the index after every message.
* `Tmee.Detected` — every stored message changes the index, and the consumer sees it.
* `Tmee.StoresBy` — what a listener does in terms of `Tmee.storeMessage`.

## Main results

* `Tmee.StoresBy.changes_iff` — which stores change the index.
* `Tmee.detected_iff_nothing_stored` — all stores change the index only if there are none.
-/

namespace Tmee

/-- `read_index` returns another value than before. -/
def IndexChanges (b b' : Buffer) : Prop :=
  (readIndex b').map Prod.fst ≠ (readIndex b).map Prod.fst

section Definitions

variable {σ ι : Type} (listener : σ → ι → Except Fault σ) (subscriber : σ → Subscriber)
  (stored : σ → ι → Prop)

/-- A message comes in; then a consumer reads the index and keeps it as its `old_index`. -/
def polled (s : σ × ℤ) (message : ι) : Except Fault (σ × ℤ) := do
  let t ← listener s.1 message
  let (index, _) ← readIndex (subscriber t).outputBuffer
  return (t, index)

/-- **All messages are handled, and every stored one is noticed** by a consumer that starts with
`oldIndex`. -/
def Detected (s : σ) (oldIndex : ℤ) (messages : List ι) : Prop :=
  (∃ t, Run.exec (polled listener subscriber) (s, oldIndex) messages = .ok t) ∧
    ∀ t message t', Run.Performs (polled listener subscriber) (s, oldIndex) messages t message t' →
      stored t.1 message →
      IndexChanges (subscriber t.1).outputBuffer (subscriber t'.1).outputBuffer ∧ t'.2 ≠ t.2

/-- A listener that stores some messages in slots of `size` bytes, and skips the others. -/
structure StoresBy (size : ℕ) : Prop where
  skips : ∀ s message, ¬ stored s message → listener s message = .ok s
  stores : ∀ s message, (subscriber s).itemSize = size → stored s message →
    ∃ fill, FillsSlot size fill ∧
      (listener s message).map subscriber = storeMessage fill (subscriber s)

end Definitions

/-- An ASDU is stored if it passes the guard. -/
def Subscriber.Stores (d : Subscriber) (asdu : Asdu) : Prop := asdu.Fits d.itemSize

/-- A GOOSE message is stored if its state number is not the last one. -/
def GooseSubscriber.Stores (g : GooseSubscriber) (message : GooseMessage) : Prop :=
  message.stNum ≠ g.oldStNum

lemma storesBy_svUpdateListener : StoresBy svUpdateListener id Subscriber.Stores 68 where
  skips := by
    intro d asdu h
    exact if_pos h
  stores := by
    intro d asdu hsize h
    rw [Subscriber.Stores] at h
    have hfits : asdu.Fits 68 := by
      rw [show d.itemSize = 68 from hsize] at h
      exact h
    refine ⟨storeAsdu asdu, fillsSlot_storeAsdu hfits, ?_⟩
    show (svUpdateListener d asdu).map id = storeMessage (storeAsdu asdu) d
    rw [svUpdateListener, if_neg (not_not_intro h)]
    cases storeMessage (storeAsdu asdu) d <;> rfl

lemma storesBy_gooseListener :
    StoresBy gooseListener GooseSubscriber.subscriber GooseSubscriber.Stores 1024 where
  skips := by
    intro g message h
    exact if_neg h
  stores := by
    intro g message _ h
    refine ⟨printToBuffer message.printed, fillsSlot_printToBuffer message, ?_⟩
    rw [GooseSubscriber.Stores] at h
    rw [gooseListener, if_pos h]
    cases storeMessage (printToBuffer message.printed) g.subscriber <;> rfl

/-! ## The index after a number of stores -/

/-- The index consumers read after `k` stores into a ring of `n` slots. -/
def indexAfter (n : ℤ) : ℕ → ℤ
  | 0 => 0
  | k + 1 => k % n % 256

/-- **When the next store changes the index**: it is not the first one, and it does not go from
the last slot to the first one in a ring where both leave the same low byte. -/
lemma indexAfter_succ_ne_iff {n : ℤ} (hn : 2 ≤ n) (k : ℕ) :
    indexAfter n (k + 1) ≠ indexAfter n k ↔ k ≠ 0 ∧ ¬ (n ∣ k ∧ n % 256 = 1) := by
  cases k with
  | zero => simp [indexAfter]
  | succ k =>
    have hone : (1 : ℤ) % n = 1 := Int.emod_eq_of_lt (by decide) (by omega)
    have hprev : (k : ℤ) % n =
        if ((k + 1 : ℕ) : ℤ) % n - 1 < 0 then ((k + 1 : ℕ) : ℤ) % n - 1 + n
        else ((k + 1 : ℕ) : ℤ) % n - 1 := by
      have h := NumberedRing.sub_emod_eq (by omega : 0 < n) ((k + 1 : ℕ) : ℤ) 1
      rw [hone] at h
      rw [← h]
      congr 1
      push_cast
      omega
    have hnonneg := Int.emod_nonneg ((k + 1 : ℕ) : ℤ) (by omega : n ≠ 0)
    have hlt := Int.emod_lt_of_pos ((k + 1 : ℕ) : ℤ) (by omega : 0 < n)
    rw [indexAfter, indexAfter, hprev, Int.dvd_iff_emod_eq_zero]
    generalize ((k + 1 : ℕ) : ℤ) % n = r at *
    split_ifs <;> omega

/-! ## Runs -/

section Runs

variable {σ ι : Type} {listener : σ → ι → Except Fault σ} {subscriber : σ → Subscriber}
  {stored : σ → ι → Prop} {size length : ℕ} {n : ℤ}

lemma polled_eq {s : σ × ℤ} {message : ι} {t : σ} (h : listener s.1 message = .ok t)
    (hlen : 16 ≤ (subscriber t).outputBuffer.length) :
    polled listener subscriber s message = .ok (t, (subscriber t).outputBuffer.index) := by
  simp only [polled, h, Fallible.ok_bind, readIndex_eq hlen]
  rfl

/-- What holds of a listener and a polling consumer: the index is that of the number of stores,
and the consumer has seen it. -/
structure Watched (size : ℕ) (n : ℤ) (length : ℕ) (d : Subscriber) (oldIndex : ℤ) : Prop where
  store : StoreInv size n length d
  index_eq : d.outputBuffer.index = indexAfter n d.raised
  seen : oldIndex = d.outputBuffer.index

/-- A store that succeeds takes the next slot. -/
lemma Watched.store_step {d d' : Subscriber} {oldIndex : ℤ} {fill : ℤ → BufM Unit}
    (h : Watched size n length d oldIndex) (hn : 0 < n) (hn' : n < 2 ^ 31) (hlen : 16 ≤ length)
    (hfill : FillsSlot size fill) (hstep : storeMessage fill d = .ok d') :
    Watched size n length d' d'.outputBuffer.index ∧ d'.raised = d.raised + 1 := by
  obtain ⟨-, hinv, hraised, -, hindex⟩ := storeMessage_of_ok h.store hn (by omega) hlen hfill hstep
  refine ⟨⟨hinv, ?_, rfl⟩, hraised⟩
  rw [hindex, hraised, indexAfter]

/-- **One message and one poll**: a skipped message leaves everything as it is, and a stored one
is one store more. -/
lemma StoresBy.polled_step (hby : StoresBy listener subscriber stored size) {s s' : σ × ℤ}
    {message : ι} (h : Watched size n length (subscriber s.1) s.2) (hn : 0 < n) (hn' : n < 2 ^ 31)
    (hlen : 16 ≤ length) (hstep : polled listener subscriber s message = .ok s') :
    Watched size n length (subscriber s'.1) s'.2 ∧ (¬ stored s.1 message → s' = s) ∧
      (stored s.1 message → (subscriber s'.1).raised = (subscriber s.1).raised + 1) := by
  obtain ⟨t, hlisten, hstep⟩ := Fallible.bind_eq_ok.mp hstep
  obtain ⟨⟨index, b⟩, hread, hstep⟩ := Fallible.bind_eq_ok.mp hstep
  obtain rfl := Except.ok.inj hstep
  by_cases hstored : stored s.1 message
  · obtain ⟨fill, hfill, hstore⟩ := hby.stores s.1 message h.store.itemSize_eq hstored
    rw [hlisten] at hstore
    obtain ⟨hwatched, hraised⟩ := h.store_step hn hn' hlen hfill hstore.symm
    rw [readIndex_eq (by rw [hwatched.store.length_eq]; exact hlen)] at hread
    obtain ⟨rfl, rfl⟩ := Prod.mk.inj (Except.ok.inj hread)
    exact ⟨hwatched, fun hskip => absurd hstored hskip, fun _ => hraised⟩
  · rw [hby.skips s.1 message hstored] at hlisten
    obtain rfl := Except.ok.inj hlisten
    rw [readIndex_eq (by rw [h.store.length_eq]; exact hlen)] at hread
    obtain ⟨rfl, rfl⟩ := Prod.mk.inj (Except.ok.inj hread)
    rw [← h.seen]
    exact ⟨h, fun _ => rfl, fun hcon => absurd hcon hstored⟩

/-- Before every message of a run the consumer has seen the index. -/
lemma StoresBy.watched_of_performs (hby : StoresBy listener subscriber stored size)
    {s t t' : σ × ℤ} {messages : List ι} {message : ι}
    (h : Watched size n length (subscriber s.1) s.2) (hn : 0 < n) (hn' : n < 2 ^ 31)
    (hlen : 16 ≤ length)
    (hperf : Run.Performs (polled listener subscriber) s messages t message t') :
    Watched size n length (subscriber t.1) t.2 := by
  have hkeep : ∀ (u : σ × ℤ) (m : ι) (u' : σ × ℤ), Watched size n length (subscriber u.1) u.2 →
      polled listener subscriber u m = .ok u' → Watched size n length (subscriber u'.1) u'.2 :=
    fun _ _ _ hu hstep => (hby.polled_step hu hn hn' hlen hstep).1
  exact hperf.invariant hkeep h

/-- The index of a buffer that holds a header has changed if its field has. -/
lemma indexChanges_iff {b b' : Buffer} (h : 16 ≤ b.length) (h' : 16 ≤ b'.length) :
    IndexChanges b b' ↔ b'.index ≠ b.index := by
  simp [IndexChanges, readIndex_eq h, readIndex_eq h', Except.map]

/-- **Which stores are noticed**: in every run, a stored message changes the index and is seen by
the consumer exactly if it is not the first one stored, and does not go from the last slot to
the first one in a ring of `n` slots with `n % 256 = 1`.

**Proof sketch.** Every message and poll keeps the index at `indexAfter` of the number of stores,
which `indexAfter_succ_ne_iff` compares before and after a store. -/
theorem StoresBy.changes_iff (hby : StoresBy listener subscriber stored size)
    {s t t' : σ × ℤ} {messages : List ι} {message : ι}
    (h : Watched size n length (subscriber s.1) s.2) (hn : 2 ≤ n) (hn' : n < 2 ^ 31)
    (hlen : 16 ≤ length)
    (hperf : Run.Performs (polled listener subscriber) s messages t message t')
    (hstored : stored t.1 message) :
    IndexChanges (subscriber t.1).outputBuffer (subscriber t'.1).outputBuffer ∧ t'.2 ≠ t.2 ↔
      (subscriber t.1).raised ≠ 0 ∧ ¬ (n ∣ (subscriber t.1).raised ∧ n % 256 = 1) := by
  have ht := hby.watched_of_performs h (by omega) hn' hlen hperf
  obtain ⟨ht', -, hraised⟩ := hby.polled_step ht (by omega) hn' hlen hperf.step_eq
  have hb : 16 ≤ (subscriber t.1).outputBuffer.length := by rwa [ht.store.length_eq]
  have hb' : 16 ≤ (subscriber t'.1).outputBuffer.length := by rwa [ht'.store.length_eq]
  rw [indexChanges_iff hb hb', ht'.seen, ht.seen, and_self, ht'.index_eq, ht.index_eq,
    hraised hstored, indexAfter_succ_ne_iff hn]

/-- A message that is skipped leaves a consumer that has seen the index as it is. -/
lemma StoresBy.polled_of_not_stored (hby : StoresBy listener subscriber stored size) {s : σ}
    {oldIndex : ℤ} {message : ι} (h : Watched size n length (subscriber s) oldIndex)
    (hlen : 16 ≤ length) (hskip : ¬ stored s message) :
    polled listener subscriber (s, oldIndex) message = .ok (s, oldIndex) := by
  rw [polled_eq (hby.skips s message hskip) (by rw [h.store.length_eq]; exact hlen), h.seen]

/-- If none of the messages is stored in the state at the start, all are skipped. -/
lemma StoresBy.exec_of_none (hby : StoresBy listener subscriber stored size) {s : σ}
    {oldIndex : ℤ} {messages : List ι} (h : Watched size n length (subscriber s) oldIndex)
    (hlen : 16 ≤ length) (hnone : ∀ message ∈ messages, ¬ stored s message) :
    Run.exec (polled listener subscriber) (s, oldIndex) messages = .ok (s, oldIndex) := by
  induction messages with
  | nil => rfl
  | cons message messages ih =>
    rw [List.forall_mem_cons] at hnone
    exact Run.exec_cons_eq_ok.mpr ⟨_, hby.polled_of_not_stored h hlen hnone.1, ih hnone.2⟩

/-- **Every stored message is noticed** only if there is none.

**Proof sketch.** Skipped messages change nothing, so the first message that is stored meets the
ring as it was set up, with the index of the slot it goes to. -/
theorem StoresBy.detected_iff (hby : StoresBy listener subscriber stored size) {s : σ}
    {oldIndex : ℤ} (h : Watched size n length (subscriber s) oldIndex)
    (hzero : (subscriber s).raised = 0) (hn : 2 ≤ n) (hn' : n < 2 ^ 31) (hlen : 16 ≤ length)
    (messages : List ι) :
    Detected listener subscriber stored s oldIndex messages ↔
      ∀ message ∈ messages, ¬ stored s message := by
  constructor
  · rintro ⟨⟨t, ht⟩, hnoticed⟩
    induction messages with
    | nil => simp
    | cons message messages ih =>
      obtain ⟨s', hs', hrest⟩ := Run.exec_cons_eq_ok.mp ht
      have hskip : ¬ stored s message := by
        intro hstored
        have hperf : Run.Performs (polled listener subscriber) (s, oldIndex) (message :: messages)
            (s, oldIndex) message s' := Run.performs_head hs'
        have hchanges := hnoticed _ _ _ hperf hstored
        exact ((hby.changes_iff h hn hn' hlen hperf hstored).mp hchanges).1 hzero
      have hsame := hby.polled_of_not_stored h hlen hskip
      obtain rfl := Except.ok.inj (hsame.symm.trans hs')
      rw [List.forall_mem_cons]
      exact ⟨hskip, ih (fun t m t' hperf => hnoticed t m t' (hperf.cons hsame)) hrest⟩
  · intro hnone
    refine ⟨⟨_, hby.exec_of_none h hlen hnone⟩, ?_⟩
    rintro t message t' ⟨pre, hpre, ht, -⟩ hstored
    have hpre' : Run.exec (polled listener subscriber) (s, oldIndex) pre = .ok (s, oldIndex) :=
      hby.exec_of_none h hlen fun m hm => hnone m (hpre.subset (List.mem_append_left _ hm))
    obtain rfl := Except.ok.inj (hpre'.symm.trans ht)
    exact absurd hstored (hnone message (hpre.subset (by simp)))

end Runs

/-! ## The subscribers -/

section Subscribers

variable {mmap : ℤ → Option Buffer} {type n oldIndex : ℤ} {size : ℕ}

/-- A ring that has just been set up, and a consumer that starts with the index in its header or
with `0`, which is the same. -/
lemma watched_of_init {d : Subscriber} (hmmap : MapsPages mmap)
    (hsize : typeToItemSize type = size) (hn : 0 < n) (hn' : n < 2 ^ 31)
    (hinit : initSubscriberIn mmap type n = .ok d)
    (hold : oldIndex = 0 ∨ readIndex d.outputBuffer = .ok (oldIndex, d.outputBuffer)) :
    16 ≤ d.outputBuffer.length ∧ Watched size n d.outputBuffer.length d oldIndex ∧
      d.raised = 0 := by
  obtain ⟨⟨hlen, -⟩, hinv, hzero, hindex⟩ :=
    storeInv_of_initSubscriberIn hmmap hsize hn hn' hinit
  refine ⟨hlen, ⟨hinv, ?_, ?_⟩, hzero⟩
  · rw [hindex, hzero, indexAfter]
  · rcases hold with rfl | hread
    · exact hindex.symm
    · rw [readIndex_eq hlen] at hread
      exact (Prod.mk.inj (Except.ok.inj hread)).1.symm

end Subscribers

/-- **No subscriber is noticed from its first message on**: for rings of at least two slots, all
messages are handled and the stored ones change the index, as consumers see it, only if none is
stored. In every run the stored messages that do are those behind the first one, except for those
that go from slot `n - 1` to slot `0` in a ring of `n` slots with `n % 256 = 1`. -/
theorem detected_iff_nothing_stored {mmap : ℤ → Option Buffer} (hmmap : MapsPages mmap) {n : ℤ}
    (hn : 2 ≤ n) (hn' : n < 2 ^ 31) :
    (∀ (d : Subscriber) (oldIndex : ℤ) (asdus : List Asdu),
      initSubscriberIn mmap TypeCode.smv92 n = .ok d →
      oldIndex = 0 ∨ readIndex d.outputBuffer = .ok (oldIndex, d.outputBuffer) →
      (Detected svUpdateListener id Subscriber.Stores d oldIndex asdus ↔
        ∀ asdu ∈ asdus, ¬ asdu.Fits 68) ∧
      ∀ t asdu t', Run.Performs (polled svUpdateListener id) (d, oldIndex) asdus t asdu t' →
        t.1.Stores asdu →
        (IndexChanges t.1.outputBuffer t'.1.outputBuffer ∧ t'.2 ≠ t.2 ↔
          t.1.raised ≠ 0 ∧ ¬ (n ∣ t.1.raised ∧ n % 256 = 1))) ∧
    (∀ (g : GooseSubscriber) (oldIndex : ℤ) (messages : List GooseMessage),
      initGooseIn mmap n = .ok g →
      oldIndex = 0 ∨
        readIndex g.subscriber.outputBuffer = .ok (oldIndex, g.subscriber.outputBuffer) →
      (Detected gooseListener GooseSubscriber.subscriber GooseSubscriber.Stores g oldIndex
          messages ↔ ∀ message ∈ messages, message.stNum = 0) ∧
      ∀ t message t',
        Run.Performs (polled gooseListener GooseSubscriber.subscriber) (g, oldIndex) messages
          t message t' →
        t.1.Stores message →
        (IndexChanges t.1.subscriber.outputBuffer t'.1.subscriber.outputBuffer ∧ t'.2 ≠ t.2 ↔
          t.1.subscriber.raised ≠ 0 ∧ ¬ (n ∣ t.1.subscriber.raised ∧ n % 256 = 1))) := by
  constructor
  · intro d oldIndex asdus hinit hold
    have hsize : typeToItemSize TypeCode.smv92 = (68 : ℕ) := rfl
    obtain ⟨hlen, hwatched, hzero⟩ := watched_of_init hmmap hsize (by omega) hn' hinit hold
    have hitem : d.itemSize = 68 := hwatched.store.itemSize_eq
    constructor
    · rw [storesBy_svUpdateListener.detected_iff hwatched hzero hn hn' hlen]
      simp only [Subscriber.Stores, hitem]
    · intro t asdu t' hperf hstored
      exact storesBy_svUpdateListener.changes_iff hwatched hn hn' hlen hperf hstored
  · intro g oldIndex messages hinit hold
    obtain ⟨hinit', hst⟩ := initGooseIn_eq_ok.mp hinit
    have hsize : typeToItemSize TypeCode.goose = (1024 : ℕ) := rfl
    obtain ⟨hlen, hwatched, hzero⟩ := watched_of_init hmmap hsize (by omega) hn' hinit' hold
    constructor
    · rw [storesBy_gooseListener.detected_iff hwatched hzero hn hn' hlen]
      simp only [GooseSubscriber.Stores, hst, ne_eq, not_not]
    · intro t message t' hperf hstored
      exact storesBy_gooseListener.changes_iff hwatched hn hn' hlen hperf hstored

/-- Rings of two slots: a message that passes the guard is not noticed, and one that does not
changes nothing. -/
theorem detected_iff_two :
    (∃ d, initSubscriberIn mmapPages TypeCode.smv92 2 = .ok d ∧
      Detected svUpdateListener id Subscriber.Stores d 0 [{ sampleAsdu with dataSize := 60 }] ∧
      ¬ Detected svUpdateListener id Subscriber.Stores d 0
        [{ sampleAsdu with dataSize := 60 }, sampleAsdu]) ∧
    (∃ g, initGooseIn mmapPages 2 = .ok g ∧
      Detected gooseListener GooseSubscriber.subscriber GooseSubscriber.Stores g 0
        [trueMessage 0] ∧
      ¬ Detected gooseListener GooseSubscriber.subscriber GooseSubscriber.Stores g 0
        [trueMessage 0, trueMessage 1]) := by
  constructor
  · obtain ⟨d, hd⟩ := exists_initSubscriberIn mapsPages_mmapPages
      (show typeToItemSize TypeCode.smv92 = (68 : ℕ) from rfl)
      (show 0 < calculateBufferSize (68 : ℕ) 2 by decide)
    have hiff := fun asdus => ((detected_iff_nothing_stored mapsPages_mmapPages (by decide)
      (by decide)).1 d 0 asdus hd (Or.inl rfl)).1
    exact ⟨d, hd, (hiff _).mpr (by decide), fun h => absurd ((hiff _).mp h) (by decide)⟩
  · obtain ⟨d, hd⟩ := exists_initSubscriberIn mapsPages_mmapPages
      (show typeToItemSize TypeCode.goose = (1024 : ℕ) from rfl)
      (show 0 < calculateBufferSize (1024 : ℕ) 2 by decide)
    have hg : initGooseIn mmapPages 2 = .ok ⟨d, 0⟩ := initGooseIn_eq_ok.mpr ⟨hd, rfl⟩
    have hiff := fun messages => ((detected_iff_nothing_stored mapsPages_mmapPages (by decide)
      (by decide)).2 ⟨d, 0⟩ 0 messages hg (Or.inl rfl)).1
    exact ⟨⟨d, 0⟩, hg, (hiff _).mpr (by decide), fun h => absurd ((hiff _).mp h) (by decide)⟩

/-- **The first message is missed**: in a ring of two slots it leaves the index at `0`, where a
consumer has found it before. -/
theorem not_detected_first :
    ∃ d, initSubscriberIn mmapPages TypeCode.smv92 2 = .ok d ∧
      readIndex d.outputBuffer = .ok (0, d.outputBuffer) ∧
      ¬ Detected svUpdateListener id Subscriber.Stores d 0 [sampleAsdu] := by
  have hsize : typeToItemSize TypeCode.smv92 = (68 : ℕ) := rfl
  obtain ⟨d, hd⟩ := exists_initSubscriberIn mapsPages_mmapPages hsize
    (show 0 < calculateBufferSize (68 : ℕ) 2 by decide)
  obtain ⟨hlen, hwatched, hzero⟩ := watched_of_init mapsPages_mmapPages hsize (by decide)
    (by decide) hd (Or.inl (Eq.refl (0 : ℤ)))
  have hitem : d.itemSize = 68 := hwatched.store.itemSize_eq
  refine ⟨d, hd, ?_, ?_⟩
  · rw [readIndex_eq hlen, ← hwatched.seen]
  · rw [storesBy_svUpdateListener.detected_iff hwatched hzero le_rfl (by decide) hlen]
    simp only [Subscriber.Stores, hitem]
    decide

end Tmee
