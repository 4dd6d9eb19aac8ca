import Tmee.GoosePublisher.StateNumbers
import Tmee.Lib.Link
import Tmee.Subscriber.RoundTrip

set_option relaxedAutoImplicit false
set_option autoImplicit false

/-!
# From the GOOSE publisher to the ring of a subscriber

The network between `goose_publisher` and `goose_subscriber` may lose messages and deliver them more
than once; for this the publisher repeats them. The subscriber stores a message if its state number
differs from the last one, so that its ring should hold the states, each once. The GOOSE library is
a parameter: which number is sent for the number of increases, and how the values are printed.

## Main definitions

* `Tmee.GooseLibrary` — the library, and what the subscriber gets of a message.
* `Tmee.GooseRing` — the ring after the messages stored.
* `Tmee.deliveredStates` — the states of which some message got through.
* `Tmee.HoldsTexts` — the ring as its readers see it.

## Main results

* `Tmee.GooseRing.push` — one message stored.
* `Tmee.goose_states_delivered` — the ring holds the states delivered, each once, in order.
-/

namespace Tmee

open ByteMem

/-! ## The library -/

/-- The GOOSE library, as far as the two modules see it. -/
structure GooseLibrary where
  /-- The state number sent after a number of increases. -/
  number : ℕ → BitVec 32
  /-- What `MmsValue_printToBuffer` writes for the values of a dataset. -/
  print : List MmsValue → List UInt8
  length_print : ∀ values, (print values).length ≤ 1024

namespace GooseLibrary

variable (lib : GooseLibrary)

/-- A message as the subscriber gets it. -/
def received (m : GoosePublication) : GooseMessage :=
  ⟨lib.number m.stNum, lib.print m.dataSetValues, lib.length_print m.dataSetValues⟩

/-- Up to `n` increases, the numbers sent are different and not `0`. -/
structure NumbersUpTo (n : ℕ) : Prop where
  injOn : ∀ i ≤ n, ∀ j ≤ n, lib.number i = lib.number j → i = j
  ne_zero : ∀ i ≤ n, lib.number i ≠ 0

end GooseLibrary

/-- The datasets of the states of which some message has been delivered. -/
def deliveredStates (sent delivered : List GoosePublication) : List (List MmsValue) :=
  ((Link.taken GoosePublication.stNum sent).filter fun m =>
    m.stNum ∈ delivered.map GoosePublication.stNum).map GoosePublication.dataSetValues

/-- **The ring as readers see it**: an event was raised for each text, and the slot `j` places
behind the last one starts with the text stored `j` stores ago, for the last `n` of them. -/
structure HoldsTexts (n : ℤ) (texts : List (List UInt8)) (d : Subscriber) : Prop where
  raised_eq : d.raised = texts.length
  slot_eq : ∀ (j : ℕ) text, (j : ℤ) < n → texts.reverse[j]? = some text →
    window d.outputBuffer.bytes (16 + 1024 * ((d.bufferIndex - j) % n).toNat) text.length = text

/-! ## One message -/

/-- **The ring after the messages** `stored`. -/
structure GooseRing (n : ℤ) (stored : List GooseMessage) (d : Subscriber) : Prop where
  stores : StoreInv 1024 n (16 + 1024 * n.toNat) d
  raised_eq : d.raised = stored.length
  index_eq : stored ≠ [] → d.bufferIndex = (stored.length - 1) % n
  held : ∀ (k : ℕ) (m : GooseMessage), stored[k]? = some m → (stored.length : ℤ) ≤ k + n →
    window d.outputBuffer.bytes (16 + 1024 * ((k : ℤ) % n).toNat) m.printed.length = m.printed

section Ring

variable {n : ℤ} {stored : List GooseMessage} {d d' : Subscriber} {m : GooseMessage}

/-- The offsets of the slots of a ring whose size fits an `int`. -/
lemma slotOffset_goose {s : ℤ} (hsize : 16 + 1024 * n < 2 ^ 31) (h₀ : 0 ≤ s) (h₁ : s < n) :
    slotOffset 1024 s = 16 + 1024 * s.toNat := by
  have hwrap : u32 (s * (1024 : ℕ)) = s * 1024 :=
    Int.emod_eq_of_lt (by omega) (by push_cast; omega)
  rw [slotOffset, hwrap]
  omega

/-- A text printed into its slot. -/
lemma printToBuffer_spec {base : ℕ} {b b' : Buffer} (hfits : base + 1024 ≤ b.length)
    (h : printToBuffer m.printed base b = .ok ((), b')) : b'.length = b.length ∧
      window b'.bytes base m.printed.length = m.printed ∧
      ∀ i, i < base ∨ base + 1024 ≤ i → b'.bytes[i]? = b.bytes[i]? := by
  have hprinted := m.length_printed
  have hroom : base + m.printed.length ≤ b.bytes.length := by
    unfold Buffer.length at hfits
    omega
  rw [printToBuffer, if_pos ⟨by omega, by omega⟩] at h
  obtain rfl := congrArg Prod.snd (Except.ok.inj h)
  refine ⟨length_overwrite _ _ _, window_overwrite_self hroom, ?_⟩
  · intro i hi
    exact getElem?_overwrite_of_disjoint (by omega)

/-- Two numbers of a ring that are less than a ring apart have different slots. -/
lemma slot_ne_of_lt {k l : ℕ} (hn : 1 ≤ n) (hlt : k < l) (hring : (l : ℤ) < k + n) :
    ((k : ℤ) % n).toNat ≠ ((l : ℤ) % n).toNat := by
  have hk := Int.emod_nonneg (k : ℤ) (by omega : n ≠ 0)
  have hl := Int.emod_nonneg (l : ℤ) (by omega : n ≠ 0)
  intro heq
  have hsame : (k : ℤ) % n = (l : ℤ) % n := by omega
  have := NumberedRing.eq_of_emod_eq hsame (by omega) (by omega)
  omega

/-- What the store of a message does: it fills the next slot, and the bytes of all others stay as
they are. -/
lemma GooseRing.exists_store (h : GooseRing n stored d) (hn : 1 ≤ n)
    (hsize : 16 + 1024 * n < 2 ^ 31) :
    ∃ d', storeMessage (printToBuffer m.printed) d = .ok d' ∧
      StoreInv 1024 n (16 + 1024 * n.toNat) d' ∧ d'.raised = d.raised + 1 ∧
      d'.bufferIndex = (stored.length : ℤ) % n ∧
      window d'.outputBuffer.bytes (16 + 1024 * ((stored.length : ℤ) % n).toNat) m.printed.length =
        m.printed ∧
      ∀ i, 16 ≤ i → (i < 16 + 1024 * ((stored.length : ℤ) % n).toNat ∨
        16 + 1024 * ((stored.length : ℤ) % n).toNat + 1024 ≤ i) →
        d'.outputBuffer.bytes[i]? = d.outputBuffer.bytes[i]? := by
  have hlen := h.stores.length_eq
  have hraised : (d.raised : ℤ) % n = (stored.length : ℤ) % n := by rw [h.raised_eq]
  have hs₀ : 0 ≤ (stored.length : ℤ) % n := Int.emod_nonneg _ (by omega)
  have hs₁ : (stored.length : ℤ) % n < n := Int.emod_lt_of_pos _ (by omega)
  generalize (stored.length : ℤ) % n = s at *
  have hoffset : slotOffset 1024 s = 16 + 1024 * s.toNat := slotOffset_goose hsize hs₀ hs₁
  obtain ⟨d', hd', hstores, hcount, hindex, -⟩ := storeMessage_eq h.stores (by omega) (by omega)
    (by omega) (fillsSlot_printToBuffer m) (by rw [hraised, hoffset]; omega)
  obtain ⟨b, hfill, hput⟩ := outputBuffer_of_storeMessage h.stores (by omega) hd'
  rw [hraised, hoffset] at hfill
  rw [hraised] at hput
  obtain ⟨hblen, htext, hframe⟩ := printToBuffer_spec (by omega) hfill
  have hput' : store 1 8 s b = .ok ((), b.put 1 8 s) := store_eq_ok (a := 8) (by omega)
  have hout : d'.outputBuffer = b.put 1 8 s :=
    congrArg Prod.snd (Except.ok.inj (hput.symm.trans hput'))
  have hheader : ∀ i, 16 ≤ i → d'.outputBuffer.bytes[i]? = b.bytes[i]? := by
    intro i hi
    rw [hout]
    exact Buffer.getElem?_put_of_disjoint (by omega)
  refine ⟨d', hd', hstores, hcount, hindex.trans hraised, ?_, fun i hi hother => ?_⟩
  · exact (window_congr fun i _ => hheader _ (by omega)).trans htext
  · rw [hheader i hi, hframe i hother]

/-- **One message stored** is one more in the ring. -/
lemma GooseRing.push (h : GooseRing n stored d) (hn : 1 ≤ n) (hsize : 16 + 1024 * n < 2 ^ 31) :
    ∃ d', storeMessage (printToBuffer m.printed) d = .ok d' ∧ GooseRing n (stored ++ [m]) d' := by
  obtain ⟨d', hd', hstores, hcount, hindex, htext, hframe⟩ := h.exists_store (m := m) hn hsize
  refine ⟨d', hd', hstores, ?_, ?_, ?_⟩
  · rw [hcount, h.raised_eq, List.length_append, List.length_singleton]
  · intro _
    rw [hindex, List.length_append, List.length_singleton]
    push_cast
    rw [add_sub_cancel_right]
  · intro k m' hm' hlast
    rw [List.length_append, List.length_singleton] at hlast
    push_cast at hlast
    rcases Nat.lt_or_ge k stored.length with hlt | hge
    · -- an earlier message, in another slot
      rw [List.getElem?_append_left hlt] at hm'
      have hne := slot_ne_of_lt hn hlt (by omega)
      have hprinted := m'.length_printed
      refine Eq.trans (window_congr fun i hi => ?_) (h.held k m' hm' (by omega))
      exact hframe _ (by omega) (by omega)
    · -- the message just stored
      obtain ⟨hk, hlast'⟩ := List.getElem?_eq_some_iff.mp hm'
      rw [List.length_append, List.length_singleton] at hk
      obtain rfl : k = stored.length := by omega
      rw [List.getElem_concat_length rfl] at hlast'
      subst hlast'
      exact htext

/-- A ring that has just been set up has stored nothing. -/
lemma gooseRing_of_init (hn : 1 ≤ n) (hsize : 16 + 1024 * n < 2 ^ 31) :
    ∃ g, initGoose n = .ok g ∧ g.oldStNum = 0 ∧ GooseRing n [] g.subscriber := by
  have hcode : typeToItemSize TypeCode.goose = (1024 : ℕ) := rfl
  have hcalc : calculateBufferSize (1024 : ℕ) n = 16 + 1024 * n := by
    rw [calculateBufferSize, wrap32]
    exact Int.bmod_eq_of_le_mul_two (by push_cast; omega) (by push_cast; omega)
  have hlen : 16 ≤ calculateBufferSize (1024 : ℕ) n := by omega
  obtain ⟨d, hd, hstores, hraised⟩ := initSubscriber_eq hcode (by omega) (by omega) hlen
  rw [hcalc, show (16 + 1024 * n).toNat = 16 + 1024 * n.toNat by omega] at hstores
  exact ⟨⟨d, 0⟩, initGooseIn_eq_ok.mpr ⟨hd, rfl⟩, rfl, hstores, hraised,
    fun hne => absurd rfl hne, fun k m hm => by simp at hm⟩

/-- **Run lemma**: the listener takes every message, and stores those with a new number. -/
lemma GooseRing.exec {g : GooseSubscriber} (h : GooseRing n stored g.subscriber) (hn : 1 ≤ n)
    (hsize : 16 + 1024 * n < 2 ^ 31) (messages : List GooseMessage) :
    ∃ g', Run.exec gooseListener g messages = .ok g' ∧ GooseRing n
      (stored ++ Link.takenFrom GooseMessage.stNum g.oldStNum messages) g'.subscriber := by
  induction messages generalizing g stored with
  | nil => exact ⟨g, rfl, by simpa [Link.takenFrom] using h⟩
  | cons m messages ih =>
    by_cases hnew : m.stNum ≠ g.oldStNum
    · obtain ⟨d', hd', hring⟩ := h.push (m := m) hn hsize
      have hstep : gooseListener g m = .ok ⟨d', m.stNum⟩ := by
        rw [gooseListener, if_pos hnew]
        simp only [hd']
      obtain ⟨g', hg', hring'⟩ := ih (g := ⟨d', m.stNum⟩) hring
      refine ⟨g', Run.exec_cons_eq_ok.mpr ⟨_, hstep, hg'⟩, ?_⟩
      rw [Link.takenFrom, if_pos hnew, List.append_cons]
      exact hring'
    · have hstep : gooseListener g m = .ok g := by rw [gooseListener, if_neg hnew]
      obtain ⟨g', hg', hring'⟩ := ih h
      refine ⟨g', Run.exec_cons_eq_ok.mpr ⟨_, hstep, hg'⟩, ?_⟩
      rwa [Link.takenFrom, if_neg hnew]

/-- What readers see of the ring. -/
lemma GooseRing.holdsTexts (h : GooseRing n stored d) :
    HoldsTexts n (stored.map GooseMessage.printed) d := by
  refine ⟨by rw [h.raised_eq, List.length_map], fun j text hj htext => ?_⟩
  rw [← List.map_reverse, List.getElem?_map, Option.map_eq_some_iff] at htext
  obtain ⟨m, hm, rfl⟩ := htext
  have hlt : j < stored.length := by
    obtain ⟨hlt, -⟩ := List.getElem?_eq_some_iff.mp hm
    simpa using hlt
  rw [List.getElem?_reverse hlt] at hm
  have hslot : (d.bufferIndex - j) % n = ((stored.length - 1 - j : ℕ) : ℤ) % n := by
    rw [h.index_eq (List.ne_nil_of_length_pos (by omega)), Int.emod_sub_emod]
    congr 1
    omega
  rw [hslot]
  exact h.held _ m hm (by omega)

end Ring

/-! ## The states that get through -/

section States

variable {sent delivered : List GoosePublication}

/-- The states that get through are those of the messages that do. -/
lemma mem_deliveredStates_iff (hsorted : (sent.map GoosePublication.stNum).SortedLE)
    (hcoherent : ∀ m ∈ sent, ∀ m' ∈ sent, m.stNum = m'.stNum → m.dataSetValues = m'.dataSetValues)
    (hsubset : delivered ⊆ sent) (values : List MmsValue) :
    values ∈ deliveredStates sent delivered ↔ ∃ m ∈ delivered, m.dataSetValues = values := by
  rw [deliveredStates, List.mem_map]
  constructor
  · rintro ⟨m, hm, rfl⟩
    obtain ⟨htaken, hnum⟩ := List.mem_filter.mp hm
    obtain ⟨m', hm', heq⟩ := List.mem_map.mp (of_decide_eq_true hnum)
    exact ⟨m', hm', hcoherent m' (hsubset hm') m (Link.taken_subset sent htaken) heq⟩
  · rintro ⟨m, hm, rfl⟩
    obtain ⟨m', hm', heq⟩ := List.mem_map.mp ((Link.mem_map_taken hsorted).mpr
      (List.mem_map_of_mem (f := GoosePublication.stNum) (hsubset hm)))
    refine ⟨m', List.mem_filter.mpr ⟨hm', decide_eq_true ?_⟩,
      hcoherent m' (Link.taken_subset sent hm') m (hsubset hm) heq⟩
    rw [heq]
    exact List.mem_map_of_mem hm

/-- What a later state keeps of an earlier one is kept among those that get through. -/
lemma pairwise_deliveredStates {p : List MmsValue → Prop}
    (hsorted : (sent.map GoosePublication.stNum).SortedLE)
    (hkeeps : ∀ m ∈ sent, ∀ m' ∈ sent, m.stNum ≤ m'.stNum → p m.dataSetValues → p m'.dataSetValues)
    (delivered : List GoosePublication) :
    (deliveredStates sent delivered).Pairwise fun values values' => p values → p values' := by
  have htaken := List.pairwise_map.mp (Link.sortedLT_map_taken hsorted).pairwise
  rw [deliveredStates, List.pairwise_map]
  refine List.Pairwise.imp_of_mem ?_ (htaken.sublist List.filter_sublist)
  intro m m' hm hm' hlt
  exact hkeeps m (Link.taken_subset sent (List.mem_of_mem_filter hm)) m'
    (Link.taken_subset sent (List.mem_of_mem_filter hm')) hlt.le

end States

/-! ## Runs -/

/-- What a publisher has sent that numbers its states, received after any loss and repetition. -/
lemma StatesInv.exists_goose {p : Publisher} {delivered : List GoosePublication}
    (hinv : StatesInv p) (hlink : Link.Carries p.published delivered) (lib : GooseLibrary)
    (hnumber : lib.NumbersUpTo p.stNum) {n : ℤ} (hn : 1 ≤ n) (hsize : 16 + 1024 * n < 2 ^ 31) :
    ∃ g₀ g, initGoose n = .ok g₀ ∧
      Run.exec gooseListener g₀ (delivered.map lib.received) = .ok g ∧
      HoldsTexts n ((deliveredStates p.published delivered).map lib.print) g.subscriber := by
  have hle : ∀ m ∈ delivered, m.stNum ≤ p.stNum := fun m hm => hinv.stNum_le m (hlink.subset hm)
  obtain ⟨g₀, hg₀, hold, hring⟩ := gooseRing_of_init hn hsize
  obtain ⟨g, hg, hring'⟩ := hring.exec hn hsize (delivered.map lib.received)
  refine ⟨g₀, g, hg₀, hg, ?_⟩
  have hfresh : ∀ m ∈ delivered.map lib.received, m.stNum ≠ (0 : BitVec 32) := by
    rintro m hm
    obtain ⟨m, hmem, rfl⟩ := List.mem_map.mp hm
    exact hnumber.ne_zero _ (hle m hmem)
  have hsame : ∀ a ∈ delivered, ∀ b ∈ delivered,
      (lib.received a).stNum = (lib.received b).stNum ↔ a.stNum = b.stNum := fun a ha b hb =>
    ⟨hnumber.injOn _ (hle a ha) _ (hle b hb), fun heq => congrArg lib.number heq⟩
  have htexts := hring'.holdsTexts
  rw [hold, List.nil_append, Link.takenFrom_eq hfresh, Link.taken_map hsame, List.map_map] at htexts
  have hstates : (Link.taken GoosePublication.stNum delivered).map GoosePublication.dataSetValues =
      deliveredStates p.published delivered := hlink.map_taken_eq hinv.ordered hinv.coherent
  rw [← hstates, List.map_map]
  exact htexts

/-- **The ring of a subscriber holds the states delivered.** For every run of the publisher, every
loss and repetition on the way, and every size of the ring: the listener takes all messages, and
its ring holds the datasets of the states of which some message got through, each once and in the
order of their numbers.

**Proof sketch.** The publisher numbers its states (`statesInv_publisherStep`), so what a receiver
takes that looks at the numbers alone is known (`Link.Carries.map_taken_eq`); the listener is that
receiver (`GooseRing.exec`). -/
theorem goose_states_delivered {ttl gooseFastRetransmitTtl maxLag now : ℤ} {buffers : List Buffer}
    {p₀ p : Publisher} {is : List PublisherInput} {delivered : List GoosePublication}
    (hinit : initPublisher ttl gooseFastRetransmitTtl maxLag buffers now = .ok p₀)
    (hrun : Run.exec publisherStep p₀ is = .ok p) (hlink : Link.Carries p.published delivered)
    (lib : GooseLibrary) (hnumber : lib.NumbersUpTo p.stNum) {n : ℤ} (hn : 1 ≤ n)
    (hsize : 16 + 1024 * n < 2 ^ 31) :
    ∃ g₀ g, initGoose n = .ok g₀ ∧
      Run.exec gooseListener g₀ (delivered.map lib.received) = .ok g ∧
      HoldsTexts n ((deliveredStates p.published delivered).map lib.print) g.subscriber := by
  have hinv : StatesInv p :=
    Run.exec_invariant statesInv_publisherStep (statesInv_initPublisher hinit) hrun
  exact hinv.exists_goose hlink lib hnumber hn hsize

/-! ## A library -/

/-- The bytes of a value: `true`, `false`, or a decimal number. -/
def MmsValue.text : MmsValue → List UInt8
  | .boolean true => [116, 114, 117, 101]
  | .boolean false => [102, 97, 108, 115, 101]
  | .integer value => (toString value).toList.map Char.toUInt8

/-- The bytes of a dataset: its values in braces, with commas in between. -/
def datasetText (values : List MmsValue) : List UInt8 :=
  [123] ++ List.intercalate [44] (values.map MmsValue.text) ++ [125]

/-- A library that counts the states from `1` on, and prints what fits into 1024 bytes with the
zero behind it. -/
def countingLibrary : GooseLibrary where
  number k := BitVec.ofNat 32 (k + 1)
  print values := (datasetText values).take 1023 ++ [0]
  length_print values := by
    rw [List.length_append, List.length_take, List.length_singleton]
    omega

example : countingLibrary.print [.boolean true] = (trueMessage 1).printed := rfl

/-- A subscriber that hears the first message, from before a change, and the last one, and not the
one that announced the change: the ring of one slot has `true` in braces. -/
theorem goose_states_delivered_retransmission : ∃ p₀ p delivered g₀ g,
    initPublisher 2000000 20000 5 [boolRing 0] 0 = .ok p₀ ∧
    Run.exec publisherStep p₀
      [.run 1000000, .input 0 (boolRing 1), .event 1001000, .run 2010000] = .ok p ∧
    p.published.map GoosePublication.stNum = [0, 1, 1] ∧
    delivered = p.published.eraseIdx 1 ∧ Link.Carries p.published delivered ∧
    initGoose 1 = .ok g₀ ∧
    Run.exec gooseListener g₀ (delivered.map countingLibrary.received) = .ok g ∧
    g.subscriber.raised = 2 ∧
    window g.subscriber.outputBuffer.bytes 16 7 = [123, 116, 114, 117, 101, 125, 0] := by
  obtain ⟨p₀, p, a, b, c, hinit, hrun, hpublished, hnum, hstates, htexts⟩ : ∃ p₀ p a b c,
      initPublisher 2000000 20000 5 [boolRing 0] 0 = .ok p₀ ∧
      Run.exec publisherStep p₀
        [.run 1000000, .input 0 (boolRing 1), .event 1001000, .run 2010000] = .ok p ∧
      p.published = [a, b, c] ∧ p.stNum = 1 ∧
      p.published.map GoosePublication.stNum = [0, 1, 1] ∧
      (deliveredStates p.published [a, c]) = [[.boolean false], [.boolean true]] :=
    ⟨_, _, _, _, _, rfl, rfl, rfl, rfl, rfl, rfl⟩
  have hlink : Link.Carries p.published [a, c] := by
    rw [hpublished]
    exact .deliver a (.lose a (.lose b (Link.carries_refl [c])))
  have hnumber : countingLibrary.NumbersUpTo p.stNum := by
    rw [hnum]
    exact ⟨by decide, by decide⟩
  obtain ⟨g₀, g, hg₀, hg, hring⟩ :=
    goose_states_delivered hinit hrun hlink countingLibrary hnumber (n := 1) le_rfl (by decide)
  rw [htexts] at hring
  have hslot := hring.slot_eq 0 (countingLibrary.print [.boolean true]) (by decide) rfl
  rw [Int.emod_one] at hslot
  exact ⟨p₀, p, [a, c], g₀, g, hinit, hrun, hstates, by rw [hpublished]; rfl, hlink, hg₀, hg,
    hring.raised_eq, hslot⟩

end Tmee
