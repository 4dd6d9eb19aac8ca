import Tmee.Lib.Link
import Tmee.SmvPublisher.Transmission
import Tmee.Subscriber.RoundTrip

set_option relaxedAutoImplicit false
set_option autoImplicit false

/-!
# From the rings of the publisher of sampled values to the readers of a subscriber

The publisher fills an ASDU with one element of four bytes for each input; the subscriber stores an
ASDU if its data block has 64 bytes, word by word, and its readers take the words out again. Between
the two is the network, which may lose ASDUs and deliver them more than once.

## Main definitions

* `Tmee.SvSubscription` — what the library returns for an ASDU that has arrived.
* `Tmee.transmittedNext` — the inputs at each transmission, noted along a run.
* `Tmee.CarriesItems` — an ASDU carries the newest items of the `INT32` inputs.

## Main results

* `Tmee.carriesItems_exec` — every ASDU of a run carries the items of its time.
* `Tmee.samples_delivered` — what the readers of the subscriber get.
-/

namespace Tmee

open SmvPublisher (RingsKept storeInputs)

/-! ## The library -/

/-- What the subscriber's half of the SV library returns for an ASDU. -/
structure SvSubscription (A : Type) where
  dataSize : A → BitVec 32
  getInt32 : A → ℕ → BitVec 32
  smpCnt : A → BitVec 16

/-- The two halves agree on the data block. -/
structure SvSubscription.Agrees {A : Type} (sub : SvSubscription A) (lib : SvLibrary A) : Prop where
  dataSize_eq : ∀ a, sub.dataSize a = BitVec.ofInt 32 (lib.dataSize a)
  getInt32_eq : ∀ a (o : ℕ) bits, lib.get .int32 o a = .int32 bits → sub.getInt32 a o = bits

/-- An ASDU as the listener gets it. -/
def SvSubscription.received {A : Type} (sub : SvSubscription A) (a : A) : Asdu :=
  ⟨sub.dataSize a, sub.getInt32 a, sub.smpCnt a⟩

section Publisher

variable {A : Type} {lib : SvLibrary A} {p₀ p : SmvPublisher A}

/-- The inputs of a publisher. -/
abbrev SvInputs := List SmvPublisher.DataInput

/-- The inputs at each transmission so far. -/
def transmittedNext (past : List SvInputs) (p : SmvPublisher A) :
    SmvPublisherInput → List SvInputs
  | .input _ _ => past
  | .run now _ => if now ≥ p.transmitDeadline then past ++ [p.inputs] else past

/-- **The ASDU carries the newest items** of `count` inputs: four bytes for each, and for an `INT32`
input, in its place, the item under the index of its ring. -/
structure CarriesItems (lib : SvLibrary A) (count : ℕ) (inputs : SvInputs) (asdu : A) :
    Prop where
  length_eq : inputs.length = count
  count_le : count ≤ 2 ^ 29
  dataSize_eq : lib.dataSize asdu = 4 * count
  item_eq : ∀ (v : ℕ) b, inputs[v]? = some ⟨b, some .updateInt32⟩ →
    ∃ bits, lib.get .int32 ((4 * v : ℕ) : ℤ) asdu = .int32 bits ∧ bits.toInt = b.slot 4 b.index

/-! ## The publisher -/

/-- A run keeps the number of inputs. -/
lemma length_of_configured (h : SmvPublisher.Configured lib p₀ p) :
    p.inputs.length = p₀.inputs.length := by
  have hsame : p.inputs.map SmvPublisher.DataInput.updateFunction =
      p₀.inputs.map SmvPublisher.DataInput.updateFunction := by
    apply List.ext_getElem?
    intro k
    rw [List.getElem?_map, List.getElem?_map]
    exact h.updateFunction_eq k
  simpa using congrArg List.length hsame

/-- An item of four bytes is an `int`. -/
lemma toInt_slot {type : ℤ} {b : Buffer} (h : WellFormed type 4 b) :
    (BitVec.ofInt 32 (b.slot 4 b.index)).toInt = b.slot 4 b.index := by
  have hfits := h.slot_fits h.index_nonneg h.index_lt
  have hmem := Buffer.get_four_mem hfits
  rw [BitVec.toInt_ofInt]
  exact Int.bmod_eq_of_le_mul_two (by unfold Buffer.slot; omega) (by unfold Buffer.slot; omega)

/-- A transmission carries the newest items. -/
lemma carriesItems_of_run (hlib : lib.Lawful) (h : SmvPublisher.Configured lib p₀ p) {timeInNs : ℤ}
    (hreads : ∀ (i : ℕ) d, p.inputs[i]? = some d → d.Reads i) :
    CarriesItems lib p₀.inputs.length p.inputs
      (lib.increaseSmpCnt (lib.setRefrTmNs timeInNs (storeInputs lib 0 p.inputs p.asdu))) := by
  have hlength := length_of_configured h
  refine ⟨hlength, ?_, ?_, fun v b hv => ⟨BitVec.ofInt 32 (b.slot 4 b.index), ?_, ?_⟩⟩
  · rw [← hlength]
    exact (SmvPublisher.forall_reads_iff.mp hreads).1
  · rw [hlib.dataSize_increaseSmpCnt, hlib.dataSize_setRefrTmNs,
      SmvPublisher.dataSize_storeInputs hlib, h.dataSize_eq, hlength]
  · have hsize : 4 * (((0 : ℕ) : ℤ) + p.inputs.length) ≤ lib.dataSize p.asdu := by
      rw [h.dataSize_eq, Nat.cast_zero, zero_add]
    have hstored := SmvPublisher.get_storeInputs hlib h.supported hsize hv rfl
    rw [Nat.cast_zero, zero_add, Nat.zero_add] at hstored
    rw [hlib.get_increaseSmpCnt, hlib.get_setRefrTmNs, Nat.cast_mul]
    exact hstored
  · obtain ⟨update, hupdate, hring⟩ := h.supported _ (List.mem_of_getElem? hv)
    exact toInt_slot hring

/-- **Every ASDU of a run** carries the items that were the newest ones when it was sent. -/
lemma carriesItems_exec (hlib : lib.Lawful) {is : List SmvPublisherInput}
    {past : List SvInputs} (h₀ : SmvPublisher.Configured lib p₀ p₀) (hpub : p₀.published = [])
    (hkept : RingsKept p₀ is)
    (hrun : Run.exec (Run.watch (smvPublisherStep lib) transmittedNext) (p₀, []) is =
      .ok (p, past)) :
    List.Forall₂ (CarriesItems lib p₀.inputs.length) past p.published := by
  let Inv (s : SmvPublisher A × List SvInputs) : Prop :=
    SmvPublisher.Configured lib p₀ s.1 ∧
      List.Forall₂ (CarriesItems lib p₀.inputs.length) s.2 s.1.published
  have hstep : ∀ s i s', Inv s → i ∈ is →
      Run.watch (smvPublisherStep lib) transmittedNext s i = .ok s' → Inv s' := by
    rintro ⟨q, notes⟩ i ⟨q', notes'⟩ ⟨hq, hitems⟩ hi hwatch
    obtain ⟨hstep, hnote⟩ := Run.watch_eq_ok.mp hwatch
    dsimp only at hstep hnote hq hitems
    have hq' : SmvPublisher.Configured lib p₀ q' := by
      refine hq.step hlib (fun k buffer d update hmem => ?_) hstep
      rw [List.mem_singleton] at hmem
      exact hkept k buffer d update (hmem ▸ hi)
    subst hnote
    refine ⟨hq', ?_⟩
    cases i with
    | input k buffer =>
      obtain rfl := Except.ok.inj hstep
      exact hitems
    | run now timeInNs =>
      rcases SmvPublisher.run_cases hq.supported hstep with ⟨hdue, hreads, rfl⟩ | ⟨hearly, rfl⟩
      · simp only [transmittedNext, if_pos hdue]
        exact List.rel_append hitems (List.Forall₂.cons (carriesItems_of_run hlib hq hreads)
          List.Forall₂.nil)
      · simp only [transmittedNext, if_neg (not_le.mpr hearly)]
        exact hitems
  have hinv : Inv (p₀, []) := by
    refine ⟨h₀, ?_⟩
    rw [hpub]
    exact List.Forall₂.nil
  exact (Run.exec_invariant_of_guarded hstep hinv (fun _ _ _ hperforms => hperforms.mem) hrun).2

/-! ## The subscriber -/

variable {sub : SvSubscription A} {count : ℕ} {inputs : SvInputs} {asdu : A}

/-- The listener stores an ASDU with sixteen elements, and no other. -/
lemma CarriesItems.isSample_iff (h : CarriesItems lib count inputs asdu)
    (hagrees : sub.Agrees lib) : (sub.received asdu).IsSample ↔ count = 16 := by
  have hsize : (sub.received asdu).dataSize = BitVec.ofInt 32 (4 * count) := by
    show sub.dataSize asdu = _
    rw [hagrees.dataSize_eq, h.dataSize_eq]
  have hle := h.count_le
  rw [Asdu.IsSample, hsize, ← BitVec.toNat_inj, BitVec.toNat_ofInt]
  show ((4 * (count : ℤ)) % ((2 ^ 32 : ℕ) : ℤ)).toNat = 64 ↔ _
  rw [Int.emod_eq_of_lt (by omega) (by push_cast; omega)]
  omega

/-- ASDUs of another size are all rejected. -/
lemma SampleInv.exec_rejected {n : ℤ} {samples : List Asdu} {d : Subscriber}
    (h : SampleInv n samples d) {asdus : List Asdu} (hnone : ∀ asdu ∈ asdus, ¬ asdu.IsSample) :
    Run.exec svUpdateListener d asdus = .ok d := by
  induction asdus with
  | nil => rfl
  | cons asdu asdus ih =>
    rw [List.forall_mem_cons] at hnone
    exact Run.exec_cons_eq_ok.mpr ⟨d, h.rejected hnone.1, ih hnone.2⟩

end Publisher

/-- **Items travel from ring to ring.** For every run of the publisher on rings of its three types,
every loss and repetition on the way, and every size of the ring of the subscriber: with sixteen
inputs the listener stores every ASDU delivered, and its readers get for every `INT32` input the
item that was the newest one of its ring when the ASDU was sent, for the last `n` ASDUs; with any
other number of inputs nothing is ever stored.

**Proof sketch.** Every ASDU sent carries the items of its time (`carriesItems_exec`), whatever
arrives has been sent, and the readers get the words of the last ASDUs stored
(`samples_readBack`). -/
theorem samples_delivered {A : Type} {lib : SvLibrary A} (hlib : lib.Lawful)
    {sub : SvSubscription A} (hagrees : sub.Agrees lib) {smpCnt interval now : ℤ}
    {buffers : List Buffer} {p₀ p : SmvPublisher A} {is : List SmvPublisherInput}
    {sent : List SvInputs} {delivered : List (SvInputs × A)}
    (hrings : ∀ b ∈ buffers, ∃ update : SmvPublisher.UpdateFunction, WellFormed update.type 4 b)
    (hinit : initSmvPublisher lib smpCnt interval buffers now = .ok p₀) (hkept : RingsKept p₀ is)
    (hrun : Run.exec (Run.watch (smvPublisherStep lib) transmittedNext) (p₀, []) is =
      .ok (p, sent))
    (hlink : Link.Carries (sent.zip p.published) delivered) {n : ℤ} (hn : 1 ≤ n)
    (hsize : 16 + 68 * n < 2 ^ 31) :
    ∃ d₀ d, initSubscriber TypeCode.smv92 n = .ok d₀ ∧
      Run.exec svUpdateListener d₀ (delivered.map fun t => sub.received t.2) = .ok d ∧
      (buffers.length ≠ 16 → d = d₀) ∧
      (buffers.length = 16 → d.raised = delivered.length ∧
        ∀ (j : ℕ) t (v : ℕ) b, (j : ℤ) < n → delivered.reverse[j]? = some t →
          t.1[v]? = some ⟨b, some .updateInt32⟩ →
          readInputSmv v ((d.bufferIndex - j) % n) d.outputBuffer =
            .ok (b.slot 4 b.index, d.outputBuffer)) := by
  have hcount : p₀.inputs.length = buffers.length ∧ p₀.published = [] := by
    obtain ⟨⟨inputs, asdu⟩, hadd, hreturn⟩ := Fallible.bind_eq_ok.mp hinit
    obtain rfl := Except.ok.inj hreturn
    obtain ⟨-, rfl, -⟩ := SmvPublisher.addInputs_eq_ok_iff.mp hadd
    exact ⟨List.length_map _, rfl⟩
  have hitems := carriesItems_exec hlib (SmvPublisher.configured_init hlib hrings hinit) hcount.2
    hkept hrun
  rw [hcount.1] at hitems
  have hcarries : ∀ t ∈ delivered, CarriesItems lib buffers.length t.1 t.2 := by
    rintro ⟨inputs, asdu⟩ ht
    exact List.forall₂_zip hitems (hlink.subset ht)
  obtain ⟨d₀, hd₀, hinv⟩ := sampleInv_of_init hn hsize
  by_cases hsixteen : buffers.length = 16
  · obtain ⟨d, hd, hinv'⟩ := hinv.exec hn hsize (delivered.map fun t => sub.received t.2)
    have hall : (delivered.map fun t => sub.received t.2).filter (fun asdu => asdu.IsSample) =
        delivered.map fun t => sub.received t.2 := by
      rw [List.filter_eq_self]
      intro asdu hasdu
      obtain ⟨t, ht, rfl⟩ := List.mem_map.mp hasdu
      exact decide_eq_true (((hcarries t ht).isSample_iff hagrees).mpr hsixteen)
    rw [List.nil_append, hall] at hinv'
    have hlaw := hinv'.law hn hsize
    refine ⟨d₀, d, hd₀, hd, fun hne => absurd hsixteen hne, fun _ => ⟨?_, ?_⟩⟩
    · rw [hlaw.raised_eq, List.length_map]
    · intro j t v b hj ht hv
      have hcarry := hcarries t (List.mem_reverse.mp (List.mem_of_getElem? ht))
      have hlast : (delivered.map fun t => sub.received t.2).reverse[j]? =
          some (sub.received t.2) := by
        rw [← List.map_reverse, List.getElem?_map, ht]
        rfl
      have hv16 : v < 16 := by
        have hlt := (List.getElem?_eq_some_iff.mp hv).1
        rwa [hcarry.length_eq, hsixteen] at hlt
      obtain ⟨bits, hget, hbits⟩ := hcarry.item_eq v b hv
      rw [(hlaw.readsBack j _ hj hlast).1 v hv16]
      show Except.ok ((sub.getInt32 t.2 (4 * v)).toInt, _) = _
      rw [hagrees.getInt32_eq _ _ _ hget, hbits]
  · have hnone : ∀ asdu ∈ delivered.map (fun t => sub.received t.2), ¬ asdu.IsSample := by
      intro asdu hasdu
      obtain ⟨t, ht, rfl⟩ := List.mem_map.mp hasdu
      exact fun hsample => hsixteen (((hcarries t ht).isSample_iff hagrees).mp hsample)
    exact ⟨d₀, d₀, hd₀, hinv.exec_rejected hnone, fun _ => rfl, fun h => absurd h hsixteen⟩

/-- The subscriber's half of the library for elements of one word. -/
def wordSubscription : SvSubscription WordAsdu where
  dataSize asdu := BitVec.ofInt 32 asdu.dataSize
  getInt32 asdu offset := asdu.words offset
  smpCnt asdu := BitVec.ofInt 16 asdu.smpCnt

lemma wordSubscription_agrees : wordSubscription.Agrees wordLibrary where
  dataSize_eq _ := rfl
  getInt32_eq _ _ _ h := AsduValue.int32.inj h

/-- Sixteen inputs, of which one changes, and three transmissions, of which the second is lost: the
ring of two samples has the item of the first one and that of the last. -/
theorem samples_delivered_loss : ∃ p₀ p sent delivered d₀ d,
    initSmvPublisher wordLibrary 4000 250 (List.replicate 16 (wordRing 3 1 8 7)) 0 = .ok p₀ ∧
    Run.exec (Run.watch (smvPublisherStep wordLibrary) transmittedNext) (p₀, [])
      [.run 250 0, .input 2 (wordRing 3 0 9 7), .run 500 0, .input 2 (wordRing 3 1 9 10),
        .run 750 0] = .ok (p, sent) ∧
    sent.length = 3 ∧ delivered = (sent.zip p.published).eraseIdx 1 ∧
    Link.Carries (sent.zip p.published) delivered ∧
    initSubscriber TypeCode.smv92 2 = .ok d₀ ∧
    Run.exec svUpdateListener d₀ (delivered.map fun t => wordSubscription.received t.2) = .ok d ∧
    d.raised = 2 ∧
    readInputSmv 2 ((d.bufferIndex - (0 : ℕ)) % 2) d.outputBuffer = .ok (10, d.outputBuffer) ∧
    readInputSmv 2 ((d.bufferIndex - (1 : ℕ)) % 2) d.outputBuffer = .ok (7, d.outputBuffer) := by
  have hrings : ∀ b ∈ List.replicate 16 (wordRing 3 1 8 7),
      ∃ update : SmvPublisher.UpdateFunction, WellFormed update.type 4 b := by
    intro b hb
    rw [List.eq_of_mem_replicate hb]
    exact ⟨.updateInt32, by constructor <;> decide⟩
  obtain ⟨p₀, p, sent, a, b, c, hinit, hinputs, hrun, hsent, hzip, hfirst, hlast⟩ :
      ∃ p₀ p sent a b c,
      initSmvPublisher wordLibrary 4000 250 (List.replicate 16 (wordRing 3 1 8 7)) 0 = .ok p₀ ∧
      p₀.inputs = List.replicate 16 ⟨wordRing 3 1 8 7, some .updateInt32⟩ ∧
      Run.exec (Run.watch (smvPublisherStep wordLibrary) transmittedNext) (p₀, [])
        [.run 250 0, .input 2 (wordRing 3 0 9 7), .run 500 0, .input 2 (wordRing 3 1 9 10),
          .run 750 0] = .ok (p, sent) ∧
      sent.length = 3 ∧ sent.zip p.published = [a, b, c] ∧
      a.1[2]? = some ⟨wordRing 3 1 8 7, some .updateInt32⟩ ∧
      c.1[2]? = some ⟨wordRing 3 1 9 10, some .updateInt32⟩ :=
    ⟨_, _, _, _, _, _, rfl, rfl, rfl, rfl, rfl, rfl, rfl⟩
  have hkept : RingsKept p₀ [.run 250 0, .input 2 (wordRing 3 0 9 7), .run 500 0,
      .input 2 (wordRing 3 1 9 10), .run 750 0] := by
    intro k buffer d update hmem hd hupdate
    rw [hinputs] at hd
    obtain rfl := List.eq_of_mem_replicate (List.mem_of_getElem? hd)
    obtain rfl := Option.some.inj hupdate
    simp only [List.mem_cons, reduceCtorEq, SmvPublisherInput.input.injEq, List.not_mem_nil,
      or_false, false_or] at hmem
    rcases hmem with ⟨-, rfl⟩ | ⟨-, rfl⟩ <;> (constructor <;> decide)
  have hlink : Link.Carries (sent.zip p.published) [a, c] := by
    rw [hzip]
    exact .deliver a (.lose a (.lose b (Link.carries_refl [c])))
  obtain ⟨d₀, d, hd₀, hd, -, hstored⟩ := samples_delivered wordLibrary_lawful
    wordSubscription_agrees hrings hinit hkept hrun hlink (n := 2) (by decide) (by decide)
  obtain ⟨hraised, hreads⟩ := hstored List.length_replicate
  exact ⟨p₀, p, sent, [a, c], d₀, d, hinit, hrun, hsent, by rw [hzip]; rfl, hlink, hd₀, hd, hraised,
    hreads 0 c 2 _ (by decide) rfl hlast, hreads 1 a 2 _ (by decide) rfl hfirst⟩

end Tmee
