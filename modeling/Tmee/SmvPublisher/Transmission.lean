import Tmee.Lib.Run
import Tmee.SmvPublisher.Publisher

set_option relaxedAutoImplicit false
set_option autoImplicit false

/-!
# What a transmission contains

A transmission should contain, at the offset that the library has assigned to the element of an
input, the newest item of its ring. For `QUALITY` and `INT32` it does. A `FLOAT32` input is read
at the slot with the number of the input, and the word there is converted as if it were an `int`.

## Main definitions

* `Tmee.SmvPublisher.TransmitsItems` — every transmission of a run contains the newest items.
* `Tmee.SmvPublisher.FloatsInPlace` — the words read for `FLOAT32` inputs stand for their items.

## Main results

* `Tmee.SmvPublisher.updateInputs_eq_ok_iff` — what the loop of `run` does.
* `Tmee.SmvPublisher.get_storeInputs` — what it leaves in the data block.
* `Tmee.SmvPublisher.transmitsItems_iff` — when the transmissions contain the newest items.
-/

namespace Tmee

namespace SmvPublisher

variable {Asdu : Type} {lib : SvLibrary Asdu}

/-! ## The newest items -/

/-- The type of the rings with the update function. -/
def UpdateFunction.type : UpdateFunction → ℤ
  | .updateFloat => TypeCode.float32
  | .updateQuality => TypeCode.quality
  | .updateInt32 => TypeCode.int32

/-- The meaning of a word of a ring: a `FLOAT32` item is the number with that bit pattern. -/
def UpdateFunction.meaning : UpdateFunction → ℤ → AsduValue
  | .updateFloat, word => .float (BitVec.ofInt 32 word)
  | .updateQuality, word => .quality (BitVec.ofInt 16 word)
  | .updateInt32, word => .int32 (BitVec.ofInt 32 word)

/-- The offsets that the library returns for elements that are added one after the other. -/
def assignedOffsets (lib : SvLibrary Asdu) : Asdu → List AsduElement → List ℤ
  | _, [] => []
  | asdu, e :: es => (lib.add e asdu).1 :: assignedOffsets lib (lib.add e asdu).2 es

/-- The elements of the inputs. -/
def elements (inputs : List DataInput) : List AsduElement :=
  inputs.filterMap fun d => d.updateFunction.map UpdateFunction.element

/-- The ASDU contains the newest item of every input at the offset assigned to it. -/
def StoresItems (lib : SvLibrary Asdu) (inputs : List DataInput) (asdu : Asdu) : Prop :=
  ∀ (i : ℕ) (d : DataInput) update, inputs[i]? = some d → d.updateFunction = some update →
    ∃ offset, (assignedOffsets lib lib.addAsdu (elements inputs))[i]? = some offset ∧
      lib.get update.element offset asdu = update.meaning (d.buffer.slot 4 d.buffer.index)

/-- The call of `run` returns and publishes the newest items. -/
def Transmits (lib : SvLibrary Asdu) (now timeInNs : ℤ) (p : SmvPublisher Asdu) : Prop :=
  ∃ p' asdu, p.run lib now timeInNs = .ok p' ∧ p'.published = p.published ++ [asdu] ∧
    StoresItems lib p.inputs asdu

/-- **Every transmission of the run contains the newest items.** -/
def TransmitsItems (lib : SvLibrary Asdu) (p : SmvPublisher Asdu) (is : List SmvPublisherInput) :
    Prop :=
  ∀ pre q now timeInNs, pre ++ [.run now timeInNs] <+: is →
    Run.exec (smvPublisherStep lib) p pre = .ok q → q.transmitDeadline ≤ now →
      Transmits lib now timeInNs q

/-- The word in the slot with the number of a `FLOAT32` input can be read, and as an integer it
rounds to the newest item of the ring. The offsets fit into an `int`. -/
structure FloatsInPlace (p : SmvPublisher Asdu) : Prop where
  count_le : p.inputs.length ≤ 2 ^ 29
  slot_fits : ∀ (i : ℕ) d, p.inputs[i]? = some d → d.updateFunction = some .updateFloat →
    16 + 4 * i + 4 ≤ d.buffer.length
  nearest : ∀ (i : ℕ) d, p.inputs[i]? = some d → d.updateFunction = some .updateFloat →
    NearestFloat (d.buffer.slot 4 i) (BitVec.ofInt 32 (d.buffer.slot 4 d.buffer.index))

/-- The input has a ring of `FLOAT32`, `QUALITY` or `INT32` items and the update function for it. -/
def DataInput.Supported (d : DataInput) : Prop :=
  ∃ update : UpdateFunction, d.updateFunction = some update ∧ WellFormed update.type 4 d.buffer

/-! ## One input -/

section Call

variable {update : UpdateFunction} {b b' : Buffer} {asdu asdu' : Asdu} {index : ℕ}

/-- The value that is sent for an input. -/
def UpdateFunction.sent (update : UpdateFunction) (b : Buffer) (index : ℕ) : AsduValue :=
  match update with
  | .updateFloat => .float (intToFloat (b.slot 4 index))
  | .updateQuality => update.meaning (b.slot 4 b.index)
  | .updateInt32 => update.meaning (b.slot 4 b.index)

lemma UpdateFunction.element_sent : (update.sent b index).element = update.element := by
  cases update <;> rfl

/-- The slot that the update function of an input reads is in the buffer. -/
def UpdateFunction.Reads (update : UpdateFunction) (b : Buffer) (index : ℕ) : Prop :=
  update = .updateFloat → 16 + 4 * index + 4 ≤ b.length

/-- Reading a word and setting an element. -/
lemma read_set_eq_ok_iff {slot word : ℤ} {fits : Prop} {f : ℤ → AsduValue}
    (hread : ∀ x, readInputInt32 slot b = .ok x ↔ fits ∧ x = (word, b)) :
    (do
      let offset ← cInt ((index : ℤ) * 4)
      let value ← readInputInt32 slot
      return lib.set offset (f value) asdu : BufM Asdu) b = .ok (asdu', b') ↔
      (4 * (index : ℤ) < 2 ^ 31 ∧ fits) ∧ asdu' = lib.set (4 * index) (f word) asdu ∧ b' = b := by
  constructor
  · intro hrun
    obtain ⟨offset, c, hoffset, hset⟩ := bufM_bind_eq_ok hrun
    obtain ⟨hmul, rfl⟩ := bufM_lift_eq_ok hoffset
    obtain ⟨⟨-, hlt⟩, rfl⟩ := cInt_eq_ok_iff.mp hmul
    obtain ⟨value, d, hvalue, hreturn⟩ := bufM_bind_eq_ok hset
    obtain ⟨hfits, heq⟩ := (hread _).mp hvalue
    obtain ⟨rfl, rfl⟩ := Prod.mk.inj heq
    obtain ⟨rfl, rfl⟩ := Prod.mk.inj (Except.ok.inj hreturn)
    exact ⟨⟨by omega, hfits⟩, by rw [mul_comm], rfl⟩
  · rintro ⟨⟨hlt, hfits⟩, rfl, rfl⟩
    have hmul : cInt ((index : ℤ) * 4) = .ok (4 * index) :=
      cInt_eq_ok_iff.mpr ⟨⟨by omega, by omega⟩, by ring⟩
    rw [bufM_lift_ok hmul, bufM_bind_ok ((hread _).mpr ⟨hfits, rfl⟩)]
    rfl

/-- **A call through the function pointer** returns if the offset is an `int` and the slot is in
the buffer, and sets the element at four times the number of the input. -/
lemma UpdateFunction.call_eq_ok_iff (h : WellFormed update.type 4 b) :
    update.call lib asdu index b.index b = .ok (asdu', b') ↔
      (4 * (index : ℤ) < 2 ^ 31 ∧ update.Reads b index) ∧
        asdu' = lib.set (4 * index) (update.sent b index) asdu ∧ b' = b := by
  have hnewest : ∀ x, readInputInt32 b.index b = .ok x ↔ True ∧ x = (b.slot 4 b.index, b) := by
    intro x
    rw [readInputInt32_eq h h.index_nonneg h.index_lt, true_and, Except.ok.injEq, eq_comm]
  cases update with
  | updateFloat =>
    have hreads : UpdateFunction.updateFloat.Reads b index ↔ 16 + 4 * index + 4 ≤ b.length :=
      ⟨fun hfits => hfits rfl, fun hfits _ => hfits⟩
    rw [hreads]
    exact read_set_eq_ok_iff fun x => readInputInt32_eq_ok_iff h.length_ge h.lock_eq
  | updateQuality =>
    have hreads : UpdateFunction.updateQuality.Reads b index ↔ True := ⟨fun _ => trivial, nofun⟩
    rw [hreads]
    exact read_set_eq_ok_iff hnewest
  | updateInt32 =>
    have hreads : UpdateFunction.updateInt32.Reads b index ↔ True := ⟨fun _ => trivial, nofun⟩
    rw [hreads]
    exact read_set_eq_ok_iff hnewest

end Call

/-! ## The loop -/

section Loop

variable {d : DataInput} {ds : List DataInput} {asdu : Asdu} {index : ℕ}

/-- The update function returns for the input with the number `index`. -/
def DataInput.Reads (d : DataInput) (index : ℕ) : Prop :=
  4 * (index : ℤ) < 2 ^ 31 ∧
    ∀ update, d.updateFunction = some update → update.Reads d.buffer index

/-- The ASDU after the loop, from the input with the number `index` on. -/
def storeInputs (lib : SvLibrary Asdu) : ℕ → List DataInput → Asdu → Asdu
  | _, [], asdu => asdu
  | index, d :: ds, asdu =>
    match d.updateFunction with
    | none => asdu
    | some update =>
      storeInputs lib (index + 1) ds (lib.set (4 * index) (update.sent d.buffer index) asdu)

lemma storeInputs_cons {update : UpdateFunction} (hupdate : d.updateFunction = some update) :
    storeInputs lib index (d :: ds) asdu =
      storeInputs lib (index + 1) ds (lib.set (4 * index) (update.sent d.buffer index) asdu) := by
  rw [storeInputs, hupdate]

/-- All inputs are the first one and the others. -/
lemma forall_reads_cons : (∀ (i : ℕ) d', (d :: ds)[i]? = some d' → d'.Reads (index + i)) ↔
    d.Reads index ∧ ∀ (i : ℕ) d', ds[i]? = some d' → d'.Reads (index + 1 + i) := by
  constructor
  · intro h
    refine ⟨h 0 d rfl, fun i d' hd' => ?_⟩
    rw [Nat.add_right_comm]
    exact h (i + 1) d' hd'
  · rintro ⟨hzero, hsucc⟩ i d' hd'
    cases i with
    | zero => exact Option.some.inj hd' ▸ hzero
    | succ i =>
      have hreads := hsucc i d' hd'
      rwa [Nat.add_right_comm] at hreads

/-- **The loop** returns if the update functions return for all inputs, and leaves the inputs as
they are. -/
lemma updateInputs_eq_ok_iff (hds : ∀ d ∈ ds, d.Supported) {x : List DataInput × Asdu} :
    updateInputs lib index ds asdu = .ok x ↔
      (∀ (i : ℕ) d, ds[i]? = some d → d.Reads (index + i)) ∧
        x = (ds, storeInputs lib index ds asdu) := by
  induction ds generalizing index asdu x with
  | nil =>
    rw [updateInputs, Except.ok.injEq, eq_comm]
    exact (and_iff_right fun i d hd => by cases hd).symm
  | cons d ds ih =>
    obtain ⟨update, hupdate, hring⟩ := hds d List.mem_cons_self
    have hrest : ∀ asdu x, updateInputs lib ((index + 1 : ℕ) : ℤ) ds asdu = .ok x ↔
        (∀ (i : ℕ) d, ds[i]? = some d → d.Reads (index + 1 + i)) ∧
          x = (ds, storeInputs lib (index + 1) ds asdu) :=
      fun asdu x => ih fun d hd => hds d (List.mem_cons_of_mem _ hd)
    obtain ⟨b, updateFunction⟩ := d
    obtain rfl : updateFunction = some update := hupdate
    have hread : readIndex.run' b = .ok b.index := by
      rw [StateT.run', readIndex_eq hring.length_ge]
      rfl
    have hhead : DataInput.Reads ⟨b, some update⟩ index ↔
        4 * (index : ℤ) < 2 ^ 31 ∧ update.Reads b index :=
      and_congr_right' ⟨fun h => h update rfl, fun h u hu => Option.some.inj hu ▸ h⟩
    have hcast : (index : ℤ) + 1 = ((index + 1 : ℕ) : ℤ) := by
      push_cast
      rfl
    rw [forall_reads_cons, hhead, storeInputs_cons rfl, updateInputs, hread]
    simp only [Fallible.ok_bind, hcast]
    constructor
    · intro h
      obtain ⟨⟨asdu', b'⟩, hcall, hloop⟩ := Fallible.bind_eq_ok.mp h
      obtain ⟨hok, rfl, rfl⟩ := (UpdateFunction.call_eq_ok_iff hring).mp hcall
      obtain ⟨y, hy, hreturn⟩ := Fallible.bind_eq_ok.mp hloop
      obtain ⟨hall, rfl⟩ := (hrest _ y).mp hy
      exact ⟨⟨hok, hall⟩, (Except.ok.inj hreturn).symm⟩
    · rintro ⟨⟨hok, hall⟩, rfl⟩
      have hcall : update.call lib asdu index b.index b =
          .ok (lib.set (4 * index) (update.sent b index) asdu, b) :=
        (UpdateFunction.call_eq_ok_iff hring).mpr ⟨hok, rfl, rfl⟩
      rw [hcall]
      simp only [Fallible.ok_bind, (hrest _ _).mpr ⟨hall, rfl⟩]
      rfl

/-- The loop keeps the size of the data block. -/
lemma dataSize_storeInputs (hlib : lib.Lawful) :
    lib.dataSize (storeInputs lib index ds asdu) = lib.dataSize asdu := by
  induction ds generalizing index asdu with
  | nil => rfl
  | cons d ds ih =>
    rw [storeInputs]
    split
    · rfl
    · rw [ih, hlib.dataSize_set]

/-- The loop leaves the elements of the inputs before it. -/
lemma get_storeInputs_of_le (hlib : lib.Lawful) {e : AsduElement} {o : ℤ} (ho : o + 4 ≤ 4 * index) :
    lib.get e o (storeInputs lib index ds asdu) = lib.get e o asdu := by
  induction ds generalizing index asdu with
  | nil => rfl
  | cons d ds ih =>
    rw [storeInputs]
    split
    · rfl
    · rw [ih (by push_cast; omega), hlib.get_set_of_disjoint _ _ _ _ _ (Or.inr ho)]

/-- **The elements after the loop** have the values that are sent for the inputs.

**Proof sketch.** Induction on the inputs: the first value is set at once, and the others are set
behind it. -/
lemma get_storeInputs (hlib : lib.Lawful) (hds : ∀ d ∈ ds, d.Supported)
    (hsize : 4 * (index + ds.length : ℤ) ≤ lib.dataSize asdu) {i : ℕ} {update : UpdateFunction}
    (hd : ds[i]? = some d) (hupdate : d.updateFunction = some update) :
    lib.get update.element (4 * (index + i)) (storeInputs lib index ds asdu) =
      update.sent d.buffer (index + i) := by
  induction ds generalizing index i asdu with
  | nil => cases hd
  | cons d' ds ih =>
    obtain ⟨update', hupdate', -⟩ := hds d' List.mem_cons_self
    rw [List.length_cons] at hsize
    push_cast at hsize
    rw [storeInputs_cons hupdate']
    cases i with
    | zero =>
      obtain rfl := Option.some.inj hd
      obtain rfl := Option.some.inj (hupdate.symm.trans hupdate')
      have hset := hlib.get_set_self (4 * index) (update.sent d'.buffer index) asdu (by omega)
        (by omega)
      rw [UpdateFunction.element_sent] at hset
      rw [Nat.cast_zero, add_zero, get_storeInputs_of_le hlib (by push_cast; omega)]
      exact hset
    | succ i =>
      have hsize' : 4 * (((index + 1 : ℕ) : ℤ) + ds.length) ≤
          lib.dataSize (lib.set (4 * index) (update'.sent d'.buffer index) asdu) := by
        rw [hlib.dataSize_set]
        push_cast
        omega
      have hrest := ih (fun d hd => hds d (List.mem_cons_of_mem _ hd)) hsize' hd
      have hnat : index + 1 + i = index + (i + 1) := by omega
      have hint : ((index + 1 : ℕ) : ℤ) + i = index + ((i + 1 : ℕ) : ℤ) := by push_cast; ring
      rwa [hnat, hint] at hrest

end Loop

/-! ## The offsets -/

/-- **The offset assigned to an element** is four times its number, behind what is there. -/
lemma getElem?_assignedOffsets (hlib : lib.Lawful) {asdu : Asdu} {es : List AsduElement} {i : ℕ}
    (hi : i < es.length) :
    (assignedOffsets lib asdu es)[i]? = some (lib.dataSize asdu + 4 * i) := by
  induction es generalizing asdu i with
  | nil => cases hi
  | cons e es ih =>
    cases i with
    | zero =>
      rw [assignedOffsets, List.getElem?_cons_zero, hlib.add_offset, Nat.cast_zero, mul_zero,
        add_zero]
    | succ i =>
      rw [assignedOffsets, List.getElem?_cons_succ, ih (Nat.lt_of_succ_lt_succ hi),
        hlib.dataSize_add]
      push_cast
      rw [mul_add, mul_one, add_assoc, add_comm (4 : ℤ)]

/-- Supported inputs have one element each. -/
lemma length_elements {inputs : List DataInput} (h : ∀ d ∈ inputs, d.Supported) :
    (elements inputs).length = inputs.length := by
  induction inputs with
  | nil => rfl
  | cons d ds ih =>
    obtain ⟨update, hupdate, -⟩ := h d List.mem_cons_self
    have hrest := ih fun d hd => h d (List.mem_cons_of_mem _ hd)
    rw [elements, List.filterMap_cons, hupdate]
    exact congrArg (· + 1) hrest

/-! ## The state -/

section State

variable {p₀ p p' : SmvPublisher Asdu}

/-- After every run the inputs are supported and have the update functions that `init` has
selected, and their elements fill the data block. -/
structure Configured (lib : SvLibrary Asdu) (p₀ p : SmvPublisher Asdu) : Prop where
  supported : ∀ d ∈ p.inputs, d.Supported
  dataSize_eq : lib.dataSize p.asdu = 4 * p.inputs.length
  updateFunction_eq : ∀ k : ℕ,
    p.inputs[k]?.map DataInput.updateFunction = p₀.inputs[k]?.map DataInput.updateFunction

/-- The other processes leave rings of the same types behind. -/
def RingsKept (p₀ : SmvPublisher Asdu) (is : List SmvPublisherInput) : Prop :=
  ∀ (k : ℕ) buffer d (update : UpdateFunction), .input k buffer ∈ is → p₀.inputs[k]? = some d →
    d.updateFunction = some update → WellFormed update.type 4 buffer

/-- A call of `run` that returns has transmitted, or the deadline has not come. -/
lemma run_cases (hp : ∀ d ∈ p.inputs, d.Supported) {now timeInNs : ℤ}
    (h : p.run lib now timeInNs = .ok p') :
    (p.transmitDeadline ≤ now ∧ (∀ (i : ℕ) d, p.inputs[i]? = some d → d.Reads i) ∧
      p' = { p with
        transmitDeadline := p.transmitDeadline + p.interval
        asdu := lib.increaseSmpCnt (lib.setRefrTmNs timeInNs (storeInputs lib 0 p.inputs p.asdu))
        published := p.published ++
          [lib.increaseSmpCnt (lib.setRefrTmNs timeInNs (storeInputs lib 0 p.inputs p.asdu))] }) ∨
      (now < p.transmitDeadline ∧ p' = p) := by
  rw [run] at h
  split_ifs at h with hdue
  · obtain ⟨x, hx, hreturn⟩ := Fallible.bind_eq_ok.mp h
    rw [← Nat.cast_zero] at hx
    obtain ⟨hreads, rfl⟩ := (updateInputs_eq_ok_iff hp).mp hx
    simp only [Nat.zero_add] at hreads
    exact Or.inl ⟨hdue, hreads, (Except.ok.inj hreturn).symm⟩
  · exact Or.inr ⟨not_le.mp hdue, (Except.ok.inj h).symm⟩

/-- A call of `run` returns if all inputs can be read. -/
lemma run_eq_ok (hp : ∀ d ∈ p.inputs, d.Supported) {now timeInNs : ℤ}
    (hdue : p.transmitDeadline ≤ now) (hreads : ∀ (i : ℕ) d, p.inputs[i]? = some d → d.Reads i) :
    ∃ p', p.run lib now timeInNs = .ok p' := by
  have hloop : updateInputs lib ((0 : ℕ) : ℤ) p.inputs p.asdu =
      .ok (p.inputs, storeInputs lib 0 p.inputs p.asdu) := by
    apply (updateInputs_eq_ok_iff hp).mpr
    simp only [Nat.zero_add]
    exact ⟨hreads, trivial⟩
  rw [Nat.cast_zero] at hloop
  rw [run, if_pos hdue, hloop]
  exact ⟨_, rfl⟩

/-- Every step keeps the configuration. -/
lemma Configured.step (hlib : lib.Lawful) (h : Configured lib p₀ p) {i : SmvPublisherInput}
    (hkept : RingsKept p₀ [i]) (hstep : smvPublisherStep lib p i = .ok p') :
    Configured lib p₀ p' := by
  cases i with
  | input k buffer =>
    obtain rfl := Except.ok.inj hstep
    refine ⟨?_, ?_, ?_⟩
    · intro d hd
      obtain ⟨j, hj⟩ := List.mem_iff_getElem?.mp hd
      rw [List.getElem?_modify] at hj
      obtain ⟨d', hd', rfl⟩ := Option.map_eq_some_iff.mp hj
      obtain ⟨update, hupdate, hring⟩ := h.supported d' (List.mem_of_getElem? hd')
      split_ifs with hkj
      · have hsame := h.updateFunction_eq j
        rw [hd', Option.map_some] at hsame
        obtain ⟨d₀, hd₀, hupdate₀⟩ := Option.map_eq_some_iff.mp hsame.symm
        exact ⟨update, hupdate, hkept k buffer d₀ update (List.mem_singleton_self _) (hkj ▸ hd₀)
          (hupdate₀.trans hupdate)⟩
      · exact ⟨update, hupdate, hring⟩
    · rw [List.length_modify]
      exact h.dataSize_eq
    · intro j
      rw [List.getElem?_modify, ← h.updateFunction_eq, Option.map_eq_map, Option.map_map]
      congr 1
      funext d
      show DataInput.updateFunction (if k = j then _ else d) = _
      split_ifs <;> rfl
  | run now timeInNs =>
    rcases run_cases h.supported hstep with ⟨-, -, rfl⟩ | ⟨-, rfl⟩
    · refine ⟨h.supported, ?_, h.updateFunction_eq⟩
      rw [hlib.dataSize_increaseSmpCnt, hlib.dataSize_setRefrTmNs, dataSize_storeInputs hlib]
      exact h.dataSize_eq
    · exact h

/-- Every run keeps the configuration. -/
lemma Configured.exec (hlib : lib.Lawful) (h : Configured lib p₀ p) {is : List SmvPublisherInput}
    (hkept : RingsKept p₀ is) (hexec : Run.exec (smvPublisherStep lib) p is = .ok p') :
    Configured lib p₀ p' := by
  have hinv : ∀ q i q', Configured lib p₀ q → i ∈ is → smvPublisherStep lib q i = .ok q' →
      Configured lib p₀ q' := by
    intro q i q' hq hi hstep
    refine hq.step hlib (fun k buffer d update hmem => ?_) hstep
    rw [List.mem_singleton] at hmem
    exact hkept k buffer d update (hmem ▸ hi)
  exact Run.exec_invariant_of_guarded hinv h (fun _ _ _ hperforms => hperforms.mem) hexec

/-- What `init` adds to the ASDU for a ring. -/
def addElement (lib : SvLibrary Asdu) (asdu : Asdu) (b : Buffer) : Asdu :=
  match UpdateFunction.ofType b.type with
  | none => asdu
  | some update => (lib.add update.element asdu).2

/-- **The second loop of `init`** returns if all headers are mapped. It keeps the mappings, selects
the update functions by the types, and adds the elements. -/
lemma addInputs_eq_ok_iff {buffers : List Buffer} {asdu asdu' : Asdu} {inputs : List DataInput} :
    addInputs lib asdu buffers = .ok (inputs, asdu') ↔ (∀ b ∈ buffers, 16 ≤ b.length) ∧
      inputs = buffers.map (fun b => ⟨b, UpdateFunction.ofType b.type⟩) ∧
        asdu' = buffers.foldl (addElement lib) asdu := by
  induction buffers generalizing asdu asdu' inputs with
  | nil =>
    constructor
    · intro h
      obtain ⟨rfl, rfl⟩ := Prod.mk.inj (Except.ok.inj h)
      exact ⟨fun b hb => (List.not_mem_nil hb).elim, rfl, rfl⟩
    · rintro ⟨-, rfl, rfl⟩
      rfl
  | cons b bs ih =>
    -- the two branches differ in the element only
    have hcons : addInputs lib asdu (b :: bs) = (do
        let type ← readType.run' b
        let r ← addInputs lib (match UpdateFunction.ofType type with
          | none => asdu
          | some update => (lib.add update.element asdu).2) bs
        return (⟨b, UpdateFunction.ofType type⟩ :: r.1, r.2)) := by
      rw [addInputs]
      congr 1
      funext type
      cases UpdateFunction.ofType type <;> rfl
    rw [hcons, List.forall_mem_cons, List.map_cons, List.foldl_cons]
    constructor
    · intro h
      obtain ⟨type, htype, hrest⟩ := Fallible.bind_eq_ok.mp h
      obtain ⟨hlen, rfl⟩ := readType_eq_ok_iff.mp htype
      obtain ⟨⟨ds, a⟩, hloop, hreturn⟩ := Fallible.bind_eq_ok.mp hrest
      obtain ⟨rfl, rfl⟩ := Prod.mk.inj (Except.ok.inj hreturn)
      obtain ⟨hlens, rfl, rfl⟩ := ih.mp hloop
      exact ⟨⟨hlen, hlens⟩, rfl, rfl⟩
    · rintro ⟨⟨hlen, hlens⟩, rfl, rfl⟩
      refine Fallible.bind_eq_ok.mpr ⟨_, readType_eq_ok_iff.mpr ⟨hlen, rfl⟩, ?_⟩
      exact Fallible.bind_eq_ok.mpr ⟨_, ih.mpr ⟨hlens, rfl, rfl⟩, rfl⟩

lemma UpdateFunction.ofType_type (update : UpdateFunction) :
    UpdateFunction.ofType update.type = some update := by
  cases update <;> rfl

/-- A supported ring adds four bytes to the data block. -/
lemma dataSize_addElement (hlib : lib.Lawful) {update : UpdateFunction} {b : Buffer} {asdu : Asdu}
    (hring : WellFormed update.type 4 b) :
    lib.dataSize (addElement lib asdu b) = lib.dataSize asdu + 4 := by
  rw [addElement, hring.type_eq, UpdateFunction.ofType_type]
  exact hlib.dataSize_add _ _

lemma dataSize_foldl_addElement (hlib : lib.Lawful) {buffers : List Buffer} {asdu : Asdu}
    (hrings : ∀ b ∈ buffers, ∃ update : UpdateFunction, WellFormed update.type 4 b) :
    lib.dataSize (buffers.foldl (addElement lib) asdu) =
      lib.dataSize asdu + 4 * buffers.length := by
  induction buffers generalizing asdu with
  | nil => simp
  | cons b bs ih =>
    obtain ⟨⟨update, hring⟩, hbs⟩ := List.forall_mem_cons.mp hrings
    rw [List.foldl_cons, ih hbs, dataSize_addElement hlib hring, List.length_cons]
    push_cast
    ring

/-- `init` leaves the module configured. -/
lemma configured_init (hlib : lib.Lawful) {smpCnt interval now : ℤ} {buffers : List Buffer}
    (hrings : ∀ b ∈ buffers, ∃ update : UpdateFunction, WellFormed update.type 4 b)
    (h : initSmvPublisher lib smpCnt interval buffers now = .ok p) : Configured lib p p := by
  obtain ⟨⟨inputs, asdu⟩, hadd, hreturn⟩ := Fallible.bind_eq_ok.mp h
  obtain rfl := Except.ok.inj hreturn
  obtain ⟨-, rfl, rfl⟩ := addInputs_eq_ok_iff.mp hadd
  refine ⟨fun d hd => ?_, ?_, fun k => rfl⟩
  · obtain ⟨b, hb, rfl⟩ := List.mem_map.mp hd
    obtain ⟨update, hring⟩ := hrings b hb
    refine ⟨update, ?_, hring⟩
    show UpdateFunction.ofType b.type = some update
    rw [hring.type_eq, UpdateFunction.ofType_type]
  · show lib.dataSize (lib.setupComplete (lib.setRefrTm 0 (lib.setSmpCntWrap smpCnt _))) =
      4 * ((buffers.map fun b => (⟨b, UpdateFunction.ofType b.type⟩ : DataInput)).length : ℤ)
    rw [hlib.dataSize_setupComplete, hlib.dataSize_setRefrTm, hlib.dataSize_setSmpCntWrap,
      dataSize_foldl_addElement hlib hrings, hlib.dataSize_addAsdu, zero_add, List.length_map]

/-- The value sent for an input is the newest item of its ring, unless it is a `FLOAT32` input
and the word that is read does not round to the item. -/
lemma sent_eq_meaning_iff {update : UpdateFunction} {b : Buffer} {i : ℕ}
    (hreads : update.Reads b i) : update.sent b i = update.meaning (b.slot 4 b.index) ↔
      (update = .updateFloat → NearestFloat (b.slot 4 i) (BitVec.ofInt 32 (b.slot 4 b.index))) := by
  cases update with
  | updateFloat =>
    have hfits := hreads rfl
    have hword : -2 ^ 31 ≤ b.slot 4 i ∧ b.slot 4 i < 2 ^ 31 := by
      rw [Buffer.slot, Int.toNat_natCast]
      exact Buffer.get_four_mem hfits
    rw [← intToFloat_eq_iff hword.1 hword.2]
    exact ⟨fun h _ => AsduValue.float.inj h, fun h => congrArg _ (h rfl)⟩
  | updateQuality => exact ⟨fun _ hfloat => absurd hfloat (by decide), fun _ => rfl⟩
  | updateInt32 => exact ⟨fun _ hfloat => absurd hfloat (by decide), fun _ => rfl⟩

/-- Every input can be read if the offsets are `int`s and the slots of the `FLOAT32` inputs are in
their buffers. -/
lemma forall_reads_iff {inputs : List DataInput} : (∀ (i : ℕ) d, inputs[i]? = some d → d.Reads i) ↔
    inputs.length ≤ 2 ^ 29 ∧ ∀ (i : ℕ) d, inputs[i]? = some d →
      d.updateFunction = some .updateFloat → 16 + 4 * i + 4 ≤ d.buffer.length := by
  constructor
  · intro h
    refine ⟨?_, fun i d hd hfloat => (h i d hd).2 _ hfloat rfl⟩
    by_contra hlen
    obtain ⟨d, hd⟩ : ∃ d, inputs[2 ^ 29]? = some d :=
      ⟨_, List.getElem?_eq_getElem (by omega)⟩
    exact absurd (h _ d hd).1 (by norm_num)
  · rintro ⟨hlen, hfits⟩ i d hd
    have hi := (List.getElem?_eq_some_iff.mp hd).1
    refine ⟨by omega, fun update hupdate hfloat => ?_⟩
    exact hfits i d hd (hfloat ▸ hupdate)

/-- **A transmission contains the newest items** if and only if the words read for the `FLOAT32`
inputs stand for their items. -/
lemma transmits_iff (hlib : lib.Lawful) (h : Configured lib p₀ p) {now timeInNs : ℤ}
    (hdue : p.transmitDeadline ≤ now) : Transmits lib now timeInNs p ↔ p.FloatsInPlace := by
  -- what is published for an input
  have hget : ∀ (i : ℕ) (d : DataInput) (update : UpdateFunction), p.inputs[i]? = some d →
      d.updateFunction = some update → lib.get update.element (4 * i) (lib.increaseSmpCnt
        (lib.setRefrTmNs timeInNs (storeInputs lib 0 p.inputs p.asdu))) =
          update.sent d.buffer i := by
    intro i d update hd hupdate
    have hsize : 4 * (((0 : ℕ) : ℤ) + p.inputs.length) ≤ lib.dataSize p.asdu := by
      rw [h.dataSize_eq, Nat.cast_zero, zero_add]
    have hstored := get_storeInputs hlib h.supported hsize hd hupdate
    rw [Nat.cast_zero, zero_add, Nat.zero_add] at hstored
    rw [hlib.get_increaseSmpCnt, hlib.get_setRefrTmNs, hstored]
  -- where it should be
  have hoffset : ∀ (i : ℕ) (d : DataInput), p.inputs[i]? = some d →
      (assignedOffsets lib lib.addAsdu (elements p.inputs))[i]? = some (4 * (i : ℤ)) := by
    intro i d hd
    have hi := (List.getElem?_eq_some_iff.mp hd).1
    rw [getElem?_assignedOffsets hlib (by rwa [length_elements h.supported]),
      hlib.dataSize_addAsdu, zero_add]
  constructor
  · rintro ⟨p', asdu, hrun, hpublished, hstores⟩
    rcases run_cases h.supported hrun with ⟨-, hreads, rfl⟩ | ⟨hearly, -⟩
    · obtain rfl := List.singleton_inj.mp (List.append_cancel_left hpublished)
      obtain ⟨hcount, hfits⟩ := forall_reads_iff.mp hreads
      refine ⟨hcount, hfits, fun i d hd hfloat => ?_⟩
      obtain ⟨offset, hassigned, hitem⟩ := hstores i d _ hd hfloat
      obtain rfl := Option.some.inj ((hoffset i d hd).symm.trans hassigned)
      rw [hget i d _ hd hfloat] at hitem
      exact (sent_eq_meaning_iff ((hreads i d hd).2 _ hfloat)).mp hitem rfl
    · omega
  · intro hplace
    have hreads := forall_reads_iff.mpr ⟨hplace.count_le, hplace.slot_fits⟩
    obtain ⟨p', hrun⟩ : ∃ p', p.run lib now timeInNs = .ok p' :=
      run_eq_ok h.supported hdue hreads
    rcases run_cases h.supported hrun with ⟨-, -, rfl⟩ | ⟨hearly, -⟩
    · refine ⟨_, _, hrun, rfl, fun i d update hd hupdate => ⟨_, hoffset i d hd, ?_⟩⟩
      rw [hget i d update hd hupdate]
      refine (sent_eq_meaning_iff ((hreads i d hd).2 _ hupdate)).mpr fun hfloat => ?_
      exact hplace.nearest i d hd (hfloat ▸ hupdate)
    · omega

end State

/-- **The transmissions contain the newest items** if and only if before each of them the word in
the slot with the number of every `FLOAT32` input can be read and rounds to the newest item of its
ring, and the offsets fit into an `int`.

**Proof sketch.** The loop of `run` sets every element at the offset assigned to it
(`get_storeInputs`); the value is the newest item for `QUALITY` and `INT32`, and the conversion of
the word in that slot for `FLOAT32` (`sent_eq_meaning_iff`). -/
theorem transmitsItems_iff (hlib : lib.Lawful) {smpCnt interval now : ℤ} {buffers : List Buffer}
    {p : SmvPublisher Asdu} {is : List SmvPublisherInput}
    (hrings : ∀ b ∈ buffers, ∃ update : UpdateFunction, WellFormed update.type 4 b)
    (hinit : initSmvPublisher lib smpCnt interval buffers now = .ok p) (hkept : RingsKept p is) :
    TransmitsItems lib p is ↔ ∀ pre q now timeInNs, pre ++ [.run now timeInNs] <+: is →
      Run.exec (smvPublisherStep lib) p pre = .ok q → q.transmitDeadline ≤ now →
        q.FloatsInPlace := by
  have hconfigured : ∀ pre q i, pre ++ [i] <+: is →
      Run.exec (smvPublisherStep lib) p pre = .ok q → Configured lib p q := by
    intro pre q i hpre hexec
    refine (configured_init hlib hrings hinit).exec hlib (fun k buffer d update hmem => ?_) hexec
    exact hkept k buffer d update (hpre.subset (List.mem_append_left _ hmem))
  constructor
  · intro h pre q now timeInNs hpre hexec hdue
    exact (transmits_iff hlib (hconfigured pre q _ hpre hexec) hdue).mp
      (h pre q now timeInNs hpre hexec hdue)
  · intro h pre q now timeInNs hpre hexec hdue
    exact (transmits_iff hlib (hconfigured pre q _ hpre hexec) hdue).mpr
      (h pre q now timeInNs hpre hexec hdue)

end SmvPublisher

/-! ## A library -/

/-- An ASDU with a data block of words. -/
structure WordAsdu where
  dataSize : ℤ
  words : ℤ → BitVec 32
  smpCnt : ℤ
  smpCntWrap : ℤ
  refrTm : ℤ

/-- The word in the data block for a value. -/
def AsduValue.word : AsduValue → BitVec 32
  | float bits => bits
  | quality bits => bits.setWidth 32
  | int32 bits => bits

/-- The value of an element whose word in the data block is given. -/
def AsduElement.value : AsduElement → BitVec 32 → AsduValue
  | float, word => .float word
  | quality, word => .quality (word.setWidth 16)
  | int32, word => .int32 word

/-- The SV library for elements of one word. -/
def wordLibrary : SvLibrary WordAsdu where
  addAsdu := ⟨0, fun _ => 0, 0, 0, 0⟩
  add _ asdu := (asdu.dataSize, { asdu with dataSize := asdu.dataSize + 4 })
  setSmpCntWrap smpCntWrap asdu := { asdu with smpCntWrap := smpCntWrap }
  setRefrTm refrTm asdu := { asdu with refrTm := refrTm }
  setupComplete asdu := asdu
  set offset value asdu := { asdu with words := Function.update asdu.words offset value.word }
  setRefrTmNs refrTm asdu := { asdu with refrTm := refrTm }
  increaseSmpCnt asdu := { asdu with smpCnt := (asdu.smpCnt + 1) % asdu.smpCntWrap }
  dataSize := WordAsdu.dataSize
  get element offset asdu := element.value (asdu.words offset)

lemma wordLibrary_lawful : wordLibrary.Lawful where
  dataSize_addAsdu := rfl
  add_offset _ _ := rfl
  dataSize_add _ _ := rfl
  dataSize_setSmpCntWrap _ _ := rfl
  dataSize_setRefrTm _ _ := rfl
  dataSize_setupComplete _ := rfl
  dataSize_set _ _ _ := rfl
  dataSize_setRefrTmNs _ _ := rfl
  dataSize_increaseSmpCnt _ := rfl
  get_set_self offset value asdu _ _ := by
    show value.element.value (Function.update asdu.words offset value.word offset) = value
    rw [Function.update_self]
    cases value with
    | float bits => rfl
    | quality bits =>
      show AsduValue.quality ((bits.setWidth 32).setWidth 16) = _
      rw [BitVec.setWidth_setWidth_of_le _ (by decide), BitVec.setWidth_eq]
    | int32 bits => rfl
  get_set_of_disjoint element offset offset' value asdu h := by
    show element.value (Function.update asdu.words offset value.word offset') = _
    rw [Function.update_of_ne (by omega)]
    rfl
  get_setRefrTmNs _ _ _ _ := rfl
  get_increaseSmpCnt _ _ _ := rfl

/-! ## Examples -/

/-- A ring of two small numbers. -/
def wordRing (type index slot₀ slot₁ : UInt8) : Buffer where
  bytes := [4, 0, 0, 0, 2, 0, 0, 0, index, 0, 0, 0, type, 0, 0, 0, slot₀, 0, 0, 0, slot₁, 0, 0, 0]
  length_lt := by simp

/-- A `FLOAT32` ring of two items with the newest one, `1.0`, in slot `1`, and the number `1` in
slot `0`. -/
def inPlaceRing : Buffer where
  bytes := [4, 0, 0, 0, 2, 0, 0, 0, 1, 0, 0, 0, 5, 0, 0, 0, 1, 0, 0, 0, 0, 0, 128, 63]
  length_lt := by decide

/-- The publisher with this input, a `QUALITY` and an `INT32` input. -/
def inPlacePublisher : SmvPublisher WordAsdu where
  inputs := [⟨inPlaceRing, some .updateFloat⟩, ⟨wordRing 7 1 0 3, some .updateQuality⟩,
    ⟨wordRing 3 1 8 7, some .updateInt32⟩]
  interval := 250
  transmitDeadline := 250
  asdu := { wordLibrary.addAsdu with dataSize := 12, smpCntWrap := 4000 }
  published := []

/-- The number `1` is converted to `1.0`. -/
lemma floatsInPlace_inPlaceRing {Asdu : Type} {p : SmvPublisher Asdu} {quality int32 : Buffer}
    (hinputs : p.inputs = [⟨inPlaceRing, some .updateFloat⟩, ⟨quality, some .updateQuality⟩,
      ⟨int32, some .updateInt32⟩]) : p.FloatsInPlace := by
  have hfirst : ∀ (i : ℕ) (d : SmvPublisher.DataInput), p.inputs[i]? = some d →
      d.updateFunction = some .updateFloat → i = 0 ∧ d.buffer = inPlaceRing := by
    intro i d hd hfloat
    rw [hinputs] at hd
    match i with
    | 0 => exact ⟨rfl, Option.some.inj hd ▸ rfl⟩
    | 1 => exact absurd hfloat (Option.some.inj hd ▸ nofun)
    | 2 => exact absurd hfloat (Option.some.inj hd ▸ nofun)
    | _ + 3 => cases hd
  refine ⟨by simp [hinputs], fun i d hd hfloat => ?_, fun i d hd hfloat => ?_⟩
  · obtain ⟨rfl, hbuffer⟩ := hfirst i d hd hfloat
    rw [hbuffer]
    decide
  · obtain ⟨rfl, hbuffer⟩ := hfirst i d hd hfloat
    rw [hbuffer, ← intToFloat_eq_iff (by decide) (by decide)]
    decide

/-- Two transmissions, with a new number in the `INT32` ring between them. -/
theorem transmitsItems_inPlace : initSmvPublisher wordLibrary 4000 250
    [inPlaceRing, wordRing 7 1 0 3, wordRing 3 1 8 7] 0 = .ok inPlacePublisher ∧
      inPlacePublisher.TransmitsItems wordLibrary
        [.run 250 0, .input 2 (wordRing 3 0 9 7), .run 500 0] := by
  have hrings : ∀ b ∈ [inPlaceRing, wordRing 7 1 0 3, wordRing 3 1 8 7],
      ∃ update : SmvPublisher.UpdateFunction, WellFormed update.type 4 b := by
    intro b hb
    simp only [List.mem_cons, List.not_mem_nil, or_false] at hb
    rcases hb with rfl | rfl | rfl
    · exact ⟨.updateFloat, by constructor <;> decide⟩
    · exact ⟨.updateQuality, by constructor <;> decide⟩
    · exact ⟨.updateInt32, by constructor <;> decide⟩
  have hinit : initSmvPublisher wordLibrary 4000 250
      [inPlaceRing, wordRing 7 1 0 3, wordRing 3 1 8 7] 0 = .ok inPlacePublisher := rfl
  have hkept : inPlacePublisher.RingsKept
      [.run 250 0, .input 2 (wordRing 3 0 9 7), .run 500 0] := by
    intro k buffer d update hmem hd hupdate
    simp only [List.mem_cons, reduceCtorEq, SmvPublisherInput.input.injEq, List.not_mem_nil,
      or_false, false_or] at hmem
    obtain ⟨rfl, rfl⟩ := hmem
    obtain rfl := Option.some.inj hd
    obtain rfl := Option.some.inj hupdate
    constructor <;> decide
  refine ⟨hinit, (SmvPublisher.transmitsItems_iff wordLibrary_lawful hrings hinit hkept).mpr ?_⟩
  intro pre q now timeInNs hpre hexec _
  match pre with
  | [] =>
    obtain rfl := Except.ok.inj hexec
    exact floatsInPlace_inPlaceRing rfl
  | [_] => simp [List.cons_prefix_cons] at hpre
  | [a, b] =>
    simp only [List.cons_append, List.nil_append, List.cons_prefix_cons] at hpre
    obtain ⟨rfl, rfl, -⟩ := hpre
    obtain rfl := Except.ok.inj hexec
    exact floatsInPlace_inPlaceRing rfl
  | _ :: _ :: _ :: pre =>
    have hlen := hpre.length_le
    simp only [List.cons_append, List.length_cons, List.length_append, List.length_nil] at hlen
    omega

/-- A `FLOAT32` ring of two items, `0.0` in slot `0` and the newest one, `1.0`, in slot `1`. -/
def unitRing : Buffer where
  bytes := [4, 0, 0, 0, 2, 0, 0, 0, 1, 0, 0, 0, 5, 0, 0, 0, 0, 0, 0, 0, 0, 0, 128, 63]
  length_lt := by decide

/-- **The wrong slot**: the newest item is `1.0`, and the first transmission contains `0.0`. -/
theorem not_transmitsItems_unitRing : ∃ p, initSmvPublisher wordLibrary 4000 250 [unitRing] 0 =
    .ok p ∧ WellFormed TypeCode.float32 4 unitRing ∧
      ¬ SmvPublisher.TransmitsItems wordLibrary p [.run 250 0] := by
  refine ⟨_, rfl, by constructor <;> decide, fun h => ?_⟩
  obtain ⟨p', asdu, hrun, hpublished, hstores⟩ := h [] _ 250 0 List.prefix_rfl rfl (by decide)
  obtain ⟨offset, hoffset, hitem⟩ := hstores 0 _ _ rfl rfl
  obtain rfl := Option.some.inj hoffset
  obtain rfl := Except.ok.inj hrun
  obtain rfl := List.singleton_inj.mp (List.append_cancel_left hpublished)
  exact absurd hitem (by decide)

end Tmee
