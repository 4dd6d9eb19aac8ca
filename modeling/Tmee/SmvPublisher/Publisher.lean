import Tmee.Lib.Fallible
import Tmee.MemFile.Conversion
import Tmee.MemFile.Readers

set_option relaxedAutoImplicit false
set_option autoImplicit false

/-!
# The publisher of sampled values

The module `smv_publisher`: every input ring feeds one element of an ASDU, and `run` fills all
elements and publishes the ASDU when the deadline has come. The SV library is not part of the
repository; it is a parameter here, with what the module calls of it and what can be read back from
an ASDU. The module works on the data block of the ASDU by offsets: it passes four times the number
of the input, and drops the offset that the library has returned for the element.

## Main definitions

* `Tmee.SvLibrary`, `Tmee.SvLibrary.Lawful` — the library, and what is relied on.
* `Tmee.SmvPublisher.DataInput`, `Tmee.SmvPublisher` — an input, and the private data of the module.
* `Tmee.initSmvPublisher`, `Tmee.SmvPublisher.run` — the module functions.
* `Tmee.smvPublisherStep` — a run of the module.
-/

namespace Tmee

/-! ## The library -/

/-- The kinds of elements that the module uses. -/
inductive AsduElement
  | float | quality | int32
  deriving DecidableEq, Repr

/-- The value of an element. `Quality` is a bit string of 16 bits. -/
inductive AsduValue
  | float (bits : BitVec 32)
  | quality (bits : BitVec 16)
  | int32 (bits : BitVec 32)
  deriving DecidableEq

/-- The kind of element that has the value. -/
def AsduValue.element : AsduValue → AsduElement
  | float _ => .float
  | quality _ => .quality
  | int32 _ => .int32

/-- What the module calls of the SV library, and what can be read back from an ASDU. -/
structure SvLibrary (Asdu : Type) where
  /-- The ASDU that `SVPublisher_addASDU` makes. -/
  addAsdu : Asdu
  /-- `SVPublisher_ASDU_addFLOAT`, `SVPublisher_ASDU_addQuality` and `SVPublisher_ASDU_addINT32`
  return the offset of the new element. -/
  add : AsduElement → Asdu → ℤ × Asdu
  setSmpCntWrap : ℤ → Asdu → Asdu
  setRefrTm : ℤ → Asdu → Asdu
  /-- `SVPublisher_setupComplete`. -/
  setupComplete : Asdu → Asdu
  /-- `SVPublisher_ASDU_setFLOAT`, `SVPublisher_ASDU_setQuality` and `SVPublisher_ASDU_setINT32` at
  an offset. -/
  set : ℤ → AsduValue → Asdu → Asdu
  setRefrTmNs : ℤ → Asdu → Asdu
  increaseSmpCnt : Asdu → Asdu
  /-- The size of the data block. -/
  dataSize : Asdu → ℤ
  /-- What a subscriber reads from the data block, for an element at an offset. -/
  get : AsduElement → ℤ → Asdu → AsduValue

/-- What is relied on: an element is added at the end of the data block and takes four bytes there,
and an element that has been set is read back, whatever happens to the others. -/
structure SvLibrary.Lawful {Asdu : Type} (lib : SvLibrary Asdu) : Prop where
  dataSize_addAsdu : lib.dataSize lib.addAsdu = 0
  add_offset : ∀ e a, (lib.add e a).1 = lib.dataSize a
  dataSize_add : ∀ e a, lib.dataSize (lib.add e a).2 = lib.dataSize a + 4
  dataSize_setSmpCntWrap : ∀ n a, lib.dataSize (lib.setSmpCntWrap n a) = lib.dataSize a
  dataSize_setRefrTm : ∀ t a, lib.dataSize (lib.setRefrTm t a) = lib.dataSize a
  dataSize_setupComplete : ∀ a, lib.dataSize (lib.setupComplete a) = lib.dataSize a
  dataSize_set : ∀ o v a, lib.dataSize (lib.set o v a) = lib.dataSize a
  dataSize_setRefrTmNs : ∀ t a, lib.dataSize (lib.setRefrTmNs t a) = lib.dataSize a
  dataSize_increaseSmpCnt : ∀ a, lib.dataSize (lib.increaseSmpCnt a) = lib.dataSize a
  get_set_self : ∀ o v a, 0 ≤ o → o + 4 ≤ lib.dataSize a → lib.get v.element o (lib.set o v a) = v
  get_set_of_disjoint : ∀ e o o' v a, o + 4 ≤ o' ∨ o' + 4 ≤ o →
    lib.get e o' (lib.set o v a) = lib.get e o' a
  get_setRefrTmNs : ∀ e o t a, lib.get e o (lib.setRefrTmNs t a) = lib.get e o a
  get_increaseSmpCnt : ∀ e o a, lib.get e o (lib.increaseSmpCnt a) = lib.get e o a

namespace SmvPublisher

variable {Asdu : Type} {lib : SvLibrary Asdu}

/-! ## Inputs -/

/-- The functions `update_float`, `update_quality` and `update_int32`. -/
inductive UpdateFunction
  | updateFloat | updateQuality | updateInt32
  deriving DecidableEq, Repr

/-- `update_float` reads the slot with the number of the input, and converts what it reads. -/
def updateFloat (lib : SvLibrary Asdu) (asdu : Asdu) (index _bufferIndex : ℤ) : BufM Asdu := do
  let offset ← cInt (index * 4)
  let value ← readInputInt32 index
  return lib.set offset (.float (intToFloat value)) asdu

def updateInt32 (lib : SvLibrary Asdu) (asdu : Asdu) (index bufferIndex : ℤ) : BufM Asdu := do
  let offset ← cInt (index * 4)
  let value ← readInputInt32 bufferIndex
  return lib.set offset (.int32 (BitVec.ofInt 32 value)) asdu

/-- The conversion to `Quality` keeps the low 16 bits. -/
def updateQuality (lib : SvLibrary Asdu) (asdu : Asdu) (index bufferIndex : ℤ) : BufM Asdu := do
  let offset ← cInt (index * 4)
  let value ← readInputInt32 bufferIndex
  return lib.set offset (.quality (BitVec.ofInt 16 value)) asdu

namespace UpdateFunction

/-- A call through the function pointer. -/
def call (lib : SvLibrary Asdu) : UpdateFunction → Asdu → ℤ → ℤ → BufM Asdu
  | .updateFloat => SmvPublisher.updateFloat lib
  | .updateQuality => SmvPublisher.updateQuality lib
  | .updateInt32 => SmvPublisher.updateInt32 lib

/-- The update function that `init` selects for a type; the other types get none. -/
def ofType (type : ℤ) : Option UpdateFunction :=
  if type = TypeCode.float32 then some .updateFloat
  else if type = TypeCode.quality then some .updateQuality
  else if type = TypeCode.int32 then some .updateInt32
  else none

/-- The element that `init` adds beside the update function. -/
def element : UpdateFunction → AsduElement
  | .updateFloat => .float
  | .updateQuality => .quality
  | .updateInt32 => .int32

end UpdateFunction

/-- An input of the ASDU. -/
structure DataInput where
  buffer : Buffer
  /-- Not assigned for a type that `init` does not know. -/
  updateFunction : Option UpdateFunction
  deriving DecidableEq

/-- The second loop of `init`: select the update functions and add the elements. -/
def addInputs (lib : SvLibrary Asdu) : Asdu → List Buffer → Except Fault (List DataInput × Asdu)
  | asdu, [] => .ok ([], asdu)
  | asdu, buffer :: buffers => do
    let type ← readType.run' buffer
    match UpdateFunction.ofType type with
    | none =>
      let (inputs, asdu) ← addInputs lib asdu buffers
      return (⟨buffer, none⟩ :: inputs, asdu)
    | some update =>
      let (inputs, asdu) ← addInputs lib (lib.add update.element asdu).2 buffers
      return (⟨buffer, some update⟩ :: inputs, asdu)

/-- The loop of `run`, from the input with the number `index` on. -/
def updateInputs (lib : SvLibrary Asdu) :
    ℤ → List DataInput → Asdu → Except Fault (List DataInput × Asdu)
  | _, [], asdu => .ok ([], asdu)
  | index, d :: ds, asdu => do
    let currentIndex ← readIndex.run' d.buffer
    match d.updateFunction with
    | none => throw Fault.nullPointer
    | some update =>
      let (asdu, buffer) ← update.call lib asdu index currentIndex d.buffer
      let (ds, asdu) ← updateInputs lib (index + 1) ds asdu
      return ({ d with buffer := buffer } :: ds, asdu)

end SmvPublisher

/-! ## The module -/

/-- The private data of the module. -/
structure SmvPublisher (Asdu : Type) where
  inputs : List SmvPublisher.DataInput
  /-- In microseconds. -/
  interval : ℤ
  transmitDeadline : ℤ
  asdu : Asdu
  /-- The ASDUs that have been published so far. -/
  published : List Asdu
  deriving DecidableEq

/-- `init` with the mapped input files, at the time `now`. -/
def initSmvPublisher {Asdu : Type} (lib : SvLibrary Asdu) (smpCnt interval : ℤ)
    (buffers : List Buffer) (now : ℤ) : Except Fault (SmvPublisher Asdu) := do
  let (inputs, asdu) ← SmvPublisher.addInputs lib lib.addAsdu buffers
  return {
    inputs := inputs
    interval := interval
    transmitDeadline := now + interval
    asdu := lib.setupComplete (lib.setRefrTm 0 (lib.setSmpCntWrap smpCnt asdu))
    published := [] }

/-- A call of `run` at the time `now`; `timeInNs` is what `Hal_getTimeInNs` returns. -/
def SmvPublisher.run {Asdu : Type} (lib : SvLibrary Asdu) (now timeInNs : ℤ)
    (p : SmvPublisher Asdu) : Except Fault (SmvPublisher Asdu) := do
  if now ≥ p.transmitDeadline then
    let (inputs, asdu) ← SmvPublisher.updateInputs lib 0 p.inputs p.asdu
    let asdu := lib.increaseSmpCnt (lib.setRefrTmNs timeInNs asdu)
    return { p with
      inputs := inputs
      transmitDeadline := p.transmitDeadline + p.interval
      asdu := asdu
      published := p.published ++ [asdu] }
  else return p

/-- What happens to the module. -/
inductive SmvPublisherInput
  /-- Other processes have changed the ring of input `k`. -/
  | input (k : ℕ) (buffer : Buffer)
  | run (now timeInNs : ℤ)

/-- A run of the module. -/
def smvPublisherStep {Asdu : Type} (lib : SvLibrary Asdu) (p : SmvPublisher Asdu) :
    SmvPublisherInput → Except Fault (SmvPublisher Asdu)
  | .input k buffer =>
    .ok { p with inputs := p.inputs.modify k fun d => { d with buffer := buffer } }
  | .run now timeInNs => p.run lib now timeInNs

end Tmee
