import Tmee.MemFile.Buffer

set_option relaxedAutoImplicit false
set_option autoImplicit false

/-!
# The shared ring file

`mem_file.c`: a header of four words, `size`, `items`, `index` and `type` with the semaphore
byte, followed by the slots. The functions are those of the C file under its names; an `int *`
view at position `k` is the address `4 * k`, and the `int` arithmetic of an index expression is
checked.
-/

namespace Tmee

/-! ## Types of the items (`types.h`) -/

namespace TypeCode

abbrev bool : ℤ := 1
abbrev int8 : ℤ := 2
abbrev int32 : ℤ := 3
abbrev int64 : ℤ := 4
abbrev float32 : ℤ := 5
abbrev float64 : ℤ := 6
abbrev quality : ℤ := 7
abbrev gentime : ℤ := 12
abbrev goose : ℤ := 20
abbrev smv92 : ℤ := 68

end TypeCode

/-- The number of bytes of an item, `0` for a type without a fixed size. -/
def typeToItemSize (type : ℤ) : ℤ :=
  if type = TypeCode.bool then 1
  else if type = TypeCode.int8 then 1
  else if type = TypeCode.int32 then 4
  else if type = TypeCode.int64 then 8
  else if type = TypeCode.float32 then 4
  else if type = TypeCode.float64 then 8
  else if type = TypeCode.quality then 4
  else if type = TypeCode.smv92 then 68
  else if type = TypeCode.goose then 1024
  else 0

/-- The size of a ring file, computed in `int`. -/
def calculateBufferSize (itemSize maxItems : ℤ) : ℤ := wrap32 (16 + itemSize * maxItems)

/-! ## Header -/

/-- The address of the semaphore byte. -/
abbrev semaphorePos : ℕ := 14

def readSize : BufM ℤ := load 4 0
def readItems : BufM ℤ := load 4 4
def readIndex : BufM ℤ := load 4 8

/-- The low 16 bits of the fourth header word, `tmp[3] & 0x0000FFFF`. -/
def readType : BufM ℤ := do
  let word ← load 4 12
  return word % 2 ^ 16

/-- Take the buffer. With `spin = 0` a taken buffer is reported by `-1`; otherwise the call
waits while the semaphore byte is set. A sequential run has nobody who would clear it. -/
def lockBuffer (spin : ℤ) : BufM ℤ := do
  let semaphore ← load 1 semaphorePos
  if spin = 0 then
    if semaphore ≠ 0 then
      return -1
    else
      store 1 semaphorePos 1
      return 0
  else
    if semaphore ≠ 0 then
      throw Fault.blocked
    else
      store 1 semaphorePos 1
      return 0

/-- Give the buffer back; `-1` if it was not taken. -/
def freeBufferLock : BufM ℤ := do
  let semaphore ← load 1 semaphorePos
  if semaphore = 0 then
    return -1
  else
    store 1 semaphorePos 0
    return 0

/-- Run `body` between `lock_buffer(buffer,1)` and `free_buffer_lock(buffer)`. -/
def locked {α : Type} (body : BufM α) : BufM α := do
  let _ ← lockBuffer 1
  let result ← body
  let _ ← freeBufferLock
  return result

/-! ## Readers -/

def readInputBool (index : ℤ) : BufM ℤ := locked do load 1 (← cInt (index + 16))
def readInputInt8 (index : ℤ) : BufM ℤ := locked do load 1 (← cInt (index + 16))
def readInputInt32 (index : ℤ) : BufM ℤ := locked do load 4 (4 * (← cInt (index + 4)))

def readInputSmv (varIndex index : ℤ) : BufM ℤ := locked do
  let offset ← cInt (index * 17)
  let base ← cInt (4 + offset)
  load 4 (4 * (← cInt (base + varIndex)))

def readCurrentInputBool : BufM ℤ := locked do load 1 (← cInt ((← readIndex) + 16))
def readCurrentInputInt8 : BufM ℤ := locked do load 1 (← cInt ((← readIndex) + 16))
def readCurrentInputInt32 : BufM ℤ := locked do load 4 (4 * (← cInt ((← readIndex) + 4)))

/-! ## Writers -/

def writeType (type : ℤ) : BufM Unit := locked (store 2 12 type)
def writeSize (size : ℤ) : BufM Unit := locked (store 4 0 size)
def writeItems (items : ℤ) : BufM Unit := locked (store 4 4 items)
def writeIndex (index : ℤ) : BufM Unit := locked (store 4 8 index)

/-- The common body of the typed writers: check type and size, then write the next slot by
`put` and advance the index. The C functions return `-1` when the check fails and reach the
end without a `return` otherwise. -/
def writeOutput (type size : ℤ) (put : ℤ → BufM Unit) : BufM (Option ℤ) := do
  let type' ← readType
  let size' ← readSize
  if type' ≠ type ∨ size' ≠ size then
    return some (-1)
  else
    let items ← readItems
    locked do
      let index ← cRem (← cInt ((← readIndex) + 1)) items
      put index
      store 4 8 index
    return none

/-- Store `value` in slot `index` of an `int` ring, `tmp[4 + index] = value`. -/
def putInt (value index : ℤ) : BufM Unit := do store 4 (4 * (← cInt (4 + index))) value

/-- Store `value` in slot `index` of a `char` ring, `buffer[16 + index] = value`. -/
def putChar (value index : ℤ) : BufM Unit := do store 1 (← cInt (16 + index)) value

def writeOutputInt (value : BitVec 32) : BufM (Option ℤ) :=
  writeOutput TypeCode.int32 4 (putInt value.toInt)
def writeOutputBool (value : BitVec 8) : BufM (Option ℤ) :=
  writeOutput TypeCode.bool 1 (putChar value.toInt)
def writeOutputInt8 (value : BitVec 8) : BufM (Option ℤ) :=
  writeOutput TypeCode.int8 1 (putChar value.toInt)
def writeOutputQuality (value : BitVec 32) : BufM (Option ℤ) :=
  writeOutput TypeCode.quality 4 (putInt value.toInt)
def writeOutputTime (value : BitVec 32) : BufM (Option ℤ) :=
  writeOutput TypeCode.gentime 4 (putInt value.toInt)

/-- The bit pattern of `(float) n` for a non-negative `int`: the 24 leading bits, rounded to
nearest with ties to even, under the biased exponent. -/
def floatBits (n : ℕ) : ℤ :=
  if n = 0 then 0
  else
    let e := Nat.log2 n
    let mantissa :=
      if e ≤ 23 then n * 2 ^ (23 - e)
      else
        let half := 2 ^ (e - 24)
        let q := n / 2 ^ (e - 23)
        let r := n % 2 ^ (e - 23)
        if r < half ∨ (r = half ∧ q % 2 = 0) then q else q + 1
    (126 + e) * 2 ^ 23 + mantissa

/-- `write_output_float` works on a `float *` view of the buffer, for the slot and for the
index field alike: `tmp[2] = index` stores the index converted to `float`. -/
def writeOutputFloat (value : BitVec 32) : BufM (Option ℤ) := do
  let type' ← readType
  let size' ← readSize
  if type' ≠ TypeCode.float32 ∨ size' ≠ 4 then
    return some (-1)
  else
    let items ← readItems
    locked do
      let index ← cRem (← cInt ((← readIndex) + 1)) items
      putInt value.toInt index
      store 4 8 (floatBits index.toNat)
    return none

end Tmee
