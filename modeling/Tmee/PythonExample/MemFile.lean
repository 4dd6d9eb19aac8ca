import Tmee.Lib.Hoare
import Tmee.MemFile.WriteLaw

set_option relaxedAutoImplicit false
set_option autoImplicit false

/-!
# The shared ring file in Python

`python_example/mem_file.py`: the functions of `mem_file.c` for a program that maps the file with
the module `mmap`. A `mmap` object has a position of its own, from which `read` and `write` go on.
A call that raises an exception leaves the object as it is then, so the state is kept with it.

## Main definitions

* `Tmee.Python.Mmap` — a `mmap` object.
* `Tmee.Python.PyM` — code that works on one `mmap` object and may raise an exception.
* `Tmee.Python.readInputBool`, `Tmee.Python.writeOutput`, .. — the functions of the Python file.
-/

namespace Tmee.Python

open ByteMem

/-- What keeps a call of the Python code from returning. -/
inductive PyError
  | valueError
  | typeError
  | indexError
  | zeroDivisionError
  /-- `struct.error`. -/
  | structError
  /-- A wait for the lock byte of a file that nobody else changes. -/
  | waits
  deriving DecidableEq, Repr

/-- A `mmap` object. -/
structure Mmap where
  buffer : Buffer
  pos : ℕ
  /-- The code is between `lock_buffer` and `free_buffer_lock`. -/
  held : Bool
  /-- The lock byte after each of the writes made between them. -/
  lockSeen : List ℤ
  deriving DecidableEq

/-- Code that works on one `mmap` object. -/
abbrev PyM := EStateM PyError Mmap

/-! ## `mmap` objects -/

/-- The object with other bytes. -/
def Mmap.replaced (m : Mmap) (b : Buffer) : Mmap :=
  { m with buffer := b, lockSeen := if m.held then m.lockSeen ++ [b.lock] else m.lockSeen }

def seek (pos : ℤ) : PyM Unit := fun m =>
  if 0 ≤ pos ∧ pos ≤ m.buffer.length then .ok () { m with pos := pos.toNat }
  else .error .valueError m

/-- At most `n` bytes from the position on. -/
def read (n : ℕ) : PyM (List UInt8) := fun m =>
  let bs := window m.buffer.bytes m.pos n
  .ok bs { m with pos := m.pos + bs.length }

def write (bs : List UInt8) : PyM Unit := fun m =>
  if m.pos + bs.length ≤ m.buffer.length then
    .ok () (Mmap.replaced { m with pos := m.pos + bs.length }
      ⟨overwrite m.buffer.bytes m.pos bs, by rw [length_overwrite]; exact m.buffer.length_lt⟩)
  else .error .valueError m

/-- `buffer[i]`, a number below 256. -/
def getItem (i : ℕ) : PyM ℤ := fun m =>
  match m.buffer.bytes[i]? with
  | some x => .ok x.toNat m
  | none => .error .indexError m

/-- `buffer[i] = v`, for a byte. -/
def setItem (i : ℕ) (v : ℤ) : PyM Unit := fun m =>
  if i < m.buffer.length then .ok () (m.replaced (m.buffer.put 1 i v))
  else .error .indexError m

/-- `buffer[start:stop]`. -/
def slice (start stop : ℕ) : PyM (List UInt8) := fun m =>
  .ok (window m.buffer.bytes start (stop - start)) m

/-! ## Values -/

/-- `struct.unpack` for one signed integer of `w` bytes: a tuple with one element. -/
def unpack (w : ℕ) (bs : List UInt8) : PyM (List ℤ) :=
  if bs.length = w then return [decodeInt bs] else throw .structError

/-- `struct.pack` for one signed integer of `w` bytes. -/
def pack (w : ℕ) (v : ℤ) : PyM (List UInt8) :=
  if -(256 ^ w) ≤ 2 * v ∧ 2 * v < 256 ^ w then return encodeInt w v else throw .structError

/-- Element `0` of a tuple. -/
def item0 : List ℤ → PyM ℤ
  | [] => throw .indexError
  | v :: _ => return v

/-- `int(t)` of a tuple: not one of the arguments that `int` takes. -/
def intOfTuple (_ : List ℤ) : PyM ℤ := throw .typeError

/-- `int(bs)` of at most one byte: the bytes are read as a decimal literal. -/
def intOfBytes : List UInt8 → PyM ℤ
  | [x] => if 48 ≤ x.toNat ∧ x.toNat ≤ 57 then return x.toNat - 48 else throw .valueError
  | _ => throw .valueError

/-- `bool(bs)`: bytes are true if there are any. -/
def boolOfBytes (bs : List UInt8) : Bool := !bs.isEmpty

/-! ## Header -/

/-- `int(struct.unpack(.., buffer[start:start + w])[0])`. -/
def unpackAt (w start : ℕ) : PyM ℤ := do
  let bs ← slice start (start + w)
  let tuple ← unpack w bs
  item0 tuple

def readSize : PyM ℤ := unpackAt 4 0
def readItems : PyM ℤ := unpackAt 4 4
def readIndex : PyM ℤ := unpackAt 4 8
/-- The type as a signed 16-bit integer. -/
def readType : PyM ℤ := unpackAt 2 12

/-- Note on which side of the lock the code is. -/
def setHeld (held : Bool) : PyM Unit := modify fun m => { m with held := held }

def lockBuffer (spin : Bool) : PyM ℤ := do
  let semaphore ← getItem semaphorePos
  if spin = false ∧ semaphore = 1 then
    return -1
  else if semaphore = 1 then
    throw .waits
  else
    setItem semaphorePos 1
    setHeld true
    return 0

def freeBufferLock : PyM ℤ := do
  setHeld false
  let semaphore ← getItem semaphorePos
  if semaphore = 0 then
    return -1
  else
    setItem semaphorePos 0
    return 0

/-- The code of a function between `lock_buffer(file,True)` and `free_buffer_lock(file)`. -/
def locked {α : Type} (body : PyM α) : PyM α := do
  let _ ← lockBuffer true
  let result ← body
  let _ ← freeBufferLock
  return result

/-! ## Readers -/

def readInputBool (index : ℤ) : PyM Bool := do
  seek (16 + index)
  locked do return boolOfBytes (← read 1)

def readInputInt8 (index : ℤ) : PyM ℤ := do
  seek (16 + index)
  locked do intOfBytes (← read 1)

def readInputInt32 (index : ℤ) : PyM ℤ := do
  seek (16 + index * 4)
  locked do intOfTuple (← unpack 4 (← read 4))

def readInputSmv (varIndex index : ℤ) : PyM ℤ := do
  seek (16 + index * 68 + varIndex)
  locked do intOfTuple (← unpack 4 (← read 4))

def readCurrentInputBool : PyM Bool := do readInputBool (← readIndex)
def readCurrentInputInt8 : PyM ℤ := do readInputInt8 (← readIndex)
def readCurrentInputInt32 : PyM ℤ := do readInputInt32 (← readIndex)

/-! ## Writers -/

/-- A header field at `pos`, which gets four bytes. -/
def writeField (pos : ℕ) (v : ℤ) : PyM Unit := do
  seek pos
  locked do write (← pack 4 v)

def writeType (type : ℤ) : PyM Unit := writeField 12 type
def writeSize (size : ℤ) : PyM Unit := writeField 0 size
def writeItems (items : ℤ) : PyM Unit := writeField 4 items
def writeIndex (index : ℤ) : PyM Unit := writeField 8 index

/-- `a % b`: the result has the sign of the divisor. -/
def rem (a b : ℤ) : PyM ℤ := if b = 0 then throw .zeroDivisionError else return a.fmod b

/-- The common body of the typed writers, for items of `w` bytes. The functions return `-1` when
the check fails, and nothing otherwise. -/
def writeOutput (type : ℤ) (w : ℕ) (packed : PyM (List UInt8)) : PyM (Option ℤ) := do
  let type' ← readType
  let size' ← readSize
  if type' ≠ type ∨ size' ≠ w then
    return some (-1)
  else
    let items ← readItems
    locked do
      let index ← rem ((← readIndex) + 1) items
      seek (16 + index * w)
      write (← packed)
      writeIndex index
    return none

def writeOutputInt (value : BitVec 32) : PyM (Option ℤ) :=
  writeOutput TypeCode.int32 4 (pack 4 value.toInt)
/-- `struct.pack("?", value)` is one or zero. -/
def writeOutputBool (value : BitVec 8) : PyM (Option ℤ) :=
  writeOutput TypeCode.bool 1 (pure [if value = 0 then 0 else 1])
def writeOutputInt8 (value : BitVec 8) : PyM (Option ℤ) :=
  writeOutput TypeCode.int8 1 (pack 1 value.toInt)
def writeOutputQuality (value : BitVec 32) : PyM (Option ℤ) :=
  writeOutput TypeCode.quality 4 (pack 4 value.toInt)
def writeOutputTime (value : BitVec 32) : PyM (Option ℤ) :=
  writeOutput TypeCode.gentime 4 (pack 4 value.toInt)
/-- The four bytes of a `float` are those of its bit pattern. -/
def writeOutputFloat (value : BitVec 32) : PyM (Option ℤ) :=
  writeOutput TypeCode.float32 4 (pure (encodeInt 4 value.toInt))

/-! ## Steps -/

section Steps

variable {σ α β : Type} {m : Mmap}

lemma bind_ok {c : EStateM PyError σ α} {f : α → EStateM PyError σ β} {s s' : σ} {a : α}
    (h : c s = .ok a s') : (c >>= f) s = f a s' := by
  show EStateM.bind c f s = f a s'
  rw [EStateM.bind, h]

lemma bind_error {c : EStateM PyError σ α} {f : α → EStateM PyError σ β} {s s' : σ} {e : PyError}
    (h : c s = .error e s') : (c >>= f) s = .error e s' := by
  show EStateM.bind c f s = .error e s'
  rw [EStateM.bind, h]

lemma seek_eq {p : ℕ} (h : p ≤ m.buffer.length) : seek p m = .ok () { m with pos := p } := by
  rw [seek, if_pos ⟨by omega, by exact_mod_cast h⟩, Int.toNat_natCast]

/-- An item reads as the byte that is there. -/
lemma getItem_eq {i : ℕ} (h : i < m.buffer.length) :
    getItem i m = .ok (decode (window m.buffer.bytes i 1)) m := by
  have hget : m.buffer.bytes[i]? = some m.buffer.bytes[i] := List.getElem?_eq_getElem h
  have hwindow : window m.buffer.bytes i 1 = [m.buffer.bytes[i]] := by
    rw [window, List.drop_eq_getElem_cons h]
    rfl
  rw [getItem, hwindow]
  simp [hget, decode]

/-- The byte at an address is zero or one if and only if the integer there is. -/
lemma decode_one_eq_iff {b : Buffer} {i : ℕ} {v : ℤ} (h : i < b.length) (hv₀ : 0 ≤ v)
    (hv : v < 128) : (decode (window b.bytes i 1) : ℤ) = v ↔ b.get 1 i = v := by
  have hlen : (window b.bytes i 1).length = 1 := length_window h
  have hlt := decode_lt (window b.bytes i 1)
  rw [hlen] at hlt
  rw [Buffer.get, decodeInt, hlen, Int.bmod_def]
  split_ifs <;> omega

lemma unpackAt_eq {w start : ℕ} (h : start + w ≤ m.buffer.length) :
    unpackAt w start m = .ok (m.buffer.get w start) m := by
  have hslice : slice start (start + w) m = .ok (window m.buffer.bytes start w) m := by
    rw [slice, Nat.add_sub_cancel_left]
  have hunpack : unpack w (window m.buffer.bytes start w) m = .ok [m.buffer.get w start] m := by
    rw [unpack, if_pos (length_window h)]
    rfl
  rw [unpackAt, bind_ok hslice, bind_ok hunpack]
  rfl

lemma readIndex_eq (h : 16 ≤ m.buffer.length) : readIndex m = .ok m.buffer.index m :=
  unpackAt_eq (by omega)

/-- The lock of a buffer that is free is taken. -/
lemma lockBuffer_eq (hlen : 16 ≤ m.buffer.length) (h : m.buffer.lock = 0) {spin : Bool} :
    lockBuffer spin m = .ok 0 { m.replaced (m.buffer.put 1 semaphorePos 1) with held := true } := by
  have hpos : semaphorePos < m.buffer.length := by unfold semaphorePos; omega
  have hzero : (decode (window m.buffer.bytes semaphorePos 1) : ℤ) = 0 :=
    (decode_one_eq_iff hpos le_rfl (by decide)).mpr h
  rw [lockBuffer, bind_ok (getItem_eq hpos), hzero, if_neg (by simp), if_neg (by decide)]
  have hset : setItem semaphorePos 1 m = .ok () (m.replaced (m.buffer.put 1 semaphorePos 1)) :=
    if_pos hpos
  rw [bind_ok hset]
  rfl

/-- A wait for a lock that is taken never ends. -/
lemma lockBuffer_of_taken (hlen : 16 ≤ m.buffer.length) (h : m.buffer.lock = 1) :
    lockBuffer true m = .error .waits m := by
  have hpos : semaphorePos < m.buffer.length := by unfold semaphorePos; omega
  have hone : (decode (window m.buffer.bytes semaphorePos 1) : ℤ) = 1 :=
    (decode_one_eq_iff hpos (by decide) (by decide)).mpr h
  rw [lockBuffer, bind_ok (getItem_eq hpos), hone, if_neg (by simp), if_pos rfl]
  rfl

end Steps

end Tmee.Python
