import Tmee.PythonExample.MemFile

set_option relaxedAutoImplicit false
set_option autoImplicit false

/-!
# The readers in Python and in C

The Python readers are meant to be those of `mem_file.c` on the same bytes. They are not: a byte
object is true whenever it is not empty, `int` takes neither a tuple nor a byte that is no digit,
and an exception leaves the lock taken.

## Main definitions

* `Tmee.Python.Reader` — the readers, with their Python and their C function.
* `Tmee.Python.Reader.Agrees` — both return the same value and leave the bytes as they were.

## Main results

* `Tmee.Python.locked_intOfTuple` — an exception between lock and unlock leaves the lock taken.
* `Tmee.Python.readers_agree_iff` — the readers of a `BOOL` agree on a byte of one, and no reader
  agrees on anything else.
-/

namespace Tmee.Python

open ByteMem

/-- A call of one of the readers. -/
inductive Reader
  | bool (index : ℤ)
  | int8 (index : ℤ)
  | int32 (index : ℤ)
  | smv (varIndex index : ℤ)
  | currentBool | currentInt8 | currentInt32
  deriving DecidableEq, Repr

namespace Reader

/-- A Python `bool` is one of the numbers zero and one. -/
def ofBool (b : Bool) : ℤ := if b then 1 else 0

/-- The call in Python. -/
def python : Reader → PyM ℤ
  | bool index => ofBool <$> readInputBool index
  | int8 index => readInputInt8 index
  | int32 index => readInputInt32 index
  | smv varIndex index => readInputSmv varIndex index
  | currentBool => ofBool <$> readCurrentInputBool
  | currentInt8 => readCurrentInputInt8
  | currentInt32 => readCurrentInputInt32

/-- The call in C. -/
def c : Reader → BufM ℤ
  | bool index => Tmee.readInputBool index
  | int8 index => Tmee.readInputInt8 index
  | int32 index => Tmee.readInputInt32 index
  | smv varIndex index => Tmee.readInputSmv varIndex index
  | currentBool => Tmee.readCurrentInputBool
  | currentInt8 => Tmee.readCurrentInputInt8
  | currentInt32 => Tmee.readCurrentInputInt32

/-- The slot that is read. -/
def index (b : Buffer) : Reader → ℤ
  | bool index | int8 index | int32 index | smv _ index => index
  | currentBool | currentInt8 | currentInt32 => b.index

/-- The number of bytes of a slot. -/
def width : Reader → ℕ
  | bool _ | int8 _ | currentBool | currentInt8 => 1
  | int32 _ | currentInt32 => 4
  | smv _ _ => 68

/-- A buffer with its lock free in which the slot to be read lies. Its type is not looked at. -/
structure Readable (r : Reader) (b : Buffer) : Prop where
  length_ge : 16 ≤ b.length
  lock_eq : b.lock = 0
  index_nonneg : 0 ≤ r.index b
  slot_fits : 16 + r.width * (r.index b).toNat + r.width ≤ b.length

/-- Every slot of a ring can be read by the readers of items that are not wider than its own. -/
lemma readable_of_wellFormed {r : Reader} {b : Buffer} {type : ℤ} {w : ℕ}
    (h : WellFormed type w b) (hw : r.width ≤ w) (h₀ : 0 ≤ r.index b) (h₁ : r.index b < b.items) :
    r.Readable b where
  length_ge := h.length_ge
  lock_eq := h.lock_eq
  index_nonneg := h₀
  slot_fits := by
    have hfits := h.slot_fits h₀ h₁
    have hmul := Nat.mul_le_mul_right (r.index b).toNat hw
    omega

/-- The reader of the slot under the index, as a reader of a given slot. -/
def resolve (b : Buffer) : Reader → Reader
  | currentBool => bool b.index
  | currentInt8 => int8 b.index
  | currentInt32 => int32 b.index
  | r => r

lemma Readable.resolve {r : Reader} {b : Buffer} (h : r.Readable b) : (r.resolve b).Readable b := by
  obtain ⟨hlen, hlock, hindex, hfits⟩ := h
  cases r <;> exact ⟨hlen, hlock, hindex, hfits⟩

/-- **The two calls agree**: both return, with the same value, and leave all bytes as they were. -/
def Agrees (r : Reader) (m : Mmap) : Prop :=
  ∃ v m', r.python m = .ok v m' ∧ m'.buffer = m.buffer ∧ r.c m.buffer = .ok (v, m.buffer)

/-- A reader of a `BOOL` whose slot holds the byte one. -/
def ReadsOne (b : Buffer) : Reader → Prop
  | bool index => b.slot 1 index = 1
  | currentBool => b.slot 1 b.index = 1
  | _ => False

end Reader

section Body

variable {α : Type} {m : Mmap}

/-- The object between lock and unlock. -/
def Mmap.taken (m : Mmap) : Mmap :=
  { m.replaced (m.buffer.put 1 semaphorePos 1) with held := true }

@[simp] lemma Mmap.taken_buffer (m : Mmap) :
    m.taken.buffer = m.buffer.put 1 semaphorePos 1 := rfl

@[simp] lemma Mmap.taken_pos (m : Mmap) : m.taken.pos = m.pos := rfl

@[simp] lemma Mmap.replaced_buffer (m : Mmap) (b : Buffer) : (m.replaced b).buffer = b := rfl

/-- Code between lock and unlock that leaves the bytes as they are. -/
lemma locked_read {body : PyM α} {r : α} {m' : Mmap} (hlen : 16 ≤ m.buffer.length)
    (h : m.buffer.lock = 0) (hbody : body m.taken = .ok r m')
    (hbytes : m'.buffer = m.taken.buffer) :
    ∃ m'', locked body m = .ok r m'' ∧ m''.buffer = m.buffer := by
  have hlen' : semaphorePos < m'.buffer.length := by
    rw [hbytes, Mmap.taken_buffer, Buffer.length_put]
    unfold semaphorePos
    omega
  have hone : (decode (window m'.buffer.bytes semaphorePos 1) : ℤ) = 1 := by
    rw [decode_one_eq_iff hlen' (by decide) (by decide), hbytes]
    exact lock_put_one (semaphorePos_lt hlen)
  -- the byte is cleared, and the bytes are those from before
  have hset : setItem semaphorePos 0 { m' with held := false } =
      .ok () (Mmap.replaced { m' with held := false } (m'.buffer.put 1 semaphorePos 0)) :=
    if_pos hlen'
  have hfree : freeBufferLock m' =
      .ok 0 (Mmap.replaced { m' with held := false } (m'.buffer.put 1 semaphorePos 0)) := by
    have hheld : setHeld false m' = .ok () { m' with held := false } := rfl
    rw [freeBufferLock, bind_ok hheld, bind_ok (getItem_eq (m := { m' with held := false }) hlen'),
      hone, if_neg one_ne_zero, bind_ok hset]
    rfl
  refine ⟨Mmap.replaced { m' with held := false } (m'.buffer.put 1 semaphorePos 0), ?_, ?_⟩
  · rw [locked, bind_ok (lockBuffer_eq hlen h)]
    show (body >>= _) m.taken = _
    rw [bind_ok hbody, bind_ok hfree]
    rfl
  · rw [Mmap.replaced_buffer, hbytes, Mmap.taken_buffer, Buffer.put_put_self,
      Buffer.put_lock_of_free (semaphorePos_lt hlen) h]

/-- An exception between lock and unlock leaves the lock taken. -/
lemma locked_error {body : PyM α} {e : PyError} {m' : Mmap} (hlen : 16 ≤ m.buffer.length)
    (h : m.buffer.lock = 0) (hbody : body m.taken = .error e m') : locked body m = .error e m' := by
  rw [locked, bind_ok (lockBuffer_eq hlen h)]
  show (body >>= _) m.taken = _
  rw [bind_error hbody]

end Body

section Readers

variable {m : Mmap} {i : ℕ}

/-- One byte above the header, read between lock and unlock. -/
lemma read_one_taken (h : m.pos < m.buffer.length) (hpos : 16 ≤ m.pos) :
    read 1 m.taken = .ok [m.buffer.bytes[m.pos]] { m.taken with pos := m.pos + 1 } := by
  have hwindow : window m.taken.buffer.bytes m.pos 1 = [m.buffer.bytes[m.pos]] := by
    rw [Mmap.taken_buffer, Buffer.put, window_overwrite_of_disjoint, window,
      List.drop_eq_getElem_cons h]
    · rfl
    · rw [length_encodeInt]
      unfold semaphorePos
      omega
  show EStateM.Result.ok (window m.taken.buffer.bytes m.pos 1)
    { m.taken with pos := m.pos + (window m.taken.buffer.bytes m.pos 1).length } = _
  rw [hwindow]
  rfl

lemma intOfBytes_digit {x : UInt8} (h : 48 ≤ x.toNat ∧ x.toNat ≤ 57) (m : Mmap) :
    intOfBytes [x] m = .ok (x.toNat - 48) m := by
  rw [intOfBytes, if_pos h]
  rfl

lemma intOfBytes_of_not_digit {x : UInt8} (h : ¬ (48 ≤ x.toNat ∧ x.toNat ≤ 57)) (m : Mmap) :
    intOfBytes [x] m = .error .valueError m := by
  rw [intOfBytes, if_neg h]
  rfl

/-- A byte of a slot as C reads it. -/
lemma slot_one_eq {b : Buffer} (h : 16 + i < b.length) :
    b.slot 1 i = ((b.bytes.get ⟨16 + i, h⟩).toNat : ℤ).bmod 256 := by
  have hwindow : window b.bytes (16 + 1 * i) 1 = [b.bytes.get ⟨16 + i, h⟩] := by
    rw [one_mul, window, List.drop_eq_getElem_cons h]
    rfl
  rw [Buffer.slot, Int.toNat_natCast, Buffer.get, hwindow, decodeInt]
  simp [decode]

/-- **A `BOOL` is true whatever its byte is.** -/
lemma readInputBool_eq (hlen : 16 ≤ m.buffer.length) (h : m.buffer.lock = 0)
    (hi : 16 + i < m.buffer.length) :
    ∃ m', readInputBool i m = .ok true m' ∧ m'.buffer = m.buffer := by
  have hseek : seek (16 + i) m = .ok () { m with pos := 16 + i } := by
    have := seek_eq (m := m) (p := 16 + i) hi.le
    push_cast at this
    exact this
  rw [readInputBool, bind_ok hseek]
  apply locked_read (m := { m with pos := 16 + i }) hlen h
  · rw [bind_ok (read_one_taken (m := { m with pos := 16 + i }) hi (Nat.le_add_right 16 i))]
    rfl
  · rfl

/-- **An `INT8` is the digit that its byte stands for**, and any other byte is an error that
leaves the lock taken. -/
lemma readInputInt8_eq (hlen : 16 ≤ m.buffer.length) (h : m.buffer.lock = 0)
    (hi : 16 + i < m.buffer.length) :
    (∃ m', readInputInt8 i m = .ok (m.buffer.slot 1 i - 48) m' ∧ m'.buffer = m.buffer) ∨
      ∃ e m', readInputInt8 i m = .error e m' ∧ m'.buffer.lock = 1 := by
  have hseek : seek (16 + i) m = .ok () { m with pos := 16 + i } := by
    have := seek_eq (m := m) (p := 16 + i) hi.le
    push_cast at this
    exact this
  have hread := read_one_taken (m := { m with pos := 16 + i }) hi (Nat.le_add_right 16 i)
  have hslot := slot_one_eq hi
  rw [readInputInt8, bind_ok hseek]
  by_cases hdigit : 48 ≤ (m.buffer.bytes.get ⟨16 + i, hi⟩).toNat ∧
      (m.buffer.bytes.get ⟨16 + i, hi⟩).toNat ≤ 57
  · left
    have hvalue : m.buffer.slot 1 i = (m.buffer.bytes.get ⟨16 + i, hi⟩).toNat := by
      rw [hslot]
      exact Int.bmod_eq_of_le_mul_two (by omega) (by omega)
    apply locked_read (m := { m with pos := 16 + i }) hlen h
    · rw [bind_ok hread, hvalue]
      exact intOfBytes_digit hdigit _
    · rfl
  · right
    have hbody : (do intOfBytes (← read 1) : PyM ℤ) (Mmap.taken { m with pos := 16 + i }) =
        .error .valueError { Mmap.taken { m with pos := 16 + i } with pos := 16 + i + 1 } := by
      rw [bind_ok hread]
      exact intOfBytes_of_not_digit hdigit _
    exact ⟨_, _, locked_error (m := { m with pos := 16 + i }) hlen h hbody,
      lock_put_one (semaphorePos_lt hlen)⟩

/-- **No tuple is an integer**: a reader that converts the tuple of `struct.unpack` never returns,
and leaves the lock taken. -/
lemma locked_intOfTuple (hlen : 16 ≤ m.buffer.length) (h : m.buffer.lock = 0) :
    ∃ e m', locked (do intOfTuple (← unpack 4 (← read 4))) m = .error e m' ∧
      m'.buffer.lock = 1 := by
  have hbody : ∃ e m', (do intOfTuple (← unpack 4 (← read 4)) : PyM ℤ) m.taken = .error e m' ∧
      m'.buffer = m.taken.buffer := by
    have hread : read 4 m.taken = .ok (window m.taken.buffer.bytes m.pos 4)
      { m.taken with pos := m.pos + (window m.taken.buffer.bytes m.pos 4).length } := rfl
    rw [bind_ok hread, unpack]
    split_ifs
    · exact ⟨_, _, rfl, rfl⟩
    · exact ⟨_, _, rfl, rfl⟩
  obtain ⟨e, m', herror, hbytes⟩ := hbody
  refine ⟨e, m', locked_error hlen h herror, ?_⟩
  rw [hbytes]
  exact lock_put_one (semaphorePos_lt hlen)

lemma readInputInt32_error (hlen : 16 ≤ m.buffer.length) (h : m.buffer.lock = 0)
    (hi : 16 + 4 * i + 4 ≤ m.buffer.length) :
    ∃ e m', readInputInt32 i m = .error e m' ∧ m'.buffer.lock = 1 := by
  have hseek : seek (16 + (i : ℤ) * 4) m = .ok () { m with pos := 16 + 4 * i } := by
    have := seek_eq (m := m) (p := 16 + 4 * i) (by omega)
    push_cast at this
    rwa [mul_comm]
  rw [readInputInt32, bind_ok hseek]
  exact locked_intOfTuple (m := { m with pos := 16 + 4 * i }) hlen h

/-- A sample is never returned; if the word lies in the file the lock is left taken. -/
lemma readInputSmv_error (hlen : 16 ≤ m.buffer.length) (h : m.buffer.lock = 0) (k : ℤ) :
    ∃ e m', readInputSmv k i m = .error e m' ∧
      (0 ≤ k → 16 + i * 68 + k ≤ m.buffer.length → m'.buffer.lock = 1) := by
  by_cases hpos : 0 ≤ 16 + (i : ℤ) * 68 + k ∧ 16 + (i : ℤ) * 68 + k ≤ m.buffer.length
  · have hseek : seek (16 + (i : ℤ) * 68 + k) m =
        .ok () { m with pos := (16 + (i : ℤ) * 68 + k).toNat } := if_pos hpos
    rw [readInputSmv, bind_ok hseek]
    obtain ⟨e, m', herror, hlock⟩ :=
      locked_intOfTuple (m := { m with pos := (16 + (i : ℤ) * 68 + k).toNat }) hlen h
    exact ⟨e, m', herror, fun _ _ => hlock⟩
  · have hseek : seek (16 + (i : ℤ) * 68 + k) m = .error .valueError m := if_neg hpos
    rw [readInputSmv, bind_error hseek]
    exact ⟨_, _, rfl, fun h₀ h₁ => absurd ⟨by omega, h₁⟩ hpos⟩

/-- The reader of the current slot reads the index first. -/
lemma Reader.python_resolve {r : Reader} (hlen : 16 ≤ m.buffer.length) :
    r.python m = (r.resolve m.buffer).python m := by
  have hindex := readIndex_eq hlen
  cases r with
  | currentBool =>
    show (ofBool <$> readCurrentInputBool) m = _
    rw [readCurrentInputBool, map_bind, bind_ok hindex]
    rfl
  | currentInt8 => exact bind_ok hindex
  | currentInt32 => exact bind_ok hindex
  | bool i => rfl
  | int8 i => rfl
  | int32 i => rfl
  | smv k i => rfl

lemma Reader.c_resolve {r : Reader} {b : Buffer} (hlen : 16 ≤ b.length) (h : b.lock = 0) :
    r.c b = (r.resolve b).c b := by
  cases r with
  | currentBool => exact readCurrentInputBool_eq_readInput hlen h
  | currentInt8 => exact readCurrentInputBool_eq_readInput hlen h
  | currentInt32 => exact readCurrentInputInt32_eq_readInput hlen h
  | bool i => rfl
  | int8 i => rfl
  | int32 i => rfl
  | smv k i => rfl

end Readers

/-! ## Agreement -/

section Agreement

variable {r : Reader} {m m' : Mmap} {v v' : ℤ} {e : PyError} {i : ℤ}

lemma ofBool_map_ok {c : PyM Bool} {a : Bool} (h : c m = .ok a m') :
    (Reader.ofBool <$> c) m = .ok (Reader.ofBool a) m' := by
  rw [map_eq_pure_bind, bind_ok h]
  rfl

namespace Reader

lemma agrees_iff_of_ok (hp : r.python m = .ok v m') (hbytes : m'.buffer = m.buffer)
    (hc : r.c m.buffer = .ok (v', m.buffer)) : r.Agrees m ↔ v' = v := by
  constructor
  · rintro ⟨u, t, hu, -, hcu⟩
    rw [hp] at hu
    rw [hc] at hcu
    obtain ⟨rfl, -⟩ := EStateM.Result.ok.inj hu
    exact (Prod.mk.inj (Except.ok.inj hcu)).1
  · rintro rfl
    exact ⟨v', m', hp, hbytes, hc⟩

lemma not_agrees_of_error (hp : r.python m = .error e m') : ¬ r.Agrees m := by
  rintro ⟨u, t, hu, -, -⟩
  rw [hp] at hu
  cases hu

lemma agrees_resolve_iff (h : r.Readable m.buffer) :
    r.Agrees m ↔ (r.resolve m.buffer).Agrees m := by
  rw [Agrees, Agrees, python_resolve h.length_ge, c_resolve h.length_ge h.lock_eq]

lemma Readable.byte_lt (h : (Reader.bool i).Readable m.buffer) :
    16 + i.toNat < m.buffer.length := by
  have hfits : 16 + 1 * i.toNat + 1 ≤ m.buffer.length := h.slot_fits
  omega

lemma agrees_bool_iff (h : (Reader.bool i).Readable m.buffer) :
    (Reader.bool i).Agrees m ↔ m.buffer.slot 1 i = 1 := by
  have hfits := h.byte_lt
  obtain ⟨i, rfl⟩ := Int.eq_ofNat_of_zero_le h.index_nonneg
  obtain ⟨m', hpython, hbytes⟩ := readInputBool_eq h.length_ge h.lock_eq hfits
  exact agrees_iff_of_ok (ofBool_map_ok hpython) hbytes
    (readInputBool_of_fits h.length_ge h.lock_eq hfits)

lemma not_agrees_int8 (h : (Reader.int8 i).Readable m.buffer) : ¬ (Reader.int8 i).Agrees m := by
  have hfits : 16 + i.toNat < m.buffer.length := by
    have hslot : 16 + 1 * i.toNat + 1 ≤ m.buffer.length := h.slot_fits
    omega
  obtain ⟨i, rfl⟩ := Int.eq_ofNat_of_zero_le h.index_nonneg
  rcases readInputInt8_eq h.length_ge h.lock_eq hfits with
    ⟨m', hpython, hbytes⟩ | ⟨e, m', herror, -⟩
  · rw [agrees_iff_of_ok (r := .int8 i) hpython hbytes
      (readInputBool_of_fits h.length_ge h.lock_eq hfits)]
    exact (sub_lt_self _ (by decide)).ne'
  · exact not_agrees_of_error (r := .int8 i) herror

lemma not_agrees_int32 (h : (Reader.int32 i).Readable m.buffer) :
    ¬ (Reader.int32 i).Agrees m := by
  have hfits : 16 + 4 * i.toNat + 4 ≤ m.buffer.length := h.slot_fits
  obtain ⟨i, rfl⟩ := Int.eq_ofNat_of_zero_le h.index_nonneg
  obtain ⟨e, m', herror, -⟩ := readInputInt32_error h.length_ge h.lock_eq hfits
  exact not_agrees_of_error (r := .int32 i) herror

lemma not_agrees_smv {k : ℤ} (h : (Reader.smv k i).Readable m.buffer) :
    ¬ (Reader.smv k i).Agrees m := by
  obtain ⟨i, rfl⟩ := Int.eq_ofNat_of_zero_le h.index_nonneg
  obtain ⟨e, m', herror, -⟩ := readInputSmv_error (i := i) h.length_ge h.lock_eq k
  exact not_agrees_of_error (r := .smv k i) herror

end Reader

end Agreement

/-- **The readers agree on a `BOOL` with the byte one, and on nothing else**: for every content of
the file, every slot and every word of a sample.

**Proof sketch.** `read_input_bool` returns true for every byte; `read_input_int8` returns a digit
for the byte of its character, which is another number, and raises an exception for every other
byte; the others raise an exception. -/
theorem readers_agree_iff {r : Reader} {m : Mmap} (h : r.Readable m.buffer) :
    r.Agrees m ↔ r.ReadsOne m.buffer := by
  rw [Reader.agrees_resolve_iff h]
  have hslot := h.resolve
  cases r with
  | bool i => exact Reader.agrees_bool_iff hslot
  | currentBool => exact Reader.agrees_bool_iff hslot
  | int8 i => exact iff_of_false (Reader.not_agrees_int8 hslot) id
  | currentInt8 => exact iff_of_false (Reader.not_agrees_int8 hslot) id
  | int32 i => exact iff_of_false (Reader.not_agrees_int32 hslot) id
  | currentInt32 => exact iff_of_false (Reader.not_agrees_int32 hslot) id
  | smv k i => exact iff_of_false (Reader.not_agrees_smv hslot) id

/-- A mapped ring of one entry of one byte. -/
def byteFile (type value : UInt8) : Mmap where
  buffer := ⟨[1, 0, 0, 0, 1, 0, 0, 0, 0, 0, 0, 0, type, 0, 0, 0, value], by simp⟩
  pos := 0
  held := false
  lockSeen := []

/-- A mapped ring of two entries of one byte. -/
def twoByteFile (type slot₀ slot₁ : UInt8) : Mmap where
  buffer := ⟨[1, 0, 0, 0, 2, 0, 0, 0, 1, 0, 0, 0, type, 0, 0, 0, slot₀, slot₁], by simp⟩
  pos := 0
  held := false
  lockSeen := []

/-- Of two entries, the byte one is read by both, by its number and as the newest one, and the byte
zero is not. -/
theorem readers_agree_two : (Reader.bool 1).Agrees (twoByteFile 1 0 1) ∧
    Reader.currentBool.Agrees (twoByteFile 1 0 1) ∧
    ¬ (Reader.bool 0).Agrees (twoByteFile 1 0 1) := by
  have hring : WellFormed TypeCode.bool 1 (twoByteFile 1 0 1).buffer := by constructor <;> decide
  have hone : (Reader.bool 1).Readable (twoByteFile 1 0 1).buffer :=
    Reader.readable_of_wellFormed hring le_rfl (by decide) (by decide)
  have hcurrent : Reader.currentBool.Readable (twoByteFile 1 0 1).buffer :=
    Reader.readable_of_wellFormed hring le_rfl (by decide) (by decide)
  have hzero : (Reader.bool 0).Readable (twoByteFile 1 0 1).buffer :=
    Reader.readable_of_wellFormed hring le_rfl le_rfl (by decide)
  have hvalue : (twoByteFile 1 0 1).buffer.slot 1 1 = 1 := by decide
  have hnewest : (twoByteFile 1 0 1).buffer.slot 1 (twoByteFile 1 0 1).buffer.index = 1 := by decide
  have hfalse : (twoByteFile 1 0 1).buffer.slot 1 0 ≠ 1 := by decide
  exact ⟨(readers_agree_iff hone).mpr hvalue, (readers_agree_iff hcurrent).mpr hnewest,
    fun h => hfalse ((readers_agree_iff hzero).mp h)⟩

/-- **A `BOOL` that is false is read as true**, and an `INT8` with the value five is not read. -/
theorem not_agrees_zero :
    WellFormed TypeCode.bool 1 (byteFile 1 0).buffer ∧ ¬ (Reader.bool 0).Agrees (byteFile 1 0) ∧
      WellFormed TypeCode.int8 1 (byteFile 2 5).buffer ∧
      ¬ (Reader.int8 0).Agrees (byteFile 2 5) := by
  have hzero : WellFormed TypeCode.bool 1 (byteFile 1 0).buffer := by constructor <;> decide
  have hfive : WellFormed TypeCode.int8 1 (byteFile 2 5).buffer := by constructor <;> decide
  have hbool : (Reader.bool 0).Readable (byteFile 1 0).buffer :=
    Reader.readable_of_wellFormed hzero le_rfl le_rfl (by decide)
  have hint : (Reader.int8 0).Readable (byteFile 2 5).buffer :=
    Reader.readable_of_wellFormed hfive le_rfl le_rfl (by decide)
  refine ⟨hzero, ?_, hfive, Reader.not_agrees_int8 hint⟩
  rw [Reader.agrees_bool_iff hbool]
  decide

end Tmee.Python
