import Tmee.MemFile.Header
import Tmee.PythonExample.Readers

set_option relaxedAutoImplicit false
set_option autoImplicit false

/-!
# The writers in Python and in C

The Python writers of the header fields `size`, `items` and `index` do what those of `mem_file.c`
do. `write_type` stores four bytes into a field of two, and so into the lock byte behind it; and a
typed writer calls `write_index` with the lock taken, which waits for the lock.

## Main definitions

* `Tmee.Python.WriteCall` — the writers, with their Python and their C function.
* `Tmee.Python.WriteCall.Agrees` — both return and leave the same bytes, and the lock byte is one
  from lock to unlock.

## Main results

* `Tmee.Python.writeField_eq` — a header field below the type.
* `Tmee.Python.writeType_overwrites` — what `write_type` does to the lock byte.
* `Tmee.Python.writeOutput_waits` — a typed writer never returns from a ring of its type.
* `Tmee.Python.writers_agree_iff` — the writers that agree.
-/

namespace Tmee.Python

open ByteMem

/-- A call of one of the writers. -/
inductive WriteCall
  | type (type : ℤ)
  | size (size : ℤ)
  | items (items : ℤ)
  | index (index : ℤ)
  | output (w : Writer) (value : BitVec (8 * w.width))

/-- A typed writer in Python. -/
def writeTyped : (w : Writer) → BitVec (8 * w.width) → PyM (Option ℤ)
  | .int => writeOutputInt
  | .bool => writeOutputBool
  | .int8 => writeOutputInt8
  | .quality => writeOutputQuality
  | .time => writeOutputTime
  | .float => writeOutputFloat

namespace WriteCall

/-- The call in Python. -/
def python : WriteCall → PyM (Option ℤ)
  | type v => do writeType v; return none
  | size v => do writeSize v; return none
  | items v => do writeItems v; return none
  | index v => do writeIndex v; return none
  | output w v => writeTyped w v

/-- The call in C. -/
def c : WriteCall → BufM (Option ℤ)
  | type v => do Tmee.writeType v; return none
  | size v => do Tmee.writeSize v; return none
  | items v => do Tmee.writeItems v; return none
  | index v => do Tmee.writeIndex v; return none
  | output w v => w.write v

/-- The value is one of the parameter in C: a `short` for the type, an `int` for the other fields.
The values of the typed writers have their width in their type. -/
def InRange : WriteCall → Prop
  | type v => -2 ^ 15 ≤ v ∧ v < 2 ^ 15
  | size v | items v | index v => -2 ^ 31 ≤ v ∧ v < 2 ^ 31
  | output _ _ => True

/-- **The two calls agree**: both return, with the same result and the same bytes left, and every
write of the Python code between lock and unlock leaves the lock byte at one. -/
def Agrees (call : WriteCall) (m : Mmap) : Prop :=
  ∃ r m', call.python m = .ok r m' ∧ call.c m.buffer = .ok (r, m'.buffer) ∧
    ∀ v ∈ m'.lockSeen, v = 1

/-- A call that writes a header field below the type, or a typed writer that turns the ring away
because of its type or size. -/
def Passes (b : Buffer) : WriteCall → Prop
  | type _ => False
  | size _ | items _ | index _ => True
  | output w _ => b.type ≠ w.type ∨ b.size ≠ w.width

end WriteCall

section Fields

variable {m : Mmap} {v : ℤ} {p : ℕ}

/-- A number that fits into `w` bytes is packed. -/
lemma pack_eq {w : ℕ} (h : -(256 ^ w) ≤ 2 * v ∧ 2 * v < 256 ^ w) (m : Mmap) :
    pack w v m = .ok (encodeInt w v) m := by
  rw [pack, if_pos h]
  rfl

/-- A write at the position. -/
lemma write_eq (bs : List UInt8) (h : m.pos + bs.length ≤ m.buffer.length) :
    ∃ b, write bs m = .ok () (Mmap.replaced { m with pos := m.pos + bs.length } b) ∧
      b.bytes = overwrite m.buffer.bytes m.pos bs :=
  ⟨_, if_pos h, rfl⟩

/-- The unlock returns, and what has been seen of the lock byte stays. -/
lemma freeBufferLock_returns (hlen : 16 ≤ m.buffer.length) :
    ∃ r m', freeBufferLock m = .ok r m' ∧ m'.lockSeen = m.lockSeen ∧
      (m.buffer.lock = 1 → m'.buffer = m.buffer.put 1 semaphorePos 0) := by
  have hpos : semaphorePos < m.buffer.length := by unfold semaphorePos; omega
  have hheld : setHeld false m = .ok () { m with held := false } := rfl
  rw [freeBufferLock, bind_ok hheld, bind_ok (getItem_eq (m := { m with held := false }) hpos)]
  split_ifs with hzero
  · refine ⟨-1, _, rfl, rfl, fun hone => ?_⟩
    have hlock : m.buffer.lock = 0 :=
      (decode_one_eq_iff hpos le_rfl (by decide)).mp hzero
    omega
  · have hset : setItem semaphorePos 0 { m with held := false } =
        .ok () (Mmap.replaced { m with held := false } (m.buffer.put 1 semaphorePos 0)) :=
      if_pos hpos
    rw [bind_ok hset]
    exact ⟨0, _, rfl, rfl, fun _ => rfl⟩

/-- Four bytes of the header, written between lock and unlock. -/
lemma writeField_returns (hlen : 16 ≤ m.buffer.length) (h : m.buffer.lock = 0)
    (hheld : m.held = false) (hp : p + 4 ≤ 16) (hv : -2 ^ 31 ≤ v ∧ v < 2 ^ 31) :
    ∃ m', writeField p v m = .ok () m' ∧
      m'.lockSeen = m.lockSeen ++ [((m.buffer.put 1 semaphorePos 1).put 4 p v).lock] ∧
      (((m.buffer.put 1 semaphorePos 1).put 4 p v).lock = 1 →
        m'.buffer = ((m.buffer.put 1 semaphorePos 1).put 4 p v).put 1 semaphorePos 0) := by
  have hseek : seek p m = .ok () { m with pos := p } := seek_eq (by omega)
  have hpack := pack_eq (w := 4) (v := v) (by omega) (Mmap.taken { m with pos := p })
  have hfits : (Mmap.taken { m with pos := p }).pos + (encodeInt 4 v).length ≤
      (Mmap.taken { m with pos := p }).buffer.length := by
    rw [length_encodeInt, Mmap.taken_buffer, Buffer.length_put]
    show p + 4 ≤ m.buffer.length
    omega
  obtain ⟨b, hwrite, hbytes⟩ := write_eq _ hfits
  obtain rfl : b = (m.buffer.put 1 semaphorePos 1).put 4 p v := Buffer.ext hbytes
  obtain ⟨r, m', hfree, hseen, hbuffer⟩ := freeBufferLock_returns
    (m := Mmap.replaced { Mmap.taken { m with pos := p } with
      pos := (Mmap.taken { m with pos := p }).pos + (encodeInt 4 v).length }
      ((m.buffer.put 1 semaphorePos 1).put 4 p v)) (by simpa using hlen)
  refine ⟨m', ?_, ?_, hbuffer⟩
  · have hbody : (do write (← pack 4 v)) (Mmap.taken { m with pos := p }) = .ok () _ :=
      (bind_ok hpack).trans hwrite
    rw [writeField, bind_ok hseek, locked,
      bind_ok (lockBuffer_eq (m := { m with pos := p }) hlen h)]
    exact (bind_ok hbody).trans (bind_ok hfree)
  · rw [hseen]
    simp [Mmap.replaced, Mmap.taken, hheld]

/-- **A field below the type** gets its value, and the lock byte stays one until it is cleared. -/
lemma writeField_eq (hlen : 16 ≤ m.buffer.length) (h : m.buffer.lock = 0)
    (hheld : m.held = false) (hp : p + 4 ≤ semaphorePos) (hv : -2 ^ 31 ≤ v ∧ v < 2 ^ 31) :
    ∃ m', writeField p v m = .ok () m' ∧ m'.buffer = m.buffer.put 4 p v ∧
      m'.lockSeen = m.lockSeen ++ [1] := by
  obtain ⟨m', hreturns, hseen, hbuffer⟩ :=
    writeField_returns (p := p) hlen h hheld (by unfold semaphorePos at hp; omega) hv
  have hone : ((m.buffer.put 1 semaphorePos 1).put 4 p v).lock = 1 := by
    rw [Buffer.lock, Buffer.get_put_of_disjoint (Or.inr hp)]
    exact lock_put_one (semaphorePos_lt hlen)
  refine ⟨m', hreturns, ?_, by rw [hseen, hone]⟩
  rw [hbuffer hone, Buffer.put_comm (Or.inr hp), Buffer.put_put_self,
    Buffer.put_lock_of_free (semaphorePos_lt hlen) h]

/-- The lock byte is the third byte of the four that start at the type field. -/
lemma lock_put_type {b : Buffer} (hlen : 16 ≤ b.length) (hv : -2 ^ 15 ≤ v ∧ v < 2 ^ 15) :
    (b.put 4 12 v).lock ≠ 1 := by
  have hlen' : 16 ≤ (b.put 4 12 v).length := by rwa [Buffer.length_put]
  have hfour : (window (b.put 4 12 v).bytes 12 4).length = 4 := length_window hlen'
  have htwo : (window (b.put 4 12 v).bytes 12 2).length = 2 :=
    length_window (by unfold Buffer.length at hlen'; omega)
  have hone : (window (b.put 4 12 v).bytes 14 1).length = 1 :=
    length_window (by unfold Buffer.length at hlen'; omega)
  have hsplit : decode (window (b.put 4 12 v).bytes 12 4) =
      decode (window (b.put 4 12 v).bytes 12 2) + 256 ^ 2 *
        (decode (window (b.put 4 12 v).bytes 14 1) +
          256 ^ 1 * decode (window (b.put 4 12 v).bytes 15 1)) := by
    rw [show (4 : ℕ) = 2 + (1 + 1) from rfl, window_add, decode_append, htwo, window_add,
      decode_append, hone]
  have hget : (b.put 4 12 v).get 4 12 = v := by
    rw [Buffer.get_put_self v (by omega)]
    exact Int.bmod_eq_of_le_mul_two (by omega) (by omega)
  have hlow := decode_lt (window (b.put 4 12 v).bytes 12 2)
  have hlt := decode_lt (window (b.put 4 12 v).bytes 12 4)
  have hbyte := decode_lt (window (b.put 4 12 v).bytes 14 1)
  rw [htwo] at hlow
  rw [hfour] at hlt
  rw [hone] at hbyte
  rw [Buffer.get, decodeInt, hfour, Int.bmod_def] at hget
  intro hlock
  rw [← decode_one_eq_iff (by unfold semaphorePos; omega) (by decide) (by decide)] at hlock
  unfold semaphorePos at hlock
  split_ifs at hget <;> omega

/-- **`write_type` writes over the lock byte**, which is not one any more before the unlock. -/
lemma writeType_overwrites (hlen : 16 ≤ m.buffer.length) (h : m.buffer.lock = 0)
    (hheld : m.held = false) (hv : -2 ^ 15 ≤ v ∧ v < 2 ^ 15) :
    ∃ m' x, writeType v m = .ok () m' ∧ m'.lockSeen = m.lockSeen ++ [x] ∧ x ≠ 1 := by
  obtain ⟨m', hreturns, hseen, -⟩ :=
    writeField_returns (p := 12) (v := v) hlen h hheld (by decide) (by omega)
  exact ⟨m', _, hreturns, hseen, lock_put_type (by rwa [Buffer.length_put]) hv⟩

end Fields

section Typed

variable {m : Mmap} {type : ℤ} {w : ℕ} {packed : PyM (List UInt8)}

/-- The type is small enough to be read as a signed number. -/
lemma get_type_eq_iff {b : Buffer} (hlen : 16 ≤ b.length) (h₀ : 0 ≤ type) (h₁ : type < 2 ^ 15) :
    b.get 2 12 = type ↔ b.type = type := by
  have htwo : (window b.bytes 12 2).length = 2 :=
    length_window (by unfold Buffer.length at hlen; omega)
  have hlt := decode_lt (window b.bytes 12 2)
  rw [htwo] at hlt
  rw [Buffer.type_eq hlen, Buffer.get, decodeInt, htwo, Int.bmod_def]
  split_ifs <;> omega

/-- A ring of another type or size is turned away. -/
lemma writeOutput_of_ne (hlen : 16 ≤ m.buffer.length) (h₀ : 0 ≤ type) (h₁ : type < 2 ^ 15)
    (h : m.buffer.type ≠ type ∨ m.buffer.size ≠ w) :
    writeOutput type w packed m = .ok (some (-1)) m := by
  have htype : readType m = .ok (m.buffer.get 2 12) m := unpackAt_eq (by omega)
  have hsize : readSize m = .ok m.buffer.size m := unpackAt_eq (by omega)
  rw [writeOutput, bind_ok htype, bind_ok hsize,
    if_pos (h.imp_left (mt (get_type_eq_iff hlen h₀ h₁).mp))]
  rfl

/-- `write_index` waits for a lock that is taken. -/
lemma writeIndex_waits (hlen : 16 ≤ m.buffer.length) (h : m.buffer.lock = 1) (v : ℤ) :
    ∃ m', writeIndex v m = .error .waits m' ∧ m'.buffer = m.buffer := by
  have hseek : seek (8 : ℕ) m = .ok () { m with pos := 8 } := seek_eq (by omega)
  rw [writeIndex, writeField, bind_ok hseek, locked,
    bind_error (lockBuffer_of_taken (m := { m with pos := 8 }) hlen h)]
  exact ⟨_, rfl, rfl⟩

/-- **A typed writer waits for the lock that it has taken itself**, on every ring of its type. -/
lemma writeOutput_waits {bs : List UInt8} (h : WellFormed type w m.buffer) (h₀ : 0 ≤ type)
    (h₁ : type < 2 ^ 15) (hpacked : ∀ m, packed m = .ok bs m) (hbs : bs.length = w) :
    ∃ m', writeOutput type w packed m = .error .waits m' ∧ m'.buffer.lock = 1 := by
  have hlen := h.length_ge
  have htype : readType m = .ok (m.buffer.get 2 12) m := unpackAt_eq (by omega)
  have hsize : readSize m = .ok m.buffer.size m := unpackAt_eq (by omega)
  have hitems : readItems m = .ok m.buffer.items m := unpackAt_eq (by omega)
  have hmatch : ¬ (m.buffer.get 2 12 ≠ type ∨ m.buffer.size ≠ w) := by
    rw [not_or, not_not, not_not]
    exact ⟨(get_type_eq_iff hlen h₀ h₁).mpr h.type_eq, h.size_eq⟩
  -- the next slot is found under the lock
  have hindex : readIndex m.taken = .ok m.buffer.index m.taken := by
    have htaken : m.taken.buffer.index = m.buffer.index := Buffer.get_put_of_disjoint (by decide)
    rw [← htaken]
    exact readIndex_eq (by simpa using hlen)
  have hrem : rem (m.buffer.index + 1) m.buffer.items m.taken = .ok m.buffer.next m.taken := by
    rw [rem, if_neg h.items_pos.ne', Int.fmod_eq_emod_of_nonneg _ h.items_pos.le]
    rfl
  have hnext := Int.toNat_of_nonneg h.next_mem.1
  have hfits := h.slot_fits h.next_mem.1 h.next_mem.2
  have hseek : seek (16 + m.buffer.next * w) m.taken =
      .ok () { m.taken with pos := 16 + w * m.buffer.next.toNat } := by
    have heq := seek_eq (m := m.taken) (p := 16 + w * m.buffer.next.toNat)
      (by rw [Mmap.taken_buffer, Buffer.length_put]; omega)
    push_cast at heq
    rwa [hnext, mul_comm] at heq
  obtain ⟨b, hwrite, hbytes⟩ := write_eq bs
    (m := { m.taken with pos := 16 + w * m.buffer.next.toNat })
    (by rw [hbs, Mmap.taken_buffer, Buffer.length_put]; exact hfits)
  have hblen : b.length = m.buffer.length := by
    rw [Buffer.length, hbytes, length_overwrite]
    exact Buffer.length_put _ _ _ _
  -- the write leaves the lock taken
  have hlock : b.lock = 1 := by
    rw [Buffer.lock, Buffer.get, hbytes,
      window_overwrite_of_disjoint (Or.inl (by unfold semaphorePos; show _ ≤ 16 + _; omega))]
    exact lock_put_one (semaphorePos_lt hlen)
  obtain ⟨m', hwaits, hbuffer⟩ := writeIndex_waits
    (m := Mmap.replaced { m.taken with pos := 16 + w * m.buffer.next.toNat + bs.length } b)
    (by rw [Mmap.replaced_buffer, hblen]; exact hlen) hlock m.buffer.next
  refine ⟨m', ?_, by rw [hbuffer]; exact hlock⟩
  have hbody : (do
      let index ← rem ((← readIndex) + 1) m.buffer.items
      seek (16 + index * w)
      write (← packed)
      writeIndex index) m.taken = .error .waits m' := by
    rw [bind_ok hindex, bind_ok hrem, bind_ok hseek, bind_ok (hpacked _), bind_ok hwrite]
    exact hwaits
  rw [writeOutput, bind_ok htype, bind_ok hsize, if_neg hmatch, bind_ok hitems,
    bind_error (locked_error hlen h.lock_eq hbody)]

/-- What a typed writer packs has the size of its items. -/
lemma writeTyped_eq (wr : Writer) (value : BitVec (8 * wr.width)) :
    ∃ packed bs, writeTyped wr value = writeOutput wr.type wr.width packed ∧
      (∀ m, packed m = .ok bs m) ∧ bs.length = wr.width := by
  have hlt := BitVec.two_mul_toInt_lt (x := value)
  have hle := BitVec.le_two_mul_toInt (x := value)
  cases wr with
  | int => exact ⟨_, _, rfl, pack_eq ⟨hle, hlt⟩, length_encodeInt _ _⟩
  | bool => exact ⟨_, _, rfl, fun _ => rfl, rfl⟩
  | int8 => exact ⟨_, _, rfl, pack_eq ⟨hle, hlt⟩, length_encodeInt _ _⟩
  | quality => exact ⟨_, _, rfl, pack_eq ⟨hle, hlt⟩, length_encodeInt _ _⟩
  | time => exact ⟨_, _, rfl, pack_eq ⟨hle, hlt⟩, length_encodeInt _ _⟩
  | float => exact ⟨_, _, rfl, fun _ => rfl, length_encodeInt _ _⟩

lemma writerType_mem (wr : Writer) : 0 ≤ wr.type ∧ wr.type < 2 ^ 15 := by
  cases wr <;> decide

end Typed

/-! ## Agreement -/

namespace WriteCall

variable {call : WriteCall} {m m' : Mmap} {r : Option ℤ} {e : PyError} {type v : ℤ} {w p : ℕ}

lemma not_agrees_of_error (hp : call.python m = .error e m') : ¬ call.Agrees m := by
  rintro ⟨r, t, hr, -⟩
  rw [hp] at hr
  cases hr

/-- A call that has let the lock byte change does not agree. -/
lemma not_agrees_of_seen (hp : call.python m = .ok r m') {x : ℤ} (hx : x ∈ m'.lockSeen)
    (hne : x ≠ 1) : ¬ call.Agrees m := by
  rintro ⟨u, t, hu, -, hseen⟩
  rw [hp] at hu
  obtain ⟨-, rfl⟩ := EStateM.Result.ok.inj hu
  exact hne (hseen x hx)

/-- The fields below the type are written alike. -/
lemma agrees_of_field (hlen : 16 ≤ m.buffer.length) (h : m.buffer.lock = 0)
    (hheld : m.held = false) (hseen : m.lockSeen = []) (hp : p + 4 ≤ semaphorePos)
    (hv : -2 ^ 31 ≤ v ∧ v < 2 ^ 31) (hpython : call.python = do writeField p v; return none)
    (hc : call.c = do Tmee.locked (store 4 p v); return none) : call.Agrees m := by
  obtain ⟨m', hfield, hbuffer, hlock⟩ := writeField_eq hlen h hheld hp hv
  refine ⟨none, m', ?_, ?_, ?_⟩
  · rw [hpython, bind_ok hfield]
    rfl
  · have hlen' := semaphorePos_lt hlen
    rw [hc, bufM_bind_ok (locked_store_eq hlen' h (hp.trans hlen'.le) (Or.inl hp)), hbuffer]
    rfl
  · rw [hlock, hseen]
    simp

/-- A typed writer agrees exactly on the rings that it turns away. -/
lemma agrees_output_iff (h : WellFormed type w m.buffer) (hseen : m.lockSeen = []) {wr : Writer}
    {value : BitVec (8 * wr.width)} :
    (output wr value).Agrees m ↔ (output wr value).Passes m.buffer := by
  obtain ⟨packed, bs, heq, hpacked, hbs⟩ := writeTyped_eq wr value
  obtain ⟨h₀, h₁⟩ := writerType_mem wr
  by_cases hne : m.buffer.type ≠ wr.type ∨ m.buffer.size ≠ wr.width
  · refine iff_of_true ⟨some (-1), m, ?_, wr.write_eq_of_ne h.length_ge hne value, ?_⟩ hne
    · show writeTyped wr value m = _
      rw [heq, writeOutput_of_ne h.length_ge h₀ h₁ hne]
    · rw [hseen]
      simp
  · refine iff_of_false ?_ hne
    push Not at hne
    have hring : WellFormed wr.type wr.width m.buffer :=
      { h with
        type_eq := hne.1
        size_eq := hne.2
        fits := by
          have hfits := h.fits
          rwa [← h.size_eq, hne.2] at hfits }
    obtain ⟨m', hwaits, -⟩ := writeOutput_waits hring h₀ h₁ hpacked hbs
    have hpython : (output wr value).python m = .error .waits m' := by
      show writeTyped wr value m = _
      rw [heq, hwaits]
    exact not_agrees_of_error hpython

/-- The type is not written without the lock byte. -/
lemma not_agrees_type (hlen : 16 ≤ m.buffer.length) (h : m.buffer.lock = 0)
    (hheld : m.held = false) (hv : -2 ^ 15 ≤ v ∧ v < 2 ^ 15) : ¬ (WriteCall.type v).Agrees m := by
  obtain ⟨m', x, hwrite, hx, hne⟩ := writeType_overwrites hlen h hheld hv
  have hpython : (WriteCall.type v).python m = .ok none m' := by
    show (writeType v >>= _) m = _
    rw [bind_ok hwrite]
    rfl
  exact not_agrees_of_seen hpython (by rw [hx]; simp) hne

end WriteCall

/-- **The writers agree on `size`, `items` and `index`, and on rings that a typed writer turns
away**, and on nothing else.

**Proof sketch.** `write_type` always changes the lock byte before the unlock
(`writeType_overwrites`), and a typed writer that accepts the ring never returns
(`writeOutput_waits`). -/
theorem writers_agree_iff {call : WriteCall} {m : Mmap} {type : ℤ} {w : ℕ}
    (h : WellFormed type w m.buffer) (hheld : m.held = false) (hseen : m.lockSeen = [])
    (hrange : call.InRange) : call.Agrees m ↔ call.Passes m.buffer := by
  have hlen := h.length_ge
  cases call with
  | type v => exact iff_of_false (WriteCall.not_agrees_type hlen h.lock_eq hheld hrange) id
  | size v =>
    exact iff_of_true (WriteCall.agrees_of_field hlen h.lock_eq hheld hseen (by decide) hrange rfl
      rfl) trivial
  | items v =>
    exact iff_of_true (WriteCall.agrees_of_field hlen h.lock_eq hheld hseen (by decide) hrange rfl
      rfl) trivial
  | index v =>
    exact iff_of_true (WriteCall.agrees_of_field hlen h.lock_eq hheld hseen (by decide) hrange rfl
      rfl) trivial
  | output wr value => exact WriteCall.agrees_output_iff h hseen

/-- On an `INT8` ring of two entries the index is written by both and a `BOOL` turned away by both;
an `INT8` is not written from Python. -/
theorem writers_agree_two : (WriteCall.index 0).Agrees (twoByteFile 2 3 4) ∧
    (WriteCall.output .bool 1).Agrees (twoByteFile 2 3 4) ∧
    ¬ (WriteCall.output .int8 5).Agrees (twoByteFile 2 3 4) := by
  have hring : WellFormed TypeCode.int8 1 (twoByteFile 2 3 4).buffer := by constructor <;> decide
  have hbool : (WriteCall.output .bool 1).Passes (twoByteFile 2 3 4).buffer := Or.inl (by decide)
  have hint8 : ¬ (WriteCall.output .int8 5).Passes (twoByteFile 2 3 4).buffer := by
    rintro (htype | hsize)
    · exact htype hring.type_eq
    · exact hsize hring.size_eq
  have hrange : (WriteCall.index 0).InRange := by
    show -2 ^ 31 ≤ (0 : ℤ) ∧ (0 : ℤ) < 2 ^ 31
    decide
  have hvalue : ∀ {w : Writer} {value : BitVec (8 * w.width)},
      (WriteCall.output w value).InRange := trivial
  exact ⟨(writers_agree_iff hring rfl rfl hrange).mpr trivial,
    (writers_agree_iff hring rfl rfl hvalue).mpr hbool,
    fun h => hint8 ((writers_agree_iff hring rfl rfl hvalue).mp h)⟩

/-- **A `BOOL` cannot be written from Python**, and the type field not without the lock byte. -/
theorem not_agrees_bool :
    WellFormed TypeCode.bool 1 (byteFile 1 0).buffer ∧
      ¬ (WriteCall.output .bool 1).Agrees (byteFile 1 0) ∧
      ¬ (WriteCall.type 1).Agrees (byteFile 1 0) := by
  have hring : WellFormed TypeCode.bool 1 (byteFile 1 0).buffer := by constructor <;> decide
  refine ⟨hring, ?_, WriteCall.not_agrees_type hring.length_ge hring.lock_eq rfl (by decide)⟩
  rw [WriteCall.agrees_output_iff hring rfl]
  rintro (htype | hsize)
  · exact htype hring.type_eq
  · exact hsize hring.size_eq

end Tmee.Python
