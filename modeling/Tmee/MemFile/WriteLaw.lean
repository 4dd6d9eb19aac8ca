import Mathlib.Data.List.GetD
import Tmee.MemFile.Readers

set_option relaxedAutoImplicit false
set_option autoImplicit false

/-!
# Sequences of writes

What any number of calls of one typed writer leaves in a ring: the index has advanced by the
number of calls, the last slots hold the last values, and nothing else has changed. The ring is
followed through the calls as a ring of numbered entries (`NumberedRing.Holds`), the entry under
the index at the start having the index as its number.

## Main definitions

* `Tmee.Writer` — the six typed writers; `Tmee.Writer.writeAll` — a sequence of calls.
* `Tmee.WriteLaw` — what a sequence of calls should do to a buffer.
* `Tmee.Conforms` — the calls return, obey the law and stay inside the ring.

## Main results

* `Tmee.RingAt.push` — one write is one entry more.
* `Tmee.writers_conform_iff` — when the writers obey the law: always, except for
  `write_output_float`, which does so only as long as every index it stores is `0`.
-/

namespace Tmee

open ByteMem NumberedRing

/-! ## The writers -/

/-- The typed writers of `mem_file.c`. -/
inductive Writer
  | int | bool | int8 | quality | time | float
  deriving DecidableEq, Repr

namespace Writer

/-- The type code a writer checks for. -/
def type : Writer → ℤ
  | int => TypeCode.int32
  | bool => TypeCode.bool
  | int8 => TypeCode.int8
  | quality => TypeCode.quality
  | time => TypeCode.gentime
  | float => TypeCode.float32

/-- The item size a writer checks for. -/
def width : Writer → ℕ
  | int | quality | time | float => 4
  | bool | int8 => 1

/-- A call of the writer. -/
def write : (w : Writer) → BitVec (8 * w.width) → BufM (Option ℤ)
  | int => writeOutputInt
  | bool => writeOutputBool
  | int8 => writeOutputInt8
  | quality => writeOutputQuality
  | time => writeOutputTime
  | float => writeOutputFloat

/-- The calls of the writer with the values `vs`, one after the other. -/
def writeAll (w : Writer) : List (BitVec (8 * w.width)) → BufM Unit
  | [] => pure ()
  | v :: vs => do
    let _ ← w.write v
    w.writeAll vs

/-- The reader of the current slot for the writer's item size. There are readers for `BOOL`,
`INT8` and `INT32`; the other 4-byte items are read by the last one. -/
def readCurrent : Writer → BufM ℤ
  | bool => readCurrentInputBool
  | int8 => readCurrentInputInt8
  | int | quality | time | float => readCurrentInputInt32

/-- The buffer after one call on a ring of the writer's type. -/
def written (w : Writer) (b : Buffer) (v : ℤ) : Buffer :=
  b.writeSlot w.width v (if w = float then floatBits b.next.toNat else b.next)

end Writer

section Calls

variable {w : Writer} {b : Buffer}

/-- On a ring of its type a writer returns without a value and leaves `Writer.written`. -/
lemma Writer.write_eq (h : Writable w.type w.width b) (v : BitVec (8 * w.width)) :
    w.write v b = .ok (none, w.written b v.toInt) := by
  cases w with
  | int => exact writeOutput_eq h (puts_putInt v.toInt)
  | bool => exact writeOutput_eq h (puts_putChar v.toInt)
  | int8 => exact writeOutput_eq h (puts_putChar v.toInt)
  | quality => exact writeOutput_eq h (puts_putInt v.toInt)
  | time => exact writeOutput_eq h (puts_putInt v.toInt)
  | float => exact writeOutputFloat_eq h v

/-- On any other buffer a writer returns `-1` and leaves the buffer as it was. -/
lemma Writer.write_eq_of_ne (hlen : 16 ≤ b.length) (h : b.type ≠ w.type ∨ b.size ≠ w.width)
    (v : BitVec (8 * w.width)) : w.write v b = .ok (some (-1), b) := by
  cases w with
  | int => exact writeOutput_eq_of_ne hlen h
  | bool => exact writeOutput_eq_of_ne hlen h
  | int8 => exact writeOutput_eq_of_ne hlen h
  | quality => exact writeOutput_eq_of_ne hlen h
  | time => exact writeOutput_eq_of_ne hlen h
  | float => exact writeOutputFloat_eq_of_ne hlen v h

lemma Writer.writeAll_cons {b' : Buffer} {r : Option ℤ} {v : BitVec (8 * w.width)}
    (h : w.write v b = .ok (r, b')) (vs : List (BitVec (8 * w.width))) :
    w.writeAll (v :: vs) b = w.writeAll vs b' :=
  bufM_bind_ok h

/-- The readers of the current slot return what the slot under the index holds. -/
lemma Writer.readCurrent_eq (h : WellFormed w.type w.width b) :
    w.readCurrent b = .ok (b.slot w.width b.index, b) := by
  cases w with
  | bool => exact readCurrentInputBool_eq h
  | int8 => exact readCurrentInputInt8_eq h
  | int => exact readCurrentInputInt32_eq h
  | quality => exact readCurrentInputInt32_eq h
  | time => exact readCurrentInputInt32_eq h
  | float => exact readCurrentInputInt32_eq h

end Calls

/-! ## Rings of numbered entries -/

/-- The buffer is a ring whose `n` slots hold the newest of the entries `f k`, `k ≤ hi`, with
the newest entry under the index. -/
structure RingAt (type : ℤ) (w : ℕ) (n : ℤ) (f : ℤ → ℤ) (hi : ℤ) (b : Buffer) : Prop where
  wellFormed : WellFormed type w b
  items_eq : b.items = n
  index_eq : b.index = hi % n
  holds : Holds n f hi (b.slot w)

section RingAt

variable {type : ℤ} {w : ℕ} {n hi v : ℤ} {f : ℤ → ℤ} {b : Buffer}

/-- A well-formed ring is a ring of the entries that its slots show, numbered up to its
index. -/
lemma WellFormed.ringAt (h : WellFormed type w b) :
    RingAt type w b.items (fun k => b.slot w (k % b.items)) b.index b where
  wellFormed := h
  items_eq := rfl
  index_eq := (Int.emod_eq_of_lt h.index_nonneg h.index_lt).symm
  holds := holds_self _ _

lemma RingAt.items_pos (h : RingAt type w n f hi b) : 0 < n := by
  rw [← h.items_eq]
  exact h.wellFormed.items_pos

/-- The next slot is the slot of the next number. -/
lemma RingAt.next_eq (h : RingAt type w n f hi b) : b.next = (hi + 1) % n := by
  rw [Buffer.next, h.index_eq, h.items_eq, Int.emod_add_emod]

/-- **One write is one entry more.** -/
theorem RingAt.push (h : RingAt type w n f hi b) (hv : v.bmod (256 ^ w) = v)
    (hf : f (hi + 1) = v) : RingAt type w n f (hi + 1) (b.push w v) where
  wellFormed := Buffer.wellFormed_writeSlot h.wellFormed h.wellFormed.next_mem.1
    h.wellFormed.next_mem.2
  items_eq := by
    rw [← h.items_eq]
    exact Buffer.get_writeSlot_header (by omega)
  index_eq := by
    obtain ⟨h₀, h₁⟩ := h.wellFormed.next_mem
    rw [← h.next_eq]
    exact Buffer.index_writeSlot h.wellFormed.length_ge h₀ (h₁.trans h.wellFormed.items_lt)
  holds := by
    apply h.holds.push h.items_pos
    · rw [← h.next_eq, hf]
      exact Buffer.slot_writeSlot_next h.wellFormed hv
    · intro s h₀ _ hs
      rw [← h.next_eq] at hs
      exact Buffer.slot_writeSlot_of_ne h.wellFormed h₀ hs

end RingAt

/-! ## The law -/

/-- What a sequence of calls with the values `vs` should make of the buffer `b`. -/
structure WriteLaw (w : Writer) (b b' : Buffer) (vs : List (BitVec (8 * w.width))) : Prop where
  /-- The index has advanced by the number of calls. -/
  index_eq : b'.index = (b.index + vs.length) % b.items
  /-- The slot `j` places behind the index holds the value written `j` calls ago. -/
  slot_eq : ∀ j (hj : j < vs.length), (j : ℤ) < b.items →
    b'.slot w.width ((b'.index - j) % b.items) = (vs[vs.length - 1 - j]).toInt
  /-- The reader of the current slot returns the last value. -/
  readCurrent_eq : ∀ h : vs ≠ [], w.readCurrent b' = .ok ((vs.getLast h).toInt, b')
  /-- A slot that no call has written is unchanged. -/
  slot_frame : ∀ s, 0 ≤ s → s < b.items →
    (∀ j < vs.length, s ≠ (b.index + 1 + j) % b.items) → b'.slot w.width s = b.slot w.width s
  /-- The header bytes other than the index, and all bytes behind the ring, are unchanged. -/
  byte_frame : ∀ a : ℕ, a < 8 ∨ 12 ≤ a ∧ a < 16 ∨ 16 + w.width * b.items ≤ a →
    b'.bytes[a]? = b.bytes[a]?
  /-- The semaphore byte is clear again. -/
  lock_eq : b'.lock = 0

/-- The calls return and obey the law, and they do the same on the first `16 + size * items`
bytes alone, so that no access goes beyond these. -/
def Conforms (w : Writer) (b : Buffer) (vs : List (BitVec (8 * w.width))) : Prop :=
  ∃ b', w.writeAll vs b = .ok ((), b') ∧ WriteLaw w b b' vs ∧
    w.writeAll vs (b.cut (16 + w.width * b.items.toNat)) =
      .ok ((), b'.cut (16 + w.width * b.items.toNat))

section Law

variable {w : Writer} {b : Buffer} {n hi : ℤ} {f : ℤ → ℤ}

/-- Where the index to store is `0`, all writers store the index itself. -/
lemma Writer.written_eq_push (v : ℤ) (h : w ≠ .float ∨ b.next = 0) :
    w.written b v = b.push w.width v := by
  unfold Writer.written Buffer.push
  split_ifs with hw
  · rw [h.resolve_left (not_not_intro hw)]
    rfl
  · rfl

/-- A value of the writer's type survives being stored and read back. -/
lemma toInt_bmod_width (v : BitVec (8 * w.width)) :
    v.toInt.bmod (256 ^ w.width) = v.toInt := by
  have hpow : 256 ^ w.width = 2 ^ (8 * w.width) := by rw [pow_mul]; norm_num
  rw [hpow, BitVec.toInt_bmod_cancel]

/-- The first `m` bytes of a ring that reach to its end are a ring. -/
lemma WellFormed.cut {type : ℤ} {k m : ℕ} (h : WellFormed type k b)
    (hm : 16 + k * b.items ≤ m) (hm' : m ≤ b.length) : WellFormed type k (b.cut m) := by
  have hlen : (b.cut m).length = m := Buffer.length_cut hm'
  have h16 : 16 ≤ m := by
    have := mul_nonneg (Int.natCast_nonneg k) h.items_pos.le
    omega
  have hget (k' a : ℕ) (ha : a + k' ≤ 16) : (b.cut m).get k' a = b.get k' a :=
    Buffer.get_cut (by omega)
  exact
    { type_eq := by rw [Buffer.type, hget 4 12 (by omega)]; exact h.type_eq
      size_eq := by rw [Buffer.size, hget 4 0 (by omega)]; exact h.size_eq
      items_pos := by rw [Buffer.items, hget 4 4 (by omega)]; exact h.items_pos
      index_nonneg := by rw [Buffer.index, hget 4 8 (by omega)]; exact h.index_nonneg
      index_lt := by
        rw [Buffer.index, Buffer.items, hget 4 8 (by omega), hget 4 4 (by omega)]
        exact h.index_lt
      lock_eq := by rw [Buffer.lock, hget 1 semaphorePos (by decide)]; exact h.lock_eq
      fits := by rw [Buffer.items, hget 4 4 (by omega), hlen]; exact hm }

/-- A write does to the first `m` bytes of a ring what it does to the ring. -/
lemma Writer.written_cut {type : ℤ} {m : ℕ} (h : WellFormed type w.width b)
    (hm : 16 + w.width * b.items ≤ m) (hm' : m ≤ b.length) (v : ℤ) :
    w.written (b.cut m) v = (w.written b v).cut m := by
  have hcut := h.cut hm hm'
  have hnext : (b.cut m).next = b.next := by
    have h16 : 16 ≤ m := Buffer.length_cut hm' ▸ hcut.length_ge
    rw [Buffer.next, Buffer.index, Buffer.items, Buffer.get_cut (by omega),
      Buffer.get_cut (by omega)]
    rfl
  have hfits : 16 + w.width * b.next.toNat + w.width ≤ m := by
    have := hcut.slot_fits hcut.next_mem.1 hcut.next_mem.2
    rwa [hnext, Buffer.length_cut hm'] at this
  simp only [Writer.written, Buffer.writeSlot, hnext]
  rw [Buffer.cut_put (by omega), Buffer.cut_put hfits]

/-- **A sequence of writes**, all of whose indices are stored as such: the calls return, the ring
has got the entries, the frame is unchanged, and the first bytes alone behave alike.

**Proof sketch.** Induction on the calls. The first one is a `push`, after which the buffer is
the ring with one entry more; the rest of the calls starts there. -/
lemma Writer.writeAll_eq {m : ℕ} (vs : List (BitVec (8 * w.width)))
    (h : RingAt w.type w.width n f hi b)
    (hf : ∀ j (hj : j < vs.length), f (hi + 1 + j) = (vs[j]).toInt)
    (hgood : w ≠ .float ∨ ∀ j < vs.length, (hi + 1 + (j : ℕ)) % n = 0)
    (hm : 16 + w.width * n ≤ m) (hm' : m ≤ b.length) :
    ∃ b', w.writeAll vs b = .ok ((), b') ∧ RingAt w.type w.width n f (hi + vs.length) b' ∧
      (∀ a : ℕ, a < 8 ∨ 12 ≤ a ∧ a < 16 ∨ 16 + w.width * n ≤ a → b'.bytes[a]? = b.bytes[a]?) ∧
      w.writeAll vs (b.cut m) = .ok ((), b'.cut m) := by
  induction vs generalizing b hi with
  | nil =>
    refine ⟨b, rfl, ?_, fun _ _ => rfl, rfl⟩
    simpa using h
  | cons v vs ih =>
    have hmb : 16 + w.width * b.items ≤ m := by rwa [h.items_eq]
    have hfirst : w ≠ .float ∨ b.next = 0 :=
      hgood.imp id fun hz => by simpa [h.next_eq] using hz 0 (by simp)
    have hwritten := Writer.written_eq_push v.toInt hfirst
    have hring : RingAt w.type w.width n f (hi + 1) (b.push w.width v.toInt) :=
      h.push (toInt_bmod_width v) (by
        have := hf 0 (by simp)
        rwa [List.getElem_cons_zero, Nat.cast_zero, add_zero] at this)
    obtain ⟨b', hrun, hring', hframe, hcut⟩ := ih hring
      (fun j hj => by
        have := hf (j + 1) (by simpa using hj)
        rw [List.getElem_cons_succ] at this
        rw [← this]
        congr 1
        push_cast
        ring)
      (hgood.imp id fun hz j hj => by
        have := hz (j + 1) (by simpa using hj)
        rw [← this]
        congr 1
        push_cast
        ring)
      (by rwa [Buffer.push, Buffer.length_writeSlot])
    refine ⟨b', ?_, ?_, ?_, ?_⟩
    · rw [Writer.writeAll_cons (Writer.write_eq h.wellFormed.writable v), hwritten, hrun]
    · have hlen : hi + 1 + vs.length = hi + (v :: vs).length := by
        rw [List.length_cons]
        push_cast
        ring
      rwa [hlen] at hring'
    · intro a ha
      rw [hframe a ha]
      have hslot := h.wellFormed.next_mem
      have hle : (w.width : ℤ) * (b.next.toNat + 1) ≤ w.width * n := by
        refine mul_le_mul_of_nonneg_left ?_ (Int.natCast_nonneg _)
        rw [h.items_eq] at hslot
        omega
      have hcast : ((w.width * b.next.toNat : ℕ) : ℤ) = w.width * b.next.toNat := by push_cast; rfl
      have hexp : (w.width : ℤ) * (b.next.toNat + 1) = w.width * b.next.toNat + w.width := by ring
      exact Buffer.getElem?_writeSlot (by omega) (by omega)
    · rw [Writer.writeAll_cons (Writer.write_eq (h.wellFormed.cut hmb hm').writable v),
        Writer.written_cut h.wellFormed hmb hm', hwritten, hcut]

/-- The entries of a ring after the calls `vs`: up to the index at the start what the slots
showed then, from there on the values written. -/
def entries (w : Writer) (b : Buffer) (vs : List (BitVec (8 * w.width))) (k : ℤ) : ℤ :=
  if k ≤ b.index then b.slot w.width (k % b.items)
  else (vs.getD (k - b.index - 1).toNat 0).toInt

lemma entries_of_le {vs : List (BitVec (8 * w.width))} {k : ℤ} (h : k ≤ b.index) :
    entries w b vs k = b.slot w.width (k % b.items) := if_pos h

lemma entries_add {vs : List (BitVec (8 * w.width))} {j : ℕ} (hj : j < vs.length) :
    entries w b vs (b.index + 1 + j) = (vs[j]).toInt := by
  have hsub : (b.index + 1 + j - b.index - 1).toNat = j := by omega
  rw [entries, if_neg (by omega), hsub, List.getD_eq_getElem _ _ hj]

/-- A ring that has got the entries obeys the law. -/
lemma writeLaw_of_ringAt {b' : Buffer} {vs : List (BitVec (8 * w.width))}
    (h : WellFormed w.type w.width b)
    (h' : RingAt w.type w.width b.items (entries w b vs) (b.index + vs.length) b')
    (hframe : ∀ a : ℕ, a < 8 ∨ 12 ≤ a ∧ a < 16 ∨ 16 + w.width * b.items ≤ a →
      b'.bytes[a]? = b.bytes[a]?) : WriteLaw w b b' vs := by
  have hn := h.items_pos
  have hslot (j : ℕ) (hj : j < vs.length) (hjn : (j : ℤ) < b.items) :
      b'.slot w.width ((b'.index - j) % b.items) = (vs[vs.length - 1 - j]).toInt := by
    have hnum : b.index + vs.length - j = b.index + 1 + ((vs.length - 1 - j : ℕ) : ℤ) := by omega
    rw [h'.index_eq, Int.emod_sub_emod, h'.holds.slot_eq hn (by omega) (by omega), hnum,
      entries_add (by omega)]
  refine
    { index_eq := h'.index_eq
      slot_eq := hslot
      readCurrent_eq := ?_
      slot_frame := ?_
      byte_frame := hframe
      lock_eq := h'.wellFormed.lock_eq }
  · intro hne
    have hpos := List.length_pos_iff.mpr hne
    have hlast := hslot 0 hpos (by omega)
    rw [Nat.cast_zero, sub_zero, ← h'.items_eq,
      Int.emod_eq_of_lt h'.wellFormed.index_nonneg h'.wellFormed.index_lt] at hlast
    rw [Writer.readCurrent_eq h'.wellFormed, hlast, List.getLast_eq_getElem]
    simp only [Nat.sub_zero]
  · intro s h₀ h₁ hs
    set k := latest b.items (b.index + vs.length) s with hk
    have hks : k % b.items = s := (latest_emod _ _ _).trans (Int.emod_eq_of_lt h₀ h₁)
    have hle : k ≤ b.index := by
      by_contra hcon
      have hub := latest_le hn (b.index + vs.length) s
      apply hs (k - b.index - 1).toNat (by omega)
      rw [show b.index + 1 + ((k - b.index - 1).toNat : ℤ) = k by omega, hks]
    rw [h'.holds s h₀ h₁, ← hk, entries_of_le hle, hks]

/-- The calls conform as long as every index they store is stored as such. -/
lemma conforms_of_good {vs : List (BitVec (8 * w.width))} (h : WellFormed w.type w.width b)
    (hgood : w ≠ .float ∨ ∀ j < vs.length, (b.index + 1 + (j : ℕ)) % b.items = 0) :
    Conforms w b vs ∧ ∃ b', w.writeAll vs b = .ok ((), b') ∧
      RingAt w.type w.width b.items (entries w b vs) (b.index + vs.length) b' := by
  have hstart : RingAt w.type w.width b.items (entries w b vs) b.index b :=
    { h.ringAt with
      holds := h.ringAt.holds.congr h.items_pos fun k _ hk => (entries_of_le hk).symm }
  have hlen : (16 + w.width * b.items.toNat : ℕ) = 16 + w.width * b.items := by
    push_cast
    rw [Int.toNat_of_nonneg h.items_pos.le]
  obtain ⟨b', hrun, hring, hframe, hcut⟩ := Writer.writeAll_eq vs hstart
    (fun j hj => entries_add hj) hgood hlen.ge (by exact_mod_cast hlen ▸ h.fits)
  exact ⟨⟨b', hrun, writeLaw_of_ringAt h hring hframe, hcut⟩, b', hrun, hring⟩

/-! ## The index field of `write_output_float` -/

/-- The pattern of a positive `int` converted to `float` is that of a number at least `1.0`.

**Proof sketch.** The biased exponent of a number with `e + 1` binary digits is `127 + e`, and
rounding gives a 24-bit mantissa, or at most the next power of two. -/
lemma floatBits_mem {k : ℕ} (h₀ : 0 < k) (h₁ : k ≤ 2 ^ 31) :
    127 * 2 ^ 23 ≤ floatBits k ∧ floatBits k < 2 ^ 31 - 1 := by
  set e := Nat.log2 k with he
  have hlow : 2 ^ e ≤ k := Nat.log2_self_le h₀.ne'
  have hhigh : k < 2 ^ (e + 1) := Nat.lt_log2_self
  have he31 : e ≤ 31 := (Nat.pow_le_pow_iff_right (by norm_num)).mp (hlow.trans h₁)
  rw [floatBits, if_neg h₀.ne']
  simp only [← he]
  by_cases hsmall : e ≤ 23
  · rw [if_pos hsmall]
    have hpow : 2 ^ e * 2 ^ (23 - e) = 2 ^ 23 := by rw [← pow_add]; congr 1; omega
    have hm₁ : 2 ^ 23 ≤ k * 2 ^ (23 - e) := hpow ▸ Nat.mul_le_mul_right _ hlow
    have hm₂ : k * 2 ^ (23 - e) < 2 * 2 ^ 23 := by
      rw [← hpow, ← mul_assoc, ← pow_succ']
      exact Nat.mul_lt_mul_of_pos_right hhigh (by positivity)
    zify at hm₁ hm₂
    push_cast
    constructor <;> omega
  · rw [if_neg hsmall]
    have hpow : 2 ^ 23 * 2 ^ (e - 23) = 2 ^ e := by rw [← pow_add]; congr 1; omega
    have hq₁ : 2 ^ 23 ≤ k / 2 ^ (e - 23) :=
      (Nat.le_div_iff_mul_le (by positivity)).mpr (hpow ▸ hlow)
    have hq₂ : k / 2 ^ (e - 23) < 2 ^ 24 := by
      apply (Nat.div_lt_iff_lt_mul (by positivity)).mpr
      rw [show 2 ^ 24 * 2 ^ (e - 23) = 2 ^ (e + 1) by rw [← pow_add]; congr 1; omega]
      exact hhigh
    zify at hq₁ hq₂
    split_ifs <;> push_cast <;> constructor <;> omega

/-- Calls compose. -/
lemma Writer.writeAll_append {us vs : List (BitVec (8 * w.width))} {b' : Buffer}
    (h : w.writeAll us b = .ok ((), b')) : w.writeAll (us ++ vs) b = w.writeAll vs b' := by
  induction us generalizing b with
  | nil =>
    obtain rfl : b = b' := by
      have := Except.ok.inj h
      exact congrArg Prod.snd this
    rfl
  | cons u us ih =>
    have hhead : ∃ r c, w.write u b = .ok (r, c) := by
      cases hw : w.write u b with
      | ok p => exact ⟨p.1, p.2, rfl⟩
      | error e =>
        rw [Writer.writeAll] at h
        simp only [bind, StateT.bind, hw, Except.bind] at h
        cases h
    obtain ⟨r, c, hc⟩ := hhead
    rw [Writer.writeAll_cons hc] at h
    rw [List.cons_append, Writer.writeAll_cons hc]
    exact ih h

/-- The first call of `write_output_float` that has to store an index other than `0` breaks the
law: the index field then reads as the pattern of a `float` that is at least `1.0`, far above
every index a buffer can have. -/
lemma not_conforms_concat (us : List (BitVec (8 * Writer.float.width)))
    (h : WellFormed Writer.float.type Writer.float.width b)
    (hgood : ∀ j < us.length, (b.index + 1 + (j : ℕ)) % b.items = 0)
    (hbad : (b.index + 1 + us.length) % b.items ≠ 0) (v : BitVec (8 * Writer.float.width)) :
    ¬ Conforms .float b (us ++ [v]) := by
  rintro ⟨b', hrun, hlaw, -⟩
  obtain ⟨-, c, hc, hring⟩ := conforms_of_good h (Or.inr hgood)
  have hnext : c.next = (b.index + 1 + us.length) % b.items := by
    rw [hring.next_eq]
    congr 1
    ring
  obtain ⟨h₀, h₁⟩ := hring.wellFormed.next_mem
  have hlen := hring.wellFormed.length_ge
  have hitems := hring.items_eq
  -- the ring has fewer than `2 ^ 29` slots
  have hsmall : b.items < 2 ^ 29 := by
    have hfits : 16 + ((4 : ℕ) : ℤ) * b.items ≤ b.length := h.fits
    have hb := b.length_lt
    unfold Buffer.length at hfits
    omega
  have hbits := floatBits_mem (k := c.next.toNat) (by omega) (by omega)
  have hlast : Writer.float.writeAll [v] c = .ok ((), Writer.float.written c v.toInt) := by
    rw [Writer.writeAll_cons (Writer.write_eq hring.wellFormed.writable v)]
    rfl
  rw [Writer.writeAll_append hc, hlast] at hrun
  have hb' : Writer.float.written c v.toInt = b' := congrArg Prod.snd (Except.ok.inj hrun)
  have hindex : b'.index = floatBits c.next.toNat := by
    rw [← hb', Writer.written, if_pos rfl]
    exact Buffer.index_writeSlot hlen (by omega) (by omega)
  have hwant : b'.index < b.items := by
    rw [hlaw.index_eq]
    exact Int.emod_lt_of_pos _ h.items_pos
  omega

/-- **The typed writers.** On a buffer that fails a writer's guard the call returns `-1` and
changes nothing. On a ring of the writer's type all initial parts of a sequence of calls obey the
law if and only if the writer is not `write_output_float` or every index the calls have to store
is `0`.

**Proof sketch.** The calls that store the index itself are followed by `Writer.writeAll_eq`.
For `write_output_float` the first index other than `0` is the first failure
(`not_conforms_concat`), so along the sequence every index must be `0`. -/
theorem writers_conform_iff (w : Writer) (b : Buffer) :
    (∀ v : BitVec (8 * w.width), 16 ≤ b.length → (b.type ≠ w.type ∨ b.size ≠ w.width) →
      w.write v b = .ok (some (-1), b)) ∧
    ∀ vs : List (BitVec (8 * w.width)), WellFormed w.type w.width b →
      ((∀ us, us <+: vs → Conforms w b us) ↔
        (w ≠ .float ∨ ∀ j < vs.length, (b.index + 1 + (j : ℕ)) % b.items = 0)) := by
  refine ⟨fun v hlen hne => Writer.write_eq_of_ne hlen hne v, fun vs h => ?_⟩
  constructor
  · intro hall
    by_cases hw : w = .float
    · subst hw
      right
      intro j
      induction j using Nat.strong_induction_on with
      | _ j ih =>
        intro hj
        by_contra hbad
        have htake : vs.take j ++ [vs[j]] = vs.take (j + 1) := by
          rw [List.take_succ_eq_append_getElem hj]
        have hlen : (vs.take j).length = j := by
          rw [List.length_take]
          omega
        refine not_conforms_concat (vs.take j) h ?_ (by rwa [hlen]) vs[j] ?_
        · intro i hi
          rw [hlen] at hi
          exact ih i hi (hi.trans hj)
        · rw [htake]
          exact hall _ (List.take_prefix _ _)
    · exact Or.inl hw
  · rintro hgood us ⟨rest, rfl⟩
    refine (conforms_of_good h (hgood.imp id fun hz j hj => hz j ?_)).1
    rw [List.length_append]
    omega

end Law

/-- A ring of two zeroed items of four bytes, of the type with the given low byte. -/
def emptyRing (type : UInt8) : Buffer where
  bytes := [4, 0, 0, 0, 2, 0, 0, 0, 0, 0, 0, 0, type, 0, 0, 0] ++ List.replicate 8 0
  length_lt := by simp

/-- An `INT32` ring takes three writes, and a `BOOL` writer leaves it alone. -/
theorem writers_conform_emptyRing :
    (∀ us, us <+: [7#32, 8#32, 9#32] → Conforms .int (emptyRing 3) us) ∧
      Writer.bool.write 1#8 (emptyRing 3) = .ok (some (-1), emptyRing 3) := by
  have hring : WellFormed Writer.int.type Writer.int.width (emptyRing 3) := by
    constructor <;> decide
  exact ⟨((writers_conform_iff .int (emptyRing 3)).2 [7#32, 8#32, 9#32] hring).mpr
    (Or.inl (by decide)), (writers_conform_iff .bool (emptyRing 3)).1 1#8 (by decide) (by decide)⟩

/-- On a `FLOAT32` ring of two items the first `write_output_float` already breaks the law. -/
theorem not_conforms_emptyRing :
    WellFormed Writer.float.type Writer.float.width (emptyRing 5) ∧
      ¬ Conforms .float (emptyRing 5) [0x3F800000#32] := by
  have hring : WellFormed Writer.float.type Writer.float.width (emptyRing 5) := by
    constructor <;> decide
  exact ⟨hring, not_conforms_concat [] hring (by simp) (by decide) 0x3F800000#32⟩

end Tmee
