import Tmee.Basic
import Tmee.Lib.Bytes

set_option relaxedAutoImplicit false
set_option autoImplicit false

/-!
# Mapped buffers

The bytes that `mmap_fd_write` hands to the modules, and the loads and stores the C code makes
through `char *`, `short *`, `int *` and `float *` views of them. A C `float` is represented by
its 32-bit pattern, read as a signed number like every other 4-byte cell.

## Main definitions

* `Tmee.Buffer` — the bytes of a mapping.
* `Tmee.Buffer.get`, `Tmee.Buffer.put` — the signed integer in `w` bytes, and replacing it.
* `Tmee.BufM` — code that works on one buffer and may fault.
* `Tmee.load`, `Tmee.store` — a checked access of `w` bytes at a byte address.

## Main results

* `Tmee.Buffer.get_put_self`, `Tmee.Buffer.get_put_of_disjoint` — loads after a store.
* `Tmee.Buffer.cut_put` — a store inside a prefix of the buffer is a store into the prefix.
-/

namespace Tmee

open ByteMem

/-- The bytes of a mapping. `mmap_fd_write` takes the number of bytes as an `int`, so a mapping
is shorter than `2 ^ 31`. -/
structure Buffer where
  /-- The mapped bytes. -/
  bytes : List UInt8
  /-- The mapping length is an `int`. -/
  length_lt : bytes.length < 2 ^ 31
  deriving DecidableEq

namespace Buffer

/-- The number of mapped bytes. -/
def length (b : Buffer) : ℕ := b.bytes.length

/-- The signed little-endian integer in the `w` bytes from address `a` on. -/
def get (b : Buffer) (w a : ℕ) : ℤ := decodeInt (window b.bytes a w)

/-- The buffer with the `w` bytes from address `a` on replaced by `v`. -/
def put (b : Buffer) (w a : ℕ) (v : ℤ) : Buffer where
  bytes := overwrite b.bytes a (encodeInt w v)
  length_lt := by rw [length_overwrite]; exact b.length_lt

/-- The first `n` bytes of the buffer, as a mapping of their own. -/
def cut (b : Buffer) (n : ℕ) : Buffer where
  bytes := b.bytes.take n
  length_lt := lt_of_le_of_lt (List.length_take_le' n b.bytes) b.length_lt

/-- Two buffers with the same bytes are equal. -/
@[ext] lemma ext {b b' : Buffer} (h : b.bytes = b'.bytes) : b = b' := by
  cases b; cases b'; cases h; rfl

/-- A store keeps the length of the mapping. -/
@[simp] lemma length_put (b : Buffer) (w a : ℕ) (v : ℤ) : (b.put w a v).length = b.length :=
  length_overwrite _ _ _

/-- The length of a cut buffer. -/
lemma length_cut {b : Buffer} {n : ℕ} (h : n ≤ b.length) : (b.cut n).length = n := by
  simp only [length, cut, List.length_take] at h ⊢
  omega

/-- A load after a store to the same cell. -/
lemma get_put_self {b : Buffer} {w a : ℕ} (v : ℤ) (h : a + w ≤ b.length) :
    (b.put w a v).get w a = v.bmod (256 ^ w) := by
  have hw : window (overwrite b.bytes a (encodeInt w v)) a w = encodeInt w v := by
    have hself := window_overwrite_self (m := b.bytes) (show a + (encodeInt w v).length ≤ _ by
      simpa [length] using h)
    rwa [length_encodeInt] at hself
  rw [get, put, hw, decodeInt_encodeInt]

/-- A load from a cell disjoint from the stored one. -/
lemma get_put_of_disjoint {b : Buffer} {w a w' a' : ℕ} {v : ℤ} (h : a' + w' ≤ a ∨ a + w ≤ a') :
    (b.put w a v).get w' a' = b.get w' a' := by
  rw [get, put, window_overwrite_of_disjoint (by simpa using h), get]

/-- Storing what a cell holds changes nothing. -/
lemma put_get_self {b : Buffer} {w a : ℕ} (h : a + w ≤ b.length) :
    b.put w a (b.get w a) = b := by
  have henc := encodeInt_decodeInt (window b.bytes a w)
  rw [length_window h] at henc
  have hput : overwrite b.bytes a (encodeInt w (b.get w a)) = b.bytes := by
    rw [get, henc, overwrite_window_self]
  exact Buffer.ext hput

/-- A 4-byte cell holds an `int`. -/
lemma get_four_mem {b : Buffer} {a : ℕ} (h : a + 4 ≤ b.length) :
    -2 ^ 31 ≤ b.get 4 a ∧ b.get 4 a < 2 ^ 31 := by
  have hmem := decodeInt_mem (window b.bytes a 4)
  rw [length_window h] at hmem
  unfold get
  omega

/-- A byte outside the stored cell is unchanged. -/
lemma getElem?_put_of_disjoint {b : Buffer} {w a i : ℕ} {v : ℤ} (h : i < a ∨ a + w ≤ i) :
    (b.put w a v).bytes[i]? = b.bytes[i]? := by
  rw [put, getElem?_overwrite_of_disjoint (by simpa using h)]

/-- Stores to disjoint cells commute. -/
lemma put_comm {b : Buffer} {w a w' a' : ℕ} {v v' : ℤ} (h : a' + w' ≤ a ∨ a + w ≤ a') :
    (b.put w a v).put w' a' v' = (b.put w' a' v').put w a v :=
  Buffer.ext (overwrite_comm _ (by simpa using h))

/-- Of two stores to one cell the later one stays. -/
lemma put_put_self (b : Buffer) (w a : ℕ) (v v' : ℤ) :
    (b.put w a v).put w a v' = b.put w a v' :=
  Buffer.ext (overwrite_overwrite_self _ _ (by simp))

/-- A store inside a prefix of the buffer is a store into the prefix. -/
lemma cut_put {b : Buffer} {w a n : ℕ} {v : ℤ} (h : a + w ≤ n) :
    (b.put w a v).cut n = (b.cut n).put w a v :=
  Buffer.ext (take_overwrite (by simpa using h))

/-- A load inside a prefix of the buffer is a load from the prefix. -/
lemma get_cut {b : Buffer} {w a n : ℕ} (h : a + w ≤ n) : (b.cut n).get w a = b.get w a := by
  rw [get, cut, window_take h, get]

end Buffer

/-! ## Checked accesses -/

/-- Code that works on one buffer and may fault. -/
abbrev BufM := StateT Buffer (Except Fault)

/-- Load `w` bytes at address `a`. -/
def load (w : ℕ) (a : ℤ) : BufM ℤ := fun b =>
  if 0 ≤ a ∧ a + w ≤ b.length then .ok (b.get w a.toNat, b) else .error .outOfBounds

/-- Store the low `w` bytes of `v` at address `a`. -/
def store (w : ℕ) (a v : ℤ) : BufM Unit := fun b =>
  if 0 ≤ a ∧ a + w ≤ b.length then .ok ((), b.put w a.toNat v) else .error .outOfBounds

/-- A load inside the mapping. -/
lemma load_eq_ok {b : Buffer} {w a : ℕ} (h : a + w ≤ b.length) :
    load w (a : ℤ) b = .ok (b.get w a, b) := by
  rw [load, if_pos ⟨Int.natCast_nonneg a, by exact_mod_cast h⟩, Int.toNat_natCast]

/-- A store inside the mapping. -/
lemma store_eq_ok {b : Buffer} {w a : ℕ} {v : ℤ} (h : a + w ≤ b.length) :
    store w (a : ℤ) v b = .ok ((), b.put w a v) := by
  rw [store, if_pos ⟨Int.natCast_nonneg a, by exact_mod_cast h⟩, Int.toNat_natCast]

end Tmee
