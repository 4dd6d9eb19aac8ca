import Tmee.MemFile.Writers

set_option relaxedAutoImplicit false
set_option autoImplicit false

/-!
# Fresh rings and their headers

What a producer does before its first write: map a new file, all of whose bytes are zero, and
write the header fields, each of them under the lock.

## Main definitions

* `Tmee.mmapNew` — the mapping of a new file; null if `mmap` refuses the length.
* `Tmee.MapsPages` — what can be accessed where `mmap` maps whole pages.
* `Tmee.initHeader` — the header writes of an `init` function.
* `Tmee.Buffer.fresh` — the buffer with its header written.

## Main results

* `Tmee.initHeader_eq` — the header writes of a mapping that holds a header.
* `Tmee.Buffer.index_put_byte` — a store of one byte into an index field below 256.
-/

namespace Tmee

open ByteMem

/-- `mmap_fd_write` on a new file of `size + 10` bytes. The `int` becomes a `size_t`; a length of
zero and the huge value of a negative length are refused. -/
def mmapNew (size : ℤ) : Option Buffer :=
  if h : 0 < size ∧ size < 2 ^ 31 then
    some ⟨List.replicate size.toNat 0, by rw [List.length_replicate]; omega⟩
  else none

/-- What `mmap_fd_write` makes accessible for a new file of `size + 10` bytes: nothing if the length
is refused, otherwise zeros, at least as many as were asked for. The kernel maps whole pages, which
hold a header in any case, and the file reaches into the last of them. -/
structure MapsPages (mmap : ℤ → Option Buffer) : Prop where
  refuses : ∀ size : ℤ, ¬ (0 < size ∧ size < 2 ^ 31) → mmap size = none
  maps : ∀ size : ℤ, 0 < size → size < 2 ^ 31 → ∃ b, mmap size = some b ∧ size ≤ b.length ∧
    16 ≤ b.length ∧ ∀ w a, b.get w a = 0

/-- `mmap_fd_write` on a new file with pages of 4096 bytes, as far as a `Buffer` reaches. -/
def mmapPages (size : ℤ) : Option Buffer :=
  if 0 < size ∧ size < 2 ^ 31 then
    some ⟨List.replicate (min (2 ^ 31 - 1) ((size.toNat + 4095) / 4096 * 4096)) 0, by
      rw [List.length_replicate]; omega⟩
  else none

/-- The header writes in the order of the subscribers. -/
def initHeader (type size items : ℤ) : BufM Unit := do
  writeSize size
  writeItems items
  writeIndex 0
  writeType type

/-- A header cell and the value it gets. -/
structure HeaderCell where
  width : ℕ
  addr : ℕ
  value : ℤ

/-- Header writes, each under the lock. -/
def headerWrites : List HeaderCell → BufM Unit
  | [] => pure ()
  | c :: cells => do
    locked (store c.width c.addr c.value)
    headerWrites cells

namespace Buffer

/-- The buffer with the cells replaced one after the other. -/
def putCells (b : Buffer) : List HeaderCell → Buffer
  | [] => b
  | c :: cells => (b.put c.width c.addr c.value).putCells cells

/-- The header of a new ring, with its index at slot `0`. -/
def fresh (b : Buffer) (type size items : ℤ) : Buffer :=
  (((b.put 4 0 size).put 4 4 items).put 4 8 0).put 2 12 type

lemma length_fresh (b : Buffer) (type size items : ℤ) :
    (b.fresh type size items).length = b.length := by
  simp [fresh]

/-- The index of a new ring is `0`. -/
lemma index_fresh {b : Buffer} (hlen : 16 ≤ b.length) (type size items : ℤ) :
    (b.fresh type size items).index = 0 := by
  rw [fresh, index, get_put_of_disjoint (by decide), get_put_self 0 (by simp; omega)]
  decide

/-- The semaphore and the data of a new ring are as they were. -/
lemma get_fresh_of_le {b : Buffer} {type size items : ℤ} {w a : ℕ} (ha : 14 ≤ a) :
    (b.fresh type size items).get w a = b.get w a := by
  rw [fresh, get_put_of_disjoint (by omega), get_put_of_disjoint (by omega),
    get_put_of_disjoint (by omega), get_put_of_disjoint (by omega)]

/-- A zero byte list decodes to zero. -/
lemma decode_replicate_zero (n : ℕ) : decode (List.replicate n 0) = 0 := by
  induction n with
  | zero => rfl
  | succ n ih => simp [List.replicate_succ, decode, ih]

end Buffer

/-- Every cell of a buffer of zeros is zero. -/
lemma Buffer.get_of_replicate {b : Buffer} {k : ℕ} (h : b.bytes = List.replicate k 0) (w a : ℕ) :
    b.get w a = 0 := by
  have hwindow : ∃ n, window b.bytes a w = List.replicate n 0 :=
    ⟨_, by rw [h, window, List.drop_replicate, List.take_replicate]⟩
  obtain ⟨n, hn⟩ := hwindow
  rw [Buffer.get, hn, decodeInt, Buffer.decode_replicate_zero]
  simp

/-- Every cell of a new mapping is zero. -/
lemma get_mmapNew {size : ℤ} {b : Buffer} (h : mmapNew size = some b) (w a : ℕ) :
    b.get w a = 0 := by
  rw [mmapNew] at h
  split_ifs at h with hsize
  obtain rfl := Option.some.inj h
  exact Buffer.get_of_replicate rfl w a

lemma mapsPages_mmapPages : MapsPages mmapPages where
  refuses := fun _ h => if_neg h
  maps := by
    intro size hpos hlt
    refine ⟨_, if_pos ⟨hpos, hlt⟩, ?_, ?_, Buffer.get_of_replicate rfl⟩
    · simp only [Buffer.length, List.length_replicate]
      omega
    · simp only [Buffer.length, List.length_replicate]
      omega

lemma length_mmapNew {size : ℤ} {b : Buffer} (h : mmapNew size = some b) :
    (b.length : ℤ) = size := by
  rw [mmapNew] at h
  split_ifs at h with hsize
  obtain rfl := Option.some.inj h
  simp only [Buffer.length, List.length_replicate]
  omega

/-- A positive size of a ring file can be mapped. -/
lemma exists_mmapNew {itemSize n : ℤ} (h : 0 < calculateBufferSize itemSize n) :
    ∃ b, mmapNew (calculateBufferSize itemSize n) = some b := by
  have hlt : calculateBufferSize itemSize n < 2 ^ 31 := by
    unfold calculateBufferSize wrap32
    exact Int.bmod_lt (by decide)
  exact ⟨_, dif_pos ⟨h, hlt⟩⟩

section Header

variable {b : Buffer}

/-- A store beside the semaphore byte, between lock and unlock. -/
lemma locked_store_eq {w a : ℕ} {v : ℤ} (hlen : semaphorePos < b.length) (h : b.lock = 0)
    (hfit : a + w ≤ b.length) (hbeside : a + w ≤ semaphorePos ∨ semaphorePos + 1 ≤ a) :
    locked (store w a v) b = .ok ((), b.put w a v) := by
  have hstore : store w a v (b.put 1 semaphorePos 1) =
      .ok ((), (b.put 1 semaphorePos 1).put w a v) :=
    store_eq_ok (by rwa [Buffer.length_put])
  have hlock : ((b.put 1 semaphorePos 1).put w a v).lock = 1 := by
    rw [Buffer.lock, Buffer.get_put_of_disjoint hbeside.symm]
    exact lock_put_one hlen
  rw [locked_eq hlen h hstore (by simpa using hlen) hlock, Buffer.put_comm hbeside.symm,
    Buffer.put_put_self, Buffer.put_lock_of_free hlen h]

/-- **Header writes in any order** on a buffer with a clear semaphore byte. -/
lemma headerWrites_eq {cells : List HeaderCell} (hlen : semaphorePos < b.length) (h : b.lock = 0)
    (hcells : ∀ c ∈ cells, c.addr + c.width ≤ semaphorePos) :
    headerWrites cells b = .ok ((), b.putCells cells) := by
  induction cells generalizing b with
  | nil => rfl
  | cons c cells ih =>
    have hc : c.addr + c.width ≤ semaphorePos := hcells c List.mem_cons_self
    have hstore := locked_store_eq (v := c.value) hlen h (hc.trans hlen.le)
      (Or.inl hc)
    have hlock : (b.put c.width c.addr c.value).lock = 0 := by
      rw [← h]
      exact Buffer.get_put_of_disjoint (Or.inr hc)
    rw [headerWrites, bufM_bind_ok hstore, Buffer.putCells]
    exact ih (by rwa [Buffer.length_put]) hlock fun c' hc' => hcells c' (List.mem_cons_of_mem _ hc')

/-- The header writes of the subscribers. -/
lemma initHeader_eq (hlen : 16 ≤ b.length) (h : b.lock = 0) (type size items : ℤ) :
    initHeader type size items b = .ok ((), b.fresh type size items) := by
  have hwrites : initHeader type size items =
      headerWrites [⟨4, 0, size⟩, ⟨4, 4, items⟩, ⟨4, 8, 0⟩, ⟨2, 12, type⟩] := by
    simp [initHeader, headerWrites, writeSize, writeItems, writeIndex, writeType]
  rw [hwrites, headerWrites_eq (semaphorePos_lt hlen) h (by simp [semaphorePos])]
  rfl

/-- The header writes fault on a buffer that ends before the semaphore byte. -/
lemma initHeader_of_short (hlen : b.length ≤ semaphorePos) (type size items : ℤ) :
    ∃ f, initHeader type size items b = .error f := by
  have hload : load 1 semaphorePos b = .error .outOfBounds :=
    if_neg (by unfold semaphorePos at *; omega)
  have hlocked : writeSize size b = .error .outOfBounds := by
    simp only [writeSize, locked, lockBuffer, bind, StateT.bind, hload, Except.bind]
  refine ⟨.outOfBounds, ?_⟩
  rw [initHeader]
  simp only [bind, StateT.bind, hlocked, Except.bind]

end Header

/-- An index field below 256 has zeros in its three upper bytes. -/
lemma Buffer.index_eq_low {b : Buffer} (hlen : 12 ≤ b.length) (h₀ : 0 ≤ b.index)
    (h₁ : b.index < 256) : decode (window b.bytes 9 3) = 0 := by
  have hsplit : window b.bytes 8 4 = window b.bytes 8 1 ++ window b.bytes 9 3 :=
    window_add b.bytes 8 1 3
  have hlow : (window b.bytes 8 1).length = 1 := length_window (by unfold length at hlen; omega)
  have hlen₄ : (window b.bytes 8 4).length = 4 := length_window (by unfold length at hlen; omega)
  have hlt := decode_lt (window b.bytes 8 4)
  have hindex : b.index = ((decode (window b.bytes 8 4) : ℕ) : ℤ).bmod (256 ^ 4) := by
    rw [index, get, decodeInt, hlen₄]
  have hdecode : decode (window b.bytes 8 4) =
      decode (window b.bytes 8 1) + 256 * decode (window b.bytes 9 3) := by
    rw [hsplit, decode_append, hlow, pow_one]
  rw [hlen₄] at hlt
  rw [hindex] at h₀ h₁
  rw [Int.bmod_def] at h₀ h₁
  split_ifs at h₀ h₁ <;> omega

/-- **A store of one byte into the index field** writes its low byte only: with zeros above it,
the field then holds the value modulo 256. -/
lemma Buffer.index_put_byte {b : Buffer} (hlen : 12 ≤ b.length) (h₀ : 0 ≤ b.index)
    (h₁ : b.index < 256) (v : ℤ) : (b.put 1 8 v).index = v % 256 := by
  have hupper := Buffer.index_eq_low hlen h₀ h₁
  have hbytes : 12 ≤ b.bytes.length := hlen
  have hone : window (b.put 1 8 v).bytes 8 1 = encodeInt 1 v := by
    have hroom : 8 + (encodeInt 1 v).length ≤ b.bytes.length := by
      rw [length_encodeInt]
      omega
    have hself := window_overwrite_self hroom
    rwa [length_encodeInt] at hself
  have hrest : window (b.put 1 8 v).bytes 9 3 = window b.bytes 9 3 :=
    window_overwrite_of_disjoint (by rw [length_encodeInt]; omega)
  have hlow : decode (encodeInt 1 v) = (v % 256).toNat := by
    rw [encodeInt, decode_encode, pow_one, pow_one]
    omega
  have hlen₄ : (window (b.put 1 8 v).bytes 8 4).length = 4 := by
    apply length_window
    rw [put, length_overwrite]
    omega
  have hdecode : decode (window (b.put 1 8 v).bytes 8 4) = (v % 256).toNat := by
    rw [window_add _ 8 1 3, decode_append, hone, hrest, hupper, hlow]
    omega
  rw [index, get, decodeInt, hlen₄, hdecode]
  exact (Int.bmod_eq_of_le_mul_two (by omega) (by omega)).trans (by omega)

end Tmee
