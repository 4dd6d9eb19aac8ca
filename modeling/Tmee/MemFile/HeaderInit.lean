import Mathlib.Data.List.Nodup
import Mathlib.Data.List.Perm.Basic
import Tmee.MemFile.Header
import Tmee.MemFile.WriteLaw

set_option relaxedAutoImplicit false
set_option autoImplicit false

/-!
# Agreement of producers and consumers on the header

Every producer sets up its ring file by the same four header writes, in an order of its own, and
then only calls the typed writers. Every consumer computes the size of the ring from the first
eight bytes of the file before it maps it.

## Main definitions

* `Tmee.ringFile`, `Tmee.calculateBufferSizeFromFile` — the file, and the size a consumer computes.
* `Tmee.HeaderField`, `Tmee.writeFields` — the header writes in some order.
* `Tmee.HeaderLaw` — what everybody reads from the header.

## Main results

* `Tmee.Buffer.get_putCells_of_mem` — disjoint cells written in any order.
* `Tmee.Writable.written` — a write keeps the ring writable, whatever its type.
* `Tmee.header_agrees` — the header is read back after `init` and after all later writes.
-/

namespace Tmee

open ByteMem

/-! ## The file -/

/-- The file behind a mapping: `init` makes it ten bytes longer than the mapping. -/
def ringFile (b : Buffer) : List UInt8 := b.bytes ++ List.replicate 10 0

/-- The size of the ring in a file that has just been opened. -/
def calculateBufferSizeFromFile (file : List UInt8) : ℤ :=
  if (window file 0 4).length ≠ 4 then -1
  else if (window file 4 4).length ≠ 4 then -1
  else wrap32 (16 + decodeInt (window file 0 4) * decodeInt (window file 4 4))

/-- The first bytes of the file are those of the mapping. -/
lemma window_ringFile {b : Buffer} {a w : ℕ} (h : a + w ≤ b.length) :
    window (ringFile b) a w = window b.bytes a w := by
  apply window_congr
  intro i hi
  exact List.getElem?_append_left (by unfold Buffer.length at h; omega)

/-- The size computed from the file is the one computed from the header fields. -/
lemma calculateBufferSizeFromFile_eq {b : Buffer} (h : 8 ≤ b.length) :
    calculateBufferSizeFromFile (ringFile b) = calculateBufferSize b.size b.items := by
  have hsize : (window b.bytes 0 4).length = 4 :=
    length_window (by unfold Buffer.length at h; omega)
  have hitems : (window b.bytes 4 4).length = 4 := length_window h
  rw [calculateBufferSizeFromFile, window_ringFile (by omega), window_ringFile (by omega),
    if_neg (not_not_intro hsize), if_neg (not_not_intro hitems)]
  rfl

/-! ## Header writes in any order -/

/-- The header fields that `init` writes. -/
inductive HeaderField
  | type | size | items | index
  deriving DecidableEq, Repr

namespace HeaderField

/-- The write of a field: the index is `0`, the others are given. -/
def write (type size items : ℤ) : HeaderField → BufM Unit
  | .type => writeType type
  | .size => writeSize size
  | .items => writeItems items
  | .index => writeIndex 0

/-- The cell of a field. -/
def cell (type size items : ℤ) : HeaderField → HeaderCell
  | .type => ⟨2, 12, type⟩
  | .size => ⟨4, 0, size⟩
  | .items => ⟨4, 4, items⟩
  | .index => ⟨4, 8, 0⟩

end HeaderField

/-- The header writes of an `init` function, in its order. -/
def writeFields (type size items : ℤ) : List HeaderField → BufM Unit
  | [] => pure ()
  | field :: fields => do
    field.write type size items
    writeFields type size items fields

/-- Two cells have no byte in common. -/
def HeaderCell.Disjoint (c c' : HeaderCell) : Prop :=
  c.addr + c.width ≤ c'.addr ∨ c'.addr + c'.width ≤ c.addr

lemma writeFields_eq (type size items : ℤ) (fields : List HeaderField) :
    writeFields type size items fields =
      headerWrites (fields.map (HeaderField.cell type size items)) := by
  induction fields with
  | nil => rfl
  | cons field fields ih =>
    rw [writeFields, ih, List.map_cons, headerWrites]
    cases field <;> rfl

namespace Buffer

variable {b : Buffer} {cells : List HeaderCell}

lemma length_putCells : (b.putCells cells).length = b.length := by
  induction cells generalizing b with
  | nil => rfl
  | cons c cells ih => simp [putCells, ih]

/-- A load beside all the cells. -/
lemma get_putCells_of_disjoint {w a : ℕ}
    (h : ∀ c ∈ cells, a + w ≤ c.addr ∨ c.addr + c.width ≤ a) :
    (b.putCells cells).get w a = b.get w a := by
  induction cells generalizing b with
  | nil => rfl
  | cons c cells ih =>
    simp only [List.forall_mem_cons] at h
    rw [putCells, ih h.2, get_put_of_disjoint h.1]

/-- A byte beside all the cells. -/
lemma getElem?_putCells_of_disjoint {i : ℕ} (h : ∀ c ∈ cells, i < c.addr ∨ c.addr + c.width ≤ i) :
    (b.putCells cells).bytes[i]? = b.bytes[i]? := by
  induction cells generalizing b with
  | nil => rfl
  | cons c cells ih =>
    simp only [List.forall_mem_cons] at h
    rw [putCells, ih h.2, getElem?_put_of_disjoint h.1]

/-- **Disjoint cells in any order**: each of them holds its own value in the end. -/
lemma get_putCells_of_mem {c : HeaderCell} (hcells : cells.Pairwise HeaderCell.Disjoint)
    (hc : c ∈ cells) (hfits : c.addr + c.width ≤ b.length) :
    (b.putCells cells).get c.width c.addr = c.value.bmod (256 ^ c.width) := by
  induction cells generalizing b with
  | nil => simp at hc
  | cons c' cells ih =>
    obtain ⟨hfirst, hrest⟩ := List.pairwise_cons.mp hcells
    rw [putCells]
    rcases List.mem_cons.mp hc with rfl | hmem
    · rw [get_putCells_of_disjoint fun d hd => hfirst d hd, get_put_self _ hfits]
    · exact ih hrest hmem (by rwa [length_put])

/-- The type field by its two bytes. -/
lemma type_eq_get (h : 16 ≤ b.length) : b.type = b.get 2 12 % 2 ^ 16 := by
  have hlen : (window b.bytes 12 2).length = 2 := length_window (by unfold length at h; omega)
  have hlt := decode_lt (window b.bytes 12 2)
  rw [hlen] at hlt
  rw [type_eq h, get, decodeInt, hlen, show (2 : ℤ) ^ 16 = ((256 ^ 2 : ℕ) : ℤ) from rfl,
    Int.bmod_emod]
  omega

end Buffer

/-! ## The typed writers on any ring -/

/-- The calls of typed writers, each with a value, one after the other. -/
def writeCalls : List (Σ w : Writer, BitVec (8 * w.width)) → BufM Unit
  | [] => pure ()
  | ⟨w, v⟩ :: calls => do
    let _ ← w.write v
    writeCalls calls

/-- A ring of `items` items of the given type with a free lock. -/
structure HeaderInv (type : ℤ) (size : ℕ) (items : ℤ) (b : Buffer) : Prop where
  writable : Writable type size b
  items_eq : b.items = items

section Writes

variable {type items : ℤ} {size : ℕ} {b : Buffer}

/-- A write that stores an index that can be counted on keeps the ring writable. -/
lemma Writable.writeSlot (h : Writable type size b) {v i : ℤ} (h₀ : 0 ≤ i) (h₁ : i < 2 ^ 31 - 1) :
    Writable type size (b.writeSlot size v i) where
  type_eq := by rw [Buffer.type_writeSlot h.length_ge, h.type_eq]
  size_eq := by rw [← h.size_eq]; exact Buffer.get_writeSlot_header (by omega)
  items_pos := by rw [Buffer.items, Buffer.get_writeSlot_header (by omega)]; exact h.items_pos
  index_nonneg := by rwa [Buffer.index_writeSlot h.length_ge h₀ (by omega)]
  index_lt := by rwa [Buffer.index_writeSlot h.length_ge h₀ (by omega)]
  lock_eq := by rw [← h.lock_eq]; exact Buffer.get_writeSlot_header (by decide)
  fits := by
    rw [Buffer.items, Buffer.get_writeSlot_header (by omega), Buffer.length_writeSlot]
    exact h.fits

/-- **A write keeps the ring writable**: `write_output_float` leaves a large index, but one that
the next writer can count on. -/
lemma Writable.written {w : Writer} (h : Writable w.type w.width b) (v : ℤ) :
    Writable w.type w.width (w.written b v) := by
  obtain ⟨hnext₀, hnext₁⟩ := h.next_mem
  have hitems := h.items_lt
  have hlen := b.length_lt
  have hfits := h.slot_fits hnext₀ hnext₁
  rw [Writer.written]
  split_ifs with hfloat
  · have hwidth : w.width = 4 := by rw [hfloat]; rfl
    rcases Nat.eq_zero_or_pos b.next.toNat with hzero | hpos
    · apply h.writeSlot <;> simp [hzero, floatBits]
    · have hbits := floatBits_mem hpos (by omega)
      exact h.writeSlot (by omega) hbits.2
  · refine h.writeSlot hnext₀ ?_
    have hpos : 0 < w.width := by cases w <;> decide
    have hle : b.next.toNat ≤ w.width * b.next.toNat := Nat.le_mul_of_pos_left _ hpos
    unfold Buffer.length at hfits
    omega

/-- One call of any typed writer: of the ring's own type it writes, and otherwise it changes
nothing. -/
lemma HeaderInv.write (h : HeaderInv type size items b) (w : Writer) (v : BitVec (8 * w.width)) :
    ∃ r b', w.write v b = .ok (r, b') ∧ HeaderInv type size items b' := by
  by_cases hown : b.type = w.type ∧ b.size = w.width
  · obtain ⟨htype, hsize⟩ := hown
    obtain rfl : w.type = type := htype.symm.trans h.writable.type_eq
    obtain rfl : w.width = size := by
      have := h.writable.size_eq
      omega
    refine ⟨none, _, Writer.write_eq h.writable v, h.writable.written _, ?_⟩
    rw [← h.items_eq, Writer.written]
    exact Buffer.get_writeSlot_header (by omega)
  · exact ⟨some (-1), b, Writer.write_eq_of_ne h.writable.length_ge (by tauto) v, h⟩

/-- **Run lemma**: any calls of typed writers return and keep the header. -/
lemma HeaderInv.writeCalls (h : HeaderInv type size items b)
    (calls : List (Σ w : Writer, BitVec (8 * w.width))) :
    ∃ b', Tmee.writeCalls calls b = .ok ((), b') ∧ HeaderInv type size items b' := by
  induction calls generalizing b with
  | nil => exact ⟨b, rfl, h⟩
  | cons call calls ih =>
    obtain ⟨w, v⟩ := call
    obtain ⟨r, c, hc, hinv⟩ := h.write w v
    obtain ⟨b', hb', hinv'⟩ := ih hinv
    refine ⟨b', ?_, hinv'⟩
    rw [Tmee.writeCalls, bufM_bind_ok hc, hb']

end Writes

/-! ## The law of the header -/

/-- What everybody reads from the header of a ring: the fields as they were written, a free lock,
and a file size that is the one of the producer. -/
structure HeaderLaw (type size items : ℤ) (b : Buffer) : Prop where
  type_eq : readType b = .ok (type, b)
  size_eq : readSize b = .ok (size, b)
  items_eq : readItems b = .ok (items, b)
  lock_eq : load 1 semaphorePos b = .ok (0, b)
  agrees : calculateBufferSizeFromFile (ringFile b) = calculateBufferSize size items

/-- A ring with such a header whose index is one of a slot is well-formed. -/
lemma HeaderInv.wellFormed {type items : ℤ} {size : ℕ} {b : Buffer}
    (h : HeaderInv type size items b) (hindex : b.index < items) : WellFormed type size b where
  type_eq := h.writable.type_eq
  size_eq := h.writable.size_eq
  items_pos := h.writable.items_pos
  index_nonneg := h.writable.index_nonneg
  index_lt := by rwa [h.items_eq]
  lock_eq := h.writable.lock_eq
  fits := h.writable.fits

lemma HeaderInv.law {type items : ℤ} {size : ℕ} {b : Buffer} (h : HeaderInv type size items b) :
    HeaderLaw type size items b where
  type_eq := by rw [readType_eq h.writable.length_ge, h.writable.type_eq]
  size_eq := by
    rw [← h.writable.size_eq]
    exact load_eq_ok (a := 0) (by have := h.writable.length_ge; omega)
  items_eq := by rw [readItems_eq h.writable.length_ge, h.items_eq]
  lock_eq := by
    rw [← h.writable.lock_eq]
    exact load_eq_ok (by have := h.writable.length_ge; unfold semaphorePos; omega)
  agrees := by
    rw [calculateBufferSizeFromFile_eq (by have := h.writable.length_ge; omega),
      h.writable.size_eq, h.items_eq]

/-! ## The header after `init` -/

section Init

variable {type n : ℤ} {size : ℕ} {b : Buffer} {fields : List HeaderField}

/-- The types with a size, and their sizes. -/
lemma typeToItemSize_bounds (h : typeToItemSize type ≠ 0) : 0 ≤ type ∧ type < 2 ^ 16 ∧
    ∃ size : ℕ, typeToItemSize type = size ∧ 0 < size ∧ size < 2 ^ 31 := by
  by_cases h₁ : type = TypeCode.bool
  · rw [h₁]
    exact ⟨by decide, by decide, 1, rfl, by decide, by decide⟩
  by_cases h₂ : type = TypeCode.int8
  · rw [h₂]
    exact ⟨by decide, by decide, 1, rfl, by decide, by decide⟩
  by_cases h₃ : type = TypeCode.int32
  · rw [h₃]
    exact ⟨by decide, by decide, 4, rfl, by decide, by decide⟩
  by_cases h₄ : type = TypeCode.int64
  · rw [h₄]
    exact ⟨by decide, by decide, 8, rfl, by decide, by decide⟩
  by_cases h₅ : type = TypeCode.float32
  · rw [h₅]
    exact ⟨by decide, by decide, 4, rfl, by decide, by decide⟩
  by_cases h₆ : type = TypeCode.float64
  · rw [h₆]
    exact ⟨by decide, by decide, 8, rfl, by decide, by decide⟩
  by_cases h₇ : type = TypeCode.quality
  · rw [h₇]
    exact ⟨by decide, by decide, 4, rfl, by decide, by decide⟩
  by_cases h₈ : type = TypeCode.smv92
  · rw [h₈]
    exact ⟨by decide, by decide, 68, rfl, by decide, by decide⟩
  by_cases h₉ : type = TypeCode.goose
  · rw [h₉]
    exact ⟨by decide, by decide, 1024, rfl, by decide, by decide⟩
  apply absurd _ h
  rw [typeToItemSize, if_neg h₁, if_neg h₂, if_neg h₃, if_neg h₄, if_neg h₅, if_neg h₆, if_neg h₇,
    if_neg h₈, if_neg h₉]

/-- The header cells lie below the semaphore byte. -/
lemma HeaderField.cell_le (type size items : ℤ) (field : HeaderField) :
    (field.cell type size items).addr + (field.cell type size items).width ≤ semaphorePos := by
  cases field <;> simp [cell, semaphorePos]

/-- Two fields have disjoint cells. -/
lemma HeaderField.disjoint_cell (type size items : ℤ) {field field' : HeaderField}
    (h : field ≠ field') : (field.cell type size items).Disjoint (field'.cell type size items) := by
  unfold HeaderCell.Disjoint
  cases field <;> cases field' <;> first | exact absurd rfl h | (dsimp only [cell]; omega)

/-- **The header in any order**: once every field has been written, each cell holds its value. -/
lemma get_writeFields {size items : ℤ} (hlen : 16 ≤ b.length)
    (hperm : fields.Perm [.type, .size, .items, .index]) (field : HeaderField) :
    (b.putCells (fields.map (HeaderField.cell type size items))).get
        (field.cell type size items).width (field.cell type size items).addr =
      (field.cell type size items).value.bmod (256 ^ (field.cell type size items).width) := by
  have hnodup : fields.Nodup := hperm.nodup_iff.mpr (by decide)
  have hmem : field ∈ fields := hperm.mem_iff.mpr (by cases field <;> decide)
  have hle := field.cell_le type size items
  apply Buffer.get_putCells_of_mem
  · exact List.pairwise_map.mpr
      (hnodup.imp fun hne => HeaderField.disjoint_cell type size items hne)
  · exact List.mem_map_of_mem hmem
  · unfold semaphorePos at hle
    omega

/-- The header writes of `init` on an empty mapping, in any order. -/
lemma headerInv_of_writeFields (htype₀ : 0 ≤ type) (htype₁ : type < 2 ^ 16) (hn : 1 ≤ n)
    (hn' : n < 2 ^ 31) (hsize : size < 2 ^ 31) (hmap : mmapNew (16 + size * n) = some b)
    (hperm : fields.Perm [.type, .size, .items, .index]) :
    ∃ b', writeFields type size n fields b = .ok ((), b') ∧ HeaderInv type size n b' ∧
      b'.index = 0 ∧ ∀ i, 16 ≤ i → b'.bytes[i]? = b.bytes[i]? := by
  have hblen := length_mmapNew hmap
  have hprod := mul_nonneg (Int.natCast_nonneg size) (by omega : 0 ≤ n)
  have hlen : 16 ≤ b.length := by omega
  have hbelow : ∀ c ∈ fields.map (HeaderField.cell type size n),
      c.addr + c.width ≤ semaphorePos := by
    intro c hc
    obtain ⟨field, -, rfl⟩ := List.mem_map.mp hc
    exact field.cell_le type size n
  have hrun : writeFields type size n fields b =
      .ok ((), b.putCells (fields.map (HeaderField.cell type size n))) := by
    rw [writeFields_eq,
      headerWrites_eq (semaphorePos_lt hlen) (get_mmapNew hmap 1 semaphorePos) hbelow]
  have hcell : ∀ field : HeaderField,
      (b.putCells (fields.map (HeaderField.cell type size n))).get
          (field.cell type size n).width (field.cell type size n).addr =
        (field.cell type size n).value.bmod (256 ^ (field.cell type size n).width) :=
    get_writeFields hlen hperm
  have hrest : ∀ w a, 14 ≤ a →
      (b.putCells (fields.map (HeaderField.cell type size n))).get w a = b.get w a := by
    intro w a ha
    apply Buffer.get_putCells_of_disjoint
    intro c hc
    have := hbelow c hc
    unfold semaphorePos at this
    omega
  set b' := b.putCells (fields.map (HeaderField.cell type size n)) with hb'
  have hlen' : b'.length = b.length := Buffer.length_putCells
  have hint : ∀ x : ℤ, 0 ≤ x → x < 2 ^ 31 → x.bmod (256 ^ 4) = x :=
    fun x h₀ h₁ => Int.bmod_eq_of_le_mul_two (by omega) (by omega)
  have hindex : b'.index = 0 := (hcell .index).trans (hint 0 le_rfl (by decide))
  have hitems : b'.items = n := (hcell .items).trans (hint n (by omega) hn')
  refine ⟨b', hrun, ⟨⟨?_, ?_, ?_, ?_, ?_, ?_, ?_⟩, hitems⟩, hindex, ?_⟩
  · have htype : b'.get 2 12 = type.bmod (256 ^ 2) := hcell .type
    rw [Buffer.type_eq_get (by omega), htype, show (2 : ℤ) ^ 16 = ((256 ^ 2 : ℕ) : ℤ) from rfl,
      Int.bmod_emod]
    exact Int.emod_eq_of_lt htype₀ htype₁
  · exact (hcell .size).trans (hint size (by omega) (by omega))
  · rw [hitems]
    omega
  · rw [hindex]
  · rw [hindex]
    decide
  · rw [Buffer.lock, hrest 1 semaphorePos le_rfl, get_mmapNew hmap]
  · rw [hitems, hlen']
    omega
  · intro i hi
    apply Buffer.getElem?_putCells_of_disjoint
    intro c hc
    have := hbelow c hc
    unfold semaphorePos at this
    omega

end Init

/-- **Producers and consumers agree on the header.** For every type with a size and every number of
items that the sizes leave room for: the mapping of the new file takes the four header
writes in any order, after which the header reads back what was written, with a free lock, the
index `0` and no byte of data changed; and a consumer computes the size of the ring that the
producer has computed. All of this but the index holds after any later calls of the typed writers.

**Proof sketch.** The four cells are disjoint and lie below the semaphore byte
(`get_writeFields`). A call of a typed writer changes the index field and a slot
(`HeaderInv.write`). -/
theorem header_agrees {type n : ℤ} (htype : typeToItemSize type ≠ 0) (hn : 1 ≤ n)
    (hfits : 16 + typeToItemSize type * n < 2 ^ 31 - 10) {fields : List HeaderField}
    (hperm : fields.Perm [.type, .size, .items, .index]) :
    ∃ b b', mmapNew (calculateBufferSize (typeToItemSize type) n) = some b ∧
      writeFields type (typeToItemSize type) n fields b = .ok ((), b') ∧
      HeaderLaw type (typeToItemSize type) n b' ∧
      readIndex b' = .ok (0, b') ∧
      (∀ i, 16 ≤ i → b'.bytes[i]? = b.bytes[i]?) ∧
      ∀ calls, ∃ b'', writeCalls calls b' = .ok ((), b'') ∧
        HeaderLaw type (typeToItemSize type) n b'' := by
  obtain ⟨htype₀, htype₁, size, hsize, hpos, hlt⟩ := typeToItemSize_bounds htype
  rw [hsize] at hfits ⊢
  have hmul : n ≤ size * n := by
    have := mul_le_mul_of_nonneg_right (show (1 : ℤ) ≤ size by omega) (by omega : 0 ≤ n)
    omega
  have hcalc : calculateBufferSize size n = 16 + size * n := by
    rw [calculateBufferSize, wrap32]
    exact Int.bmod_eq_of_le_mul_two (by push_cast; omega) (by push_cast; omega)
  obtain ⟨b, hmap⟩ := exists_mmapNew (show 0 < calculateBufferSize size n by omega)
  obtain ⟨b', hrun, hinv, hindex, hdata⟩ := headerInv_of_writeFields htype₀ htype₁ hn (by omega) hlt
    (hcalc ▸ hmap) hperm
  refine ⟨b, b', hmap, hrun, hinv.law, ?_, hdata, ?_⟩
  · rw [readIndex_eq hinv.writable.length_ge, hindex]
  · intro calls
    obtain ⟨b'', hb'', hinv'⟩ := hinv.writeCalls calls
    exact ⟨b'', hb'', hinv'.law⟩

/-- The agreement for a ring of one `BOOL`, in the order of the protection module. -/
theorem header_agrees_bool :
    ∃ b b', mmapNew (calculateBufferSize (typeToItemSize TypeCode.bool) 1) = some b ∧
      writeFields TypeCode.bool (typeToItemSize TypeCode.bool) 1 [.type, .size, .items, .index] b =
        .ok ((), b') ∧
      HeaderLaw TypeCode.bool (typeToItemSize TypeCode.bool) 1 b' ∧
      readIndex b' = .ok (0, b') ∧
      (∀ i, 16 ≤ i → b'.bytes[i]? = b.bytes[i]?) ∧
      ∀ calls, ∃ b'', writeCalls calls b' = .ok ((), b'') ∧
        HeaderLaw TypeCode.bool (typeToItemSize TypeCode.bool) 1 b'' :=
  header_agrees (by decide) (by decide) (by decide) (List.Perm.refl _)

end Tmee
