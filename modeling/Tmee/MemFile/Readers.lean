import Tmee.Lib.Fallible
import Tmee.MemFile.Writers

set_option relaxedAutoImplicit false
set_option autoImplicit false

/-!
# The readers

Every `read_input_*` and `read_current_input_*` takes the lock, loads one cell and gives the lock
back: on a ring with its semaphore clear it returns what the slot holds and leaves the buffer as
it was.

## Main results

* `Tmee.locked_load_eq` — a load between lock and unlock.
* `Tmee.readInputBool_of_fits`, `Tmee.readInputInt32_of_fits` — the readers of a slot inside the
  buffer.
* `Tmee.readInputBool_eq`, `Tmee.readInputInt8_eq`, `Tmee.readInputInt32_eq`,
  `Tmee.readInputSmv_eq` — the readers of a given slot.
* `Tmee.readCurrentInputBool_eq`, `Tmee.readCurrentInputInt8_eq`,
  `Tmee.readCurrentInputInt32_eq` — the readers of the slot under the index.
-/

namespace Tmee

section Header

variable {b : Buffer}

lemma readIndex_eq (hlen : 16 ≤ b.length) : readIndex b = .ok (b.index, b) :=
  load_eq_ok (a := 8) (by omega)

lemma readItems_eq (hlen : 16 ≤ b.length) : readItems b = .ok (b.items, b) :=
  load_eq_ok (a := 4) (by omega)

/-- Reading between lock and unlock leaves the buffer as it was. -/
lemma locked_read_eq {α : Type} {body : BufM α} {r : α} (hlen : 16 ≤ b.length) (h : b.lock = 0)
    (hbody : body (b.put 1 semaphorePos 1) = .ok (r, b.put 1 semaphorePos 1)) :
    locked body b = .ok (r, b) := by
  have hlock := semaphorePos_lt hlen
  rw [locked_eq hlock h hbody (by rwa [Buffer.length_put]) (lock_put_one hlock),
    Buffer.put_put_self, Buffer.put_lock_of_free hlock h]

lemma load_frame {w : ℕ} {a r : ℤ} {b' : Buffer} (h : load w a b = .ok (r, b')) : b' = b := by
  rw [load] at h
  split_ifs at h
  exact (Prod.mk.inj (Except.ok.inj h)).2.symm

/-- A load that returns is inside the mapping. -/
lemma fits_of_load {w a : ℕ} {x : ℤ × Buffer} (h : load w (a : ℤ) b = .ok x) :
    a + w ≤ b.length := by
  rw [load] at h
  split_ifs at h
  omega

/-- `readType` returns if the fourth header word is in the mapping. -/
lemma readType_eq_ok_iff {type : ℤ} :
    readType.run' b = .ok type ↔ 16 ≤ b.length ∧ type = b.type := by
  have hread : 16 ≤ b.length → readType.run' b = .ok b.type := by
    intro hlen
    rw [StateT.run', readType_eq hlen]
    rfl
  constructor
  · intro h
    obtain ⟨x, hx, -⟩ := Fallible.bind_eq_ok.mp h
    obtain ⟨word, c, hload, -⟩ := bufM_bind_eq_ok hx
    have hlen : 16 ≤ b.length := fits_of_load (a := 12) hload
    exact ⟨hlen, Except.ok.inj (h.symm.trans (hread hlen))⟩
  · rintro ⟨hlen, rfl⟩
    exact hread hlen

/-- A computation beside the buffer. -/
lemma bufM_lift_eq_ok {α : Type} {e : Except Fault α} {r : α} {b' : Buffer}
    (h : (liftM e : BufM α) b = .ok (r, b')) : e = .ok r ∧ b' = b := by
  cases e with
  | error f => cases h
  | ok x =>
    obtain ⟨rfl, rfl⟩ := Prod.mk.inj (Except.ok.inj h)
    exact ⟨rfl, rfl⟩

/-- Code between lock and unlock that changes nothing leaves the buffer as it was. -/
lemma locked_frame {α : Type} {body : BufM α} {b' : Buffer} {r : α} (hlen : 16 ≤ b.length)
    (h : b.lock = 0) (hbody : ∀ c x c', body c = .ok (x, c') → c' = c)
    (hrun : locked body b = .ok (r, b')) : b' = b := by
  cases hb : body (b.put 1 semaphorePos 1) with
  | error f =>
    rw [locked, bufM_bind_ok (lockBuffer_eq (semaphorePos_lt hlen) h)] at hrun
    simp only [bind, StateT.bind, hb, Except.bind] at hrun
    cases hrun
  | ok p =>
    obtain ⟨x, c⟩ := p
    obtain rfl := hbody _ _ _ hb
    rw [locked_read_eq hlen h hb] at hrun
    exact (Prod.mk.inj (Except.ok.inj hrun)).2.symm

/-- A load at an address above the header, between lock and unlock. -/
lemma locked_load_eq {k a : ℕ} {e : BufM ℤ} (hlen : 16 ≤ b.length) (h : b.lock = 0)
    (ha : 16 ≤ a) (hk : a + k ≤ b.length)
    (he : e (b.put 1 semaphorePos 1) = load k a (b.put 1 semaphorePos 1)) :
    locked e b = .ok (b.get k a, b) := by
  apply locked_read_eq hlen h
  rw [he, load_eq_ok (by rwa [Buffer.length_put]),
    Buffer.get_put_of_disjoint (Or.inr (by unfold semaphorePos; omega))]

/-- The index read between lock and unlock is the one read before. -/
lemma locked_readIndex_eq {α : Type} (f : ℤ → BufM α) (hlen : 16 ≤ b.length) (h : b.lock = 0) :
    locked (readIndex >>= f) b = locked (f b.index) b := by
  have hread : readIndex (b.put 1 semaphorePos 1) = .ok (b.index, b.put 1 semaphorePos 1) := by
    have hindex : (b.put 1 semaphorePos 1).index = b.index :=
      Buffer.get_put_of_disjoint (by decide)
    rw [← hindex]
    exact readIndex_eq (by rwa [Buffer.length_put])
  have hlock := lockBuffer_eq (semaphorePos_lt hlen) h
  simp only [locked, bind_assoc]
  rw [bufM_bind_ok hlock, bufM_bind_ok hlock, bufM_bind_ok hread]

end Header

/-! ## A given slot -/

section Fits

variable {b : Buffer} {i : ℕ}

/-- A slot of one byte inside the buffer. -/
lemma readInputBool_of_fits (hlen : 16 ≤ b.length) (h : b.lock = 0) (hi : 16 + i < b.length) :
    readInputBool i b = .ok (b.slot 1 i, b) := by
  have hb := b.length_lt
  have hadd : cInt ((i : ℤ) + 16) = .ok ((i : ℤ) + 16) :=
    cInt_eq_ok (by omega) (by unfold Buffer.length at hi; omega)
  have haddr : (i : ℤ) + 16 = ((16 + 1 * i : ℕ) : ℤ) := by
    push_cast
    ring
  rw [Buffer.slot, Int.toNat_natCast]
  apply locked_load_eq hlen h (by omega) (by omega)
  rw [bufM_lift_ok hadd, haddr]

/-- A slot of four bytes inside the buffer. -/
lemma readInputInt32_of_fits (hlen : 16 ≤ b.length) (h : b.lock = 0)
    (hi : 16 + 4 * i + 4 ≤ b.length) : readInputInt32 i b = .ok (b.slot 4 i, b) := by
  have hb := b.length_lt
  have hadd : cInt ((i : ℤ) + 4) = .ok ((i : ℤ) + 4) :=
    cInt_eq_ok (by omega) (by unfold Buffer.length at hi; omega)
  have haddr : 4 * ((i : ℤ) + 4) = ((16 + 4 * i : ℕ) : ℤ) := by
    push_cast
    ring
  rw [Buffer.slot, Int.toNat_natCast]
  apply locked_load_eq hlen h (by omega) hi
  rw [bufM_lift_ok hadd, haddr]

/-- A slot that can be read is inside the buffer. -/
lemma readInputInt32_eq_ok_iff {x : ℤ × Buffer} (hlen : 16 ≤ b.length) (h : b.lock = 0) :
    readInputInt32 i b = .ok x ↔ 16 + 4 * i + 4 ≤ b.length ∧ x = (b.slot 4 i, b) := by
  constructor
  · intro hread
    have hfits : 16 + 4 * i + 4 ≤ b.length := by
      rw [readInputInt32, locked, bufM_bind_ok (lockBuffer_eq (semaphorePos_lt hlen) h)] at hread
      obtain ⟨r, c, hbody, -⟩ := bufM_bind_eq_ok hread
      obtain ⟨a, d, hadd, hload⟩ := bufM_bind_eq_ok hbody
      obtain ⟨hsum, rfl⟩ := bufM_lift_eq_ok hadd
      obtain ⟨-, rfl⟩ := cInt_eq_ok_iff.mp hsum
      rw [load, Buffer.length_put] at hload
      split_ifs at hload with hinside
      omega
    rw [readInputInt32_of_fits hlen h hfits] at hread
    exact ⟨hfits, (Except.ok.inj hread).symm⟩
  · rintro ⟨hfits, rfl⟩
    exact readInputInt32_of_fits hlen h hfits

end Fits

section Slot

variable {b : Buffer} {type i : ℤ}

lemma readInputBool_eq (h : WellFormed type 1 b) (h₀ : 0 ≤ i) (h₁ : i < b.items) :
    readInputBool i b = .ok (b.slot 1 i, b) := by
  have hfits := h.slot_fits h₀ h₁
  lift i to ℕ using h₀
  exact readInputBool_of_fits h.length_ge h.lock_eq (by omega)

lemma readInputInt8_eq (h : WellFormed type 1 b) (h₀ : 0 ≤ i) (h₁ : i < b.items) :
    readInputInt8 i b = .ok (b.slot 1 i, b) :=
  readInputBool_eq h h₀ h₁

lemma readInputInt32_eq (h : WellFormed type 4 b) (h₀ : 0 ≤ i) (h₁ : i < b.items) :
    readInputInt32 i b = .ok (b.slot 4 i, b) := by
  have hfits := h.slot_fits h₀ h₁
  lift i to ℕ using h₀
  exact readInputInt32_of_fits h.length_ge h.lock_eq (by omega)

/-- Word `k` of the sample in slot `n`. -/
lemma readInputSmv_eq {k n : ℕ} (hlen : 16 + 68 * n + 4 * k + 4 ≤ b.length) (h : b.lock = 0) :
    readInputSmv k n b = .ok (b.get 4 (16 + 68 * n + 4 * k), b) := by
  have hb := b.length_lt
  have hoffset : cInt ((n : ℤ) * 17) = .ok ((n : ℤ) * 17) :=
    cInt_eq_ok (by omega) (by unfold Buffer.length at hlen; omega)
  have hbase : cInt (4 + (n : ℤ) * 17) = .ok (4 + (n : ℤ) * 17) :=
    cInt_eq_ok (by omega) (by unfold Buffer.length at hlen; omega)
  have hword : cInt (4 + (n : ℤ) * 17 + k) = .ok (4 + (n : ℤ) * 17 + k) :=
    cInt_eq_ok (by omega) (by unfold Buffer.length at hlen; omega)
  have haddr : 4 * (4 + (n : ℤ) * 17 + k) = ((16 + 68 * n + 4 * k : ℕ) : ℤ) := by
    push_cast
    ring
  apply locked_load_eq (by omega) h (by omega) hlen
  rw [bufM_lift_ok hoffset, bufM_lift_ok hbase, bufM_lift_ok hword, haddr]

end Slot

/-! ## The slot under the index -/

section Current

variable {b : Buffer} {type : ℤ}

/-- The readers of the current slot read the index first. -/
lemma readCurrentInputBool_eq_readInput (hlen : 16 ≤ b.length) (h : b.lock = 0) :
    readCurrentInputBool b = readInputBool b.index b :=
  locked_readIndex_eq _ hlen h

lemma readCurrentInputInt32_eq_readInput (hlen : 16 ≤ b.length) (h : b.lock = 0) :
    readCurrentInputInt32 b = readInputInt32 b.index b :=
  locked_readIndex_eq _ hlen h

lemma readCurrentInputBool_eq (h : WellFormed type 1 b) :
    readCurrentInputBool b = .ok (b.slot 1 b.index, b) := by
  rw [readCurrentInputBool_eq_readInput h.length_ge h.lock_eq]
  exact readInputBool_eq h h.index_nonneg h.index_lt

lemma readCurrentInputInt8_eq (h : WellFormed type 1 b) :
    readCurrentInputInt8 b = .ok (b.slot 1 b.index, b) :=
  readCurrentInputBool_eq h

lemma readCurrentInputInt32_eq (h : WellFormed type 4 b) :
    readCurrentInputInt32 b = .ok (b.slot 4 b.index, b) := by
  rw [readCurrentInputInt32_eq_readInput h.length_ge h.lock_eq]
  exact readInputInt32_eq h h.index_nonneg h.index_lt

end Current

end Tmee
