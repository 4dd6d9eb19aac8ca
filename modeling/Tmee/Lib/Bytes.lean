import Mathlib.Algebra.Order.Ring.Int
import Mathlib.Tactic.Positivity
import Mathlib.Tactic.Ring
import Mathlib.Tactic.Zify

set_option relaxedAutoImplicit false
set_option autoImplicit false

/-!
# Windows of a list and little-endian integers

Memory is a list of cells. A *window* is a run of consecutive cells; overwriting a window
leaves the length and every other cell alone. On byte lists, integers of a fixed width are
stored little-endian and read back in two's complement.

## Main definitions

* `ByteMem.window`, `ByteMem.overwrite` — reading and replacing consecutive cells.
* `ByteMem.encode`, `ByteMem.decode` — little-endian bytes of a natural number and back.
* `ByteMem.encodeInt`, `ByteMem.decodeInt` — the same for signed integers.

## Main results

* `ByteMem.window_overwrite_self`, `ByteMem.window_overwrite_of_disjoint` — a window read
  after an overwrite.
* `ByteMem.take_overwrite`, `ByteMem.window_take` — overwriting and reading inside a prefix
  do not depend on what follows it.
* `ByteMem.decodeInt_encodeInt` — a stored integer reads back as itself up to `256 ^ w`.
-/

namespace ByteMem

/-! ## Windows -/

section Window

variable {α : Type*}

/-- The `w` cells from position `a` on. -/
def window (m : List α) (a w : ℕ) : List α := (m.drop a).take w

/-- Replace the cells from position `a` on by `bs`; cells beyond the end are dropped. -/
def overwrite : List α → ℕ → List α → List α
  | m, _, [] => m
  | m, a, b :: bs => overwrite (m.set a b) (a + 1) bs

/-- Overwriting keeps the length. -/
@[simp] lemma length_overwrite (m : List α) (a : ℕ) (bs : List α) :
    (overwrite m a bs).length = m.length := by
  induction bs generalizing m a with
  | nil => rfl
  | cons b bs ih => simp [overwrite, ih]

/-- A cell after an overwrite: a new cell inside the window, the old one outside. -/
lemma getElem?_overwrite (m : List α) (a : ℕ) (bs : List α) (i : ℕ) :
    (overwrite m a bs)[i]? =
      if a ≤ i ∧ i < a + bs.length ∧ i < m.length then bs[i - a]? else m[i]? := by
  induction bs generalizing m a with
  | nil => simp [overwrite]; omega
  | cons b bs ih =>
    rw [overwrite, ih, List.length_set, List.length_cons, List.getElem?_set]
    by_cases hi : i = a
    · subst hi
      by_cases hm : i < m.length <;> simp [hm]
    · by_cases hlt : a < i
      · obtain ⟨k, rfl⟩ : ∃ k, i = a + 1 + k := ⟨i - (a + 1), by omega⟩
        have hsub : a + 1 + k - a = k + 1 := by omega
        simp only [hsub, Nat.add_sub_cancel_left, List.getElem?_cons_succ]
        by_cases hk : k < bs.length ∧ a + 1 + k < m.length
        · rw [if_pos (by omega), if_pos (by omega)]
        · rw [if_neg (by omega), if_neg (by omega), if_neg (by omega)]
      · rw [if_neg (by omega), if_neg (by omega), if_neg (by omega)]

/-- A cell outside the overwritten window is unchanged. -/
lemma getElem?_overwrite_of_disjoint {m : List α} {a : ℕ} {bs : List α} {i : ℕ}
    (h : i < a ∨ a + bs.length ≤ i) : (overwrite m a bs)[i]? = m[i]? := by
  rw [getElem?_overwrite, if_neg (by omega)]

/-- The cells of a window. -/
lemma getElem?_window (m : List α) (a w i : ℕ) :
    (window m a w)[i]? = if i < w then m[a + i]? else none := by
  simp [window, List.getElem?_take, List.getElem?_drop]

/-- A window inside the list has its full width. -/
lemma length_window {m : List α} {a w : ℕ} (h : a + w ≤ m.length) :
    (window m a w).length = w := by
  simp [window]; omega

/-- A window splits into two consecutive windows. -/
lemma window_add (m : List α) (a w w' : ℕ) :
    window m a (w + w') = window m a w ++ window m (a + w) w' := by
  simp only [window, List.take_add, List.drop_drop]

/-- Windows of lists that agree on the window's cells agree. -/
lemma window_congr {m m' : List α} {a w : ℕ} (h : ∀ i < w, m[a + i]? = m'[a + i]?) :
    window m a w = window m' a w := by
  apply List.ext_getElem?
  intro i
  simp only [getElem?_window]
  by_cases hi : i < w
  · simp only [hi, if_true, h i hi]
  · simp only [hi, if_false]

/-- The overwritten window reads back what was written. -/
lemma window_overwrite_self {m : List α} {a : ℕ} {bs : List α} (h : a + bs.length ≤ m.length) :
    window (overwrite m a bs) a bs.length = bs := by
  apply List.ext_getElem?
  intro i
  rw [getElem?_window]
  by_cases hi : i < bs.length
  · rw [if_pos hi, getElem?_overwrite, if_pos (by omega), Nat.add_sub_cancel_left]
  · rw [if_neg hi, List.getElem?_eq_none (by omega)]

/-- A window disjoint from the overwritten one is unchanged. -/
lemma window_overwrite_of_disjoint {m : List α} {a a' w : ℕ} {bs : List α}
    (h : a' + w ≤ a ∨ a + bs.length ≤ a') : window (overwrite m a bs) a' w = window m a' w :=
  window_congr fun i hi => getElem?_overwrite_of_disjoint (by omega)

/-- Overwriting inside a prefix is overwriting the prefix. -/
lemma take_overwrite {m : List α} {a n : ℕ} {bs : List α} (h : a + bs.length ≤ n) :
    (overwrite m a bs).take n = overwrite (m.take n) a bs := by
  apply List.ext_getElem?
  intro i
  simp only [List.getElem?_take, getElem?_overwrite, List.length_take]
  split_ifs <;> first | rfl | omega

/-- Reading inside a prefix is reading the prefix. -/
lemma window_take {m : List α} {a w n : ℕ} (h : a + w ≤ n) :
    window (m.take n) a w = window m a w :=
  window_congr fun i hi => by rw [List.getElem?_take, if_pos (by omega)]

/-- Writing back what a window holds changes nothing. -/
lemma overwrite_window_self (m : List α) (a w : ℕ) : overwrite m a (window m a w) = m := by
  apply List.ext_getElem?
  intro i
  rw [getElem?_overwrite]
  split_ifs with h
  · have hw : i - a < w := by
      have := List.length_take_le w (m.drop a)
      unfold window at h
      omega
    rw [getElem?_window, if_pos hw, Nat.add_sub_cancel' h.1]
  · rfl

/-- Of two overwrites of one window the later one stays. -/
lemma overwrite_overwrite_self (m : List α) (a : ℕ) {bs bs' : List α}
    (h : bs.length = bs'.length) : overwrite (overwrite m a bs) a bs' = overwrite m a bs' := by
  apply List.ext_getElem?
  intro i
  simp only [getElem?_overwrite, length_overwrite]
  split_ifs <;> first | rfl | omega

/-- Overwrites of disjoint windows commute. -/
lemma overwrite_comm (m : List α) {a a' : ℕ} {bs bs' : List α}
    (h : a' + bs'.length ≤ a ∨ a + bs.length ≤ a') :
    overwrite (overwrite m a bs) a' bs' = overwrite (overwrite m a' bs') a bs := by
  apply List.ext_getElem?
  intro i
  simp only [getElem?_overwrite, length_overwrite]
  split_ifs <;> first | rfl | omega

end Window

/-! ## Little-endian integers -/

/-- The `w` little-endian bytes of `n`; higher bytes are dropped. -/
def encode : ℕ → ℕ → List UInt8
  | 0, _ => []
  | w + 1, n => UInt8.ofNat n :: encode w (n / 256)

/-- The natural number of a little-endian byte list. -/
def decode : List UInt8 → ℕ
  | [] => 0
  | b :: bs => b.toNat + 256 * decode bs

/-- The `w` little-endian bytes of an integer in two's complement. -/
def encodeInt (w : ℕ) (v : ℤ) : List UInt8 := encode w (v % 256 ^ w).toNat

/-- The integer of a little-endian byte list read in two's complement. -/
def decodeInt (bs : List UInt8) : ℤ := (decode bs : ℤ).bmod (256 ^ bs.length)

/-- An encoding of width `w` has `w` bytes. -/
@[simp] lemma length_encode (w n : ℕ) : (encode w n).length = w := by
  induction w generalizing n with
  | zero => rfl
  | succ w ih => simp [encode, ih]

/-- An integer encoding of width `w` has `w` bytes. -/
@[simp] lemma length_encodeInt (w : ℕ) (v : ℤ) : (encodeInt w v).length = w := length_encode w _

/-- Decoding an encoding keeps the number modulo `256 ^ w`. -/
lemma decode_encode (w n : ℕ) : decode (encode w n) = n % 256 ^ w := by
  induction w generalizing n with
  | zero => simp [encode, decode, Nat.mod_one]
  | succ w ih =>
    have hhead : (UInt8.ofNat n).toNat = n % 256 := UInt8.toNat_ofNat'
    rw [encode, decode, ih, hhead, pow_succ', Nat.mod_mul]

/-- A byte list decodes below `256` to its length. -/
lemma decode_lt (bs : List UInt8) : decode bs < 256 ^ bs.length := by
  induction bs with
  | nil => simp [decode]
  | cons b bs ih =>
    have hb : b.toNat < 256 := b.toNat_lt
    rw [decode, List.length_cons, pow_succ]
    omega

/-- Decoding a concatenation. -/
lemma decode_append (bs cs : List UInt8) :
    decode (bs ++ cs) = decode bs + 256 ^ bs.length * decode cs := by
  induction bs with
  | nil => simp [decode]
  | cons b bs ih => rw [List.cons_append, decode, ih, decode, List.length_cons, pow_succ]; ring

/-- Decoding an encoded integer keeps it modulo `256 ^ w`. -/
lemma decodeInt_encodeInt (w : ℕ) (v : ℤ) : decodeInt (encodeInt w v) = v.bmod (256 ^ w) := by
  have hpos : (0 : ℤ) < 256 ^ w := by positivity
  have hnn : 0 ≤ v % 256 ^ w := Int.emod_nonneg _ hpos.ne'
  have hlt : (v % 256 ^ w).toNat < 256 ^ w := by
    have := Int.emod_lt_of_pos v hpos
    zify
    rwa [Int.toNat_of_nonneg hnn]
  rw [decodeInt, encodeInt, decode_encode, length_encode, Nat.mod_eq_of_lt hlt,
    Int.toNat_of_nonneg hnn]
  exact_mod_cast Int.emod_bmod v (256 ^ w)

/-- Encoding the decoded bytes gives the bytes back. -/
lemma encode_decode (bs : List UInt8) : encode bs.length (decode bs) = bs := by
  induction bs with
  | nil => rfl
  | cons b bs ih =>
    have hb : b.toNat < 256 := b.toNat_lt
    have hdiv : (b.toNat + 256 * decode bs) / 256 = decode bs := by omega
    have hmod : UInt8.ofNat (b.toNat + 256 * decode bs) = b := by
      rw [← UInt8.toNat_inj, UInt8.toNat_ofNat']
      omega
    rw [List.length_cons, encode, decode, hdiv, hmod, ih]

/-- Encoding the integer read from a byte list gives the bytes back. -/
lemma encodeInt_decodeInt (bs : List UInt8) : encodeInt bs.length (decodeInt bs) = bs := by
  have hlt : (decode bs : ℤ) < ((256 ^ bs.length : ℕ) : ℤ) := by exact_mod_cast decode_lt bs
  have hmod : decodeInt bs % (256 : ℤ) ^ bs.length = decode bs := by
    have := Int.bmod_emod (x := decode bs) (m := 256 ^ bs.length)
    rw [Int.emod_eq_of_lt (by omega) hlt] at this
    exact_mod_cast this
  rw [encodeInt, hmod, Int.toNat_natCast, encode_decode]

/-- The range of a decoded integer. -/
lemma decodeInt_mem (bs : List UInt8) :
    -((256 ^ bs.length : ℕ) : ℤ) ≤ 2 * decodeInt bs ∧
      2 * decodeInt bs < ((256 ^ bs.length : ℕ) : ℤ) := by
  have hpos : 0 < 256 ^ bs.length := by positivity
  have h₁ := Int.le_bmod (x := decode bs) hpos
  have h₂ := Int.bmod_lt (x := decode bs) hpos
  unfold decodeInt
  omega

end ByteMem
