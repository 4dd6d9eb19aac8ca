import Mathlib.Data.Nat.Log
import Tmee.Lib.FloatFormat
import Tmee.MemFile.WriteLaw

set_option relaxedAutoImplicit false
set_option autoImplicit false

/-!
# Converting an `int` to a `float`

The conversion `(float) n` of C gives the number of single precision that is nearest to `n`.

## Main definitions

* `Tmee.intToFloat` — the conversion.
* `Tmee.NearestFloat` — the meaning of the conversion.

## Main results

* `Tmee.intToFloat_eq_iff` — the conversion is the nearest number.
-/

namespace Tmee

open FloatFormat

/-- The bit pattern of `(float) n`. -/
def intToFloat (n : ℤ) : BitVec 32 :=
  BitVec.ofInt 32 (if n < 0 then 2 ^ 31 + floatBits n.natAbs else floatBits n.natAbs)

/-- The number of single precision with the bit pattern `bits` is the one nearest to `n`: it has
the sign of `n`, and its other bits are the code of the absolute value, counted in `2 ^ (-149)`. -/
structure NearestFloat (n : ℤ) (bits : BitVec 32) : Prop where
  sign : bits.msb = true ↔ n < 0
  magnitude : RoundsTo 23 (n.natAbs * 2 ^ 149) (bits.toNat % 2 ^ 31)

/-- A number with at most 24 bits is its own significand, moved to the left. -/
lemma roundsTo_of_log2_le {n : ℕ} (hn : 0 < n) (h : Nat.log2 n ≤ 23) :
    RoundsTo 23 (n * 2 ^ 149) ((126 + Nat.log2 n) * 2 ^ 23 + n * 2 ^ (23 - Nat.log2 n)) := by
  obtain ⟨d, hd⟩ := Nat.exists_eq_add_of_le h
  have hlow := Nat.log2_self_le hn.ne'
  have hhigh := Nat.lt_log2_self (n := n)
  have hshift : 23 - Nat.log2 n = d := by omega
  have hx : n * 2 ^ 149 = n * 2 ^ d * 2 ^ (126 + Nat.log2 n) := by
    rw [Nat.mul_assoc, ← Nat.pow_add]
    congr 2
    omega
  have hpow : 2 ^ 23 = 2 ^ Nat.log2 n * 2 ^ d := by rw [← Nat.pow_add, ← hd]
  have hpow' : 2 ^ (23 + 1) = 2 ^ (Nat.log2 n + 1) * 2 ^ d := by
    rw [← Nat.pow_add, hd]
    congr 1
    omega
  rw [hshift, hx]
  apply roundsTo_significand (by decide)
  · rw [hpow]
    exact Nat.mul_le_mul_right _ hlow
  · rw [hpow']
    exact Nat.mul_le_mul_right _ hhigh.le
  · exact Or.inl le_rfl
  · have hpos : 0 < 2 ^ (126 + Nat.log2 n) := Nat.two_pow_pos _
    have hstep : (2 * (n * 2 ^ d) + 1) * 2 ^ (126 + Nat.log2 n) =
        2 * (n * 2 ^ d * 2 ^ (126 + Nat.log2 n)) + 2 ^ (126 + Nat.log2 n) := by ring
    rw [hstep]
    exact ⟨by omega, fun heq => absurd heq (by omega)⟩

/-- The 24 leading bits of a longer number, rounded by the rest. -/
lemma roundsTo_of_lt_log2 {n : ℕ} (hn : 0 < n) (h : 23 < Nat.log2 n) :
    RoundsTo 23 (n * 2 ^ 149) ((126 + Nat.log2 n) * 2 ^ 23 +
      if n % 2 ^ (Nat.log2 n - 23) < 2 ^ (Nat.log2 n - 24) ∨
          (n % 2 ^ (Nat.log2 n - 23) = 2 ^ (Nat.log2 n - 24) ∧
            n / 2 ^ (Nat.log2 n - 23) % 2 = 0) then
        n / 2 ^ (Nat.log2 n - 23)
      else n / 2 ^ (Nat.log2 n - 23) + 1) := by
  obtain ⟨d, hd⟩ := Nat.exists_eq_add_of_lt h
  have hlow := Nat.log2_self_le hn.ne'
  have hhigh := Nat.lt_log2_self (n := n)
  have hrest : Nat.log2 n - 23 = d + 1 := by omega
  have hhalf : Nat.log2 n - 24 = d := by omega
  have hq₀ : 2 ^ 23 ≤ n / 2 ^ (d + 1) := by
    rw [Nat.le_div_iff_mul_le (Nat.two_pow_pos _), ← Nat.pow_add]
    have hexp : 23 + (d + 1) = Nat.log2 n := by omega
    rwa [hexp]
  have hq₁ : n / 2 ^ (d + 1) < 2 ^ (23 + 1) := by
    rw [Nat.div_lt_iff_lt_mul (Nat.two_pow_pos _), ← Nat.pow_add]
    have hexp : 23 + 1 + (d + 1) = Nat.log2 n + 1 := by omega
    rwa [hexp]
  have hr := Nat.mod_lt n (Nat.two_pow_pos (d + 1))
  have hn' := Nat.div_add_mod' n (2 ^ (d + 1))
  rw [hrest, hhalf]
  apply roundsTo_halfEven (w := 2 ^ d) (t := 2 ^ 149) (by decide) hq₀ hq₁
  · rw [← Nat.pow_succ']
    exact hr
  · exact Nat.two_pow_pos 149
  · rw [← Nat.pow_succ', ← Nat.pow_add]
    congr 1
    omega
  · rw [← Nat.pow_succ', Nat.mul_comm (2 ^ (d + 1)), hn']

/-- The conversion of a natural number rounds it. -/
lemma floatBits_roundsTo (n : ℕ) : ∃ k : ℕ, floatBits n = k ∧ RoundsTo 23 (n * 2 ^ 149) k := by
  rcases Nat.eq_zero_or_pos n with rfl | hn
  · refine ⟨0, rfl, fun j => ⟨?_, fun _ => Or.inr ⟨0, rfl⟩⟩⟩
    rw [Nat.zero_mul, units_of_lt (Nat.two_pow_pos 23), Nat.dist_self]
    exact Nat.zero_le _
  · rw [floatBits, if_neg hn.ne']
    dsimp only
    rcases Nat.lt_or_ge 23 (Nat.log2 n) with h | h
    · rw [if_neg (by omega)]
      exact ⟨_, by push_cast; rfl, roundsTo_of_lt_log2 hn h⟩
    · rw [if_pos h]
      exact ⟨_, by push_cast; rfl, roundsTo_of_log2_le hn h⟩

/-- **The conversion gives the nearest number**, and nothing else is the nearest one. -/
theorem intToFloat_eq_iff {n : ℤ} (h₀ : -2 ^ 31 ≤ n) (h₁ : n < 2 ^ 31) {bits : BitVec 32} :
    intToFloat n = bits ↔ NearestFloat n bits := by
  obtain ⟨k, hk, hround⟩ := floatBits_roundsTo n.natAbs
  have hlt : k < 2 ^ 31 := by
    rcases Nat.eq_zero_or_pos n.natAbs with hzero | hpos
    · rw [hzero] at hk
      have hk₀ : (0 : ℤ) = k := hk
      omega
    · have hmem := (floatBits_mem hpos (by omega)).2
      omega
  have hbits : intToFloat n = BitVec.ofNat 32 ((if n < 0 then 2 ^ 31 else 0) + k) := by
    rw [intToFloat, hk, ← BitVec.ofInt_natCast]
    split_ifs <;> simp
  have htoNat : (intToFloat n).toNat = (if n < 0 then 2 ^ 31 else 0) + k := by
    rw [hbits, BitVec.toNat_ofNat, Nat.mod_eq_of_lt (by split_ifs <;> omega)]
  have hsign : (intToFloat n).msb = true ↔ n < 0 := by
    rw [BitVec.msb_eq_decide, decide_eq_true_iff, htoNat]
    split_ifs <;> omega
  have hmagnitude : (intToFloat n).toNat % 2 ^ 31 = k := by
    rw [htoNat]
    split_ifs <;> omega
  constructor
  · rintro rfl
    exact ⟨hsign, hmagnitude ▸ hround⟩
  · intro hnearest
    have hcode := hround.unique hnearest.magnitude
    have hmsb := hnearest.sign
    apply BitVec.eq_of_toNat_eq
    have hbound := bits.isLt
    rw [BitVec.msb_eq_decide, decide_eq_true_iff] at hmsb
    rw [htoNat]
    split_ifs with hneg
    · have := hmsb.mpr hneg
      omega
    · have := mt hmsb.mp hneg
      omega

end Tmee
