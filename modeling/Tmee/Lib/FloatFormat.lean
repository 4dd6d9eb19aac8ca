import Mathlib.Algebra.Order.Group.Nat
import Mathlib.Algebra.Ring.Parity
import Mathlib.Data.Nat.Dist
import Mathlib.Order.Monotone.Basic
import Mathlib.Tactic.Ring

set_option relaxedAutoImplicit false
set_option autoImplicit false

/-!
# Binary floating-point formats

A format with `p` fraction bits codes its non-negative numbers by the exponent field followed by
the fraction, so the codes are natural numbers and increase with the numbers they stand for. All
numbers are multiples of the least positive one and are counted in it. The exponent is not bounded,
so rounding is the one of the standard as long as the result is not above the largest number.

## Main definitions

* `FloatFormat.units` — the number with a given code, counted in the least positive number.
* `FloatFormat.RoundsTo` — the number with a given code is nearest to an exact value, ties to even.

## Main results

* `FloatFormat.units_strictMono` — the numbers increase with their codes.
* `FloatFormat.RoundsTo.unique` — rounding has one result.
* `FloatFormat.roundsTo_significand`, `FloatFormat.roundsTo_halfEven` — what rounds to a given
  significand, and how a quotient rounds.
-/

namespace FloatFormat

variable {p : ℕ}

/-- The number with the code `k`: subnormal with the fraction `k`, or normal with a hidden bit. -/
def units (p k : ℕ) : ℕ :=
  if k < 2 ^ p then k else (2 ^ p + k % 2 ^ p) * 2 ^ (k / 2 ^ p - 1)

/-- The exact value `x` rounds to the code `k`: no number is nearer to `x`, and among two nearest
ones the even code is taken. -/
def RoundsTo (p x k : ℕ) : Prop :=
  ∀ j, Nat.dist (units p k) x ≤ Nat.dist (units p j) x ∧
    (Nat.dist (units p k) x = Nat.dist (units p j) x → j = k ∨ Even k)

lemma units_of_lt {k : ℕ} (h : k < 2 ^ p) : units p k = k := if_pos h

/-- A normal number by its exponent and fraction. -/
lemma units_normal (q : ℕ) {r : ℕ} (h : r < 2 ^ p) :
    units p ((q + 1) * 2 ^ p + r) = (2 ^ p + r) * 2 ^ q := by
  have hle : 2 ^ p ≤ (q + 1) * 2 ^ p + r := by
    rw [Nat.add_mul, Nat.one_mul]
    omega
  have hdiv : ((q + 1) * 2 ^ p + r) / 2 ^ p = q + 1 := by
    rw [Nat.add_comm, Nat.add_mul_div_right _ _ (Nat.two_pow_pos p), Nat.div_eq_of_lt h,
      Nat.zero_add]
  rw [units, if_neg (by omega), hdiv, Nat.add_comm ((q + 1) * 2 ^ p), Nat.add_mul_mod_self_right,
    Nat.mod_eq_of_lt h, Nat.add_sub_cancel]

/-- A number by its significand; the significand may have come out as the next power of two. -/
lemma units_significand (q : ℕ) {m : ℕ} (h₀ : 2 ^ p ≤ m) (h₁ : m ≤ 2 ^ (p + 1)) :
    units p (q * 2 ^ p + m) = m * 2 ^ q := by
  obtain ⟨r, rfl⟩ := Nat.exists_eq_add_of_le h₀
  rw [Nat.pow_succ] at h₁
  rcases Nat.lt_or_ge r (2 ^ p) with hr | hr
  · have hcode : q * 2 ^ p + (2 ^ p + r) = (q + 1) * 2 ^ p + r := by ring
    rw [hcode, units_normal q hr]
  · obtain rfl : r = 2 ^ p := by omega
    have hcode : q * 2 ^ p + (2 ^ p + 2 ^ p) = (q + 1 + 1) * 2 ^ p + 0 := by ring
    rw [hcode, units_normal (q + 1) (Nat.two_pow_pos p), Nat.pow_succ]
    ring

/-- Every code is a fraction, or an exponent with a fraction. -/
lemma code_cases (p k : ℕ) : k < 2 ^ p ∨ ∃ q r, r < 2 ^ p ∧ k = (q + 1) * 2 ^ p + r := by
  rcases Nat.lt_or_ge k (2 ^ p) with hk | hk
  · exact Or.inl hk
  · have hpos := Nat.two_pow_pos p
    have hq : 1 ≤ k / 2 ^ p := (Nat.one_le_div_iff hpos).mpr hk
    refine Or.inr ⟨k / 2 ^ p - 1, k % 2 ^ p, Nat.mod_lt _ hpos, ?_⟩
    rw [Nat.sub_add_cancel hq]
    exact (Nat.div_add_mod' k (2 ^ p)).symm

/-- **The numbers increase with their codes**. -/
theorem units_strictMono (p : ℕ) : StrictMono (units p) := by
  apply strictMono_nat_of_lt_succ
  intro k
  rcases code_cases p k with hk | ⟨q, r, hr, rfl⟩
  · rw [units_of_lt hk]
    rcases Nat.lt_or_ge (k + 1) (2 ^ p) with hk' | hk'
    · rw [units_of_lt hk']
      exact Nat.lt_succ_self k
    · have hnext := units_significand (p := p) 0 (m := k + 1) hk' (by rw [Nat.pow_succ]; omega)
      rw [Nat.zero_mul, Nat.zero_add, Nat.pow_zero, Nat.mul_one] at hnext
      rw [hnext]
      exact Nat.lt_succ_self k
  · have hcode : (q + 1) * 2 ^ p + r + 1 = q * 2 ^ p + (2 ^ p + r + 1) := by ring
    rw [units_normal q hr, hcode,
      units_significand q (by omega) (by rw [Nat.pow_succ]; omega)]
    exact Nat.mul_lt_mul_of_pos_right (Nat.lt_succ_self _) (Nat.two_pow_pos q)

/-- **Rounding has one result**.

**Proof sketch.** Two results are equally near. If they were different, both would be even, and the
number with the code after the smaller one would lie between them and be nearer. -/
theorem RoundsTo.unique {x k j : ℕ} (hk : RoundsTo p x k) (hj : RoundsTo p x j) : k = j := by
  by_contra hne
  wlog hlt : k < j generalizing k j
  · exact this hj hk (Ne.symm hne) (by omega)
  have hdist : Nat.dist (units p k) x = Nat.dist (units p j) x :=
    Nat.le_antisymm (hk j).1 (hj k).1
  obtain ⟨s, hs⟩ : Even k := ((hk j).2 hdist).resolve_left (Ne.symm hne)
  obtain ⟨t, ht⟩ : Even j := ((hj k).2 hdist.symm).resolve_left hne
  have hlow : units p k < units p (k + 1) := units_strictMono p (Nat.lt_succ_self k)
  have hhigh : units p (k + 1) < units p j := units_strictMono p (by omega)
  have hnearest := (hk (k + 1)).1
  unfold Nat.dist at hdist hnearest
  omega

/-- It is enough to compare with the two neighbours. -/
lemma roundsTo_of_neighbours {x k : ℕ}
    (hlow : ∀ j, j < k → units p j + units p k ≤ 2 * x ∧
      (units p j + units p k = 2 * x → Even k))
    (hhigh : 2 * x ≤ units p k + units p (k + 1) ∧
      (2 * x = units p k + units p (k + 1) → Even k)) : RoundsTo p x k := by
  intro j
  rcases Nat.lt_trichotomy j k with hjk | rfl | hjk
  · have hlt := units_strictMono p hjk
    obtain ⟨hle, heven⟩ := hlow j hjk
    unfold Nat.dist
    exact ⟨by omega, fun h => Or.inr (heven (by omega))⟩
  · exact ⟨le_rfl, fun _ => Or.inl rfl⟩
  · have hlt : units p k < units p (k + 1) := units_strictMono p (Nat.lt_succ_self k)
    have hle : units p (k + 1) ≤ units p j := (units_strictMono p).monotone hjk
    obtain ⟨hhalf, heven⟩ := hhigh
    unfold Nat.dist
    exact ⟨by omega, fun h => Or.inr (heven (by omega))⟩

/-- **A significand rounds** to the code that it is nearest to: `x` is at least the significand `m`
and at most half a step above it, or half a step below it where the step is the same.

**Proof sketch.** The number before has the significand `m - 1`, or lies half a step below if `m` is
a power of two; the number after has the significand `m + 1`, or lies two steps above. -/
theorem roundsTo_significand {x q m : ℕ} (hp : 0 < p) (h₀ : 2 ^ p ≤ m) (h₁ : m ≤ 2 ^ (p + 1))
    (hlow : m * 2 ^ q ≤ x ∨ 2 ^ p < m ∧ (2 * m - 1) * 2 ^ q ≤ 2 * x ∧
      ((2 * m - 1) * 2 ^ q = 2 * x → Even m))
    (hhigh : 2 * x ≤ (2 * m + 1) * 2 ^ q ∧ (2 * x = (2 * m + 1) * 2 ^ q → Even m)) :
    RoundsTo p x (q * 2 ^ p + m) := by
  have hcode : Even m → Even (q * 2 ^ p + m) := by
    intro hm
    exact (Even.mul_left ((Nat.even_pow.mpr ⟨even_two, hp.ne'⟩)) q).add hm
  have hunits := units_significand q h₀ h₁
  apply roundsTo_of_neighbours
  · intro j hj
    have hlt := units_strictMono p hj
    rcases hlow with hlow | ⟨hm, hlow, heven⟩
    · rw [hunits] at hlt ⊢
      exact ⟨by omega, fun h => absurd h (by omega)⟩
    · have hbefore := units_significand (p := p) q (m := m - 1) (by omega) (by omega)
      have hle : units p j ≤ units p (q * 2 ^ p + (m - 1)) :=
        (units_strictMono p).monotone (by omega)
      have hsum : (m - 1) * 2 ^ q + m * 2 ^ q = (2 * m - 1) * 2 ^ q := by
        rw [← Nat.add_mul]
        congr 1
        omega
      rw [hbefore] at hle
      rw [hunits]
      exact ⟨by omega, fun h => hcode (heven (by omega))⟩
  · obtain ⟨hhigh, heven⟩ := hhigh
    have hsum : m * 2 ^ q + (m + 1) * 2 ^ q = (2 * m + 1) * 2 ^ q := by ring
    rw [hunits]
    rcases Nat.lt_or_ge m (2 ^ (p + 1)) with hm | hm
    · have hafter := units_significand (p := p) q (m := m + 1) (by omega) (by omega)
      rw [Nat.add_assoc, hafter, hsum]
      exact ⟨hhigh, fun h => hcode (heven h)⟩
    · obtain rfl : m = 2 ^ (p + 1) := by omega
      have hnext : q * 2 ^ p + 2 ^ (p + 1) + 1 = (q + 1 + 1) * 2 ^ p + 1 := by ring
      have hafter := units_normal (p := p) (q + 1) (Nat.one_lt_two_pow hp.ne')
      have hstep : 2 ^ (p + 1) * 2 ^ q + (2 ^ p + 1) * 2 ^ (q + 1) =
          (2 * 2 ^ (p + 1) + 1) * 2 ^ q + 2 ^ q := by ring
      rw [hnext, hafter, hstep]
      exact ⟨hhigh.trans (Nat.le_add_right _ _),
        fun _ => hcode (Nat.even_pow.mpr ⟨even_two, by omega⟩)⟩

/-- **Rounding a quotient** half to even: `x` has the quotient `q` and the rest `r` when it is
divided by the place value, which is `2 * w`, both counted in `t`. -/
theorem roundsTo_halfEven {e q r w t x : ℕ} (hp : 0 < p) (h₀ : 2 ^ p ≤ q) (h₁ : q < 2 ^ (p + 1))
    (hr : r < 2 * w) (ht : 0 < t) (hplace : 2 ^ e = 2 * w * t) (hx : x = (2 * w * q + r) * t) :
    RoundsTo p x (e * 2 ^ p + if r < w ∨ (r = w ∧ q % 2 = 0) then q else q + 1) := by
  have hx' : 2 * x = (2 * q * w + r) * (2 * t) := by
    rw [hx]
    ring
  have hscale : ∀ c, c * 2 ^ e = c * w * (2 * t) := by
    intro c
    rw [hplace]
    ring
  have ht' : 0 < 2 * t := by omega
  have hodd : (2 * q + 1) * w = 2 * q * w + w := by ring
  split_ifs with hdown
  · apply roundsTo_significand hp h₀ h₁.le
    · left
      have hquot : q * 2 ^ e = 2 * w * q * t := by
        rw [hplace]
        ring
      rw [hquot, hx]
      exact Nat.mul_le_mul_right t (Nat.le_add_right _ _)
    · rw [hx', hscale, hodd, Nat.mul_le_mul_right_iff ht', Nat.mul_right_cancel_iff ht']
      exact ⟨by omega, fun heq => Nat.even_iff.mpr (by omega)⟩
  · have hodd' : (2 * (q + 1) + 1) * w = 2 * q * w + 3 * w := by ring
    have hpred : 2 * (q + 1) - 1 = 2 * q + 1 := by omega
    apply roundsTo_significand hp (by omega) (by omega)
    · right
      rw [hpred, hx', hscale, hodd, Nat.mul_le_mul_right_iff ht', Nat.mul_right_cancel_iff ht']
      exact ⟨by omega, by omega, fun heq => Nat.even_iff.mpr (by omega)⟩
    · rw [hx', hscale, hodd', Nat.mul_le_mul_right_iff ht', Nat.mul_right_cancel_iff ht']
      exact ⟨by omega, fun heq => absurd heq (by omega)⟩

end FloatFormat
