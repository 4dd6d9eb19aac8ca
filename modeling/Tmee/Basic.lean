import Mathlib.Algebra.Order.Ring.Int

set_option relaxedAutoImplicit false
set_option autoImplicit false

/-!
# Faults and machine integers

The C code is modelled by functions that either return or stop with a `Fault`: an access, an
arithmetic operation or a wait that the C program does not survive in a defined way. The
arithmetic of `int` is done in `ℤ`; an operation whose result leaves the 32-bit range is a
fault, and where the code relies on wrap-around `wrap32` says so.

## Main definitions

* `Tmee.Fault` — the ways in which a call can fail to return.
* `Tmee.cInt`, `Tmee.cRem` — the value of an `int` expression, and `%` on `int`.
* `Tmee.wrap32`, `Tmee.u32` — 32-bit wrap-around, signed and unsigned.
-/

namespace Tmee

/-- What keeps a call of the C code from returning in a defined way. -/
inductive Fault
  /-- An access outside the mapped bytes or outside an array. -/
  | outOfBounds
  /-- Signed overflow of an `int` expression. -/
  | overflow
  /-- A remainder by zero. -/
  | divideByZero
  /-- A busy wait for a byte that nobody else changes. -/
  | blocked
  /-- A call through a null or unset pointer. -/
  | nullPointer
  /-- A read of a field that was never assigned. -/
  | uninitialised
  deriving DecidableEq, Repr

/-- The value of an `int` expression; leaving the 32-bit range is undefined. -/
def cInt (x : ℤ) : Except Fault ℤ :=
  if -2 ^ 31 ≤ x ∧ x < 2 ^ 31 then .ok x else .error .overflow

/-- `a % b` on `int`: the remainder truncates towards zero. -/
def cRem (a b : ℤ) : Except Fault ℤ :=
  if b = 0 then .error .divideByZero else cInt (a.tmod b)

/-- The `int` with the low 32 bits of `x`. -/
def wrap32 (x : ℤ) : ℤ := x.bmod (2 ^ 32)

/-- The `uint32_t` with the low 32 bits of `x`. -/
def u32 (x : ℤ) : ℤ := x % 2 ^ 32

/-- An `int` expression in range has its value. -/
lemma cInt_eq_ok {x : ℤ} (h₁ : -2 ^ 31 ≤ x) (h₂ : x < 2 ^ 31) : cInt x = .ok x :=
  if_pos ⟨h₁, h₂⟩

lemma cInt_eq_ok_iff {x y : ℤ} : cInt x = .ok y ↔ (-2 ^ 31 ≤ x ∧ x < 2 ^ 31) ∧ y = x := by
  rw [cInt]
  split_ifs with h
  · rw [Except.ok.injEq, eq_comm]
    exact (and_iff_right h).symm
  · exact iff_of_false nofun fun h' => h h'.1

/-- A remainder is at most what is divided. -/
lemma emod_le_self {x n : ℤ} (hx : 0 ≤ x) (hn : 0 < n) : x % n ≤ x := by
  rcases lt_or_ge x n with hlt | hge
  · rw [Int.emod_eq_of_lt hx hlt]
  · exact (Int.emod_lt_of_pos _ hn).le.trans hge

/-- On a non-negative `int` and a positive divisor `%` is the mathematical remainder. -/
lemma cRem_eq_ok {a b : ℤ} (ha : 0 ≤ a) (hb : 0 < b) (hb' : b < 2 ^ 31) :
    cRem a b = .ok (a % b) := by
  have h₁ := Int.emod_nonneg a hb.ne'
  have h₂ := Int.emod_lt_of_pos a hb
  rw [cRem, if_neg hb.ne', Int.tmod_eq_emod_of_nonneg ha]
  exact cInt_eq_ok (by omega) (by omega)

end Tmee
