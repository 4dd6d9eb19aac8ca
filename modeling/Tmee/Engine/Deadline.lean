import Mathlib.Order.Bounds.Basic
import Mathlib.Tactic.Linarith
import Mathlib.Tactic.Ring
import Tmee.Engine.Module

set_option relaxedAutoImplicit false
set_option autoImplicit false

/-!
# The timed run loop

`run_deadline` executes one cycle of all enabled modules per slot of `interval` microseconds and
skips slots it can no longer meet. The clock is a sequence of readings, one for every call of
`current_time`; times are unbounded integers (a `long` of microseconds lasts for some 292 000
years) and so is the counter `deadlines_skipped`.

## Main definitions

* `Tmee.skipLoop` — the inner loop that skips slots.
* `Tmee.iteration`, `Tmee.runDeadline` — one pass of the outer loop, and the state after `n`
  passes.

## Main results

* `Tmee.skipLoop_eq` — the inner loop ends at the first slot with enough slack.
* `Tmee.runDeadline_slots` — the slots keep to the grid, no cycle starts before its slot, and
  consecutive cycles are at least `slack` apart.
-/

namespace Tmee

/-- The interval of the run loop; `main` enters the loop only if it is positive. -/
abbrev Interval := { i : ℤ // 0 < i }

/-- The microseconds kept free before a deadline. -/
def slack : ℤ := 10

/-- What the run loop reports as an error. -/
inductive Report
  /-- A module took longer than its own deadline. -/
  | module (configId : String) (deadline overshoot : ℤ)
  /-- The cycle took longer than the interval leaves. -/
  | overall (interval overshoot : ℤ)
  deriving DecidableEq, Repr

/-- The variables of the loop. -/
structure LoopState where
  /-- The number of clock readings made so far. -/
  reads : ℕ
  nextDeadline : ℤ
  deadlinesSkipped : ℕ
  /-- The number of cycles executed so far. -/
  cycles : ℕ
  reports : List Report

section Loop

variable (clock : ℕ → ℤ) (interval : Interval) (modules : List ModuleObject)

/-- Run the enabled modules in list order, reading the clock before and after each; `k` is the
number of readings made before. -/
def runModules : List ModuleObject → ℕ → List Report → ℕ × List Report
  | [], k, reports => (k, reports)
  | m :: ms, k, reports =>
    if m.runEnabled = 0 then runModules ms k reports
    else
      let start := clock k
      let stop := clock (k + 1)
      if stop - start > m.deadline then
        runModules ms (k + 2)
          (reports ++ [.module m.configId m.deadline (stop - start - m.deadline)])
      else runModules ms (k + 2) reports

/-- Skip slots until the spare time is at least `slack`. -/
def skipLoop (nextDeadline spare : ℤ) (skipped : ℕ) : ℤ × ℕ :=
  if spare < slack then skipLoop (nextDeadline + interval) (spare + interval) (skipped + 1)
  else (nextDeadline, skipped)
termination_by (slack - spare).toNat
decreasing_by
  have := interval.2
  omega

/-- One pass of the outer loop. -/
def iteration (s : LoopState) : LoopState :=
  let start := clock s.reads
  if start ≥ s.nextDeadline then
    let nextDeadline := s.nextDeadline + interval
    let ran := runModules clock modules (s.reads + 1) s.reports
    let stop := clock ran.1
    let spare := nextDeadline - (stop + slack)
    if spare < 0 then
      let skip := skipLoop interval nextDeadline spare s.deadlinesSkipped
      { reads := ran.1 + 1
        nextDeadline := skip.1
        deadlinesSkipped := skip.2
        cycles := s.cycles + 1
        reports := ran.2 ++ [.overall interval (0 - spare)] }
    else
      { s with
        reads := ran.1 + 1
        nextDeadline := nextDeadline
        cycles := s.cycles + 1
        reports := ran.2 }
  else { s with reads := s.reads + 1 }

/-- The state of `run_deadline` after `n` passes of the outer loop. -/
def runDeadline : ℕ → LoopState
  | 0 => ⟨1, interval + clock 0, 0, 0, []⟩
  | n + 1 => iteration clock interval modules (runDeadline n)

/-- The pass that starts in `s` executes a cycle. -/
def RunsCycle (s : LoopState) : Prop := s.nextDeadline ≤ clock s.reads

/-- The reading `end_time` of the cycle executed in state `s`. -/
def endTime (s : LoopState) : ℤ := clock (runModules clock modules (s.reads + 1) s.reports).1

/-- **The inner loop ends** at the first slot with enough slack: after some number `k` of rounds
its condition fails for the first time.

**Proof sketch.** Induction along the loop, whose spare time grows in every round. -/
lemma skipLoop_eq (nextDeadline spare : ℤ) (skipped : ℕ) :
    ∃ k : ℕ, skipLoop interval nextDeadline spare skipped =
        (nextDeadline + interval * k, skipped + k) ∧
      slack ≤ spare + interval * k ∧ ∀ j < k, spare + (interval : ℤ) * (j : ℕ) < slack := by
  fun_induction skipLoop interval nextDeadline spare skipped with
  | case1 nextDeadline spare skipped h ih =>
    obtain ⟨k, heq, hslack, hbefore⟩ := ih
    refine ⟨k + 1, ?_, ?_, ?_⟩
    · rw [heq]
      apply Prod.ext
      · push_cast
        ring
      · show skipped + 1 + k = skipped + (k + 1)
        omega
    · push_cast
      linarith
    · intro j hj
      cases j with
      | zero => simpa using h
      | succ j =>
        have := hbefore j (by omega)
        push_cast
        linarith
  | case2 nextDeadline spare skipped h =>
    exact ⟨0, by simp, by simpa using h, by simp⟩

variable {clock}

/-- A pass before the next deadline only reads the clock. -/
lemma iteration_of_not_runsCycle {s : LoopState} (h : ¬ RunsCycle clock s) :
    iteration clock interval modules s = { s with reads := s.reads + 1 } :=
  if_neg h

/-- **What a cycle does to the deadline**: it moves on by one slot and by the `k` slots skipped,
and `k` is what the inner loop makes of the time at which the cycle ended. -/
lemma iteration_of_runsCycle {s : LoopState} (h : RunsCycle clock s) :
    ∃ k : ℕ,
      (iteration clock interval modules s).cycles = s.cycles + 1 ∧
      (iteration clock interval modules s).deadlinesSkipped = s.deadlinesSkipped + k ∧
      (iteration clock interval modules s).nextDeadline =
        s.nextDeadline + interval + interval * k ∧
      (endTime clock modules s + slack ≤ s.nextDeadline + interval → k = 0) ∧
      (s.nextDeadline + interval < endTime clock modules s + slack →
        endTime clock modules s + 2 * slack ≤ s.nextDeadline + interval + interval * k ∧
        ∀ j < k, s.nextDeadline + interval + (interval : ℤ) * (j : ℕ) <
          endTime clock modules s + 2 * slack) := by
  have hstart : clock s.reads ≥ s.nextDeadline := h
  have hstop : clock (runModules clock modules (s.reads + 1) s.reports).1 =
      endTime clock modules s := rfl
  simp only [iteration, if_pos hstart, hstop]
  split_ifs with hspare
  · obtain ⟨k, heq, hslack, hbefore⟩ := skipLoop_eq interval (s.nextDeadline + interval)
      (s.nextDeadline + interval - (endTime clock modules s + slack)) s.deadlinesSkipped
    refine ⟨k, rfl, by rw [heq], by rw [heq], fun hfits => ?_, fun _ => ⟨?_, fun j hj => ?_⟩⟩
    · omega
    · linarith
    · have := hbefore j hj
      linarith
  · exact ⟨0, rfl, rfl, by simp, fun _ => rfl, fun hover => by omega⟩

/-- The next deadline never moves back. -/
lemma nextDeadline_le_iteration (s : LoopState) :
    s.nextDeadline ≤ (iteration clock interval modules s).nextDeadline := by
  by_cases h : RunsCycle clock s
  · obtain ⟨k, -, -, hnext, -⟩ := iteration_of_runsCycle interval modules h
    have hpos := interval.2
    have := mul_nonneg hpos.le (Int.natCast_nonneg k)
    omega
  · rw [iteration_of_not_runsCycle interval modules h]

/-- Along the run the next deadline never moves back. -/
lemma nextDeadline_mono {m n : ℕ} (h : m ≤ n) :
    (runDeadline clock interval modules m).nextDeadline ≤
      (runDeadline clock interval modules n).nextDeadline :=
  monotone_nat_of_le_succ
    (f := fun n => (runDeadline clock interval modules n).nextDeadline)
    (fun n => nextDeadline_le_iteration interval modules (runDeadline clock interval modules n)) h

/-- **The grid**: the next deadline is the first one plus one interval for every cycle executed
and every slot skipped.

**Proof sketch.** Induction on the passes of the outer loop. -/
lemma nextDeadline_eq (n : ℕ) :
    (runDeadline clock interval modules n).nextDeadline =
      clock 0 + interval + interval * ((runDeadline clock interval modules n).cycles +
        (runDeadline clock interval modules n).deadlinesSkipped) := by
  induction n with
  | zero =>
    show interval + clock 0 = clock 0 + interval + interval * ((0 : ℕ) + (0 : ℕ))
    push_cast
    ring
  | succ n ih =>
    rw [runDeadline]
    by_cases h : RunsCycle clock (runDeadline clock interval modules n)
    · obtain ⟨k, hcycles, hskipped, hnext, -⟩ := iteration_of_runsCycle interval modules h
      rw [hnext, hcycles, hskipped, ih]
      push_cast
      ring
    · rw [iteration_of_not_runsCycle interval modules h]
      exact ih

/-- **The deadline after a cycle**: the next slot if it lies at least `slack` after the end of the
cycle, and otherwise the least later slot that lies at least `2 * slack` after it. -/
lemma nextDeadline_after {s : LoopState} (h : RunsCycle clock s) :
    (endTime clock modules s + slack ≤ s.nextDeadline + interval →
      (iteration clock interval modules s).nextDeadline = s.nextDeadline + interval) ∧
    (s.nextDeadline + interval < endTime clock modules s + slack →
      IsLeast {x | (∃ k : ℕ, x = s.nextDeadline + interval + interval * k) ∧
          s.nextDeadline + interval < x ∧ endTime clock modules s + 2 * slack ≤ x}
        (iteration clock interval modules s).nextDeadline) := by
  obtain ⟨k, -, -, hnext, hfits, hover⟩ := iteration_of_runsCycle interval modules h
  have hpos := interval.2
  constructor
  · intro hle
    rw [hnext, hfits hle]
    simp
  · intro hlt
    obtain ⟨hslack, hbefore⟩ := hover hlt
    have hlater : s.nextDeadline + interval < s.nextDeadline + interval + interval * k := by
      unfold slack at *
      omega
    refine ⟨⟨⟨k, hnext⟩, hnext ▸ hlater, hnext ▸ hslack⟩, ?_⟩
    rintro x ⟨⟨j, rfl⟩, -, hx⟩
    rw [hnext]
    have hkj : k ≤ j := by
      by_contra hcon
      have := hbefore j (by omega)
      omega
    have := mul_le_mul_of_nonneg_left (Int.ofNat_le.mpr hkj) hpos.le
    linarith

/-- **The run loop keeps to its slots.** In every state of every run: the next deadline lies on
the grid of the first one, counting cycles and skipped slots; a cycle starts at or after its
slot; the inner loop ends; after a cycle the deadline is the next slot with enough slack; and
between the end of a cycle and the start of a later one there is at least `slack`.

**Proof sketch.** The grid is `nextDeadline_eq`, the deadline after a cycle `nextDeadline_after`.
A later cycle starts at or after the deadline in force then, which is not before the one set by
the earlier cycle. -/
theorem runDeadline_slots (clock : ℕ → ℤ) (interval : Interval) (modules : List ModuleObject) :
    (∀ n, (runDeadline clock interval modules n).nextDeadline =
      clock 0 + interval + interval * ((runDeadline clock interval modules n).cycles +
        (runDeadline clock interval modules n).deadlinesSkipped)) ∧
    (∀ n, (runDeadline clock interval modules (n + 1)).cycles =
        (runDeadline clock interval modules n).cycles + 1 →
      clock 0 + interval + interval * ((runDeadline clock interval modules n).cycles +
        (runDeadline clock interval modules n).deadlinesSkipped) ≤
          clock (runDeadline clock interval modules n).reads) ∧
    (∀ nextDeadline spare skipped, ∃ k : ℕ,
      skipLoop interval nextDeadline spare skipped =
        (nextDeadline + interval * k, skipped + k) ∧
      slack ≤ spare + interval * k ∧ ∀ j < k, spare + (interval : ℤ) * (j : ℕ) < slack) ∧
    (∀ n, RunsCycle clock (runDeadline clock interval modules n) →
      let s := runDeadline clock interval modules n
      let slot := s.nextDeadline + interval
      let stop := endTime clock modules s
      (stop + slack ≤ slot →
        (runDeadline clock interval modules (n + 1)).nextDeadline = slot) ∧
      (slot < stop + slack →
        IsLeast {x | (∃ k : ℕ, x = slot + interval * k) ∧ slot < x ∧ stop + 2 * slack ≤ x}
          (runDeadline clock interval modules (n + 1)).nextDeadline)) ∧
    (∀ m n, m < n → RunsCycle clock (runDeadline clock interval modules m) →
      RunsCycle clock (runDeadline clock interval modules n) →
      endTime clock modules (runDeadline clock interval modules m) + slack ≤
        clock (runDeadline clock interval modules n).reads) := by
  refine ⟨nextDeadline_eq interval modules, fun n hcycle => ?_, skipLoop_eq interval,
    fun n h => nextDeadline_after interval modules h, fun m n hmn hm hn => ?_⟩
  · rw [← nextDeadline_eq]
    by_contra hcon
    rw [runDeadline, iteration_of_not_runsCycle interval modules hcon] at hcycle
    simp at hcycle
  · have hmono : (runDeadline clock interval modules (m + 1)).nextDeadline ≤
        (runDeadline clock interval modules n).nextDeadline :=
      nextDeadline_mono interval modules hmn
    have hstart : (runDeadline clock interval modules n).nextDeadline ≤
        clock (runDeadline clock interval modules n).reads := hn
    obtain ⟨hfits, hover⟩ := nextDeadline_after interval modules hm
    rw [runDeadline] at hmono
    by_cases hle : endTime clock modules (runDeadline clock interval modules m) + slack ≤
        (runDeadline clock interval modules m).nextDeadline + interval
    · rw [hfits hle] at hmono
      omega
    · obtain ⟨⟨-, -, hleast⟩, -⟩ := hover (by omega)
      unfold slack at *
      omega

end Loop

end Tmee
