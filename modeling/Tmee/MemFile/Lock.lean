import Mathlib.Logic.Function.Basic
import Tmee.Lib.Run
import Tmee.MemFile.Writers

set_option relaxedAutoImplicit false
set_option autoImplicit false

/-!
# The semaphore byte under interleaving

Several processes map the same buffer and use `lock_buffer(buffer,1)` and `free_buffer_lock`
around their accesses. Each load and each store of the semaphore byte is one atomic step, so the
test that ends the busy wait and the store that takes the byte are two steps, and another
process may act between them.

## Main definitions

* `Tmee.Place` — where a process is in the two functions.
* `Tmee.lockStep` — one atomic step of one process.
* `Tmee.MutuallyExclusive` — at most one process is between lock and unlock.
* `Tmee.TestsAlone` — nobody tests the byte while another process is about to take it.

## Main results

* `Tmee.lockBuffer_simulated`, `Tmee.freeBufferLock_simulated` — the steps of a process that runs
  alone are the calls of the sequential model.
* `Tmee.mutuallyExclusive_of_testsAlone` — exclusion holds in the runs whose tests are never made
  between the test and the store of another process; one test at such a moment is enough to break
  it.
-/

namespace Tmee

open Run

/-- Where a process is. -/
inductive Place
  /-- Outside `lock_buffer` and `free_buffer_lock`, not holding the buffer. -/
  | idle
  /-- In the busy wait of `lock_buffer`, before the next load. -/
  | testing
  /-- The wait has ended; before the store of `1`. -/
  | setting
  /-- `lock_buffer` has returned `0`; the process works on the buffer. -/
  | inside
  /-- In `free_buffer_lock`, before the load. -/
  | releasing
  /-- The byte was set; before the store of `0`. -/
  | clearing
  deriving DecidableEq, Repr

/-- A process holds the buffer from the store that takes it to the store that gives it back. -/
def Place.holds : Place → Prop
  | inside | releasing | clearing => True
  | idle | testing | setting => False

/-- The semaphore byte, and the place of each process. -/
structure LockState (ι : Type) where
  semaphore : ℤ
  place : ι → Place

section Steps

variable {ι : Type} [DecidableEq ι]

/-- Process `p` goes to the place `x`. -/
def LockState.goto (s : LockState ι) (p : ι) (x : Place) : LockState ι :=
  { s with place := Function.update s.place p x }

/-- One atomic step of process `p`. -/
def lockStep (s : LockState ι) (p : ι) : Except Empty (LockState ι) :=
  match s.place p with
  | .idle => .ok (s.goto p .testing)
  | .testing => .ok (if s.semaphore ≠ 0 then s else s.goto p .setting)
  | .setting => .ok { s.goto p .inside with semaphore := 1 }
  | .inside => .ok (s.goto p .releasing)
  -- `free_buffer_lock` returns `-1` without a store if the byte is clear
  | .releasing => .ok (if s.semaphore = 0 then s.goto p .idle else s.goto p .clearing)
  | .clearing => .ok { s.goto p .idle with semaphore := 0 }

/-- All processes are outside and the semaphore byte is clear. -/
def LockState.start : LockState ι where
  semaphore := 0
  place := fun _ => .idle

/-- At most one process holds the buffer. -/
def MutuallyExclusive (s : LockState ι) : Prop :=
  ∀ p q, (s.place p).holds → (s.place q).holds → p = q

/-- If process `p` is about to test the byte, no process is between its own successful test and
its store. -/
def TestsAlone (s : LockState ι) (p : ι) : Prop :=
  s.place p = .testing → ∀ q, s.place q ≠ .setting

/-- The invariant of the runs in which all tests are made alone: the processes past their test
are at most one, and the byte is set exactly while that one holds the buffer. -/
def LockInv (s : LockState ι) : Prop :=
  (∀ p q, (s.place p = .setting ∨ (s.place p).holds) →
    (s.place q = .setting ∨ (s.place q).holds) → p = q) ∧
  (s.semaphore ≠ 0 ↔ ∃ p, (s.place p).holds)

@[simp] lemma place_goto_self (s : LockState ι) (p : ι) (x : Place) :
    (s.goto p x).place p = x := Function.update_self _ _ _

@[simp] lemma place_goto_of_ne (s : LockState ι) {p q : ι} (x : Place) (h : q ≠ p) :
    (s.goto p x).place q = s.place q := Function.update_of_ne h _ _

@[simp] lemma semaphore_goto (s : LockState ι) (p : ι) (x : Place) :
    (s.goto p x).semaphore = s.semaphore := rfl

omit [DecidableEq ι] in
lemma lockInv_start : LockInv (LockState.start : LockState ι) := by
  refine ⟨fun p q hp => ?_, ?_⟩
  · rcases hp with hp | hp
    · cases hp
    · exact hp.elim
  · simp [LockState.start, Place.holds]

omit [DecidableEq ι] in
/-- A state that leaves `p` the only process past its test, holding the buffer or about to take
it. -/
lemma lockInv_of_unique {s : LockState ι} {p : ι}
    (h : ∀ q, q ≠ p → s.place q ≠ .setting ∧ ¬ (s.place q).holds)
    (hsem : s.semaphore ≠ 0 ↔ (s.place p).holds) : LockInv s := by
  have honly : ∀ q, (s.place q = .setting ∨ (s.place q).holds) → q = p := by
    intro q hq
    by_contra hne
    exact hq.elim (h q hne).1 (h q hne).2
  refine ⟨fun q r hq hr => (honly q hq).trans (honly r hr).symm, hsem.trans ⟨fun hp => ⟨p, hp⟩, ?_⟩⟩
  rintro ⟨q, hq⟩
  exact honly q (Or.inr hq) ▸ hq

omit [DecidableEq ι] in
/-- While process `p` is past its test, no other one is. -/
lemma LockInv.others {s : LockState ι} (h : LockInv s) {p : ι}
    (hp : s.place p = .setting ∨ (s.place p).holds) (q : ι) (hq : q ≠ p) :
    s.place q ≠ .setting ∧ ¬ (s.place q).holds :=
  ⟨fun hs => hq (h.1 q p (Or.inl hs) hp), fun hs => hq (h.1 q p (Or.inr hs) hp)⟩

/-- A process that stays before its test changes nothing for the invariant. -/
lemma LockInv.goto_outside {s : LockState ι} (h : LockInv s) {p : ι} {x : Place}
    (hp : s.place p ≠ .setting ∧ ¬ (s.place p).holds) (hx : x ≠ .setting ∧ ¬ x.holds) :
    LockInv (s.goto p x) := by
  have hset : ∀ q, (s.goto p x).place q = .setting ↔ s.place q = .setting := by
    intro q
    by_cases hq : q = p
    · subst hq
      simp [hp.1, hx.1]
    · simp [hq]
  have hold : ∀ q, ((s.goto p x).place q).holds ↔ (s.place q).holds := by
    intro q
    by_cases hq : q = p
    · subst hq
      simp [hp.2, hx.2]
    · simp [hq]
  refine ⟨fun q r => ?_, ?_⟩
  · rw [hset, hset, hold, hold]
    exact h.1 q r
  · simp only [semaphore_goto, hold]
    exact h.2

/-- **Step lemma**: a step that tests alone keeps the invariant. -/
lemma LockInv.step {s s' : LockState ι} {p : ι} (h : LockInv s) (halone : TestsAlone s p)
    (hstep : lockStep s p = .ok s') : LockInv s' := by
  unfold lockStep at hstep
  cases hp : s.place p with
  | idle =>
    rw [hp] at hstep
    obtain rfl := Except.ok.inj hstep
    exact h.goto_outside (by simp [hp, Place.holds]) (by simp [Place.holds])
  | testing =>
    rw [hp] at hstep
    obtain rfl := Except.ok.inj hstep
    split_ifs with hsem
    · exact h
    · -- the byte is clear, so nobody holds the buffer, and the guard rules out a second taker
      have hnone : ∀ q, ¬ (s.place q).holds := fun q hq => hsem (h.2.mpr ⟨q, hq⟩)
      refine lockInv_of_unique (p := p) (fun q hq => ?_) ?_
      · rw [place_goto_of_ne s _ hq]
        exact ⟨halone hp q, hnone q⟩
      · simpa [Place.holds] using hsem
  | setting =>
    rw [hp] at hstep
    obtain rfl := Except.ok.inj hstep
    refine lockInv_of_unique (p := p) (fun q hq => ?_) ?_
    · simpa [LockState.goto, hq] using h.others (Or.inl hp) q hq
    · simp [LockState.goto, Place.holds]
  | inside =>
    rw [hp] at hstep
    obtain rfl := Except.ok.inj hstep
    have hold : (s.place p).holds := by rw [hp]; trivial
    refine lockInv_of_unique (p := p) (fun q hq => ?_) ?_
    · simpa [hq] using h.others (Or.inr hold) q hq
    · simpa [Place.holds] using h.2.mpr ⟨p, hold⟩
  | releasing =>
    rw [hp] at hstep
    have hold : (s.place p).holds := by rw [hp]; trivial
    have hsem : s.semaphore ≠ 0 := h.2.mpr ⟨p, hold⟩
    simp only [if_neg hsem] at hstep
    obtain rfl := Except.ok.inj hstep
    refine lockInv_of_unique (p := p) (fun q hq => ?_) ?_
    · simpa [hq] using h.others (Or.inr hold) q hq
    · simpa [Place.holds] using hsem
  | clearing =>
    rw [hp] at hstep
    obtain rfl := Except.ok.inj hstep
    have hold : (s.place p).holds := by rw [hp]; trivial
    refine lockInv_of_unique (p := p) (fun q hq => ?_) ?_
    · simpa [LockState.goto, hq] using h.others (Or.inr hold) q hq
    · simp [LockState.goto, Place.holds]

/-- A run whose tests are all made alone ends in a state of the invariant. -/
lemma lockInv_of_testsAlone {ps : List ι} {s : LockState ι}
    (h : exec lockStep .start ps = .ok s)
    (halone : ∀ t p t', Performs lockStep .start ps t p t' → TestsAlone t p) : LockInv s :=
  exec_invariant_of_guarded (fun _ _ _ hinv hg hs => hinv.step hg hs) lockInv_start halone h

/-! ## The sequential calls are runs of one process -/

/-- A process alone in `lock_buffer` does in two steps to the byte what the sequential call does,
and spins where that one is blocked. -/
theorem lockBuffer_simulated {b : Buffer} {s : LockState ι} {p : ι} (hlen : 16 ≤ b.length)
    (hp : s.place p = .testing) (hsem : s.semaphore = b.lock) :
    (∀ r b', lockBuffer 1 b = .ok (r, b') → ∃ s', exec lockStep s [p, p] = .ok s' ∧
      s'.place p = .inside ∧ s'.semaphore = b'.lock) ∧
    (lockBuffer 1 b = .error .blocked → lockStep s p = .ok s) := by
  have hload : load 1 semaphorePos b = .ok (b.lock, b) :=
    load_eq_ok (by unfold semaphorePos; omega)
  by_cases hfree : b.lock = 0
  · rw [lockBuffer_eq (semaphorePos_lt hlen) hfree]
    refine ⟨fun r b' hcall => ?_, fun hcall => (by cases hcall)⟩
    obtain rfl : b.put 1 semaphorePos 1 = b' := congrArg Prod.snd (Except.ok.inj hcall)
    refine ⟨{ (s.goto p .setting).goto p .inside with semaphore := 1 }, ?_, ?_, ?_⟩
    · simp [exec, lockStep, hp, hsem, hfree]
    · simp [LockState.goto]
    · exact (lock_put_one (semaphorePos_lt hlen)).symm
  · have hblocked : lockBuffer 1 b = .error .blocked := by
      unfold lockBuffer
      rw [bufM_bind_ok hload, if_neg one_ne_zero, if_pos hfree]
      rfl
    rw [hblocked]
    refine ⟨fun r b' hcall => (by cases hcall), fun _ => ?_⟩
    simp [lockStep, hp, hsem, hfree]

/-- A process alone in `free_buffer_lock` does to the byte what the sequential call does. -/
theorem freeBufferLock_simulated {b b' : Buffer} {s : LockState ι} {p : ι} {r : ℤ}
    (hlen : 16 ≤ b.length) (hp : s.place p = .releasing) (hsem : s.semaphore = b.lock)
    (hcall : freeBufferLock b = .ok (r, b')) :
    ∃ ps s', exec lockStep s ps = .ok s' ∧ (∀ q ∈ ps, q = p) ∧ s'.place p = .idle ∧
      s'.semaphore = b'.lock := by
  have hlen' : semaphorePos + 1 ≤ b.length := by unfold semaphorePos; omega
  unfold freeBufferLock at hcall
  rw [bufM_bind_ok (load_eq_ok hlen')] at hcall
  by_cases hfree : b.lock = 0
  · rw [if_pos hfree] at hcall
    obtain rfl : b = b' := congrArg Prod.snd (Except.ok.inj hcall)
    refine ⟨[p], s.goto p .idle, ?_, by simp, by simp, hsem⟩
    simp [exec, lockStep, hp, hsem, hfree]
  · rw [if_neg hfree, bufM_bind_ok (store_eq_ok hlen')] at hcall
    obtain rfl : b.put 1 semaphorePos 0 = b' := congrArg Prod.snd (Except.ok.inj hcall)
    refine ⟨[p, p], { (s.goto p .clearing).goto p .idle with semaphore := 0 }, ?_, by simp, ?_, ?_⟩
    · simp [exec, lockStep, hp, hsem, hfree]
    · simp [LockState.goto]
    · exact (Buffer.get_put_self 0 hlen').symm

/-! ## Mutual exclusion -/

/-- **When the lock excludes.** In every state of every run whose tests are all made alone at most
one process holds the buffer. And the condition is no stronger than that: after such a run, one
test made while another process is about to take the byte, and the two stores that follow, put
both processes between lock and unlock.

**Proof sketch.** The first part is the invariant `LockInv`. For the second part, a process
that is about to take the byte is the only one past its test, so the byte is clear and the other
test succeeds too. -/
theorem mutuallyExclusive_of_testsAlone (ps : List ι) (s : LockState ι)
    (h : exec lockStep .start ps = .ok s)
    (halone : ∀ t p t', Performs lockStep .start ps t p t' → TestsAlone t p) :
    MutuallyExclusive s ∧
      ∀ p q, s.place p = .setting → s.place q = .testing →
        ∃ s', exec lockStep s [q, p, q] = .ok s' ∧ s'.place p = .inside ∧
          s'.place q = .inside ∧ ¬ MutuallyExclusive s' := by
  have hinv := lockInv_of_testsAlone h halone
  refine ⟨fun p q hp hq => hinv.1 p q (Or.inr hp) (Or.inr hq), fun p q hp hq => ?_⟩
  have hne : q ≠ p := by
    rintro rfl
    rw [hp] at hq
    cases hq
  have hsem : s.semaphore = 0 := by
    by_contra hset
    obtain ⟨r, hr⟩ := hinv.2.mp hset
    obtain rfl := hinv.1 r p (Or.inr hr) (Or.inl hp)
    rw [hp] at hr
    exact hr
  refine ⟨{ ({ (s.goto q .setting).goto p .inside with
    semaphore := 1 } : LockState ι).goto q .inside with semaphore := 1 }, ?_, ?_, ?_, ?_⟩
  · simp [exec, lockStep, hp, hq, hsem, hne, hne.symm, LockState.goto]
  · simp [LockState.goto, hne.symm]
  · simp [LockState.goto]
  · intro hex
    refine hne (hex q p ?_ ?_) <;> simp [LockState.goto, hne.symm, Place.holds]

end Steps

/-- Two processes that take turns: the second one waits while the first is inside, and gets in when
the first has left. -/
theorem mutuallyExclusive_turns :
    ∃ s : LockState Bool, exec lockStep .start
        [false, false, false, true, true, false, false, false, true, true] = .ok s ∧
      s.place false = .idle ∧ s.place true = .inside ∧ MutuallyExclusive s := by
  refine ⟨_, rfl, rfl, rfl, (mutuallyExclusive_of_testsAlone
    [false, false, false, true, true, false, false, false, true, true] _ rfl ?_).1⟩
  -- `false` goes in
  refine forall_performs_cons rfl (by unfold TestsAlone; decide) ?_
  refine forall_performs_cons rfl (by unfold TestsAlone; decide) ?_
  refine forall_performs_cons rfl (by unfold TestsAlone; decide) ?_
  -- `true` finds the byte set
  refine forall_performs_cons rfl (by unfold TestsAlone; decide) ?_
  refine forall_performs_cons rfl (by unfold TestsAlone; decide) ?_
  -- `false` goes out
  refine forall_performs_cons rfl (by unfold TestsAlone; decide) ?_
  refine forall_performs_cons rfl (by unfold TestsAlone; decide) ?_
  refine forall_performs_cons rfl (by unfold TestsAlone; decide) ?_
  -- `true` goes in
  refine forall_performs_cons rfl (by unfold TestsAlone; decide) ?_
  refine forall_performs_cons rfl (by unfold TestsAlone; decide) ?_
  exact forall_performs_nil

/-- Two processes that both test before either takes the byte are both let in. -/
theorem not_mutuallyExclusive_race :
    ∃ s : LockState Bool, exec lockStep .start [false, true, false, true, false, true] = .ok s ∧
      s.place false = .inside ∧ s.place true = .inside ∧ ¬ MutuallyExclusive s := by
  refine ⟨_, rfl, rfl, rfl, fun hex => ?_⟩
  have heq := hex false true trivial trivial
  cases heq

end Tmee
