import Mathlib.Data.Int.ModEq
import Mathlib.Algebra.Order.Group.Unbundled.Abs
import Mathlib.Data.List.Induction

set_option relaxedAutoImplicit false
set_option autoImplicit false

/-!
# Rings of numbered entries

A producer writes entries one after the other into a ring of `n` slots; number the entries by
consecutive integers, so that entry `k` goes to slot `k % n`. The ring then shows of every
slot the newest entry that went there. A consumer that only remembers a slot works modulo
`n`; the lemmas here say which entry it really gets.

## Main definitions

* `NumberedRing.latest` — the newest number up to `hi` that goes to slot `s`.
* `NumberedRing.Holds` — the slots hold the newest entries of a numbered sequence.
* `NumberedRing.consume` — one poll of a consumer that advances by one slot, and jumps to the
  newest entry when it lags by more than `maxLag` slots.
* `NumberedRing.Feed` — a producer and a consumer taking steps in any order.

## Main results

* `NumberedRing.Holds.push` — writing the next entry into the next slot keeps `Holds`.
* `NumberedRing.consume_gt` — a poll that gets an entry gets a newer one than the last poll.
* `NumberedRing.consume_skip` — a poll skips entries only by a jump or when the producer is
  more than a whole ring ahead.
-/

namespace NumberedRing

variable {n hi : ℤ}

/-- The newest number up to `hi` that goes to slot `s` of a ring of `n` slots. -/
def latest (n hi s : ℤ) : ℤ := hi - (hi - s) % n

/-- The newest number is not above `hi`. -/
lemma latest_le (hn : 0 < n) (hi s : ℤ) : latest n hi s ≤ hi := by
  have := Int.emod_nonneg (hi - s) hn.ne'
  unfold latest
  omega

/-- The newest number is one of the last `n`. -/
lemma lt_latest (hn : 0 < n) (hi s : ℤ) : hi - n < latest n hi s := by
  have := Int.emod_lt_of_pos (hi - s) hn
  unfold latest
  omega

/-- The newest number for slot `s` goes to slot `s`. -/
lemma latest_emod (n hi s : ℤ) : latest n hi s % n = s % n := by
  unfold latest
  rw [Int.sub_emod_emod, show hi - (hi - s) = s by omega]

/-- Two numbers of one slot that are less than a ring apart are equal. -/
lemma eq_of_emod_eq {a b : ℤ} (h : a % n = b % n) (h₁ : a - b < n) (h₂ : b - a < n) :
    a = b := by
  have hdvd : n ∣ a - b := Int.dvd_of_emod_eq_zero (Int.emod_eq_emod_iff_emod_sub_eq_zero.mp h)
  have := Int.eq_zero_of_abs_lt_dvd hdvd (abs_lt.mpr ⟨by omega, h₁⟩)
  omega

/-- A number among the last `n` is the newest one of its slot. -/
lemma latest_eq_of_mem {k s : ℤ} (hn : 0 < n) (hs : k % n = s % n) (h₁ : hi - n < k)
    (h₂ : k ≤ hi) : latest n hi s = k := by
  have h₃ := latest_le hn hi s
  have h₄ := lt_latest hn hi s
  exact eq_of_emod_eq ((latest_emod n hi s).trans hs.symm) (by omega) (by omega)

/-- Only the slot of the next number changes its newest number. -/
lemma latest_succ_of_ne {s : ℤ} (hn : 0 < n) (hs : s % n ≠ (hi + 1) % n) :
    latest n (hi + 1) s = latest n hi s := by
  have h₁ := latest_le hn hi s
  have h₂ := lt_latest hn hi s
  have hmod := latest_emod n hi s
  have hne : latest n hi s ≠ hi + 1 - n := by
    intro h
    rw [h, Int.sub_emod_right] at hmod
    exact hs hmod.symm
  exact latest_eq_of_mem hn hmod (by omega) (by omega)

/-- The slot of the next number gets the next number. -/
lemma latest_succ_of_eq {s : ℤ} (hn : 0 < n) (hs : s % n = (hi + 1) % n) :
    latest n (hi + 1) s = hi + 1 :=
  latest_eq_of_mem hn hs.symm (by omega) le_rfl

/-- The distance between two slots, going round the ring once if need be. -/
lemma sub_emod_eq (hn : 0 < n) (a b : ℤ) :
    (a - b) % n = if a % n - b % n < 0 then a % n - b % n + n else a % n - b % n := by
  have ha₀ := Int.emod_nonneg a hn.ne'
  have ha₁ := Int.emod_lt_of_pos a hn
  have hb₀ := Int.emod_nonneg b hn.ne'
  have hb₁ := Int.emod_lt_of_pos b hn
  rw [Int.sub_emod]
  split_ifs with hneg
  · have hwrap : (a % n - b % n) % n = (a % n - b % n + n) % n := (Int.add_emod_right _ _).symm
    rw [hwrap]
    exact Int.emod_eq_of_lt (by omega) (by omega)
  · exact Int.emod_eq_of_lt (by omega) (by omega)

/-! ## The producer -/

section Producer

variable {α : Type*} {f : ℤ → α} {slot slot' : ℤ → α}

/-- The ring `slot` of `n` slots holds the newest of the entries `f k`, `k ≤ hi`. -/
def Holds (n : ℤ) (f : ℤ → α) (hi : ℤ) (slot : ℤ → α) : Prop :=
  ∀ s, 0 ≤ s → s < n → slot s = f (latest n hi s)

/-- Every ring holds the sequence that lists its slots by their newest numbers. -/
lemma holds_self (slot : ℤ → α) (hi : ℤ) : Holds n (fun k => slot (k % n)) hi slot := by
  intro s h₀ h₁
  simp only [latest_emod, Int.emod_eq_of_lt h₀ h₁]

/-- **A write keeps the ring**: after entry `hi + 1` has gone to its slot and no other slot has
changed, the ring holds the newest entries up to `hi + 1`. -/
theorem Holds.push (hn : 0 < n) (h : Holds n f hi slot) (hnew : slot' ((hi + 1) % n) = f (hi + 1))
    (hold : ∀ s, 0 ≤ s → s < n → s ≠ (hi + 1) % n → slot' s = slot s) :
    Holds n f (hi + 1) slot' := by
  intro s h₀ h₁
  have hs : s % n = s := Int.emod_eq_of_lt h₀ h₁
  by_cases heq : s = (hi + 1) % n
  · rw [latest_succ_of_eq hn (hs.trans heq), heq, hnew]
  · rw [latest_succ_of_ne hn (by rwa [hs]), hold s h₀ h₁ heq, h s h₀ h₁]

/-- What a ring holds depends only on the entries that are still in it. -/
lemma Holds.congr {g : ℤ → α} (hn : 0 < n) (h : Holds n f hi slot)
    (hfg : ∀ k, hi - n < k → k ≤ hi → f k = g k) : Holds n g hi slot := by
  intro s h₀ h₁
  rw [h s h₀ h₁, hfg _ (lt_latest hn hi s) (latest_le hn hi s)]

/-- Entry `k`, while it is among the last `n`, is found in its slot. -/
lemma Holds.slot_eq (hn : 0 < n) (h : Holds n f hi slot) {k : ℤ} (h₁ : hi - n < k)
    (h₂ : k ≤ hi) : slot (k % n) = f k := by
  rw [h _ (Int.emod_nonneg k hn.ne') (Int.emod_lt_of_pos k hn),
    latest_eq_of_mem hn (Int.emod_emod_of_dvd k dvd_rfl).symm h₁ h₂]

end Producer

/-! ## The consumer -/

/-- One poll of a consumer whose last entry had number `last`, when the newest entry has number
`hi`: nothing if the two share a slot, the newest entry if the slots lie more than `maxLag`
apart, and otherwise what the next slot holds. -/
def consume (n maxLag hi last : ℤ) : Option ℤ :=
  if last % n = hi % n then none
  else if maxLag < (hi - last) % n then some hi
  else some (latest n hi (last + 1))

variable {maxLag last k : ℤ}

/-- An entry that shares no slot with the newest one is older. -/
lemma lt_of_emod_ne (hle : last ≤ hi) (h : last % n ≠ hi % n) : last < hi :=
  lt_of_le_of_ne hle fun he => h (he ▸ rfl)

/-- **Polls move forward**: a poll that gets an entry gets one that is newer than the last. -/
theorem consume_gt (hn : 0 < n) (hle : last ≤ hi) (h : consume n maxLag hi last = some k) :
    last < k ∧ k ≤ hi := by
  unfold consume at h
  split_ifs at h with hslot hlag
  · obtain rfl := Option.some.inj h
    exact ⟨lt_of_emod_ne hle hslot, le_rfl⟩
  · obtain rfl := Option.some.inj h
    have hlt : last < hi := lt_of_emod_ne hle hslot
    refine ⟨?_, latest_le hn hi _⟩
    -- the entry found in the next slot is `last + 1` itself unless that one is overwritten
    by_cases hover : hi - n < last + 1
    · rw [latest_eq_of_mem hn rfl hover (by omega)]
      omega
    · have := lt_latest hn hi (last + 1)
      omega

/-- A poll gets one of the last `n` entries. -/
lemma lt_of_consume (hn : 0 < n) (h : consume n maxLag hi last = some k) : hi - n < k := by
  unfold consume at h
  split_ifs at h with hslot hlag
  · obtain rfl := Option.some.inj h
    omega
  · obtain rfl := Option.some.inj h
    exact lt_latest hn hi _

/-- **When entries are skipped**: a poll leaves out an entry only if it jumps to the newest one
or the producer is more than a whole ring ahead of the consumer. -/
theorem consume_skip (hn : 0 < n) (hle : last ≤ hi) (h : consume n maxLag hi last = some k)
    (hskip : k ≠ last + 1) : maxLag < (hi - last) % n ∨ n < hi - last := by
  unfold consume at h
  split_ifs at h with hslot hlag
  · exact Or.inl hlag
  · obtain rfl := Option.some.inj h
    have hlt : last < hi := lt_of_emod_ne hle hslot
    have hne : hi - last ≠ n := by
      rintro rfl
      exact hslot (by rw [Int.emod_eq_emod_iff_emod_sub_eq_zero, ← Int.neg_sub, Int.neg_emod_self])
    by_contra hcon
    exact hskip (latest_eq_of_mem hn rfl (by omega) (by omega))

/-- The slot after a poll is the slot of the entry it got. -/
lemma consume_emod (h : consume n maxLag hi last = some k) :
    k % n = if maxLag < (hi - last) % n then hi % n else (last + 1) % n := by
  unfold consume at h
  split_ifs at h with hslot hlag
  · rw [if_pos hlag, Option.some.inj h]
  · rw [if_neg hlag, ← Option.some.inj h, latest_emod]

/-! ## Both sides -/

/-- What happens to a ring and its consumer. -/
inductive Action
  | write | poll | other
  deriving DecidableEq, Repr

/-- The numbers of the newest entry and of the entry that the consumer got last. -/
structure Feed where
  newest : ℤ
  last : ℤ
  deriving DecidableEq, Repr

namespace Feed

/-- One step of producer or consumer. -/
def step (n maxLag : ℤ) (s : Feed) : Action → Feed
  | .write => { s with newest := s.newest + 1 }
  | .poll => { s with last := (consume n maxLag s.newest s.last).getD s.last }
  | .other => s

/-- The state after a sequence of steps. -/
def run (n maxLag : ℤ) (s : Feed) (as : List Action) : Feed := as.foldl (step n maxLag) s

lemma run_concat (n maxLag : ℤ) (s : Feed) (as : List Action) (a : Action) :
    run n maxLag s (as ++ [a]) = (run n maxLag s as).step n maxLag a := by
  rw [run, List.foldl_append]
  rfl

/-- The newest number counts the writes. -/
lemma run_newest (n maxLag : ℤ) (s : Feed) (as : List Action) :
    (run n maxLag s as).newest = s.newest + as.count .write := by
  induction as using List.reverseRecOn with
  | nil => simp [run]
  | append_singleton as a ih =>
    rw [run_concat, List.count_append]
    cases a with
    | write =>
      show (run n maxLag s as).newest + 1 = _
      rw [ih]
      simp
      omega
    | poll =>
      show (run n maxLag s as).newest = _
      simp [ih]
    | other =>
      show (run n maxLag s as).newest = _
      simp [ih]

end Feed

end NumberedRing
