import Mathlib.Data.List.Infix

set_option relaxedAutoImplicit false
set_option autoImplicit false

/-!
# Runs of a fallible step function

A system is given by a step function `step : σ → ι → Except ε σ`: the inputs `ι` carry
everything the system does not decide itself (calls, messages, clock readings, schedules),
and a failed step ends the run. This file fixes what a run over a list of inputs is, which
steps it performs, and the two induction rules used on such systems.

## Main definitions

* `Run.exec` — the state after a list of inputs.
* `Run.Performs` — the steps a run performs: input `i` taking state `t` to state `t'`.
* `Run.PerformsAt` — the same with the inputs before that step.
* `Run.watch` — the system with an observer who takes notes.
* `Run.Lockstep` — a second system that takes the same steps on a part of the state.

## Main results

* `Run.exec_append` — runs compose.
* `Run.exec_invariant` — what every step preserves, every run preserves.
* `Run.exec_invariant_of_guarded` — the same when only the steps that meet a guard preserve
  it and all performed steps meet the guard.
* `Run.exec_of_watch`, `Run.exists_watch` — an observer does not disturb.
* `Run.Lockstep.performs`, `Run.Lockstep.performs_of` — systems in lockstep perform the same steps.
* `Run.Lockstep.exec`, `Run.Lockstep.exists_exec` — and have the same runs.
-/

namespace Run

variable {σ ι ε : Type*} {step : σ → ι → Except ε σ}

/-- The state after the inputs `is`, or the error of the first step that fails. -/
def exec (step : σ → ι → Except ε σ) : σ → List ι → Except ε σ
  | s, [] => .ok s
  | s, i :: is =>
    match step s i with
    | .ok s' => exec step s' is
    | .error e => .error e

/-- `Performs step s is t i t'`: the run of `is` from `s` at some point takes `t` to `t'` by
the input `i`. -/
def Performs (step : σ → ι → Except ε σ) (s : σ) (is : List ι) (t : σ) (i : ι) (t' : σ) :
    Prop :=
  ∃ pre, pre ++ [i] <+: is ∧ exec step s pre = .ok t ∧ step t i = .ok t'

/-- `PerformsAt step s is pre t i t'`: after the inputs `pre` the run of `is` from `s` takes `t`
to `t'` by the input `i`. -/
def PerformsAt (step : σ → ι → Except ε σ) (s : σ) (is pre : List ι) (t : σ) (i : ι) (t' : σ) :
    Prop :=
  pre ++ [i] <+: is ∧ exec step s pre = .ok t ∧ step t i = .ok t'

/-- The empty run stays where it is. -/
@[simp] lemma exec_nil (s : σ) : exec step s [] = .ok s := rfl

/-- A successful run over `i :: is` is a successful step followed by a successful run. -/
lemma exec_cons_eq_ok {s t : σ} {i : ι} {is : List ι} :
    exec step s (i :: is) = .ok t ↔ ∃ s', step s i = .ok s' ∧ exec step s' is = .ok t := by
  cases h : step s i with
  | ok s' => simp [exec, h]
  | error e => simp [exec, h]

/-- A run can be made if its first step can, and the others after it. -/
lemma exists_exec_cons {s : σ} {i : ι} {is : List ι} :
    (∃ t, exec step s (i :: is) = .ok t) ↔
      ∃ s', step s i = .ok s' ∧ ∃ t, exec step s' is = .ok t := by
  simp only [exec_cons_eq_ok]
  constructor
  · rintro ⟨t, s', hstep, hexec⟩
    exact ⟨s', hstep, t, hexec⟩
  · rintro ⟨s', hstep, t, hexec⟩
    exact ⟨t, s', hstep, hexec⟩

/-- Runs compose. -/
lemma exec_append (s : σ) (is js : List ι) :
    exec step s (is ++ js) = (exec step s is).bind fun t => exec step t js := by
  induction is generalizing s with
  | nil => rfl
  | cons i is ih =>
    rw [List.cons_append, exec, exec]
    cases step s i with
    | ok s' => exact ih s'
    | error e => rfl

/-- A composed run succeeds if both parts do. -/
lemma exec_append_eq_ok {s t : σ} {is js : List ι} :
    exec step s (is ++ js) = .ok t ↔
      ∃ s', exec step s is = .ok s' ∧ exec step s' js = .ok t := by
  rw [exec_append]
  cases exec step s is with
  | ok s' => simp [Except.bind]
  | error e => simp [Except.bind]

/-- A run extended by one input. -/
lemma exec_concat_eq_ok {s t : σ} {is : List ι} {i : ι} :
    exec step s (is ++ [i]) = .ok t ↔ ∃ s', exec step s is = .ok s' ∧ step s' i = .ok t := by
  simp only [exec_append_eq_ok, exec_cons_eq_ok, exec_nil, Except.ok.injEq, exists_eq_right]

/-- A run that performs its first input performs what the rest of the run performs. -/
lemma Performs.cons {s s' t t' : σ} {i j : ι} {is : List ι} (hs : step s j = .ok s')
    (h : Performs step s' is t i t') : Performs step s (j :: is) t i t' := by
  obtain ⟨pre, hpre, ht, hstep⟩ := h
  exact ⟨j :: pre, by simpa using hpre, exec_cons_eq_ok.mpr ⟨s', hs, ht⟩, hstep⟩

/-- The first step of a run is performed by it. -/
lemma performs_head {s s' : σ} {i : ι} {is : List ι} (hs : step s i = .ok s') :
    Performs step s (i :: is) s i s' :=
  ⟨[], by simp, rfl, hs⟩

/-- The empty run performs no step. -/
lemma not_performs_nil {s t t' : σ} {i : ι} : ¬ Performs step s [] t i t' := by
  rintro ⟨pre, hpre, -⟩
  simp at hpre

/-- The steps of a run that starts with a successful step are that step and the steps of
the rest. -/
lemma performs_cons_iff {s s' t t' : σ} {i j : ι} {is : List ι} (hs : step s j = .ok s') :
    Performs step s (j :: is) t i t' ↔
      (t = s ∧ i = j ∧ t' = s') ∨ Performs step s' is t i t' := by
  constructor
  · rintro ⟨pre, hpre, ht, hstep⟩
    cases pre with
    | nil =>
      obtain rfl : i = j := by simpa using hpre
      obtain rfl : s = t := by simpa using ht
      rw [hs] at hstep
      exact Or.inl ⟨rfl, rfl, (Except.ok.inj hstep).symm⟩
    | cons k pre =>
      obtain ⟨rfl, hpre'⟩ : k = j ∧ pre ++ [i] <+: is := by simpa using hpre
      obtain ⟨s₁, h₁, h₂⟩ := exec_cons_eq_ok.mp ht
      rw [hs] at h₁
      obtain rfl := Except.ok.inj h₁
      exact Or.inr ⟨pre, hpre', h₂, hstep⟩
  · rintro (⟨rfl, rfl, rfl⟩ | h)
    · exact performs_head hs
    · exact h.cons hs

/-- What holds of the first step and of all steps of the rest holds of all steps of a run. -/
lemma forall_performs_cons {P : σ → ι → Prop} {s s' : σ} {i : ι} {is : List ι}
    (hs : step s i = .ok s') (hi : P s i)
    (hrest : ∀ t j t', Performs step s' is t j t' → P t j) :
    ∀ t j t', Performs step s (i :: is) t j t' → P t j := by
  intro t j t' h
  rcases (performs_cons_iff hs).mp h with ⟨rfl, rfl, -⟩ | h
  · exact hi
  · exact hrest t j t' h

lemma forall_performs_nil {P : σ → ι → Prop} {s : σ} :
    ∀ t j t', Performs step s [] t j t' → P t j :=
  fun _ _ _ h => absurd h not_performs_nil

/-- **Invariants hold at the end of every run**: what holds at the start and is preserved by
every step holds after every run. -/
theorem exec_invariant {Inv : σ → Prop}
    (hstep : ∀ s i s', Inv s → step s i = .ok s' → Inv s') {s t : σ} {is : List ι}
    (h₀ : Inv s) (h : exec step s is = .ok t) : Inv t := by
  induction is generalizing s with
  | nil =>
    obtain rfl : s = t := by simpa using h
    exact h₀
  | cons i is ih =>
    obtain ⟨s', h₁, h₂⟩ := exec_cons_eq_ok.mp h
    exact ih (hstep s i s' h₀ h₁) h₂

/-- **Invariants under a guard**: if every performed step meets `Guard` and the steps that
meet it preserve `Inv`, then `Inv` holds after the run.

**Proof sketch.** Induction on the inputs; the steps of the rest of the run are steps of the
whole run. -/
theorem exec_invariant_of_guarded {Inv : σ → Prop} {Guard : σ → ι → Prop}
    (hstep : ∀ s i s', Inv s → Guard s i → step s i = .ok s' → Inv s') {s t : σ} {is : List ι}
    (h₀ : Inv s) (hg : ∀ u i u', Performs step s is u i u' → Guard u i)
    (h : exec step s is = .ok t) : Inv t := by
  induction is generalizing s with
  | nil =>
    obtain rfl : s = t := by simpa using h
    exact h₀
  | cons i is ih =>
    obtain ⟨s', h₁, h₂⟩ := exec_cons_eq_ok.mp h
    have hinv : Inv s' := hstep s i s' h₀ (hg s i s' (performs_head h₁)) h₁
    exact ih hinv (fun u j u' hp => hg u j u' (hp.cons h₁)) h₂

/-- An invariant holds before every performed step. -/
theorem Performs.invariant {Inv : σ → Prop}
    (hstep : ∀ s i s', Inv s → step s i = .ok s' → Inv s') {s t t' : σ} {is : List ι} {i : ι}
    (h₀ : Inv s) (h : Performs step s is t i t') : Inv t := by
  obtain ⟨pre, -, ht, -⟩ := h
  exact exec_invariant hstep h₀ ht

/-- A performed step is a step. -/
lemma Performs.step_eq {s t t' : σ} {is : List ι} {i : ι} (h : Performs step s is t i t') :
    step t i = .ok t' := by
  obtain ⟨-, -, -, h⟩ := h
  exact h

/-- The input of a performed step is one of the inputs. -/
lemma Performs.mem {s t t' : σ} {is : List ι} {i : ι} (h : Performs step s is t i t') : i ∈ is := by
  obtain ⟨pre, hpre, -, -⟩ := h
  exact hpre.subset (List.mem_append_right _ (List.mem_singleton_self i))

/-! ## Observers -/

section Watch

variable {γ : Type*} {note : γ → σ → ι → γ}

/-- The system with an observer: the notes after a step depend on the notes before it, the state
before it and its input. -/
def watch (step : σ → ι → Except ε σ) (note : γ → σ → ι → γ) (s : σ × γ) (i : ι) :
    Except ε (σ × γ) :=
  (step s.1 i).map fun s' => (s', note s.2 s.1 i)

/-- A watched step is a step and a note. -/
lemma watch_eq_ok {s s' : σ × γ} {i : ι} :
    watch step note s i = .ok s' ↔ step s.1 i = .ok s'.1 ∧ s'.2 = note s.2 s.1 i := by
  obtain ⟨t, g⟩ := s'
  rw [watch]
  cases step s.1 i with
  | error e => simp [Except.map]
  | ok t' => simp [Except.map, eq_comm]

/-- A watched run is a run. -/
lemma exec_of_watch {s t : σ × γ} {is : List ι} (h : exec (watch step note) s is = .ok t) :
    exec step s.1 is = .ok t.1 := by
  induction is generalizing s with
  | nil =>
    obtain rfl : s = t := by simpa using h
    rfl
  | cons i is ih =>
    obtain ⟨s', hstep, hrest⟩ := exec_cons_eq_ok.mp h
    exact exec_cons_eq_ok.mpr ⟨s'.1, (watch_eq_ok.mp hstep).1, ih hrest⟩

/-- Every run can be watched. -/
lemma exists_watch {s t : σ} {is : List ι} (h : exec step s is = .ok t) (note : γ → σ → ι → γ)
    (g : γ) : ∃ g', exec (watch step note) (s, g) is = .ok (t, g') := by
  induction is generalizing s g with
  | nil =>
    obtain rfl : s = t := by simpa using h
    exact ⟨g, rfl⟩
  | cons i is ih =>
    obtain ⟨s', hstep, hrest⟩ := exec_cons_eq_ok.mp h
    obtain ⟨g', hg'⟩ := ih hrest (note g s i)
    exact ⟨g', exec_cons_eq_ok.mpr ⟨_, watch_eq_ok.mpr ⟨hstep, rfl⟩, hg'⟩⟩

end Watch

/-! ## Two systems in lockstep -/

section Lockstep

variable {τ κ γ ε' : Type*} {step₂ : τ → κ → Except ε' τ} {abs : σ → τ} {key : σ → γ}
  {next : γ → ι → γ} {lab : γ → ι → κ}

/-- The second system takes the same steps on the part `abs` of the state of the first, under
labels that depend on the inputs and on a `key` that the inputs alone determine. -/
structure Lockstep (step : σ → ι → Except ε σ) (step₂ : τ → κ → Except ε' τ) (abs : σ → τ)
    (key : σ → γ) (next : γ → ι → γ) (lab : γ → ι → κ) : Prop where
  simulates : ∀ s i s', step s i = .ok s' →
    step₂ (abs s) (lab (key s) i) = .ok (abs s') ∧ key s' = next (key s) i
  reflects : ∀ s i t', step₂ (abs s) (lab (key s) i) = .ok t' → ∃ s', step s i = .ok s'

/-- The labels of a list of inputs. -/
def labels (next : γ → ι → γ) (lab : γ → ι → κ) : γ → List ι → List κ
  | _, [] => []
  | k, i :: is => lab k i :: labels next lab (next k i) is

/-- A run of the first system is one of the second. -/
lemma Lockstep.exec (h : Lockstep step step₂ abs key next lab) {s t : σ} {is : List ι}
    (hrun : Run.exec step s is = .ok t) :
    Run.exec step₂ (abs s) (labels next lab (key s) is) = .ok (abs t) := by
  induction is generalizing s with
  | nil =>
    obtain rfl : s = t := by simpa using hrun
    rfl
  | cons i is ih =>
    obtain ⟨s', hs', hrest⟩ := exec_cons_eq_ok.mp hrun
    obtain ⟨hstep, hkey⟩ := h.simulates s i s' hs'
    rw [labels, ← hkey]
    exact exec_cons_eq_ok.mpr ⟨abs s', hstep, ih hrest⟩

/-- A run of the second system under the labels of inputs comes from a run of the first. -/
lemma Lockstep.exists_exec (h : Lockstep step step₂ abs key next lab) {s : σ} {u : τ}
    {is : List ι} (hrun : Run.exec step₂ (abs s) (labels next lab (key s) is) = .ok u) :
    ∃ t, Run.exec step s is = .ok t := by
  induction is generalizing s with
  | nil => exact ⟨s, rfl⟩
  | cons i is ih =>
    rw [labels] at hrun
    obtain ⟨u', hu', hrest⟩ := exec_cons_eq_ok.mp hrun
    obtain ⟨s', hs'⟩ := h.reflects s i u' hu'
    obtain ⟨hstep, hkey⟩ := h.simulates s i s' hs'
    obtain rfl := Except.ok.inj (hstep.symm.trans hu')
    rw [← hkey] at hrest
    obtain ⟨t, ht⟩ := ih hrest
    exact ⟨t, exec_cons_eq_ok.mpr ⟨s', hs', ht⟩⟩

/-- A run whose first step fails performs nothing. -/
lemma not_performs_cons {s t t' : σ} {i j : ι} {is : List ι}
    (h : ∀ s', step s j ≠ .ok s') : ¬ Performs step s (j :: is) t i t' := by
  rintro ⟨pre, hpre, ht, hstep⟩
  cases pre with
  | nil =>
    obtain rfl : i = j := by simpa using hpre
    obtain rfl : s = t := by simpa using ht
    exact h t' hstep
  | cons k pre =>
    obtain ⟨rfl, -⟩ : k = j ∧ pre ++ [i] <+: is := by simpa using hpre
    obtain ⟨s', hs', -⟩ := exec_cons_eq_ok.mp ht
    exact h s' hs'

/-- The steps the first system performs are performed by the second. -/
lemma Lockstep.performs (h : Lockstep step step₂ abs key next lab) {s t t' : σ} {i : ι}
    {is : List ι} (hp : Performs step s is t i t') :
    Performs step₂ (abs s) (labels next lab (key s) is) (abs t) (lab (key t) i) (abs t') := by
  induction is generalizing s with
  | nil => exact absurd hp not_performs_nil
  | cons j is ih =>
    by_cases hok : ∃ s', step s j = .ok s'
    · obtain ⟨s', hs'⟩ := hok
      obtain ⟨hstep, hkey⟩ := h.simulates s j s' hs'
      rw [labels, ← hkey]
      rcases (performs_cons_iff hs').mp hp with ⟨rfl, rfl, rfl⟩ | hrest
      · exact performs_head hstep
      · exact (ih hrest).cons hstep
    · exact absurd hp (not_performs_cons fun s' hs' => hok ⟨s', hs'⟩)

/-- The steps the second system performs come from steps of the first. -/
lemma Lockstep.performs_of (h : Lockstep step step₂ abs key next lab) {s : σ} {u u' : τ} {k : κ}
    {is : List ι} (hp : Performs step₂ (abs s) (labels next lab (key s) is) u k u') :
    ∃ t i t', Performs step s is t i t' ∧ abs t = u ∧ lab (key t) i = k ∧ abs t' = u' := by
  induction is generalizing s with
  | nil => exact absurd hp not_performs_nil
  | cons j is ih =>
    rw [labels] at hp
    by_cases hok : ∃ s', step s j = .ok s'
    · obtain ⟨s', hs'⟩ := hok
      obtain ⟨hstep, hkey⟩ := h.simulates s j s' hs'
      rw [← hkey] at hp
      rcases (performs_cons_iff hstep).mp hp with ⟨rfl, rfl, rfl⟩ | hrest
      · exact ⟨s, j, s', performs_head hs', rfl, rfl, rfl⟩
      · obtain ⟨t, i, t', hperf, ht, hk, ht'⟩ := ih hrest
        exact ⟨t, i, t', hperf.cons hs', ht, hk, ht'⟩
    · exact absurd hp (not_performs_cons fun u₁ hu₁ => hok (h.reflects s j u₁ hu₁))

end Lockstep

end Run
