import Mathlib.Data.Fintype.Card
import Mathlib.Data.Set.Finite.Basic
import Mathlib.Logic.Relation
import Mathlib.Order.WellFounded

set_option relaxedAutoImplicit false
set_option autoImplicit false

/-!
# Nested dispatch

Events have chains of handlers. To dispatch an event is to call its handlers one after the other,
and a handler may dispatch an event itself before it returns: some do so at every call, some at
most once, when a condition of their own is met. This file says when dispatch returns.

## Main definitions

* `Dispatch.System` — the chains and the handlers.
* `Dispatch.run` — dispatch with a bound on the depth of nesting.
* `Dispatch.Raises` — a handler of one event always dispatches the other.
* `Dispatch.Returns` — dispatch returns at some depth.

## Main results

* `Dispatch.run_mono` — more depth does not change the result.
* `Dispatch.returns_of_wellFounded` — dispatch returns if `Raises` is well-founded.
* `Dispatch.run_of_cycle` — no event on a cycle of `Raises` returns, whatever the depth.
* `Dispatch.returns_iff_acyclic` — dispatch returns for every event if and only if there is no
  such cycle.
-/

namespace Dispatch

variable {E M : Type*}

/-- What a handler dispatches when it is called. -/
inductive Handler (E : Type*)
  | silent
  /-- The event is dispatched at every call. -/
  | always (e : E)
  /-- The event is dispatched at most once. -/
  | once (e : E)

/-- Events with their handlers. -/
structure System (E M : Type*) where
  chain : E → List M
  handler : M → Handler E

/-- Which handlers have dispatched their one event, and how many conditions have been asked
for. -/
structure State (M : Type*) where
  fired : List M
  asked : ℕ

section Run

variable [DecidableEq M] (S : System E M) (oracle : ℕ → Bool)

/-- One call of a handler; `call` dispatches an event. -/
def handle (call : E → State M → Option (State M)) (m : M) (s : State M) : Option (State M) :=
  match S.handler m with
  | .silent => some s
  | .always e => call e s
  | .once e =>
    if m ∈ s.fired then some s
    else if oracle s.asked then call e ⟨m :: s.fired, s.asked + 1⟩
    else some ⟨s.fired, s.asked + 1⟩

/-- The calls of a chain. -/
def handleAll (call : E → State M → Option (State M)) : List M → State M → Option (State M)
  | [], s => some s
  | m :: ms, s => (handle S oracle call m s).bind (handleAll call ms)

/-- Dispatch of an event, nested at most `fuel` deep. -/
def run : ℕ → E → State M → Option (State M)
  | 0, _, _ => none
  | fuel + 1, e, s => handleAll S oracle (run fuel) (S.chain e) s

/-- Dispatch returns. -/
def Returns (e : E) (s : State M) : Prop := ∃ fuel t, run S oracle fuel e s = some t

end Run

/-- A handler of `e` dispatches `e'` at every call. -/
def Raises (S : System E M) (e e' : E) : Prop := ∃ m ∈ S.chain e, S.handler m = .always e'

section Mono

variable [DecidableEq M] {S : System E M} {oracle : ℕ → Bool}
  {call call' : E → State M → Option (State M)}

lemma handle_mono (h : ∀ e s t, call e s = some t → call' e s = some t) {m : M} {s t : State M}
    (hm : handle S oracle call m s = some t) : handle S oracle call' m s = some t := by
  unfold handle at hm ⊢
  split at hm
  · exact hm
  · exact h _ _ _ hm
  · split_ifs at hm ⊢ with hfired hask
    · exact hm
    · exact h _ _ _ hm
    · exact hm

lemma handleAll_mono (h : ∀ e s t, call e s = some t → call' e s = some t) {ms : List M}
    {s t : State M} (hms : handleAll S oracle call ms s = some t) :
    handleAll S oracle call' ms s = some t := by
  induction ms generalizing s with
  | nil => exact hms
  | cons m ms ih =>
    obtain ⟨u, hu, hrest⟩ := Option.bind_eq_some_iff.mp hms
    exact Option.bind_eq_some_iff.mpr ⟨u, handle_mono h hu, ih hrest⟩

lemma run_succ {fuel : ℕ} {e : E} {s t : State M} (h : run S oracle fuel e s = some t) :
    run S oracle (fuel + 1) e s = some t := by
  induction fuel generalizing e s t with
  | zero => cases h
  | succ fuel ih => exact handleAll_mono (fun _ _ _ => ih) h

/-- **More depth** does not change the result of a dispatch that returns. -/
lemma run_mono {fuel fuel' : ℕ} (hle : fuel ≤ fuel') {e : E} {s t : State M}
    (h : run S oracle fuel e s = some t) : run S oracle fuel' e s = some t := by
  induction hle with
  | refl => exact h
  | step _ ih => exact run_succ ih

/-- What has been dispatched once stays so. -/
lemma fired_subset_of_handle (h : ∀ e s t, call e s = some t → s.fired ⊆ t.fired) {m : M}
    {s t : State M} (hm : handle S oracle call m s = some t) : s.fired ⊆ t.fired := by
  unfold handle at hm
  split at hm
  · rw [Option.some.inj hm]
    exact List.Subset.refl _
  · exact h _ _ _ hm
  · split_ifs at hm with hfired hask
    · rw [Option.some.inj hm]
      exact List.Subset.refl _
    · exact List.Subset.trans (List.subset_cons_self m s.fired) (h _ _ _ hm)
    · rw [← Option.some.inj hm]
      exact List.Subset.refl _

lemma fired_subset_of_handleAll (h : ∀ e s t, call e s = some t → s.fired ⊆ t.fired)
    {ms : List M} {s t : State M} (hms : handleAll S oracle call ms s = some t) :
    s.fired ⊆ t.fired := by
  induction ms generalizing s with
  | nil =>
    obtain rfl := Option.some.inj hms
    exact List.Subset.refl _
  | cons m ms ih =>
    obtain ⟨u, hu, hrest⟩ := Option.bind_eq_some_iff.mp hms
    exact List.Subset.trans (fired_subset_of_handle h hu) (ih hrest)

lemma fired_subset_of_run {fuel : ℕ} {e : E} {s t : State M}
    (h : run S oracle fuel e s = some t) : s.fired ⊆ t.fired := by
  induction fuel generalizing e s t with
  | zero => cases h
  | succ fuel ih => exact fired_subset_of_handleAll (fun _ _ _ => ih) h

end Mono

/-! ## When dispatch returns -/

section Returns

variable [DecidableEq M] {S : System E M} {oracle : ℕ → Bool}

/-- The handlers among `ms` that may still dispatch their one event. -/
def unfired (ms : List M) (s : State M) : ℕ := ms.countP (fun m => m ∉ s.fired)

lemma unfired_le_of_subset {ms : List M} {s t : State M} (h : s.fired ⊆ t.fired) :
    unfired ms t ≤ unfired ms s := by
  apply List.countP_mono_left
  intro m _ hm
  simp only [decide_eq_true_eq] at hm ⊢
  exact fun hmem => hm (h hmem)

/-- A handler that dispatches its one event is one less. -/
lemma unfired_cons_lt {ms : List M} {m : M} {s : State M} (hm : m ∈ ms) (hs : m ∉ s.fired)
    (n : ℕ) : unfired ms ⟨m :: s.fired, n⟩ < unfired ms s := by
  unfold unfired
  induction ms with
  | nil => simp at hm
  | cons m' ms ih =>
    have hle : ms.countP (fun m' => m' ∉ m :: s.fired) ≤ ms.countP (fun m' => m' ∉ s.fired) :=
      unfired_le_of_subset (t := ⟨m :: s.fired, n⟩) (List.subset_cons_self m s.fired)
    rw [List.countP_cons, List.countP_cons]
    by_cases heq : m' = m
    · subst heq
      simp only [List.mem_cons, true_or, not_true_eq_false, decide_false, hs, not_false_eq_true,
        decide_true, if_true, Bool.false_eq_true, if_false]
      simp only [List.mem_cons] at hle
      omega
    · have hrest := ih (by simpa [Ne.symm heq] using hm)
      simp only [List.mem_cons, heq, false_or] at hrest ⊢
      omega

/-- A chain returns if its handlers do, and leaves the measure no larger. -/
lemma handleAll_returns {ms : List M} {k : ℕ} {all : List M}
    (h : ∀ m ∈ ms, ∀ s, unfired all s ≤ k →
      ∃ fuel t, handle S oracle (run S oracle fuel) m s = some t)
    {s : State M} (hs : unfired all s ≤ k) :
    ∃ fuel t, handleAll S oracle (run S oracle fuel) ms s = some t := by
  induction ms generalizing s with
  | nil => exact ⟨0, s, rfl⟩
  | cons m ms ih =>
    obtain ⟨fuel, u, hu⟩ := h m List.mem_cons_self s hs
    have hle : unfired all u ≤ unfired all s :=
      unfired_le_of_subset (fired_subset_of_handle (fun _ _ _ => fired_subset_of_run) hu)
    obtain ⟨fuel', t, ht⟩ := ih (fun m' hm' => h m' (List.mem_cons_of_mem _ hm')) (hle.trans hs)
    refine ⟨max fuel fuel', t, Option.bind_eq_some_iff.mpr ⟨u, ?_, ?_⟩⟩
    · exact handle_mono (fun _ _ _ => run_mono (le_max_left _ _)) hu
    · exact handleAll_mono (fun _ _ _ => run_mono (le_max_right _ _)) ht

/-- **Dispatch returns if `Raises` is well-founded.**

**Proof sketch.** Induction on the number of handlers that may still dispatch their one event, and
for the same number on the event, along `Raises`. -/
theorem returns_of_wellFounded (hwf : WellFounded (flip (Raises S))) {all : List M}
    (hall : ∀ e, ∀ m ∈ S.chain e, m ∈ all) (e : E) (s : State M) : Returns S oracle e s := by
  suffices hmain : ∀ k e s, unfired all s ≤ k → Returns S oracle e s from hmain _ e s le_rfl
  intro k
  induction k using Nat.strong_induction_on with
  | _ k ihk =>
    intro e
    induction e using hwf.induction with
    | _ e ihe =>
      intro s hs
      have hhandle : ∀ m ∈ S.chain e, ∀ s, unfired all s ≤ k →
          ∃ fuel t, handle S oracle (run S oracle fuel) m s = some t := by
        intro m hm s hs
        unfold handle
        cases hkind : S.handler m with
        | silent => exact ⟨0, s, rfl⟩
        | always e' => exact ihe e' ⟨m, hm, hkind⟩ s hs
        | once e' =>
          by_cases hfired : m ∈ s.fired
          · exact ⟨0, s, if_pos hfired⟩
          · simp only [if_neg hfired]
            by_cases hask : oracle s.asked
            · simp only [if_pos hask]
              have hlt := unfired_cons_lt (hall e m hm) hfired (s.asked + 1)
              exact ihk _ (hlt.trans_le hs) e' _ le_rfl
            · exact ⟨0, _, if_neg hask⟩
      obtain ⟨fuel, t, ht⟩ := handleAll_returns hhandle hs
      exact ⟨fuel + 1, t, ht⟩

/-- A dispatch that returns has returned from every dispatch that its handlers always make. -/
lemma exists_run_of_raises {fuel : ℕ} {e e' : E} {s t : State M} (hraises : Raises S e e')
    (h : run S oracle (fuel + 1) e s = some t) : ∃ s' t', run S oracle fuel e' s' = some t' := by
  obtain ⟨m, hm, hkind⟩ := hraises
  have hall : ∀ (ms : List M) (s t : State M), m ∈ ms →
      handleAll S oracle (run S oracle fuel) ms s = some t →
      ∃ s' t', run S oracle fuel e' s' = some t' := by
    intro ms
    induction ms with
    | nil => simp
    | cons m' ms ih =>
      intro s t hmem hms
      obtain ⟨u, hu, hrest⟩ := Option.bind_eq_some_iff.mp hms
      rcases List.mem_cons.mp hmem with rfl | hmem
      · rw [handle, hkind] at hu
        exact ⟨s, u, hu⟩
      · exact ih u t hmem hrest
  exact hall (S.chain e) s t hm h

/-- **No event on a cycle returns**, whatever the depth.

**Proof sketch.** If it did at some depth, the next event on the cycle would at a smaller one. -/
theorem run_of_cycle {e : E} (hcycle : Relation.TransGen (Raises S) e e) (fuel : ℕ)
    (s : State M) : run S oracle fuel e s = none := by
  induction fuel generalizing e s with
  | zero => rfl
  | succ fuel ih =>
    obtain ⟨e', hraises, hback⟩ := Relation.TransGen.head'_iff.mp hcycle
    have hcycle' : Relation.TransGen (Raises S) e' e' := Relation.TransGen.tail' hback hraises
    by_contra hsome
    obtain ⟨t, ht⟩ := Option.ne_none_iff_exists'.mp hsome
    obtain ⟨s', t', hrun⟩ := exists_run_of_raises hraises ht
    rw [ih hcycle' s'] at hrun
    cases hrun

/-- Along a path to an element with a successor every element has one. -/
lemma transGen_of_successor {R : E → E → Prop} {a b : E} (h : Relation.TransGen R a b)
    (hb : ∃ c, R b c) : Relation.TransGen (fun x y => R x y ∧ ∃ z, R y z) a b := by
  induction h with
  | single hab => exact Relation.TransGen.single ⟨hab, hb⟩
  | tail _ hbc ih => exact Relation.TransGen.tail (ih ⟨_, hbc⟩) ⟨hbc, hb⟩

/-- The elements of a cycle have successors on it. -/
lemma transGen_of_cycle {R : E → E → Prop} {a : E} (h : Relation.TransGen R a a) :
    Relation.TransGen (fun x y => R x y ∧ ∃ z, R y z) a a := by
  obtain ⟨b, hab, -⟩ := Relation.TransGen.head'_iff.mp h
  exact transGen_of_successor h ⟨b, hab⟩

/-- A relation without cycles is well-founded if only finitely many elements have a successor. -/
lemma wellFounded_of_acyclic {R : E → E → Prop} (hfin : {a | ∃ b, R a b}.Finite)
    (hacyclic : ∀ a, ¬ Relation.TransGen R a a) : WellFounded (flip R) := by
  have : Finite {a | ∃ b, R a b} := hfin
  let R' : {a | ∃ b, R a b} → {a | ∃ b, R a b} → Prop := fun a b => Relation.TransGen R b a
  have : IsTrans _ R' := ⟨fun _ _ _ hab hbc => Relation.TransGen.trans hbc hab⟩
  have : Std.Irrefl R' := ⟨fun a => hacyclic a⟩
  have hwf : WellFounded R' := Finite.wellFounded_of_trans_of_irrefl R'
  have hacc : ∀ a : {a | ∃ b, R a b}, Acc (flip R) a.1 := by
    intro a
    induction a using hwf.induction with
    | _ a ih =>
      constructor
      intro b hab
      by_cases hb : ∃ c, R b c
      · exact ih ⟨b, hb⟩ (Relation.TransGen.single hab)
      · exact ⟨b, fun c hbc => absurd ⟨c, hbc⟩ hb⟩
  constructor
  intro a
  by_cases ha : ∃ b, R a b
  · exact hacc ⟨a, ha⟩
  · exact ⟨a, fun b hab => absurd ⟨b, hab⟩ ha⟩

/-- **Dispatch returns for every event, state and oracle** if and only if `Raises` has no cycle, for
a system in which finitely many events have handlers. -/
theorem returns_iff_acyclic (hfin : {e | S.chain e ≠ []}.Finite) :
    (∀ oracle e s, Returns S oracle e s) ↔ ∀ e, ¬ Relation.TransGen (Raises S) e e := by
  constructor
  · intro hreturns e hcycle
    obtain ⟨fuel, t, ht⟩ := hreturns (fun _ => false) e ⟨[], 0⟩
    rw [run_of_cycle hcycle] at ht
    cases ht
  · intro hacyclic oracle e s
    have hsub : {e | ∃ e', Raises S e e'} ⊆ {e | S.chain e ≠ []} := by
      rintro e ⟨e', m, hm, -⟩
      exact List.ne_nil_of_mem hm
    have hwf := wellFounded_of_acyclic (hfin.subset hsub) hacyclic
    have hall : ∀ e, ∀ m ∈ S.chain e, m ∈ hfin.toFinset.toList.flatMap S.chain := by
      intro e m hm
      have he : S.chain e ≠ [] := List.ne_nil_of_mem hm
      rw [List.mem_flatMap]
      exact ⟨e, by simpa using he, hm⟩
    exact returns_of_wellFounded hwf hall e s

end Returns

end Dispatch
