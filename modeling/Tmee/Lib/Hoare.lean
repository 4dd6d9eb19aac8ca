import Mathlib.Tactic.Lemma
import Mathlib.Tactic.SplitIfs

set_option relaxedAutoImplicit false
set_option autoImplicit false

/-!
# Triples for programs with a state and exceptions

A program of type `EStateM ε σ α` returns a value or raises an exception, and leaves a state in both
cases. A triple gives a condition on the state before, one on the value and the state after a
return, and one on the exception and the state after it.

## Main definitions

* `Hoare.Triple` — the triples.

## Main results

* `Hoare.Triple.bind`, `Hoare.triple_get_bind` — sequences.
* `Hoare.triple_ite` — case distinctions.
-/

namespace Hoare

universe u

variable {ε σ α β : Type u} {P P' : σ → Prop} {c : EStateM ε σ α} {f : α → EStateM ε σ β}
  {Q Q' : α → σ → Prop} {R : β → σ → Prop} {E : ε → σ → Prop}

/-- Run from a state with `P`, the program `c` returns with `Q` or raises an exception with `E`. -/
def Triple (P : σ → Prop) (c : EStateM ε σ α) (Q : α → σ → Prop) (E : ε → σ → Prop) : Prop :=
  ∀ s, P s → match c s with
    | .ok a t => Q a t
    | .error e t => E e t

/-- What a triple says about a return. -/
lemma Triple.ok (h : Triple P c Q E) {s t : σ} {a : α} (hs : P s) (hc : c s = .ok a t) : Q a t := by
  have hrun := h s hs
  rwa [hc] at hrun

/-- What a triple says about an exception. -/
lemma Triple.error (h : Triple P c Q E) {s t : σ} {e : ε} (hs : P s) (hc : c s = .error e t) :
    E e t := by
  have hrun := h s hs
  rwa [hc] at hrun

/-- A stronger condition before, and a weaker one after a return. -/
lemma Triple.conseq (h : Triple P c Q E) (hP : ∀ s, P' s → P s) (hQ : ∀ a s, Q a s → Q' a s) :
    Triple P' c Q' E := by
  intro s hs
  cases hc : c s with
  | ok a t => exact hQ a t (h.ok (hP s hs) hc)
  | error e t => exact h.error (hP s hs) hc

/-- A condition that is not about the state stays. -/
lemma Triple.and_const {p : Prop} (h : Triple P c Q E) :
    Triple (fun s => P s ∧ p) c (fun a s => Q a s ∧ p) E := by
  rintro s ⟨hs, hp⟩
  cases hc : c s with
  | ok a t => exact ⟨h.ok hs hc, hp⟩
  | error e t => exact h.error hs hc

/-- A return. -/
lemma triple_pure {a : α} (h : ∀ s, P s → Q a s) : Triple P (pure a : EStateM ε σ α) Q E :=
  h

/-- A sequence. -/
lemma Triple.bind (hc : Triple P c Q E) (hf : ∀ a, Triple (Q a) (f a) R E) :
    Triple P (c >>= f) R E := by
  intro s hs
  show match EStateM.bind c f s with
    | .ok b t => R b t
    | .error e t => E e t
  rw [EStateM.bind]
  cases hrun : c s with
  | ok a t => exact hf a t (hc.ok hs hrun)
  | error e t => exact hc.error hs hrun

lemma get_bind_apply (f : σ → EStateM ε σ β) (s : σ) : (get >>= f) s = f s s := rfl

/-- A program that reads the state first. -/
lemma triple_get_bind {f : σ → EStateM ε σ β} (h : ∀ s, P s → Triple (fun t => t = s) (f s) R E) :
    Triple P (get >>= f) R E :=
  fun s hs => h s hs s rfl

/-- A case distinction. -/
lemma triple_ite {p : Prop} [Decidable p] {d : EStateM ε σ α} (hc : p → Triple P c Q E)
    (hd : ¬ p → Triple P d Q E) : Triple P (if p then c else d) Q E := by
  split_ifs with hp
  · exact hc hp
  · exact hd hp

end Hoare
