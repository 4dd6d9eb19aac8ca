import Mathlib.Data.List.Forall2

set_option relaxedAutoImplicit false
set_option autoImplicit false

/-!
# Fallible computations

Inversion of successful computations in `Except`: a sequence succeeds if its parts do, and a
traversal of a list succeeds if every element does. An error that no part of a computation raises is
not raised by the whole.

## Main definitions

* `Fallible.Avoids` — a computation that does not fail with a given error.

## Main results

* `Fallible.bind_eq_ok` — a successful sequence.
* `Fallible.mapM_eq_ok_iff`, `Fallible.exists_mapM_eq_ok` — a successful traversal.
* `Fallible.exists_left_of_forall₂`, `Fallible.exists_right_of_forall₂`, `Fallible.forall₂_set` —
  the pairs of elements and results.
* `Fallible.exists_result_at`, `Fallible.exists_result`, `Fallible.exists_element` — the results of
  a traversal.
* `Fallible.Avoids.bind`, `Fallible.Avoids.mapM` — sequences and traversals without an error.
-/

namespace Fallible

universe u

variable {ε : Type*} {α β : Type u}

/-- A sequence goes on with the result of its first part. -/
@[simp] lemma ok_bind (a : α) (f : α → Except ε β) : (Except.ok a >>= f) = f a := rfl

/-- A sequence that succeeds is two computations that succeed. -/
lemma bind_eq_ok {x : Except ε α} {f : α → Except ε β} {b : β} :
    (x >>= f) = .ok b ↔ ∃ a, x = .ok a ∧ f a = .ok b := by
  cases x with
  | error e => simp [bind, Except.bind]
  | ok a => simp [bind, Except.bind]

/-- A traversal that succeeds gives the result of every element. -/
lemma mapM_eq_ok_iff {f : α → Except ε β} {xs : List α} {ys : List β} :
    xs.mapM f = .ok ys ↔ List.Forall₂ (fun x y => f x = .ok y) xs ys := by
  induction xs generalizing ys with
  | nil =>
    rw [List.mapM_nil, List.forall₂_nil_left_iff]
    exact ⟨fun h => (Except.ok.inj h).symm, fun h => h ▸ rfl⟩
  | cons x xs ih =>
    rw [List.mapM_cons, bind_eq_ok, List.forall₂_cons_left_iff]
    constructor
    · rintro ⟨y, hy, hrest⟩
      obtain ⟨ys', hys', heq⟩ := (bind_eq_ok).mp hrest
      exact ⟨y, ys', hy, ih.mp hys', (Except.ok.inj heq).symm⟩
    · rintro ⟨y, ys', hy, hys', rfl⟩
      exact ⟨y, hy, (bind_eq_ok).mpr ⟨ys', ih.mpr hys', rfl⟩⟩

/-- A traversal succeeds if every element does, and its results have what the results of the
elements have. -/
lemma exists_mapM_eq_ok {f : α → Except ε β} {P : α → β → Prop} {xs : List α}
    (h : ∀ x ∈ xs, ∃ y, f x = .ok y ∧ P x y) :
    ∃ ys, xs.mapM f = .ok ys ∧ List.Forall₂ P xs ys := by
  induction xs with
  | nil => exact ⟨[], rfl, List.Forall₂.nil⟩
  | cons x xs ih =>
    obtain ⟨y, hy, hP⟩ := h x List.mem_cons_self
    obtain ⟨ys, hys, hPs⟩ := ih fun z hz => h z (List.mem_cons_of_mem x hz)
    refine ⟨y :: ys, (mapM_eq_ok_iff).mpr ?_, List.Forall₂.cons hP hPs⟩
    exact List.Forall₂.cons hy (mapM_eq_ok_iff.mp hys)

section Pairs

variable {γ δ : Type*} {R : γ → δ → Prop} {as : List γ} {bs : List δ} {a : γ} {b b' : δ}

/-- Everything on the right of a pairing has a partner. -/
lemma exists_left_of_forall₂ (h : List.Forall₂ R as bs) (hb : b ∈ bs) : ∃ a ∈ as, R a b := by
  induction h with
  | nil => cases hb
  | @cons a c as bs hac _ ih =>
    rcases List.mem_cons.mp hb with rfl | hb
    · exact ⟨a, List.mem_cons_self, hac⟩
    · obtain ⟨a', ha', hR⟩ := ih hb
      exact ⟨a', List.mem_cons_of_mem a ha', hR⟩

/-- Everything on the left of a pairing has a partner. -/
lemma exists_right_of_forall₂ (h : List.Forall₂ R as bs) (ha : a ∈ as) : ∃ b ∈ bs, R a b :=
  exists_left_of_forall₂ h.flip ha

/-- Replacing an element on the right of a pairing. -/
lemma forall₂_set {i : ℕ} (h : List.Forall₂ R as bs) (hb : bs[i]? = some b)
    (hR : ∀ a, R a b → R a b') : List.Forall₂ R as (bs.set i b') := by
  induction h generalizing i with
  | nil => exact List.Forall₂.nil
  | @cons a c as bs hac hrest ih =>
    cases i with
    | zero =>
      obtain rfl := Option.some.inj hb
      exact List.Forall₂.cons (hR a hac) hrest
    | succ i => exact List.Forall₂.cons hac (ih hb)

end Pairs

section Traversal

variable {f : α → Except ε β} {xs : List α} {ys : List β} {x : α} {y : β} {k : ℕ}

/-- Every element has its result at its own position. -/
lemma exists_result_at (h : xs.mapM f = .ok ys) (hx : xs[k]? = some x) :
    ∃ y, f x = .ok y ∧ ys[k]? = some y := by
  have hall := (mapM_eq_ok_iff).mp h
  obtain ⟨hk, rfl⟩ := List.getElem?_eq_some_iff.mp hx
  have hk' : k < ys.length := hall.length_eq ▸ hk
  exact ⟨ys[k], hall.get hk hk', List.getElem?_eq_getElem hk'⟩

/-- Every element has a result. -/
lemma exists_result (h : xs.mapM f = .ok ys) (hx : x ∈ xs) : ∃ y ∈ ys, f x = .ok y :=
  exists_right_of_forall₂ (mapM_eq_ok_iff.mp h) hx

/-- Every result comes from an element. -/
lemma exists_element (h : xs.mapM f = .ok ys) (hy : y ∈ ys) : ∃ x ∈ xs, f x = .ok y :=
  exists_left_of_forall₂ (R := fun x y => f x = .ok y) (mapM_eq_ok_iff.mp h) hy

end Traversal

/-! ## Errors that are not raised -/

section Avoids

variable {e : ε} {x : Except ε α} {f : α → Except ε β}

/-- The computation does not fail with `e`. -/
def Avoids (e : ε) (x : Except ε α) : Prop := x ≠ .error e

lemma avoids_ok (a : α) : Avoids e (.ok a : Except ε α) := by
  intro h
  cases h

/-- A sequence does not raise what its parts do not raise. -/
lemma Avoids.bind (hx : Avoids e x) (hf : ∀ a, x = .ok a → Avoids e (f a)) :
    Avoids e (x >>= f) := by
  cases x with
  | error e' =>
    intro h
    exact hx (congrArg Except.error (Except.error.inj h))
  | ok a => exact hf a rfl

/-- A traversal does not raise what the elements do not raise. -/
lemma Avoids.mapM {xs : List α} (hf : ∀ a ∈ xs, Avoids e (f a)) : Avoids e (xs.mapM f) := by
  induction xs with
  | nil => exact avoids_ok []
  | cons a as ih =>
    rw [List.forall_mem_cons] at hf
    rw [List.mapM_cons]
    refine hf.1.bind fun b _ => (ih hf.2).bind fun bs _ => ?_
    exact avoids_ok (b :: bs)

end Avoids

end Fallible
