import Mathlib.Data.List.Count
import Mathlib.Tactic.Lemma
import Mathlib.Tactic.SplitIfs

set_option relaxedAutoImplicit false
set_option autoImplicit false

/-!
# Handles that are released exactly once

A program obtains handles from a library, which numbers them, and releases them. It returns a value
or raises an exception, and it may leave through several exits, each of which has to release what is
live there. The log keeps the number of handles obtained and every release. At each point of a
program, every handle that was obtained has been released once or is owed once, and nothing else has
been released.

## Main definitions

* `Handles.Log`, `Handles.Code` — the log, and programs that write it.
* `Handles.acquire`, `Handles.release`, `Handles.releaseAll`, `Handles.holding` — the operations.
* `Handles.Owes`, `Handles.Settled` — the handles that have still to be released.
* `Handles.Runs` — the result of a program, and what it owes before and after.

## Main results

* `Handles.Runs.acquire_bind`, `Handles.Runs.release_bind`, `Handles.Runs.holding` — the operations.
* `Handles.Runs.bind` — sequences.
-/

namespace Handles

/-- What was done with handles. -/
structure Log where
  /-- The number of handles obtained; they are the smaller numbers. -/
  obtained : ℕ
  /-- The handles that were released, the last one first. -/
  released : List ℕ
  deriving DecidableEq, Repr

/-- Nothing has been done. -/
def Log.empty : Log := ⟨0, []⟩

/-- Programs that obtain and release handles. -/
abbrev Code (ε α : Type) := EStateM ε Log α

variable {ε α β : Type}

/-- Obtain a handle. -/
def acquire : Code ε ℕ := modifyGet fun s => (s.obtained, { s with obtained := s.obtained + 1 })

/-- Release a handle. -/
def release (id : ℕ) : Code ε Unit := modify fun s => { s with released := id :: s.released }

/-- Release handles one after the other. -/
def releaseAll : List ℕ → Code ε Unit
  | [] => pure ()
  | id :: ids => do
    release id
    releaseAll ids

/-- A program between obtaining and releasing a handle. -/
def holding (body : Code ε α) : Code ε α := do
  let id ← acquire
  let a ← body
  release id
  return a

/-- **What is owed**: every handle that was obtained has been released, or is one of these, exactly
once, and no other handle has been released. -/
def Owes (ids : List ℕ) (s : Log) : Prop :=
  ∀ id, s.released.count id + ids.count id = if id < s.obtained then 1 else 0

/-- **Everything is settled**: every handle that was obtained has been released exactly once. -/
def Settled (s : Log) : Prop := ∀ id, s.released.count id = if id < s.obtained then 1 else 0

/-- **The program ends with this result**, whatever happened before, and owes `ids` before it. After
it has returned it owes `owed`, and after it has raised an exception nothing, if the exception is
not one of those that leave handles behind. -/
def Runs (Leaves : ε → Prop) (m : Code ε α) (ids : List ℕ) (x : Except ε α)
    (owed : α → List ℕ) : Prop :=
  ∀ s, Owes ids s → match x with
    | .ok a => ∃ s', m s = .ok a s' ∧ Owes (owed a) s'
    | .error e => ∃ s', m s = .error e s' ∧ (¬ Leaves e → Owes [] s')

section Owed

variable {ids ids' : List ℕ} {id : ℕ} {s : Log}

lemma owes_empty : Owes [] Log.empty := by
  intro id
  simp [Log.empty]

lemma Owes.settled (h : Owes [] s) : Settled s := by
  intro id
  simpa using h id

lemma Owes.acquire (h : Owes ids s) :
    Owes (s.obtained :: ids) { s with obtained := s.obtained + 1 } := by
  intro id
  have hid := h id
  rw [List.count_cons]
  by_cases heq : s.obtained = id
  · subst heq
    simp only [Nat.lt_irrefl, if_false] at hid
    simp only [beq_self_eq_true, if_true, Nat.lt_succ_self]
    omega
  · simp only [beq_eq_false_iff_ne.mpr heq, Bool.false_eq_true, if_false]
    split_ifs at hid ⊢ <;> omega

lemma Owes.release (h : Owes (id :: ids) s) :
    Owes ids { s with released := id :: s.released } := by
  intro id'
  have hid := h id'
  rw [List.count_cons] at hid ⊢
  rw [← hid]
  omega

end Owed

namespace Runs

variable {Leaves : ε → Prop} {m : Code ε α} {ids ids' : List ℕ} {x : Except ε α} {y : Except ε β}
  {owed : α → List ℕ} {owed' : β → List ℕ} {e : ε} {id : ℕ}

lemma pure {a : α} (h : owed a = ids) :
    Runs Leaves (Pure.pure a : Code ε α) ids (.ok a) owed :=
  fun s hs => ⟨s, rfl, h ▸ hs⟩

/-- An exception is raised where nothing is owed, or leaves behind what is owed. -/
lemma throw (h : ¬ Leaves e → ids = []) :
    Runs Leaves (MonadExcept.throw e : Code ε α) ids (.error e) owed :=
  fun s hs => ⟨s, rfl, fun hleaves => h hleaves ▸ hs⟩

/-- A program goes on after its first part has returned, and an exception ends it. -/
lemma bind {f : α → Code ε β} {g : α → Except ε β} (hm : Runs Leaves m ids x owed)
    (hf : ∀ a, x = .ok a → Runs Leaves (f a) (owed a) (g a) owed') :
    Runs Leaves (m >>= f) ids (x >>= g) owed' := by
  intro s hs
  cases x with
  | ok a =>
    obtain ⟨s₁, hrun, hs₁⟩ := hm s hs
    have hbind : (m >>= f) s = f a s₁ := by
      show EStateM.bind m f s = f a s₁
      rw [EStateM.bind, hrun]
    rw [hbind]
    exact hf a rfl s₁ hs₁
  | error e =>
    obtain ⟨s', hrun, hs'⟩ := hm s hs
    refine ⟨s', ?_, hs'⟩
    show EStateM.bind m f s = .error e s'
    rw [EStateM.bind, hrun]

/-- A handle that has been obtained is owed. -/
lemma acquire_bind {f : ℕ → Code ε β} (hf : ∀ id, Runs Leaves (f id) (id :: ids) y owed') :
    Runs Leaves (acquire >>= f) ids y owed' :=
  fun s hs => hf s.obtained _ hs.acquire

/-- A handle that has been released is owed no more. -/
lemma release_bind {f : Unit → Code ε β} (hf : Runs Leaves (f ()) ids y owed') :
    Runs Leaves (release id >>= f) (id :: ids) y owed' :=
  fun _ hs => hf _ hs.release

lemma releaseAll_bind {f : Unit → Code ε β} (hf : Runs Leaves (f ()) ids' y owed') :
    Runs Leaves (releaseAll ids >>= f) (ids ++ ids') y owed' := by
  induction ids with
  | nil => exact hf
  | cons id ids ih =>
    rw [releaseAll, bind_assoc]
    exact release_bind ih

/-- An exit releases everything that is owed. -/
lemma releaseAll_exit {f : Unit → Code ε β} (hf : Runs Leaves (f ()) [] y owed') :
    Runs Leaves (releaseAll ids >>= f) ids y owed' := by
  have h : Runs Leaves (releaseAll ids >>= f) (ids ++ []) y owed' := releaseAll_bind hf
  rwa [List.append_nil] at h

/-- A handle that is obtained and released around a program. -/
lemma holding (hm : ∀ id, Runs Leaves m (id :: ids) x fun _ => id :: ids) :
    Runs Leaves (holding m) ids x fun _ => ids := by
  refine acquire_bind fun id => ?_
  have h : Runs Leaves (m >>= fun a => release id >>= fun _ => Pure.pure a) (id :: ids)
      (x >>= .ok) fun _ => ids := (hm id).bind fun a _ => release_bind (pure rfl)
  have hx : (x >>= Except.ok) = x := bind_pure x
  rwa [hx] at h

end Runs

end Handles
