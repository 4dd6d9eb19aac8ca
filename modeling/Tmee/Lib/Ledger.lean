import Mathlib.Data.Finset.Dedup
import Mathlib.Data.Finset.Disjoint
import Mathlib.Data.Finset.Erase
import Mathlib.Data.Finset.Insert
import Mathlib.Data.Finset.SDiff
import Mathlib.Data.List.Nodup

set_option relaxedAutoImplicit false
set_option autoImplicit false

/-!
# Resources and fields that may be unassigned

Code that obtains resources, keeps them in the fields of a record and releases them later. A field
of a record that comes from an allocator without being cleared holds nothing until it is assigned;
a pointer in a field is null or names a resource. Two things are checked: that only assigned
fields are read, and that only resources that are held are used or released.

## Main definitions

* `Ledger.Code` — code that works on the resources held.
* `Ledger.Member`, `Ledger.Pointer` — what a field and a pointer hold.
* `Ledger.read`, `Ledger.acquire`, `Ledger.release`, `Ledger.free` — the operations.
* `Ledger.Fails` — code that is a misuse whatever is held.

## Main results

* `Ledger.releaseAll_eq_ok_iff` — releasing resources one after the other.
* `Ledger.Fails.bind_left`, `Ledger.Fails.bind_right`, `Ledger.Fails.forM` — misuse in parts.
-/

namespace Ledger

/-- What is wrong with an operation. -/
inductive Misuse
  /-- A field is read that has not been assigned. -/
  | unassigned
  /-- Something is used or released that is not held. -/
  | notHeld
  /-- An access through a null pointer. -/
  | nullPointer
  deriving DecidableEq, Repr

/-- Code that works on the resources held. -/
abbrev Code (ρ : Type) := StateT (Finset ρ) (Except Misuse)

/-- A field of a record; `none` if it has not been assigned. -/
abbrev Member (α : Type) := Option α

/-- A pointer; `none` is null. -/
abbrev Pointer (ρ : Type) := Option ρ

variable {ρ α β : Type}

/-- Read a field. -/
def read : Member α → Code ρ α
  | none => throw Misuse.unassigned
  | some a => pure a

/-- An access through a pointer. -/
def access : Pointer ρ → Code ρ Unit
  | none => throw Misuse.nullPointer
  | some _ => pure ()

section Operations

variable [DecidableEq ρ]

/-- Obtain a resource, or null. -/
def acquire (success : Bool) (r : ρ) : Code ρ (Pointer ρ) := fun held =>
  if success then .ok (some r, insert r held) else .ok (none, held)

/-- Use a resource. -/
def use : Pointer ρ → Code ρ Unit
  | none => throw Misuse.notHeld
  | some r => fun held => if r ∈ held then .ok ((), held) else .error .notHeld

/-- Release a resource. -/
def release : Pointer ρ → Code ρ Unit
  | none => throw Misuse.notHeld
  | some r => fun held => if r ∈ held then .ok ((), held.erase r) else .error .notHeld

/-- Release a resource unless the pointer is null. -/
def free : Pointer ρ → Code ρ Unit
  | none => pure ()
  | some r => release (some r)

/-- Release resources one after the other. -/
def releaseAll (rs : List ρ) : Code ρ Unit := forM rs fun r => release (some r)

end Operations

/-- The code is a misuse whatever is held. -/
def Fails (p : Code ρ α) : Prop := ∀ held x, p held ≠ .ok x

section Sequences

variable {p : Code ρ α} {f : α → Code ρ β} {held held' : Finset ρ} {a : α}

/-- A sequence that succeeds is two parts that succeed. -/
lemma bind_eq_ok {x : β × Finset ρ} :
    (p >>= f) held = .ok x ↔ ∃ a held', p held = .ok (a, held') ∧ f a held' = .ok x := by
  show (p held >>= fun y => f y.1 y.2) = .ok x ↔ _
  cases p held with
  | error e => simp [bind, Except.bind]
  | ok y => simp [bind, Except.bind, Prod.ext_iff]

/-- A sequence goes on after its first part. -/
lemma bind_ok (h : p held = .ok (a, held')) : (p >>= f) held = f a held' := by
  show (p held >>= fun y => f y.1 y.2) = f a held'
  rw [h]
  rfl

/-- A sequence ends with its first part if that is a misuse. -/
lemma bind_error {misuse : Misuse} (h : p held = .error misuse) :
    (p >>= f) held = .error misuse := by
  show (p held >>= fun y => f y.1 y.2) = .error misuse
  rw [h]
  rfl

@[simp] lemma pure_run (a : α) (held : Finset ρ) : (pure a : Code ρ α) held = .ok (a, held) := rfl

@[simp] lemma read_some (a : α) : (read (some a) : Code ρ α) = pure a := rfl

lemma held_eq_of_read {f : Member α} (h : read f held = .ok (a, held')) : held' = held := by
  cases f with
  | none => cases h
  | some b =>
    cases h
    rfl

lemma fails_read_none : Fails (read none : Code ρ α) := by
  intro held x h
  cases h

@[simp] lemma access_bind (r : ρ) (g : Unit → Code ρ α) : (access (some r) >>= g) = g () := rfl

@[simp] lemma access_none_bind (g : Unit → Code ρ α) (held : Finset ρ) :
    (access none >>= g) held = .error .nullPointer := rfl

lemma Fails.bind_left (hp : Fails p) : Fails (p >>= f) := by
  intro held x h
  obtain ⟨a, held', hp', -⟩ := bind_eq_ok.mp h
  exact hp held _ hp'

lemma Fails.bind_right (hf : ∀ a, Fails (f a)) : Fails (p >>= f) := by
  intro held x h
  obtain ⟨a, held', -, hf'⟩ := bind_eq_ok.mp h
  exact hf a held' x hf'

/-- A loop with a turn that is a misuse is a misuse. -/
lemma Fails.forM {g : α → Code ρ Unit} {as : List α} (ha : a ∈ as) (hg : Fails (g a)) :
    Fails (forM as g) := by
  induction as with
  | nil => cases ha
  | cons b as ih =>
    rw [List.forM_cons]
    rcases List.mem_cons.mp ha with rfl | ha
    · exact hg.bind_left
    · exact Fails.bind_right fun _ => ih ha

end Sequences

section Releases

variable [DecidableEq ρ] {held held' : Finset ρ} {r : ρ} {rs rs' : List ρ} {α : Type}

lemma fails_release_none : Fails (release (none : Pointer ρ)) := by
  intro held x h
  cases h

@[simp] lemma acquire_bind (success : Bool) (r : ρ) (f : Pointer ρ → Code ρ α)
    (held : Finset ρ) :
    (acquire success r >>= f) held =
      if success then f (some r) (insert r held) else f none held := by
  cases success <;> rfl

lemma release_eq_ok (hr : r ∈ held) : release (some r) held = .ok ((), held.erase r) := if_pos hr

lemma mem_of_use {x : Unit × Finset ρ} (h : use (some r) held = .ok x) : r ∈ held := by
  by_contra hr
  have herror : use (some r) held = .error .notHeld := if_neg hr
  rw [herror] at h
  cases h

lemma use_bind (hr : r ∈ held) (f : Unit → Code ρ α) : (use (some r) >>= f) held = f () held :=
  bind_ok (if_pos hr)

lemma release_bind (hr : r ∈ held) (f : Unit → Code ρ α) :
    (release (some r) >>= f) held = f () (held.erase r) :=
  bind_ok (if_pos hr)

lemma release_eq_ok_iff {x : Unit × Finset ρ} :
    release (some r) held = .ok x ↔ r ∈ held ∧ x = ((), held.erase r) := by
  show (if r ∈ held then _ else _) = _ ↔ _
  split_ifs with hr
  · simp [hr, eq_comm]
  · simp [hr]

lemma releaseAll_cons : releaseAll (r :: rs) = (do release (some r); releaseAll rs) := by
  rw [releaseAll, List.forM_cons]
  rfl

lemma releaseAll_append : releaseAll (rs ++ rs') = (do releaseAll rs; releaseAll rs') := by
  rw [releaseAll, List.forM_append]
  rfl

/-- A loop whose turns release resources releases all of them. -/
lemma forM_eq_releaseAll {g : α → Code ρ Unit} {f : α → List ρ} {as : List α}
    (h : ∀ a ∈ as, g a = releaseAll (f a)) : forM as g = releaseAll (as.flatMap f) := by
  induction as with
  | nil => rfl
  | cons a as ih =>
    rw [List.forall_mem_cons] at h
    rw [List.forM_cons, h.1, ih h.2, List.flatMap_cons, releaseAll_append]

/-- **Releasing resources one after the other** succeeds if and only if they are different and all
of them are held. -/
theorem releaseAll_eq_ok_iff :
    (∃ x, releaseAll rs held = .ok x) ↔ rs.Nodup ∧ ∀ r ∈ rs, r ∈ held := by
  induction rs generalizing held with
  | nil => exact iff_of_true ⟨_, rfl⟩ ⟨List.nodup_nil, fun _ h => absurd h List.not_mem_nil⟩
  | cons r rs ih =>
    have hrec : (∃ x, releaseAll (r :: rs) held = .ok x) ↔
        r ∈ held ∧ ∃ x, releaseAll rs (held.erase r) = .ok x := by
      rw [releaseAll_cons]
      constructor
      · rintro ⟨x, hx⟩
        obtain ⟨_, held', hr, hrest⟩ := bind_eq_ok.mp hx
        obtain ⟨hmem, heq⟩ := release_eq_ok_iff.mp hr
        cases heq
        exact ⟨hmem, x, hrest⟩
      · rintro ⟨hmem, x, hx⟩
        exact ⟨x, bind_eq_ok.mpr ⟨(), held.erase r, release_eq_ok_iff.mpr ⟨hmem, rfl⟩, hx⟩⟩
    rw [hrec, ih, List.nodup_cons, List.forall_mem_cons]
    simp only [Finset.mem_erase]
    constructor
    · rintro ⟨hmem, hnodup, hrest⟩
      exact ⟨⟨fun hr => (hrest r hr).1 rfl, hnodup⟩, hmem, fun x hx => (hrest x hx).2⟩
    · rintro ⟨⟨hr, hnodup⟩, hmem, hrest⟩
      refine ⟨hmem, hnodup, fun x hx => ⟨?_, hrest x hx⟩⟩
      rintro rfl
      exact hr hx

/-- What is left when resources have been released one after the other. -/
lemma releaseAll_eq_ok (hnodup : rs.Nodup) (hheld : ∀ r ∈ rs, r ∈ held) :
    releaseAll rs held = .ok ((), held \ rs.toFinset) := by
  induction rs generalizing held with
  | nil => simp [releaseAll]
  | cons r rs ih =>
    rw [List.nodup_cons] at hnodup
    rw [List.forall_mem_cons] at hheld
    have hrest : ∀ x ∈ rs, x ∈ held.erase r := fun x hx =>
      Finset.mem_erase.mpr ⟨fun h => hnodup.1 (h ▸ hx), hheld.2 x hx⟩
    rw [releaseAll_cons, release_bind hheld.1, ih hnodup.2 hrest, List.toFinset_cons]
    congr 2
    ext x
    simp only [Finset.mem_sdiff, Finset.mem_erase, Finset.mem_insert, not_or]
    tauto

/-- Code that releases what was obtained besides `held` goes on with `held`. -/
lemma releaseAll_bind (held : Finset ρ) {f : Unit → Code ρ α} (hnodup : rs.Nodup)
    (hnew : ∀ r ∈ rs, r ∉ held) (hheld : held' = held ∪ rs.toFinset) :
    (releaseAll rs >>= f) held' = f () held := by
  subst hheld
  have hmem : ∀ r ∈ rs, r ∈ held ∪ rs.toFinset := fun r hr => by simp [hr]
  have hdisjoint : Disjoint held rs.toFinset :=
    Finset.disjoint_right.mpr fun r hr => hnew r (List.mem_toFinset.mp hr)
  rw [bind_ok (releaseAll_eq_ok hnodup hmem), Finset.union_sdiff_right,
    Finset.sdiff_eq_self_of_disjoint hdisjoint]

end Releases

end Ledger
