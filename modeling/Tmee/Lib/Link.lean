import Mathlib.Data.List.Destutter
import Mathlib.Data.List.Sort

set_option relaxedAutoImplicit false
set_option autoImplicit false

/-!
# Links that lose and repeat messages

A link that loses messages and delivers messages more than once, but keeps their order. At its end
a receiver drops every message that has the number of the one before. If the sender sends each
state under a number of its own, as often as it likes, the receiver takes each state that gets
through exactly once, and in order.

## Main definitions

* `Link.Carries` — what a link may deliver of the messages sent.
* `Link.taken`, `Link.takenFrom` — the messages that the receiver takes.

## Main results

* `Link.map_taken` — the numbers taken, if no number goes back.
* `Link.Carries.map_taken_eq` — the states taken are the states sent, without those of which every
  message is lost.
-/

namespace Link

variable {α β ν : Type*} {a : α} {as bs xs ys : List α}

/-- A link that has been given the messages of the first list has delivered those of the second. -/
inductive Carries : List α → List α → Prop
  | done : Carries [] []
  | lose (a : α) {as bs : List α} : Carries as bs → Carries (a :: as) bs
  | deliver (a : α) {as bs : List α} : Carries (a :: as) bs → Carries (a :: as) (a :: bs)

/-- Nothing is made up. -/
lemma Carries.subset (h : Carries as bs) : bs ⊆ as := by
  induction h with
  | done => exact List.Subset.refl []
  | lose a h ih => exact fun b hb => List.mem_cons_of_mem a (ih hb)
  | deliver a h ih => exact List.cons_subset.mpr ⟨List.mem_cons_self, ih⟩

/-- A link that loses nothing and repeats nothing. -/
lemma carries_refl (as : List α) : Carries as as := by
  induction as with
  | nil => exact .done
  | cons a as ih => exact .deliver a (.lose a ih)

/-- **The order is kept.** -/
lemma Carries.pairwise {r : α → α → Prop} (hrefl : ∀ a, r a a) (h : Carries as bs)
    (has : as.Pairwise r) : bs.Pairwise r := by
  induction h with
  | done => exact List.Pairwise.nil
  | lose a h ih => exact ih has.of_cons
  | deliver a h ih =>
    refine List.pairwise_cons.mpr ⟨fun b hb => ?_, ih has⟩
    rcases List.mem_cons.mp (h.subset hb) with rfl | hmem
    · exact hrefl b
    · exact List.rel_of_pairwise_cons has hmem

/-! ## The receiver -/

section Receiver

variable {γ μ : Type*} [DecidableEq ν] [DecidableEq μ] (num : α → ν)

/-- The messages whose number differs from the one before. -/
def taken (as : List α) : List α := as.destutter fun a b => num a ≠ num b

/-- The receiver itself: it remembers the last number. -/
def takenFrom : ν → List α → List α
  | _, [] => []
  | last, a :: as => if num a ≠ last then a :: takenFrom (num a) as else takenFrom last as

variable {num}

lemma cons_takenFrom (a : α) (as : List α) :
    a :: takenFrom num (num a) as = as.destutter' (fun a b => num a ≠ num b) a := by
  induction as generalizing a with
  | nil => rfl
  | cons b as ih =>
    rw [takenFrom, List.destutter'_cons]
    by_cases hne : num a ≠ num b
    · rw [if_pos hne, if_pos hne.symm, ih b]
    · rw [if_neg hne, if_neg fun h => hne h.symm, ih a]

/-- A receiver that has not seen the number of the first message takes it. -/
lemma takenFrom_eq {last : ν} (h : ∀ a ∈ as, num a ≠ last) :
    takenFrom num last as = taken num as := by
  cases as with
  | nil => rfl
  | cons a as =>
    rw [takenFrom, if_pos (h a List.mem_cons_self), cons_takenFrom]
    rfl

/-- Messages that are renumbered. -/
lemma taken_map {f : α → γ} {num' : γ → μ}
    (h : ∀ a ∈ as, ∀ b ∈ as, num' (f a) = num' (f b) ↔ num a = num b) :
    taken num' (as.map f) = (taken num as).map f :=
  (List.map_destutter fun a ha b hb => not_congr (h a ha b hb).symm).symm

lemma taken_subset (as : List α) : taken num as ⊆ as := (List.destutter_sublist _ as).subset

end Receiver

/-! ## Numbers that do not go back -/

section Sorted

variable [LinearOrder ν] {num : α → ν}

/-- **The numbers taken**, if no number goes back: each number once. -/
lemma map_taken (h : (as.map num).SortedLE) : (taken num as).map num = (as.map num).dedup := by
  have hmap : (taken num as).map num = (as.map num).destutter (· ≠ ·) :=
    List.map_destutter fun _ _ _ _ => Iff.rfl
  rw [hmap]
  exact h.pairwise.destutter_eq_dedup

lemma mem_map_taken (h : (as.map num).SortedLE) {k : ν} :
    k ∈ (taken num as).map num ↔ k ∈ as.map num := by
  rw [map_taken h, List.mem_dedup]

/-- The numbers taken increase. -/
lemma sortedLT_map_taken (h : (as.map num).SortedLE) : ((taken num as).map num).SortedLT := by
  rw [map_taken h]
  refine List.Pairwise.sortedLT ?_
  refine ((h.pairwise.sublist (List.dedup_sublist _)).and (List.nodup_dedup _)).imp ?_
  rintro k l ⟨hle, hne⟩
  exact lt_of_le_of_ne hle hne

omit [LinearOrder ν] in
/-- What depends only on the numbers agrees where the numbers agree. -/
lemma map_eq_of_map_eq {val : α → β} (hval : ∀ a ∈ as, ∀ b ∈ as, num a = num b → val a = val b)
    (hxs : xs ⊆ as) (hys : ys ⊆ as) (h : xs.map num = ys.map num) : xs.map val = ys.map val := by
  induction xs generalizing ys with
  | nil =>
    rw [List.map_nil, eq_comm, List.map_eq_nil_iff] at h
    rw [h]
  | cons x xs ih =>
    obtain ⟨y, ys, rfl, hhead, htail⟩ := List.map_eq_cons_iff.mp h.symm
    rw [List.cons_subset] at hxs hys
    rw [List.map_cons, List.map_cons, hval x hxs.1 y hys.1 hhead.symm, ih hxs.2 hys.2 htail.symm]

/-- **Each state that gets through is taken once, in order**: the receiver takes what it would take
of the messages sent, without the numbers of which every message is lost.

**Proof sketch.** The numbers taken on both sides increase, and are those delivered; so the numbers
agree, and a number determines the state. -/
theorem Carries.map_taken_eq (h : Carries as bs) (hsorted : (as.map num).SortedLE) {val : α → β}
    (hval : ∀ a ∈ as, ∀ b ∈ as, num a = num b → val a = val b) :
    (taken num bs).map val =
      ((taken num as).filter fun a => num a ∈ bs.map num).map val := by
  have hbs : (bs.map num).SortedLE := by
    refine List.Pairwise.sortedLE ?_
    rw [List.pairwise_map]
    exact h.pairwise (fun a => le_rfl) (List.pairwise_map.mp hsorted.pairwise)
  refine map_eq_of_map_eq hval (List.Subset.trans (taken_subset bs) h.subset)
    (fun a ha => taken_subset as (List.mem_of_mem_filter ha)) ?_
  refine (sortedLT_map_taken hbs).eq_of_mem_iff ?_ fun k => ?_
  · exact ((sortedLT_map_taken hsorted).pairwise.sublist
      (List.filter_sublist.map num)).sortedLT
  · rw [mem_map_taken hbs, List.mem_map (l := List.filter _ _)]
    constructor
    · intro hk
      obtain ⟨b, hb, rfl⟩ := List.mem_map.mp hk
      obtain ⟨a, ha, heq⟩ := List.mem_map.mp ((mem_map_taken hsorted).mpr
        (List.mem_map_of_mem (h.subset hb)))
      exact ⟨a, List.mem_filter.mpr ⟨ha, by simpa [heq] using ⟨b, hb, rfl⟩⟩, heq⟩
    · rintro ⟨a, ha, rfl⟩
      simpa using (List.mem_filter.mp ha).2

end Sorted

end Link
