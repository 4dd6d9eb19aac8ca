import Mathlib.Data.List.Nodup
import Mathlib.Logic.Function.Basic

set_option relaxedAutoImplicit false
set_option autoImplicit false

/-!
# Linked lists with back pointers

The lists of `sys/queue.h`: a head that points to the first element, and in every element a pointer
to the next one (`le_next`) and the address of the pointer that points to it (`le_prev`). An element
can therefore be taken out without a walk from the head. The elements are the addresses of objects;
a heap says what their two fields hold, whether or not they are in a list.

## Main definitions

* `LinkedList.Heap`, `LinkedList.Slot` — the fields, and the cells that point to an element.
* `LinkedList.Heap.insertAt`, `LinkedList.Heap.remove` — insertion behind a cell, and removal.
* `LinkedList.foreach`, `LinkedList.findLast` — walks along the links.
* `LinkedList.Represents` — the heap holds a list.

## Main results

* `LinkedList.Represents.insertAt` — insertion at the end.
* `LinkedList.Represents.remove` — removal anywhere.
* `LinkedList.Represents.next_eq` — the link of an element leads to the rest of the list.
* `LinkedList.Represents.next_remove` — a removed element still links to what was behind it.
* `LinkedList.foreach_rule` — the loop rule of a walk whose turns may change the list.
-/

namespace LinkedList

/-- The cells that hold a pointer to an element. -/
inductive Slot (α : Type*)
  | head
  | next (a : α)
  deriving DecidableEq

/-- The head of a list and the fields of the elements. -/
structure Heap (α : Type*) where
  head : Option α
  next : α → Option α
  prev : α → Slot α

/-! ## Lists in the heap -/

section Lists

variable {α : Type*} {h h' : Heap α} {s : Slot α} {as bs : List α} {a : α}

/-- What a cell points to. -/
def Heap.load (h : Heap α) : Slot α → Option α
  | .head => h.head
  | .next a => h.next a

/-- From the cell `s` on, the elements `as` follow each other and point back. -/
def Segment (h : Heap α) : Slot α → List α → Prop
  | _, [] => True
  | s, a :: as => h.load s = some a ∧ h.prev a = s ∧ Segment h (.next a) as

/-- The cell behind the last element. -/
def lastSlot : Slot α → List α → Slot α
  | s, [] => s
  | _, a :: as => lastSlot (.next a) as

/-- The cells that point to the elements. -/
def cells : Slot α → List α → List (Slot α)
  | _, [] => []
  | s, a :: as => s :: cells (.next a) as

/-- **The heap holds the list `as`.** -/
structure Represents (h : Heap α) (as : List α) : Prop where
  segment : Segment h .head as
  load_last : h.load (lastSlot .head as) = none
  nodup : as.Nodup

/-- The cell is not a link of one of the elements. -/
def Outside (s : Slot α) (as : List α) : Prop := ∀ a ∈ as, s ≠ .next a

lemma head_ne_next : Slot.head ≠ .next a := by
  intro heq
  cases heq

lemma outside_head (as : List α) : Outside .head as := fun _ _ => head_ne_next

lemma outside_next (ha : a ∉ as) : Outside (.next a) as := by
  intro b hb heq
  obtain rfl := Slot.next.inj heq
  exact ha hb

lemma lastSlot_append (s : Slot α) (as bs : List α) :
    lastSlot s (as ++ bs) = lastSlot (lastSlot s as) bs := by
  induction as generalizing s with
  | nil => rfl
  | cons a as ih => exact ih (.next a)

/-- A cell behind a segment is its first cell or a link of an element. -/
lemma lastSlot_eq_or (s : Slot α) (as : List α) :
    lastSlot s as = s ∨ ∃ a ∈ as, lastSlot s as = .next a := by
  induction as generalizing s with
  | nil => exact Or.inl rfl
  | cons a as ih =>
    rcases ih (.next a) with hlast | ⟨b, hb, hlast⟩
    · exact Or.inr ⟨a, List.mem_cons_self, hlast⟩
    · exact Or.inr ⟨b, List.mem_cons_of_mem a hb, hlast⟩

lemma lastSlot_ne_next (ha : a ∉ as) : lastSlot .head as ≠ .next a := by
  intro heq
  rcases lastSlot_eq_or .head as with hlast | ⟨b, hb, hlast⟩
  · exact head_ne_next (hlast.symm.trans heq)
  · obtain rfl := Slot.next.inj (hlast.symm.trans heq)
    exact ha hb

lemma eq_or_of_mem_cells {c : Slot α} (hc : c ∈ cells s as) : c = s ∨ ∃ a ∈ as, c = .next a := by
  induction as generalizing s with
  | nil => cases hc
  | cons a as ih =>
    rcases List.mem_cons.mp hc with rfl | hc
    · exact Or.inl rfl
    · rcases ih hc with rfl | ⟨b, hb, rfl⟩
      · exact Or.inr ⟨a, List.mem_cons_self, rfl⟩
      · exact Or.inr ⟨b, List.mem_cons_of_mem a hb, rfl⟩

/-- The link of an element that is not among `as` is not among its cells. -/
lemma next_not_mem_cells (hs : s ≠ .next a) (ha : a ∉ as) : Slot.next a ∉ cells s as := by
  intro hc
  rcases eq_or_of_mem_cells hc with heq | ⟨b, hb, heq⟩
  · exact hs heq.symm
  · obtain rfl := Slot.next.inj heq
    exact ha hb

/-- The last cell does not point to an element. -/
lemma lastSlot_not_mem_cells (hs : Outside s as) (hnodup : as.Nodup) :
    lastSlot s as ∉ cells s as := by
  induction as generalizing s with
  | nil => exact List.not_mem_nil
  | cons a as ih =>
    rw [List.nodup_cons] at hnodup
    rw [lastSlot, cells, List.mem_cons, not_or]
    refine ⟨fun heq => ?_, ih (outside_next hnodup.1) hnodup.2⟩
    rcases lastSlot_eq_or (.next a) as with hlast | ⟨b, hb, hlast⟩
    · exact hs a List.mem_cons_self (heq.symm.trans hlast)
    · exact hs b (List.mem_cons_of_mem a hb) (heq.symm.trans hlast)

lemma segment_append :
    Segment h s (as ++ bs) ↔ Segment h s as ∧ Segment h (lastSlot s as) bs := by
  induction as generalizing s with
  | nil => simp [Segment, lastSlot]
  | cons a as ih => simp [Segment, lastSlot, ih, and_assoc]

/-- A segment depends on the cells that point to its elements and on their back pointers. -/
lemma Segment.congr (hseg : Segment h s as) (hload : ∀ c ∈ cells s as, h'.load c = h.load c)
    (hprev : ∀ a ∈ as, h'.prev a = h.prev a) : Segment h' s as := by
  induction as generalizing s with
  | nil => trivial
  | cons a as ih =>
    obtain ⟨hfirst, hback, hrest⟩ := hseg
    refine ⟨?_, ?_, ih hrest ?_ ?_⟩
    · rw [hload s List.mem_cons_self, hfirst]
    · rw [hprev a List.mem_cons_self, hback]
    · exact fun c hc => hload c (List.mem_cons_of_mem s hc)
    · exact fun b hb => hprev b (List.mem_cons_of_mem a hb)

/-- The first cell of a segment that ends the list points to its first element. -/
lemma Segment.load_eq_head? (hseg : Segment h s as) (hlast : h.load (lastSlot s as) = none) :
    h.load s = as.head? := by
  cases as with
  | nil => exact hlast
  | cons a as => exact hseg.1

lemma Represents.head_eq (hrep : Represents h as) : h.head = as.head? :=
  hrep.segment.load_eq_head? hrep.load_last

/-- **The link of an element leads to the rest of the list.** -/
lemma Represents.next_eq (hrep : Represents h (as ++ a :: bs)) : h.next a = bs.head? := by
  obtain ⟨-, -, -, hrest⟩ := segment_append.mp hrep.segment
  have hlast := hrep.load_last
  rw [lastSlot_append] at hlast
  exact hrest.load_eq_head? hlast

/-- The back pointer of an element is the cell that points to it. -/
lemma Represents.prev_eq (hrep : Represents h (as ++ a :: bs)) : h.prev a = lastSlot .head as :=
  (segment_append.mp hrep.segment).2.2.1

/-- The element is not among the others. -/
lemma Represents.not_mem (hrep : Represents h (as ++ a :: bs)) : a ∉ as ∧ a ∉ bs := by
  have hnodup := hrep.nodup
  rw [List.nodup_middle, List.nodup_cons, List.mem_append, not_or] at hnodup
  exact hnodup.1

end Lists

/-! ## Stores -/

section Stores

variable {α : Type*} [DecidableEq α] {h : Heap α} {s s' : Slot α} {as bs : List α} {a : α}
  {v : Option α}

namespace Heap

/-- The heap with the pointer in a cell replaced. -/
def store (h : Heap α) (s : Slot α) (v : Option α) : Heap α :=
  match s with
  | .head => { h with head := v }
  | .next a => { h with next := Function.update h.next a v }

/-- The heap with the back pointer of an element replaced, if there is an element. -/
def setPrev (h : Heap α) (b : Option α) (s : Slot α) : Heap α :=
  match b with
  | none => h
  | some b => { h with prev := Function.update h.prev b s }

/-- `LIST_INSERT_HEAD` at the head, `LIST_INSERT_AFTER` at the link of an element. -/
def insertAt (h : Heap α) (s : Slot α) (a : α) : Heap α :=
  let h₁ := (h.store (.next a) (h.load s)).setPrev (h.load s) (.next a)
  (h₁.store s (some a)).setPrev (some a) s

/-- `LIST_REMOVE`. -/
def remove (h : Heap α) (a : α) : Heap α :=
  let h₁ := h.setPrev (h.next a) (h.prev a)
  h₁.store (h₁.prev a) (h₁.next a)

lemma load_store_self (h : Heap α) (s : Slot α) (v : Option α) : (h.store s v).load s = v := by
  cases s with
  | head => rfl
  | next a => simp [store, load]

lemma load_store_of_ne (hs : s' ≠ s) : (h.store s v).load s' = h.load s' := by
  cases s with
  | head =>
    cases s' with
    | head => exact absurd rfl hs
    | next b => rfl
  | next a =>
    cases s' with
    | head => rfl
    | next b =>
      have hb : b ≠ a := fun heq => hs (heq ▸ rfl)
      simp [store, load, hb]

@[simp] lemma prev_store (h : Heap α) (s : Slot α) (v : Option α) :
    (h.store s v).prev = h.prev := by
  cases s <;> rfl

@[simp] lemma load_setPrev (h : Heap α) (b : Option α) (s s' : Slot α) :
    (h.setPrev b s).load s' = h.load s' := by
  cases b with
  | none => rfl
  | some b => cases s' <;> rfl

lemma prev_setPrev_self (h : Heap α) (b : α) (s : Slot α) :
    (h.setPrev (some b) s).prev b = s := by
  simp [setPrev]

lemma prev_setPrev_of_ne {b : Option α} (ha : b ≠ some a) : (h.setPrev b s).prev a = h.prev a := by
  cases b with
  | none => rfl
  | some b =>
    have hab : a ≠ b := fun heq => ha (heq ▸ rfl)
    simp [setPrev, hab]

/-- Insertion behind the last cell. -/
lemma insertAt_eq (hs : h.load s = none) :
    h.insertAt s a = ((h.store (.next a) none).store s (some a)).setPrev (some a) s := by
  rw [insertAt, hs]
  rfl

/-- Removal, for an element that does not link to itself. -/
lemma remove_eq (ha : h.next a ≠ some a) :
    h.remove a = (h.setPrev (h.next a) (h.prev a)).store (h.prev a) (h.next a) := by
  have hnext : (h.setPrev (h.next a) (h.prev a)).next a = h.next a :=
    load_setPrev h (h.next a) (h.prev a) (.next a)
  show (h.setPrev _ _).store ((h.setPrev _ _).prev a) ((h.setPrev _ _).next a) = _
  rw [prev_setPrev_of_ne ha, hnext]

end Heap

/-- **Insertion at the end.** -/
theorem Represents.insertAt (hrep : Represents h as) (ha : a ∉ as) :
    Represents (h.insertAt (lastSlot .head as) a) (as ++ [a]) := by
  have hlast : lastSlot .head as ≠ .next a := lastSlot_ne_next ha
  rw [Heap.insertAt_eq hrep.load_last]
  constructor
  · rw [segment_append]
    refine ⟨hrep.segment.congr (fun c hc => ?_) (fun b hb => ?_), ?_, ?_, trivial⟩
    · have hc₁ : c ≠ lastSlot .head as := by
        rintro rfl
        exact lastSlot_not_mem_cells (outside_head as) hrep.nodup hc
      have hc₂ : c ≠ .next a := by
        rintro rfl
        exact next_not_mem_cells head_ne_next ha hc
      rw [Heap.load_setPrev, Heap.load_store_of_ne hc₁, Heap.load_store_of_ne hc₂]
    · have hab : some a ≠ some b := fun heq => ha (Option.some.inj heq ▸ hb)
      rw [Heap.prev_setPrev_of_ne hab, Heap.prev_store, Heap.prev_store]
    · rw [Heap.load_setPrev, Heap.load_store_self]
    · exact Heap.prev_setPrev_self _ _ _
  · rw [lastSlot_append]
    show (((h.store (.next a) none).store _ (some a)).setPrev (some a) _).load (.next a) = none
    rw [Heap.load_setPrev, Heap.load_store_of_ne hlast.symm, Heap.load_store_self]
  · exact List.nodup_append'.mpr ⟨hrep.nodup, List.nodup_singleton a, by simpa using ha⟩

section Remove

variable (hrep : Represents h (as ++ a :: bs))

include hrep

/-- What removal does to an element of the list: its predecessor gets its link, and what follows
gets its back pointer. -/
lemma Represents.remove_eq :
    h.remove a = (h.setPrev bs.head? (lastSlot .head as)).store (lastSlot .head as) bs.head? := by
  have hself : h.next a ≠ some a := by
    rw [hrep.next_eq]
    intro heq
    exact hrep.not_mem.2 (List.mem_of_mem_head? heq)
  rw [Heap.remove_eq hself, hrep.next_eq, hrep.prev_eq]

/-- **A removed element still links to what was behind it.** -/
lemma Represents.next_remove : (h.remove a).next a = bs.head? := by
  have hlast : Slot.next a ≠ lastSlot .head as := (lastSlot_ne_next hrep.not_mem.1).symm
  show (h.remove a).load (.next a) = bs.head?
  rw [hrep.remove_eq, Heap.load_store_of_ne hlast, Heap.load_setPrev]
  exact hrep.next_eq

/-- **Removal anywhere.**

**Proof sketch.** The cell `t` behind `as` and the back pointer of the first element of `bs` are all
that changes. No element of `as` is found through `t`, and none of `bs` but the first. -/
theorem Represents.remove : Represents (h.remove a) (as ++ bs) := by
  obtain ⟨hfront, -, -, hback⟩ := segment_append.mp hrep.segment
  have hnodup := hrep.nodup
  rw [List.nodup_middle, List.nodup_cons, List.nodup_append'] at hnodup
  obtain ⟨-, has, hbs, hdisjoint⟩ := hnodup
  have hload : h.load (lastSlot (.next a) bs) = none := by
    have hlast := hrep.load_last
    rwa [lastSlot_append] at hlast
  rw [hrep.remove_eq]
  set t := lastSlot .head as with ht
  have hbeside : ∀ y ∈ bs, t ≠ .next y := fun y hy => lastSlot_ne_next fun hy' => hdisjoint hy' hy
  constructor
  · rw [segment_append]
    constructor
    · refine hfront.congr (fun c hc => ?_) (fun x hx => ?_)
      · have hct : c ≠ t := by
          rintro rfl
          exact lastSlot_not_mem_cells (outside_head as) has hc
        rw [Heap.load_store_of_ne hct, Heap.load_setPrev]
      · have hxb : bs.head? ≠ some x := fun heq =>
          hdisjoint hx (List.mem_of_mem_head? heq)
        rw [Heap.prev_store, Heap.prev_setPrev_of_ne hxb]
    · cases bs with
      | nil => trivial
      | cons b bs =>
        rw [List.nodup_cons] at hbs
        rw [← ht]
        refine ⟨Heap.load_store_self _ _ _, ?_, hback.2.2.congr (fun c hc => ?_) (fun x hx => ?_)⟩
        · rw [Heap.prev_store]
          exact Heap.prev_setPrev_self _ _ _
        · have hct : c ≠ t := by
            rcases eq_or_of_mem_cells hc with rfl | ⟨x, hx, rfl⟩
            · exact (hbeside b List.mem_cons_self).symm
            · exact (hbeside x (List.mem_cons_of_mem b hx)).symm
          rw [Heap.load_store_of_ne hct, Heap.load_setPrev]
        · have hxb : (b :: bs).head? ≠ some x := by
            intro heq
            exact hbs.1 (Option.some.inj heq ▸ hx)
          rw [Heap.prev_store, Heap.prev_setPrev_of_ne hxb]
  · rw [lastSlot_append, ← ht]
    cases bs with
    | nil => exact Heap.load_store_self _ _ _
    | cons b bs =>
      have hne : lastSlot t (b :: bs) ≠ t := by
        rcases lastSlot_eq_or (.next b) bs with hlast | ⟨x, hx, hlast⟩
        · exact fun heq => hbeside b List.mem_cons_self (heq.symm.trans hlast)
        · exact fun heq => hbeside x (List.mem_cons_of_mem b hx) (heq.symm.trans hlast)
      rw [Heap.load_store_of_ne hne, Heap.load_setPrev]
      exact hload
  · exact List.nodup_append'.mpr ⟨has, hbs, hdisjoint⟩

end Remove

end Stores

/-! ## Walks -/

section Walks

variable {α σ : Type*} {turn : σ → α → Option α × σ}

/-- `LIST_FOREACH`: a turn for an element gives the link to the next one, which is read after
everything else that the turn does. The walk is given a number of turns. -/
def foreach (turn : σ → α → Option α × σ) : ℕ → Option α → σ → Option σ
  | 0, _, _ => none
  | _ + 1, none, s => some s
  | fuel + 1, some a, s => foreach turn fuel (turn s a).1 (turn s a).2

/-- The walk to the last element. -/
def findLast (h : Heap α) : ℕ → α → Option α
  | 0, _ => none
  | fuel + 1, last =>
    match h.next last with
    | none => some last
    | some a => findLast h fuel a

/-- **The loop rule**: if the turn for an element keeps an invariant of the elements done and those
to do, and gives a link to the next one to do, then the walk ends and has done all. -/
theorem foreach_rule {Inv : List α → List α → σ → Prop}
    (hturn : ∀ done a todo s, Inv done (a :: todo) s →
      (turn s a).1 = todo.head? ∧ Inv (done ++ [a]) todo (turn s a).2)
    {done todo : List α} {s : σ} (h : Inv done todo s) {fuel : ℕ} (hfuel : todo.length < fuel) :
    ∃ s', foreach turn fuel todo.head? s = some s' ∧ Inv (done ++ todo) [] s' := by
  induction todo generalizing done s fuel with
  | nil =>
    cases fuel with
    | zero => omega
    | succ fuel => exact ⟨s, rfl, by rwa [List.append_nil]⟩
  | cons a todo ih =>
    cases fuel with
    | zero => omega
    | succ fuel =>
      obtain ⟨hnext, hinv⟩ := hturn done a todo s h
      have hfuel' : todo.length < fuel := Nat.lt_of_succ_lt_succ hfuel
      obtain ⟨s', hs', hdone⟩ := ih hinv hfuel'
      refine ⟨s', ?_, by rwa [List.append_assoc] at hdone⟩
      rw [List.head?_cons, foreach, hnext, hs']

/-- The walk to the last element ends there. -/
lemma Represents.findLast_eq {h : Heap α} {as bs : List α} {a : α} {fuel : ℕ}
    (hrep : Represents h (as ++ a :: bs)) (hfuel : bs.length < fuel) :
    ∃ last, findLast h fuel a = some last ∧ .next last = lastSlot .head (as ++ a :: bs) := by
  induction bs generalizing as a fuel with
  | nil =>
    cases fuel with
    | zero => omega
    | succ fuel =>
      refine ⟨a, ?_, by rw [lastSlot_append]; rfl⟩
      rw [findLast, hrep.next_eq]
      rfl
  | cons b bs ih =>
    cases fuel with
    | zero => omega
    | succ fuel =>
      rw [findLast, hrep.next_eq]
      rw [List.append_cons] at hrep ⊢
      exact ih hrep (Nat.lt_of_succ_lt_succ hfuel)

end Walks

end LinkedList
