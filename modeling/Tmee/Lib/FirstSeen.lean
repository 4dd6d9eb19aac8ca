import Mathlib.Data.List.Nodup
import Mathlib.Data.List.Infix

set_option relaxedAutoImplicit false
set_option autoImplicit false

/-!
# Tables filled in order of first occurrence

A table of bounded size receives a sequence of keys and stores each key at its first occurrence
while there is room. What such a table holds depends on the sequence only: the first `cap` of its
distinct keys.

## Main definitions

* `FirstSeen.table` — the keys stored after a sequence, in order of arrival.

## Main results

* `FirstSeen.table_concat_of_mem`, `FirstSeen.table_concat_of_full`,
  `FirstSeen.table_concat_of_room` — what one more key does to the table.
* `FirstSeen.mem_table_append_iff` — whether a key that has been seen is stored never changes.
-/

namespace FirstSeen

variable {α : Type*} [DecidableEq α] {cap : ℕ} {l l' : List α} {a : α}

/-- The keys stored after the sequence `l`, in order of arrival. -/
def table (cap : ℕ) (l : List α) : List α := l.eraseDups.take cap

lemma nodup_eraseDups (l : List α) : l.eraseDups.Nodup := by
  induction h : l.length using Nat.strong_induction_on generalizing l with
  | _ n ih =>
    cases l with
    | nil => simp
    | cons b bs =>
      rw [List.eraseDups_cons, List.nodup_cons]
      constructor
      · simp
      · apply ih _ _ _ rfl
        have := List.length_filter_le (fun x => !x == b) bs
        simp only [List.length_cons] at h
        omega

@[simp] lemma table_nil (cap : ℕ) : table cap ([] : List α) = [] := by
  simp [table]

/-- No key is stored twice. -/
lemma nodup_table (cap : ℕ) (l : List α) : (table cap l).Nodup :=
  (nodup_eraseDups l).sublist (List.take_sublist cap _)

lemma length_table_le (cap : ℕ) (l : List α) : (table cap l).length ≤ cap :=
  List.length_take_le cap _

/-- A stored key has been seen. -/
lemma mem_of_mem_table (h : a ∈ table cap l) : a ∈ l := by
  simpa using List.mem_of_mem_take h

lemma eraseDups_concat (l : List α) (a : α) :
    (l ++ [a]).eraseDups = if a ∈ l then l.eraseDups else l.eraseDups ++ [a] := by
  rw [List.eraseDups_append]
  split_ifs with h
  · simp [List.removeAll, h]
  · simp [List.removeAll, h, List.eraseDups_cons]

lemma eraseDups_of_nodup (h : l.Nodup) : l.eraseDups = l := by
  induction l using List.reverseRecOn with
  | nil => rfl
  | append_singleton l a ih =>
    rw [← List.concat_eq_append, List.nodup_concat] at h
    rw [eraseDups_concat, if_neg h.1, ih h.2]

/-- As long as there is room for all keys, all keys that have been seen are stored. -/
lemma mem_table_of_length_le (h : l.eraseDups.length ≤ cap) (ha : a ∈ l) : a ∈ table cap l := by
  rw [table, List.take_of_length_le h]
  simpa using ha

/-- Further keys only extend the table. -/
lemma table_prefix_append (cap : ℕ) (l l' : List α) : table cap l <+: table cap (l ++ l') := by
  rw [table, table, List.eraseDups_append, List.take_append]
  exact List.prefix_append _ _

/-- A stored key keeps its place. -/
lemma getElem?_table_append {i : ℕ} (h : (table cap l)[i]? = some a) (l' : List α) :
    (table cap (l ++ l'))[i]? = some a := by
  obtain ⟨hi, hget⟩ := List.getElem?_eq_some_iff.mp h
  rw [List.prefix_iff_getElem?.mp (table_prefix_append cap l l') i hi, hget]

/-- **A key that has been seen is stored or not for good.**

**Proof sketch.** Further keys are stored behind those of `l`, and none of them equals `a`. -/
lemma mem_table_append_iff (h : a ∈ l) : a ∈ table cap (l ++ l') ↔ a ∈ table cap l := by
  constructor
  · intro hmem
    rw [table, List.eraseDups_append, List.take_append, List.mem_append] at hmem
    rcases hmem with hmem | hmem
    · exact hmem
    · have hnew : a ∈ l'.removeAll l := by simpa using List.mem_of_mem_take hmem
      simp [List.removeAll, h] at hnew
  · intro hmem
    exact (table_prefix_append cap l l').subset hmem

/-- A stored key changes nothing. -/
lemma table_concat_of_mem (h : a ∈ table cap l) : table cap (l ++ [a]) = table cap l := by
  rw [table, eraseDups_concat, if_pos (mem_of_mem_table h), table]

/-- In a full table a key changes nothing. -/
lemma table_concat_of_full (h : (table cap l).length = cap) :
    table cap (l ++ [a]) = table cap l := by
  refine ((table_prefix_append cap l [a]).eq_of_length_le ?_).symm
  rw [h]
  exact length_table_le cap (l ++ [a])

/-- Behind as many distinct keys as there is room for, a new key is not stored. -/
lemma not_mem_table_concat (hnodup : l.Nodup) (hlen : l.length = cap) (h : a ∉ l) :
    a ∉ table cap (l ++ [a]) := by
  have hall : table cap l = l := by
    rw [table, eraseDups_of_nodup hnodup, List.take_of_length_le hlen.le]
  rwa [table_concat_of_full (hall.symm ▸ hlen), hall]

/-- A new key is stored if there is room. -/
lemma table_concat_of_room (h : a ∉ table cap l) (hroom : (table cap l).length < cap) :
    table cap (l ++ [a]) = table cap l ++ [a] := by
  have hlt : l.eraseDups.length < cap := by
    rw [table, List.length_take] at hroom
    omega
  have hall : table cap l = l.eraseDups := List.take_of_length_le hlt.le
  have hnew : a ∉ l := by
    intro hmem
    apply h
    simpa [hall] using hmem
  rw [hall, table, eraseDups_concat, if_neg hnew]
  apply List.take_of_length_le
  rw [List.length_append, List.length_singleton]
  omega

/-- What is stored after one more key was stored before or is that key. -/
lemma mem_table_concat {b : α} (h : b ∈ table cap (l ++ [a])) : b ∈ table cap l ∨ b = a := by
  by_cases hmem : a ∈ table cap l
  · exact .inl (table_concat_of_mem hmem ▸ h)
  by_cases hroom : (table cap l).length < cap
  · rw [table_concat_of_room hmem hroom, List.mem_append, List.mem_singleton] at h
    exact h
  · rw [table_concat_of_full (le_antisymm (length_table_le cap l) (not_lt.mp hroom))] at h
    exact .inl h

/-- The next key is stored after its arrival if it was stored before or there is room. -/
lemma mem_table_concat_iff :
    a ∈ table cap (l ++ [a]) ↔ a ∈ table cap l ∨ (table cap l).length < cap := by
  by_cases hmem : a ∈ table cap l
  · rw [table_concat_of_mem hmem]
    exact iff_of_true hmem (Or.inl hmem)
  · by_cases hroom : (table cap l).length < cap
    · rw [table_concat_of_room hmem hroom]
      exact iff_of_true (by simp) (Or.inr hroom)
    · rw [table_concat_of_full (le_antisymm (length_table_le cap l) (not_lt.mp hroom))]
      exact iff_of_false hmem (not_or.mpr ⟨hmem, hroom⟩)

end FirstSeen
