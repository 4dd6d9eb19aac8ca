import Tmee.GoosePublisher.Delivery
import Tmee.GoosePublisher.Schedule

set_option relaxedAutoImplicit false
set_option autoImplicit false

/-!
# Catching up with the rings

The lag of an input is the number of entries between its position and the index of its ring, going
round the ring. A call of `event` brings every input one entry on, or to the index if it lags by
more than `MAX_LAG`, and publishes if there was an input to bring on. So without new entries the
calls publish as often as the input that needs most of them, and then no more.

## Main definitions

* `Tmee.DataInput.lag` — the lag of an input.
* `Tmee.DataInput.pending`, `Tmee.Publisher.pending` — the number of calls that an input, and the
  publisher, needs to catch up.
* `Tmee.Publisher.KeepsLag` — what one call and what repeated calls do to the lags.

## Main results

* `Tmee.DataInput.Placed.poll_eq` — what a poll does to the lag of its input.
* `Tmee.Publisher.eventResults_eq` — how often repeated calls publish.
* `Tmee.keepsLag_iff` — when the calls do what they should.
-/

namespace Tmee

open NumberedRing

namespace DataInput

/-- The number of entries of the ring behind the position, going round the ring. -/
def lag (d : DataInput) : ℤ := (d.buffer.index - d.oldIndex) % d.buffer.items

/-- The number of calls of `event` that the input needs: one for every entry, and one for the jump
of an input that lags too much. -/
def pending (maxLag : ℤ) (d : DataInput) : ℕ := if d.lag > maxLag then 1 else d.lag.toNat

/-- An input whose ring has a type with the update function that `init` has selected, at a position
of the ring. -/
structure Placed (d : DataInput) : Prop where
  wellFormed : ∃ type, WellFormed type (typeToItemSize type).toNat d.buffer ∧
    d.updateFunction = UpdateFunction.ofType type
  oldIndex_nonneg : 0 ≤ d.oldIndex
  oldIndex_lt : d.oldIndex < d.buffer.items

/-- The input has been brought on by a call: it is at a position of the same ring, one entry on if
it lagged by up to `maxLag` entries, and at the index else. -/
structure BroughtOn (maxLag : ℤ) (d d' : DataInput) : Prop where
  buffer_eq : d'.buffer = d.buffer
  updateFunction_eq : d'.updateFunction = d.updateFunction
  oldIndex_nonneg : 0 ≤ d'.oldIndex
  oldIndex_lt : d'.oldIndex < d'.buffer.items
  lag_eq : d'.lag = if 1 ≤ d.lag ∧ d.lag ≤ maxLag then d.lag - 1 else 0

end DataInput

namespace Publisher

/-- The number of calls of `event` that bring all inputs to their indices. -/
def pending (p : Publisher) : ℕ := (p.inputs.map (DataInput.pending p.maxLag)).foldr max 0

/-- What a call of `event` does: it brings every input on, and publishes one message and returns
`1` if some input lagged, and else returns `0`. -/
structure BringsOn (p : Publisher) (result : ℤ) (p' : Publisher) : Prop where
  inputs : List.Forall₂ (DataInput.BroughtOn p.maxLag) p.inputs p'.inputs
  publishes : (∃ d ∈ p.inputs, d.lag ≠ 0) →
    result = 1 ∧ ∃ message, p'.published = p.published ++ [message]
  quiet : (∀ d ∈ p.inputs, d.lag = 0) → result = 0 ∧ p'.published = p.published

/-- Calls of `event` without new entries, and their results. -/
def eventResults : ℕ → Publisher → Except Fault (List ℤ × Publisher)
  | 0, p => .ok ([], p)
  | k + 1, p => do
    let (result, p) ← p.event
    let (results, p) ← eventResults k p
    return (result :: results, p)

/-- **The publisher keeps up with its rings**: a call returns and brings the inputs on, and any
number of calls return `1` as often as the input needs that needs most, and then `0`. -/
def KeepsLag (p : Publisher) : Prop :=
  (∃ result p', p.event = .ok (result, p') ∧ p.BringsOn result p') ∧
    ∀ k, ∃ p', eventResults k p = .ok
      (List.replicate (min k p.pending) 1 ++ List.replicate (k - p.pending) 0, p')

end Publisher

/-! ## One input -/

section Poll

variable {maxLag : ℤ} {d d' : DataInput}

/-- The types with an update function are those that it reads. -/
lemma UpdateFunction.writer_of_ofType {type : ℤ} {update : UpdateFunction}
    (h : UpdateFunction.ofType type = some update) : type = update.writer.type := by
  rw [ofType] at h
  split_ifs at h with hbool hint8 hint32
  · rw [← Option.some.inj h, hbool]
    rfl
  · rw [← Option.some.inj h, hint8]
    rfl
  · rw [← Option.some.inj h, hint32]
    rfl

namespace DataInput

lemma Placed.items_pos (h : d.Placed) : 0 < d.buffer.items := by
  obtain ⟨type, hring, -⟩ := h.wellFormed
  exact hring.items_pos

lemma Placed.items_lt (h : d.Placed) : d.buffer.items < 2 ^ 31 := by
  obtain ⟨type, hring, -⟩ := h.wellFormed
  exact hring.items_lt

lemma Placed.index_mem (h : d.Placed) :
    0 ≤ d.buffer.index ∧ d.buffer.index < d.buffer.items := by
  obtain ⟨type, hring, -⟩ := h.wellFormed
  exact ⟨hring.index_nonneg, hring.index_lt⟩

lemma Placed.length_ge (h : d.Placed) : 16 ≤ d.buffer.length := by
  obtain ⟨type, hring, -⟩ := h.wellFormed
  exact hring.length_ge

lemma Placed.readItems_eq (h : d.Placed) : readItems.run' d.buffer = .ok d.buffer.items := by
  rw [StateT.run', Tmee.readItems_eq h.length_ge]
  rfl

lemma Placed.lag_mem (h : d.Placed) : 0 ≤ d.lag ∧ d.lag < d.buffer.items :=
  ⟨Int.emod_nonneg _ h.items_pos.ne', Int.emod_lt_of_pos _ h.items_pos⟩

/-- The lag by the two positions. -/
lemma Placed.lag_eq (h : d.Placed) :
    d.lag = if d.buffer.index - d.oldIndex < 0 then d.buffer.index - d.oldIndex + d.buffer.items
      else d.buffer.index - d.oldIndex := by
  obtain ⟨hi₀, hi₁⟩ := h.index_mem
  rw [lag, sub_emod_eq h.items_pos, Int.emod_eq_of_lt hi₀ hi₁,
    Int.emod_eq_of_lt h.oldIndex_nonneg h.oldIndex_lt]

/-- An input has an update if and only if it lags. -/
lemma Placed.hasUpdate_iff (h : d.Placed) : d.HasUpdate ↔ d.lag ≠ 0 := by
  have h₀ := h.oldIndex_nonneg
  have h₁ := h.oldIndex_lt
  obtain ⟨hi₀, hi₁⟩ := h.index_mem
  rw [HasUpdate, h.lag_eq]
  split_ifs <;> omega

/-- The difference that the publisher computes is the lag. -/
lemma Placed.diff_eq (h : d.Placed) : d.diff d.buffer.index = .ok d.lag := by
  have h₀ := h.oldIndex_nonneg
  have h₁ := h.oldIndex_lt
  have hlt := h.items_lt
  obtain ⟨hi₀, hi₁⟩ := h.index_mem
  have hsub : cInt (d.buffer.index - d.oldIndex) = .ok (d.buffer.index - d.oldIndex) :=
    cInt_eq_ok (by omega) (by omega)
  rw [diff, hsub, h.lag_eq]
  show (if d.buffer.index - d.oldIndex < 0 then _ else _) = _
  split_ifs with hneg
  · rw [h.readItems_eq]
    exact cInt_eq_ok (by omega) (by omega)
  · rfl

/-- The position that a poll goes to. -/
lemma Placed.nextIndex_eq (h : d.Placed) (maxLag : ℤ) : d.nextIndex maxLag d.buffer.index =
    .ok (if d.lag > maxLag then d.buffer.index else (d.oldIndex + 1) % d.buffer.items) := by
  have h₀ := h.oldIndex_nonneg
  have h₁ := h.oldIndex_lt
  have hlt := h.items_lt
  have hadd : cInt (d.oldIndex + 1) = .ok (d.oldIndex + 1) := cInt_eq_ok (by omega) (by omega)
  rw [nextIndex, h.diff_eq]
  show (if d.lag > maxLag then _ else _) = _
  split_ifs with hlag
  · rfl
  · rw [h.readItems_eq, hadd]
    exact cRem_eq_ok (by omega) h.items_pos hlt

/-- One entry on, the lag is one less. -/
lemma Placed.lag_next (h : d.Placed) (hlag : 1 ≤ d.lag) :
    (d.buffer.index - (d.oldIndex + 1) % d.buffer.items) % d.buffer.items = d.lag - 1 := by
  have hlt := h.lag_mem.2
  have hsub : d.buffer.index - (d.oldIndex + 1) = d.buffer.index - d.oldIndex - 1 := by ring
  rw [Int.sub_emod_emod, hsub, ← Int.emod_sub_emod]
  exact Int.emod_eq_of_lt (by unfold lag at hlag; omega) (by unfold lag at hlag hlt; omega)

/-- An input that has been brought on is at a position of its ring again. -/
lemma Placed.broughtOn (h : d.Placed) (hon : BroughtOn maxLag d d') : d'.Placed where
  wellFormed := by
    rw [hon.buffer_eq, hon.updateFunction_eq]
    exact h.wellFormed
  oldIndex_nonneg := hon.oldIndex_nonneg
  oldIndex_lt := hon.oldIndex_lt

/-- **A poll brings its input on**, if the input does not lag or has an update function. -/
lemma Placed.poll_eq (h : d.Placed) (maxLag : ℤ)
    (hupdate : d.lag ≠ 0 → d.updateFunction ≠ none) :
    ∃ updated d', d.poll maxLag = .ok (updated, d') ∧ BroughtOn maxLag d d' := by
  have hn := h.items_pos
  have hread : readIndex.run' d.buffer = .ok d.buffer.index := by
    rw [StateT.run', readIndex_eq h.length_ge]
    rfl
  obtain ⟨hlag₀, hlag₁⟩ := h.lag_mem
  by_cases hlag : d.lag = 0
  · have hsame : ¬ d.oldIndex ≠ d.buffer.index := fun hne => h.hasUpdate_iff.mp hne hlag
    refine ⟨false, d, ?_, rfl, rfl, h.oldIndex_nonneg, h.oldIndex_lt, ?_⟩
    · simp only [poll, hread, Fallible.ok_bind, if_neg hsame]
      rfl
    · rw [if_neg (by omega), hlag]
  · obtain ⟨update, hsome⟩ := Option.ne_none_iff_exists'.mp (hupdate hlag)
    obtain ⟨type, hring, htype⟩ := h.wellFormed
    obtain rfl := UpdateFunction.writer_of_ofType (htype.symm.trans hsome)
    have hwidth : (typeToItemSize update.writer.type).toNat = update.writer.width := by
      cases update <;> rfl
    rw [hwidth] at hring
    set next := if d.lag > maxLag then d.buffer.index else (d.oldIndex + 1) % d.buffer.items
      with hnext
    have hmem : 0 ≤ next ∧ next < d.buffer.items := by
      rw [hnext]
      split_ifs
      · exact h.index_mem
      · exact ⟨Int.emod_nonneg _ hn.ne', Int.emod_lt_of_pos _ hn⟩
    have hne : d.oldIndex ≠ d.buffer.index := h.hasUpdate_iff.mpr hlag
    have hvalue := UpdateFunction.readInput_eq hring hmem.1 hmem.2
    refine ⟨true, { d with
      oldIndex := next
      element := update.mmsValue (d.buffer.slot update.writer.width next) :: d.element },
      ?_, rfl, rfl, hmem.1, hmem.2, ?_⟩
    · simp only [poll, hread, Fallible.ok_bind, if_pos hne, h.nextIndex_eq, ← hnext, hsome, hvalue]
      rfl
    · show (d.buffer.index - next) % d.buffer.items = _
      rw [hnext]
      split_ifs with hjump hcond
      · omega
      · rw [sub_self, Int.zero_emod]
      · exact h.lag_next (by omega)
      · omega

/-- An input that lags and has no update function stops the call. -/
lemma Placed.updateFunction_ne_none (h : d.Placed) (hlag : d.lag ≠ 0) {updated : Bool}
    (hpoll : d.poll maxLag = .ok (updated, d')) : d.updateFunction ≠ none := by
  rcases poll_cases hpoll with ⟨hno, -, -⟩ | ⟨-, -, -, update, -, -, -, hsome, -, -⟩
  · exact absurd (h.hasUpdate_iff.mpr hlag) hno
  · rw [hsome]
    exact Option.some_ne_none update

/-- A call is one call less to go. -/
lemma BroughtOn.pending_eq (h : BroughtOn maxLag d d') (hmax : 1 ≤ maxLag) (hlag : 0 ≤ d.lag) :
    d'.pending maxLag = d.pending maxLag - 1 := by
  have hlag' := h.lag_eq
  unfold pending
  split_ifs at hlag' ⊢ <;> omega

end DataInput

end Poll

/-! ## All inputs -/

/-- One less everywhere is one less at most. -/
lemma foldr_max_pred (xs : List ℕ) :
    (xs.map (· - 1)).foldr max 0 = xs.foldr max 0 - 1 := by
  induction xs with
  | nil => rfl
  | cons x xs ih =>
    rw [List.map_cons, List.foldr_cons, List.foldr_cons, ih]
    omega

lemma foldr_max_pos_iff (xs : List ℕ) : 0 < xs.foldr max 0 ↔ ∃ x ∈ xs, 0 < x := by
  induction xs with
  | nil => simp
  | cons x xs ih => simp [← ih]

namespace Publisher

variable {p p' : Publisher} {result : ℤ}

/-- Some input needs a call if and only if some input lags. -/
lemma pending_pos_iff (hplaced : ∀ d ∈ p.inputs, d.Placed) (hmax : 1 ≤ p.maxLag) :
    0 < p.pending ↔ ∃ d ∈ p.inputs, d.lag ≠ 0 := by
  have hone : ∀ d ∈ p.inputs, (0 < d.pending p.maxLag ↔ d.lag ≠ 0) := by
    intro d hd
    have hlag := (hplaced d hd).lag_mem.1
    unfold DataInput.pending
    split_ifs <;> omega
  rw [pending, foldr_max_pos_iff]
  constructor
  · rintro ⟨x, hx, hpos⟩
    obtain ⟨d, hd, rfl⟩ := List.mem_map.mp hx
    exact ⟨d, hd, (hone d hd).mp hpos⟩
  · rintro ⟨d, hd, hlag⟩
    exact ⟨_, List.mem_map_of_mem hd, (hone d hd).mpr hlag⟩

/-- Some input has an update if and only if some input lags. -/
lemma hasUpdate_iff_lag (hplaced : ∀ d ∈ p.inputs, d.Placed) :
    p.HasUpdate ↔ ∃ d ∈ p.inputs, d.lag ≠ 0 := by
  constructor
  · rintro ⟨d, hd, hupdate⟩
    exact ⟨d, hd, (hplaced d hd).hasUpdate_iff.mp hupdate⟩
  · rintro ⟨d, hd, hlag⟩
    exact ⟨d, hd, (hplaced d hd).hasUpdate_iff.mpr hlag⟩

/-- **A call brings all inputs on**, if the inputs that lag have update functions. -/
lemma exists_event (hplaced : ∀ d ∈ p.inputs, d.Placed)
    (hupdate : ∀ d ∈ p.inputs, d.lag ≠ 0 → d.updateFunction ≠ none) :
    ∃ result p', p.event = .ok (result, p') ∧ p.BringsOn result p' ∧ p'.maxLag = p.maxLag := by
  have hpoll : ∀ d ∈ p.inputs, ∃ y : Bool × DataInput, d.poll p.maxLag = .ok y ∧
      DataInput.BroughtOn p.maxLag d y.2 := by
    intro d hd
    obtain ⟨updated, d', hpoll, hon⟩ := (hplaced d hd).poll_eq p.maxLag (hupdate d hd)
    exact ⟨(updated, d'), hpoll, hon⟩
  obtain ⟨polled, hpolled, hon⟩ := Fallible.exists_mapM_eq_ok hpoll
  have hinputs : List.Forall₂ (DataInput.BroughtOn p.maxLag) p.inputs (polled.map Prod.snd) :=
    List.forall₂_map_right_iff.mpr hon
  obtain ⟨⟨result, p'⟩, hevent⟩ : ∃ x, p.event = .ok x := by
    rw [event, hpolled]
    simp only [Fallible.ok_bind]
    split_ifs <;> exact ⟨_, rfl⟩
  refine ⟨result, p', hevent, ?_⟩
  obtain ⟨polled', hpolled', hcases⟩ := event_cases hevent
  obtain rfl := Except.ok.inj (hpolled.symm.trans hpolled')
  rcases hcases with ⟨hyes, hresult, rfl⟩ | ⟨hno, hresult, rfl⟩
  · refine ⟨⟨hinputs, fun _ => ⟨hresult, _, rfl⟩, fun hzero => ?_⟩, rfl⟩
    obtain ⟨d, hd, hlag⟩ := (hasUpdate_iff_lag hplaced).mp hyes
    exact absurd (hzero d hd) hlag
  · exact ⟨⟨hinputs, fun hlag => absurd ((hasUpdate_iff_lag hplaced).mpr hlag) hno,
      fun _ => ⟨hresult, rfl⟩⟩, rfl⟩

/-- What is related to a result of a call comes from an input. -/
lemma BringsOn.exists_input (h : p.BringsOn result p') {d' : DataInput} (hd' : d' ∈ p'.inputs) :
    ∃ d ∈ p.inputs, DataInput.BroughtOn p.maxLag d d' := by
  obtain ⟨k, hk, rfl⟩ := List.mem_iff_getElem.mp hd'
  have hk' : k < p.inputs.length := h.inputs.length_eq ▸ hk
  exact ⟨p.inputs[k], List.getElem_mem hk', h.inputs.get hk' hk⟩

/-- A call is one call less to go. -/
lemma BringsOn.pending_eq (h : p.BringsOn result p') (hplaced : ∀ d ∈ p.inputs, d.Placed)
    (hmax : 1 ≤ p.maxLag) (hkeep : p'.maxLag = p.maxLag) : p'.pending = p.pending - 1 := by
  have hmap : p'.inputs.map (DataInput.pending p.maxLag) =
      (p.inputs.map (DataInput.pending p.maxLag)).map (· - 1) := by
    have hinputs := h.inputs
    generalize p.inputs = before at hinputs hplaced ⊢
    generalize p'.inputs = after at hinputs ⊢
    induction hinputs with
    | nil => rfl
    | cons hon _ ih =>
      rw [List.map_cons, List.map_cons, List.map_cons,
        ih fun d hd => hplaced d (List.mem_cons_of_mem _ hd),
        hon.pending_eq hmax (hplaced _ List.mem_cons_self).lag_mem.1]
  rw [pending, pending, hkeep, hmap, foldr_max_pred]

/-- **Repeated calls** return `1` as long as some input lags, and then `0`.

**Proof sketch.** Induction on the number of calls: each of them is one less to go
(`BringsOn.pending_eq`). -/
lemma eventResults_eq (hplaced : ∀ d ∈ p.inputs, d.Placed) (hmax : 1 ≤ p.maxLag)
    (hupdate : ∀ d ∈ p.inputs, d.lag ≠ 0 → d.updateFunction ≠ none) (k : ℕ) :
    ∃ p', eventResults k p = .ok
      (List.replicate (min k p.pending) 1 ++ List.replicate (k - p.pending) 0, p') := by
  induction k generalizing p with
  | zero => exact ⟨p, by simp [eventResults]⟩
  | succ k ih =>
    obtain ⟨result, q, hevent, hon, hkeep⟩ := exists_event hplaced hupdate
    have hpending := hon.pending_eq hplaced hmax hkeep
    have hplaced' : ∀ d ∈ q.inputs, d.Placed := by
      intro d' hd'
      obtain ⟨d, hd, hbrought⟩ := hon.exists_input hd'
      exact (hplaced d hd).broughtOn hbrought
    have hupdate' : ∀ d ∈ q.inputs, d.lag ≠ 0 → d.updateFunction ≠ none := by
      intro d' hd' hlag'
      obtain ⟨d, hd, hbrought⟩ := hon.exists_input hd'
      rw [hbrought.updateFunction_eq]
      apply hupdate d hd
      intro hzero
      rw [hbrought.lag_eq, if_neg (by omega)] at hlag'
      exact hlag' rfl
    obtain ⟨p', hrest⟩ := ih hplaced' (hkeep ▸ hmax) hupdate'
    refine ⟨p', ?_⟩
    rw [eventResults, hevent]
    simp only [Fallible.ok_bind, hrest, hpending]
    by_cases hpos : 0 < p.pending
    · obtain ⟨rfl, -⟩ := hon.publishes ((pending_pos_iff hplaced hmax).mp hpos)
      have hmin : min (k + 1) p.pending = min k (p.pending - 1) + 1 := by omega
      have hsub : k + 1 - p.pending = k - (p.pending - 1) := by omega
      rw [hmin, hsub, List.replicate_succ, List.cons_append]
      rfl
    · have hzero : ∀ d ∈ p.inputs, d.lag = 0 := by
        intro d hd
        by_contra hlag
        exact hpos ((pending_pos_iff hplaced hmax).mpr ⟨d, hd, hlag⟩)
      obtain ⟨rfl, -⟩ := hon.quiet hzero
      obtain hnone : p.pending = 0 := by omega
      rw [hnone, Nat.min_zero, Nat.zero_sub, Nat.min_zero, Nat.sub_zero, Nat.sub_zero,
        List.replicate_zero, List.nil_append, List.replicate_succ]
      rfl

end Publisher

/-- **The publisher keeps up with its rings** if and only if every input that lags has an update
function, that is, a type that `init` knows.

**Proof sketch.** A poll brings its input on (`DataInput.Placed.poll_eq`), so every call does, and
the number of calls to go counts down (`Publisher.eventResults_eq`). An input that lags and has no
update function stops the call. -/
theorem keepsLag_iff {p : Publisher} (hplaced : ∀ d ∈ p.inputs, d.Placed) (hmax : 1 ≤ p.maxLag) :
    p.KeepsLag ↔ ∀ d ∈ p.inputs, d.lag ≠ 0 → d.updateFunction ≠ none := by
  constructor
  · rintro ⟨⟨result, p', hevent, -⟩, -⟩ d hd hlag
    obtain ⟨polled, hpolled, -⟩ := Publisher.event_cases hevent
    obtain ⟨y, -, hpoll⟩ := Fallible.exists_result hpolled hd
    exact (hplaced d hd).updateFunction_ne_none hlag hpoll
  · intro hupdate
    obtain ⟨result, p', hevent, hon, -⟩ := Publisher.exists_event hplaced hupdate
    exact ⟨⟨result, p', hevent, hon⟩, Publisher.eventResults_eq hplaced hmax hupdate⟩

/-- A publisher of one element, which is one entry behind its ring. -/
def laggingPublisher (ring : Buffer) (updateFunction : Option UpdateFunction) : Publisher where
  inputs := [⟨ring, 0, [], updateFunction⟩]
  ttl := 2000000
  gooseFastRetransmitTtl := 20000
  maxLag := 5
  interval := 2000000
  transmitDeadline := 1000000
  stNum := 0
  timeAllowedToLive := 2000
  published := []

theorem keepsLag_boolRing : (laggingPublisher (boolRing 1) (some .updateBool)).KeepsLag := by
  have hplaced : ∀ d ∈ (laggingPublisher (boolRing 1) (some .updateBool)).inputs, d.Placed := by
    intro d hd
    obtain rfl := List.mem_singleton.mp hd
    refine ⟨⟨TypeCode.bool, ?_, rfl⟩, by decide, by decide⟩
    exact ⟨rfl, rfl, by decide, by decide, by decide, rfl, by decide⟩
  exact (keepsLag_iff hplaced (by decide)).mpr (by decide)

/-- A `FLOAT32` ring of two entries, with an entry in slot `1`. -/
def floatRing : Buffer where
  bytes := [4, 0, 0, 0, 2, 0, 0, 0, 1, 0, 0, 0, 5, 0, 0, 0, 0, 0, 0, 0, 0, 0, 128, 63]
  length_lt := by simp

/-- **A type without an update function**: `init` leaves the function pointer of a `FLOAT32` input
unassigned, and the first new entry stops the module. -/
theorem not_keepsLag_floatRing : DataInput.init floatRing = .ok ⟨floatRing, 0, [], none⟩ ∧
    ¬ (laggingPublisher floatRing none).KeepsLag := by
  refine ⟨rfl, ?_⟩
  rintro ⟨⟨result, p', hevent, -⟩, -⟩
  have hfault : (laggingPublisher floatRing none).event = .error Fault.nullPointer := rfl
  rw [hfault] at hevent
  cases hevent

end Tmee
