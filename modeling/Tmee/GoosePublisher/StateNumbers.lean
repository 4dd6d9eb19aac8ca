import Mathlib.Data.List.Sort
import Tmee.GoosePublisher.Schedule

set_option relaxedAutoImplicit false
set_option autoImplicit false

/-!
# The states that the publisher numbers

A GOOSE message carries the number of the state it is about: receivers take a message with the
number they have seen last for a repetition. So the publisher must not send two datasets under one
number, must not go back, and must send something under every number. `event` increases the number
when an input has moved on, and `run` repeats the message of the last number.

## Main definitions

* `Tmee.StatesInv` — the messages published so far, and the state they leave.
* `Tmee.StateLaw` — how states are numbered, and what a step does.

## Main results

* `Tmee.statesInv_publisherStep` — one step.
* `Tmee.states_numbered` — every run numbers its states.
-/

namespace Tmee

/-- **The messages published so far**: their numbers do not go back and leave none out but `0`, a
number has one dataset, and the dataset of the current number is the current one. -/
structure StatesInv (p : Publisher) : Prop where
  ordered : (p.published.map GoosePublication.stNum).SortedLE
  stNum_le : ∀ m ∈ p.published, m.stNum ≤ p.stNum
  coherent : ∀ m ∈ p.published, ∀ m' ∈ p.published, m.stNum = m'.stNum →
    m.dataSetValues = m'.dataSetValues
  current : ∀ m ∈ p.published, m.stNum = p.stNum → m.dataSetValues = p.dataSetValues
  complete : ∀ k, 1 ≤ k → k ≤ p.stNum → ∃ m ∈ p.published, m.stNum = k

/-- The message that announces the state of the publisher. -/
def Publisher.message (p : Publisher) : GoosePublication :=
  ⟨p.stNum, p.interval.tdiv 1000, p.dataSetValues⟩

/-- A call that finds an update sends the new dataset under the next number. -/
def Advances (p p' : Publisher) : Prop :=
  p'.stNum = p.stNum + 1 ∧ p'.published = p.published ++ [p'.message]

/-- Any other step keeps number and dataset, and may send them again. -/
def Repeats (p p' : Publisher) : Prop :=
  p'.stNum = p.stNum ∧ p'.dataSetValues = p.dataSetValues ∧
    (p'.published = p.published ∨ p'.published = p.published ++ [p'.message])

/-- **The law of state numbers**, of a publisher: of the messages published so far, and of what the
next step does. -/
structure StateLaw (p : Publisher) : Prop where
  ordered : (p.published.map GoosePublication.stNum).SortedLE
  coherent : ∀ m ∈ p.published, ∀ m' ∈ p.published, m.stNum = m'.stNum →
    m.dataSetValues = m'.dataSetValues
  complete : ∀ k, 1 ≤ k → (k ≤ p.stNum ↔ ∃ m ∈ p.published, m.stNum = k)
  call : ∀ i p' now, i.now? = some now → publisherStep p i = .ok p' →
    (p.HasUpdate → Advances p p') ∧ (¬ p.HasUpdate → Repeats p p')
  input : ∀ k buffer p', publisherStep p (.input k buffer) = .ok p' →
    Repeats p p' ∧ p'.published = p.published

/-! ## What a step does -/

section Step

variable {p p' : Publisher}

/-- Polls without an update change nothing. -/
lemma Publisher.inputs_of_not_hasUpdate {polled : List (Bool × DataInput)}
    (hpolled : p.inputs.mapM (DataInput.poll p.maxLag) = .ok polled) (hno : ¬ p.HasUpdate) :
    polled.map Prod.snd = p.inputs := by
  apply List.ext_getElem?
  intro k
  rw [List.getElem?_map]
  cases hk : p.inputs[k]? with
  | none =>
    have hlen := (Fallible.mapM_eq_ok_iff.mp hpolled).length_eq
    rw [List.getElem?_eq_none_iff] at hk
    rw [List.getElem?_eq_none_iff.mpr (by omega)]
    rfl
  | some d =>
    obtain ⟨⟨updated, d'⟩, hpoll, hk'⟩ := Fallible.exists_result_at hpolled hk
    have hstill : ¬ d.HasUpdate := fun hyes => hno ⟨d, List.mem_of_getElem? hk, hyes⟩
    rcases DataInput.poll_cases hpoll with ⟨-, -, rfl⟩ | ⟨hyes, -⟩
    · rw [hk']
      rfl
    · exact absurd hyes hstill

/-- **`event`** numbers a new state, or changes nothing. -/
lemma Publisher.event_numbers {result : ℤ} (h : p.event = .ok (result, p')) :
    (p.HasUpdate ∧ result = 1 ∧ Advances p p') ∨ (¬ p.HasUpdate ∧ result = 0 ∧ p' = p) := by
  obtain ⟨polled, hpolled, ⟨hupdate, hresult, rfl⟩ | ⟨hno, hresult, rfl⟩⟩ := event_cases h
  · exact Or.inl ⟨hupdate, hresult, rfl, rfl⟩
  · refine Or.inr ⟨hno, hresult, ?_⟩
    rw [inputs_of_not_hasUpdate hpolled hno]

/-- A retransmission repeats the current message. -/
lemma Publisher.repeats_retransmit (p : Publisher) : Repeats p p.retransmit :=
  ⟨rfl, rfl, Or.inr rfl⟩

/-- **What a call does to the states.** -/
lemma publisherStep_numbers {i : PublisherInput} {now : ℤ} (hnow : i.now? = some now)
    (h : publisherStep p i = .ok p') :
    (p.HasUpdate → Advances p p') ∧ (¬ p.HasUpdate → Repeats p p') := by
  have hstill : Repeats p p := ⟨rfl, rfl, Or.inl rfl⟩
  cases i with
  | input k buffer => cases hnow
  | event now' =>
    obtain ⟨result, hevent⟩ := Publisher.publisherStep_event_eq_ok.mp h
    rcases Publisher.event_numbers hevent with ⟨hupdate, -, hadvances⟩ | ⟨hno, -, rfl⟩
    · exact ⟨fun _ => hadvances, fun hno => absurd hupdate hno⟩
    · exact ⟨fun hupdate => absurd hupdate hno, fun _ => hstill⟩
  | run now' =>
    obtain ⟨result, q, hevent, hcases⟩ := Publisher.run_cases h
    rcases Publisher.event_numbers hevent with ⟨hupdate, rfl, hadvances⟩ | ⟨hno, rfl, rfl⟩
    · rcases hcases with ⟨hne, -⟩ | ⟨-, rfl⟩
      · exact absurd rfl hne
      · exact ⟨fun _ => hadvances, fun hno => absurd hupdate hno⟩
    · refine ⟨fun hupdate => absurd hupdate hno, fun _ => ?_⟩
      rcases hcases with ⟨-, -, rfl⟩ | ⟨-, rfl⟩
      · exact Publisher.repeats_retransmit q
      · exact hstill

/-- Another process that writes a ring does not touch the elements. -/
lemma dataSetValues_input {k : ℕ} {buffer : Buffer}
    (h : publisherStep p (.input k buffer) = .ok p') : p'.dataSetValues = p.dataSetValues := by
  obtain rfl := Except.ok.inj h
  show (p.inputs.modify k fun d => { d with buffer := buffer }).filterMap _ =
    p.inputs.filterMap _
  clear h
  induction p.inputs generalizing k with
  | nil => simp
  | cons d ds ih =>
    rw [List.modify_cons]
    split_ifs with hk
    · rw [List.filterMap_cons, List.filterMap_cons]
    · rw [List.filterMap_cons, List.filterMap_cons, ih]

end Step

/-! ## The invariant -/

section Invariant

variable {p p' : Publisher}

/-- A further message with a number that is not below the last one. -/
lemma sortedLE_concat {m : GoosePublication} {ms : List GoosePublication}
    (h : (ms.map GoosePublication.stNum).SortedLE) (hm : ∀ m' ∈ ms, m'.stNum ≤ m.stNum) :
    ((ms ++ [m]).map GoosePublication.stNum).SortedLE := by
  refine List.Pairwise.sortedLE ?_
  rw [List.pairwise_map, List.pairwise_append]
  refine ⟨List.pairwise_map.mp h.pairwise, List.pairwise_singleton _ _, fun m' hm' x hx => ?_⟩
  obtain rfl := List.mem_singleton.mp hx
  exact hm m' hm'

/-- A new state, announced at once. -/
lemma StatesInv.advances (h : StatesInv p) (hstep : Advances p p') : StatesInv p' := by
  obtain ⟨hnum, hpub⟩ := hstep
  have hnew : ∀ m ∈ p.published, m.stNum < p'.stNum := by
    intro m hm
    have hle := h.stNum_le m hm
    omega
  constructor
  · rw [hpub]
    exact sortedLE_concat h.ordered fun m hm => (hnew m hm).le
  · rw [hpub, List.forall_mem_append]
    exact ⟨fun m hm => (hnew m hm).le, by simp [Publisher.message]⟩
  · intro m hm m' hm' heq
    rw [hpub, List.mem_append, List.mem_singleton] at hm hm'
    rcases hm with hm | rfl <;> rcases hm' with hm' | rfl
    · exact h.coherent m hm m' hm' heq
    · exact absurd heq (hnew m hm).ne
    · exact absurd heq.symm (hnew m' hm').ne
    · rfl
  · intro m hm heq
    rw [hpub, List.mem_append, List.mem_singleton] at hm
    rcases hm with hm | rfl
    · exact absurd heq (hnew m hm).ne
    · rfl
  · intro k hk hle
    rw [hpub]
    rcases Nat.lt_or_ge p.stNum k with hlt | hge
    · exact ⟨p'.message, by simp, by simp only [Publisher.message]; omega⟩
    · obtain ⟨m, hm, rfl⟩ := h.complete k hk hge
      exact ⟨m, List.mem_append_left _ hm, rfl⟩

/-- A state that stays, announced once more or not. -/
lemma StatesInv.repeats (h : StatesInv p) (hstep : Repeats p p') : StatesInv p' := by
  obtain ⟨hnum, hdata, hsame | hpub⟩ := hstep
  · constructor
    · rw [hsame]
      exact h.ordered
    · rw [hsame, hnum]
      exact h.stNum_le
    · rw [hsame]
      exact h.coherent
    · rw [hsame, hnum, hdata]
      exact h.current
    · rw [hsame, hnum]
      exact h.complete
  · have hcurrent : ∀ m ∈ p.published, m.stNum = p'.stNum →
        m.dataSetValues = p'.message.dataSetValues := by
      intro m hm heq
      rw [hnum] at heq
      exact (h.current m hm heq).trans hdata.symm
    constructor
    · rw [hpub]
      refine sortedLE_concat h.ordered fun m hm => ?_
      show m.stNum ≤ p'.stNum
      rw [hnum]
      exact h.stNum_le m hm
    · rw [hpub, List.forall_mem_append, hnum]
      exact ⟨h.stNum_le, by simp [Publisher.message, hnum]⟩
    · intro m hm m' hm' heq
      rw [hpub, List.mem_append, List.mem_singleton] at hm hm'
      rcases hm with hm | rfl <;> rcases hm' with hm' | rfl
      · exact h.coherent m hm m' hm' heq
      · exact hcurrent m hm heq
      · exact (hcurrent m' hm' heq.symm).symm
      · rfl
    · intro m hm heq
      rw [hpub, List.mem_append, List.mem_singleton] at hm
      rcases hm with hm | rfl
      · exact hcurrent m hm heq
      · rfl
    · intro k hk hle
      rw [hnum] at hle
      obtain ⟨m, hm, rfl⟩ := h.complete k hk hle
      exact ⟨m, by simp [hpub, hm], rfl⟩

/-- **One step** keeps the invariant. -/
lemma statesInv_publisherStep (p : Publisher) (i : PublisherInput) (p' : Publisher)
    (h : StatesInv p) (hstep : publisherStep p i = .ok p') : StatesInv p' := by
  cases hnow : i.now? with
  | none =>
    cases i with
    | input k buffer =>
      refine h.repeats ⟨?_, dataSetValues_input hstep, Or.inl ?_⟩
      · rw [← Except.ok.inj hstep]
      · rw [← Except.ok.inj hstep]
    | event now => cases hnow
    | run now => cases hnow
  | some now =>
    obtain ⟨hadvances, hrepeats⟩ := publisherStep_numbers hnow hstep
    by_cases hupdate : p.HasUpdate
    · exact h.advances (hadvances hupdate)
    · exact h.repeats (hrepeats hupdate)

/-- Nothing is published by `init`. -/
lemma statesInv_initPublisher {ttl gooseFastRetransmitTtl maxLag now : ℤ} {buffers : List Buffer}
    (hinit : initPublisher ttl gooseFastRetransmitTtl maxLag buffers now = .ok p) :
    StatesInv p := by
  obtain ⟨inputs, -, h⟩ := Fallible.bind_eq_ok.mp hinit
  obtain rfl := Except.ok.inj h
  refine ⟨List.Pairwise.nil.sortedLE, by simp, by simp, by simp, fun k hk hle => ?_⟩
  exact absurd (hk.trans hle) (Nat.not_succ_le_zero 0)

end Invariant

/-- **Every run numbers its states**: in any order of calls and of changes of the rings, the
messages published have numbers that do not go back and leave none out, every number stands for one
dataset, and the next number is taken exactly by the calls that find an update.

**Proof sketch.** What a step does is read off `event` and `run` (`publisherStep_numbers`); the
invariant says in addition that the current number stands for the current dataset, so that a
repetition agrees with the first message. -/
theorem states_numbered {ttl gooseFastRetransmitTtl maxLag now : ℤ} {buffers : List Buffer}
    {p₀ p : Publisher} {is : List PublisherInput}
    (hinit : initPublisher ttl gooseFastRetransmitTtl maxLag buffers now = .ok p₀)
    (hrun : Run.exec publisherStep p₀ is = .ok p) : StateLaw p := by
  have hinv : StatesInv p :=
    Run.exec_invariant statesInv_publisherStep (statesInv_initPublisher hinit) hrun
  refine ⟨hinv.ordered, hinv.coherent, fun k hk => ⟨hinv.complete k hk, ?_⟩, ?_, ?_⟩
  · rintro ⟨m, hm, rfl⟩
    exact hinv.stNum_le m hm
  · intro i p' now hnow hstep
    exact publisherStep_numbers hnow hstep
  · intro k buffer p' hstep
    have hpub : p'.published = p.published := by rw [← Except.ok.inj hstep]
    refine ⟨⟨?_, dataSetValues_input hstep, Or.inl hpub⟩, hpub⟩
    rw [← Except.ok.inj hstep]

/-- A change, and a retransmission after it. -/
theorem states_numbered_change : ∃ p₀ p, initPublisher 2000000 20000 5 [boolRing 0] 0 = .ok p₀ ∧
    Run.exec publisherStep p₀ [.input 0 (boolRing 1), .event 1000, .run 2000000] = .ok p ∧
    p.published.map GoosePublication.stNum = [1, 1] ∧ StateLaw p := by
  obtain ⟨p₀, p, hinit, hrun, hnumbers⟩ : ∃ p₀ p,
      initPublisher 2000000 20000 5 [boolRing 0] 0 = .ok p₀ ∧
      Run.exec publisherStep p₀ [.input 0 (boolRing 1), .event 1000, .run 2000000] = .ok p ∧
      p.published.map GoosePublication.stNum = [1, 1] := ⟨_, _, rfl, rfl, rfl⟩
  exact ⟨p₀, p, hinit, hrun, hnumbers, states_numbered hinit hrun⟩

end Tmee
