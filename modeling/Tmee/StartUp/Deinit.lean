import Tmee.StartUp.Resources

set_option relaxedAutoImplicit false
set_option autoImplicit false

/-!
# `deinit` after a failed `init`

`init_modules` calls `deinit` of a module whose `init` has failed. `deinit` is written for a module
that has been set up; whether it is safe depends on how far `init` has come.

## Main results

* `Tmee.not_deinitSafe_si` — `si`: never, the output is mapped last and always unmapped.
* `Tmee.deinitSafe_goosePublisher_iff` — `goose_publisher`: if all inputs have been mapped.
* `Tmee.deinitSafe_gooseSubscriber_iff` — `goose_subscriber`: if the output has its size.
* `Tmee.deinitSafe_mmsServer_iff` — `mms_server`: if there is a model and the server has not been
  destroyed.
* `Tmee.deinit_safe_iff` — the four together.
-/

namespace Tmee

open Ledger

/-! ## `si` -/

section Si

variable {config : Option String} {answers : SiAnswers} {data data₀ : SiData}
  {held held₀ : Finset SiResource} {code : ℤ}

lemma siPreInit_ready (h : siPreInit config answers ∅ = .ok (.ready data, held)) :
    data.outputBuffer = none := by
  unfold siPreInit at h
  cases hs : loadSettings siSettings config with
  | none => simp [hs, -bind_pure_comp] at h
  | some settings =>
    cases ho : answers.outputOpened
    · simp [hs, ho, -bind_pure_comp] at h
    · cases hc : answers.configOpened
      · simp [hs, ho, hc, -bind_pure_comp] at h
      · simp [hs, ho, hc, -bind_pure_comp] at h
        rw [← h.1]

lemma siInit_failed (h : siInit answers data₀ held₀ = .ok ((code, data), held)) (hcode : code ≠ 0) :
    data.outputBuffer = data₀.outputBuffer := by
  unfold siInit at h
  obtain ⟨name, held₁, -, h⟩ := bind_eq_ok.mp h
  cases hi : answers.inputOpened
  · simp [hi, -bind_pure_comp] at h
    rw [← h.1.2]
  · cases hm : answers.inputMapped
    · simp [hi, hm, -bind_pure_comp] at h
    · simp [hi, hm, -bind_pure_comp] at h
      obtain ⟨maxItems, held₂, -, h⟩ := bind_eq_ok.mp h
      obtain ⟨fd, held₃, -, h⟩ := bind_eq_ok.mp h
      cases ht : answers.outputTruncated
      · simp [ht, -bind_pure_comp] at h
        rw [← h.1.2]
      · cases hm' : answers.outputMapped
        · simp [ht, hm', -bind_pure_comp] at h
        · simp [ht, hm', -bind_pure_comp] at h
          exact absurd h.1.1.symm hcode

lemma fails_siDeinit (h : data.outputBuffer = none) : Fails (siDeinit data) := by
  unfold siDeinit
  rw [h]
  iterate 4 refine Fails.bind_right fun _ => ?_
  exact fails_read_none.bind_left

/-- Whenever `init` fails the output has not been mapped, and `deinit` unmaps it. -/
lemma not_deinitSafe_si (h : (siCode config answers).FailsWith data held) :
    ¬ (siCode config answers).DeinitSafe data held := by
  obtain ⟨data₀, held₀, code, hpre, hinit, hcode⟩ := h
  have hnone : data.outputBuffer = none := (siInit_failed hinit hcode).trans (siPreInit_ready hpre)
  rintro ⟨x, hx⟩
  exact fails_siDeinit hnone held x hx

end Si

/-! ## `goose_subscriber` -/

section GooseSubscriber

variable {config : Option String} {answers : GooseSubscriberAnswers}
  {data data₀ : GooseSubscriberData} {held held₀ : Finset GooseSubscriberResource} {code : ℤ}

/-- What `pre_init` leaves: the receiver and the output buffer are not assigned. -/
def preInitSubscriber (maxItems : ℤ) : GooseSubscriberData where
  data := some .data
  receiver := none
  subscriber := none
  itemSize := some 0
  maxItems := some maxItems
  outputBuffer := none
  outputBufferSize := none
  fd := some (some .fd)
  fdConfig := some (some .fdConfig)
  interface := some (some .interface)
  shmName := some (some .shmName)
  goCbRef := some (some .goCbRef)

lemma gooseSubscriberPreInit_ready
    (h : gooseSubscriberPreInit config answers ∅ = .ok (.ready data, held)) :
    (∃ maxItems, data = preInitSubscriber maxItems) ∧
      held = {.fdConfig, .fd, .shmName, .goCbRef, .interface, .data} := by
  unfold gooseSubscriberPreInit at h
  cases hs : loadSettings gooseSubscriberSettings config with
  | none => simp [hs, -bind_pure_comp] at h
  | some settings =>
    cases ho : answers.outputOpened
    · simp [hs, ho, -bind_pure_comp] at h
    · cases hc : answers.configOpened
      · simp [hs, ho, hc, -bind_pure_comp] at h
      · simp [hs, ho, hc, -bind_pure_comp] at h
        exact ⟨⟨settings.2.maxItems, h.1.symm⟩, h.2.symm⟩

lemma deinitSafe_gooseSubscriber_iff
    (h : (gooseSubscriberCode config answers).FailsWith data held) :
    (gooseSubscriberCode config answers).DeinitSafe data held ↔ answers.outputTruncated = true := by
  obtain ⟨data₀, held₀, code, hpre, hinit, hcode⟩ := h
  obtain ⟨⟨maxItems, rfl⟩, rfl⟩ := gooseSubscriberPreInit_ready hpre
  simp only [gooseSubscriberCode, gooseSubscriberInit, preInitSubscriber, read_some, pure_bind]
    at hinit
  cases ht : answers.outputTruncated
  · simp [ht] at hinit
    obtain ⟨⟨-, rfl⟩, -⟩ := hinit
    refine iff_of_false ?_ Bool.false_ne_true
    rintro ⟨x, hx⟩
    exact fails_read_none.bind_left held x hx
  · cases hm : answers.outputMapped
    · simp [ht, hm, -bind_pure_comp] at hinit
    · cases hstart : answers.started
      · simp [ht, hm, hstart, -bind_pure_comp] at hinit
        obtain ⟨⟨-, rfl⟩, rfl⟩ := hinit
        -- the subscriber belongs to the receiver, and is the only thing not released by its field
        refine iff_of_true ⟨((), {.subscriber}), ?_⟩ rfl
        simp [gooseSubscriberCode, gooseSubscriberDeinit, use_bind, release_bind, release_eq_ok,
          free, -bind_pure_comp]
        rfl
      · simp [ht, hm, hstart, -bind_pure_comp] at hinit
        exact absurd hinit.1.1.symm hcode

end GooseSubscriber

/-! ## `goose_publisher` -/

section GoosePublisher

open GoosePublisherResource

variable {config : Option String} {answers : GoosePublisherAnswers}
  {data : GoosePublisherData} {held held' : Finset GoosePublisherResource} {code : ℤ} {i n : ℕ}
  {ds : List GoosePublisherInput}

/-- Input `i` as `pre_init` leaves it. -/
def preInitInput (i : ℕ) : GoosePublisherInput :=
  ⟨some (.input i), some (some (.filename i)), none, none, none, none⟩

/-- Input `i` after it has been opened. -/
def openedInput (answers : GoosePublisherAnswers) (i : ℕ) : GoosePublisherInput where
  address := some (.input i)
  filename := some (some (.filename i))
  fd := some (some (.file i))
  bufferSize := some (answers.size i)
  buffer := some (if answers.mapped i then some (.mapping i) else none)
  oldIndex := some 0

/-- The loop of `pre_init` over the names of the inputs. -/
lemma goosePreInitInputs_eq (names : List String) (i : ℕ) (held : Finset GoosePublisherResource) :
    ∃ held', goosePreInitInputs i names held =
        .ok ((List.range' i names.length).map preInitInput, held') ∧ held ⊆ held' ∧
      ∀ k, i ≤ k → k < i + names.length → .input k ∈ held' ∧ .filename k ∈ held' := by
  induction names generalizing i held with
  | nil => exact ⟨held, rfl, subset_rfl, fun k h₁ h₂ => by simp at h₂; omega⟩
  | cons name names ih =>
    obtain ⟨held', hrun, hsub, hmem⟩ := ih (i + 1) (insert (.filename i) (insert (.input i) held))
    refine ⟨held', ?_, ?_, fun k h₁ h₂ => ?_⟩
    · simp only [goosePreInitInputs, acquire_bind, if_true, bind_ok hrun, pure_run]
      rfl
    · exact ((Finset.subset_insert _ _).trans (Finset.subset_insert _ _)).trans hsub
    · rcases h₁.eq_or_lt with rfl | hlt
      · exact ⟨hsub (by simp), hsub (by simp)⟩
      · exact hmem k hlt (by rw [List.length_cons] at h₂; omega)

/-- A turn of the loop of `init` that opens its input. -/
lemma gooseInitInputs_cons {r : Bool × List GoosePublisherInput} (ho : answers.opened i = true)
    (h : gooseInitInputs answers (i + 1) ds
      (if answers.mapped i then insert (.mapping i) (insert (.file i) held)
        else insert (.file i) held) = .ok (r, held')) :
    gooseInitInputs answers i (preInitInput i :: ds) held =
      .ok ((r.1, openedInput answers i :: r.2), held') := by
  rw [gooseInitInputs]
  simp only [preInitInput, read_some, pure_bind, acquire_bind, ho, if_true, reduceCtorEq, if_false]
  cases hm : answers.mapped i <;> simp only [hm, if_true, Bool.false_eq_true, if_false] at h ⊢ <;>
    · rw [bind_ok h, pure_run, openedInput, hm]
      rfl

/-- The loop of `init` when all inputs can be opened. -/
lemma gooseInitInputs_of_opened (n i : ℕ) (held : Finset GoosePublisherResource)
    (ho : ∀ k, i ≤ k → k < i + n → answers.opened k = true) :
    ∃ held', gooseInitInputs answers i ((List.range' i n).map preInitInput) held =
        .ok ((true, (List.range' i n).map (openedInput answers)), held') ∧ held ⊆ held' ∧
      ∀ k, i ≤ k → k < i + n → answers.mapped k = true → .mapping k ∈ held' := by
  induction n generalizing i held with
  | zero => exact ⟨held, rfl, subset_rfl, fun k h₁ h₂ => by omega⟩
  | succ n ih =>
    obtain ⟨held', hrun, hsub, hmem⟩ := ih (i + 1)
      (if answers.mapped i then insert (.mapping i) (insert (.file i) held)
        else insert (.file i) held) fun k h₁ h₂ => ho k (by omega) (by omega)
    have hfirst : held ⊆ (if answers.mapped i then insert (.mapping i) (insert (.file i) held)
        else insert (.file i) held) := by
      split_ifs
      · exact (Finset.subset_insert _ _).trans (Finset.subset_insert _ _)
      · exact Finset.subset_insert _ _
    refine ⟨held', ?_, hfirst.trans hsub, fun k h₁ h₂ hm => ?_⟩
    · rw [List.range'_succ, List.map_cons, List.map_cons]
      exact gooseInitInputs_cons (ho i le_rfl (by omega)) hrun
    · rcases h₁.eq_or_lt with rfl | hlt
      · rw [if_pos hm] at hsub
        exact hsub (Finset.mem_insert_self _ _)
      · exact hmem k hlt (by omega) hm

/-- The loop of `init` when an input cannot be opened: it returns early and leaves an input without
a buffer. -/
lemma gooseInitInputs_of_not_opened (n i : ℕ) (held : Finset GoosePublisherResource) {k : ℕ}
    (h₁ : i ≤ k) (h₂ : k < i + n) (ho : answers.opened k = false) :
    ∃ ds held', gooseInitInputs answers i ((List.range' i n).map preInitInput) held =
      .ok ((false, ds), held') ∧ ∃ d ∈ ds, d.buffer = none := by
  induction n generalizing i held with
  | zero => omega
  | succ n ih =>
    rw [List.range'_succ, List.map_cons]
    cases hi : answers.opened i
    · refine ⟨{ preInitInput i with fd := some none } :: (List.range' (i + 1) n).map preInitInput,
        held, ?_, _, List.mem_cons_self, rfl⟩
      simp only [gooseInitInputs, preInitInput, read_some, pure_bind, acquire_bind, hi]
      rfl
    · have hlt : i < k := by
        refine lt_of_le_of_ne h₁ ?_
        rintro rfl
        rw [hi] at ho
        cases ho
      obtain ⟨ds, held', hrun, d, hd, hnone⟩ := ih (i + 1) _ hlt (by omega)
      exact ⟨_, held', gooseInitInputs_cons hi hrun, d, List.mem_cons_of_mem _ hd, hnone⟩

/-- What `deinit` releases for input `i`. -/
def releasedInput (i : ℕ) : List GoosePublisherResource := [.filename i, .mapping i, .input i]

lemma gooseDeinitInput_openedInput (hm : answers.mapped i = true) :
    gooseDeinitInput (openedInput answers i) = releaseAll (releasedInput i) := by
  simp [gooseDeinitInput, openedInput, hm, releasedInput, releaseAll, free]

/-- An input without a mapping cannot be unmapped. -/
lemma fails_gooseDeinitInput {d : GoosePublisherInput}
    (h : d.buffer = none ∨ d.buffer = some none) : Fails (gooseDeinitInput d) := by
  unfold gooseDeinitInput
  iterate 2 refine Fails.bind_right fun _ => ?_
  rcases h with h | h
  · rw [h]
    exact fails_read_none.bind_left
  · rw [h, read_some, pure_bind]
    exact Fails.bind_right fun _ => fails_release_none.bind_left

/-- The private data before a publisher has been created. -/
def preInitPublisher (elements : List GoosePublisherInput) : GoosePublisherData where
  data := some .data
  publisher := some none
  dataSetValues := some none
  inputs := some (some .inputs)
  elements := elements
  interface := some (some .interface)
  gocbref := some (some .gocbref)
  datasetref := some (some .datasetref)

/-- What `pre_init` leaves. -/
lemma goosePublisherPreInit_ready (h : goosePublisherPreInit config ∅ = .ok (.ready data, held)) :
    ∃ s, loadSettings goosePublisherSettings config = some s ∧
      data = preInitPublisher ((List.range' 0 s.2.inputs.length).map preInitInput) ∧
      (∀ r ∈ [GoosePublisherResource.inputs, .interface, .gocbref, .datasetref, .data], r ∈ held) ∧
      ∀ k < s.2.inputs.length, .input k ∈ held ∧ .filename k ∈ held := by
  unfold goosePublisherPreInit at h
  cases hs : loadSettings goosePublisherSettings config with
  | none => simp [hs, -bind_pure_comp] at h
  | some s =>
    obtain ⟨held', hrun, hsub, hmem⟩ := goosePreInitInputs_eq s.2.inputs 0
      (insert .inputs (insert .datasetref (insert .gocbref (insert .interface (insert .data ∅)))))
    simp only [hs, acquire_bind, if_true] at h
    rw [bind_ok hrun, pure_run] at h
    cases h
    refine ⟨s, rfl, rfl, fun r hr => hsub ?_, fun k hk => hmem k k.zero_le (by omega)⟩
    simp only [List.mem_cons, List.not_mem_nil, or_false] at hr
    rcases hr with rfl | rfl | rfl | rfl | rfl <;> simp

/-- What `deinit` releases, where all of `n` inputs are mapped. -/
def releasedByPublisher (n : ℕ) : List GoosePublisherResource :=
  (List.range' 0 n).flatMap releasedInput ++ [.inputs, .interface, .gocbref, .datasetref, .data]

lemma nodup_releasedByPublisher (n : ℕ) : (releasedByPublisher n).Nodup := by
  rw [releasedByPublisher, List.nodup_append', List.nodup_flatMap]
  refine ⟨⟨fun i _ => by simp [releasedInput], ?_⟩, by decide, ?_⟩
  · refine (List.nodup_range' 1).imp fun hij => ?_
    simp [Function.onFun, releasedInput, hij.symm]
  · intro r hr hr'
    obtain ⟨i, -, hi⟩ := List.mem_flatMap.mp hr
    simp only [releasedInput, List.mem_cons, List.not_mem_nil, or_false] at hi
    rcases hi with rfl | rfl | rfl <;> simp at hr'

/-- An input without a mapping keeps `deinit` from succeeding. -/
lemma fails_goosePublisherDeinit {d : GoosePublisherInput} (hd : d ∈ ds)
    (h : d.buffer = none ∨ d.buffer = some none) :
    Fails (goosePublisherDeinit (preInitPublisher ds)) := by
  simp only [goosePublisherDeinit, preInitPublisher, read_some, pure_bind, free]
  exact (Fails.forM hd (fails_gooseDeinitInput h)).bind_left

/-- With all inputs mapped `deinit` releases what is obtained for each of them. -/
lemma goosePublisherDeinit_eq (hm : ∀ i < n, answers.mapped i = true) :
    goosePublisherDeinit (preInitPublisher ((List.range' 0 n).map (openedInput answers))) =
      releaseAll (releasedByPublisher n) := by
  have hloop : forM ((List.range' 0 n).map (openedInput answers)) gooseDeinitInput =
      releaseAll ((List.range' 0 n).flatMap releasedInput) := by
    rw [List.forM_map]
    apply forM_eq_releaseAll
    intro i hi
    exact gooseDeinitInput_openedInput (hm i (by simpa using hi))
  rw [releasedByPublisher, releaseAll_append, ← hloop]
  simp [goosePublisherDeinit, preInitPublisher, free, releaseAll]

/-- The inputs that `init` is left with when the publisher cannot be created. -/
lemma deinitSafe_of_opened {held₀ : Finset GoosePublisherResource} (hsub : held₀ ⊆ held)
    (hfixed : ∀ r ∈ [GoosePublisherResource.inputs, .interface, .gocbref, .datasetref, .data],
      r ∈ held₀)
    (hinputs : ∀ k < n, .input k ∈ held₀ ∧ .filename k ∈ held₀)
    (hmapped : ∀ k < n, answers.mapped k = true → .mapping k ∈ held) :
    (∃ x, goosePublisherDeinit (preInitPublisher ((List.range' 0 n).map (openedInput answers)))
      held = .ok x) ↔ ∀ i < n, answers.mapped i = true := by
  constructor
  · rintro ⟨x, hx⟩ i hi
    by_contra hm
    have hmem : openedInput answers i ∈ (List.range' 0 n).map (openedInput answers) :=
      List.mem_map_of_mem (by simpa using hi)
    exact fails_goosePublisherDeinit hmem (Or.inr (by simp [openedInput, hm])) held x hx
  · intro hm
    rw [goosePublisherDeinit_eq hm, releaseAll_eq_ok_iff]
    refine ⟨nodup_releasedByPublisher n, fun r hr => ?_⟩
    rcases List.mem_append.mp hr with hr | hr
    · obtain ⟨i, hi, hri⟩ := List.mem_flatMap.mp hr
      have hi' : i < n := by simpa using hi
      simp only [releasedInput, List.mem_cons, List.not_mem_nil, or_false] at hri
      rcases hri with rfl | rfl | rfl
      · exact hsub (hinputs i hi').2
      · exact hmapped i hi' (hm i hi')
      · exact hsub (hinputs i hi').1
    · exact hsub (hfixed r hr)

lemma deinitSafe_goosePublisher_iff
    (h : (goosePublisherCode config answers).FailsWith data held) :
    (goosePublisherCode config answers).DeinitSafe data held ↔
      ∀ s, loadSettings goosePublisherSettings config = some s →
        ∀ i < s.2.inputs.length, answers.opened i = true ∧ answers.mapped i = true := by
  obtain ⟨data₀, held₀, code, hpre, hinit, hcode⟩ := h
  obtain ⟨s, hs, rfl, hfixed, hinputs⟩ := goosePublisherPreInit_ready hpre
  have hcond : (∀ s', loadSettings goosePublisherSettings config = some s' →
      ∀ i < s'.2.inputs.length, answers.opened i = true ∧ answers.mapped i = true) ↔
        ∀ i < s.2.inputs.length, answers.opened i = true ∧ answers.mapped i = true := by
    rw [hs]
    simp
  rw [hcond]
  simp only [goosePublisherCode, goosePublisherInit, preInitPublisher] at hinit
  by_cases ho : ∀ i < s.2.inputs.length, answers.opened i = true
  · obtain ⟨held₁, hrun, hsub, hmapped⟩ := gooseInitInputs_of_opened s.2.inputs.length 0 held₀
      fun k _ hk => ho k (by omega)
    rw [bind_ok hrun] at hinit
    cases hc : answers.created
    · simp [hc] at hinit
      obtain ⟨⟨-, rfl⟩, rfl⟩ := hinit
      refine (deinitSafe_of_opened hsub hfixed hinputs fun k hk => ?_).trans ?_
      · exact hmapped k k.zero_le (by omega)
      · exact ⟨fun hm i hi => ⟨ho i hi, hm i hi⟩, fun h i hi => (h i hi).2⟩
    · simp [hc, -bind_pure_comp] at hinit
      obtain ⟨_, held₂, -, hready⟩ := bind_eq_ok.mp hinit
      cases hready
      exact absurd rfl hcode
  · refine iff_of_false ?_ fun h => ho fun i hi => (h i hi).1
    push Not at ho
    obtain ⟨k, hk, hk'⟩ := ho
    obtain ⟨ds, held₁, hrun, d, hd, hnone⟩ := gooseInitInputs_of_not_opened s.2.inputs.length 0
      held₀ k.zero_le (by omega) (Bool.eq_false_of_not_eq_true hk')
    rw [bind_ok hrun] at hinit
    simp at hinit
    obtain ⟨⟨-, rfl⟩, -⟩ := hinit
    rintro ⟨x, hx⟩
    exact fails_goosePublisherDeinit hd (Or.inl hnone) held x hx

end GoosePublisher

/-! ## `mms_server` -/

section MmsServer

open MmsServerResource

variable {config : Option String} {answers : MmsServerAnswers} {data : MmsServerData}
  {held held' : Finset MmsServerResource} {code : ℤ} {i n : ℕ} {es es' : List MmsElementData}

/-- What `deinit` reads of an element. -/
def MmsElementData.key (e : MmsElementData) :
    Pointer MmsServerResource × Member (Pointer MmsServerResource) :=
  (e.address, e.objectRef)

/-- The keys of the elements from number `i` on. -/
def elementKeys (i n : ℕ) : List (Pointer MmsServerResource × Member (Pointer MmsServerResource)) :=
  (List.range' i n).map fun k => (some (.element k), some (some (.objectRef k)))

/-- The loop of `pre_init` over the elements. -/
lemma mmsPreInitElements_eq (configs : List MmsElement) (i : ℕ) (held : Finset MmsServerResource) :
    ∃ es held', mmsPreInitElements i configs held = .ok (es, held') ∧
      es.map MmsElementData.key = elementKeys i configs.length ∧ held ⊆ held' ∧
      ∀ k, i ≤ k → k < i + configs.length → .element k ∈ held' ∧ .objectRef k ∈ held' := by
  induction configs generalizing i held with
  | nil => exact ⟨[], held, rfl, rfl, subset_rfl, fun k h₁ h₂ => by simp at h₂; omega⟩
  | cons config configs ih =>
    obtain ⟨es, held', hrun, hkeys, hsub, hmem⟩ := ih (i + 1)
      (insert (.filename i) (insert (.objectRef i) (insert (.element i) held)))
    refine ⟨⟨some (.element i), some (some (.objectRef i)), some (some (.filename i)), none,
      none⟩ :: es, held', ?_, ?_, ?_, fun k h₁ h₂ => ?_⟩
    · simp only [mmsPreInitElements, acquire_bind, if_true, bind_ok hrun, pure_run]
    · rw [List.map_cons, hkeys]
      rfl
    · refine subset_trans ?_ hsub
      intro r hr
      simp [hr]
    · rcases h₁.eq_or_lt with rfl | hlt
      · exact ⟨hsub (by simp), hsub (by simp)⟩
      · exact hmem k hlt (by rw [List.length_cons] at h₂; omega)

/-- An element whose file keeps `init` from going on. -/
def MmsServerAnswers.Refuses (answers : MmsServerAnswers) (k : ℕ) : Prop :=
  answers.found k = true ∧ (answers.file k = .notOpened ∨ answers.file k = .notTruncated)

/-- What the loop of `init` leaves. -/
structure MmsLoop (answers : MmsServerAnswers) (i : ℕ) (es : List MmsElementData)
    (held : Finset MmsServerResource) (r : ℤ × List MmsElementData)
    (held' : Finset MmsServerResource) : Prop where
  keys : r.2.map MmsElementData.key = es.map MmsElementData.key
  grows : held ⊆ held'
  code : r.1 ≠ 0 ↔ ∃ k, i ≤ k ∧ k < i + es.length ∧ answers.Refuses k

/-- A turn that goes on with the next element. -/
lemma MmsLoop.cons {e e' : MmsElementData} {r : ℤ × List MmsElementData}
    {held₁ : Finset MmsServerResource} (h : MmsLoop answers (i + 1) es held₁ r held')
    (hkey : e'.key = e.key) (hsub : held ⊆ held₁) (hi : ¬ answers.Refuses i) :
    MmsLoop answers i (e :: es) held (r.1, e' :: r.2) held' where
  keys := by rw [List.map_cons, List.map_cons, h.keys, hkey]
  grows := hsub.trans h.grows
  code := by
    rw [h.code, List.length_cons]
    constructor
    · rintro ⟨k, h₁, h₂, hk⟩
      exact ⟨k, by omega, by omega, hk⟩
    · rintro ⟨k, h₁, h₂, hk⟩
      have hne : k ≠ i := fun heq => hi (heq ▸ hk)
      exact ⟨k, by omega, by omega, hk⟩

/-- A turn that returns. -/
lemma MmsLoop.exit {e e' : MmsElementData} {code : ℤ} (hcode : code ≠ 0) (hkey : e'.key = e.key)
    (hsub : held ⊆ held') (hi : answers.Refuses i) :
    MmsLoop answers i (e :: es) held (code, e' :: es) held' where
  keys := by rw [List.map_cons, List.map_cons, hkey]
  grows := hsub
  code := iff_of_true hcode ⟨i, le_rfl, by rw [List.length_cons]; omega, hi⟩

lemma mmsLoop_of_run {r : ℤ × List MmsElementData}
    (h : mmsInitElements answers i es held = .ok (r, held')) :
    MmsLoop answers i es held r held' := by
  induction es generalizing i held r with
  | nil =>
    cases h
    exact ⟨rfl, subset_rfl, iff_of_false (by simp) (by rintro ⟨k, h₁, h₂, -⟩; simp at h₂; omega)⟩
  | cons e es ih =>
    obtain ⟨_, held₁, href, hturn⟩ := bind_eq_ok.mp h
    obtain rfl := held_eq_of_read href
    cases hf : answers.found i
    · simp only [hf, if_true] at hturn
      obtain ⟨rest, held₂, hrest, hdone⟩ := bind_eq_ok.mp hturn
      cases hdone
      have hi : ¬ answers.Refuses i := by
        rintro ⟨hfound, -⟩
        rw [hf] at hfound
        cases hfound
      exact (ih hrest).cons rfl subset_rfl hi
    · simp only [hf, Bool.true_eq_false, if_false] at hturn
      obtain ⟨_, held₂, hname, hopen⟩ := bind_eq_ok.mp hturn
      obtain rfl := held_eq_of_read hname
      cases hfile : answers.file i with
      | notOpened =>
        simp [hfile] at hopen
        obtain ⟨rfl, rfl⟩ := hopen
        exact MmsLoop.exit (by decide) rfl subset_rfl ⟨hf, Or.inl hfile⟩
      | notTruncated =>
        simp [hfile] at hopen
        obtain ⟨rfl, rfl⟩ := hopen
        exact MmsLoop.exit (by decide) rfl (Finset.subset_insert _ _) ⟨hf, Or.inr hfile⟩
      | notMapped => simp [hfile] at hopen
      | mapped =>
        simp [hfile, -bind_pure_comp] at hopen
        obtain ⟨rest, held₃, hrest, hdone⟩ := bind_eq_ok.mp hopen
        cases hdone
        have hi : ¬ answers.Refuses i := by
          rintro ⟨-, hrefuses⟩
          simp [hfile] at hrefuses
        refine (ih hrest).cons rfl ?_ hi
        exact (Finset.subset_insert _ _).trans (Finset.subset_insert _ _)

/-- The private data with what `init` assigns to the server and the model. -/
def mmsServerData (iedServer model : Member (Pointer MmsServerResource))
    (es : List MmsElementData) : MmsServerData where
  data := some .data
  configFile := some (some .configFile)
  iedServer := iedServer
  model := model
  elements := some (some .elements)
  array := es

/-- What `pre_init` leaves: the server and the model are not assigned. -/
lemma mmsServerPreInit_ready (h : mmsServerPreInit config ∅ = .ok (.ready data, held)) :
    ∃ s es, loadSettings mmsServerSettings config = some s ∧
      data = mmsServerData none none es ∧
      es.map MmsElementData.key = elementKeys 0 s.2.elements.length ∧
      (∀ r ∈ [MmsServerResource.elements, .configFile, .data], r ∈ held) ∧
      ∀ k < s.2.elements.length, .element k ∈ held ∧ .objectRef k ∈ held := by
  unfold mmsServerPreInit at h
  cases hs : loadSettings mmsServerSettings config with
  | none => simp [hs, -bind_pure_comp] at h
  | some s =>
    obtain ⟨es, held', hrun, hkeys, hsub, hmem⟩ := mmsPreInitElements_eq s.2.elements 0
      (insert .elements (insert .configFile (insert .data ∅)))
    simp only [hs, acquire_bind, if_true] at h
    rw [bind_ok hrun, pure_run] at h
    cases h
    refine ⟨s, es, rfl, rfl, hkeys, fun r hr => hsub ?_, fun k hk => hmem k k.zero_le (by omega)⟩
    simp only [List.mem_cons, List.not_mem_nil, or_false] at hr
    rcases hr with rfl | rfl | rfl <;> simp

/-- The loop of `deinit` over the elements. -/
lemma forM_mmsDeinitElement (hkeys : es.map MmsElementData.key = elementKeys i n) :
    forM es mmsDeinitElement =
      releaseAll ((List.range' i n).flatMap fun k => [.objectRef k, .element k]) := by
  induction n generalizing i es with
  | zero =>
    rw [List.map_eq_nil_iff.mp hkeys]
    rfl
  | succ n ih =>
    obtain ⟨e, es, rfl, hkey, hrest⟩ := List.map_eq_cons_iff.mp hkeys
    obtain ⟨haddress, href⟩ := Prod.mk.inj hkey
    have hturn : mmsDeinitElement e = releaseAll [.objectRef i, .element i] := by
      simp [mmsDeinitElement, href, haddress, free, releaseAll]
    rw [List.forM_cons, hturn, ih hrest, List.range'_succ, List.flatMap_cons, releaseAll_append]

/-- What `deinit` releases after it has stopped the server. -/
def releasedByServer (n : ℕ) : List MmsServerResource :=
  [.iedServer, .model] ++ (List.range' 0 n).flatMap (fun k => [.objectRef k, .element k]) ++
    [.elements, .configFile, .data]

lemma nodup_releasedByServer (n : ℕ) : (releasedByServer n).Nodup := by
  have hloop : ((List.range' 0 n).flatMap fun k =>
      [MmsServerResource.objectRef k, .element k]).Nodup := by
    rw [List.nodup_flatMap]
    refine ⟨fun i _ => by simp, (List.nodup_range' 1).imp fun hij => ?_⟩
    simp [Function.onFun, hij.symm]
  rw [releasedByServer, List.nodup_append', List.nodup_append']
  refine ⟨⟨by decide, hloop, ?_⟩, by decide, ?_⟩
  · intro r hr hr'
    obtain ⟨i, -, hi⟩ := List.mem_flatMap.mp hr'
    simp only [List.mem_cons, List.not_mem_nil, or_false] at hi
    rcases hi with rfl | rfl <;> simp at hr
  · intro r hr hr'
    rcases List.mem_append.mp hr with hr | hr
    · simp only [List.mem_cons, List.not_mem_nil, or_false] at hr
      rcases hr with rfl | rfl <;> simp at hr'
    · obtain ⟨i, -, hi⟩ := List.mem_flatMap.mp hr
      simp only [List.mem_cons, List.not_mem_nil, or_false] at hi
      rcases hi with rfl | rfl <;> simp at hr'

/-- `deinit` with a server: the server is stopped, then everything is released. -/
lemma mmsServerDeinit_eq (hkeys : es.map MmsElementData.key = elementKeys 0 n) :
    mmsServerDeinit (mmsServerData (some (some .iedServer)) (some (some .model)) es) =
      (do use (some .iedServer); releaseAll (releasedByServer n)) := by
  rw [releasedByServer, releaseAll_append, releaseAll_append, ← forM_mmsDeinitElement hkeys]
  simp [mmsServerDeinit, mmsServerData, free, releaseAll]

lemma deinitSafe_mmsServer_iff (h : (mmsServerCode config answers).FailsWith data held) :
    (mmsServerCode config answers).DeinitSafe data held ↔ answers.parsed = true ∧
      ∃ s, loadSettings mmsServerSettings config = some s ∧
        ∃ i < s.2.elements.length, answers.Refuses i := by
  obtain ⟨data₀, held₀, code, hpre, hinit, hcode⟩ := h
  obtain ⟨s, es₀, hs, rfl, hkeys, hfixed, helements⟩ := mmsServerPreInit_ready hpre
  simp only [mmsServerCode, mmsServerInit, mmsServerData, read_some, pure_bind, acquire_bind]
    at hinit
  cases hp : answers.parsed
  · -- the server is not assigned
    simp [hp] at hinit
    obtain ⟨⟨-, rfl⟩, -⟩ := hinit
    refine iff_of_false ?_ fun h => Bool.false_ne_true h.1
    rintro ⟨x, hx⟩
    exact fails_read_none.bind_left held x hx
  · simp only [hp, if_true, reduceCtorEq, if_false, acquire_bind] at hinit
    obtain ⟨loop, held₁, hrun, hrest⟩ := bind_eq_ok.mp hinit
    have hloop := mmsLoop_of_run hrun
    have hlen : es₀.length = s.2.elements.length := by
      have := congrArg List.length hkeys
      simpa [elementKeys] using this
    have hkeys' := hloop.keys.trans hkeys
    by_cases hreturned : loop.1 ≠ 0
    · -- the loop has returned: everything is assigned and held
      simp [hreturned] at hrest
      obtain ⟨⟨-, rfl⟩, rfl⟩ := hrest
      obtain ⟨k, -, hk, hrefuses⟩ := hloop.code.mp hreturned
      refine iff_of_true ?_ ⟨rfl, s, hs, k, by omega, hrefuses⟩
      show ∃ x, mmsServerDeinit (mmsServerData _ _ loop.2) held₁ = .ok x
      rw [mmsServerDeinit_eq hkeys', use_bind (hloop.grows (by simp)), releaseAll_eq_ok_iff]
      refine ⟨nodup_releasedByServer _, fun r hr => hloop.grows ?_⟩
      rcases List.mem_append.mp hr with hr | hr
      · rcases List.mem_append.mp hr with hr | hr
        · simp only [List.mem_cons, List.not_mem_nil, or_false] at hr
          rcases hr with rfl | rfl <;> simp
        · obtain ⟨i, hi, hri⟩ := List.mem_flatMap.mp hr
          have hi' : i < s.2.elements.length := by simpa using hi
          simp only [List.mem_cons, List.not_mem_nil, or_false] at hri
          rcases hri with rfl | rfl
          · simp [(helements i hi').2]
          · simp [(helements i hi').1]
      · simp [hfixed r hr]
    · -- the server has been destroyed
      have hnone : ¬ ∃ i < s.2.elements.length, answers.Refuses i := by
        rintro ⟨i, hi, hrefuses⟩
        exact hreturned (hloop.code.mpr ⟨i, i.zero_le, by omega, hrefuses⟩)
      simp only [hreturned, if_false] at hrest
      cases hr : answers.running
      · simp only [hr, if_true] at hrest
        rw [release_bind (hloop.grows (by simp))] at hrest
        cases hrest
        refine iff_of_false ?_ ?_
        · rintro ⟨x, hx⟩
          have hdeinit :
              mmsServerDeinit (mmsServerData _ _ loop.2) (held₁.erase .iedServer) = .ok x := hx
          rw [mmsServerDeinit_eq hkeys'] at hdeinit
          obtain ⟨_, held₂, huse, -⟩ := bind_eq_ok.mp hdeinit
          exact Finset.notMem_erase _ _ (mem_of_use huse)
        · rintro ⟨-, s', hs', hrefuses⟩
          rw [hs] at hs'
          cases hs'
          exact hnone hrefuses
      · simp only [hr, Bool.true_eq_false, if_false] at hrest
        cases hrest
        exact absurd rfl hcode

end MmsServer

/-- **When the call of `deinit` after a failed `init` is safe.** For every configuration that
`pre_init` accepts, all answers of the system and every exit of `init` with an error code: for `si`
never; for `goose_publisher` if and only if all inputs could be opened and mapped; for
`goose_subscriber` if and only if the output could be given its size; and for `mms_server` if and
only if there is a model and the file of an element could not be opened or given its size.

**Proof sketch.** `si` and `goose_subscriber` assign the output buffer only after the exit for the
size. The publisher assigns the buffers of its inputs one by one. `mms_server` has no server to stop
without a model, and has destroyed it when the start fails. In the other cases all fields are
assigned, and what they hold are different resources that are held. -/
theorem deinit_safe_iff (config : Option String) :
    (∀ answers data held, (siCode config answers).FailsWith data held →
      ¬ (siCode config answers).DeinitSafe data held) ∧
    (∀ answers data held, (goosePublisherCode config answers).FailsWith data held →
      ((goosePublisherCode config answers).DeinitSafe data held ↔
        ∀ s, loadSettings goosePublisherSettings config = some s →
          ∀ i < s.2.inputs.length, answers.opened i = true ∧ answers.mapped i = true)) ∧
    (∀ answers data held, (gooseSubscriberCode config answers).FailsWith data held →
      ((gooseSubscriberCode config answers).DeinitSafe data held ↔
        answers.outputTruncated = true)) ∧
    (∀ answers data held, (mmsServerCode config answers).FailsWith data held →
      ((mmsServerCode config answers).DeinitSafe data held ↔ answers.parsed = true ∧
        ∃ s, loadSettings mmsServerSettings config = some s ∧
          ∃ i < s.2.elements.length, answers.Refuses i)) :=
  ⟨fun _ _ _ => not_deinitSafe_si, fun _ _ _ => deinitSafe_goosePublisher_iff,
    fun _ _ _ => deinitSafe_gooseSubscriber_iff, fun _ _ _ => deinitSafe_mmsServer_iff⟩

/-! ### A server without elements -/

def serverConfig : String := "config_file=\"m\"\nserver_port=102\nelement_count=0\n"

lemma readLines_serverConfig : readLines serverConfig.toList =
    ["config_file=\"m\"\n".toList, "server_port=102\n".toList, "element_count=0\n".toList] := by
  have h₁ : fgets (cfgMaxLine - 1) serverConfig.toList =
      ("config_file=\"m\"\n".toList, "server_port=102\nelement_count=0\n".toList) := by
    decide +kernel
  have h₂ : fgets (cfgMaxLine - 1) "server_port=102\nelement_count=0\n".toList =
      ("server_port=102\n".toList, "element_count=0\n".toList) := by
    decide +kernel
  have h₃ : fgets (cfgMaxLine - 1) "element_count=0\n".toList =
      ("element_count=0\n".toList, []) := by
    decide +kernel
  rw [readLines_eq (by decide) h₁, readLines_eq (by decide) h₂, readLines_eq (by decide) h₃,
    readLines]

lemma loadSettings_serverConfig : ∃ cfg,
    loadSettings mmsServerSettings (some serverConfig) = some (cfg, ⟨"m", 102, []⟩) := by
  have hload : cfgLoad [] (some serverConfig) =
      (0, [⟨"element_count", "0"⟩, ⟨"server_port", "102"⟩, ⟨"config_file", "\"m\""⟩]) := by
    rw [cfgLoad, readLines_serverConfig]
    decide +kernel
  refine ⟨[⟨"element_count", "0"⟩, ⟨"server_port", "102"⟩, ⟨"config_file", "\"m\""⟩], ?_⟩
  rw [loadSettings, hload]
  decide +kernel

/-- A model that cannot be parsed: `deinit` looks for a server in a field that has not been
assigned. -/
theorem not_deinit_safe :
    ¬ ∀ config : Option String,
      (∀ answers data held, (siCode config answers).FailsWith data held →
        (siCode config answers).DeinitSafe data held) ∧
      (∀ answers data held, (goosePublisherCode config answers).FailsWith data held →
        (goosePublisherCode config answers).DeinitSafe data held) ∧
      (∀ answers data held, (gooseSubscriberCode config answers).FailsWith data held →
        (gooseSubscriberCode config answers).DeinitSafe data held) ∧
      (∀ answers data held, (mmsServerCode config answers).FailsWith data held →
        (mmsServerCode config answers).DeinitSafe data held) := by
  intro h
  let answers : MmsServerAnswers := ⟨false, fun _ => false, fun _ => .notOpened, false⟩
  obtain ⟨cfg, hcfg⟩ := loadSettings_serverConfig
  have hfails : (mmsServerCode (some serverConfig) answers).FailsWith
      (mmsServerData none (some none) []) {.elements, .configFile, .data} := by
    refine ⟨mmsServerData none none [], {.elements, .configFile, .data}, -1, ?_, ?_, by decide⟩
    · simp [mmsServerCode, mmsServerPreInit, hcfg, mmsPreInitElements, mmsServerData,
        -bind_pure_comp]
    · simp [mmsServerCode, mmsServerInit, mmsServerData, answers]
  obtain ⟨x, hx⟩ := (h (some serverConfig)).2.2.2 answers _ _ hfails
  exact fails_read_none.bind_left _ x hx

end Tmee
