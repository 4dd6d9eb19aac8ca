import Tmee.InputFile

set_option relaxedAutoImplicit false
set_option autoImplicit false

/-!
# Inputs that have been set up

After `init` has returned `0`, the publishers work on all inputs alike. An input whose type `init`
does not know gets no update function and no element, so the function that `run` and `event` call
is not set, and the elements behind it are not where they are looked for.

## Main definitions

* `Tmee.Publisher.Equipped`, `Tmee.SmvPublisher.Equipped` — every input has an update function, and
  its element is where it should be.
* `Tmee.Publisher.StaysEquipped`, `Tmee.SmvPublisher.StaysEquipped` — no run calls a function that
  is not set, and the inputs stay like that.
* `Tmee.SmvPublisher.fieldOffsets` — the offsets at which the elements were added.

## Main results

* `Tmee.publishers_stayEquipped_iff` — the files for which it is so.
-/

namespace Tmee

open Fallible

/-! ## Null pointers in the shared memory functions -/

section NoNull

/-- The function does not follow a null pointer, whatever is in the buffer. -/
def NoNull {α : Type} (m : BufM α) : Prop := ∀ b, Avoids .nullPointer (m b)

variable {α β : Type}

lemma noNull_pure (a : α) : NoNull (pure a) := fun b => avoids_ok (a, b)

lemma NoNull.bind {m : BufM α} {f : α → BufM β} (hm : NoNull m) (hf : ∀ a, NoNull (f a)) :
    NoNull (m >>= f) :=
  fun b => (hm b).bind fun r _ => hf r.1 r.2

lemma noNull_lift {x : Except Fault α} (hx : Avoids .nullPointer x) : NoNull (liftM x) :=
  fun b => hx.bind fun a _ => avoids_ok (a, b)

lemma NoNull.run' {m : BufM α} (hm : NoNull m) (b : Buffer) : Avoids .nullPointer (m.run' b) := by
  rw [StateT.run']
  cases hrun : m b with
  | error f =>
    intro h
    exact hm b (hrun.trans (congrArg Except.error (Except.error.inj h)))
  | ok r => exact avoids_ok r.1

lemma avoids_cInt (x : ℤ) : Avoids .nullPointer (cInt x) := by
  rw [cInt]
  split_ifs
  · exact avoids_ok x
  · simp [Avoids]

lemma avoids_cRem (a b : ℤ) : Avoids .nullPointer (cRem a b) := by
  rw [cRem]
  split_ifs
  · simp [Avoids]
  · exact avoids_cInt _

lemma noNull_load (w : ℕ) (a : ℤ) : NoNull (load w a) := by
  intro b
  rw [load]
  split_ifs <;> simp [Avoids]

lemma noNull_store (w : ℕ) (a v : ℤ) : NoNull (store w a v) := by
  intro b
  rw [store]
  split_ifs <;> simp [Avoids]

lemma noNull_lockBuffer (spin : ℤ) : NoNull (lockBuffer spin) := by
  refine (noNull_load 1 semaphorePos).bind fun semaphore => ?_
  split_ifs
  · exact noNull_pure (-1)
  · exact (noNull_store 1 semaphorePos 1).bind fun _ => noNull_pure 0
  · intro b
    simp [Avoids, throw, throwThe, MonadExceptOf.throw, StateT.lift, bind, Except.bind]
  · exact (noNull_store 1 semaphorePos 1).bind fun _ => noNull_pure 0

lemma noNull_freeBufferLock : NoNull freeBufferLock := by
  refine (noNull_load 1 semaphorePos).bind fun semaphore => ?_
  split_ifs
  · exact noNull_pure (-1)
  · exact (noNull_store 1 semaphorePos 0).bind fun _ => noNull_pure 0

lemma NoNull.locked {body : BufM α} (h : NoNull body) : NoNull (locked body) :=
  (noNull_lockBuffer 1).bind fun _ => h.bind fun result =>
    noNull_freeBufferLock.bind fun _ => noNull_pure result

lemma noNull_readInputInt32 (index : ℤ) : NoNull (readInputInt32 index) :=
  ((noNull_lift (avoids_cInt _)).bind fun _ => noNull_load _ _).locked

lemma UpdateFunction.noNull_readInput (update : UpdateFunction) (index : ℤ) :
    NoNull (update.readInput index) := by
  cases update with
  | updateBool => exact ((noNull_lift (avoids_cInt _)).bind fun _ => noNull_load _ _).locked
  | updateInt8 => exact ((noNull_lift (avoids_cInt _)).bind fun _ => noNull_load _ _).locked
  | updateInt32 => exact noNull_readInputInt32 index

/-- **A call through the pointer** that is set follows no null pointer. -/
lemma SmvPublisher.UpdateFunction.noNull_call {Asdu : Type} {lib : SvLibrary Asdu}
    (update : SmvPublisher.UpdateFunction) (asdu : Asdu) (index bufferIndex : ℤ) :
    NoNull (update.call lib asdu index bufferIndex) := by
  cases update <;>
    exact (noNull_lift (avoids_cInt _)).bind fun _ =>
      (noNull_readInputInt32 _).bind fun _ => noNull_pure _

end NoNull

/-! ## The GOOSE publisher -/

/-- Every input has an update function, and an element that is in the dataset at the place of the
input. -/
structure Publisher.Equipped (p : Publisher) : Prop where
  assigned : ∀ d ∈ p.inputs, d.updateFunction.isSome
  element : ∀ (i : ℕ) (d : DataInput), p.inputs[i]? = some d →
    ∃ value, d.element.head? = some value ∧ p.dataSetValues[i]? = some value

/-- **No run calls a function that is not set**, and every state reached is equipped. -/
def Publisher.StaysEquipped (p : Publisher) : Prop :=
  ∀ is, match Run.exec publisherStep p is with
    | .ok p' => p'.Equipped
    | .error f => f ≠ .nullPointer

section Goose

variable {p p' : Publisher}

/-- The input has an update function and an element. -/
structure DataInput.Assigned (d : DataInput) : Prop where
  update : d.updateFunction.isSome
  element : d.element ≠ []

/-- If all inputs are assigned, the dataset lists their elements in order. -/
lemma dataSetValues_getElem? (h : ∀ d ∈ p.inputs, d.Assigned) (i : ℕ) :
    p.dataSetValues[i]? = p.inputs[i]?.bind fun d => d.element.head? := by
  rw [Publisher.dataSetValues]
  generalize p.inputs = ds at h ⊢
  induction ds generalizing i with
  | nil => simp
  | cons d ds ih =>
    rw [List.forall_mem_cons] at h
    obtain ⟨value, values, helement⟩ := List.exists_cons_of_ne_nil h.1.element
    have hhead : d.element.head? = some value := by rw [helement, List.head?_cons]
    rw [List.filterMap_cons, hhead]
    cases i with
    | zero => simp [hhead]
    | succ i => simpa using ih i h.2

lemma equipped_of_assigned (h : ∀ d ∈ p.inputs, d.Assigned) : p.Equipped := by
  refine ⟨fun d hd => (h d hd).update, fun i d hd => ?_⟩
  obtain ⟨value, values, helement⟩ :=
    List.exists_cons_of_ne_nil (h d (List.mem_of_getElem? hd)).element
  have hhead : d.element.head? = some value := by rw [helement, List.head?_cons]
  exact ⟨value, hhead, by rw [dataSetValues_getElem? h, hd, Option.bind_some, hhead]⟩

/-- A poll keeps an input assigned. -/
lemma DataInput.Assigned.poll {maxLag : ℤ} {d d' : DataInput} {updated : Bool} (h : d.Assigned)
    (hpoll : d.poll maxLag = .ok (updated, d')) : d'.Assigned := by
  rcases DataInput.poll_cases hpoll with ⟨-, -, rfl⟩ | ⟨-, -, oldIndex, update, value, buffer, -,
    hupdate, -, rfl⟩
  · exact h
  · exact ⟨h.update, List.cons_ne_nil _ _⟩

/-- A poll of an assigned input follows no null pointer. -/
lemma DataInput.Assigned.avoids_poll {maxLag : ℤ} {d : DataInput} (h : d.Assigned) :
    Avoids .nullPointer (d.poll maxLag) := by
  have hdiff (currentIndex : ℤ) : Avoids .nullPointer (d.diff currentIndex) := by
    refine (avoids_cInt _).bind fun diff _ => ?_
    split_ifs
    · exact ((noNull_load 4 4).run' d.buffer).bind fun items _ => avoids_cInt _
    · exact avoids_ok diff
  have hnext (currentIndex : ℤ) : Avoids .nullPointer (d.nextIndex maxLag currentIndex) := by
    refine (hdiff currentIndex).bind fun diff _ => ?_
    split_ifs
    · exact avoids_ok currentIndex
    · refine ((noNull_load 4 4).run' d.buffer).bind fun items _ => ?_
      exact (avoids_cInt _).bind fun index _ => avoids_cRem _ _
  obtain ⟨update, hupdate⟩ := Option.isSome_iff_exists.mp h.update
  rw [DataInput.poll]
  refine ((noNull_load 4 8).run' d.buffer).bind fun currentIndex _ => ?_
  split_ifs
  · refine (hnext currentIndex).bind fun oldIndex _ => ?_
    rw [hupdate]
    exact (update.noNull_readInput oldIndex d.buffer).bind fun r _ => avoids_ok _
  · exact avoids_ok _

lemma avoids_event (h : ∀ d ∈ p.inputs, d.Assigned) : Avoids .nullPointer p.event := by
  refine (Avoids.mapM fun d hd => (h d hd).avoids_poll).bind fun polled _ => ?_
  dsimp only
  split_ifs <;> exact avoids_ok _

/-- A call of `event` keeps the inputs assigned. -/
lemma assigned_event {result : ℤ} (h : ∀ d ∈ p.inputs, d.Assigned)
    (hevent : p.event = .ok (result, p')) : ∀ d ∈ p'.inputs, d.Assigned := by
  obtain ⟨polled, hpolled, hcases⟩ := Publisher.event_cases hevent
  have hinputs : p'.inputs = polled.map Prod.snd := by
    rcases hcases with ⟨-, -, rfl⟩ | ⟨-, -, rfl⟩ <;> rfl
  intro d hd
  rw [hinputs] at hd
  obtain ⟨⟨updated, d'⟩, hmem, rfl⟩ := List.mem_map.mp hd
  obtain ⟨d₀, hd₀, hpoll⟩ := exists_element hpolled hmem
  exact (h d₀ hd₀).poll hpoll

/-- What one step does to assigned inputs. -/
lemma publisherStep_assigned (h : ∀ d ∈ p.inputs, d.Assigned) (i : PublisherInput) :
    Avoids .nullPointer (publisherStep p i) ∧
      ∀ p', publisherStep p i = .ok p' → ∀ d ∈ p'.inputs, d.Assigned := by
  cases i with
  | input k buffer =>
    refine ⟨avoids_ok _, fun p' hstep d hd => ?_⟩
    obtain rfl := Except.ok.inj hstep
    obtain ⟨j, hj⟩ := List.mem_iff_getElem?.mp hd
    rw [List.getElem?_modify] at hj
    obtain ⟨d₀, hd₀, heq⟩ := Option.map_eq_some_iff.mp hj
    have hassigned := h d₀ (List.mem_of_getElem? hd₀)
    split_ifs at heq
    · exact heq ▸ ⟨hassigned.update, hassigned.element⟩
    · exact heq ▸ hassigned
  | event now =>
    refine ⟨?_, fun p' hstep => ?_⟩
    · rw [publisherStep, ← bind_pure_comp]
      exact (avoids_event h).bind fun r _ => avoids_ok r.2
    · obtain ⟨result, hevent⟩ := Publisher.publisherStep_event_eq_ok.mp hstep
      exact assigned_event h hevent
  | run now =>
    refine ⟨?_, fun p' hstep => ?_⟩
    · refine (avoids_event h).bind fun r _ => ?_
      dsimp only
      split_ifs <;> exact avoids_ok _
    · obtain ⟨result, q, hevent, hcases⟩ := Publisher.run_cases hstep
      have hq := assigned_event h hevent
      rcases hcases with ⟨-, -, rfl⟩ | ⟨-, rfl⟩
      · exact hq
      · exact hq

/-- **A publisher whose inputs are assigned stays equipped.** -/
lemma staysEquipped_of_assigned (h : ∀ d ∈ p.inputs, d.Assigned) : p.StaysEquipped := by
  intro is
  induction is generalizing p with
  | nil => exact equipped_of_assigned h
  | cons i is ih =>
    obtain ⟨havoids, hkept⟩ := publisherStep_assigned h i
    rw [Run.exec]
    cases hstep : publisherStep p i with
    | ok p' => exact ih (hkept p' hstep)
    | error f =>
      rintro rfl
      exact havoids hstep

/-- The part of `init` for one input assigns it if the type is known. -/
lemma DataInput.assigned_init {b : Buffer} {d : DataInput} (h : DataInput.init b = .ok d)
    (htype : UpdateFunction.ofType b.type ≠ none) : d.Assigned := by
  obtain ⟨-, -, hupdate, -⟩ := DataInput.init_eq h
  refine ⟨hupdate ▸ Option.isSome_iff_ne_none.mpr htype, ?_⟩
  obtain ⟨type, hread, hrest⟩ := bind_eq_ok.mp h
  obtain ⟨-, rfl⟩ := readType_eq_ok_iff.mp hread
  obtain ⟨update, hknown⟩ := Option.ne_none_iff_exists'.mp htype
  simp only [hknown] at hrest
  obtain ⟨r, -, hreturn⟩ := bind_eq_ok.mp hrest
  obtain rfl := Except.ok.inj hreturn
  exact List.cons_ne_nil _ _

/-- **The types for which the GOOSE publisher stays equipped.** -/
lemma staysEquipped_initPublisher_iff {ttl gooseFastRetransmitTtl maxLag now : ℤ}
    {buffers : List Buffer}
    (h : initPublisher ttl gooseFastRetransmitTtl maxLag buffers now = .ok p) :
    p.StaysEquipped ↔ ∀ b ∈ buffers, UpdateFunction.ofType b.type ≠ none := by
  obtain ⟨inputs, hinputs, hreturn⟩ := bind_eq_ok.mp h
  obtain rfl := Except.ok.inj hreturn
  constructor
  · intro hstays b hb
    obtain ⟨d, hd, hinit⟩ := exists_result hinputs hb
    obtain ⟨-, -, hupdate, -⟩ := DataInput.init_eq hinit
    have hassigned := (hstays []).assigned d hd
    rw [hupdate] at hassigned
    exact Option.isSome_iff_ne_none.mp hassigned
  · intro htypes
    refine staysEquipped_of_assigned fun d hd => ?_
    obtain ⟨b, hb, hinit⟩ := exists_element hinputs hd
    exact DataInput.assigned_init hinit (htypes b hb)

end Goose

/-! ## The SMV publisher -/

namespace SmvPublisher

variable {Asdu : Type} {lib : SvLibrary Asdu}

/-- The offsets at which the elements of the inputs are added, in the order of `init`; an input
without an update function has no element. -/
def fieldOffsets (lib : SvLibrary Asdu) : Asdu → List DataInput → List (Option ℤ)
  | _, [] => []
  | asdu, d :: ds =>
    match d.updateFunction with
    | none => none :: fieldOffsets lib asdu ds
    | some update =>
      some (lib.add update.element asdu).1 :: fieldOffsets lib (lib.add update.element asdu).2 ds

/-- Every input has an update function, the offset that `run` computes from its number is the one at
which its element was added, and a call for it leaves the elements of the other inputs alone. -/
structure Equipped (lib : SvLibrary Asdu) (p : SmvPublisher Asdu) : Prop where
  field : ∀ (i : ℕ) (d : DataInput), p.inputs[i]? = some d → d.updateFunction.isSome ∧
    ∃ offset, (fieldOffsets lib lib.addAsdu p.inputs)[i]? = some (some offset) ∧
      cInt ((i : ℤ) * 4) = .ok offset
  others : ∀ (i j : ℕ) update asdu bufferIndex b asdu' b' offset e, i < p.inputs.length → j ≠ i →
    UpdateFunction.call lib update asdu i bufferIndex b = .ok (asdu', b') →
      (fieldOffsets lib lib.addAsdu p.inputs)[j]? = some (some offset) →
        lib.get e offset asdu' = lib.get e offset asdu

/-- **No run calls a function that is not set**, and every state reached is equipped. -/
def StaysEquipped (lib : SvLibrary Asdu) (p : SmvPublisher Asdu) : Prop :=
  ∀ is, match Run.exec (smvPublisherStep lib) p is with
    | .ok p' => p'.Equipped lib
    | .error f => f ≠ .nullPointer

/-- If every input has an update function, the offsets are the multiples of four. -/
lemma getElem?_fieldOffsets (hlib : lib.Lawful) {ds : List DataInput} {asdu : Asdu}
    (h : ∀ d ∈ ds, d.updateFunction.isSome) {i : ℕ} (hi : i < ds.length) :
    (fieldOffsets lib asdu ds)[i]? = some (some (lib.dataSize asdu + 4 * i)) := by
  induction ds generalizing asdu i with
  | nil => cases hi
  | cons d ds ih =>
    rw [List.forall_mem_cons] at h
    obtain ⟨update, hupdate⟩ := Option.isSome_iff_exists.mp h.1
    simp only [fieldOffsets, hupdate]
    cases i with
    | zero => simp [hlib.add_offset]
    | succ i =>
      rw [List.getElem?_cons_succ, ih h.2 (Nat.lt_of_succ_lt_succ hi), hlib.dataSize_add]
      push_cast
      ring_nf

lemma length_fieldOffsets (asdu : Asdu) (ds : List DataInput) :
    (fieldOffsets lib asdu ds).length = ds.length := by
  induction ds generalizing asdu with
  | nil => rfl
  | cons d ds ih =>
    rw [fieldOffsets]
    split <;> simp [ih]

/-- A call through the pointer sets at most the element at four times the number of the input. -/
lemma exists_set_of_call {update : UpdateFunction} {asdu asdu' : Asdu} {index bufferIndex : ℤ}
    {b b' : Buffer} (h : update.call lib asdu index bufferIndex b = .ok (asdu', b')) :
    ∃ value, asdu' = lib.set (index * 4) value asdu := by
  have hset {slot : ℤ} {f : ℤ → AsduValue} (hcall : (do
      let offset ← cInt (index * 4)
      let value ← readInputInt32 slot
      return lib.set offset (f value) asdu : BufM Asdu) b = .ok (asdu', b')) :
      ∃ value, asdu' = lib.set (index * 4) value asdu := by
    obtain ⟨offset, c, hoffset, hrest⟩ := bufM_bind_eq_ok hcall
    obtain ⟨hmul, rfl⟩ := bufM_lift_eq_ok hoffset
    obtain ⟨-, rfl⟩ := cInt_eq_ok_iff.mp hmul
    obtain ⟨value, d, -, hreturn⟩ := bufM_bind_eq_ok hrest
    obtain ⟨rfl, rfl⟩ := Prod.mk.inj (Except.ok.inj hreturn)
    exact ⟨f value, rfl⟩
  cases update with
  | updateFloat => exact hset h
  | updateQuality => exact hset h
  | updateInt32 => exact hset h

/-- **A publisher is equipped** if every input has an update function and the offsets are `int`s. -/
lemma equipped_iff (hlib : lib.Lawful) {p : SmvPublisher Asdu} : p.Equipped lib ↔
    (∀ d ∈ p.inputs, d.updateFunction.isSome) ∧ p.inputs.length ≤ 2 ^ 29 := by
  constructor
  · intro h
    refine ⟨fun d hd => ?_, ?_⟩
    · obtain ⟨i, hi⟩ := List.mem_iff_getElem?.mp hd
      exact (h.field i d hi).1
    · by_contra hlen
      obtain ⟨d, hd⟩ : ∃ d, p.inputs[2 ^ 29]? = some d :=
        ⟨_, List.getElem?_eq_getElem (by omega)⟩
      obtain ⟨-, offset, -, hoffset⟩ := h.field _ d hd
      have hlt := (cInt_eq_ok_iff.mp hoffset).1.2
      norm_num at hlt
  · rintro ⟨hassigned, hlen⟩
    have hoffset {i : ℕ} (hi : i < p.inputs.length) :
        (fieldOffsets lib lib.addAsdu p.inputs)[i]? = some (some (4 * (i : ℤ))) := by
      rw [getElem?_fieldOffsets hlib hassigned hi, hlib.dataSize_addAsdu, zero_add]
    refine ⟨fun i d hd => ?_, fun i j update asdu bufferIndex b asdu' b' offset e hi hne hcall hj =>
      ?_⟩
    · have hi := (List.getElem?_eq_some_iff.mp hd).1
      refine ⟨hassigned d (List.mem_of_getElem? hd), _, hoffset hi, ?_⟩
      exact cInt_eq_ok_iff.mpr ⟨⟨by omega, by omega⟩, by ring⟩
    · obtain ⟨value, rfl⟩ := exists_set_of_call hcall
      have hj' : j < p.inputs.length := by
        have hlt := (List.getElem?_eq_some_iff.mp hj).1
        rwa [length_fieldOffsets] at hlt
      obtain rfl := Option.some.inj (Option.some.inj ((hoffset hj').symm.trans hj))
      exact hlib.get_set_of_disjoint _ _ _ _ _ (by omega)

/-- The loop of `run` follows no null pointer if every input has an update function. -/
lemma avoids_updateInputs {ds : List DataInput} (h : ∀ d ∈ ds, d.updateFunction.isSome) (index : ℤ)
    (asdu : Asdu) : Avoids .nullPointer (updateInputs lib index ds asdu) := by
  induction ds generalizing index asdu with
  | nil => exact avoids_ok _
  | cons d ds ih =>
    rw [List.forall_mem_cons] at h
    obtain ⟨update, hupdate⟩ := Option.isSome_iff_exists.mp h.1
    rw [updateInputs]
    refine ((noNull_load 4 8).run' d.buffer).bind fun currentIndex _ => ?_
    rw [hupdate]
    refine (update.noNull_call asdu index currentIndex d.buffer).bind fun r _ => ?_
    exact (ih h.2 (index + 1) r.1).bind fun r _ => avoids_ok _

/-- The loop of `run` keeps the update functions. -/
lemma map_updateFunction_updateInputs {ds ds' : List DataInput} {index : ℤ} {asdu asdu' : Asdu}
    (h : updateInputs lib index ds asdu = .ok (ds', asdu')) :
    ds'.map DataInput.updateFunction = ds.map DataInput.updateFunction := by
  induction ds generalizing ds' index asdu asdu' with
  | nil =>
    obtain ⟨rfl, -⟩ := Prod.mk.inj (Except.ok.inj h)
    rfl
  | cons d ds ih =>
    obtain ⟨currentIndex, -, hrest⟩ := bind_eq_ok.mp h
    cases hupdate : d.updateFunction with
    | none =>
      simp only [hupdate] at hrest
      cases hrest
    | some update =>
      simp only [hupdate] at hrest
      obtain ⟨⟨asdu₁, buffer⟩, -, hloop⟩ := bind_eq_ok.mp hrest
      obtain ⟨⟨ds₁, asdu₂⟩, hds, hreturn⟩ := bind_eq_ok.mp hloop
      obtain ⟨rfl, -⟩ := Prod.mk.inj (Except.ok.inj hreturn)
      rw [List.map_cons, List.map_cons, ih hds, hupdate]

/-- **What one step does** to a publisher whose inputs have update functions: it follows no null
pointer and keeps the update functions. -/
lemma smvPublisherStep_assigned {p : SmvPublisher Asdu}
    (h : ∀ d ∈ p.inputs, d.updateFunction.isSome) (i : SmvPublisherInput) :
    Avoids .nullPointer (smvPublisherStep lib p i) ∧
      ∀ p', smvPublisherStep lib p i = .ok p' →
        p'.inputs.map DataInput.updateFunction = p.inputs.map DataInput.updateFunction := by
  cases i with
  | input k buffer =>
    refine ⟨avoids_ok _, fun p' hstep => ?_⟩
    obtain rfl := Except.ok.inj hstep
    refine List.ext_getElem? fun j => ?_
    simp only [List.getElem?_map, List.getElem?_modify]
    cases p.inputs[j]? with
    | none => rfl
    | some d => by_cases hk : k = j <;> simp [hk]
  | run now timeInNs =>
    rw [smvPublisherStep, SmvPublisher.run]
    split_ifs with hdue
    · refine ⟨(avoids_updateInputs h 0 p.asdu).bind fun r _ => avoids_ok _, fun p' hstep => ?_⟩
      obtain ⟨⟨inputs, asdu⟩, hloop, hreturn⟩ := bind_eq_ok.mp hstep
      obtain rfl := Except.ok.inj hreturn
      exact map_updateFunction_updateInputs hloop
    · refine ⟨avoids_ok _, fun p' hstep => ?_⟩
      obtain rfl := Except.ok.inj hstep
      rfl

/-- **An equipped publisher stays equipped.** -/
lemma staysEquipped_iff_equipped (hlib : lib.Lawful) {p : SmvPublisher Asdu} :
    p.StaysEquipped lib ↔ p.Equipped lib := by
  refine ⟨fun h => h [], fun h is => ?_⟩
  induction is generalizing p with
  | nil => exact h
  | cons i is ih =>
    obtain ⟨hassigned, hlen⟩ := (equipped_iff hlib).mp h
    obtain ⟨havoids, hkept⟩ := smvPublisherStep_assigned hassigned i
    rw [Run.exec]
    cases hstep : smvPublisherStep lib p i with
    | error f =>
      rintro rfl
      exact havoids hstep
    | ok p' =>
      have hmap := hkept p' hstep
      refine ih ((equipped_iff hlib).mpr ⟨fun d hd => ?_, ?_⟩)
      · have hmem : d.updateFunction ∈ p'.inputs.map DataInput.updateFunction :=
          List.mem_map_of_mem hd
        rw [hmap] at hmem
        obtain ⟨d₀, hd₀, heq⟩ := List.mem_map.mp hmem
        exact heq ▸ hassigned d₀ hd₀
      · have hlength := congrArg List.length hmap
        rw [List.length_map, List.length_map] at hlength
        omega

/-- `init` with mapped headers returns. -/
lemma exists_initSmvPublisher {smpCnt interval now : ℤ} {buffers : List Buffer}
    (h : ∀ b ∈ buffers, 16 ≤ b.length) :
    ∃ p, initSmvPublisher lib smpCnt interval buffers now = .ok p := by
  rw [initSmvPublisher, addInputs_eq_ok_iff.mpr ⟨h, rfl, rfl⟩]
  exact ⟨_, rfl⟩

/-- **The types for which the SMV publisher stays equipped.** -/
lemma staysEquipped_initSmvPublisher_iff (hlib : lib.Lawful) {smpCnt interval now : ℤ}
    {buffers : List Buffer} {p : SmvPublisher Asdu}
    (h : initSmvPublisher lib smpCnt interval buffers now = .ok p) :
    p.StaysEquipped lib ↔
      (∀ b ∈ buffers, UpdateFunction.ofType b.type ≠ none) ∧ buffers.length ≤ 2 ^ 29 := by
  obtain ⟨⟨inputs, asdu⟩, hadd, hreturn⟩ := bind_eq_ok.mp h
  obtain rfl := Except.ok.inj hreturn
  obtain ⟨-, rfl, -⟩ := addInputs_eq_ok_iff.mp hadd
  rw [staysEquipped_iff_equipped hlib, equipped_iff hlib, List.forall_mem_map, List.length_map]
  simp only [Option.isSome_iff_ne_none]

end SmvPublisher

/-! ## Files -/

/-- **An `init` that returns `0`** has mapped every file, created the publisher object, and set up
the inputs. -/
lemma initFromFiles_eq_ready_iff {σ : Type} {mmap : Mmap} {init : List Buffer → Except Fault σ}
    {created : Bool} {files : List (Option (List UInt8))} {data : σ} {sizes : List ℤ} :
    initFromFiles mmap init created files = .ok (.ready (data, sizes)) ↔ created = true ∧
      ∃ fs buffers, files = fs.map some ∧ init buffers = .ok data ∧
        List.Forall₂ (Mapped mmap) fs buffers ∧ sizes = fs.map calculateBufferSizeFromFile := by
  constructor
  · intro h
    obtain ⟨r, hmaps, hrest⟩ := bind_eq_ok.mp h
    rcases mapInputs_eq_ok hmaps with ⟨-, rfl⟩ | ⟨fs, mappings, rfl, rfl, hall⟩
    · cases hrest
    · cases created with
      | false => cases hrest
      | true =>
        simp only [if_true] at hrest
        obtain ⟨buffers, hbuffers, hready⟩ := bind_eq_ok.mp hrest
        obtain ⟨data', hinit, hreturn⟩ := bind_eq_ok.mp hready
        obtain ⟨rfl, rfl⟩ := Prod.mk.inj (InitResult.ready.inj (Except.ok.inj hreturn))
        refine ⟨rfl, fs, buffers, rfl, hinit, ?_⟩
        clear hmaps h hready hrest hreturn hinit
        induction hall generalizing buffers with
        | nil =>
          obtain rfl := Except.ok.inj hbuffers
          exact ⟨.nil, rfl⟩
        | cons hfm _ ih =>
          rw [List.map_cons, List.mapM_cons] at hbuffers
          obtain ⟨b, hb, htail⟩ := bind_eq_ok.mp hbuffers
          obtain ⟨bs, hbs, heq⟩ := bind_eq_ok.mp htail
          obtain rfl := Except.ok.inj heq
          obtain ⟨hmapped, hsizes⟩ := ih bs hbs
          rw [deref_eq_ok_iff.mp hb] at hfm
          refine ⟨.cons (mapInput_eq_some_iff.mp hfm.1) hmapped, ?_⟩
          rw [List.map_cons, List.map_cons, hfm.2, hsizes]
  · rintro ⟨rfl, fs, buffers, rfl, hinit, hmapped, rfl⟩
    obtain ⟨mappings, hmaps, hderef, hsizes⟩ := exists_mapInputs_of_mapped hmapped
    rw [initFromFiles, hmaps, ok_bind]
    simp only [if_true, hderef, hinit, hsizes, ok_bind]
    rfl

/-- The types in the mappings are those in the files. -/
lemma forall_type_iff {mmap : Mmap} (hmmap : mmap.Lawful) {fs : List (List UInt8)}
    {buffers : List Buffer} (hmapped : List.Forall₂ (Mapped mmap) fs buffers)
    (hlen : ∀ b ∈ buffers, 16 ≤ b.length) (P : ℤ → Prop) :
    (∀ b ∈ buffers, P b.type) ↔ ∀ f, some f ∈ fs.map some → P (headerOf f).type := by
  have hmem (f : List UInt8) : some f ∈ fs.map some ↔ f ∈ fs := by simp
  simp only [hmem]
  clear hmem
  induction hmapped with
  | nil => simp
  | cons hmap _ ih =>
    rw [List.forall_mem_cons] at hlen
    rw [List.forall_mem_cons, List.forall_mem_cons, hmap.type_eq hmmap hlen.1]
    exact and_congr_right fun _ => ih hlen.2

/-- **The files for which the publishers stay equipped.** Once `init` has returned `0`, this is so
for the GOOSE publisher if and only if it knows the types of all files, and for the SMV publisher if
and only if it does so and the offsets are `int`s.

**Proof sketch.** The types in the mappings are those in the files, and `init` assigns an input if
it knows its type. No step changes an update function, so every run finds all of them set, and the
offsets where the elements were added are the multiples of four. -/
theorem publishers_stayEquipped_iff {mmap : Mmap} (hmmap : mmap.Lawful) {Asdu : Type}
    {lib : SvLibrary Asdu} (hlib : lib.Lawful)
    {ttl gooseFastRetransmitTtl maxLag smpCnt interval now : ℤ}
    {created : Bool} {files : List (Option (List UInt8))} :
    (∀ p sizes, initGoosePublisherFiles mmap ttl gooseFastRetransmitTtl maxLag now created files =
        .ok (.ready (p, sizes)) →
      (p.StaysEquipped ↔ ∀ f, some f ∈ files →
        UpdateFunction.ofType (headerOf f).type ≠ none)) ∧
    (∀ p sizes, initSmvPublisherFiles mmap lib smpCnt interval now created files =
        .ok (.ready (p, sizes)) →
      (p.StaysEquipped lib ↔ (∀ f, some f ∈ files →
        SmvPublisher.UpdateFunction.ofType (headerOf f).type ≠ none) ∧
          files.length ≤ 2 ^ 29)) := by
  constructor
  · intro p sizes h
    obtain ⟨-, fs, buffers, rfl, hinit, hmapped, -⟩ := initFromFiles_eq_ready_iff.mp h
    rw [staysEquipped_initPublisher_iff hinit]
    refine forall_type_iff hmmap hmapped (fun b hb => ?_)
      fun type => UpdateFunction.ofType type ≠ none
    obtain ⟨inputs, hinputs, -⟩ := bind_eq_ok.mp hinit
    obtain ⟨d, -, hd⟩ := exists_result hinputs hb
    exact (DataInput.init_eq hd).1
  · intro p sizes h
    obtain ⟨-, fs, buffers, rfl, hinit, hmapped, -⟩ := initFromFiles_eq_ready_iff.mp h
    obtain ⟨⟨inputs, asdu⟩, hadd, -⟩ := bind_eq_ok.mp hinit
    rw [SmvPublisher.staysEquipped_initSmvPublisher_iff hlib hinit, List.length_map,
      hmapped.length_eq]
    refine and_congr_left fun _ => forall_type_iff hmmap hmapped
      (SmvPublisher.addInputs_eq_ok_iff.mp hadd).1
      fun type => SmvPublisher.UpdateFunction.ofType type ≠ none

/-- A file with a `BOOL` ring of three entries. -/
def boolFile : List UInt8 := [1, 0, 0, 0, 3, 0, 0, 0, 2, 0, 0, 0, 1, 0, 0, 0, 1, 0, 1]

/-- A file with a `FLOAT32` ring of two entries, `1.0` and `-2.0`. -/
def floatFile : List UInt8 :=
  [4, 0, 0, 0, 2, 0, 0, 0, 0, 0, 0, 0, 5, 0, 0, 0, 0, 0, 128, 63, 0, 0, 0, 192]

lemma gooseFileSafe_boolFile : GooseFileSafe pageMmap boolFile := by
  have htype : UpdateFunction.ofType (headerOf boolFile).type = some .updateBool := by
    decide +kernel
  obtain ⟨b, hb, hlen⟩ := exists_mapped_pageMmap
    (show calculateBufferSizeFromFile boolFile = 19 by decide) (by decide) (by decide) (by decide)
  refine ⟨⟨⟨b, hb⟩, by decide, ?_⟩, fun _ => by decide +kernel, fun update hupdate => ?_⟩
  · rw [htype]
    decide +kernel
  · obtain rfl := Option.some.inj (htype.symm.trans hupdate)
    rw [hb.accessible_eq, hlen]
    decide +kernel

/-- The GOOSE publisher with an integer and a Boolean, the SMV publisher with an integer and a
floating point number. -/
theorem publishers_stayEquipped_iff_twoFiles :
    (∃ p sizes, initGoosePublisherFiles pageMmap 2000000 20000 5 0 true
        [some intFile, some boolFile] = .ok (.ready (p, sizes)) ∧ p.StaysEquipped) ∧
    (∃ p sizes, initSmvPublisherFiles pageMmap wordLibrary 4000 250 0 true
        [some intFile, some floatFile] = .ok (.ready (p, sizes)) ∧
      p.StaysEquipped wordLibrary) := by
  constructor
  · have hiff := (@publishers_stayEquipped_iff _ pageMmap_lawful _ _ wordLibrary_lawful
      2000000 20000 5 4000 250 0 true [some intFile, some boolFile]).1
    obtain ⟨b, hb, hgood⟩ := (exists_gooseMapped_iff pageMmap_lawful).mpr gooseFileSafe_intFile
    obtain ⟨c, hc, hgood'⟩ := (exists_gooseMapped_iff pageMmap_lawful).mpr gooseFileSafe_boolFile
    obtain ⟨p, hp⟩ : ∃ p, initPublisher 2000000 20000 5 [b, c] 0 = .ok p :=
      exists_initPublisher (.cons hgood (.cons hgood' .nil))
    have hready : initGoosePublisherFiles pageMmap 2000000 20000 5 0 true
        [some intFile, some boolFile] = .ok (.ready (p, _)) :=
      initFromFiles_eq_ready_iff.mpr ⟨rfl, [intFile, boolFile], [b, c], rfl, hp,
        .cons hb (.cons hc .nil), rfl⟩
    refine ⟨p, _, hready, (hiff p _ hready).mpr fun f hf => ?_⟩
    obtain rfl | rfl : f = intFile ∨ f = boolFile := by simpa using hf
    · decide +kernel
    · decide +kernel
  · have hiff := (@publishers_stayEquipped_iff _ pageMmap_lawful _ _ wordLibrary_lawful
      2000000 20000 5 4000 250 0 true [some intFile, some floatFile]).2
    obtain ⟨b, hb, hlen⟩ := exists_mapped_intFile
    obtain ⟨c, hc, hlen'⟩ := exists_mapped_pageMmap
      (show calculateBufferSizeFromFile floatFile = 24 by decide) (by decide) (by decide)
      (by decide)
    obtain ⟨q, hq⟩ : ∃ q, initSmvPublisher wordLibrary 4000 250 [b, c] 0 = .ok q :=
      SmvPublisher.exists_initSmvPublisher (List.forall_mem_cons.mpr ⟨hlen ▸ by decide,
        List.forall_mem_singleton.mpr (hlen' ▸ by decide)⟩)
    have hready : initSmvPublisherFiles pageMmap wordLibrary 4000 250 0 true
        [some intFile, some floatFile] = .ok (.ready (q, _)) :=
      initFromFiles_eq_ready_iff.mpr ⟨rfl, [intFile, floatFile], [b, c], rfl, hq,
        .cons hb (.cons hc .nil), rfl⟩
    refine ⟨q, _, hready, (hiff q _ hready).mpr ⟨fun f hf => ?_, by decide⟩⟩
    obtain rfl | rfl : f = intFile ∨ f = floatFile := by simpa using hf
    · decide +kernel
    · decide +kernel

/-- A file with a ring of samples, a type that the publishers do not know, is accepted by `init` of
both. -/
theorem not_publishers_stayEquipped :
    (∃ p sizes, initGoosePublisherFiles pageMmap 2000000 20000 5 0 true [some sampleFile] =
      .ok (.ready (p, sizes)) ∧ ¬ p.StaysEquipped) ∧
    (∃ p sizes, initSmvPublisherFiles pageMmap wordLibrary 4000 250 0 true [some sampleFile] =
      .ok (.ready (p, sizes)) ∧ ¬ p.StaysEquipped wordLibrary) := by
  obtain ⟨b, hb, hlen⟩ := exists_mapped_pageMmap
    (show calculateBufferSizeFromFile sampleFile = 152 by decide +kernel) (by decide) (by decide)
    (by decide +kernel)
  have hheader : 16 ≤ b.length := hlen ▸ by decide +kernel
  have htype : b.type = 68 := (hb.type_eq pageMmap_lawful hheader).trans (by decide +kernel)
  have hmapped : List.Forall₂ (Mapped pageMmap) [sampleFile] [b] := .cons hb .nil
  constructor
  · have hunknown : UpdateFunction.ofType b.type = none := htype ▸ by decide
    obtain ⟨d, hd⟩ := DataInput.exists_init hheader fun update hupdate =>
      absurd (hupdate.symm.trans hunknown) (Option.some_ne_none update)
    obtain ⟨p, hp⟩ : ∃ p, initPublisher 2000000 20000 5 [b] 0 = .ok p := by
      rw [initPublisher, List.mapM_cons, hd]
      exact ⟨_, rfl⟩
    refine ⟨p, _, initFromFiles_eq_ready_iff.mpr
      ⟨rfl, [sampleFile], [b], rfl, hp, hmapped, rfl⟩, fun h => ?_⟩
    exact (staysEquipped_initPublisher_iff hp).mp h b List.mem_cons_self hunknown
  · have hunknown : SmvPublisher.UpdateFunction.ofType b.type = none := htype ▸ by decide
    obtain ⟨q, hq⟩ : ∃ q, initSmvPublisher wordLibrary 4000 250 [b] 0 = .ok q :=
      SmvPublisher.exists_initSmvPublisher (List.forall_mem_singleton.mpr hheader)
    refine ⟨q, _, initFromFiles_eq_ready_iff.mpr
      ⟨rfl, [sampleFile], [b], rfl, hq, hmapped, rfl⟩, fun h => ?_⟩
    have htypes := (SmvPublisher.staysEquipped_initSmvPublisher_iff wordLibrary_lawful hq).mp h
    exact htypes.1 b List.mem_cons_self hunknown

end Tmee
