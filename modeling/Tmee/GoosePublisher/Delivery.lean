import Tmee.GoosePublisher.Publisher
import Tmee.MemFile.WriteLaw

set_option relaxedAutoImplicit false
set_option autoImplicit false

/-!
# From the ring to the dataset element

A producer writes into the ring of one input while the publisher takes its entries. The publisher
remembers a slot only, so it is followed as the consumer of a ring of numbered entries: the calls
of `event` and `run` are the polls of `NumberedRing.Feed`.

## Main definitions

* `Tmee.DeliveryInput`, `Tmee.deliveryStep` — runs of the publisher and the producer of one input.
* `Tmee.InOrder` — the values put into the element are entries of the ring in the order in which
  they were written, and entries are left out only for a reason.

## Main results

* `Tmee.DataInput.poll_eq` — a poll is `NumberedRing.consume`.
* `Tmee.tracks_step`, `Tmee.tracks_exec` — the publisher refines the numbered consumer.
* `Tmee.delivered_inOrder` — values are put in order, and left out only by the jump to the newest
  entry or when they have been overwritten.
-/

namespace Tmee

open NumberedRing

/-! ## One poll -/

/-- The writer of the rings that an update function reads. -/
def UpdateFunction.writer : UpdateFunction → Writer
  | updateBool => .bool
  | updateInt8 => .int8
  | updateInt32 => .int

section Poll

variable {update : UpdateFunction} {n hi last maxLag : ℤ} {f : ℤ → ℤ} {d : DataInput}

lemma UpdateFunction.readInput_eq {b : Buffer} {i : ℤ}
    (h : WellFormed update.writer.type update.writer.width b) (h₀ : 0 ≤ i) (h₁ : i < b.items) :
    update.readInput i b = .ok (b.slot update.writer.width i, b) := by
  cases update with
  | updateBool => exact readInputBool_eq h h₀ h₁
  | updateInt8 => exact readInputInt8_eq h h₀ h₁
  | updateInt32 => exact readInputInt32_eq h h₀ h₁

lemma UpdateFunction.readCurrentInput_eq {b : Buffer}
    (h : WellFormed update.writer.type update.writer.width b) :
    update.readCurrentInput b = .ok (b.slot update.writer.width b.index, b) := by
  cases update with
  | updateBool => exact readCurrentInputBool_eq h
  | updateInt8 => exact readCurrentInputInt8_eq h
  | updateInt32 => exact readCurrentInputInt32_eq h

lemma UpdateFunction.ofType_writer (update : UpdateFunction) :
    UpdateFunction.ofType update.writer.type = some update := by
  cases update <;> rfl

/-- The input has got the entries of its ring up to number `last`, and the ring those up to
`hi`. -/
structure FeedsFrom (update : UpdateFunction) (n : ℤ) (f : ℤ → ℤ) (s : Feed) (d : DataInput) :
    Prop where
  ringAt : RingAt update.writer.type update.writer.width n f s.newest d.buffer
  oldIndex_eq : d.oldIndex = s.last % n
  last_le : s.last ≤ s.newest
  updateFunction_eq : d.updateFunction = some update

variable {s : Feed}

lemma FeedsFrom.readItems_eq (h : FeedsFrom update n f s d) :
    readItems.run' d.buffer = .ok n := by
  rw [StateT.run', Tmee.readItems_eq h.ringAt.wellFormed.length_ge, ← h.ringAt.items_eq]
  rfl

/-- The difference that the publisher computes is the cyclic one. -/
lemma FeedsFrom.diff_eq (h : FeedsFrom update n f s d) :
    d.diff d.buffer.index = .ok ((s.newest - s.last) % n) := by
  have hn := h.ringAt.items_pos
  have hlt : n < 2 ^ 31 := h.ringAt.items_eq ▸ h.ringAt.wellFormed.items_lt
  have ha₀ := Int.emod_nonneg s.newest hn.ne'
  have ha₁ := Int.emod_lt_of_pos s.newest hn
  have hb₀ := Int.emod_nonneg s.last hn.ne'
  have hb₁ := Int.emod_lt_of_pos s.last hn
  have hsub : cInt (s.newest % n - s.last % n) = .ok (s.newest % n - s.last % n) :=
    cInt_eq_ok (by omega) (by omega)
  rw [DataInput.diff, h.ringAt.index_eq, h.oldIndex_eq, hsub, sub_emod_eq hn]
  show (if s.newest % n - s.last % n < 0 then _ else _) = _
  split_ifs with hneg
  · rw [h.readItems_eq]
    exact cInt_eq_ok (by omega) (by omega)
  · rfl

/-- The position that the publisher goes to is the slot of the entry that a poll gets. -/
lemma FeedsFrom.nextIndex_eq {k : ℤ} (h : FeedsFrom update n f s d)
    (hk : consume n maxLag s.newest s.last = some k) :
    d.nextIndex maxLag d.buffer.index = .ok (k % n) := by
  have hn := h.ringAt.items_pos
  have hlt : n < 2 ^ 31 := h.ringAt.items_eq ▸ h.ringAt.wellFormed.items_lt
  have hb₀ := Int.emod_nonneg s.last hn.ne'
  have hb₁ := Int.emod_lt_of_pos s.last hn
  have hadd : cInt (s.last % n + 1) = .ok (s.last % n + 1) := cInt_eq_ok (by omega) (by omega)
  rw [DataInput.nextIndex, h.diff_eq, consume_emod hk]
  show (if (s.newest - s.last) % n > maxLag then _ else _) = _
  split_ifs with hlag
  · rw [h.ringAt.index_eq]
    rfl
  · rw [h.readItems_eq, h.oldIndex_eq, hadd]
    show cRem (s.last % n + 1) n = _
    rw [cRem_eq_ok (by omega) hn hlt, Int.emod_add_emod]

/-- There is an update if and only if a poll gets an entry. -/
lemma FeedsFrom.hasUpdate_iff (h : FeedsFrom update n f s d) (maxLag : ℤ) :
    d.HasUpdate ↔ (consume n maxLag s.newest s.last).isSome := by
  rw [DataInput.HasUpdate, h.oldIndex_eq, h.ringAt.index_eq, consume]
  split_ifs with hslot hlag <;> simp [hslot]

/-- **A poll is a step of the numbered consumer**: it gets the entry that `consume` says, and puts
its value into the element. -/
lemma FeedsFrom.poll (h : FeedsFrom update n f s d) {d' : DataInput} {updated : Bool}
    (hpoll : d.poll maxLag = .ok (updated, d')) :
    FeedsFrom update n f (s.step n maxLag .poll) d' ∧
      (¬ d.HasUpdate → s.step n maxLag .poll = s ∧ d' = d) ∧
      (d.HasUpdate → consume n maxLag s.newest s.last = some (s.step n maxLag .poll).last ∧
        d'.element = update.mmsValue (f (s.step n maxLag .poll).last) :: d.element) := by
  have hn := h.ringAt.items_pos
  rcases DataInput.poll_cases hpoll with ⟨hno, -, rfl⟩ |
    ⟨hyes, -, oldIndex, update', value, buffer, hnext, hupdate, hread, rfl⟩
  · have hnone : consume n maxLag s.newest s.last = none := by
      rw [← Option.not_isSome_iff_eq_none, ← h.hasUpdate_iff]
      exact hno
    have hstay : s.step n maxLag .poll = s := by
      show { s with last := (consume n maxLag s.newest s.last).getD s.last } = s
      rw [hnone]
      rfl
    rw [hstay]
    exact ⟨h, fun _ => ⟨rfl, rfl⟩, fun hyes => absurd hyes hno⟩
  · obtain ⟨k, hk⟩ := Option.isSome_iff_exists.mp ((h.hasUpdate_iff maxLag).mp hyes)
    have hstep : s.step n maxLag .poll = { s with last := k } := by
      show { s with last := (consume n maxLag s.newest s.last).getD s.last } = _
      rw [hk]
      rfl
    have hindex : oldIndex = k % n :=
      (Except.ok.inj ((h.nextIndex_eq hk).symm.trans hnext)).symm
    obtain rfl : update = update' := Option.some.inj (h.updateFunction_eq.symm.trans hupdate)
    -- the slot read holds the entry that the poll gets
    have hvalue : d.buffer.slot update.writer.width (k % n) = f k :=
      h.ringAt.holds.slot_eq hn (lt_of_consume hn hk) (consume_gt hn h.last_le hk).2
    have hslot : update.readInput oldIndex d.buffer = .ok (f k, d.buffer) := by
      rw [hindex, ← hvalue]
      apply UpdateFunction.readInput_eq h.ringAt.wellFormed (Int.emod_nonneg _ hn.ne')
      rw [h.ringAt.items_eq]
      exact Int.emod_lt_of_pos _ hn
    obtain ⟨rfl, rfl⟩ := Prod.mk.inj (Except.ok.inj (hslot.symm.trans hread))
    rw [hstep]
    refine ⟨⟨h.ringAt, hindex, (consume_gt hn h.last_le hk).2, h.updateFunction_eq⟩,
      fun hno => absurd hyes hno, fun _ => ⟨hk, rfl⟩⟩

end Poll

/-! ## Runs -/

/-- What happens while a producer writes into the ring of one input. -/
inductive DeliveryInput (w : Writer)
  /-- The producer writes a value. -/
  | write (value : BitVec (8 * w.width))
  /-- Other processes have changed the ring of another input. -/
  | otherRing (j : ℕ) (buffer : Buffer)
  | event (now : ℤ)
  | run (now : ℤ)

namespace DeliveryInput

variable {w : Writer}

/-- What it is for the ring of the producer. -/
def action : DeliveryInput w → Action
  | write _ => .write
  | otherRing _ _ => .other
  | event _ => .poll
  | run _ => .poll

/-- The value that the producer writes. -/
def value? : DeliveryInput w → Option (BitVec (8 * w.width))
  | write value => some value
  | otherRing _ _ => none
  | event _ => none
  | run _ => none

/-- The values that the producer has written. -/
def written (is : List (DeliveryInput w)) : List (BitVec (8 * w.width)) := is.filterMap value?

lemma count_action (is : List (DeliveryInput w)) :
    (is.map action).count .write = (written is).length := by
  induction is with
  | nil => rfl
  | cons i is ih =>
    rw [List.map_cons, List.count_cons, ih]
    cases i <;> rfl

/-- The value written next, found among all that are written. -/
lemma entries_next {b : Buffer} {is pre : List (DeliveryInput w)} {value : BitVec (8 * w.width)}
    (h : pre ++ [write value] <+: is) :
    entries w b (written is) (b.index + (written pre).length + 1) = value.toInt := by
  obtain ⟨rest, rfl⟩ := h
  have hsplit : written (pre ++ [write value] ++ rest) = written pre ++ value :: written rest := by
    simp [written, value?]
  have hj : (written pre).length < (written (pre ++ [write value] ++ rest)).length := by
    rw [hsplit, List.length_append, List.length_cons]
    omega
  have hnumber : b.index + ((written pre).length : ℤ) + 1 =
      b.index + 1 + ((written pre).length : ℕ) := by omega
  rw [hnumber, entries_add hj, List.getElem_of_eq hsplit]
  simp

end DeliveryInput

/-- A run of the publisher and the producer of input `k`. -/
def deliveryStep (k : ℕ) (w : Writer) (p : Publisher) : DeliveryInput w → Except Fault Publisher
  | .write value =>
    match p.inputs[k]? with
    | none => .ok p
    | some d =>
      match w.write value d.buffer with
      | .error f => .error f
      | .ok (_, buffer) => publisherStep p (.input k buffer)
  | .otherRing j buffer => if j = k then .ok p else publisherStep p (.input j buffer)
  | .event now => publisherStep p (.event now)
  | .run now => publisherStep p (.run now)

namespace Publisher

/-- The values that the element of input `k` has had, the current one first. -/
def element (k : ℕ) (p : Publisher) : List MmsValue :=
  match p.inputs[k]? with
  | none => []
  | some d => d.element

/-- Input `k` has an update. -/
def InputHasUpdate (k : ℕ) (p : Publisher) : Prop := ∃ d, p.inputs[k]? = some d ∧ d.HasUpdate

/-- Input `k` lags by more than `MAX_LAG`, so that a call jumps to the newest entry. -/
def InputLags (k : ℕ) (p : Publisher) : Prop :=
  ∃ d diff, p.inputs[k]? = some d ∧ d.diff d.buffer.index = .ok diff ∧ p.maxLag < diff

end Publisher

/-- **Delivery in order.** `b` is the ring at the start, whose entries are numbered up to its
index; the values written from then on get the next numbers. Then `number` says after every part
of the run which entry was put into the element last: a call that finds an update puts an entry
with a greater number and publishes the dataset, and nothing else changes the number or the
element. An entry that is left out was written before the start, or the call jumped to the newest
entry, or there is an `excuse` for a publisher that is so many entries behind. -/
structure InOrder (k : ℕ) (update : UpdateFunction) (b : Buffer) (excuse : ℤ → Prop)
    (p : Publisher) (is : List (DeliveryInput update.writer))
    (number : List (DeliveryInput update.writer) → ℤ) : Prop where
  start : number [] = 0
  put : ∀ pre q i q', Run.PerformsAt (deliveryStep k update.writer) p is pre q i q' →
    i.action = .poll → q.InputHasUpdate k →
    number pre < number (pre ++ [i]) ∧
      number (pre ++ [i]) ≤ b.index + (DeliveryInput.written pre).length ∧
      q'.element k = update.mmsValue (entries update.writer b (DeliveryInput.written is)
        (number (pre ++ [i]))) :: q.element k ∧
      ∃ message, q'.published = q.published ++ [message] ∧
        message.dataSetValues = q'.dataSetValues
  skip : ∀ pre q i q', Run.PerformsAt (deliveryStep k update.writer) p is pre q i q' →
    i.action = .poll → q.InputHasUpdate k →
    ∀ m, b.index < m → number pre < m → m < number (pre ++ [i]) →
      q.InputLags k ∨ excuse (b.index + (DeliveryInput.written pre).length - number pre)
  stay : ∀ pre q i q', Run.PerformsAt (deliveryStep k update.writer) p is pre q i q' →
    ¬ (i.action = .poll ∧ q.InputHasUpdate k) →
    number (pre ++ [i]) = number pre ∧ q'.element k = q.element k

section Delivery

variable {k : ℕ} {update : UpdateFunction} {n maxLag : ℤ} {f : ℤ → ℤ} {s : Feed}
  {p p' : Publisher} {d : DataInput} {i : DeliveryInput update.writer}

/-- **Everything a step does to the input** that the producer writes to. -/
lemma deliveryStep_cases (h : deliveryStep k update.writer p i = .ok p')
    (hd : p.inputs[k]? = some d) :
    ∃ d', p'.inputs[k]? = some d' ∧ p'.maxLag = p.maxLag ∧
      ((∃ value result buffer, i = .write value ∧
          update.writer.write value d.buffer = .ok (result, buffer) ∧
          d' = { d with buffer := buffer }) ∨
        (i.action = .other ∧ d' = d) ∨
        (i.action = .poll ∧ ∃ updated, d.poll p.maxLag = .ok (updated, d'))) := by
  cases i with
  | write value =>
    simp only [deliveryStep, hd] at h
    cases hwrite : update.writer.write value d.buffer with
    | error fault =>
      simp only [hwrite] at h
      cases h
    | ok o =>
      obtain ⟨result, buffer⟩ := o
      simp only [hwrite] at h
      obtain rfl := Except.ok.inj h
      refine ⟨{ d with buffer := buffer }, ?_, rfl,
        Or.inl ⟨value, result, buffer, rfl, hwrite, rfl⟩⟩
      rw [List.getElem?_modify_eq, hd]
      rfl
  | otherRing j buffer =>
    rw [deliveryStep] at h
    split_ifs at h with hj
    · obtain rfl := Except.ok.inj h
      exact ⟨d, hd, rfl, Or.inr (Or.inl ⟨rfl, rfl⟩)⟩
    · obtain rfl := Except.ok.inj h
      refine ⟨d, ?_, rfl, Or.inr (Or.inl ⟨rfl, rfl⟩)⟩
      rw [List.getElem?_modify_ne _ _ hj, hd]
  | event now =>
    rw [deliveryStep, Publisher.publisherStep_event_eq_ok] at h
    obtain ⟨result, hevent⟩ := h
    obtain ⟨updated, d', hpoll, hd', hlag⟩ := Publisher.event_input hevent hd
    exact ⟨d', hd', hlag, Or.inr (Or.inr ⟨rfl, updated, hpoll⟩)⟩
  | run now =>
    obtain ⟨updated, d', hpoll, hd', hlag⟩ := Publisher.run_input h hd
    exact ⟨d', hd', hlag, Or.inr (Or.inr ⟨rfl, updated, hpoll⟩)⟩

/-- A call that finds an update publishes. -/
lemma deliveryStep_publishes (h : deliveryStep k update.writer p i = .ok p')
    (haction : i.action = .poll) (hupdate : p.InputHasUpdate k) :
    ∃ message, p'.published = p.published ++ [message] ∧
      message.dataSetValues = p'.dataSetValues := by
  obtain ⟨d, hd, hdupdate⟩ := hupdate
  have hany : p.HasUpdate := ⟨d, List.mem_of_getElem? hd, hdupdate⟩
  cases i with
  | write value => cases haction
  | otherRing j buffer => cases haction
  | event now =>
    rw [deliveryStep, Publisher.publisherStep_event_eq_ok] at h
    obtain ⟨result, hevent⟩ := h
    exact (Publisher.event_publishes hevent hany).2
  | run now => exact Publisher.run_publishes h hany

/-- A write of the producer is an entry more. -/
lemma FeedsFrom.write (h : FeedsFrom update n f s d)
    {value : BitVec (8 * update.writer.width)} {result : Option ℤ} {buffer : Buffer}
    (hwrite : update.writer.write value d.buffer = .ok (result, buffer))
    (hf : f (s.newest + 1) = value.toInt) :
    FeedsFrom update n f (s.step n maxLag .write) { d with buffer := buffer } := by
  have hfloat : update.writer ≠ .float := by cases update <;> decide
  have hbuffer : buffer = d.buffer.push update.writer.width value.toInt := by
    rw [Writer.write_eq h.ringAt.wellFormed.writable,
      Writer.written_eq_push _ (Or.inl hfloat)] at hwrite
    exact (Prod.mk.inj (Except.ok.inj hwrite)).2.symm
  have hle := h.last_le
  refine ⟨?_, h.oldIndex_eq, ?_, h.updateFunction_eq⟩
  · rw [hbuffer]
    exact h.ringAt.push (toInt_bmod_width value) hf
  · show s.last ≤ s.newest + 1
    omega

/-- The publisher is at state `s` of the numbered consumer. -/
structure Tracks (k : ℕ) (update : UpdateFunction) (n : ℤ) (f : ℤ → ℤ) (maxLag : ℤ) (s : Feed)
    (p : Publisher) : Prop where
  input : ∃ d, p.inputs[k]? = some d ∧ FeedsFrom update n f s d
  maxLag_eq : p.maxLag = maxLag

/-- The publisher lags if and only if the numbered consumer does. -/
lemma Tracks.inputLags_iff (h : Tracks k update n f maxLag s p) :
    p.InputLags k ↔ maxLag < (s.newest - s.last) % n := by
  obtain ⟨d, hd, hfeeds⟩ := h.input
  rw [← h.maxLag_eq]
  constructor
  · rintro ⟨d', diff, hd', hdiff, hlag⟩
    obtain rfl : d' = d := Option.some.inj (hd'.symm.trans hd)
    rwa [Except.ok.inj (hfeeds.diff_eq.symm.trans hdiff)]
  · intro hlag
    exact ⟨d, _, hd, hfeeds.diff_eq, hlag⟩

/-- **Every step of the publisher and its producer is a step of the numbered ring.** -/
lemma tracks_step (h : Tracks k update n f maxLag s p)
    (hstep : deliveryStep k update.writer p i = .ok p')
    (hf : ∀ value, i = .write value → f (s.newest + 1) = value.toInt) :
    Tracks k update n f maxLag (s.step n maxLag i.action) p' ∧
      (i.action = .poll → p.InputHasUpdate k →
        consume n maxLag s.newest s.last = some (s.step n maxLag i.action).last ∧
          p'.element k = update.mmsValue (f (s.step n maxLag i.action).last) :: p.element k) ∧
      (¬ (i.action = .poll ∧ p.InputHasUpdate k) →
        (s.step n maxLag i.action).last = s.last ∧ p'.element k = p.element k) := by
  obtain ⟨d, hd, hfeeds⟩ := h.input
  obtain ⟨d', hd', hlag, hcases⟩ := deliveryStep_cases hstep hd
  have helement : p.element k = d.element := by rw [Publisher.element, hd]
  have helement' : p'.element k = d'.element := by rw [Publisher.element, hd']
  have hupdate : p.InputHasUpdate k ↔ d.HasUpdate := by
    constructor
    · rintro ⟨d₁, hd₁, hd₁'⟩
      rwa [Option.some.inj (hd.symm.trans hd₁)]
    · exact fun hyes => ⟨d, hd, hyes⟩
  rw [helement, helement', hupdate]
  rcases hcases with ⟨value, result, buffer, rfl, hwrite, rfl⟩ | ⟨haction, rfl⟩ |
    ⟨haction, updated, hpoll⟩
  · refine ⟨⟨⟨_, hd', hfeeds.write hwrite (hf value rfl)⟩, hlag.trans h.maxLag_eq⟩, ?_, ?_⟩
    · intro haction
      cases haction
    · exact fun _ => ⟨rfl, rfl⟩
  · rw [haction]
    refine ⟨⟨⟨_, hd', hfeeds⟩, hlag.trans h.maxLag_eq⟩, ?_, ?_⟩
    · intro hpoll
      cases hpoll
    · exact fun _ => ⟨rfl, rfl⟩
  · rw [h.maxLag_eq] at hpoll
    obtain ⟨hfeeds', hno, hyes⟩ := hfeeds.poll hpoll
    rw [haction]
    refine ⟨⟨⟨_, hd', hfeeds'⟩, hlag.trans h.maxLag_eq⟩, fun _ => hyes, fun hnot => ?_⟩
    obtain ⟨hstay, rfl⟩ := hno fun hu => hnot ⟨rfl, hu⟩
    rw [hstay]
    exact ⟨rfl, rfl⟩

/-- The numbered ring after a part of the run. -/
def numbered (n maxLag : ℤ) (b : Buffer) {w : Writer} (pre : List (DeliveryInput w)) : Feed :=
  Feed.run n maxLag ⟨b.index, 0⟩ (pre.map DeliveryInput.action)

lemma numbered_concat (n maxLag : ℤ) (b : Buffer) {w : Writer} (pre : List (DeliveryInput w))
    (i : DeliveryInput w) :
    numbered n maxLag b (pre ++ [i]) = (numbered n maxLag b pre).step n maxLag i.action := by
  rw [numbered, List.map_append, List.map_singleton, Feed.run_concat]
  rfl

lemma numbered_newest (n maxLag : ℤ) (b : Buffer) {w : Writer} (pre : List (DeliveryInput w)) :
    (numbered n maxLag b pre).newest = b.index + (DeliveryInput.written pre).length := by
  rw [numbered, Feed.run_newest, DeliveryInput.count_action]

/-- The value that a run writes next has the next number. -/
lemma entries_numbered_next {b : Buffer} {w : Writer} {is pre : List (DeliveryInput w)}
    {i : DeliveryInput w} (hpre : pre ++ [i] <+: is) (value : BitVec (8 * w.width))
    (hi : i = .write value) :
    entries w b (DeliveryInput.written is) ((numbered n maxLag b pre).newest + 1) =
      value.toInt := by
  subst hi
  rw [numbered_newest]
  exact DeliveryInput.entries_next hpre

/-- **Every run of the publisher and its producer is a run of the numbered ring.**

**Proof sketch.** Induction on the inputs performed, with `tracks_step`; the value written next
has the next number among all the values written in the run. -/
lemma tracks_exec {b : Buffer} {is pre : List (DeliveryInput update.writer)} {q : Publisher}
    (h₀ : Tracks k update n (entries update.writer b (DeliveryInput.written is)) maxLag
      ⟨b.index, 0⟩ p)
    (hpre : pre <+: is) (hq : Run.exec (deliveryStep k update.writer) p pre = .ok q) :
    Tracks k update n (entries update.writer b (DeliveryInput.written is)) maxLag
      (numbered n maxLag b pre) q := by
  induction pre using List.reverseRecOn generalizing q with
  | nil =>
    obtain rfl := Except.ok.inj hq
    exact h₀
  | append_singleton pre i ih =>
    obtain ⟨t, ht, hstep⟩ := Run.exec_concat_eq_ok.mp hq
    have htracks := ih ((List.prefix_append pre [i]).trans hpre) ht
    rw [numbered_concat]
    exact (tracks_step htracks hstep (entries_numbered_next hpre)).1

/-- What a step performed in a run puts is what the numbered consumer gets. -/
lemma tracks_performsAt {b : Buffer} {is pre : List (DeliveryInput update.writer)}
    {q q' : Publisher}
    (h₀ : Tracks k update n (entries update.writer b (DeliveryInput.written is)) maxLag
      ⟨b.index, 0⟩ p)
    (hp : Run.PerformsAt (deliveryStep k update.writer) p is pre q i q') :
    Tracks k update n (entries update.writer b (DeliveryInput.written is)) maxLag
        (numbered n maxLag b pre) q ∧
      (i.action = .poll → q.InputHasUpdate k →
        consume n maxLag (numbered n maxLag b pre).newest (numbered n maxLag b pre).last =
            some (numbered n maxLag b (pre ++ [i])).last ∧
          q'.element k = update.mmsValue (entries update.writer b (DeliveryInput.written is)
            (numbered n maxLag b (pre ++ [i])).last) :: q.element k) ∧
      (¬ (i.action = .poll ∧ q.InputHasUpdate k) →
        (numbered n maxLag b (pre ++ [i])).last = (numbered n maxLag b pre).last ∧
          q'.element k = q.element k) := by
  obtain ⟨hpre, hq, hstep⟩ := hp
  have htracks := tracks_exec h₀ ((List.prefix_append pre [i]).trans hpre) hq
  rw [numbered_concat]
  exact ⟨htracks, (tracks_step htracks hstep (entries_numbered_next hpre)).2⟩

/-- **The polls of the numbered ring are in order**, and so are the values put.

**Proof sketch.** Polls move forward (`consume_gt`) and skip entries for one of the two reasons
(`consume_skip`). -/
lemma inOrder_of_tracks {b : Buffer} {is : List (DeliveryInput update.writer)} (hn : 0 < n)
    (h₀ : Tracks k update n (entries update.writer b (DeliveryInput.written is)) maxLag
      ⟨b.index, 0⟩ p) :
    InOrder k update b (fun behind => n < behind) p is
      fun pre => (numbered n maxLag b pre).last where
  start := rfl
  put := by
    intro pre q i q' hp haction hupdate
    obtain ⟨htracks, hyes, -⟩ := tracks_performsAt h₀ hp
    obtain ⟨hconsume, helement⟩ := hyes haction hupdate
    obtain ⟨d, -, hfeeds⟩ := htracks.input
    obtain ⟨hgt, hle⟩ := consume_gt hn hfeeds.last_le hconsume
    rw [numbered_newest] at hle
    obtain ⟨-, -, hstep⟩ := hp
    exact ⟨hgt, hle, helement, deliveryStep_publishes hstep haction hupdate⟩
  skip := by
    intro pre q i q' hp haction hupdate m hm hlast hnext
    obtain ⟨htracks, hyes, -⟩ := tracks_performsAt h₀ hp
    obtain ⟨hconsume, -⟩ := hyes haction hupdate
    obtain ⟨d, -, hfeeds⟩ := htracks.input
    have hskip := consume_skip hn hfeeds.last_le hconsume (by omega)
    rw [htracks.inputLags_iff]
    rw [numbered_newest] at hskip ⊢
    exact hskip
  stay := by
    intro pre q i q' hp hnot
    obtain ⟨-, -, hno⟩ := tracks_performsAt h₀ hp
    exact hno hnot

/-- `init` starts at slot `0` with the newest value in the element. -/
lemma initPublisher_input {ttl gooseFastRetransmitTtl now : ℤ} {buffers : List Buffer}
    (hinit : initPublisher ttl gooseFastRetransmitTtl maxLag buffers now = .ok p) {b : Buffer}
    (hb : buffers[k]? = some b) (hring : WellFormed update.writer.type update.writer.width b) :
    p.maxLag = maxLag ∧ p.inputs[k]? = some
      { buffer := b
        oldIndex := 0
        element := [update.mmsValue (b.slot update.writer.width b.index)]
        updateFunction := some update } := by
  obtain ⟨inputs, hinputs, hp⟩ := Fallible.bind_eq_ok.mp hinit
  obtain rfl := Except.ok.inj hp
  obtain ⟨d, hd, hk⟩ := Fallible.exists_result_at hinputs hb
  refine ⟨rfl, ?_⟩
  have htype : readType.run' b = .ok update.writer.type :=
    readType_eq_ok_iff.mpr ⟨hring.length_ge, hring.type_eq.symm⟩
  have hresult : DataInput.init b = .ok
      { buffer := b
        oldIndex := 0
        element := [update.mmsValue (b.slot update.writer.width b.index)]
        updateFunction := some update } := by
    simp only [DataInput.init, htype, Fallible.ok_bind, UpdateFunction.ofType_writer,
      UpdateFunction.readCurrentInput_eq hring]
    rfl
  rw [← Except.ok.inj (hresult.symm.trans hd)] at hk
  exact hk

end Delivery

/-- **Delivery in order.** Whatever the rings show at `init`, and in whatever order the producer
writes and the publisher is called: the values that the calls put into the element are entries of
the ring in the order in which they were written, none twice, and a value written after `init` is
left out only by a call that jumps to the newest entry, or if the publisher was more than a whole
ring behind. Before the first call the element holds the newest entry.

**Proof sketch.** The publisher starts as the numbered consumer that has got entry `0`, and
`inOrder_of_tracks` follows it from there. -/
theorem delivered_inOrder {ttl gooseFastRetransmitTtl maxLag now : ℤ} {buffers : List Buffer}
    {p : Publisher} (hinit : initPublisher ttl gooseFastRetransmitTtl maxLag buffers now = .ok p)
    {k : ℕ} {update : UpdateFunction} {b : Buffer} (hb : buffers[k]? = some b)
    (hring : WellFormed update.writer.type update.writer.width b)
    (is : List (DeliveryInput update.writer)) :
    p.element k = [update.mmsValue (b.slot update.writer.width b.index)] ∧
      ∃ number, InOrder k update b (fun behind => b.items < behind) p is number := by
  have hn := hring.items_pos
  obtain ⟨hlag, hk⟩ := initPublisher_input hinit hb hring
  have hringAt : RingAt update.writer.type update.writer.width b.items
      (entries update.writer b (DeliveryInput.written is)) b.index b :=
    { hring.ringAt with
      holds := hring.ringAt.holds.congr hn fun m _ hm => (entries_of_le hm).symm }
  have h₀ : Tracks k update b.items (entries update.writer b (DeliveryInput.written is)) maxLag
      ⟨b.index, 0⟩ p :=
    ⟨⟨_, hk, hringAt, (Int.zero_emod _).symm, hring.index_nonneg, rfl⟩, hlag⟩
  exact ⟨by rw [Publisher.element, hk], _, inOrder_of_tracks hn h₀⟩

/-- An `INT8` ring of two entries. -/
def int8Ring (index slot₀ slot₁ : UInt8) : Buffer where
  bytes := [1, 0, 0, 0, 2, 0, 0, 0, index, 0, 0, 0, 2, 0, 0, 0, slot₀, slot₁]
  length_lt := by simp

/-- An `INT8` ring of four entries, of which the one in slot `1` is the newest. -/
def int8Ring4 : Buffer where
  bytes := [1, 0, 0, 0, 4, 0, 0, 0, 1, 0, 0, 0, 2, 0, 0, 0, 5, 6, 0, 0]
  length_lt := by simp

/-- Writes, and calls of both kinds that come behind one or two of them: the values arrive one after
the other. -/
theorem delivered_inOrder_writes : ∃ p q, initPublisher 2000000 20000 5 [int8Ring4] 0 = .ok p ∧
    Run.exec (deliveryStep 0 .int8) p [.event 0, .write 1, .event 1000, .write 2, .write 3,
      .run 2000, .event 3000, .write 4, .run 4000] = .ok q ∧
    q.element 0 = [4, 3, 2, 1, 6, 6].map MmsValue.integer ∧
    ∃ number, InOrder 0 .updateInt8 int8Ring4 (fun behind => 4 < behind) p
      [.event 0, .write 1, .event 1000, .write 2, .write 3, .run 2000, .event 3000, .write 4,
        .run 4000] number := by
  have hring : WellFormed UpdateFunction.updateInt8.writer.type
      UpdateFunction.updateInt8.writer.width int8Ring4 := by
    constructor <;> decide
  have hbuffer : [int8Ring4][0]? = some int8Ring4 := rfl
  exact ⟨_, _, rfl, rfl, rfl, (delivered_inOrder rfl hbuffer hring _).2⟩

/-- The publisher of an `INT8` ring, as `init` leaves it at the time `0` with `MAX_LAG` 1. -/
def int8Publisher (buffer : Buffer) (value : ℤ) : Publisher where
  inputs := [⟨buffer, 0, [.integer value], some .updateInt8⟩]
  ttl := 2000000
  gooseFastRetransmitTtl := 20000
  maxLag := 1
  interval := 2000000
  transmitDeadline := 1000000
  stNum := 0
  timeAllowedToLive := 2000
  published := []

/-- Three writes into a ring of two entries look like one: the publisher does not lag, and the
next call puts the third value. -/
lemma event_int8Publisher : (int8Publisher (int8Ring 1 2 3) 0).InputHasUpdate 0 ∧
    ¬ (int8Publisher (int8Ring 1 2 3) 0).InputLags 0 ∧
    ∃ q, deliveryStep 0 .int8 (int8Publisher (int8Ring 1 2 3) 0) (.event 0) = .ok q ∧
      q.element 0 = [.integer 3, .integer 0] := by
  refine ⟨⟨_, rfl, by decide⟩, ?_, _, rfl, rfl⟩
  rintro ⟨d, diff, hd, hdiff, hlag⟩
  obtain rfl := Option.some.inj hd
  obtain rfl : 1 = diff := Except.ok.inj hdiff
  exact absurd hlag (by decide)

/-- **Values left out without a jump, and a value put twice.** After three writes into a ring of
two entries the call puts the third value, and the first two are left out although the publisher
does not lag by more than `MAX_LAG`. And a value that was the newest one at `init` is put into the
element by `init` and again by the first call. -/
theorem not_inOrder_overrun :
    (∃ p, initPublisher 2000000 20000 1 [int8Ring 0 0 0] 0 = .ok p ∧
      ¬ ∃ number, InOrder 0 .updateInt8 (int8Ring 0 0 0) (fun _ => False) p
        [.write 1, .write 2, .write 3, .event 0] number) ∧
    (∃ p q, initPublisher 2000000 20000 1 [int8Ring 1 0 7] 0 = .ok p ∧
      deliveryStep 0 .int8 p (.event 0) = .ok q ∧ q.element 0 = [.integer 7, .integer 7]) := by
  refine ⟨⟨int8Publisher (int8Ring 0 0 0) 0, rfl, ?_⟩, ⟨_, _, rfl, rfl, rfl⟩⟩
  rintro ⟨number, hstart, hput, hskip, hstay⟩
  -- the writes put nothing
  obtain ⟨h₁, -⟩ := hstay [] _ (.write 1) _ ⟨by simp, rfl, rfl⟩ (by simp [DeliveryInput.action])
  obtain ⟨h₂, -⟩ := hstay [.write 1] _ (.write 2) _ ⟨by simp, rfl, rfl⟩
    (by simp [DeliveryInput.action])
  obtain ⟨h₃, -⟩ := hstay [.write 1, .write 2] _ (.write 3) _ ⟨by simp, rfl, rfl⟩
    (by simp [DeliveryInput.action])
  have hzero : number [.write 1, .write 2, .write 3] = 0 :=
    h₃.trans (h₂.trans (h₁.trans hstart))
  -- the call puts the third value
  obtain ⟨hupdate, hlags, q, hstep, helement⟩ := event_int8Publisher
  have hp : Run.PerformsAt (deliveryStep 0 .int8) (int8Publisher (int8Ring 0 0 0) 0)
      [.write 1, .write 2, .write 3, .event 0] [.write 1, .write 2, .write 3]
      (int8Publisher (int8Ring 1 2 3) 0) (.event 0) q := ⟨by simp, rfl, hstep⟩
  obtain ⟨hgt, hle, hvalue, -⟩ := hput _ _ _ _ hp rfl hupdate
  have hpos := lt_of_eq_of_lt hzero.symm hgt
  have hskipped := hskip _ _ _ _ hp rfl hupdate 1 (by decide) (lt_of_eq_of_lt hzero one_pos)
  rw [helement] at hvalue
  have hthree := (MmsValue.integer.inj (List.cons.inj hvalue).1).symm
  -- so it is entry 3, and entry 1 is left out
  have hnot (m : ℤ) (h₀ : 0 < m) (h₃ : m ≤ 3)
      (h₁ : 1 < m → (int8Publisher (int8Ring 1 2 3) 0).InputLags 0 ∨ False)
      (hm : entries .int8 (int8Ring 0 0 0) [1, 2, 3] m = 3) : False := by
    obtain rfl | rfl | rfl : m = 1 ∨ m = 2 ∨ m = 3 := by omega
    · exact absurd hm (by decide)
    · exact absurd hm (by decide)
    · exact (h₁ (by decide)).elim hlags id
  exact hnot _ hpos hle hskipped hthree

end Tmee
