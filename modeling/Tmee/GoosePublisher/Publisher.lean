import Tmee.Lib.Fallible
import Tmee.Lib.Run
import Tmee.MemFile.Readers

set_option relaxedAutoImplicit false
set_option autoImplicit false

/-!
# The GOOSE publisher

The module `goose_publisher`: every input ring feeds one element of the dataset. `event` takes one
step through each ring that has moved on and publishes if there was one; `run` calls `event` and
else retransmits when the deadline has come. The publisher object of the GOOSE library is
represented by what the module has set in it and the messages it has been asked to send.

## Main definitions

* `Tmee.DataInput` — an input with its position and its dataset element.
* `Tmee.Publisher` — the private data of the module.
* `Tmee.initPublisher`, `Tmee.Publisher.event`, `Tmee.Publisher.run` — the module functions.
* `Tmee.publisherStep` — a run of the module.

## Main results

* `Tmee.DataInput.poll_cases`, `Tmee.Publisher.event_cases`, `Tmee.Publisher.run_cases` —
  everything a poll, a call of `event` and a call of `run` can do.
-/

namespace Tmee

/-! ## Inputs -/

/-- The values of the dataset elements. -/
inductive MmsValue
  | boolean (value : Bool)
  | integer (value : ℤ)
  deriving DecidableEq, Repr

/-- The functions `update_bool`, `update_int8` and `update_int32`. -/
inductive UpdateFunction
  | updateBool | updateInt8 | updateInt32
  deriving DecidableEq, Repr

namespace UpdateFunction

/-- The value that the library makes of what a reader returns. -/
def mmsValue : UpdateFunction → ℤ → MmsValue
  | updateBool, value => .boolean (value ≠ 0)
  | updateInt8, value => .integer value
  | updateInt32, value => .integer value

/-- The reader of a given slot. -/
def readInput : UpdateFunction → ℤ → BufM ℤ
  | updateBool => readInputBool
  | updateInt8 => readInputInt8
  | updateInt32 => readInputInt32

/-- The reader of the slot under the index. -/
def readCurrentInput : UpdateFunction → BufM ℤ
  | updateBool => readCurrentInputBool
  | updateInt8 => readCurrentInputInt8
  | updateInt32 => readCurrentInputInt32

/-- The update function that `init` selects for a type; the other types get none. -/
def ofType (type : ℤ) : Option UpdateFunction :=
  if type = TypeCode.bool then some updateBool
  else if type = TypeCode.int8 then some updateInt8
  else if type = TypeCode.int32 then some updateInt32
  else none

end UpdateFunction

/-- An input of the dataset. -/
structure DataInput where
  buffer : Buffer
  oldIndex : ℤ
  /-- The values the element has had, the current one first; empty if there is no element. -/
  element : List MmsValue
  /-- Not assigned for a type that `init` does not know. -/
  updateFunction : Option UpdateFunction
  deriving DecidableEq

namespace DataInput

/-- The part of `init` for one input. -/
def init (buffer : Buffer) : Except Fault DataInput := do
  let type ← readType.run' buffer
  match UpdateFunction.ofType type with
  | none => return { buffer := buffer, oldIndex := 0, element := [], updateFunction := none }
  | some update =>
    let (value, buffer) ← update.readCurrentInput buffer
    pure
      { buffer := buffer
        oldIndex := 0
        element := [update.mmsValue value]
        updateFunction := some update }

/-- The difference between the newest and the current position, wrapped once. -/
def diff (d : DataInput) (currentIndex : ℤ) : Except Fault ℤ := do
  let diff ← cInt (currentIndex - d.oldIndex)
  if diff < 0 then
    let items ← readItems.run' d.buffer
    cInt (diff + items)
  else return diff

/-- The position to go to: the newest one if the module lags by more than `MAX_LAG`, and the next
one otherwise. -/
def nextIndex (maxLag : ℤ) (d : DataInput) (currentIndex : ℤ) : Except Fault ℤ := do
  let diff ← d.diff currentIndex
  if diff > maxLag then return currentIndex
  else
    let items ← readItems.run' d.buffer
    cRem (← cInt (d.oldIndex + 1)) items

/-- The part of `event` for one input; the flag says that there was an update. -/
def poll (maxLag : ℤ) (d : DataInput) : Except Fault (Bool × DataInput) := do
  let currentIndex ← readIndex.run' d.buffer
  if d.oldIndex ≠ currentIndex then
    let oldIndex ← d.nextIndex maxLag currentIndex
    match d.updateFunction with
    | none => throw Fault.nullPointer
    | some update =>
      let (value, buffer) ← update.readInput oldIndex d.buffer
      return (true, { d with
        buffer := buffer
        oldIndex := oldIndex
        element := update.mmsValue value :: d.element })
  else return (false, d)

end DataInput

/-! ## The module -/

/-- A message handed to the GOOSE library. -/
structure GoosePublication where
  /-- How often the state number has been increased. -/
  stNum : ℕ
  timeAllowedToLive : ℤ
  dataSetValues : List MmsValue
  deriving DecidableEq

/-- The private data of the module. -/
structure Publisher where
  inputs : List DataInput
  /-- In microseconds. -/
  ttl : ℤ
  /-- `GOOSE_FAST_RETRANSMIT_TTL`, in microseconds. -/
  gooseFastRetransmitTtl : ℤ
  maxLag : ℤ
  /-- In microseconds. -/
  interval : ℤ
  transmitDeadline : ℤ
  /-- How often `GoosePublisher_increaseStNum` has been called. -/
  stNum : ℕ
  /-- What `GoosePublisher_setTimeAllowedToLive` has set last. -/
  timeAllowedToLive : ℤ
  /-- The messages published so far. -/
  published : List GoosePublication
  deriving DecidableEq

/-- `init` with the mapped input files, at the time `now`. -/
def initPublisher (ttl gooseFastRetransmitTtl maxLag : ℤ) (buffers : List Buffer) (now : ℤ) :
    Except Fault Publisher := do
  let inputs ← buffers.mapM DataInput.init
  pure
    { inputs := inputs
      ttl := ttl
      gooseFastRetransmitTtl := gooseFastRetransmitTtl
      maxLag := maxLag
      interval := ttl
      transmitDeadline := now + ttl.tdiv 2
      stNum := 0
      timeAllowedToLive := ttl.tdiv 1000
      published := [] }

namespace Publisher

/-- The elements made by `init`, with their current values. -/
def dataSetValues (p : Publisher) : List MmsValue :=
  p.inputs.filterMap fun d => d.element.head?

/-- `GoosePublisher_publish`. -/
def publish (p : Publisher) : Publisher :=
  { p with published := p.published ++ [⟨p.stNum, p.timeAllowedToLive, p.dataSetValues⟩] }

/-- The part of `event` behind `if(transmit_now == 1)`. -/
def transmitChange (p : Publisher) : Publisher :=
  publish { p with
    stNum := p.stNum + 1
    interval := p.gooseFastRetransmitTtl
    transmitDeadline := p.transmitDeadline + p.gooseFastRetransmitTtl.tdiv 2
    timeAllowedToLive := p.gooseFastRetransmitTtl.tdiv 1000 }

def event (p : Publisher) : Except Fault (ℤ × Publisher) := do
  let polled ← p.inputs.mapM (DataInput.poll p.maxLag)
  let p := { p with inputs := polled.map Prod.snd }
  if polled.any Prod.fst then return (1, p.transmitChange)
  else return (0, p)

/-- The interval after a retransmission: twice the last one, at most `ttl`. The product wraps
around in 32 bits. -/
def nextInterval (p : Publisher) : ℤ :=
  let interval := wrap32 (p.interval * 2)
  if interval > p.ttl then p.ttl else interval

/-- The part of `run` behind `if(current_time() >= data->transmit_deadline)`. -/
def retransmit (p : Publisher) : Publisher :=
  publish { p with
    interval := p.nextInterval
    transmitDeadline := p.transmitDeadline + p.nextInterval.tdiv 2
    timeAllowedToLive := p.nextInterval.tdiv 1000 }

/-- A call of `run` at the time `now`. -/
def run (now : ℤ) (p : Publisher) : Except Fault Publisher := do
  let (result, p) ← p.event
  if result ≠ 1 then
    if now ≥ p.transmitDeadline then return p.retransmit
    else return p
  else return p

end Publisher

/-- What happens to the module. The calls carry the time at which they are made. -/
inductive PublisherInput
  /-- Other processes have changed the ring of input `k`. -/
  | input (k : ℕ) (buffer : Buffer)
  | event (now : ℤ)
  | run (now : ℤ)

/-- A run of the module. -/
def publisherStep (p : Publisher) : PublisherInput → Except Fault Publisher
  | .input k buffer =>
    .ok { p with inputs := p.inputs.modify k fun d => { d with buffer := buffer } }
  | .event _ => Prod.snd <$> p.event
  | .run now => p.run now

/-! ## What the functions do -/

/-- There is an entry in the ring that the module has not taken. -/
def DataInput.HasUpdate (d : DataInput) : Prop := d.oldIndex ≠ d.buffer.index

instance (d : DataInput) : Decidable d.HasUpdate := inferInstanceAs (Decidable (_ ≠ _))

/-- Some input has an update. -/
def Publisher.HasUpdate (p : Publisher) : Prop := ∃ d ∈ p.inputs, d.HasUpdate

/-- A field of the header that is read is the one the buffer holds. -/
lemma load_run'_eq_ok {b : Buffer} {w a : ℕ} {v : ℤ} (h : (load w (a : ℤ)).run' b = .ok v) :
    v = b.get w a := by
  by_cases hlen : a + w ≤ b.length
  · rw [StateT.run', load_eq_ok hlen] at h
    exact (Except.ok.inj h).symm
  · rw [StateT.run', load, if_neg (by omega)] at h
    cases h

/-- **Everything a poll can do**: nothing without an update, and else one value is read from a
new position and put into the element. -/
lemma DataInput.poll_cases {maxLag : ℤ} {d d' : DataInput} {updated : Bool}
    (h : d.poll maxLag = .ok (updated, d')) :
    (¬ d.HasUpdate ∧ updated = false ∧ d' = d) ∨
    (d.HasUpdate ∧ updated = true ∧ ∃ oldIndex update value buffer,
      d.nextIndex maxLag d.buffer.index = .ok oldIndex ∧ d.updateFunction = some update ∧
      update.readInput oldIndex d.buffer = .ok (value, buffer) ∧
      d' = { d with
        buffer := buffer
        oldIndex := oldIndex
        element := update.mmsValue value :: d.element }) := by
  rw [poll] at h
  obtain ⟨currentIndex, hindex, h⟩ := Fallible.bind_eq_ok.mp h
  obtain rfl : currentIndex = d.buffer.index := load_run'_eq_ok hindex
  by_cases hne : d.oldIndex ≠ d.buffer.index
  · rw [if_pos hne] at h
    obtain ⟨oldIndex, hnext, h⟩ := Fallible.bind_eq_ok.mp h
    cases hupdate : d.updateFunction with
    | none =>
      simp only [hupdate] at h
      cases h
    | some update =>
      simp only [hupdate] at h
      obtain ⟨⟨value, buffer⟩, hread, h⟩ := Fallible.bind_eq_ok.mp h
      obtain ⟨rfl, rfl⟩ := Prod.mk.inj (Except.ok.inj h)
      exact Or.inr ⟨hne, rfl, oldIndex, update, value, buffer, hnext, rfl, hread, rfl⟩
  · rw [if_neg hne] at h
    obtain ⟨rfl, rfl⟩ := Prod.mk.inj (Except.ok.inj h)
    exact Or.inl ⟨hne, rfl, rfl⟩

/-- A poll reports an update if and only if there was one. -/
lemma DataInput.updated_iff {maxLag : ℤ} {d d' : DataInput} {updated : Bool}
    (h : d.poll maxLag = .ok (updated, d')) : updated = true ↔ d.HasUpdate := by
  rcases poll_cases h with ⟨hno, rfl, -⟩ | ⟨hyes, rfl, -⟩
  · simp [hno]
  · simp [hyes]

namespace Publisher

variable {p p' : Publisher}

/-- **Everything `event` can do**: it polls every input, and publishes if and only if there was
an update. -/
lemma event_cases {result : ℤ} (h : p.event = .ok (result, p')) :
    ∃ polled, p.inputs.mapM (DataInput.poll p.maxLag) = .ok polled ∧
      ((p.HasUpdate ∧ result = 1 ∧
          p' = transmitChange { p with inputs := polled.map Prod.snd }) ∨
        (¬ p.HasUpdate ∧ result = 0 ∧ p' = { p with inputs := polled.map Prod.snd })) := by
  rw [event] at h
  obtain ⟨polled, hpolled, h⟩ := Fallible.bind_eq_ok.mp h
  have hany : polled.any Prod.fst = true ↔ p.HasUpdate := by
    rw [List.any_eq_true]
    constructor
    · rintro ⟨y, hy, hupdated⟩
      obtain ⟨d, hd, hpoll⟩ := Fallible.exists_element hpolled hy
      exact ⟨d, hd, (DataInput.updated_iff hpoll).mp hupdated⟩
    · rintro ⟨d, hd, hupdate⟩
      obtain ⟨y, hy, hpoll⟩ := Fallible.exists_result hpolled hd
      exact ⟨y, hy, (DataInput.updated_iff hpoll).mpr hupdate⟩
  refine ⟨polled, hpolled, ?_⟩
  by_cases hupdate : p.HasUpdate
  · simp only [hany.mpr hupdate, if_true] at h
    obtain ⟨rfl, rfl⟩ := Prod.mk.inj (Except.ok.inj h)
    exact Or.inl ⟨hupdate, rfl, rfl⟩
  · simp only [mt hany.mp hupdate] at h
    obtain ⟨rfl, rfl⟩ := Prod.mk.inj (Except.ok.inj h)
    exact Or.inr ⟨hupdate, rfl, rfl⟩

/-- **Everything `run` can do**: what `event` does, followed by a retransmission if there was no
update and the deadline has come. -/
lemma run_cases {now : ℤ} (h : p.run now = .ok p') :
    ∃ result q, p.event = .ok (result, q) ∧
      ((result ≠ 1 ∧ q.transmitDeadline ≤ now ∧ p' = q.retransmit) ∨
        ((result = 1 ∨ now < q.transmitDeadline) ∧ p' = q)) := by
  rw [run] at h
  obtain ⟨⟨result, q⟩, hevent, h⟩ := Fallible.bind_eq_ok.mp h
  refine ⟨result, q, hevent, ?_⟩
  dsimp only at h
  split_ifs at h with hresult hdue
  · exact Or.inl ⟨hresult, hdue, (Except.ok.inj h).symm⟩
  · exact Or.inr ⟨Or.inr (not_le.mp hdue), (Except.ok.inj h).symm⟩
  · exact Or.inr ⟨Or.inl (not_not.mp hresult), (Except.ok.inj h).symm⟩

/-- A call of `event` that finds an update publishes the dataset it leaves. -/
lemma event_publishes {result : ℤ} (h : p.event = .ok (result, p')) (hupdate : p.HasUpdate) :
    result = 1 ∧ ∃ message, p'.published = p.published ++ [message] ∧
      message.dataSetValues = p'.dataSetValues := by
  obtain ⟨polled, -, ⟨-, hresult, rfl⟩ | ⟨hno, -, -⟩⟩ := event_cases h
  · exact ⟨hresult, _, rfl, rfl⟩
  · exact absurd hupdate hno

/-- A call of `run` that finds an update publishes the dataset it leaves. -/
lemma run_publishes {now : ℤ} (h : p.run now = .ok p') (hupdate : p.HasUpdate) :
    ∃ message, p'.published = p.published ++ [message] ∧
      message.dataSetValues = p'.dataSetValues := by
  obtain ⟨result, q, hevent, hcases⟩ := run_cases h
  obtain ⟨hresult, hmessage⟩ := event_publishes hevent hupdate
  rcases hcases with ⟨hne, -⟩ | ⟨-, rfl⟩
  · exact absurd hresult hne
  · exact hmessage

/-- The step of a call of `event` drops its result. -/
lemma publisherStep_event_eq_ok {now : ℤ} :
    publisherStep p (.event now) = .ok p' ↔ ∃ result, p.event = .ok (result, p') := by
  rw [publisherStep]
  cases p.event with
  | error f => simp [Functor.map, Except.map]
  | ok o =>
    obtain ⟨result, q⟩ := o
    simp [Functor.map, Except.map]

/-- An input after a call of `event` is the input polled. -/
lemma event_input {result : ℤ} (h : p.event = .ok (result, p')) {k : ℕ} {d : DataInput}
    (hd : p.inputs[k]? = some d) :
    ∃ updated d', d.poll p.maxLag = .ok (updated, d') ∧ p'.inputs[k]? = some d' ∧
      p'.maxLag = p.maxLag := by
  obtain ⟨polled, hpolled, hcases⟩ := event_cases h
  obtain ⟨⟨updated, d'⟩, hpoll, hk⟩ := Fallible.exists_result_at hpolled hd
  have hk' : (polled.map Prod.snd)[k]? = some d' := by rw [List.getElem?_map, hk]; rfl
  rcases hcases with ⟨-, -, rfl⟩ | ⟨-, -, rfl⟩
  · exact ⟨updated, d', hpoll, hk', rfl⟩
  · exact ⟨updated, d', hpoll, hk', rfl⟩

/-- An input after a call of `run` is the input polled. -/
lemma run_input {now : ℤ} (h : p.run now = .ok p') {k : ℕ} {d : DataInput}
    (hd : p.inputs[k]? = some d) :
    ∃ updated d', d.poll p.maxLag = .ok (updated, d') ∧ p'.inputs[k]? = some d' ∧
      p'.maxLag = p.maxLag := by
  obtain ⟨result, q, hevent, ⟨-, -, rfl⟩ | ⟨-, rfl⟩⟩ := run_cases h
  · exact event_input hevent hd
  · exact event_input hevent hd

end Publisher

end Tmee
