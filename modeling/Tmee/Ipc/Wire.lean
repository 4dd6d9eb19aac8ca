import Tmee.Engine.Events
import Tmee.Lib.Fallible
import Tmee.Lib.Run

set_option relaxedAutoImplicit false
set_option autoImplicit false

/-!
# Event names on the wire

The `ipc` module sends the name of an event as the `strlen` bytes of its C string, and takes what
it receives as a C string that starts in a buffer of 255 bytes on the stack, whose content before
the receipt is left from anything else. This file models both ends, and a link from one engine to
another on which messages arrive whole and in order.

The characters of a C string are its bytes, so that a name is a `String` of characters below 256
and none of them is null.

## Main definitions

* `Tmee.toBytes`, `Tmee.ofBytes`, `Tmee.CString` — names as bytes.
* `Tmee.RecvBuffer`, `Tmee.zmqRecv`, `Tmee.RecvBuffer.cString` — the buffer of `run`.
* `Tmee.ipcSend`, `Tmee.ipcRun` — what `event` sends, and what `run` registers and calls back.
* `Tmee.IpcLink`, `Tmee.linkStep` — two engines joined by `ipc` modules.
* `Tmee.Delivered`, `Tmee.Deliverable` — a message fires the event of its name, and when.

## Main results

* `Tmee.cString_zmqRecv_iff` — when the buffer reads as the name that was sent.
* `Tmee.ipcRun_fires_iff` — when `run` fires the event of that name.
* `Tmee.delivered_iff` — when the next message is received under its name, in every run.
-/

namespace Tmee

/-! ## Names and bytes -/

/-- The bytes of a C string, without the null byte that ends it. -/
def toBytes (name : String) : List UInt8 := name.toList.map Char.toUInt8

/-- The C string of some bytes. -/
def ofBytes (bytes : List UInt8) : String := String.ofList (bytes.map Char.ofUInt8)

/-- What a C string can hold: bytes that are not null. -/
structure CString where
  bytes : List UInt8
  noNul : 0 ∉ bytes

namespace CString

/-- The string as a name. -/
def name (c : CString) : String := ofBytes c.bytes

end CString

/-- Writing bytes as characters loses nothing. -/
@[simp] lemma toBytes_ofBytes (bytes : List UInt8) : toBytes (ofBytes bytes) = bytes := by
  rw [toBytes, ofBytes, String.toList_ofList, List.map_map]
  have hid : Char.toUInt8 ∘ Char.ofUInt8 = id := by
    funext b
    show b.toUInt32.toUInt8 = b
    simp
  rw [hid, List.map_id]

lemma ofBytes_injective : Function.Injective ofBytes :=
  Function.LeftInverse.injective toBytes_ofBytes

/-! ## The two ends -/

/-- The `char event_name [255]` of `run`. -/
structure RecvBuffer where
  bytes : List UInt8
  length_eq : bytes.length = 255

/-- `zmq_recv` fills the buffer from its start on, with 255 bytes at most. -/
def zmqRecv (prior : RecvBuffer) (message : List UInt8) : RecvBuffer where
  bytes := message.take 255 ++ prior.bytes.drop message.length
  length_eq := by
    have := prior.length_eq
    simp only [List.length_append, List.length_take, List.length_drop]
    omega

@[simp] lemma bytes_zmqRecv (prior : RecvBuffer) (message : List UInt8) :
    (zmqRecv prior message).bytes = message.take 255 ++ prior.bytes.drop message.length := rfl

/-- The C string that starts with the buffer; without a null byte it runs out of it. -/
def RecvBuffer.cString (buffer : RecvBuffer) : Except Fault String :=
  if 0 ∈ buffer.bytes then .ok (ofBytes (buffer.bytes.takeWhile (· ≠ 0)))
  else .error .outOfBounds

/-- What `event` sends: the name of the event, to every client. Without a name `strlen` gets a null
pointer. -/
def ipcSend {Client : Type} (e : Engine) (clients : List Client) (eventId : ℤ) :
    Except Fault (List (Client × List UInt8)) :=
  clients.mapM fun client =>
    match findEventName e eventId with
    | some eventName => .ok (client, toBytes eventName)
    | none => .error .nullPointer

/-- What `run` does with the message `zmq_recv` finds, if any: the id it calls back, and the engine
then. -/
def ipcRun (e : Engine) (prior : RecvBuffer) : Option (List UInt8) →
    Except Fault (Option ℤ × Engine)
  | none => .ok (none, e)
  | some message =>
    -- `zmq_recv` returns the length of the message, also when it is longer than the buffer
    if message.length > 0 then do
      let eventName ← (zmqRecv prior message).cString
      let (eventId, e) := assignEventId e eventName
      .ok (some eventId, e)
    else .ok (none, e)

/-! ## A link between two engines -/

/-- Two engines, an `ipc` module of the first with a client address of the second. -/
structure IpcLink where
  sender : Engine
  receiver : Engine
  /-- The messages on their way, the oldest first. -/
  queue : List (List UInt8)
  /-- The names found for the events that were sent. -/
  sent : List String
  /-- How many messages have been received. -/
  received : ℕ
  /-- The ids that the receiver has called back. -/
  fired : List ℤ

/-- Nothing is registered and nothing sent. -/
def IpcLink.initial : IpcLink := ⟨Engine.initial, Engine.initial, [], [], 0, []⟩

/-- What happens at the two ends. -/
inductive LinkInput
  /-- The sender registers a name. -/
  | registerSender (eventName : CString)
  /-- The receiver registers a name. -/
  | registerReceiver (eventName : CString)
  /-- `event` of the sender's module is called. -/
  | event (eventId : ℤ)
  /-- `run` of the receiver's module is called, with this content in its buffer. -/
  | run (prior : RecvBuffer)

/-- One call at one of the two ends. -/
def linkStep (s : IpcLink) : LinkInput → Except Fault IpcLink
  | .registerSender eventName =>
    .ok { s with sender := (assignEventId s.sender eventName.name).2 }
  | .registerReceiver eventName =>
    .ok { s with receiver := (assignEventId s.receiver eventName.name).2 }
  | .event eventId => do
    let messages ← ipcSend s.sender [()] eventId
    .ok { s with
      queue := s.queue ++ messages.map Prod.snd
      sent := s.sent ++ (findEventName s.sender eventId).toList }
  | .run prior => do
    let (eventId, e) ← ipcRun s.receiver prior s.queue.head?
    .ok { s with
      receiver := e
      queue := s.queue.tail
      received := s.received + s.queue.head?.toList.length
      fired := s.fired ++ eventId.toList }

/-- The next `run` fires one event, and its id has the name `eventName` then. -/
def Delivered (s : IpcLink) (prior : RecvBuffer) (eventName : String) : Prop :=
  ∃ s' id, linkStep s (.run prior) = .ok s' ∧ s'.fired = s.fired ++ [id] ∧
    findEventName s'.receiver id = some eventName

/-- The name is not empty, the buffer holds a null byte where the message ends, and the receiver
knows the name or has room for it. -/
def Deliverable (s : IpcLink) (prior : RecvBuffer) (eventName : String) : Prop :=
  eventName ≠ "" ∧ prior.bytes[(toBytes eventName).length]? = some 0 ∧
    ((∃ id, findEventName s.receiver id = some eventName) ∨
      s.receiver.eventIds.length < maxEventIds)

/-! ## When a message is received under its name -/

section Receive

variable {bytes : List UInt8} {prior : RecvBuffer}

/-- A string of non-null bytes is what stands before the first null byte. -/
lemma takeWhile_append_of_noNul (h : 0 ∉ bytes) (rest : List UInt8) :
    (bytes ++ rest).takeWhile (· ≠ 0) = bytes ++ rest.takeWhile (· ≠ 0) := by
  apply List.takeWhile_append_of_pos
  intro b hb
  have hne : b ≠ 0 := fun h0 => h (h0 ▸ hb)
  simpa using hne

/-- A byte inside the buffer, as the list that starts there. -/
lemma RecvBuffer.drop_eq_cons {n : ℕ} {b : UInt8} (h : prior.bytes[n]? = some b) :
    n < 255 ∧ prior.bytes.drop n = b :: prior.bytes.drop (n + 1) := by
  obtain ⟨hn, hb⟩ := List.getElem?_eq_some_iff.mp h
  exact ⟨prior.length_eq ▸ hn, by rw [List.drop_eq_getElem_cons hn, hb]⟩

/-- **When the buffer reads as the name that was sent**: exactly if a null byte follows it in the
buffer from before.

**Proof sketch.** A message of 255 bytes or more fills the buffer with bytes that are not null. A
shorter one leaves the rest of the buffer, and the name ends where this rest has its first null
byte. -/
theorem cString_zmqRecv_iff (h : 0 ∉ bytes) :
    (zmqRecv prior bytes).cString = .ok (ofBytes bytes) ↔ prior.bytes[bytes.length]? = some 0 := by
  by_cases hlen : bytes.length < 255
  · have hget : bytes.length < prior.bytes.length := by
      rw [prior.length_eq]
      exact hlen
    obtain ⟨b, hb⟩ : ∃ b, prior.bytes[bytes.length]? = some b :=
      ⟨_, List.getElem?_eq_getElem hget⟩
    obtain ⟨-, hdrop⟩ := RecvBuffer.drop_eq_cons hb
    have hbuffer : (zmqRecv prior bytes).bytes =
        bytes ++ b :: prior.bytes.drop (bytes.length + 1) := by
      rw [bytes_zmqRecv, List.take_of_length_le (by omega), hdrop]
    rw [RecvBuffer.cString, hbuffer, hb, takeWhile_append_of_noNul h]
    by_cases hb0 : b = 0
    · subst hb0
      simp
    · rw [List.takeWhile_cons_of_pos (by simpa using hb0)]
      constructor
      · intro hread
        split_ifs at hread with hnul
        have hbytes := ofBytes_injective (Except.ok.inj hread)
        simp at hbytes
      · intro hread
        exact absurd (Option.some.inj hread) hb0
  · have hnone : prior.bytes[bytes.length]? = none := by
      rw [List.getElem?_eq_none_iff, prior.length_eq]
      omega
    have hdrop : prior.bytes.drop bytes.length = [] := by
      rw [List.drop_eq_nil_iff, prior.length_eq]
      omega
    have hnul : 0 ∉ (zmqRecv prior bytes).bytes := by
      rw [bytes_zmqRecv, hdrop, List.append_nil]
      exact fun hmem => h (List.mem_of_mem_take hmem)
    rw [RecvBuffer.cString, if_neg hnul, hnone]
    simp

/-- **What `run` does** with a message that makes it call back an id: it has read a name, and the id
is the one of the name. -/
lemma ipcRun_eq_some_iff {e e' : Engine} {id : ℤ} {message : List UInt8} :
    ipcRun e prior (some message) = .ok (some id, e') ↔
      message ≠ [] ∧ ∃ eventName, (zmqRecv prior message).cString = .ok eventName ∧
        assignEventId e eventName = (id, e') := by
  rw [ipcRun]
  split_ifs with hpos
  · simp only [Fallible.bind_eq_ok, List.ne_nil_of_length_pos hpos, ne_eq, not_false_eq_true,
      true_and, Except.ok.injEq, Option.some.injEq, Prod.ext_iff]
  · have hnil : message = [] := List.length_eq_zero_iff.mp (by omega)
    simp [hnil]

/-- `run` leaves the engine as it is, or registers one name. -/
lemma ipcRun_cases {e e' : Engine} {message : Option (List UInt8)} {id : Option ℤ}
    (h : ipcRun e prior message = .ok (id, e')) :
    (id = none ∧ e' = e) ∨ ∃ bytes eventName id', message = some bytes ∧ id = some id' ∧
      (zmqRecv prior bytes).cString = .ok eventName ∧ assignEventId e eventName = (id', e') := by
  cases message with
  | none =>
    obtain ⟨rfl, rfl⟩ : none = id ∧ e = e' := by simpa [ipcRun] using h
    exact Or.inl ⟨rfl, rfl⟩
  | some bytes =>
    cases id with
    | some id =>
      obtain ⟨-, eventName, hread, hreg⟩ := ipcRun_eq_some_iff.mp h
      exact Or.inr ⟨bytes, eventName, id, rfl, rfl, hread, hreg⟩
    | none =>
      rw [ipcRun] at h
      split_ifs at h with hpos
      · obtain ⟨eventName, -, hok⟩ := Fallible.bind_eq_ok.mp h
        simp at hok
      · obtain rfl : e = e' := by simpa using h
        exact Or.inl ⟨rfl, rfl⟩

/-- **When `run` fires the event of the name that was sent**: the name is not empty, the buffer ends
it, and the engine has an id for it.

**Proof sketch.** The id that `run` calls back is the one of the string it read, so the name of that
id is the string, if it has got an id at all. -/
theorem ipcRun_fires_iff {e : Engine} {l : List String}
    (he : e.Numbers (FirstSeen.table maxEventIds l)) (h : 0 ∉ bytes) :
    (∃ id e', ipcRun e prior (some bytes) = .ok (some id, e') ∧
        findEventName e' id = some (ofBytes bytes)) ↔
      bytes ≠ [] ∧ prior.bytes[bytes.length]? = some 0 ∧
        ofBytes bytes ∈ FirstSeen.table maxEventIds (l ++ [ofBytes bytes]) := by
  rw [← cString_zmqRecv_iff h]
  constructor
  · rintro ⟨id, e', hrun, hfind⟩
    obtain ⟨hne, eventName, hread, hreg'⟩ := ipcRun_eq_some_iff.mp hrun
    obtain ⟨id', e'', hreg, hnum, -, -, hid⟩ := assignEventId_spec he eventName
    obtain ⟨rfl, rfl⟩ : id' = id ∧ e'' = e' := by
      simpa using hreg.symm.trans hreg'
    rcases hid with ⟨rfl, rfl, -⟩ | ⟨i, rfl, hi⟩
    · rw [findEventName_neg_one he] at hfind
      cases hfind
    · rw [findEventName_of_numbers hnum, hi] at hfind
      obtain rfl := Option.some.inj hfind
      exact ⟨hne, hread, List.mem_of_getElem? hi⟩
  · rintro ⟨hne, hread, hmem⟩
    obtain ⟨id, e', hreg, hnum, -, -, hid⟩ := assignEventId_spec he (ofBytes bytes)
    refine ⟨id, e', ipcRun_eq_some_iff.mpr ⟨hne, ofBytes bytes, hread, hreg⟩, ?_⟩
    rcases hid with ⟨-, -, hfull⟩ | ⟨i, rfl, hi⟩
    · exact absurd hmem hfull
    · rw [findEventName_of_numbers hnum, hi]

end Receive

/-! ## Runs of a link -/

/-- What `event` sends to one client. -/
lemma ipcSend_singleton_eq_ok {e : Engine} {id : ℤ} {messages : List (Unit × List UInt8)} :
    ipcSend e [()] id = .ok messages ↔
      ∃ eventName, findEventName e id = some eventName ∧ messages = [((), toBytes eventName)] := by
  rw [ipcSend, Fallible.mapM_eq_ok_iff]
  cases hfind : findEventName e id with
  | none => simp [List.forall₂_cons_left_iff]
  | some eventName => simp [List.forall₂_cons_left_iff, eq_comm]

/-- `event` sends one message to every client. -/
lemma ipcSend_map_fst {Client : Type} {e : Engine} {clients : List Client} {id : ℤ}
    {messages : List (Client × List UInt8)} (h : ipcSend e clients id = .ok messages) :
    messages.map Prod.fst = clients := by
  have hall := Fallible.mapM_eq_ok_iff.mp h
  clear h
  induction hall with
  | nil => rfl
  | @cons client message clients messages hmessage hall ih =>
    rw [List.map_cons, ih]
    cases hfind : findEventName e id with
    | none => simp [hfind] at hmessage
    | some eventName =>
      obtain rfl : (client, toBytes eventName) = message := by simpa [hfind] using hmessage
      rfl

/-- What holds at a link at any time: both event tables are filled in order of first occurrence, the
names are C strings, and what is on its way is what was sent and not received, in this order. -/
structure LinkInv (s : IpcLink) : Prop where
  sender : ∃ l : List CString,
    s.sender.Numbers (FirstSeen.table maxEventIds (l.map CString.name))
  receiver : ∃ l : List String, s.receiver.Numbers (FirstSeen.table maxEventIds l)
  sent : ∀ eventName ∈ s.sent, ∃ c : CString, eventName = c.name
  queue_eq : s.queue = (s.sent.drop s.received).map toBytes
  received_le : s.received ≤ s.sent.length

namespace LinkInv

variable {s s' : IpcLink}

lemma initial : LinkInv IpcLink.initial where
  sender := ⟨[], Engine.Numbers.initial⟩
  receiver := ⟨[], Engine.Numbers.initial⟩
  sent := by simp [IpcLink.initial]
  queue_eq := rfl
  received_le := le_rfl

/-- Every call keeps the invariant. -/
lemma step (h : LinkInv s) (i : LinkInput) (hstep : linkStep s i = .ok s') : LinkInv s' := by
  obtain ⟨l, hl⟩ := h.sender
  obtain ⟨l', hl'⟩ := h.receiver
  cases i with
  | registerSender eventName =>
    obtain ⟨id, e, hreg, hnum, -⟩ := assignEventId_spec hl eventName.name
    obtain rfl := Except.ok.inj hstep
    refine { h with sender := ⟨l ++ [eventName], ?_⟩ }
    simpa [hreg] using hnum
  | registerReceiver eventName =>
    obtain ⟨id, e, hreg, hnum, -⟩ := assignEventId_spec hl' eventName.name
    obtain rfl := Except.ok.inj hstep
    refine { h with receiver := ⟨l' ++ [eventName.name], ?_⟩ }
    simpa [hreg] using hnum
  | event id =>
    obtain ⟨messages, hsend, hok⟩ := Fallible.bind_eq_ok.mp hstep
    obtain ⟨eventName, hfind, rfl⟩ := ipcSend_singleton_eq_ok.mp hsend
    obtain rfl := Except.ok.inj hok
    have hmem : eventName ∈ FirstSeen.table maxEventIds (l.map CString.name) :=
      (exists_findEventName_iff hl).mp ⟨id, hfind⟩
    obtain ⟨c, -, hc⟩ := List.mem_map.mp (FirstSeen.mem_of_mem_table hmem)
    refine { h with sent := ?_, queue_eq := ?_, received_le := ?_ }
    · intro eventName' hmem'
      rcases List.mem_append.mp hmem' with hold | hnew
      · exact h.sent eventName' hold
      · rw [hfind, Option.toList_some, List.mem_singleton] at hnew
        exact ⟨c, hnew.trans hc.symm⟩
    · simp [hfind, h.queue_eq, List.drop_append_of_le_length h.received_le]
    · simp only [List.length_append]
      exact h.received_le.trans (Nat.le_add_right _ _)
  | run prior =>
    obtain ⟨⟨id, e⟩, hrun, hok⟩ := Fallible.bind_eq_ok.mp hstep
    obtain rfl := Except.ok.inj hok
    refine { h with receiver := ?_, queue_eq := ?_, received_le := ?_ }
    · rcases ipcRun_cases hrun with ⟨-, rfl⟩ | ⟨-, eventName, id', -, -, -, hreg⟩
      · exact ⟨l', hl'⟩
      · obtain ⟨id'', e', hreg', hnum, -⟩ := assignEventId_spec hl' eventName
        obtain ⟨-, rfl⟩ : id' = id'' ∧ e = e' := by simpa using hreg.symm.trans hreg'
        exact ⟨l' ++ [eventName], hnum⟩
    · show s.queue.tail = _
      rw [h.queue_eq, List.head?_map]
      cases hdrop : s.sent.drop s.received with
      | nil =>
        simpa using hdrop
      | cons eventName rest =>
        rw [← List.drop_drop, hdrop]
        rfl
    · have hle := h.received_le
      show s.received + s.queue.head?.toList.length ≤ s.sent.length
      rw [h.queue_eq, List.head?_map, List.head?_drop]
      cases hget : s.sent[s.received]? with
      | none => simpa using hle
      | some eventName =>
        obtain ⟨hlt, -⟩ := List.getElem?_eq_some_iff.mp hget
        exact hlt

/-- Every reachable state of a link satisfies it. -/
lemma of_exec {as : List LinkInput} (h : Run.exec linkStep IpcLink.initial as = .ok s) :
    LinkInv s :=
  Run.exec_invariant (fun _ i _ hinv hstep => hinv.step i hstep) initial h

/-- The next message is the first name that has not been received. -/
lemma head?_queue (h : LinkInv s) : s.queue.head? = s.sent[s.received]?.map toBytes := by
  rw [h.queue_eq, List.head?_map, List.head?_drop]

end LinkInv

/-- **When the next message is received under its name.** In every run of a link and for every
content of the receiver's buffer, `run` fires the event of the name that `find_event_name` gave at
the sender exactly if the name is not empty, the buffer ends it, and the receiver knows it or has
room for it.

**Proof sketch.** The next message holds the bytes of the name, which are not null, as the sender
has only C strings in its table; the rest is `ipcRun_fires_iff`. -/
theorem delivered_iff {as : List LinkInput} {s : IpcLink}
    (h : Run.exec linkStep IpcLink.initial as = .ok s) {eventName : String}
    (hnext : s.sent[s.received]? = some eventName) (prior : RecvBuffer) :
    Delivered s prior eventName ↔ Deliverable s prior eventName := by
  have hinv := LinkInv.of_exec h
  obtain ⟨l, hl⟩ := hinv.receiver
  obtain ⟨c, rfl⟩ := hinv.sent eventName (List.mem_of_getElem? hnext)
  have hhead : s.queue.head? = some c.bytes := by
    rw [hinv.head?_queue, hnext, CString.name, Option.map_some, toBytes_ofBytes]
  have hfires := @ipcRun_fires_iff c.bytes prior _ l hl c.noNul
  have hroom : s.receiver.eventIds.length = (FirstSeen.table maxEventIds l).length :=
    hl.length_eventIds
  have hempty : c.name ≠ "" ↔ c.bytes ≠ [] := by
    rw [CString.name, not_iff_not]
    exact ⟨fun hc => ofBytes_injective hc, fun hc => by rw [hc]; rfl⟩
  rw [Deliverable, hempty, exists_findEventName_iff hl, hroom, ← FirstSeen.mem_table_concat_iff,
    CString.name, toBytes_ofBytes, ← hfires]
  constructor
  · rintro ⟨s', id, hstep, hfired, hfind⟩
    obtain ⟨⟨id', e⟩, hrun, hok⟩ := Fallible.bind_eq_ok.mp hstep
    obtain rfl := Except.ok.inj hok
    rw [hhead] at hrun
    obtain rfl : id' = some id := by simpa using hfired
    exact ⟨id, e, hrun, hfind⟩
  · rintro ⟨id, e, hrun, hfind⟩
    rw [← hhead] at hrun
    exact ⟨_, id, Fallible.bind_eq_ok.mpr ⟨(some id, e), hrun, rfl⟩, rfl, hfind⟩

/-- A buffer that holds a C string and is null behind it. -/
def RecvBuffer.holding (c : CString) : RecvBuffer where
  bytes := (c.bytes ++ List.replicate 255 0).take 255
  length_eq := by
    rw [List.length_take, List.length_append, List.length_replicate]
    omega

/-- The names `a` and `ab`. -/
def nameA : CString := ⟨[97], by decide⟩
def nameAB : CString := ⟨[97, 98], by decide⟩

/-- The link when the event `a` has been sent. -/
def linkSentA : IpcLink :=
  ⟨⟨[⟨0, "a"⟩], fun _ => [], []⟩, Engine.initial, [[97]], ["a"], 0, []⟩

/-- The condition for one message and a buffer of null bytes. -/
theorem delivered_iff_one :
    Delivered linkSentA (.holding ⟨[], by decide⟩) "a" ↔
      Deliverable linkSentA (.holding ⟨[], by decide⟩) "a" :=
  @delivered_iff [.registerSender nameA, .event 0] linkSentA (by rfl) "a" (by rfl) _

/-- **A message does not always fire the event of its name**: when the buffer still holds the longer
name `ab`, the message `a` is read as `ab`. -/
theorem not_delivered_leftover :
    Run.exec linkStep IpcLink.initial [.registerSender nameA, .event 0] = .ok linkSentA ∧
      linkSentA.sent[linkSentA.received]? = some "a" ∧
      ¬ Delivered linkSentA (.holding nameAB) "a" ∧
      ∃ s', linkStep linkSentA (.run (.holding nameAB)) = .ok s' ∧ s'.fired = [0] ∧
        findEventName s'.receiver 0 = some "ab" := by
  have hstep : linkStep linkSentA (.run (.holding nameAB)) =
      .ok ⟨⟨[⟨0, "a"⟩], fun _ => [], []⟩, ⟨[⟨0, "ab"⟩], fun _ => [], []⟩, [], ["a"], 1, [0]⟩ := by
    rfl
  refine ⟨by rfl, by rfl, ?_, _, hstep, rfl, by rfl⟩
  rintro ⟨s', id, hstep', hfired, hfind⟩
  rw [hstep] at hstep'
  obtain rfl := Except.ok.inj hstep'
  obtain rfl : 0 = id := by simpa [linkSentA] using hfired
  have hab : findEventName ⟨[⟨0, "ab"⟩], fun _ => [], []⟩ 0 = some "ab" := by rfl
  have hname : some "ab" = some "a" := hab.symm.trans hfind
  simp at hname

end Tmee
