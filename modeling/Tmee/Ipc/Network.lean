import Mathlib.Data.List.Nodup
import Tmee.Ipc.Dispatch
import Tmee.Ipc.Wire

set_option relaxedAutoImplicit false
set_option autoImplicit false

/-!
# Networks of engine processes

Any number of engine processes, whose `ipc` modules send the names of events to one another. Within
a process calls of `run_callback_func` nest: a module raises an event from its `event` function
while the chain of another event is walked. Messages are delivered in any order, with any content of
the buffer of `run` before.

Calls and messages carry the number of the local firing they come from. No function of the code
reads it.

## Main definitions

* `Tmee.IpcData` — the private data of an `ipc` module.
* `Tmee.Net`, `Tmee.netStep` — the processes with their calls, and the messages.
* `Tmee.SentOnce` — only events raised locally are sent, once to each client.
* `Tmee.ForwardsNothing`, `Tmee.SubscribedOnce`, `Tmee.NetGuard` — the condition on the steps.

## Main results

* `Tmee.runCallbackFunc_eq_chain` — `run_callback_func` calls the modules of the chain.
* `Tmee.NetInv.step` — what one step preserves.
* `Tmee.sentOnce_of_guard` — the run theorem.
-/

namespace Tmee

/-! ## The chain of an event -/

/-- **`run_callback_func` calls the modules of the chain**, in any monad. -/
theorem runCallbackFunc_eq_chain {m : Type → Type} [Monad m] [LawfulMonad m] (e : Engine)
    (event : ModuleObject → ℤ → m ℤ) (id : ℤ) :
    ∃ result, runCallbackFunc e event id =
      .ok (do callChain event id (e.chain id); pure result) := by
  by_cases hid : 0 ≤ id ∧ id.toNat < maxEventIds
  · obtain ⟨i, rfl⟩ : ∃ i : Fin maxEventIds, id = ((i : ℕ) : ℤ) :=
      ⟨⟨id.toNat, hid.2⟩, (Int.toNat_of_nonneg hid.1).symm⟩
    refine ⟨0, ?_⟩
    rw [runCallbackFunc_natCast, Engine.chain_natCast]
  · have hout : id ≥ maxEventIds ∨ id < 0 := by omega
    refine ⟨-1, ?_⟩
    rw [runCallbackFunc, if_pos hout, e.chain_of_not hid]
    simp [callChain]

/-- Registering a name subscribes nobody. -/
lemma eventChains_assignEventId (e : Engine) (eventName : String) :
    (assignEventId e eventName).2.eventChains = e.eventChains := by
  rw [assignEventId]
  split
  · rfl
  · dsimp only
    split_ifs <;> rfl

lemma Engine.chain_congr {e e' : Engine} (h : e.eventChains = e'.eventChains) (id : ℤ) :
    e.chain id = e'.chain id := by
  rw [Engine.chain, Engine.chain, h]

lemma Engine.length_chain_le {e : Engine} {n : ℕ} (h : ∀ k, (e.eventChains k).length ≤ n)
    (id : ℤ) : (e.chain id).length ≤ n := by
  rw [Engine.chain]
  split_ifs
  · exact h _
  · exact Nat.zero_le n

/-! ## Processes and messages -/

/-- What `pre_init` of an `ipc` module has stored in the private data of the module. -/
structure IpcData where
  ipcEventId : ℤ
  serverAddress : String
  /-- The addresses of the clients. -/
  clients : List String
  deriving DecidableEq

/-- A call of `run_callback_func` that is walking along its chain. -/
structure Firing where
  eventId : ℤ
  /-- The modules that are still to be called. -/
  chain : List ModuleObject
  /-- The call was made by `run` for a message. -/
  received : Bool
  /-- The number of the local firing it comes from. -/
  origin : ℕ
  deriving DecidableEq

section Model

variable (P : Type)

/-- A message that a module of a process has sent to one of its clients. -/
structure Message where
  process : P
  module : ModuleObject
  /-- The number of the client among the clients of the module. -/
  client : ℕ
  address : String
  bytes : List UInt8
  /-- It was sent from a call that `run` made for a message. -/
  received : Bool
  /-- The number of the local firing it comes from. -/
  origin : ℕ
  deriving DecidableEq

/-- The processes and the messages. -/
structure Net where
  engine : P → Engine
  /-- The calls of `run_callback_func` that have not returned, the innermost first. -/
  calls : P → List Firing
  /-- The messages on their way. -/
  inFlight : List (Message P)
  /-- All messages so far. -/
  sent : List (Message P)
  /-- The local firings so far: the process and the event. -/
  raised : List (P × ℤ)

/-- What the processes do. -/
inductive NetInput
  /-- A module of the process calls `run_callback_func` for an event of its own. -/
  | raise (p : P) (eventId : ℤ)
  /-- The innermost call of the process goes on to the next module of its chain, or returns. -/
  | call (p : P)
  /-- The main loop of the process calls `run` of an `ipc` module, with this content in its buffer,
  while message `n` is the next to be delivered. -/
  | run (p : P) (module : ModuleObject) (n : ℕ) (prior : RecvBuffer)

variable {P}

/-- Nothing has been raised yet. -/
def Net.initial (engine : P → Engine) : Net P := ⟨engine, fun _ => [], [], [], []⟩

/-- What identifies a message: the local firing it comes from, and the client it is for. -/
def Message.key (m : Message P) : ℕ × P × ModuleObject × ℕ :=
  (m.origin, m.process, m.module, m.client)

/-- A call of `run_callback_func` for an event that a module of the process has raised. -/
def Net.fire [DecidableEq P] (s : Net P) (p : P) (id : ℤ) : Net P :=
  { s with
    calls := Function.update s.calls p
      (⟨id, (s.engine p).chain id, false, s.raised.length⟩ :: s.calls p)
    raised := s.raised ++ [(p, id)] }

/-- The messages of a call for the clients of a module. -/
def messagesOf (p : P) (module : ModuleObject) (f : Firing)
    (messages : List ((String × ℕ) × List UInt8)) : List (Message P) :=
  messages.map fun m => ⟨p, module, m.1.2, m.1.1, m.2, f.received, f.origin⟩

variable (ipc : P → ModuleObject → Option IpcData)

/-- One step of a process. `ipc` gives the private data of the modules that are `ipc` modules. -/
def netStep [DecidableEq P] (s : Net P) : NetInput P → Except Fault (Net P)
  | .raise p id => .ok (s.fire p id)
  | .call p =>
    match s.calls p with
    | [] => .ok s
    | ⟨id, chain, received, origin⟩ :: calls =>
      match chain with
      | [] => .ok { s with calls := Function.update s.calls p calls }
      | module :: chain =>
        let f : Firing := ⟨id, chain, received, origin⟩
        let s := { s with calls := Function.update s.calls p (f :: calls) }
        match ipc p module with
        | none => .ok s
        | some data => do
          let messages ← ipcSend (s.engine p) data.clients.zipIdx id
          let sent := messagesOf p module f messages
          .ok (Net.fire { s with inFlight := s.inFlight ++ sent, sent := s.sent ++ sent } p
            data.ipcEventId)
  | .run p module n prior =>
    match ipc p module, s.calls p, s.inFlight[n]? with
    | some data, [], some message =>
      if message.address = data.serverAddress then do
        let (id, e) ← ipcRun (s.engine p) prior (some message.bytes)
        let s := { s with
          engine := Function.update s.engine p e
          inFlight := s.inFlight.eraseIdx n }
        match id with
        | none => .ok s
        | some id => .ok { s with
            calls := Function.update s.calls p [⟨id, e.chain id, true, message.origin⟩] }
      else .ok s
    | _, _, _ => .ok s

/-! ## The property and the condition -/

/-- Only events that a process raised locally are sent, by that process, and at most once for each
client of it. -/
structure SentOnce (s : Net P) : Prop where
  not_received : ∀ m ∈ s.sent, m.received = false
  process_eq : ∀ m ∈ s.sent, ∃ id, s.raised[m.origin]? = some (m.process, id)
  once : (s.sent.map Message.key).Nodup

/-- No `ipc` module with clients is subscribed to the event. -/
def ForwardsNothing (p : P) (e : Engine) (id : ℤ) : Prop :=
  ∀ module ∈ e.chain id, ∀ data, ipc p module = some data → data.clients = []

/-- No `ipc` module with clients is subscribed to the event twice. -/
def SubscribedOnce (p : P) (e : Engine) (id : ℤ) : Prop :=
  ∀ module data, ipc p module = some data → data.clients ≠ [] → (e.chain id).count module ≤ 1

/-- The condition on a step: no `ipc` module with clients is subscribed to the event of a received
name, and none is subscribed twice to an event that is raised locally. -/
def NetGuard (s : Net P) : NetInput P → Prop
  | .raise p id => SubscribedOnce ipc p (s.engine p) id
  | .call p => ∀ f calls, s.calls p = f :: calls → ∀ module data, f.chain.head? = some module →
      ipc p module = some data → SubscribedOnce ipc p (s.engine p) data.ipcEventId
  | .run p _ n prior => ∀ message eventName, s.inFlight[n]? = some message →
      (zmqRecv prior message.bytes).cString = .ok eventName →
        ForwardsNothing ipc p (s.engine p) (assignEventId (s.engine p) eventName).1

/-! ## What the steps preserve -/

/-- What holds of a call that has not returned: a received event is not sent on by the modules
still to be called; a local one was raised by this process, and each of its modules with clients is
to be called once more and has sent nothing for it. -/
structure FiringInv (raised : List (P × ℤ)) (sent : List (Message P)) (p : P) (f : Firing) :
    Prop where
  forwards : f.received = true → ∀ module ∈ f.chain, ∀ data, ipc p module = some data →
    data.clients = []
  raised : f.received = false → ∃ id, raised[f.origin]? = some (p, id)
  once : f.received = false → ∀ module ∈ f.chain, ∀ data, ipc p module = some data →
    data.clients ≠ [] → f.chain.count module ≤ 1 ∧
      ∀ m ∈ sent, m.process = p → m.origin = f.origin → m.module ≠ module

/-- What holds at any time: the property itself, the calls are as they should be, and the calls for
local firings of a process are for different ones. -/
structure NetInv (s : Net P) : Prop where
  sentOnce : SentOnce s
  firing : ∀ p, ∀ f ∈ s.calls p, FiringInv ipc s.raised s.sent p f
  origins : ∀ p, (s.calls p).Pairwise fun f g =>
    f.received = false → g.received = false → f.origin ≠ g.origin

variable {ipc}

/-- Calling a module leaves the ones behind it. -/
lemma FiringInv.tail {raised : List (P × ℤ)} {sent : List (Message P)} {p : P} {id : ℤ}
    {module : ModuleObject} {chain : List ModuleObject} {received : Bool} {origin : ℕ}
    (h : FiringInv ipc raised sent p ⟨id, module :: chain, received, origin⟩) :
    FiringInv ipc raised sent p ⟨id, chain, received, origin⟩ where
  forwards hreceived module' hmem := h.forwards hreceived module' (List.mem_cons_of_mem _ hmem)
  raised := h.raised
  once hlocal module' hmem data hdata hclients := by
    obtain ⟨hcount, hsent⟩ :=
      h.once hlocal module' (List.mem_cons_of_mem _ hmem) data hdata hclients
    exact ⟨(List.count_le_count_cons).trans hcount, hsent⟩

/-- More local firings change nothing about a call. -/
lemma FiringInv.append_raised {raised : List (P × ℤ)} {sent : List (Message P)} {p : P}
    {f : Firing} (h : FiringInv ipc raised sent p f) (more : List (P × ℤ)) :
    FiringInv ipc (raised ++ more) sent p f where
  forwards := h.forwards
  raised hlocal := by
    obtain ⟨id, hid⟩ := h.raised hlocal
    obtain ⟨hlt, -⟩ := List.getElem?_eq_some_iff.mp hid
    exact ⟨id, by rw [List.getElem?_append_left hlt, hid]⟩
  once := h.once

/-- Neither do messages of other calls. -/
lemma FiringInv.append_sent {raised : List (P × ℤ)} {sent more : List (Message P)} {p : P}
    {f : Firing} (h : FiringInv ipc raised sent p f)
    (hmore : f.received = false → ∀ module ∈ f.chain, ∀ m ∈ more, m.process = p →
      m.origin = f.origin → m.module ≠ module) :
    FiringInv ipc raised (sent ++ more) p f where
  forwards := h.forwards
  raised := h.raised
  once hlocal module hmem data hdata hclients := by
    obtain ⟨hcount, hsent⟩ := h.once hlocal module hmem data hdata hclients
    refine ⟨hcount, fun m hm => ?_⟩
    rcases List.mem_append.mp hm with hold | hnew
    · exact hsent m hold
    · exact hmore hlocal module hmem m hnew

/-- What a new message carries. -/
structure MessageOf (p : P) (module : ModuleObject) (f : Firing) (m : Message P) : Prop where
  process : m.process = p
  module : m.module = module
  received : m.received = f.received
  origin : m.origin = f.origin

lemma mem_messagesOf {p : P} {module : ModuleObject} {f : Firing}
    {messages : List ((String × ℕ) × List UInt8)} {m : Message P}
    (h : m ∈ messagesOf p module f messages) : MessageOf p module f m := by
  obtain ⟨message, -, rfl⟩ := List.mem_map.mp h
  exact ⟨rfl, rfl, rfl, rfl⟩

/-- The messages of one call of `event` are for different clients. -/
lemma nodup_messagesOf {p : P} {module : ModuleObject} {f : Firing} {clients : List String}
    {messages : List ((String × ℕ) × List UInt8)} (h : messages.map Prod.fst = clients.zipIdx) :
    ((messagesOf p module f messages).map Message.key).Nodup := by
  have hkeys : (messagesOf p module f messages).map Message.key =
      (clients.zipIdx.map Prod.snd).map fun k => (f.origin, p, module, k) := by
    rw [← h]
    simp [messagesOf, Message.key]
  rw [hkeys, List.zipIdx_map_snd]
  refine List.Nodup.map (fun k k' hk => ?_) List.nodup_range'
  simpa using hk

namespace NetInv

variable {s : Net P}

lemma initial (engine : P → Engine) : NetInv ipc (Net.initial engine) where
  sentOnce := ⟨by simp [Net.initial], by simp [Net.initial], by simp [Net.initial]⟩
  firing := by simp [Net.initial]
  origins := by simp [Net.initial]

/-- What the engines are and which messages are on their way does not matter. -/
lemma frame (h : NetInv ipc s) (engine : P → Engine) (inFlight : List (Message P)) :
    NetInv ipc { s with engine := engine, inFlight := inFlight } where
  sentOnce := ⟨h.sentOnce.not_received, h.sentOnce.process_eq, h.sentOnce.once⟩
  firing := h.firing
  origins := h.origins

variable [DecidableEq P]

/-- The calls of one process may be replaced by calls that are as they should be. -/
lemma update_calls (h : NetInv ipc s) (p : P) {calls : List Firing}
    (hfiring : ∀ f ∈ calls, FiringInv ipc s.raised s.sent p f)
    (horigins : calls.Pairwise fun f g =>
      f.received = false → g.received = false → f.origin ≠ g.origin) :
    NetInv ipc { s with calls := Function.update s.calls p calls } where
  sentOnce := ⟨h.sentOnce.not_received, h.sentOnce.process_eq, h.sentOnce.once⟩
  firing q := by
    by_cases hq : q = p
    · subst hq
      simpa using hfiring
    · simpa [Function.update_of_ne hq] using h.firing q
  origins q := by
    by_cases hq : q = p
    · subst hq
      simpa using horigins
    · simpa [Function.update_of_ne hq] using h.origins q

/-- A new local firing. -/
lemma fire (h : NetInv ipc s) {p : P} {id : ℤ} (honce : SubscribedOnce ipc p (s.engine p) id) :
    NetInv ipc (s.fire p id) := by
  have hraised : NetInv ipc { s with raised := s.raised ++ [(p, id)] } := by
    refine ⟨⟨h.sentOnce.not_received, fun m hm => ?_, h.sentOnce.once⟩,
      fun q f hf => (h.firing q f hf).append_raised _, h.origins⟩
    obtain ⟨id', hid'⟩ := h.sentOnce.process_eq m hm
    obtain ⟨hlt, -⟩ := List.getElem?_eq_some_iff.mp hid'
    exact ⟨id', by rw [List.getElem?_append_left hlt, hid']⟩
  refine hraised.update_calls p ?_ ?_
  · intro f hf
    rcases List.mem_cons.mp hf with rfl | hf
    · refine ⟨by simp, fun _ => ⟨id, by simp⟩, fun _ module _ data hdata hclients => ?_⟩
      refine ⟨honce module data hdata hclients, fun m hm _ horigin => ?_⟩
      obtain ⟨id', hid'⟩ := h.sentOnce.process_eq m hm
      obtain ⟨hlt, -⟩ := List.getElem?_eq_some_iff.mp hid'
      simp only at horigin
      omega
    · exact hraised.firing p f hf
  · refine List.Pairwise.cons (fun f hf _ hlocal => ?_) (h.origins p)
    obtain ⟨id', hid'⟩ := (h.firing p f hf).raised hlocal
    obtain ⟨hlt, -⟩ := List.getElem?_eq_some_iff.mp hid'
    simp only
    omega

/-- The innermost call returns. -/
lemma pop (h : NetInv ipc s) {p : P} {f : Firing} {calls : List Firing}
    (hcalls : s.calls p = f :: calls) :
    NetInv ipc { s with calls := Function.update s.calls p calls } := by
  have hfiring := h.firing p
  have horigins := h.origins p
  rw [hcalls] at hfiring horigins
  exact h.update_calls p (fun f hf => hfiring f (List.mem_cons_of_mem _ hf))
    (List.pairwise_cons.mp horigins).2

/-- The innermost call goes on to the next module. -/
lemma advance (h : NetInv ipc s) {p : P} {id : ℤ} {module : ModuleObject}
    {chain : List ModuleObject} {received : Bool} {origin : ℕ} {calls : List Firing}
    (hcalls : s.calls p = ⟨id, module :: chain, received, origin⟩ :: calls) :
    NetInv ipc { s with
      calls := Function.update s.calls p (⟨id, chain, received, origin⟩ :: calls) } := by
  have hfiring := h.firing p
  have horigins := h.origins p
  rw [hcalls] at hfiring horigins
  refine h.update_calls p ?_ (List.pairwise_cons.mpr (List.pairwise_cons.mp horigins))
  intro f hf
  rcases List.mem_cons.mp hf with rfl | hf
  · exact (hfiring _ List.mem_cons_self).tail
  · exact hfiring f (List.mem_cons_of_mem _ hf)

/-- **The messages for the clients of the next module.**

**Proof sketch.** If there are any, the call is for a local firing. Nothing has been sent for it by
this module, and the module does not come again in the chain. The other calls are for other local
firings. -/
lemma send (h : NetInv ipc s) {p : P} {id : ℤ} {module : ModuleObject} {chain : List ModuleObject}
    {received : Bool} {origin : ℕ} {calls : List Firing} {data : IpcData}
    {messages : List ((String × ℕ) × List UInt8)}
    (hcalls : s.calls p = ⟨id, module :: chain, received, origin⟩ :: calls)
    (hdata : ipc p module = some data)
    (hmessages : messages.map Prod.fst = data.clients.zipIdx) :
    NetInv ipc { s with
      calls := Function.update s.calls p (⟨id, chain, received, origin⟩ :: calls)
      sent := s.sent ++ messagesOf p module ⟨id, chain, received, origin⟩ messages } := by
  have hadvance := h.advance hcalls
  have hhead := h.firing p _ (hcalls ▸ List.mem_cons_self)
  have horigins := h.origins p
  rw [hcalls, List.pairwise_cons] at horigins
  by_cases hclients : data.clients = []
  · obtain rfl : messages = [] := by simpa [hclients] using hmessages
    simpa [messagesOf] using hadvance
  have hlocal : received = false := by
    by_contra hreceived
    exact hclients (hhead.forwards (by simpa using hreceived) module List.mem_cons_self data hdata)
  subst hlocal
  obtain ⟨id', hid'⟩ := hhead.raised rfl
  obtain ⟨hcount, hnone⟩ := hhead.once rfl module List.mem_cons_self data hdata hclients
  have hnot : module ∉ chain := by
    rw [List.count_cons_self] at hcount
    exact List.count_eq_zero.mp (by omega)
  refine ⟨⟨fun m hm => ?_, fun m hm => ?_, ?_⟩, fun q f hf => ?_, hadvance.origins⟩
  · rcases List.mem_append.mp hm with hold | hnew
    · exact h.sentOnce.not_received m hold
    · exact (mem_messagesOf hnew).received
  · rcases List.mem_append.mp hm with hold | hnew
    · exact h.sentOnce.process_eq m hold
    · rw [(mem_messagesOf hnew).origin, (mem_messagesOf hnew).process]
      exact ⟨id', hid'⟩
  · rw [List.map_append, List.nodup_append]
    refine ⟨h.sentOnce.once, nodup_messagesOf hmessages, ?_⟩
    intro k hk k' hk' heq
    obtain ⟨m, hm, rfl⟩ := List.mem_map.mp hk
    obtain ⟨m', hm', rfl⟩ := List.mem_map.mp hk'
    obtain ⟨horigin, hprocess, hmodule, -⟩ : m.origin = m'.origin ∧ m.process = m'.process ∧
        m.module = m'.module ∧ m.client = m'.client := by simpa [Message.key] using heq
    exact hnone m hm (hprocess.trans (mem_messagesOf hm').process)
      (horigin.trans (mem_messagesOf hm').origin) (hmodule.trans (mem_messagesOf hm').module)
  · refine (hadvance.firing q f hf).append_sent fun hf' module' hmem m hm hprocess horigin => ?_
    obtain rfl : p = q := (mem_messagesOf hm).process.symm.trans hprocess
    rw [(mem_messagesOf hm).module]
    rcases List.mem_cons.mp (by simpa using hf) with rfl | hcall
    · rintro rfl
      exact hnot hmem
    · exact absurd ((mem_messagesOf hm).origin.symm.trans horigin)
        (horigins.1 f hcall rfl hf')

end NetInv

/-- **What `run` does**: nothing, or it takes a message and fires the event of the name it reads, or
takes one and fires nothing. -/
lemma netStep_run_cases [DecidableEq P] {s s' : Net P} {p : P} {module : ModuleObject} {n : ℕ}
    {prior : RecvBuffer} (h : netStep ipc s (.run p module n prior) = .ok s') :
    s' = s ∨
    s' = { s with inFlight := s.inFlight.eraseIdx n } ∨
    ∃ message eventName id e, s.calls p = [] ∧ s.inFlight[n]? = some message ∧
      (zmqRecv prior message.bytes).cString = .ok eventName ∧
      assignEventId (s.engine p) eventName = (id, e) ∧
      s' = { s with
        engine := Function.update s.engine p e
        calls := Function.update s.calls p [⟨id, e.chain id, true, message.origin⟩]
        inFlight := s.inFlight.eraseIdx n } := by
  rw [netStep] at h
  split at h
  · rename_i data message hdata hcalls hmessage
    split_ifs at h with haddress
    · obtain ⟨⟨id, e⟩, hrun, hok⟩ := Fallible.bind_eq_ok.mp h
      rcases ipcRun_cases hrun with ⟨rfl, rfl⟩ | ⟨bytes, eventName, id', hbytes, rfl, hread, hreg⟩
      · obtain rfl := Except.ok.inj hok
        exact Or.inr (Or.inl (by simp))
      · obtain rfl := Except.ok.inj hok
        obtain rfl := Option.some.inj hbytes
        exact Or.inr (Or.inr ⟨message, eventName, id', e, hcalls, hmessage, hread, hreg, rfl⟩)
    · exact Or.inl (Except.ok.inj h).symm
  · exact Or.inl (Except.ok.inj h).symm

/-- **What one step preserves.** -/
theorem NetInv.step [DecidableEq P] {s s' : Net P} (h : NetInv ipc s) (i : NetInput P)
    (hguard : NetGuard ipc s i) (hstep : netStep ipc s i = .ok s') : NetInv ipc s' := by
  cases i with
  | raise p id =>
    obtain rfl := Except.ok.inj hstep
    exact h.fire hguard
  | call p =>
    rw [netStep] at hstep
    cases hcalls : s.calls p with
    | nil =>
      rw [hcalls] at hstep
      obtain rfl := Except.ok.inj hstep
      exact h
    | cons f calls =>
      obtain ⟨id, chain, received, origin⟩ := f
      rw [hcalls] at hstep
      cases chain with
      | nil =>
        obtain rfl := Except.ok.inj hstep
        exact h.pop hcalls
      | cons module chain =>
        cases hdata : ipc p module with
        | none =>
          simp only [hdata] at hstep
          obtain rfl := Except.ok.inj hstep
          exact h.advance hcalls
        | some data =>
          simp only [hdata] at hstep
          obtain ⟨messages, hsend, hok⟩ := Fallible.bind_eq_ok.mp hstep
          obtain rfl := Except.ok.inj hok
          have hown : SubscribedOnce ipc p (s.engine p) data.ipcEventId :=
            hguard _ calls hcalls module data rfl hdata
          have hsent := h.send hcalls hdata (ipcSend_map_fst hsend)
          exact (hsent.frame s.engine _).fire hown
  | run p module n prior =>
    rcases netStep_run_cases hstep with rfl | rfl | ⟨message, eventName, id, e, hcalls, hmessage,
      hread, hreg, rfl⟩
    · exact h
    · exact h.frame _ _
    · have hforwards := hguard message eventName hmessage hread
      have hchain : e.chain id = (s.engine p).chain (assignEventId (s.engine p) eventName).1 := by
        have hchains := eventChains_assignEventId (s.engine p) eventName
        rw [hreg] at hchains ⊢
        exact Engine.chain_congr hchains id
      refine (h.update_calls p ?_ (List.pairwise_singleton _ _)).frame _ _
      intro f hf
      obtain rfl := List.mem_singleton.mp hf
      exact ⟨fun _ => hchain ▸ hforwards, by simp, by simp⟩

/-- **No step subscribes a module to an event.** -/
lemma eventChains_netStep [DecidableEq P] {s s' : Net P} {i : NetInput P}
    (h : netStep ipc s i = .ok s') (p : P) :
    (s'.engine p).eventChains = (s.engine p).eventChains := by
  cases i with
  | raise q id =>
    obtain rfl := Except.ok.inj h
    rfl
  | call q =>
    rw [netStep] at h
    split at h
    · obtain rfl := Except.ok.inj h
      rfl
    · split at h
      · obtain rfl := Except.ok.inj h
        rfl
      · dsimp only at h
        split at h
        · obtain rfl := Except.ok.inj h
          rfl
        · obtain ⟨messages, -, hok⟩ := Fallible.bind_eq_ok.mp h
          obtain rfl := Except.ok.inj hok
          rfl
  | run q module n prior =>
    rcases netStep_run_cases h with rfl | rfl | ⟨message, eventName, id, e, -, -, -, hreg, rfl⟩
    · rfl
    · rfl
    · have hchains := eventChains_assignEventId (s.engine q) eventName
      rw [hreg] at hchains
      by_cases hp : p = q
      · subst hp
        simpa using hchains
      · simp [Function.update_of_ne hp]

/-- The chains are the same before every step of a run. -/
lemma chain_of_performs [DecidableEq P] {s t t' : Net P} {as : List (NetInput P)} {i : NetInput P}
    (h : Run.Performs (netStep ipc) s as t i t') (p : P) (id : ℤ) :
    (t.engine p).chain id = (s.engine p).chain id := by
  have hstep : ∀ u j u', (u.engine p).eventChains = (s.engine p).eventChains →
      netStep ipc u j = .ok u' → (u'.engine p).eventChains = (s.engine p).eventChains :=
    fun u j u' hu hj => (eventChains_netStep hj p).trans hu
  exact Engine.chain_congr (h.invariant hstep rfl) id

end Model

/-! ## Two processes -/

/-- Two processes whose `ipc` modules are clients of each other. -/
def mutualIpc (p : Bool) (module : ModuleObject) : Option IpcData :=
  let address := fun p : Bool => if p then "tcp://127.0.0.1:9001" else "tcp://127.0.0.1:9000"
  if module = ipcModule then some ⟨0, address p, [address !p]⟩ else none

/-- The globals of a process whose `ipc` module is triggered by `TRIP`. -/
def tripEngine : Engine := ipcEngine [⟨1, "TRIP"⟩, ⟨0, "ipc_IPC_EVENT"⟩] ⟨1, by decide⟩

/-- The first process raises `TRIP`, sends it and raises the event of its `ipc` module, and the
second process receives it. -/
def tripRun : List (NetInput Bool) :=
  [.raise false 1, .call false, .call false, .call false,
    .run true ipcModule 0 (.holding ⟨[], by decide⟩)]

/-- The message that the first process sends. -/
def tripMessage : Message Bool :=
  ⟨false, ipcModule, 0, "tcp://127.0.0.1:9001", toBytes "TRIP", false, 0⟩

/-- What the second process sends, if it is subscribed to the event, too. -/
def echoMessage : Message Bool :=
  ⟨true, ipcModule, 0, "tcp://127.0.0.1:9000", toBytes "TRIP", true, 0⟩

/-- Nobody is subscribed to anything in an engine that has not loaded a module. -/
lemma chain_initial (id : ℤ) : Engine.initial.chain id = [] := by
  simp [Engine.chain, Engine.initial]

/-- The second process has loaded no module that is triggered by an event. -/
def oneTripEngine (p : Bool) : Engine := if p then Engine.initial else tripEngine

end Tmee
