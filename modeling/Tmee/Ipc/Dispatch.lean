import Mathlib.Data.Set.Finite.Range
import Tmee.Engine.LoadOrder
import Tmee.Lib.Dispatch
import Tmee.Si.Event

set_option relaxedAutoImplicit false
set_option autoImplicit false

/-!
# Dispatch through the modules

`run_callback_func` calls the `event` functions of the modules subscribed to an event, and two kinds
of modules call `run_callback_func` again from there: `ipc` raises its own event at every call,
and `si` raises its event when it trips, which it does once. What the other modules do in
`event`, and what these two do besides, raises nothing.

## Main definitions

* `Tmee.ModuleKind`, `Tmee.eventId` — the modules and the ids of their events.
* `Tmee.moduleEvent`, `Tmee.runCallbackDepth` — dispatch with a bound on the depth of calls.
* `Tmee.CallbackReturns` — a call of `run_callback_func` returns.
* `Tmee.Engine.chain` — the modules `run_callback_func` calls for an id.
* `Tmee.TriggersIpc` — an event triggers an `ipc` module whose own event is the other one.

## Main results

* `Tmee.eventId_of_register` — the id a module got in `pre_init` stays the id of its event.
* `Tmee.siStep_raises_once` — `si` raises its event at most once.
* `Tmee.runCallbackDepth_eq` — dispatch through the modules is an instance of nested dispatch.
* `Tmee.callback_returns_iff` — when every call of `run_callback_func` returns.
-/

namespace Tmee

open Relation

/-! ## The modules -/

/-- The modules by what their `event` function raises. -/
inductive ModuleKind
  | ipc | si | other
  deriving DecidableEq, Repr

/-- The event of an `ipc` module. -/
def ipcEventName (module : ModuleObject) : String := s!"{module.configId}_IPC_EVENT"

/-- The event of an `si` module. -/
def tripEventName (module : ModuleObject) : String := s!"{module.configId}_TRIP_VALUE_CHANGE"

/-- The id that a name has got from `register_event_id`, `-1` if there was no room for it. -/
def eventId (e : Engine) (eventName : String) : ℤ :=
  ((e.eventIds.find? fun entry => entry.name = eventName).map EventTable.id).getD (-1)

/-! ## Dispatch -/

/-- Code that may not return: the state tells which `si` modules have tripped, and how many times a
trip decision has been made. -/
abbrev DispatchM := StateT (Dispatch.State ModuleObject) Option

section Model

variable (kind : ModuleObject → ModuleKind) (e : Engine) (oracle : ℕ → Bool)

/-- The `event` function of a module, as far as it raises events; `call` is `run_callback_func`.
Whether an `si` module that has not tripped finds its trip condition met is up to the oracle. -/
def moduleEvent (call : ℤ → DispatchM ℤ) (module : ModuleObject) (_eventId : ℤ) : DispatchM ℤ :=
  match kind module with
  | .ipc => do
    let _ ← call (eventId e (ipcEventName module))
    return 0
  | .si => do
    let s ← get
    if module ∈ s.fired then return 0
    else if oracle s.asked then
      set (⟨module :: s.fired, s.asked + 1⟩ : Dispatch.State ModuleObject)
      let _ ← call (eventId e (tripEventName module))
      return 0
    else
      set (⟨s.fired, s.asked + 1⟩ : Dispatch.State ModuleObject)
      return 0
  | .other => return 0

/-- `run_callback_func` with calls nested at most `depth` deep. -/
def runCallbackDepth : ℕ → ℤ → DispatchM ℤ
  | 0, _ => fun _ => none
  | depth + 1, id =>
    match runCallbackFunc e (moduleEvent kind e oracle (runCallbackDepth depth)) id with
    | .ok act => act
    | .error _ => fun _ => none

/-- The call of `run_callback_func` returns. -/
def CallbackReturns (id : ℤ) (s : Dispatch.State ModuleObject) : Prop :=
  ∃ depth r, runCallbackDepth kind e oracle depth id s = some r

end Model

lemma toNat_lt_of_inArray {id : ℤ} (h : 0 ≤ id ∧ id.toNat < maxEventIds) : id.toNat < maxEventIds :=
  h.2

/-- The modules subscribed to an id; outside the array there are none. -/
def Engine.chain (e : Engine) (id : ℤ) : List ModuleObject :=
  if h : 0 ≤ id ∧ id.toNat < maxEventIds then e.eventChains ⟨id.toNat, toNat_lt_of_inArray h⟩
  else []

@[simp] lemma Engine.chain_natCast (e : Engine) (i : Fin maxEventIds) :
    e.chain ((i : ℕ) : ℤ) = e.eventChains i := by
  simp [Engine.chain]

lemma Engine.chain_of_not {id : ℤ} (e : Engine) (hid : ¬ (0 ≤ id ∧ id.toNat < maxEventIds)) :
    e.chain id = [] :=
  dif_neg hid

section Model

variable (kind : ModuleObject → ModuleKind) (e : Engine)

/-- The same as a system of events and handlers. -/
def dispatchSystem : Dispatch.System ℤ ModuleObject where
  chain := e.chain
  handler module :=
    match kind module with
    | .ipc => .always (eventId e (ipcEventName module))
    | .si => .once (eventId e (tripEventName module))
    | .other => .silent

end Model

section Once

variable {R : Type} [Field R] [LinearOrder R] {libm : Libm R} {clock : ℕ → ℤ} {s s' : Si R}

/-- **An `si` module raises its event at most once**: only a step of an untripped module does, and
the module has tripped then. -/
theorem siStep_raises_once {i : SiInput} (h : siStep libm clock s i = .ok s') :
    (s'.trip = s.trip ∧ s'.raised = s.raised) ∨
      (s.trip = false ∧ s'.trip = true ∧ s'.raised = s.raised + 1) := by
  cases i with
  | input buffer =>
    rw [← Except.ok.inj h]
    exact Or.inl ⟨rfl, rfl⟩
  | event =>
    obtain ⟨input, index, rfl⟩ := Si.event_eq h
    exact Or.inl ⟨rfl, rfl⟩
  | iteration =>
    rcases Si.iterate_cases h with ⟨-, rfl⟩ | ⟨index, -, -, rfl⟩ |
      ⟨index, currentRms, p, r, -, -, htrip, hobserve, hrecord, hadvance⟩
    · exact Or.inl ⟨rfl, rfl⟩
    · exact Or.inl ⟨rfl, rfl⟩
    · obtain ⟨oldIndex, input, rfl⟩ := Si.advance_eq hadvance
      have hp : p.trip = s.trip ∧ p.raised = s.raised := by
        obtain ⟨input', rfl | ⟨-, rfl⟩⟩ := Si.observe_cases hobserve <;> exact ⟨rfl, rfl⟩
      rcases Si.record_cases hrecord with ⟨-, rfl⟩ | ⟨-, averageCurrent, q, haccumulate, hcheck⟩
      · exact Or.inl hp
      · obtain ⟨total, sampleCount, -, -, -, rfl⟩ := Si.accumulate_eq haccumulate
        rcases Si.checkTrip_cases hcheck with ⟨-, rfl⟩ | ⟨startTime, -, -, ⟨-, rfl⟩ |
          ⟨-, r', output, -, rfl⟩⟩
        · exact Or.inl hp
        · exact Or.inl hp
        · exact Or.inr ⟨htrip, rfl, by simp [hp.2]⟩

end Once

section Refinement

variable {kind : ModuleObject → ModuleKind} {e : Engine} {oracle : ℕ → Bool}
  {call : ℤ → DispatchM ℤ} {call' : ℤ → Dispatch.State ModuleObject →
    Option (Dispatch.State ModuleObject)}

/-- A call followed by `return 0` leaves the state of the call. -/
lemma map_snd_call (id : ℤ) (s : Dispatch.State ModuleObject) :
    ((do let _ ← call id; return 0 : DispatchM ℤ) s).map Prod.snd = (call id s).map Prod.snd := by
  show ((call id s).bind fun r => some ((0 : ℤ), r.2)).map Prod.snd = _
  cases call id s <;> rfl

/-- The handlers of the system do what the `event` functions do. -/
lemma moduleEvent_eq (h : ∀ id s, (call id s).map Prod.snd = call' id s) (module : ModuleObject)
    (id : ℤ) (s : Dispatch.State ModuleObject) :
    (moduleEvent kind e oracle call module id s).map Prod.snd =
      Dispatch.handle (dispatchSystem kind e) oracle call' module s := by
  cases hkind : kind module with
  | ipc =>
    simp only [moduleEvent, Dispatch.handle, dispatchSystem, hkind]
    rw [map_snd_call, h]
  | si =>
    simp only [moduleEvent, Dispatch.handle, dispatchSystem, hkind]
    by_cases hfired : module ∈ s.fired
    · simp only [if_pos hfired]
      show ((if module ∈ s.fired then _ else _ : DispatchM ℤ) s).map Prod.snd = _
      rw [if_pos hfired]
      rfl
    · simp only [if_neg hfired]
      show ((if module ∈ s.fired then _ else _ : DispatchM ℤ) s).map Prod.snd = _
      rw [if_neg hfired]
      by_cases hask : oracle s.asked = true
      · rw [if_pos hask, if_pos hask, ← h]
        exact map_snd_call _ _
      · rw [if_neg hask, if_neg hask]
        rfl
  | other =>
    simp only [moduleEvent, Dispatch.handle, dispatchSystem, hkind]
    rfl

/-- So do the chains. -/
lemma callChain_eq (h : ∀ id s, (call id s).map Prod.snd = call' id s) (id : ℤ)
    (chain : List ModuleObject) (s : Dispatch.State ModuleObject) :
    (callChain (moduleEvent kind e oracle call) id chain s).map Prod.snd =
      Dispatch.handleAll (dispatchSystem kind e) oracle call' chain s := by
  induction chain generalizing s with
  | nil => rfl
  | cons module chain ih =>
    have hmodule : (moduleEvent kind e oracle call module id s).map Prod.snd =
        Dispatch.handle (dispatchSystem kind e) oracle call' module s :=
      moduleEvent_eq h module id s
    show ((moduleEvent kind e oracle call module id s).bind fun r =>
      callChain (moduleEvent kind e oracle call) id chain r.2).map Prod.snd = _
    rw [Dispatch.handleAll, ← hmodule]
    cases moduleEvent kind e oracle call module id s with
    | none => rfl
    | some r => exact ih r.2

/-- **Dispatch through the modules is nested dispatch** at every depth. -/
lemma runCallbackDepth_eq (depth : ℕ) (id : ℤ) (s : Dispatch.State ModuleObject) :
    (runCallbackDepth kind e oracle depth id s).map Prod.snd =
      Dispatch.run (dispatchSystem kind e) oracle depth id s := by
  induction depth generalizing id s with
  | zero => rfl
  | succ depth ih =>
    rw [runCallbackDepth, Dispatch.run]
    by_cases hid : 0 ≤ id ∧ id.toNat < maxEventIds
    · obtain ⟨i, hi⟩ : ∃ i : Fin maxEventIds, id = ((i : ℕ) : ℤ) :=
        ⟨⟨id.toNat, hid.2⟩, (Int.toNat_of_nonneg hid.1).symm⟩
      have hchain : (dispatchSystem kind e).chain id = e.eventChains i := by
        subst hi
        exact e.chain_natCast i
      subst hi
      rw [runCallbackFunc_natCast, hchain, ← callChain_eq ih i]
      set act : DispatchM Unit := callChain (moduleEvent kind e oracle
        (runCallbackDepth kind e oracle depth)) i (e.eventChains i)
      show ((act s).bind fun r => some ((0 : ℤ), r.2)).map Prod.snd = _
      cases act s <;> rfl
    · have hout : id ≥ maxEventIds ∨ id < 0 := by omega
      have hchain : (dispatchSystem kind e).chain id = [] := e.chain_of_not hid
      rw [runCallbackFunc, if_pos hout, hchain]
      rfl

/-- A call returns exactly if nested dispatch does. -/
lemma callbackReturns_iff (id : ℤ) (s : Dispatch.State ModuleObject) :
    CallbackReturns kind e oracle id s ↔ Dispatch.Returns (dispatchSystem kind e) oracle id s := by
  simp only [CallbackReturns, Dispatch.Returns, ← runCallbackDepth_eq, Option.map_eq_some_iff]
  constructor
  · rintro ⟨depth, r, hr⟩
    exact ⟨depth, r.2, r, hr, rfl⟩
  · rintro ⟨depth, -, r, hr, -⟩
    exact ⟨depth, r, hr⟩

end Refinement

/-! ## The ids of the events -/

section Ids

variable {e : Engine} {names : List String} {name : String}

/-- A numbered name has its number as its id. -/
lemma eventId_of_getElem? (h : e.Numbers names) {i : ℕ} (hi : names[i]? = some name) :
    eventId e name = i := by
  rw [eventId, h.find?_name hi]
  rfl

lemma eventId_of_not_mem (h : e.Numbers names) (hname : name ∉ names) : eventId e name = -1 := by
  rw [eventId, h.find?_name_eq_none hname]
  rfl

/-- **The id a module got in `pre_init`** is the id of its event after loading. -/
theorem eventId_of_register {pre as : List LoadAction} {e₀ : Engine}
    (hpre : pre ++ [.register name] <+: as)
    (he₀ : Run.exec actionStep Engine.initial pre = .ok e₀)
    (he : Run.exec actionStep Engine.initial as = .ok e) :
    (assignEventId e₀ name).1 = eventId e name := by
  obtain ⟨rest, rfl⟩ := hpre
  have hinv₀ := loadInv_of_exec he₀
  have hinv := loadInv_of_exec he
  have hnames : namesOf (pre ++ [.register name] ++ rest) =
      namesOf pre ++ [name] ++ namesOf rest := by
    rw [namesOf_append, namesOf_concat_register]
  have hnum := hinv.numbers
  rw [hnames] at hnum
  obtain ⟨id, e₁, hreg, -, -, -, ⟨rfl, -, hfull⟩ | ⟨k, rfl, hk⟩⟩ :=
    assignEventId_spec hinv₀.numbers name
  · rw [hreg]
    refine (eventId_of_not_mem hnum ?_).symm
    rwa [FirstSeen.mem_table_append_iff (by simp)]
  · rw [hreg]
    exact (eventId_of_getElem? hnum (FirstSeen.getElem?_table_append hk _)).symm

end Ids

/-! ## Cycles of events -/

/-- The event `name` triggers an `ipc` module whose own event is `name'`. -/
def TriggersIpc (env : Environment) (cfg : Cfg) (n : ℕ) (kind : ModuleObject → ModuleKind)
    (name name' : String) : Prop :=
  ∃ i < n, ∃ module, Configured env cfg i module ∧ kind module = .ipc ∧ name ∈ triggers cfg i ∧
    name' = ipcEventName module

section Cycles

variable {env : Environment} {cfg : Cfg} {n : ℕ} {kind : ModuleObject → ModuleKind} {e : Engine}

/-- The handlers that always raise an event are those of `ipc` modules. -/
lemma raises_iff {id id' : ℤ} : Dispatch.Raises (dispatchSystem kind e) id id' ↔
    ∃ k : Fin maxEventIds, id = ((k : ℕ) : ℤ) ∧ ∃ module ∈ e.eventChains k,
      kind module = .ipc ∧ id' = eventId e (ipcEventName module) := by
  constructor
  · rintro ⟨module, hmem, hhandler⟩
    simp only [dispatchSystem] at hmem hhandler
    by_cases hid : 0 ≤ id ∧ id.toNat < maxEventIds
    · rw [Engine.chain, dif_pos hid] at hmem
      refine ⟨⟨id.toNat, hid.2⟩, (Int.toNat_of_nonneg hid.1).symm, module, hmem, ?_⟩
      cases hkind : kind module with
      | ipc =>
        simp only [hkind, Dispatch.Handler.always.injEq] at hhandler
        exact ⟨rfl, hhandler.symm⟩
      | si => simp [hkind] at hhandler
      | other => simp [hkind] at hhandler
    · rw [e.chain_of_not hid] at hmem
      cases hmem
  · rintro ⟨k, rfl, module, hmem, hkind, rfl⟩
    exact ⟨module, by simpa [dispatchSystem] using hmem, by simp [dispatchSystem, hkind]⟩

/-- A trigger of an `ipc` module makes one event raise the other. -/
lemma raises_of_triggersIpc (hinv : LoadInv (actions env cfg n) e) {name name' : String}
    (h : TriggersIpc env cfg n kind name name') :
    Dispatch.Raises (dispatchSystem kind e) (eventId e name) (eventId e name') := by
  obtain ⟨i, hi, module, hconf, hkind, hname, rfl⟩ := h
  have htrigger : LoadAction.trigger name module ∈ actions env cfg n :=
    mem_actions_trigger.mpr ⟨i, hi, acceptedModule_eq_some_iff.mpr hconf, hname⟩
  obtain ⟨k, hk⟩ := List.mem_iff_getElem?.mp (hinv.stored name module htrigger)
  obtain ⟨hlt, -⟩ := List.getElem?_eq_some_iff.mp hk
  have hmax : k < maxEventIds := hlt.trans_le (FirstSeen.length_table_le _ _)
  rw [raises_iff, eventId_of_getElem? hinv.numbers hk]
  refine ⟨⟨k, hmax⟩, rfl, module, ?_, hkind, rfl⟩
  rw [hinv.chain_of_name ⟨k, hmax⟩ name hk]
  exact mem_subscriptionsTo.mpr htrigger

/-- If one event raises another that raises one in its turn, both have names, and the first triggers
an `ipc` module of the other. -/
lemma triggersIpc_of_raises (hinv : LoadInv (actions env cfg n) e) {id id' : ℤ}
    (h : Dispatch.Raises (dispatchSystem kind e) id id')
    (h' : ∃ id'', Dispatch.Raises (dispatchSystem kind e) id' id'') :
    TriggersIpc env cfg n kind ((findEventName e id).getD "") ((findEventName e id').getD "") := by
  obtain ⟨k, rfl, module, hmem, hkind, hid'⟩ := raises_iff.mp h
  obtain ⟨id'', hraises⟩ := h'
  obtain ⟨k', hk', -⟩ := raises_iff.mp hraises
  cases hget : (FirstSeen.table maxEventIds (namesOf (actions env cfg n)))[(k : ℕ)]? with
  | none =>
    rw [hinv.chain_of_free k hget] at hmem
    cases hmem
  | some name =>
    rw [hinv.chain_of_name k name hget, mem_subscriptionsTo] at hmem
    obtain ⟨i, hi, haccepted, hname⟩ := mem_actions_trigger.mp hmem
    have hown : (FirstSeen.table maxEventIds (namesOf (actions env cfg n)))[(k' : ℕ)]? =
        some (ipcEventName module) := by
      by_cases hstored : ipcEventName module ∈
          FirstSeen.table maxEventIds (namesOf (actions env cfg n))
      · obtain ⟨j, hj⟩ := List.mem_iff_getElem?.mp hstored
        have hjk := eventId_of_getElem? hinv.numbers hj
        obtain rfl : j = k' := by omega
        exact hj
      · have hneg := eventId_of_not_mem hinv.numbers hstored
        omega
    rw [hk', findEventName_of_numbers hinv.numbers, findEventName_of_numbers hinv.numbers, hget,
      hown]
    exact ⟨i, hi, module, acceptedModule_eq_some_iff.mp haccepted, hkind, hname, rfl⟩

end Cycles

/-- A configuration of one `ipc` module with the trigger `eventName`. -/
def oneIpcModule (eventName : String) : Cfg :=
  [⟨"interval", "0"⟩, ⟨"interval_type", "\"busy_wait\""⟩, ⟨"test_filename", "\"test.log\""⟩,
    ⟨"logfile", "\"main.log\""⟩, ⟨"module_count", "1"⟩, ⟨"module0_file", "\"ipc.so\""⟩,
    ⟨"module0_id", "\"ipc\""⟩, ⟨"module0_config", "\"ipc.ini\""⟩,
    ⟨"module0_event_trigger_id1", "\"" ++ eventName ++ "\""⟩]

/-- The library loads, and `pre_init` registers the event of the module. -/
def ipcOnly : Environment where
  dlopen := fun _ _ => some 1
  dlsym := fun _ _ => true
  preInit := fun module => ⟨[ipcEventName module], 1000, 0⟩

/-- The `ipc` module that is loaded. -/
def ipcModule : ModuleObject := ⟨0, 1, "ipc", "ipc.ini", 1000, 0⟩

/-- The globals with the module subscribed to the event `k` of the table `names`. -/
def ipcEngine (names : List EventTable) (k : Fin maxEventIds) : Engine :=
  Engine.appendToChain ⟨names, fun _ => [], [ipcModule]⟩ k ipcModule

end Tmee
