import Tmee.Engine.Events
import Tmee.Lib.Fallible
import Tmee.Lib.Run

set_option relaxedAutoImplicit false
set_option autoImplicit false

/-!
# Histories of registrations and subscriptions

The event table and the chains after any interleaving of `register_event_id` and
`subscribe_event_id`, where modules subscribe to ids that a registration has returned. A name whose
terminator falls behind its block ends the run: what the table says from there on depends on what
the allocator puts there.

## Main definitions

* `Tmee.Call`, `Tmee.History` — the calls made with what they returned, and the engine.
* `Tmee.EventInput`, `Tmee.callStep` — the calls to be made, and what each does.
* `Tmee.SubscribesReturned` — subscriptions use ids that were returned.
* `Tmee.EventLaw` — what ties names, ids, chains and subscribers together.

## Main results

* `Tmee.exec_callStep_isOk_iff` — when a sequence of calls goes through.
* `Tmee.eventLaw_iff` — when the law holds after a sequence of calls.
-/

namespace Tmee

/-- A call with the value it returned, where that matters later. -/
inductive Call
  | register (eventName : String) (returned : ℤ)
  | subscribe (eventId : ℤ) (module : ModuleObject)
  deriving DecidableEq, Repr

/-- A call to be made. -/
inductive EventInput
  | register (eventName : String)
  | subscribe (eventId : ℤ) (module : ModuleObject)
  deriving DecidableEq, Repr

/-- The calls made so far, and the engine they led to. -/
structure History where
  calls : List Call
  engine : Engine
  deriving DecidableEq

/-- No call has been made. -/
def History.start : History := ⟨[], Engine.initial⟩

/-- Make a call and take it down. -/
def callStep (malloc : Malloc) (s : History) : EventInput → Except Fault History
  | .register eventName => do
    let (id, e) ← registerEventId malloc s.engine eventName
    .ok ⟨s.calls ++ [.register eventName id], e⟩
  | .subscribe eventId module => do
    let (_, e) ← subscribeEventId s.engine eventId module
    .ok ⟨s.calls ++ [.subscribe eventId module], e⟩

/-- A subscription is made with an id that was returned before, and not with the error value. -/
def History.Allows (s : History) : EventInput → Prop
  | .register _ => True
  | .subscribe eventId _ => eventId ≠ -1 ∧ ∃ name, Call.register name eventId ∈ s.calls

/-- All subscriptions are made with ids that were returned before. -/
def SubscribesReturned (malloc : Malloc) : History → List EventInput → Prop
  | _, [] => True
  | s, input :: inputs =>
    s.Allows input ∧ ∀ s', callStep malloc s input = .ok s' → SubscribesReturned malloc s' inputs

/-- The names to be registered, in order. -/
def namesToRegister (inputs : List EventInput) : List String :=
  inputs.filterMap fun
    | .register name => some name
    | .subscribe _ _ => none

/-- The names registered, in the order of the calls. -/
def registeredNames (h : List Call) : List String :=
  h.filterMap fun
    | .register name _ => some name
    | .subscribe _ _ => none

/-- The modules subscribed to an id, in the order of the calls. -/
def subscribersOf (h : List Call) (id : ℤ) : List ModuleObject :=
  h.filterMap fun
    | .register _ _ => none
    | .subscribe eventId module => if eventId = id then some module else none

/-- The modules subscribed under a name: with an id that registering the name returned. -/
def subscribersUnder (h : List Call) (name : String) : List ModuleObject :=
  h.filterMap fun
    | .register _ _ => none
    | .subscribe eventId module =>
      if Call.register name eventId ∈ h then some module else none

/-- The number of ids in use after a history: one for each distinct name, as far as they go. -/
def idsInUse (h : List Call) : ℕ := min maxEventIds (registeredNames h).eraseDups.length

/-- **The law of the event table** after the calls `h`. -/
structure EventLaw (malloc : Malloc) (h : List Call) (e : Engine) : Prop where
  /-- Equal names get equal ids. -/
  id_of_name : ∀ name i j, Call.register name i ∈ h → Call.register name j ∈ h → i = j
  /-- Different names get different ids. -/
  name_of_id : ∀ name name' i, Call.register name i ∈ h → Call.register name' i ∈ h → i ≠ -1 →
    name = name'
  /-- The ids returned are `0 .. n - 1`, for `n` distinct names. -/
  ids_returned : ∀ i, (i ≠ -1 ∧ ∃ name, Call.register name i ∈ h) ↔ 0 ≤ i ∧ i < idsInUse h
  /-- The ids in the table are `0 .. n - 1` too. -/
  ids_stored : ∀ i, (∃ entry ∈ e.eventIds, entry.id = i) ↔ 0 ≤ i ∧ i < idsInUse h
  /-- The name of an id is the name it was returned for. -/
  find_name : ∀ name i, Call.register name i ∈ h → i ≠ -1 → findEventName e i = some name
  /-- An id with a subscriber has a name. -/
  chain_named : ∀ i : Fin maxEventIds, e.eventChains i ≠ [] →
    ∃ name, findEventName e (i : ℕ) = some name
  /-- Subscribing to an id that was returned succeeds. -/
  subscribe_ok : ∀ name i module, Call.register name i ∈ h → i ≠ -1 →
    ∃ e', subscribeEventId e i module = .ok (0, e')
  /-- Dispatch calls the event functions of the modules subscribed under the name, once per
  subscription and in that order, each with the id. -/
  dispatch : ∀ name i, Call.register name i ∈ h → i ≠ -1 →
    ∀ (σ : Type) (event : ModuleObject → ℤ → StateM σ ℤ) (w : σ),
      ∃ act, runCallbackFunc e event i = .ok act ∧
        act.run w = (0, (subscribersUnder h name).foldl (fun w x => (event x i w).2) w)
  /-- Once the table is full a name without an id gets `-1`, and nothing changes. -/
  full : idsInUse h = maxEventIds → ∀ name, (∀ i, Call.register name i ∈ h → i = -1) →
    registerEventId malloc e name = .ok (-1, e)

/-- What the calls keep: the table is that of the names registered, every id returned is the
place of its name there, and each chain holds the subscribers to its id. -/
structure TraceInv (h : List Call) (e : Engine) : Prop where
  numbers : e.Numbers (FirstSeen.table maxEventIds (registeredNames h))
  ids : ∀ name i, Call.register name i ∈ h →
    (i = -1 ∧ name ∉ FirstSeen.table maxEventIds (registeredNames h)) ∨
      ∃ k : Fin maxEventIds, i = (k : ℕ) ∧
        (FirstSeen.table maxEventIds (registeredNames h))[(k : ℕ)]? = some name
  chains : ∀ k : Fin maxEventIds, e.eventChains k = subscribersOf h (k : ℕ)
  subscribed : ∀ i module, Call.subscribe i module ∈ h → ∃ name, Call.register name i ∈ h ∧ i ≠ -1

lemma mem_registeredNames {h : List Call} {name : String} :
    name ∈ registeredNames h ↔ ∃ i, Call.register name i ∈ h := by
  rw [registeredNames, List.mem_filterMap]
  constructor
  · rintro ⟨c, hc, hname⟩
    cases c with
    | register name' i =>
      obtain rfl : name' = name := by simpa using hname
      exact ⟨i, hc⟩
    | subscribe i module => simp at hname
  · rintro ⟨i, hi⟩
    exact ⟨_, hi, rfl⟩

lemma namesToRegister_cons (input : EventInput) (inputs : List EventInput) :
    namesToRegister (input :: inputs) = namesToRegister [input] ++ namesToRegister inputs :=
  List.filterMap_append (l := [input])

@[simp] lemma registeredNames_concat_register (h : List Call) (name : String) (i : ℤ) :
    registeredNames (h ++ [.register name i]) = registeredNames h ++ [name] := by
  simp [registeredNames]

@[simp] lemma registeredNames_concat_subscribe (h : List Call) (i : ℤ) (module : ModuleObject) :
    registeredNames (h ++ [.subscribe i module]) = registeredNames h := by
  simp [registeredNames]

@[simp] lemma subscribersOf_concat_register (h : List Call) (name : String) (i j : ℤ) :
    subscribersOf (h ++ [.register name i]) j = subscribersOf h j := by
  simp [subscribersOf]

lemma subscribersOf_concat_subscribe (h : List Call) (i j : ℤ) (module : ModuleObject) :
    subscribersOf (h ++ [.subscribe i module]) j =
      subscribersOf h j ++ if i = j then [module] else [] := by
  split_ifs with hij
  · simp [subscribersOf, hij]
  · simp [subscribersOf, hij]

lemma TraceInv.start : TraceInv [] Engine.initial where
  numbers := by simpa [registeredNames] using Engine.Numbers.initial
  ids := by simp
  chains := fun _ => rfl
  subscribed := by simp

/-- A registration keeps the invariant. -/
lemma TraceInv.register {h : List Call} {e e' : Engine} {name : String} {id : ℤ}
    (hinv : TraceInv h e) (hreg : assignEventId e name = (id, e')) :
    TraceInv (h ++ [.register name id]) e' := by
  obtain ⟨id', e'', hspec, hnum, hchains, -, hid⟩ := assignEventId_spec hinv.numbers name
  obtain ⟨rfl, rfl⟩ : id' = id ∧ e'' = e' := by
    rw [hreg] at hspec
    exact ⟨congrArg Prod.fst hspec.symm, congrArg Prod.snd hspec.symm⟩
  have hids : ∀ name' i, Call.register name' i ∈ h ++ [.register name id'] →
      (i = -1 ∧ name' ∉ FirstSeen.table maxEventIds (registeredNames h ++ [name])) ∨
        ∃ k : Fin maxEventIds, i = (k : ℕ) ∧
          (FirstSeen.table maxEventIds (registeredNames h ++ [name]))[(k : ℕ)]? = some name' := by
    intro name' i hmem
    rw [List.mem_append, List.mem_singleton] at hmem
    rcases hmem with hold | hnew
    · rcases hinv.ids name' i hold with ⟨rfl, hout⟩ | ⟨k, rfl, hk⟩
      · refine Or.inl ⟨rfl, ?_⟩
        rwa [FirstSeen.mem_table_append_iff (mem_registeredNames.mpr ⟨_, hold⟩)]
      · refine Or.inr ⟨k, rfl, ?_⟩
        exact FirstSeen.getElem?_table_append hk [name]
    · obtain ⟨rfl, rfl⟩ : name' = name ∧ i = id' := by simpa using hnew
      rcases hid with ⟨rfl, -, hout⟩ | hin
      · exact Or.inl ⟨rfl, hout⟩
      · exact Or.inr hin
  refine ⟨?_, ?_, ?_, ?_⟩
  · simpa using hnum
  · simpa using hids
  · intro k
    rw [hchains, hinv.chains k, subscribersOf_concat_register]
  · intro i module hmem
    obtain ⟨name', hname', hi⟩ := hinv.subscribed i module (by simpa using hmem)
    exact ⟨name', List.mem_append_left _ hname', hi⟩

/-- A subscription to an id that was returned keeps the invariant. -/
lemma TraceInv.subscribe {h : List Call} {e e' : Engine} {name : String} {id r : ℤ}
    {module : ModuleObject} (hinv : TraceInv h e) (hname : Call.register name id ∈ h)
    (hid : id ≠ -1) (hsub : subscribeEventId e id module = .ok (r, e')) :
    TraceInv (h ++ [.subscribe id module]) e' := by
  obtain ⟨k, rfl, -⟩ : ∃ k : Fin maxEventIds, id = (k : ℕ) ∧ _ := by
    rcases hinv.ids name id hname with ⟨hneg, -⟩ | hk
    · exact absurd hneg hid
    · exact hk
  rw [subscribeEventId_natCast] at hsub
  obtain ⟨-, rfl⟩ := Prod.mk.inj (Except.ok.inj hsub)
  refine ⟨?_, ?_, ?_, ?_⟩
  · rw [registeredNames_concat_subscribe]
    exact hinv.numbers.appendToChain k module
  · intro name' i hmem
    rw [registeredNames_concat_subscribe]
    exact hinv.ids name' i (by simpa using hmem)
  · intro j
    rw [subscribersOf_concat_subscribe]
    by_cases hjk : j = k
    · subst hjk
      rw [appendToChain_self, hinv.chains j, if_pos rfl]
    · have hne : ((k : ℕ) : ℤ) ≠ (j : ℕ) := by
        intro heq
        exact hjk (Fin.ext (Int.ofNat.inj heq).symm)
      rw [appendToChain_of_ne e hjk, hinv.chains j, if_neg hne, List.append_nil]
  · intro i module' hmem
    rw [List.mem_append, List.mem_singleton] at hmem
    rcases hmem with hold | hnew
    · obtain ⟨name', hname', hi⟩ := hinv.subscribed i module' hold
      exact ⟨name', List.mem_append_left _ hname', hi⟩
    · obtain ⟨rfl, -⟩ : i = ((k : ℕ) : ℤ) ∧ module' = module := by simpa using hnew
      exact ⟨name, List.mem_append_left _ hname, hid⟩

/-- **Step lemma**: a call that is allowed and goes through keeps the invariant. -/
lemma TraceInv.step {malloc : Malloc} {s s' : History} {input : EventInput}
    (hinv : TraceInv s.calls s.engine) (hallows : s.Allows input)
    (hstep : callStep malloc s input = .ok s') : TraceInv s'.calls s'.engine := by
  cases input with
  | register name =>
    obtain ⟨⟨id, e⟩, hreg, hs'⟩ := Fallible.bind_eq_ok.mp hstep
    obtain rfl := Except.ok.inj hs'
    exact hinv.register ((registerEventId_eq_ok_iff hinv.numbers).mp hreg).2
  | subscribe id module =>
    obtain ⟨⟨r, e⟩, hsub, hs'⟩ := Fallible.bind_eq_ok.mp hstep
    obtain rfl := Except.ok.inj hs'
    obtain ⟨hid, name, hname⟩ := hallows
    exact hinv.subscribe hname hid hsub

/-- **Run lemma**: the invariant holds after every sequence of calls that goes through. -/
lemma TraceInv.exec {malloc : Malloc} {s s' : History} {inputs : List EventInput}
    (hinv : TraceInv s.calls s.engine) (hallowed : SubscribesReturned malloc s inputs)
    (hexec : Run.exec (callStep malloc) s inputs = .ok s') : TraceInv s'.calls s'.engine := by
  induction inputs generalizing s with
  | nil => exact Except.ok.inj hexec ▸ hinv
  | cons input inputs ih =>
    obtain ⟨s₁, hstep, hrest⟩ := Run.exec_cons_eq_ok.mp hexec
    exact ih (hinv.step hallowed.1 hstep) (hallowed.2 s₁ hstep) hrest

namespace TraceInv

variable {h : List Call} {e : Engine} {name : String} {i : ℤ}

/-- An id that was returned is the place of its name in the table. -/
lemma index_of_ne (hinv : TraceInv h e) (hname : Call.register name i ∈ h) (hi : i ≠ -1) :
    ∃ k : Fin maxEventIds, i = (k : ℕ) ∧
      (FirstSeen.table maxEventIds (registeredNames h))[(k : ℕ)]? = some name := by
  rcases hinv.ids name i hname with ⟨hneg, -⟩ | hk
  · exact absurd hneg hi
  · exact hk

lemma id_of_name (hinv : TraceInv h e) {j : ℤ} (hi : Call.register name i ∈ h)
    (hj : Call.register name j ∈ h) : i = j := by
  rcases hinv.ids name i hi with ⟨rfl, hout⟩ | ⟨k, rfl, hk⟩ <;>
    rcases hinv.ids name j hj with ⟨rfl, hout'⟩ | ⟨l, rfl, hl⟩
  · rfl
  · exact absurd (List.mem_of_getElem? hl) hout
  · exact absurd (List.mem_of_getElem? hk) hout'
  · rw [hinv.numbers.index_inj hk hl]

lemma name_of_id (hinv : TraceInv h e) {name' : String} (hi : Call.register name i ∈ h)
    (hi' : Call.register name' i ∈ h) (hne : i ≠ -1) : name = name' := by
  obtain ⟨k, rfl, hk⟩ := hinv.index_of_ne hi hne
  obtain ⟨l, hkl, hl⟩ := hinv.index_of_ne hi' hne
  rw [Int.ofNat.inj hkl, hl] at hk
  exact (Option.some.inj hk).symm

lemma length_table (h : List Call) :
    (FirstSeen.table maxEventIds (registeredNames h)).length = idsInUse h :=
  List.length_take

lemma ids_returned (hinv : TraceInv h e) :
    (i ≠ -1 ∧ ∃ name, Call.register name i ∈ h) ↔ 0 ≤ i ∧ i < idsInUse h := by
  constructor
  · rintro ⟨hne, name, hname⟩
    obtain ⟨k, rfl, hk⟩ := hinv.index_of_ne hname hne
    obtain ⟨hlt, -⟩ := List.getElem?_eq_some_iff.mp hk
    rw [length_table] at hlt
    omega
  · rintro ⟨h0, hlt⟩
    obtain ⟨n, rfl⟩ := Int.eq_ofNat_of_zero_le h0
    have hn : n < (FirstSeen.table maxEventIds (registeredNames h)).length := by
      rw [length_table]
      omega
    obtain ⟨name, hn?⟩ : ∃ name,
        (FirstSeen.table maxEventIds (registeredNames h))[n]? = some name :=
      ⟨_, List.getElem?_eq_getElem hn⟩
    have hmem := List.mem_of_getElem? hn?
    obtain ⟨j, hj⟩ := mem_registeredNames.mp (FirstSeen.mem_of_mem_table hmem)
    refine ⟨by omega, name, ?_⟩
    rcases hinv.ids name j hj with ⟨-, hout⟩ | ⟨k, rfl, hk⟩
    · exact absurd hmem hout
    · rwa [hinv.numbers.index_inj hk hn?] at hj

lemma ids_stored (hinv : TraceInv h e) :
    (∃ entry ∈ e.eventIds, entry.id = i) ↔ 0 ≤ i ∧ i < idsInUse h := by
  rw [← length_table]
  constructor
  · rintro ⟨entry, hentry, rfl⟩
    obtain ⟨k, hk, hget⟩ := hinv.numbers.mem_eventIds.mp hentry
    obtain ⟨hlt, -⟩ := List.getElem?_eq_some_iff.mp hget
    omega
  · rintro ⟨h0, hlt⟩
    obtain ⟨n, rfl⟩ := Int.eq_ofNat_of_zero_le h0
    have hn : n < (FirstSeen.table maxEventIds (registeredNames h)).length := by omega
    exact ⟨⟨n, _⟩, hinv.numbers.mem_eventIds.mpr ⟨n, rfl, List.getElem?_eq_getElem hn⟩, rfl⟩

/-- The chain of an id that was returned holds the modules subscribed under its name. -/
lemma chain_eq (hinv : TraceInv h e) {k : Fin maxEventIds}
    (hname : Call.register name (k : ℕ) ∈ h) : e.eventChains k = subscribersUnder h name := by
  rw [hinv.chains k, subscribersOf, subscribersUnder]
  apply List.filterMap_congr
  intro c hc
  cases c with
  | register _ _ => rfl
  | subscribe j module =>
    obtain ⟨name', hname', hj⟩ := hinv.subscribed j module hc
    have hiff : j = (k : ℕ) ↔ Call.register name j ∈ h := by
      constructor
      · rintro rfl
        exact hname
      · intro hnamej
        exact hinv.id_of_name hnamej hname
    simp only [hiff]

/-- A chain with a subscriber belongs to an id that was returned. -/
lemma chain_named (hinv : TraceInv h e) {k : Fin maxEventIds} (hchain : e.eventChains k ≠ []) :
    ∃ name, findEventName e (k : ℕ) = some name := by
  rw [hinv.chains k] at hchain
  obtain ⟨module, hmem⟩ := List.exists_mem_of_ne_nil _ hchain
  rw [subscribersOf, List.mem_filterMap] at hmem
  obtain ⟨c, hc, hmodule⟩ := hmem
  cases c with
  | register _ _ => simp at hmodule
  | subscribe j module' =>
    obtain ⟨rfl, -⟩ : j = ((k : ℕ) : ℤ) ∧ module' = module := by simpa using hmodule
    obtain ⟨name, hname, hne⟩ := hinv.subscribed _ _ hc
    obtain ⟨l, hkl, hl⟩ := hinv.index_of_ne hname hne
    refine ⟨name, ?_⟩
    rw [findEventName_of_numbers hinv.numbers, Int.ofNat.inj hkl, hl]

end TraceInv

/-- The law holds of everything that has the invariant. -/
lemma TraceInv.eventLaw {h : List Call} {e : Engine} (hinv : TraceInv h e) (malloc : Malloc) :
    EventLaw malloc h e := by
  refine
    { id_of_name := fun _ _ _ => hinv.id_of_name
      name_of_id := fun _ _ _ => hinv.name_of_id
      ids_returned := fun _ => hinv.ids_returned
      ids_stored := fun _ => hinv.ids_stored
      find_name := ?_
      chain_named := fun _ => hinv.chain_named
      subscribe_ok := ?_
      dispatch := ?_
      full := ?_ }
  · intro name i hname hi
    obtain ⟨k, rfl, hk⟩ := hinv.index_of_ne hname hi
    rw [findEventName_of_numbers hinv.numbers, hk]
  · intro name i module hname hi
    obtain ⟨k, rfl, -⟩ := hinv.index_of_ne hname hi
    exact ⟨_, subscribeEventId_natCast e k module⟩
  · intro name i hname hi σ event w
    obtain ⟨k, rfl, -⟩ := hinv.index_of_ne hname hi
    rw [← hinv.chain_eq hname]
    exact runCallbackFunc_run e event k w
  · intro hfull name hnone
    have hlen := TraceInv.length_table h
    have hnew : name ∉ FirstSeen.table maxEventIds (registeredNames h) := by
      intro hmem
      obtain ⟨i, hi⟩ := mem_registeredNames.mp (FirstSeen.mem_of_mem_table hmem)
      obtain rfl := hnone i hi
      rcases hinv.ids name _ hi with ⟨-, hout⟩ | ⟨k, hk, -⟩
      · exact hout hmem
      · omega
    -- in a full table no block is allocated
    rw [registerEventId_eq_ok_iff hinv.numbers, FirstSeen.table_concat_of_full (by omega)]
    exact ⟨fun hmem => absurd hmem hnew, assignEventId_of_full hinv.numbers hnew (by omega)⟩

section Through

variable {malloc : Malloc} {s : History} {name : String}

/-- A registration goes through if the name is not new, has no room, or is held by its block. -/
lemma callStep_register (hinv : TraceInv s.calls s.engine) :
    (∃ s', callStep malloc s (.register name) = .ok s') ↔
      (name ∈ FirstSeen.table maxEventIds (registeredNames s.calls ++ [name]) →
        name ∉ FirstSeen.table maxEventIds (registeredNames s.calls) → malloc.Holds name) := by
  constructor
  · rintro ⟨s', hstep⟩
    obtain ⟨r, hreg, -⟩ := Fallible.bind_eq_ok.mp hstep
    exact ((registerEventId_eq_ok_iff hinv.numbers).mp hreg).1
  · intro hholds
    exact ⟨_, Fallible.bind_eq_ok.mpr
      ⟨_, (registerEventId_eq_ok_iff hinv.numbers).mpr ⟨hholds, rfl⟩, rfl⟩⟩

/-- An allowed subscription goes through. -/
lemma callStep_subscribe (hinv : TraceInv s.calls s.engine) {id : ℤ} {module : ModuleObject}
    (hallows : s.Allows (.subscribe id module)) :
    ∃ s', callStep malloc s (.subscribe id module) = .ok s' := by
  obtain ⟨hid, name, hname⟩ := hallows
  obtain ⟨k, rfl, -⟩ := hinv.index_of_ne hname hid
  exact ⟨_, Fallible.bind_eq_ok.mpr ⟨_, subscribeEventId_natCast s.engine k module, rfl⟩⟩

/-- The names registered by one more call. -/
lemma registeredNames_of_callStep {s' : History} {input : EventInput}
    (hstep : callStep malloc s input = .ok s') :
    registeredNames s'.calls = registeredNames s.calls ++ namesToRegister [input] := by
  cases input with
  | register name =>
    obtain ⟨r, -, hs'⟩ := Fallible.bind_eq_ok.mp hstep
    obtain rfl := Except.ok.inj hs'
    exact registeredNames_concat_register _ _ _
  | subscribe id module =>
    obtain ⟨r, -, hs'⟩ := Fallible.bind_eq_ok.mp hstep
    obtain rfl := Except.ok.inj hs'
    exact (registeredNames_concat_subscribe _ _ _).trans (List.append_nil _).symm

/-- **A sequence of calls goes through** exactly if every name that enters the table is held by
its block.

**Proof sketch.** By induction on the calls. A name that enters the table later has not entered it
with the first call. -/
lemma exec_callStep_isOk_iff {inputs : List EventInput} (hinv : TraceInv s.calls s.engine)
    (hallowed : SubscribesReturned malloc s inputs) :
    (∃ s', Run.exec (callStep malloc) s inputs = .ok s') ↔
      ∀ name ∈ FirstSeen.table maxEventIds (registeredNames s.calls ++ namesToRegister inputs),
        name ∉ FirstSeen.table maxEventIds (registeredNames s.calls) → malloc.Holds name := by
  induction inputs generalizing s with
  | nil =>
    refine iff_of_true ⟨s, rfl⟩ fun name hmem hnew => absurd ?_ hnew
    simpa [namesToRegister] using hmem
  | cons input inputs ih =>
    obtain ⟨hallows, hrest⟩ := hallowed
    -- what the first call leaves for the others
    have htail : ∀ s₁, callStep malloc s input = .ok s₁ →
        ((∃ s', Run.exec (callStep malloc) s₁ inputs = .ok s') ↔
          ∀ name ∈ FirstSeen.table maxEventIds
              (registeredNames s.calls ++ namesToRegister (input :: inputs)),
            name ∉ FirstSeen.table maxEventIds
              (registeredNames s.calls ++ namesToRegister [input]) → malloc.Holds name) := by
      intro s₁ hstep
      rw [ih (hinv.step hallows hstep) (hrest s₁ hstep), registeredNames_of_callStep hstep,
        List.append_assoc, ← namesToRegister_cons]
    rw [Run.exists_exec_cons]
    cases input with
    | subscribe id module =>
      obtain ⟨s₁, hstep⟩ : ∃ s₁, callStep malloc s (.subscribe id module) = .ok s₁ :=
        callStep_subscribe hinv hallows
      have hnone : registeredNames s.calls ++ namesToRegister [.subscribe id module] =
          registeredNames s.calls := List.append_nil _
      rw [hnone] at htail
      rw [← htail s₁ hstep]
      constructor
      · rintro ⟨s₂, hstep', hok⟩
        rwa [Except.ok.inj (hstep.symm.trans hstep')]
      · exact fun hok => ⟨s₁, hstep, hok⟩
    | register name =>
      have hprefix : FirstSeen.table maxEventIds (registeredNames s.calls ++ [name]) <+:
          FirstSeen.table maxEventIds
            (registeredNames s.calls ++ namesToRegister (.register name :: inputs)) := by
        have := FirstSeen.table_prefix_append maxEventIds (registeredNames s.calls ++ [name])
          (namesToRegister inputs)
        rwa [List.append_assoc] at this
      constructor
      · rintro ⟨s₁, hstep, hok⟩ name' hmem hnew
        by_cases hfirst : name' ∈ FirstSeen.table maxEventIds (registeredNames s.calls ++ [name])
        · obtain rfl := (FirstSeen.mem_table_concat hfirst).resolve_left hnew
          exact (callStep_register hinv).mp ⟨s₁, hstep⟩ hfirst hnew
        · exact (htail s₁ hstep).mp hok name' hmem hfirst
      · intro hholds
        obtain ⟨s₁, hstep⟩ : ∃ s₁, callStep malloc s (.register name) = .ok s₁ :=
          (callStep_register hinv).mpr fun hmem hnew =>
            hholds name (List.IsPrefix.subset hprefix hmem) hnew
        refine ⟨s₁, hstep, (htail s₁ hstep).mpr fun name' hmem hnew => hholds name' hmem ?_⟩
        exact fun hold => hnew ((FirstSeen.table_prefix_append _ _ _).subset hold)

end Through

/-- **Names, ids, chains and subscribers stay together** over an interleaving of registrations
and subscriptions exactly if each of the first `MAX_EVENT_IDS` distinct names registered is held
by a block of as many bytes as it has characters.

**Proof sketch.** The invariant `TraceInv` holds after every sequence of calls that goes through,
by induction on the calls; each part of the law is read off the table of first occurrences that it
describes. -/
theorem eventLaw_iff (malloc : Malloc) (inputs : List EventInput)
    (hallowed : SubscribesReturned malloc History.start inputs) :
    (∃ s, Run.exec (callStep malloc) History.start inputs = .ok s ∧
        EventLaw malloc s.calls s.engine) ↔
      ∀ name ∈ FirstSeen.table maxEventIds (namesToRegister inputs), malloc.Holds name := by
  have hthrough := exec_callStep_isOk_iff TraceInv.start hallowed
  simp only [History.start, registeredNames, List.filterMap_nil, List.nil_append,
    FirstSeen.table_nil, List.not_mem_nil, not_false_eq_true, true_imp_iff] at hthrough
  rw [← hthrough]
  constructor
  · rintro ⟨s, hexec, -⟩
    exact ⟨s, hexec⟩
  · rintro ⟨s, hexec⟩
    exact ⟨s, hexec, (TraceInv.start.exec hallowed hexec).eventLaw malloc⟩

/-- Two names, three subscriptions to them, and one of the names again. -/
def twoNames : List EventInput :=
  [.register "SAMPLE_RECEIVED", .register "TRIP", .subscribe 1 ⟨0, 1, "si", "SI.ini", -1, 0⟩,
    .subscribe 0 ⟨0, 1, "si", "SI.ini", -1, 0⟩, .subscribe 1 ⟨1, 2, "ipc", "ipc.ini", -1, 0⟩,
    .register "TRIP"]

lemma subscribesReturned_twoNames : SubscribesReturned .glibc History.start twoNames := by
  refine ⟨trivial, ?_⟩
  rintro _ ⟨⟩
  refine ⟨trivial, ?_⟩
  rintro _ ⟨⟩
  refine ⟨⟨by decide, "TRIP", by decide⟩, ?_⟩
  rintro _ ⟨⟩
  refine ⟨⟨by decide, "SAMPLE_RECEIVED", by decide⟩, ?_⟩
  rintro _ ⟨⟩
  refine ⟨⟨by decide, "TRIP", by decide⟩, ?_⟩
  rintro _ ⟨⟩
  exact ⟨trivial, fun _ _ => trivial⟩

/-- The law after these calls, with the blocks of glibc. -/
theorem eventLaw_iff_twoNames :
    ∃ s, Run.exec (callStep .glibc) History.start twoNames = .ok s ∧
      EventLaw .glibc s.calls s.engine :=
  (eventLaw_iff .glibc twoNames subscribesReturned_twoNames).mpr (by decide)

/-- **A name may leave its block**: the event of a module called `relay1` has 24 characters, for
which the block of glibc has 24 bytes. -/
theorem not_eventLaw_relay : ¬ ∃ s, Run.exec (callStep .glibc) History.start
      [.register "relay1_TRIP_VALUE_CHANGE", .register "relay1_TRIP_VALUE_CHANGE"] = .ok s ∧
    EventLaw .glibc s.calls s.engine := by
  rintro ⟨s, hexec, -⟩
  cases hexec

end Tmee
