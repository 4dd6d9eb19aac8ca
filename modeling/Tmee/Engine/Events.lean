import Mathlib.Data.Fintype.Basic
import Mathlib.Logic.Function.Basic
import Tmee.Basic
import Tmee.Engine.Module
import Tmee.Lib.FirstSeen

set_option relaxedAutoImplicit false
set_option autoImplicit false

/-!
# The event table and the event chains

The globals of `main.c` and the four functions that use the event table: a list of named ids, to
which new entries are prepended, and an array with one chain of subscribed modules per id. A C
string is a `String` without a null character, of which the characters stand for bytes, and a
module pointer is the `ModuleObject` it points to.

A new name is copied to a block of `strlen(event_name)` bytes, which is one byte less than the copy
needs; whether the terminator still lands in the block is up to the allocator. What a registration
makes of the table when it does is a definition of its own.

## Main definitions

* `Tmee.Engine` — the globals `event_ids`, `event_chains` and `registered_modules`.
* `Tmee.Malloc`, `Tmee.Malloc.Holds` — the room in a block, and the names it is enough for.
* `Tmee.registerEventId`, `Tmee.findEventName`, `Tmee.subscribeEventId`, `Tmee.runCallbackFunc`.
* `Tmee.assignEventId` — a registration as far as the table is concerned.
* `Tmee.Engine.Numbers` — the event table numbers a list of names.

## Main results

* `Tmee.assignEventId_spec` — the event table is a table filled in order of first occurrence.
* `Tmee.registerEventId_of_numbers` — a registration either does that or leaves the block.
* `Tmee.findEventName_of_numbers` — the name found for an id is the one it was given for.
-/

namespace Tmee

/-- `MAX_EVENT_IDS`. -/
def maxEventIds : ℕ := 100

/-- An entry of the list `event_ids`. -/
structure EventTable where
  id : ℤ
  name : String
  deriving DecidableEq, Repr

/-- The globals of the engine. -/
structure Engine where
  /-- The event table, the latest entry first. -/
  eventIds : List EventTable
  /-- The modules subscribed to each id, in the order of their chain. -/
  eventChains : Fin maxEventIds → List ModuleObject
  registeredModules : List ModuleObject
  deriving DecidableEq

/-- The globals when `main` has cleared the chains. -/
def Engine.initial : Engine := ⟨[], fun _ => [], []⟩

/-- The place of `event_chains[id]`; outside the array there is none. -/
def chainIndex (id : ℤ) : Except Fault (Fin maxEventIds) :=
  if h : 0 ≤ id ∧ id.toNat < maxEventIds then .ok ⟨id.toNat, h.2⟩ else .error .outOfBounds

/-- The allocator: how many bytes of a block of the size asked for can be used. -/
structure Malloc where
  usable : ℕ → ℕ
  le_usable : ∀ n, n ≤ usable n

/-- A block of `strlen(name)` bytes has room for the name and its terminator. -/
def Malloc.Holds (malloc : Malloc) (name : String) : Prop :=
  name.length < malloc.usable name.length

instance Malloc.decidableHolds (malloc : Malloc) (name : String) : Decidable (malloc.Holds name) :=
  inferInstanceAs (Decidable (_ < _))

/-- The blocks of glibc on a 64-bit system: chunks are multiples of 16 bytes, and 8 bytes of each
are not for use. -/
def Malloc.glibc : Malloc where
  usable := fun n => max 24 ((n + 23) / 16 * 16 - 8)
  le_usable := fun n => by omega

/-- `malloc(strlen(name))` and `strcpy`: the block holds the name, if the terminator is within
it. -/
def Malloc.copyName (malloc : Malloc) (name : String) : Except Fault String :=
  if malloc.Holds name then .ok name else .error .outOfBounds

/-- Look the name up in the table, and add it if it is new and there is room. The second loop
variable of the source counts the entries passed, so it ends as the length of the list. -/
def registerEventId (malloc : Malloc) (e : Engine) (eventName : String) :
    Except Fault (ℤ × Engine) :=
  match e.eventIds.find? (fun entry => entry.name = eventName) with
  | some entry => .ok (entry.id, e)
  | none =>
    let index := e.eventIds.length
    if index ≥ maxEventIds then .ok (-1, e)
    else do
      let name ← malloc.copyName eventName
      .ok (index, { e with eventIds := ⟨index, name⟩ :: e.eventIds })

/-- What a registration makes of the table when the block of a new name holds it. -/
def assignEventId (e : Engine) (eventName : String) : ℤ × Engine :=
  match e.eventIds.find? (fun entry => entry.name = eventName) with
  | some entry => (entry.id, e)
  | none =>
    let index := e.eventIds.length
    if index ≥ maxEventIds then (-1, e)
    else (index, { e with eventIds := ⟨index, eventName⟩ :: e.eventIds })

/-- The name of an id, or null. -/
def findEventName (e : Engine) (id : ℤ) : Option String :=
  (e.eventIds.find? (fun entry => entry.id = id)).map EventTable.name

/-- A new last element of a chain. An empty chain gets its first element through the array,
another one through the link of its last element. -/
def Engine.appendToChain (e : Engine) (i : Fin maxEventIds) (module : ModuleObject) : Engine :=
  { e with eventChains := Function.update e.eventChains i (e.eventChains i ++ [module]) }

/-- Append a module to the chain of an id. Only ids that are too large are refused. -/
def subscribeEventId (e : Engine) (eventId : ℤ) (module : ModuleObject) :
    Except Fault (ℤ × Engine) :=
  if eventId ≥ maxEventIds then .ok (-1, e)
  else do
    let i ← chainIndex eventId
    .ok (0, e.appendToChain i module)

section Dispatch

variable {m : Type → Type} [Monad m]

/-- Walk along a chain and call the `event` function of every module; what it returns is only
reported. -/
def callChain (event : ModuleObject → ℤ → m ℤ) (eventId : ℤ) : List ModuleObject → m Unit
  | [] => pure ()
  | module :: chain => do
    let _ ← event module eventId
    callChain event eventId chain

/-- Call all modules subscribed to an id. `event` is what a module's `event` function does, in
any monad; the callbacks handed to modules cannot change a chain, so the chain is read once. -/
def runCallbackFunc (e : Engine) (event : ModuleObject → ℤ → m ℤ) (eventId : ℤ) :
    Except Fault (m ℤ) :=
  if eventId ≥ maxEventIds ∨ eventId < 0 then .ok (pure (-1))
  else do
    let i ← chainIndex eventId
    .ok (do
      callChain event eventId (e.eventChains i)
      pure 0)

end Dispatch

/-- The array is indexed within its bounds exactly by the ids from `0` on. -/
lemma chainIndex_natCast (i : Fin maxEventIds) : chainIndex (i : ℕ) = .ok i := by
  simp [chainIndex, i.isLt]

lemma chainIndex_of_neg {id : ℤ} (h : id < 0) : chainIndex id = .error .outOfBounds :=
  dif_neg fun hid => by omega

lemma appendToChain_self (e : Engine) (i : Fin maxEventIds) (module : ModuleObject) :
    (e.appendToChain i module).eventChains i = e.eventChains i ++ [module] := by
  simp [Engine.appendToChain]

lemma appendToChain_of_ne (e : Engine) {i j : Fin maxEventIds} (h : j ≠ i)
    (module : ModuleObject) : (e.appendToChain i module).eventChains j = e.eventChains j := by
  simp [Engine.appendToChain, h]

/-- Subscribing to an id of the table appends to the chain of that id. -/
lemma subscribeEventId_natCast (e : Engine) (i : Fin maxEventIds) (module : ModuleObject) :
    subscribeEventId e (i : ℕ) module = .ok (0, e.appendToChain i module) := by
  have hlt : ¬ (((i : ℕ) : ℤ) ≥ maxEventIds) := by
    have := i.isLt
    omega
  rw [subscribeEventId, if_neg hlt, chainIndex_natCast]
  rfl

/-- Subscribing to a negative id leaves the array. -/
lemma subscribeEventId_of_neg (e : Engine) {id : ℤ} (h : id < 0) (module : ModuleObject) :
    subscribeEventId e id module = .error .outOfBounds := by
  have hlt : ¬ (id ≥ maxEventIds) := by
    have : (0 : ℤ) ≤ maxEventIds := Int.natCast_nonneg _
    omega
  rw [subscribeEventId, if_neg hlt, chainIndex_of_neg h]
  rfl

/-- Dispatching an id of the table calls its chain. -/
lemma runCallbackFunc_natCast {m : Type → Type} [Monad m] (e : Engine)
    (event : ModuleObject → ℤ → m ℤ) (i : Fin maxEventIds) :
    runCallbackFunc e event (i : ℕ) = .ok (do
      callChain event (i : ℕ) (e.eventChains i)
      pure 0) := by
  have hlt : ¬ (((i : ℕ) : ℤ) ≥ maxEventIds ∨ ((i : ℕ) : ℤ) < 0) := by
    have := i.isLt
    omega
  rw [runCallbackFunc, if_neg hlt, chainIndex_natCast]
  rfl

/-- In a state monad, walking along a chain folds the event functions over it. -/
lemma callChain_run {σ : Type} (event : ModuleObject → ℤ → StateM σ ℤ) (i : ℤ)
    (chain : List ModuleObject) (w : σ) :
    (callChain event i chain).run w = ((), chain.foldl (fun w x => (event x i w).2) w) := by
  induction chain generalizing w with
  | nil => rfl
  | cons x xs ih => exact ih (event x i w).2

/-- In a state monad, dispatching an id of the table folds the event functions over its chain. -/
lemma runCallbackFunc_run {σ : Type} (e : Engine) (event : ModuleObject → ℤ → StateM σ ℤ)
    (i : Fin maxEventIds) (w : σ) :
    ∃ act, runCallbackFunc e event (i : ℕ) = .ok act ∧
      act.run w = (0, (e.eventChains i).foldl (fun w x => (event x (i : ℕ) w).2) w) := by
  refine ⟨_, runCallbackFunc_natCast e event i, ?_⟩
  simp only [StateT.run_bind, callChain_run]
  rfl

/-- **Dispatch never leaves the array**, whatever id it is given. -/
lemma runCallbackFunc_isOk {m : Type → Type} [Monad m] (e : Engine)
    (event : ModuleObject → ℤ → m ℤ) (id : ℤ) : ∃ act, runCallbackFunc e event id = .ok act := by
  by_cases h : id ≥ maxEventIds ∨ id < 0
  · exact ⟨_, if_pos h⟩
  · obtain ⟨n, rfl⟩ := Int.eq_ofNat_of_zero_le (by omega : 0 ≤ id)
    have hn : n < maxEventIds := by omega
    exact ⟨_, runCallbackFunc_natCast e event ⟨n, hn⟩⟩

/-- The event table holds the names `names`, numbered from `0` on in this order. -/
structure Engine.Numbers (e : Engine) (names : List String) : Prop where
  eventIds_eq : e.eventIds = (names.mapIdx fun i name => ⟨(i : ℤ), name⟩).reverse
  nodup : names.Nodup

namespace Engine.Numbers

variable {e : Engine} {names : List String}

lemma initial : Engine.initial.Numbers [] := ⟨rfl, List.nodup_nil⟩

lemma appendToChain (h : e.Numbers names) (i : Fin maxEventIds) (module : ModuleObject) :
    (e.appendToChain i module).Numbers names :=
  ⟨h.eventIds_eq, h.nodup⟩

/-- A name has one place. -/
lemma index_inj (h : e.Numbers names) {i j : ℕ} {name : String} (hi : names[i]? = some name)
    (hj : names[j]? = some name) : i = j := by
  obtain ⟨hlt, -⟩ := List.getElem?_eq_some_iff.mp hi
  exact (List.getElem?_inj hlt h.nodup).mp (hi.trans hj.symm)

lemma mem_eventIds (h : e.Numbers names) {entry : EventTable} :
    entry ∈ e.eventIds ↔ ∃ i : ℕ, entry.id = i ∧ names[i]? = some entry.name := by
  rw [h.eventIds_eq, List.mem_reverse, List.mem_mapIdx]
  constructor
  · rintro ⟨i, hi, rfl⟩
    exact ⟨i, rfl, List.getElem?_eq_getElem hi⟩
  · rintro ⟨i, hid, hname⟩
    obtain ⟨hi, hget⟩ := List.getElem?_eq_some_iff.mp hname
    refine ⟨i, hi, ?_⟩
    rw [hget, ← hid]

lemma length_eventIds (h : e.Numbers names) : e.eventIds.length = names.length := by
  simp [h.eventIds_eq]

/-- Looking up a numbered name finds its entry. -/
lemma find?_name (h : e.Numbers names) {i : ℕ} {name : String} (hi : names[i]? = some name) :
    e.eventIds.find? (fun entry => entry.name = name) = some ⟨i, name⟩ := by
  cases hfind : e.eventIds.find? (fun entry => entry.name = name) with
  | none =>
    rw [List.find?_eq_none] at hfind
    have := hfind ⟨i, name⟩ (h.mem_eventIds.mpr ⟨i, rfl, hi⟩)
    simp at this
  | some entry =>
    have hname : entry.name = name := by simpa using List.find?_some hfind
    obtain ⟨j, hid, hj⟩ := h.mem_eventIds.mp (List.mem_of_find?_eq_some hfind)
    obtain rfl : j = i := h.index_inj hj (hname ▸ hi)
    obtain ⟨id, name'⟩ := entry
    exact congrArg some (by rw [EventTable.mk.injEq]; exact ⟨hid, hname⟩)

/-- Looking up a name that is not numbered finds nothing. -/
lemma find?_name_eq_none (h : e.Numbers names) {name : String} (hnew : name ∉ names) :
    e.eventIds.find? (fun entry => entry.name = name) = none := by
  rw [List.find?_eq_none]
  intro entry hentry
  obtain ⟨i, -, hi⟩ := h.mem_eventIds.mp hentry
  have hmem : entry.name ∈ names := List.mem_of_getElem? hi
  simp only [decide_eq_true_eq]
  intro heq
  exact hnew (heq ▸ hmem)

end Engine.Numbers

/-- **The name found for an id** is the one at that place of the table. -/
lemma findEventName_of_numbers {e : Engine} {names : List String} (h : e.Numbers names) (i : ℕ) :
    findEventName e i = names[i]? := by
  rw [findEventName]
  cases hfind : e.eventIds.find? (fun entry => entry.id = (i : ℤ)) with
  | none =>
    rw [List.find?_eq_none] at hfind
    cases hi : names[i]? with
    | none => rfl
    | some name =>
      have := hfind ⟨i, name⟩ (h.mem_eventIds.mpr ⟨i, rfl, hi⟩)
      simp at this
  | some entry =>
    have hid : entry.id = i := by simpa using List.find?_some hfind
    obtain ⟨j, hj, hname⟩ := h.mem_eventIds.mp (List.mem_of_find?_eq_some hfind)
    obtain rfl : j = i := by omega
    exact hname.symm

/-- A name that is found is in the table. -/
lemma exists_findEventName_iff {e : Engine} {names : List String} (h : e.Numbers names)
    {name : String} : (∃ id, findEventName e id = some name) ↔ name ∈ names := by
  constructor
  · rintro ⟨id, hid⟩
    obtain ⟨entry, hfind, rfl⟩ := Option.map_eq_some_iff.mp hid
    obtain ⟨i, -, hi⟩ := h.mem_eventIds.mp (List.mem_of_find?_eq_some hfind)
    exact List.mem_of_getElem? hi
  · intro hname
    obtain ⟨i, hi⟩ := List.mem_iff_getElem?.mp hname
    exact ⟨i, (findEventName_of_numbers h i).trans hi⟩

/-- The id of a name that found no room has no name. -/
lemma findEventName_neg_one {e : Engine} {names : List String} (h : e.Numbers names) :
    findEventName e (-1) = none := by
  rw [findEventName, Option.map_eq_none_iff, List.find?_eq_none]
  intro entry hentry
  obtain ⟨i, hid, -⟩ := h.mem_eventIds.mp hentry
  simp only [decide_eq_true_eq]
  omega

section Register

variable {e : Engine} {names : List String} {name : String}

/-- A numbered name keeps its id. -/
lemma assignEventId_of_getElem? (h : e.Numbers names) {i : ℕ} (hi : names[i]? = some name) :
    assignEventId e name = ((i : ℤ), e) := by
  rw [assignEventId, h.find?_name hi]

/-- In a full table a new name gets no id. -/
lemma assignEventId_of_full (h : e.Numbers names) (hnew : name ∉ names)
    (hfull : maxEventIds ≤ names.length) : assignEventId e name = (-1, e) := by
  have hge : e.eventIds.length ≥ maxEventIds := by
    rw [h.length_eventIds]
    exact hfull
  rw [assignEventId, h.find?_name_eq_none hnew]
  exact if_pos hge

/-- While there is room a new name gets the next id. -/
lemma assignEventId_of_room (h : e.Numbers names) (hnew : name ∉ names)
    (hroom : names.length < maxEventIds) :
    ∃ e' : Engine, assignEventId e name = ((names.length : ℤ), e') ∧
      e'.Numbers (names ++ [name]) ∧ e'.eventChains = e.eventChains ∧
      e'.registeredModules = e.registeredModules := by
  have hlt : ¬ (names.length ≥ maxEventIds) := by omega
  refine ⟨{ e with eventIds := ⟨names.length, name⟩ :: e.eventIds }, ?_, ⟨?_, ?_⟩, rfl, rfl⟩
  · rw [assignEventId, h.find?_name_eq_none hnew]
    simp only [h.length_eventIds, if_neg hlt]
  · simp [h.eventIds_eq]
  · rw [List.nodup_append]
    refine ⟨h.nodup, List.nodup_singleton name, ?_⟩
    intro a ha b hb
    rw [List.mem_singleton] at hb
    rintro rfl
    exact hnew (hb ▸ ha)

/-- **What a registration does.** The event table after the names `l` is the table of their first
occurrences: one more name is handled as in that table, the id returned is its place there, or
`-1` if it has none, and the chains and the run list stay. -/
lemma assignEventId_spec {l : List String} (h : e.Numbers (FirstSeen.table maxEventIds l))
    (name : String) :
    ∃ (id : ℤ) (e' : Engine), assignEventId e name = (id, e') ∧
      e'.Numbers (FirstSeen.table maxEventIds (l ++ [name])) ∧
      e'.eventChains = e.eventChains ∧ e'.registeredModules = e.registeredModules ∧
      ((id = -1 ∧ e' = e ∧ name ∉ FirstSeen.table maxEventIds (l ++ [name])) ∨
        ∃ i : Fin maxEventIds, id = (i : ℕ) ∧
          (FirstSeen.table maxEventIds (l ++ [name]))[(i : ℕ)]? = some name) := by
  have hlen := FirstSeen.length_table_le maxEventIds l
  by_cases hmem : name ∈ FirstSeen.table maxEventIds l
  · obtain ⟨i, hi, hget⟩ := List.getElem_of_mem hmem
    have hi? := List.getElem?_eq_some_iff.mpr ⟨hi, hget⟩
    rw [FirstSeen.table_concat_of_mem hmem]
    exact ⟨i, e, assignEventId_of_getElem? h hi?, h, rfl, rfl,
      Or.inr ⟨⟨i, hi.trans_le hlen⟩, rfl, hi?⟩⟩
  · by_cases hroom : (FirstSeen.table maxEventIds l).length < maxEventIds
    · obtain ⟨e', hreg, hnum, hchains, hmodules⟩ := assignEventId_of_room h hmem hroom
      rw [FirstSeen.table_concat_of_room hmem hroom]
      exact ⟨_, e', hreg, hnum, hchains, hmodules, Or.inr ⟨⟨_, hroom⟩, rfl, by simp⟩⟩
    · have hfull : (FirstSeen.table maxEventIds l).length = maxEventIds := by omega
      rw [FirstSeen.table_concat_of_full hfull]
      exact ⟨-1, e, assignEventId_of_full h hmem hfull.ge, h, rfl, rfl,
        Or.inl ⟨rfl, rfl, hmem⟩⟩

variable {malloc : Malloc}

/-- A registration whose name is held by its block is one of the table alone. -/
lemma registerEventId_of_holds (h : malloc.Holds name) :
    registerEventId malloc e name = .ok (assignEventId e name) := by
  rw [registerEventId, assignEventId]
  cases e.eventIds.find? (fun entry => entry.name = name) with
  | some entry => rfl
  | none =>
    simp only [Malloc.copyName, if_pos h]
    split_ifs <;> rfl

/-- **A registration goes through** exactly if the name is known, the table is full, or the block
holds the name, and then it is one of the table alone. -/
lemma registerEventId_of_numbers {l : List String}
    (h : e.Numbers (FirstSeen.table maxEventIds l)) (malloc : Malloc) (name : String) :
    registerEventId malloc e name =
      if name ∈ FirstSeen.table maxEventIds (l ++ [name]) ∧ ¬ malloc.Holds name ∧
        name ∉ FirstSeen.table maxEventIds l then .error .outOfBounds
      else .ok (assignEventId e name) := by
  by_cases hholds : malloc.Holds name
  · rw [registerEventId_of_holds hholds, if_neg fun hcon => hcon.2.1 hholds]
  by_cases hmem : name ∈ FirstSeen.table maxEventIds l
  · obtain ⟨i, hi⟩ := List.mem_iff_getElem?.mp hmem
    rw [if_neg fun hcon => hcon.2.2 hmem, registerEventId, assignEventId, h.find?_name hi]
  · rw [registerEventId, assignEventId, h.find?_name_eq_none hmem]
    simp only [h.length_eventIds]
    by_cases hroom : (FirstSeen.table maxEventIds l).length < maxEventIds
    · rw [if_neg (by omega), if_pos ⟨FirstSeen.mem_table_concat_iff.mpr (.inr hroom), hholds, hmem⟩]
      simp only [Malloc.copyName, if_neg hholds]
      rfl
    · have hnew : name ∉ FirstSeen.table maxEventIds (l ++ [name]) := fun hnew =>
        (FirstSeen.mem_table_concat_iff.mp hnew).elim hmem hroom
      have hfull : (FirstSeen.table maxEventIds l).length ≥ maxEventIds := not_lt.mp hroom
      rw [if_pos hfull, if_pos hfull, if_neg fun hcon => hnew hcon.1]

/-- What a registration that goes through does. -/
lemma registerEventId_eq_ok_iff {l : List String} (h : e.Numbers (FirstSeen.table maxEventIds l))
    {r : ℤ × Engine} :
    registerEventId malloc e name = .ok r ↔
      (name ∈ FirstSeen.table maxEventIds (l ++ [name]) → name ∉ FirstSeen.table maxEventIds l →
        malloc.Holds name) ∧ assignEventId e name = r := by
  rw [registerEventId_of_numbers h]
  split_ifs with hcase
  · exact iff_of_false nofun fun hcon => hcase.2.1 (hcon.1 hcase.1 hcase.2.2)
  · rw [Except.ok.injEq, iff_and_self]
    intro _ hnew hmem
    by_contra hholds
    exact hcase ⟨hnew, hholds, hmem⟩

end Register

end Tmee
