import Tmee.Engine.NameBlocks

set_option relaxedAutoImplicit false
set_option autoImplicit false

/-!
# Initialising the modules

`init_modules` walks over the run list and removes, deinitialises and frees the modules whose
`init` fails. The chains filled by the loading loop are not touched.

## Main definitions

* `Tmee.InitAction`, `Tmee.initModules` — the run list that remains, and what is done on the way.
* `Tmee.ChainsConsistent` — the chains refer to modules of the run list only.

## Main results

* `Tmee.chainsConsistent_iff` — the chains stay consistent exactly if no module with an event
  trigger fails.
-/

namespace Tmee

/-- What `init_modules` does to a module object. -/
inductive InitAction
  | init (module : ModuleObject)
  | deinit (module : ModuleObject)
  | free (module : ModuleObject)
  /-- The link to the next module is read, to go on with the loop. -/
  | next (module : ModuleObject)
  deriving DecidableEq, Repr

/-- Walk over the run list: the modules that stay in it, and the actions in order. `init` is what
each call of `init` returns. The link of a freed object is read like any other; memory that has
been freed keeps its content here. -/
def initModules (init : ModuleObject → ℤ) :
    List ModuleObject → List ModuleObject × List InitAction
  | [] => ([], [])
  | module :: modules =>
    let rest := initModules init modules
    if init module ≠ 0 then
      (rest.1, [.init module, .deinit module, .free module, .next module] ++ rest.2)
    else (module :: rest.1, [.init module, .next module] ++ rest.2)

/-- The engine after `init_modules`. -/
def Engine.afterInit (e : Engine) (init : ModuleObject → ℤ) : Engine :=
  { e with registeredModules := (initModules init e.registeredModules).1 }

/-- An `event` function that only records the module it is called for. -/
def recordCall (module : ModuleObject) (_ : ℤ) : StateM (List ModuleObject) ℤ := do
  modify (· ++ [module])
  pure 0

/-- The modules that dispatching an id calls, in order. -/
def invoked (e : Engine) (id : ℤ) : List ModuleObject :=
  match runCallbackFunc e recordCall id with
  | .ok act => (act.run []).2
  | .error _ => []

/-- **The chains refer to modules of the run list only**: after `init_modules` every module of a
chain is registered, and no dispatch, whatever names have been registered since, calls a module
that was deinitialised or freed. -/
structure ChainsConsistent (init : ModuleObject → ℤ) (e : Engine) : Prop where
  registered : ∀ i, ∀ module ∈ (e.afterInit init).eventChains i,
    module ∈ (e.afterInit init).registeredModules
  dispatch : ∀ (names : List String) (id : ℤ),
    ∀ module ∈ invoked (registerAll (e.afterInit init) names) id,
      InitAction.deinit module ∉ (initModules init e.registeredModules).2 ∧
        InitAction.free module ∉ (initModules init e.registeredModules).2

section InitModules

variable (init : ModuleObject → ℤ) {module : ModuleObject} {modules : List ModuleObject}

/-- The modules that stay are those whose `init` returns `0`, in the order they had. -/
lemma initModules_fst (modules : List ModuleObject) :
    (initModules init modules).1 = modules.filter (fun module => init module = 0) := by
  induction modules with
  | nil => rfl
  | cons m ms ih =>
    rw [initModules]
    by_cases h : init m = 0
    · simp [h, ih]
    · simp [h, ih]

/-- A module is freed if and only if its `init` fails. -/
lemma free_mem_initModules :
    InitAction.free module ∈ (initModules init modules).2 ↔ module ∈ modules ∧ init module ≠ 0 := by
  induction modules with
  | nil => simp [initModules]
  | cons m ms ih =>
    rw [initModules]
    by_cases h : init m = 0
    · have hne : module = m → init module = 0 := fun heq => heq ▸ h
      simp only [ne_eq, h, not_true_eq_false, if_false, List.mem_append, ih]
      simp
      tauto
    · have hne : module = m → init module ≠ 0 := fun heq => heq ▸ h
      simp only [ne_eq, h, not_false_eq_true, if_true, List.mem_append, ih]
      simp
      tauto

/-- A module is deinitialised if and only if it is freed. -/
lemma deinit_mem_initModules :
    InitAction.deinit module ∈ (initModules init modules).2 ↔
      InitAction.free module ∈ (initModules init modules).2 := by
  induction modules with
  | nil => simp [initModules]
  | cons m ms ih =>
    rw [initModules]
    by_cases h : init m = 0
    · simp [h, ih]
    · simp [h, ih]

end InitModules

/-- Recording the calls of a chain appends it to the record. -/
lemma foldl_recordCall (chain : List ModuleObject) (id : ℤ) (w : List ModuleObject) :
    chain.foldl (fun w x => (recordCall x id w).2) w = w ++ chain := by
  induction chain generalizing w with
  | nil => simp
  | cons x xs ih =>
    rw [List.foldl_cons, ih]
    show w ++ [x] ++ xs = w ++ x :: xs
    simp

/-- Dispatching an id of the table calls its chain. -/
lemma invoked_natCast (e : Engine) (i : Fin maxEventIds) :
    invoked e (i : ℕ) = e.eventChains i := by
  obtain ⟨act, hact, hrun⟩ := runCallbackFunc_run e recordCall i []
  rw [invoked, hact]
  simp only [hrun, foldl_recordCall, List.nil_append]

/-- What a dispatch calls is in a chain. -/
lemma mem_chain_of_invoked {e : Engine} {id : ℤ} {module : ModuleObject}
    (h : module ∈ invoked e id) : ∃ i, module ∈ e.eventChains i := by
  by_cases hid : id ≥ maxEventIds ∨ id < 0
  · rw [invoked, runCallbackFunc, if_pos hid] at h
    cases h
  · obtain ⟨n, rfl⟩ := Int.eq_ofNat_of_zero_le (by omega : 0 ≤ id)
    have hn : n < maxEventIds := by omega
    exact ⟨⟨n, hn⟩, by rwa [invoked_natCast e ⟨n, hn⟩] at h⟩

/-- Registrations leave the chains alone. -/
lemma eventChains_registerAll (e : Engine) (names : List String) :
    (registerAll e names).eventChains = e.eventChains := by
  induction names generalizing e with
  | nil => rfl
  | cons name names ih =>
    rw [registerAll, ih, assignEventId]
    split
    · rfl
    · simp only
      split_ifs <;> rfl

/-- Among registered modules, consistency fails only for a subscribed module that fails. -/
lemma chainsConsistent_of_subset {init : ModuleObject → ℤ} {e : Engine}
    (hsubset : ∀ i, ∀ module ∈ e.eventChains i, module ∈ e.registeredModules) :
    ChainsConsistent init e ↔ ∀ i, ∀ module ∈ e.eventChains i, init module = 0 := by
  constructor
  · intro h i module hmem
    have hstay := h.registered i module hmem
    rw [Engine.afterInit, initModules_fst, List.mem_filter] at hstay
    simpa using hstay.2
  · intro h
    refine ⟨fun i module hmem => ?_, fun names id module hmem => ?_⟩
    · rw [Engine.afterInit, initModules_fst, List.mem_filter]
      exact ⟨hsubset i module hmem, by simpa using h i module hmem⟩
    · obtain ⟨i, hi⟩ := mem_chain_of_invoked hmem
      rw [eventChains_registerAll] at hi
      rw [deinit_mem_initModules, free_mem_initModules, and_self, not_and, not_not]
      exact fun _ => h i module hi

/-- **The chains stay consistent exactly if no module with an event trigger fails in `init`.**

**Proof sketch.** After loading the chains hold the accepted modules that have a trigger, all of
which are in the run list. `init_modules` takes the failing ones out of the run list only. -/
theorem chainsConsistent_iff (env : Environment) (cfg : Cfg) (init : ModuleObject → ℤ) (e : Engine)
    (hload : loadMain env cfg = .ok (some e)) :
    ChainsConsistent init e ↔ ∀ n, moduleCount cfg = some n → ∀ i < n, ∀ module,
      acceptedModule env cfg i = some module → triggers cfg i ≠ [] → init module = 0 := by
  obtain ⟨n, hcount, hexec⟩ := exec_of_loadMain hload
  have hinv := loadInv_of_exec hexec
  rw [chainsConsistent_of_subset]
  · constructor
    · intro h n' hcount' i hi module hmodule htriggers
      obtain rfl : n = n' := Option.some.inj (hcount.symm.trans hcount')
      obtain ⟨name, hname⟩ := List.exists_mem_of_ne_nil _ htriggers
      obtain ⟨k, hk⟩ := hinv.mem_chain_iff.mpr
        ⟨name, mem_actions_trigger.mpr ⟨i, hi, hmodule, hname⟩⟩
      exact h k module hk
    · intro h k module hk
      obtain ⟨name, hmem⟩ := hinv.mem_chain_iff.mp ⟨k, hk⟩
      obtain ⟨i, hi, hmodule, hname⟩ := mem_actions_trigger.mp hmem
      exact h n hcount i hi module hmodule (List.ne_nil_of_mem hname)
  · intro k module hk
    obtain ⟨name, hmem⟩ := hinv.mem_chain_iff.mp ⟨k, hk⟩
    obtain ⟨i, hi, hmodule, -⟩ := mem_actions_trigger.mp hmem
    rw [hinv.registered, appendedBy_actions, List.mem_filterMap]
    exact ⟨i, List.mem_range.mpr hi, hmodule⟩

/-- All libraries load, and no `pre_init` registers a name. -/
def plain : Environment where
  dlopen := fun _ _ => some 1
  dlsym := fun _ _ => true
  preInit := fun _ => ⟨[], 100, 0⟩

/-- The engine after loading `oneTrigger`. -/
def oneSubscriber : Engine :=
  Engine.appendToChain ⟨[⟨0, "TRIP"⟩], fun _ => [], [⟨0, 1, "si", "SI.ini", 100, 0⟩]⟩
    ⟨0, by decide⟩ ⟨0, 1, "si", "SI.ini", 100, 0⟩

lemma loadMain_plain : loadMain plain oneTrigger = .ok (some oneSubscriber) := rfl

/-- The condition for the module of `oneTrigger`. -/
theorem chainsConsistent_oneSubscriber :
    ChainsConsistent (fun _ => 0) oneSubscriber ↔
      ∀ n, moduleCount oneTrigger = some n → ∀ i < n, ∀ module,
        acceptedModule plain oneTrigger i = some module → triggers oneTrigger i ≠ [] →
          (fun _ : ModuleObject => (0 : ℤ)) module = 0 :=
  chainsConsistent_iff plain oneTrigger (fun _ => 0) oneSubscriber loadMain_plain

/-- **The chains are not consistent in general**: the module of `oneTrigger` fails in `init`, is
freed, and stays in the chain of `TRIP`. -/
theorem not_chainsConsistent_oneSubscriber :
    ∃ e, loadMain plain oneTrigger = .ok (some e) ∧ ¬ ChainsConsistent (fun _ => -1) e := by
  refine ⟨oneSubscriber, loadMain_plain, fun h => ?_⟩
  have hstay := h.registered ⟨0, by decide⟩ ⟨0, 1, "si", "SI.ini", 100, 0⟩ (by decide)
  revert hstay
  decide

end Tmee
