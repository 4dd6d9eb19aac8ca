import Tmee.Engine.NameBlocks

set_option relaxedAutoImplicit false
set_option autoImplicit false

/-!
# What loading leaves behind, module by module

The loading loop has an exit for everything that can be missing. Whatever fails for whichever
modules, the run list and the chains are those of a configuration that has only the other modules.

## Main definitions

* `Tmee.Configured` — everything the loop needs of a module is there, and its `pre_init` succeeds.
* `Tmee.subscribed` — the subscriptions among the steps of the loop, in order.
* `Tmee.LoadedInOrder` — the globals hold exactly the configured modules, in order.

## Main results

* `Tmee.exists_loadedInOrder` — the globals after loading on the table alone.
* `Tmee.loadMainIn_inOrder_iff` — the configurations for which loading leaves them so.
-/

namespace Tmee

/-- **A module that loads**: its file, the library and all symbols in it, its id and its
configuration are found, and `pre_init` returns `0` for the object made of them. -/
def Configured (env : Environment) (cfg : Cfg) (i : ℕ) (module : ModuleObject) : Prop :=
  ∃ moduleFile lib moduleId moduleConfig,
    cfgGetString cfg s!"module{i}_file" = some moduleFile ∧
    env.dlopen i moduleFile = some lib ∧
    (∀ symbol, env.dlsym lib symbol = true) ∧
    cfgGetString cfg s!"module{i}_id" = some moduleId ∧
    cfgGetString cfg s!"module{i}_config" = some moduleConfig ∧
    (env.preInit ⟨i, lib, moduleId, moduleConfig, -1,
      (cfgGetInt cfg s!"module{i}_register_run").getD 0⟩).result = 0 ∧
    module = ⟨i, lib, moduleId, moduleConfig,
      (env.preInit ⟨i, lib, moduleId, moduleConfig, -1,
        (cfgGetInt cfg s!"module{i}_register_run").getD 0⟩).deadline,
      (cfgGetInt cfg s!"module{i}_register_run").getD 0⟩

/-- The subscriptions among the steps of the loading loop, in order. -/
def subscribed (as : List LoadAction) : List (String × ModuleObject) :=
  as.filterMap fun
    | .register _ => none
    | .trigger name module => some (name, module)
    | .append _ => none

/-- The subscriptions of modules that are loaded one after the other. -/
def triggersOf (cfg : Cfg) (modules : List ModuleObject) : List (String × ModuleObject) :=
  modules.flatMap fun module => (triggers cfg module.index).map fun name => (name, module)

/-- **The globals after loading the modules `0 .. n - 1`.** -/
structure LoadedInOrder (env : Environment) (cfg : Cfg) (n : ℕ) (e : Engine) : Prop where
  modules : ∀ module, module ∈ e.registeredModules ↔ ∃ i < n, Configured env cfg i module
  increasing : (e.registeredModules.map ModuleObject.index).Pairwise (· < ·)
  /-- The steps of the loop subscribe the triggers of these modules, and no others. -/
  subscriptions : subscribed (actions env cfg n) = triggersOf cfg e.registeredModules
  /-- The triggers of a module end at the first key that is missing or unparsable. -/
  triggers_eq : ∀ i, (∀ k < (triggers cfg i).length,
      cfgGetString cfg (triggerKey i (1 + k)) = (triggers cfg i)[k]?) ∧
    cfgGetString cfg (triggerKey i (1 + (triggers cfg i).length)) = none
  /-- Every trigger has an id. -/
  named : ∀ name module, (name, module) ∈ triggersOf cfg e.registeredModules →
    ∃ k : Fin maxEventIds, findEventName e (k : ℕ) = some name
  chains : ∀ (k : Fin maxEventIds) (name : String), findEventName e (k : ℕ) = some name →
    e.eventChains k =
      ((triggersOf cfg e.registeredModules).filter fun s => s.1 = name).map Prod.snd
  unused : ∀ k : Fin maxEventIds, findEventName e (k : ℕ) = none → e.eventChains k = []
  /-- A module that failed is nowhere. -/
  failed : ∀ module : ModuleObject, (∀ m, ¬ Configured env cfg module.index m) →
    module ∉ e.registeredModules ∧ ∀ k, module ∉ e.eventChains k

section Order

variable {env : Environment} {cfg : Cfg} {i n : ℕ} {module : ModuleObject}

/-- What the loop finds before it calls `pre_init`. -/
lemma openModule_eq_some_iff {opened : ModuleObject} :
    openModule env cfg i = some opened ↔ ∃ moduleFile lib moduleId moduleConfig,
      cfgGetString cfg s!"module{i}_file" = some moduleFile ∧
      env.dlopen i moduleFile = some lib ∧
      (∀ symbol, env.dlsym lib symbol = true) ∧
      cfgGetString cfg s!"module{i}_id" = some moduleId ∧
      cfgGetString cfg s!"module{i}_config" = some moduleConfig ∧
      opened = ⟨i, lib, moduleId, moduleConfig, -1,
        (cfgGetInt cfg s!"module{i}_register_run").getD 0⟩ := by
  have hall : ∀ lib, [Symbol.preInit, .init, .run, .test, .event, .deinit].all (env.dlsym lib) =
      true ↔ ∀ symbol, env.dlsym lib symbol = true := by
    intro lib
    rw [List.all_eq_true]
    exact ⟨fun h symbol => h symbol (by cases symbol <;> simp), fun h symbol _ => h symbol⟩
  constructor
  · intro h
    obtain ⟨moduleFile, hfile, h⟩ := Option.bind_eq_some_iff.mp h
    obtain ⟨lib, hlib, h⟩ := Option.bind_eq_some_iff.mp h
    split_ifs at h with hsymbols
    obtain ⟨moduleId, hid, h⟩ := Option.bind_eq_some_iff.mp h
    obtain ⟨moduleConfig, hconfig, h⟩ := Option.bind_eq_some_iff.mp h
    exact ⟨moduleFile, lib, moduleId, moduleConfig, hfile, hlib, (hall lib).mp hsymbols, hid,
      hconfig, (Option.some.inj h).symm⟩
  · rintro ⟨moduleFile, lib, moduleId, moduleConfig, hfile, hlib, hsymbols, hid, hconfig, rfl⟩
    refine Option.bind_eq_some_iff.mpr ⟨moduleFile, hfile, ?_⟩
    refine Option.bind_eq_some_iff.mpr ⟨lib, hlib, ?_⟩
    rw [if_pos ((hall lib).mpr hsymbols)]
    refine Option.bind_eq_some_iff.mpr ⟨moduleId, hid, ?_⟩
    exact Option.bind_eq_some_iff.mpr ⟨moduleConfig, hconfig, rfl⟩

/-- The modules accepted by the loop are those that load. -/
lemma acceptedModule_eq_some_iff :
    acceptedModule env cfg i = some module ↔ Configured env cfg i module := by
  constructor
  · intro h
    obtain ⟨opened, hopen, h⟩ := Option.bind_eq_some_iff.mp h
    obtain ⟨moduleFile, lib, moduleId, moduleConfig, hfile, hlib, hsymbols, hid, hconfig, rfl⟩ :=
      openModule_eq_some_iff.mp hopen
    split_ifs at h with hresult
    exact ⟨moduleFile, lib, moduleId, moduleConfig, hfile, hlib, hsymbols, hid, hconfig,
      not_not.mp hresult, (Option.some.inj h).symm⟩
  · rintro ⟨moduleFile, lib, moduleId, moduleConfig, hfile, hlib, hsymbols, hid, hconfig, hresult,
      rfl⟩
    refine Option.bind_eq_some_iff.mpr ⟨_, openModule_eq_some_iff.mpr ⟨moduleFile, lib, moduleId,
      moduleConfig, hfile, hlib, hsymbols, hid, hconfig, rfl⟩, ?_⟩
    rw [if_neg (not_not_intro hresult)]

lemma Configured.index_eq (h : Configured env cfg i module) : module.index = i := by
  obtain ⟨-, -, -, -, -, -, -, -, -, -, rfl⟩ := h
  rfl

/-- The accepted modules come in the order of their indices. -/
lemma pairwise_acceptedModule (env : Environment) (cfg : Cfg) (n : ℕ) :
    ((List.range n).filterMap (acceptedModule env cfg)).Pairwise
      (fun m m' => m.index < m'.index) := by
  refine List.pairwise_filterMap.mpr (List.pairwise_lt_range.imp fun hij m hm m' hm' => ?_)
  rw [(acceptedModule_eq_some_iff.mp hm).index_eq, (acceptedModule_eq_some_iff.mp hm').index_eq]
  exact hij

/-- **The subscriptions of the loop** are the triggers of the accepted modules, in order. -/
lemma subscribed_actions (env : Environment) (cfg : Cfg) (n : ℕ) :
    subscribed (actions env cfg n) =
      triggersOf cfg ((List.range n).filterMap (acceptedModule env cfg)) := by
  induction n with
  | zero => rfl
  | succ n ih =>
    have hone : subscribed (moduleActions env cfg n) =
        triggersOf cfg ([n].filterMap (acceptedModule env cfg)) := by
      cases hm : acceptedModule env cfg n with
      | none =>
        rw [moduleActions, hm]
        cases openModule env cfg n <;> simp [subscribed, triggersOf, hm, List.filterMap_map]
      | some m =>
        have hindex := (acceptedModule_eq_some_iff.mp hm).index_eq
        rw [moduleActions, hm]
        cases openModule env cfg n <;>
          simp [subscribed, triggersOf, hm, hindex, List.filterMap_append, List.filterMap_map]
    rw [actions_succ, List.range_succ, List.filterMap_append, subscribed, List.filterMap_append,
      triggersOf, List.flatMap_append]
    exact congrArg₂ (· ++ ·) ih hone

lemma mem_subscribed {as : List LoadAction} {name : String} :
    (name, module) ∈ subscribed as ↔ LoadAction.trigger name module ∈ as := by
  rw [subscribed, List.mem_filterMap]
  constructor
  · rintro ⟨a, ha, hsome⟩
    cases a with
    | trigger name' module' =>
      obtain ⟨rfl, rfl⟩ := Prod.mk.inj (Option.some.inj hsome)
      exact ha
    | register name' => cases hsome
    | append module' => cases hsome
  · intro h
    exact ⟨_, h, rfl⟩

/-- The chain of a name is what has been subscribed to it. -/
lemma subscriptionsTo_eq (as : List LoadAction) (name : String) :
    subscriptionsTo as name = ((subscribed as).filter fun s => s.1 = name).map Prod.snd := by
  induction as with
  | nil => rfl
  | cons a as ih =>
    rw [subscriptionsTo, subscribed] at *
    cases a with
    | register name' => simpa using ih
    | trigger name' module =>
      by_cases h : name' = name
      · simp [h, ih]
      · simp [h, ih]
    | append module => simpa using ih

end Order

/-- **Loading leaves the configured modules and nothing else**, as far as the table is concerned.
For every configuration that reaches the loop and names at most `MAX_EVENT_IDS` events, in
`pre_init` functions or triggers, and for whatever fails: the run list and the chains are those of
the modules that load.

**Proof sketch.** With room for all names every trigger gets an id, so the loop goes through
(`exec_actionStep_isOk_iff`), and `LoadInv` says what the steps leave. -/
lemma exists_loadedInOrder (env : Environment) (cfg : Cfg) {n : ℕ}
    (hcount : moduleCount cfg = some n)
    (hnames : (namesOf (actions env cfg n)).eraseDups.length ≤ maxEventIds) :
    ∃ e, loadMain env cfg = .ok (some e) ∧ LoadedInOrder env cfg n e := by
  have hstored : ∀ name module, LoadAction.trigger name module ∈ actions env cfg n →
      name ∈ FirstSeen.table maxEventIds (namesOf (actions env cfg n)) :=
    fun name module h => FirstSeen.mem_table_of_length_le hnames (mem_namesOf_of_trigger h)
  obtain ⟨e, he⟩ := (exec_actionStep_isOk_iff _).mpr hstored
  have hinv := loadInv_of_exec he
  have hmodules : e.registeredModules = (List.range n).filterMap (acceptedModule env cfg) := by
    rw [hinv.registered, appendedBy_actions]
  have hsubscribed : subscribed (actions env cfg n) = triggersOf cfg e.registeredModules := by
    rw [subscribed_actions, hmodules]
  have hmem : ∀ module, module ∈ e.registeredModules ↔ ∃ i < n, Configured env cfg i module := by
    intro module
    simp only [hmodules, List.mem_filterMap, List.mem_range, acceptedModule_eq_some_iff]
  refine ⟨e, by rw [loadMain_eq hcount, he]; rfl, ⟨hmem, ?_, hsubscribed, ?_, ?_, ?_, ?_, ?_⟩⟩
  · rw [hmodules, List.pairwise_map]
    exact pairwise_acceptedModule env cfg n
  · exact cfgGetString_triggerKey cfg
  · intro name module h
    rw [← hsubscribed, mem_subscribed] at h
    obtain ⟨k, hk⟩ := List.mem_iff_getElem?.mp (hstored name module h)
    obtain ⟨hlt, -⟩ := List.getElem?_eq_some_iff.mp hk
    refine ⟨⟨k, hlt.trans_le (FirstSeen.length_table_le _ _)⟩, ?_⟩
    rw [findEventName_of_numbers hinv.numbers]
    exact hk
  · intro k name hk
    rw [findEventName_of_numbers hinv.numbers] at hk
    rw [hinv.chain_of_name k name hk, subscriptionsTo_eq, hsubscribed]
  · intro k hk
    rw [findEventName_of_numbers hinv.numbers] at hk
    exact hinv.chain_of_free k hk
  · intro module hfailed
    constructor
    · intro h
      obtain ⟨i, -, hconf⟩ := (hmem module).mp h
      exact hfailed module (hconf.index_eq ▸ hconf)
    · intro k hk
      obtain ⟨name, htrigger⟩ := hinv.mem_chain_iff.mp ⟨k, hk⟩
      obtain ⟨i, -, haccepted, -⟩ := mem_actions_trigger.mp htrigger
      have hconf := acceptedModule_eq_some_iff.mp haccepted
      exact hfailed module (hconf.index_eq ▸ hconf)

/-- **Loading leaves the configured modules and nothing else exactly if every name is held by its
block.** The configuration reaches the loop and names at most `MAX_EVENT_IDS` events, in `pre_init`
functions or triggers; whatever else may fail. -/
theorem loadMainIn_inOrder_iff (malloc : Malloc) (env : Environment) (cfg : Cfg) {n : ℕ}
    (hcount : moduleCount cfg = some n)
    (hnames : (namesOf (actions env cfg n)).eraseDups.length ≤ maxEventIds) :
    (∃ e, loadMainIn malloc env cfg = .ok (some e) ∧ LoadedInOrder env cfg n e) ↔
      ∀ name ∈ namesOf (actions env cfg n), malloc.Holds name := by
  have hall : ∀ name, name ∈ FirstSeen.table maxEventIds (namesOf (actions env cfg n)) ↔
      name ∈ namesOf (actions env cfg n) :=
    fun name => ⟨FirstSeen.mem_of_mem_table, FirstSeen.mem_table_of_length_le hnames⟩
  constructor
  · rintro ⟨e, hload, -⟩ name hmem
    exact ((loadMainIn_eq_ok_iff hcount).mp hload).1 name ((hall name).mpr hmem)
  · intro hholds
    obtain ⟨e, hload, horder⟩ := exists_loadedInOrder env cfg hcount hnames
    refine ⟨e, (loadMainIn_eq_ok_iff hcount).mpr ⟨fun name hmem => ?_, hload⟩, horder⟩
    exact hholds name ((hall name).mp hmem)

/-- A main configuration of three modules: the second has no file, the third has two triggers, of
which one comes after a gap. -/
def threeModules : Cfg :=
  [⟨"interval", "0"⟩, ⟨"interval_type", "\"busy_wait\""⟩, ⟨"test_filename", "\"test.log\""⟩,
    ⟨"logfile", "\"main.log\""⟩, ⟨"module_count", "3"⟩, ⟨"module0_file", "\"si.so\""⟩,
    ⟨"module0_id", "\"si\""⟩, ⟨"module0_config", "\"SI.ini\""⟩,
    ⟨"module0_event_trigger_id1", "\"SAMPLE\""⟩, ⟨"module2_file", "\"ipc.so\""⟩,
    ⟨"module2_id", "\"ipc\""⟩, ⟨"module2_config", "\"ipc.ini\""⟩,
    ⟨"module2_event_trigger_id1", "\"TRIP\""⟩, ⟨"module2_event_trigger_id3", "\"SAMPLE\""⟩]

/-- All libraries load, and each `pre_init` registers `SAMPLE`. -/
def samplesOnly : Environment where
  dlopen := fun _ _ => some 1
  dlsym := fun _ _ => true
  preInit := fun _ => ⟨["SAMPLE"], 100, 0⟩

/-- Loading this configuration with the blocks of glibc. -/
theorem loadMainIn_inOrder_iff_threeModules :
    ∃ e, loadMainIn .glibc samplesOnly threeModules = .ok (some e) ∧
      LoadedInOrder samplesOnly threeModules 3 e :=
  (loadMainIn_inOrder_iff .glibc samplesOnly threeModules (by decide) (by decide)).mpr (by decide)

/-- All libraries load, and each `pre_init` registers the event of a relay. -/
def relayOnly : Environment where
  dlopen := fun _ _ => some 1
  dlsym := fun _ _ => true
  preInit := fun _ => ⟨["relay1_TRIP_VALUE_CHANGE"], 100, 0⟩

/-- **A name may leave its block**: the event of a module called `relay1` has 24 characters, for
which the block of glibc has 24 bytes. -/
theorem not_loadMainIn_inOrder_relay : moduleCount threeModules = some 3 ∧
    (namesOf (actions relayOnly threeModules 3)).eraseDups.length ≤ maxEventIds ∧
    ¬ ∃ e, loadMainIn .glibc relayOnly threeModules = .ok (some e) ∧
      LoadedInOrder relayOnly threeModules 3 e := by
  refine ⟨by decide, by decide, ?_⟩
  rintro ⟨e, hload, -⟩
  cases hload

end Tmee
