import Tmee.Engine.Loading
import Tmee.Lib.Fallible

set_option relaxedAutoImplicit false
set_option autoImplicit false

/-!
# Loading with the blocks of the names

The loading loop with `register_event_id` as it is: every name that is new in the table is copied
to a block that may be too small for it. A loading that keeps to its blocks is the loading of
`Tmee.loadMain`; one that leaves a block is over, since nothing is known of what the table says
from there on.

## Main definitions

* `Tmee.triggerStepIn`, `Tmee.triggerLoopIn`, `Tmee.registerAllIn`, `Tmee.loadModuleIn`,
  `Tmee.loadModulesIn`, `Tmee.loadMainIn` — the loops of `main` with an allocator.
* `Tmee.ChainsSafe` — every access to the array of chains is within its bounds, and triggers
  without an id change no chain.

## Main results

* `Tmee.loadMainIn_eq_ok_iff` — a loading that goes through, and where it leads.
* `Tmee.chainsSafe_iff` — the configurations for which the accesses are safe.
-/

namespace Tmee

section Load

variable (malloc : Malloc) (env : Environment) (cfg : Cfg)

/-- The body of the trigger loop: the id is passed on as it is, and so is the error value. -/
def triggerStepIn (e : Engine) (eventName : String) (module : ModuleObject) :
    Except Fault Engine := do
  let (id, e) ← registerEventId malloc e eventName
  let (_, e) ← subscribeEventId e id module
  .ok e

/-- The effect of an action. -/
def actionStepIn (e : Engine) : LoadAction → Except Fault Engine
  | .register eventName => do
    let (_, e) ← registerEventId malloc e eventName
    .ok e
  | .trigger eventName module => triggerStepIn malloc e eventName module
  | .append module => .ok { e with registeredModules := e.registeredModules ++ [module] }

/-- The trigger loop from `idx` on, with more rounds as fuel than the configuration has keys. -/
def triggerLoopIn (i : ℕ) (module : ModuleObject) : ℕ → ℕ → Engine → Except Fault Engine
  | 0, _, _ => .error .blocked
  | fuel + 1, idx, e =>
    match cfgGetString cfg (triggerKey i idx) with
    | none => .ok e
    | some eventName => do
      let e ← triggerStepIn malloc e eventName module
      triggerLoopIn i module fuel (idx + 1) e

/-- The registrations made by a `pre_init`. -/
def registerAllIn (e : Engine) : List String → Except Fault Engine
  | [] => .ok e
  | name :: names => do
    let (_, e) ← registerEventId malloc e name
    registerAllIn e names

/-- The body of the loading loop. -/
def loadModuleIn (i : ℕ) (e : Engine) : Except Fault Engine :=
  match openModule env cfg i with
  | none => .ok e
  | some opened => do
    let outcome := env.preInit opened
    let e ← registerAllIn malloc e outcome.registered
    if outcome.result ≠ 0 then .ok e
    else do
      let module := { opened with deadline := outcome.deadline }
      let e ← triggerLoopIn malloc cfg i module (cfg.length + 1) 1 e
      .ok { e with registeredModules := e.registeredModules ++ [module] }

/-- The loading loop for the module indices `0 .. n - 1`. -/
def loadModulesIn : ℕ → Engine → Except Fault Engine
  | 0, e => .ok e
  | n + 1, e => do
    let e ← loadModulesIn n e
    loadModuleIn malloc env cfg n e

/-- `main` up to the end of the loading loop; nothing if it returns before the loop. -/
def loadMainIn : Except Fault (Option Engine) :=
  match moduleCount cfg with
  | none => .ok none
  | some n => do
    let e ← loadModulesIn malloc env cfg n Engine.initial
    .ok (some e)

end Load

section Exec

variable {malloc : Malloc} {env : Environment} {cfg : Cfg} {i : ℕ}

/-- The trigger loop runs its body for each trigger, while there is fuel. -/
lemma triggerLoopIn_eq_of_lt {module : ModuleObject} {fuel idx : ℕ} (e : Engine)
    (h : (triggersFrom cfg i fuel idx).length < fuel) :
    triggerLoopIn malloc cfg i module fuel idx e = Run.exec (actionStepIn malloc) e
      ((triggersFrom cfg i fuel idx).map fun name => .trigger name module) := by
  induction fuel generalizing idx e with
  | zero => simp at h
  | succ fuel ih =>
    rw [triggerLoopIn, triggersFrom] at *
    cases hget : cfgGetString cfg (triggerKey i idx) with
    | none => rfl
    | some name =>
      simp only [hget, List.length_cons, Nat.add_lt_add_iff_right] at h
      simp only [List.map_cons, Run.exec, actionStepIn]
      cases triggerStepIn malloc e name module with
      | error f => rfl
      | ok e' => exact ih e' h

/-- The registrations of a `pre_init` are the run of their actions. -/
lemma registerAllIn_eq_exec (e : Engine) (names : List String) :
    registerAllIn malloc e names =
      Run.exec (actionStepIn malloc) e (names.map LoadAction.register) := by
  induction names generalizing e with
  | nil => rfl
  | cons name names ih =>
    rw [registerAllIn, List.map_cons, Run.exec, actionStepIn]
    cases registerEventId malloc e name with
    | error f => rfl
    | ok r => exact ih r.2

/-- One pass of the loading loop is the run of its actions. -/
lemma loadModuleIn_eq_exec (i : ℕ) (e : Engine) :
    loadModuleIn malloc env cfg i e =
      Run.exec (actionStepIn malloc) e (moduleActions env cfg i) := by
  rw [loadModuleIn, moduleActions, acceptedModule]
  cases hopen : openModule env cfg i with
  | none => rfl
  | some opened =>
    simp only [Option.elim_some, Option.bind_some]
    rw [Run.exec_append, ← registerAllIn_eq_exec]
    refine bind_congr fun e' => ?_
    by_cases hresult : (env.preInit opened).result ≠ 0
    · simp only [if_pos hresult]
      rfl
    · simp only [if_neg hresult, Option.elim_some]
      rw [Run.exec_append, triggers,
        ← triggerLoopIn_eq_of_lt _ (Nat.lt_succ_of_le (length_triggersFrom_le _ _))]
      rfl

/-- **The loading loop is the run of its actions.** -/
lemma loadModulesIn_eq_exec (n : ℕ) (e : Engine) :
    loadModulesIn malloc env cfg n e =
      Run.exec (actionStepIn malloc) e (actions env cfg n) := by
  induction n with
  | zero => rfl
  | succ n ih =>
    rw [loadModulesIn, ih, actions_succ, Run.exec_append]
    simp only [← loadModuleIn_eq_exec]
    rfl

/-- An action that goes through does what it does to the table alone, and a name that it adds to
the table is held by its block. -/
lemma actionStepIn_eq_ok_iff {as : List LoadAction} {e e' : Engine} (h : LoadInv as e)
    (a : LoadAction) :
    actionStepIn malloc e a = .ok e' ↔
      (∀ name ∈ FirstSeen.table maxEventIds (namesOf (as ++ [a])),
        name ∉ FirstSeen.table maxEventIds (namesOf as) → malloc.Holds name) ∧
      actionStep e a = .ok e' := by
  -- only the name of the action can be new
  have hnew : ∀ name, namesOf (as ++ [a]) = namesOf as ++ [name] →
      ((∀ name' ∈ FirstSeen.table maxEventIds (namesOf (as ++ [a])),
        name' ∉ FirstSeen.table maxEventIds (namesOf as) → malloc.Holds name') ↔
      (name ∈ FirstSeen.table maxEventIds (namesOf as ++ [name]) →
        name ∉ FirstSeen.table maxEventIds (namesOf as) → malloc.Holds name)) := by
    intro name hnames
    rw [hnames]
    refine ⟨fun hall => hall name, fun hone name' hmem hold => ?_⟩
    obtain rfl := (FirstSeen.mem_table_concat hmem).resolve_left hold
    exact hone hmem hold
  cases a with
  | register name =>
    rw [hnew name (namesOf_concat_register _ _), actionStepIn, Fallible.bind_eq_ok]
    simp only [registerEventId_eq_ok_iff h.numbers, and_assoc, exists_and_left, exists_eq_left',
      actionStep]
  | trigger name module =>
    rw [hnew name (namesOf_concat_trigger _ _ _), actionStepIn, triggerStepIn,
      Fallible.bind_eq_ok]
    simp only [registerEventId_eq_ok_iff h.numbers, and_assoc, exists_and_left, exists_eq_left',
      actionStep]
    rfl
  | append module =>
    rw [namesOf_concat_append]
    exact (and_iff_right fun _ hmem hold => absurd hmem hold).symm

/-- **Run lemma**: a run of actions goes through exactly if the table keeps to its blocks and every
trigger gets an id, and then it is the run on the table alone. -/
lemma exec_actionStepIn_eq_ok_iff {as : List LoadAction} {e : Engine} :
    Run.exec (actionStepIn malloc) Engine.initial as = .ok e ↔
      (∀ name ∈ FirstSeen.table maxEventIds (namesOf as), malloc.Holds name) ∧
        Run.exec actionStep Engine.initial as = .ok e := by
  induction as using List.reverseRecOn generalizing e with
  | nil => simp [namesOf]
  | append_singleton as a ih =>
    have hsplit : (∀ name ∈ FirstSeen.table maxEventIds (namesOf (as ++ [a])),
          malloc.Holds name) ↔
        (∀ name ∈ FirstSeen.table maxEventIds (namesOf as), malloc.Holds name) ∧
          ∀ name ∈ FirstSeen.table maxEventIds (namesOf (as ++ [a])),
            name ∉ FirstSeen.table maxEventIds (namesOf as) → malloc.Holds name := by
      have hprefix := FirstSeen.table_prefix_append maxEventIds (namesOf as) (namesOf [a])
      rw [← namesOf_append] at hprefix
      constructor
      · intro hall
        exact ⟨fun name hmem => hall name (List.IsPrefix.subset hprefix hmem),
          fun name hmem _ => hall name hmem⟩
      · rintro ⟨hold, hnew⟩ name hmem
        by_cases hname : name ∈ FirstSeen.table maxEventIds (namesOf as)
        · exact hold name hname
        · exact hnew name hmem hname
    rw [Run.exec_concat_eq_ok, Run.exec_concat_eq_ok, hsplit]
    constructor
    · rintro ⟨e', he', hstep⟩
      obtain ⟨hold, hexec⟩ := ih.mp he'
      obtain ⟨hnew, hstep'⟩ := (actionStepIn_eq_ok_iff (loadInv_of_exec hexec) a).mp hstep
      exact ⟨⟨hold, hnew⟩, e', hexec, hstep'⟩
    · rintro ⟨⟨hold, hnew⟩, e', hexec, hstep⟩
      exact ⟨e', ih.mpr ⟨hold, hexec⟩,
        (actionStepIn_eq_ok_iff (loadInv_of_exec hexec) a).mpr ⟨hnew, hstep⟩⟩

/-- **A loading that goes through** keeps to its blocks, and is then the loading on the table
alone. -/
lemma loadMainIn_eq_ok_iff {n : ℕ} (h : moduleCount cfg = some n) {r : Option Engine} :
    loadMainIn malloc env cfg = .ok r ↔
      (∀ name ∈ FirstSeen.table maxEventIds (namesOf (actions env cfg n)), malloc.Holds name) ∧
        loadMain env cfg = .ok r := by
  rw [loadMainIn, loadMain, h]
  simp only [loadModulesIn_eq_exec, loadModules_eq_exec, Fallible.bind_eq_ok,
    exec_actionStepIn_eq_ok_iff, and_assoc, exists_and_left]

end Exec

/-- **Accesses to the array of chains are safe**: loading keeps to the array and to the blocks of
the names it looks up, dispatch and clean-up stay within the array, and a trigger for which no id
could be allocated changes no chain. -/
structure ChainsSafe (malloc : Malloc) (env : Environment) (cfg : Cfg) : Prop where
  loading : ∃ r, loadMainIn malloc env cfg = .ok r
  dispatch : ∀ (e : Engine) (m : Type → Type) [Monad m] (event : ModuleObject → ℤ → m ℤ) (id : ℤ),
    ∃ act, runCallbackFunc e event id = .ok act
  cleanup : ∀ e : Engine, ∃ freed, freeChains e maxEventIds = .ok freed
  failed_trigger : ∀ n, moduleCount cfg = some n → ∀ pre name module e e',
    pre ++ [LoadAction.trigger name module] <+: actions env cfg n →
    Run.exec (actionStepIn malloc) Engine.initial pre = .ok e →
    registerEventId malloc e name = .ok (-1, e') →
    ∃ e'', triggerStepIn malloc e name module = .ok e'' ∧ e''.eventChains = e.eventChains

/-- **The accesses are safe exactly if every trigger of the configuration is one of the first
`MAX_EVENT_IDS` names, and all of these are held by their blocks**, counting the distinct names in
the order in which `pre_init` functions and triggers register them.

**Proof sketch.** A trigger outside these names is passed on with the id `-1` and takes the access
out of the array. Otherwise every trigger gets an id, so the loop goes through and no trigger
fails. -/
theorem chainsSafe_iff (malloc : Malloc) (env : Environment) (cfg : Cfg) :
    ChainsSafe malloc env cfg ↔ ∀ n, moduleCount cfg = some n →
      (∀ name ∈ FirstSeen.table maxEventIds (namesOf (actions env cfg n)), malloc.Holds name) ∧
      ∀ name module, LoadAction.trigger name module ∈ actions env cfg n →
        name ∈ FirstSeen.table maxEventIds (namesOf (actions env cfg n)) := by
  constructor
  · intro hsafe n hcount
    obtain ⟨r, hr⟩ := hsafe.loading
    obtain ⟨hholds, hload⟩ := (loadMainIn_eq_ok_iff hcount).mp hr
    refine ⟨hholds, (exec_actionStep_isOk_iff _).mp ?_⟩
    rw [loadMain_eq hcount] at hload
    cases hexec : Run.exec actionStep Engine.initial (actions env cfg n) with
    | ok e => exact ⟨e, rfl⟩
    | error f =>
      rw [hexec] at hload
      cases hload
  · intro hcond
    refine ⟨?_, fun e m _ event id => runCallbackFunc_isOk e event id,
      fun e => freeChains_isOk e le_rfl, ?_⟩
    · cases hcount : moduleCount cfg with
      | none => exact ⟨none, by rw [loadMainIn, hcount]⟩
      | some n =>
        obtain ⟨hholds, hstored⟩ := hcond n hcount
        obtain ⟨e, he⟩ := (exec_actionStep_isOk_iff _).mpr hstored
        exact ⟨some e, (loadMainIn_eq_ok_iff hcount).mpr
          ⟨hholds, by rw [loadMain_eq hcount, he]; rfl⟩⟩
    · intro n hcount pre name module e e' hpre he hfailed
      obtain ⟨rest, hrest⟩ := hpre
      have hinv := loadInv_of_exec (exec_actionStepIn_eq_ok_iff.mp he).2
      have hmem : name ∈ FirstSeen.table maxEventIds (namesOf pre ++ [name]) := by
        have hall := (hcond n hcount).2 name module (by simp [← hrest])
        rw [← hrest, namesOf_append, namesOf_concat_trigger] at hall
        exact (FirstSeen.mem_table_append_iff (by simp)).mp hall
      obtain ⟨-, -, -, hid⟩ := hinv.triggerStep_of_stored module hmem
      have hassigned := ((registerEventId_eq_ok_iff hinv.numbers).mp hfailed).2
      exact absurd (congrArg Prod.fst hassigned) hid

/-- A configuration with one module, whose only trigger is called `TRIP`. -/
def oneTrigger : Cfg :=
  [⟨"interval", "0"⟩, ⟨"interval_type", "\"busy_wait\""⟩, ⟨"test_filename", "\"test.log\""⟩,
    ⟨"logfile", "\"main.log\""⟩, ⟨"module_count", "1"⟩, ⟨"module0_file", "\"si.so\""⟩,
    ⟨"module0_id", "\"si\""⟩, ⟨"module0_config", "\"SI.ini\""⟩,
    ⟨"module0_event_trigger_id1", "\"TRIP\""⟩]

/-- As many distinct names as there are ids, `E0` to `E99`. -/
def fullNames : List String := (List.range maxEventIds).map fun k => s!"E{k}"

/-- All libraries load, and each `pre_init` registers `fullNames`. -/
def fullTable : Environment where
  dlopen := fun _ _ => some 1
  dlsym := fun _ _ => true
  preInit := fun _ => ⟨fullNames, 100, 0⟩

lemma nodup_fullNames : fullNames.Nodup := by
  decide +kernel

lemma not_mem_fullNames : "TRIP" ∉ fullNames := by
  decide +kernel

/-- **The accesses are not safe in general**: if a `pre_init` registers one hundred names, the
trigger `TRIP` gets no id, and `event_chains[-1]` is accessed. -/
theorem not_chainsSafe_fullTable : ¬ ChainsSafe .glibc fullTable oneTrigger := by
  have hcount : moduleCount oneTrigger = some 1 := by decide
  have hactions : actions fullTable oneTrigger 1 =
      fullNames.map LoadAction.register ++ [.trigger "TRIP" ⟨0, 1, "si", "SI.ini", 100, 0⟩,
        .append ⟨0, 1, "si", "SI.ini", 100, 0⟩] := rfl
  have hnames : namesOf (actions fullTable oneTrigger 1) = fullNames ++ ["TRIP"] := by
    simp [hactions, namesOf, List.filterMap_append]
  intro hsafe
  obtain ⟨r, hr⟩ := hsafe.loading
  obtain ⟨-, hload⟩ := (loadMainIn_eq_ok_iff hcount).mp hr
  rw [loadMain_eq hcount] at hload
  cases hexec : Run.exec actionStep Engine.initial (actions fullTable oneTrigger 1) with
  | error f =>
    rw [hexec] at hload
    cases hload
  | ok e =>
    have hmem : LoadAction.trigger "TRIP" ⟨0, 1, "si", "SI.ini", 100, 0⟩ ∈
        actions fullTable oneTrigger 1 := by
      simp [hactions]
    have hstored := (loadInv_of_exec hexec).stored _ _ hmem
    rw [hnames] at hstored
    exact FirstSeen.not_mem_table_concat nodup_fullNames (by simp [fullNames]) not_mem_fullNames
      hstored

end Tmee
