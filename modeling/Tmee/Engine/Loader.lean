import Mathlib.Data.List.Perm.Subperm
import Tmee.CfgParse
import Tmee.Engine.Events
import Tmee.Lib.Run

set_option relaxedAutoImplicit false
set_option autoImplicit false

/-!
# Loading the modules

The part of `main` from the main configuration to the end of the loading loop. What lies outside
`main.c` is a parameter: which libraries and symbols are found and what each `pre_init` does.

## Main definitions

* `Tmee.Environment` — the outcomes of `dlopen`, `dlsym` and `pre_init`.
* `Tmee.openModule`, `Tmee.triggerLoop`, `Tmee.loadModule`, `Tmee.loadModules`, `Tmee.loadMain`.
* `Tmee.freeChains` — the part of `clean_all` that walks over the chains.
* `Tmee.LoadAction`, `Tmee.actions` — what the loop does to the globals, as a list of steps.

## Main results

* `Tmee.triggerLoop_eq_exec` — the trigger loop ends, and subscribes the triggers in order.
* `Tmee.loadModules_eq_exec` — the loading loop is the run of its actions.
-/

namespace Tmee

/-- The six functions looked up in a library. -/
inductive Symbol
  | preInit | init | run | test | event | deinit
  deriving DecidableEq, Repr

/-- What a call of `pre_init` does as far as the engine can see. -/
structure PreInit where
  /-- The names passed to `register_event_cb`, in order. -/
  registered : List String
  /-- The value of the field `deadline` afterwards. -/
  deadline : ℤ
  result : ℤ
  deriving DecidableEq, Repr

/-- What is outside `main.c`. -/
structure Environment where
  /-- The handle of the library opened for a module, by module index and file name. -/
  dlopen : ℕ → String → Option ℕ
  dlsym : ℕ → Symbol → Bool
  preInit : ModuleObject → PreInit

/-- One step of the loading loop on the globals. -/
inductive LoadAction
  /-- A registration made by `pre_init`. -/
  | register (eventName : String)
  /-- An event trigger of the configuration. -/
  | trigger (eventName : String) (module : ModuleObject)
  /-- The module is added to the run list. -/
  | append (module : ModuleObject)
  deriving DecidableEq, Repr

/-- The body of the trigger loop: the id is passed on as it is, and so is the error value. -/
def triggerStep (e : Engine) (eventName : String) (module : ModuleObject) :
    Except Fault Engine := do
  let (id, e) := assignEventId e eventName
  let (_, e) ← subscribeEventId e id module
  .ok e

/-- The effect of an action. -/
def actionStep (e : Engine) : LoadAction → Except Fault Engine
  | .register eventName => .ok (assignEventId e eventName).2
  | .trigger eventName module => triggerStep e eventName module
  | .append module => .ok { e with registeredModules := e.registeredModules ++ [module] }

section Load

variable (env : Environment) (cfg : Cfg)

/-- The settings read before the loop: all must be there, and at most 10000 modules are allowed. A
negative count means no module. -/
def moduleCount : Option ℕ := do
  let _ ← cfgGetInt cfg "interval"
  let _ ← cfgGetString cfg "interval_type"
  let _ ← cfgGetString cfg "test_filename"
  let _ ← cfgGetString cfg "logfile"
  let modules ← cfgGetInt cfg "module_count"
  if modules > 10000 then none else some modules.toNat

/-- The loop body up to `pre_init`: the module object, or nothing if the loop goes on without it.
The value of `register_run` stays `0` if there is none. -/
def openModule (i : ℕ) : Option ModuleObject := do
  let moduleFile ← cfgGetString cfg s!"module{i}_file"
  let lib ← env.dlopen i moduleFile
  if [Symbol.preInit, .init, .run, .test, .event, .deinit].all (env.dlsym lib) then
    let moduleId ← cfgGetString cfg s!"module{i}_id"
    let moduleConfig ← cfgGetString cfg s!"module{i}_config"
    let runEnabled := (cfgGetInt cfg s!"module{i}_register_run").getD 0
    some ⟨i, lib, moduleId, moduleConfig, -1, runEnabled⟩
  else none

/-- The key of a trigger. -/
def triggerKey (i idx : ℕ) : String := s!"module{i}_event_trigger_id{idx}"

/-- The trigger loop from `idx` on. Every round needs one more key of the configuration, so the
loop ends within `fuel` rounds if `fuel` exceeds the number of keys. -/
def triggerLoop (i : ℕ) (module : ModuleObject) : ℕ → ℕ → Engine → Except Fault Engine
  | 0, _, _ => .error .blocked
  | fuel + 1, idx, e =>
    match cfgGetString cfg (triggerKey i idx) with
    | none => .ok e
    | some eventName => do
      let e ← triggerStep e eventName module
      triggerLoop i module fuel (idx + 1) e

/-- Registrations in order; the ids returned are the module's business. -/
def registerAll (e : Engine) : List String → Engine
  | [] => e
  | name :: names => registerAll (assignEventId e name).2 names

/-- The body of the loading loop. -/
def loadModule (i : ℕ) (e : Engine) : Except Fault Engine :=
  match openModule env cfg i with
  | none => .ok e
  | some opened =>
    let outcome := env.preInit opened
    let e := registerAll e outcome.registered
    if outcome.result ≠ 0 then .ok e
    else do
      let module := { opened with deadline := outcome.deadline }
      let e ← triggerLoop cfg i module (cfg.length + 1) 1 e
      .ok { e with registeredModules := e.registeredModules ++ [module] }

/-- The loading loop for the module indices `0 .. n - 1`. -/
def loadModules : ℕ → Engine → Except Fault Engine
  | 0, e => .ok e
  | n + 1, e => do
    let e ← loadModules n e
    loadModule env cfg n e

/-- The last loop of `clean_all`: the number of chain elements freed from index `0` up to `n`. -/
def freeChains (e : Engine) : ℕ → Except Fault ℕ
  | 0 => .ok 0
  | n + 1 => do
    let freed ← freeChains e n
    let i ← chainIndex n
    .ok (freed + (e.eventChains i).length)

/-- `main` up to the end of the loading loop; nothing if it returns before the loop. -/
def loadMain : Except Fault (Option Engine) :=
  match moduleCount cfg with
  | none => .ok none
  | some n => do
    let e ← loadModules env cfg n Engine.initial
    .ok (some e)

/-- The names of the triggers from `idx` on, up to the first that cannot be read. -/
def triggersFrom (i : ℕ) : ℕ → ℕ → List String
  | 0, _ => []
  | fuel + 1, idx =>
    match cfgGetString cfg (triggerKey i idx) with
    | none => []
    | some eventName => eventName :: triggersFrom i fuel (idx + 1)

/-- The triggers of a module. -/
def triggers (i : ℕ) : List String := triggersFrom cfg i (cfg.length + 1) 1

/-- The module object that ends in the run list, if the module with this index does. -/
def acceptedModule (i : ℕ) : Option ModuleObject :=
  (openModule env cfg i).bind fun opened =>
    if (env.preInit opened).result ≠ 0 then none
    else some { opened with deadline := (env.preInit opened).deadline }

/-- The actions of one pass of the loading loop. -/
def moduleActions (i : ℕ) : List LoadAction :=
  ((openModule env cfg i).elim [] fun opened =>
      (env.preInit opened).registered.map LoadAction.register) ++
    (acceptedModule env cfg i).elim [] fun module =>
      (triggers cfg i).map (fun name => .trigger name module) ++ [.append module]

/-- The actions of the loading loop for the module indices `0 .. n - 1`. -/
def actions (n : ℕ) : List LoadAction := (List.range n).flatMap (moduleActions env cfg)

end Load

lemma triggerKey_toList (i idx : ℕ) : ∃ cs d, isBlank d = false ∧
    (triggerKey i idx).toList = 'm' :: cs ++ [d] := by
  have hdigits : idx.repr.toList ≠ [] := by simp
  obtain ⟨ds, d, hd⟩ : ∃ ds d, idx.repr.toList = ds ++ [d] :=
    ⟨_, _, (List.dropLast_append_getLast hdigits).symm⟩
  have hdigit : d.isDigit := by
    apply Nat.isDigit_of_mem_toDigits (b := 10) (n := idx) (by decide) (by decide)
    rw [← Nat.toList_repr, hd]
    simp
  have hblank : isBlank d = false := by
    by_contra hcon
    simp only [isBlank, Bool.not_eq_false, Bool.or_eq_true, beq_iff_eq] at hcon
    rcases hcon with (rfl | rfl) | rfl <;> revert hdigit <;> decide
  refine ⟨"odule".toList ++ (i.repr.toList ++ ("_event_trigger_id".toList ++ ds)), d, hblank, ?_⟩
  simp only [triggerKey, String.toList_append, hd, toString]
  simp

/-- Trigger keys are looked up as they are. -/
lemma cfgTrim_triggerKey (i idx : ℕ) : cfgTrim (triggerKey i idx) = triggerKey i idx := by
  obtain ⟨cs, d, hd, hlist⟩ := triggerKey_toList i idx
  exact cfgTrim_eq_self (by decide) hd hlist

/-- Different triggers of a module have different keys. -/
lemma triggerKey_injective (i : ℕ) : Function.Injective (triggerKey i) := by
  intro j k h
  have hlist := congrArg String.toList h
  simp only [triggerKey, String.toList_append, toString] at hlist
  have hdigits : Nat.toDigits 10 j = Nat.toDigits 10 k := by simpa using hlist
  simpa using congrArg (fun ds => Nat.ofDigitChars 10 ds 0) hdigits

section Triggers

variable {cfg : Cfg} {i : ℕ}

/-- The triggers are read from consecutive keys. -/
lemma cfgGetString_of_lt_length {fuel idx k : ℕ} (h : k < (triggersFrom cfg i fuel idx).length) :
    cfgGetString cfg (triggerKey i (idx + k)) = (triggersFrom cfg i fuel idx)[k]? := by
  fun_induction triggersFrom cfg i fuel idx generalizing k with
  | case1 idx => simp at h
  | case2 fuel idx hnone => simp at h
  | case3 fuel idx name hsome ih =>
    cases k with
    | zero => simpa using hsome
    | succ k =>
      have hk := ih (by simpa using h)
      rwa [show idx + (k + 1) = idx + 1 + k by omega]

/-- A module has at most as many triggers as the configuration has nodes.

**Proof sketch.** Each trigger is found under a key of its own. -/
lemma length_triggersFrom_le (fuel idx : ℕ) :
    (triggersFrom cfg i fuel idx).length ≤ cfg.length := by
  set n := (triggersFrom cfg i fuel idx).length with hn
  have hnodup : ((List.range n).map fun k => triggerKey i (idx + k)).Nodup := by
    apply List.nodup_range.map
    intro j k hjk
    exact Nat.add_left_cancel (triggerKey_injective i hjk)
  have hsubset : ((List.range n).map fun k => triggerKey i (idx + k)) ⊆
      cfg.map CfgNode.key := by
    intro key hkey
    obtain ⟨k, hk, rfl⟩ := List.mem_map.mp hkey
    rw [List.mem_range, hn] at hk
    rw [← cfgTrim_triggerKey]
    exact mem_keys_of_cfgGetString
      ((cfgGetString_of_lt_length hk).trans (List.getElem?_eq_getElem hk))
  simpa using (hnodup.subperm hsubset).length_le

/-- The triggers stop at a key that cannot be read. -/
lemma cfgGetString_length {fuel idx : ℕ} (h : (triggersFrom cfg i fuel idx).length < fuel) :
    cfgGetString cfg (triggerKey i (idx + (triggersFrom cfg i fuel idx).length)) = none := by
  fun_induction triggersFrom cfg i fuel idx with
  | case1 idx => simp at h
  | case2 fuel idx hnone => simpa using hnone
  | case3 fuel idx name hsome ih =>
    have hlast := ih (by simpa using h)
    rwa [List.length_cons, Nat.add_comm _ 1, ← Nat.add_assoc]

/-- The trigger loop runs its body for each trigger, while there is fuel. -/
lemma triggerLoop_eq_of_lt {module : ModuleObject} {fuel idx : ℕ} (e : Engine)
    (h : (triggersFrom cfg i fuel idx).length < fuel) :
    triggerLoop cfg i module fuel idx e = Run.exec actionStep e
      ((triggersFrom cfg i fuel idx).map fun name => .trigger name module) := by
  induction fuel generalizing idx e with
  | zero => simp at h
  | succ fuel ih =>
    rw [triggerLoop, triggersFrom] at *
    cases hget : cfgGetString cfg (triggerKey i idx) with
    | none => rfl
    | some name =>
      simp only [hget, List.length_cons, Nat.add_lt_add_iff_right] at h
      simp only [List.map_cons, Run.exec, actionStep]
      cases triggerStep e name module with
      | error f => rfl
      | ok e' => exact ih e' h

/-- **The trigger loop ends**, after subscribing the module to its triggers in order. -/
lemma triggerLoop_eq_exec (module : ModuleObject) (e : Engine) :
    triggerLoop cfg i module (cfg.length + 1) 1 e = Run.exec actionStep e
      ((triggers cfg i).map fun name => .trigger name module) :=
  triggerLoop_eq_of_lt e (Nat.lt_succ_of_le (length_triggersFrom_le _ _))

/-- **The triggers of a module** are the values of `event_trigger_id1`, `event_trigger_id2`, ..
up to the first that is missing or cannot be read. -/
lemma cfgGetString_triggerKey (cfg : Cfg) (i : ℕ) :
    (∀ k < (triggers cfg i).length,
      cfgGetString cfg (triggerKey i (1 + k)) = (triggers cfg i)[k]?) ∧
    cfgGetString cfg (triggerKey i (1 + (triggers cfg i).length)) = none :=
  ⟨fun _ => cfgGetString_of_lt_length,
    cfgGetString_length (Nat.lt_succ_of_le (length_triggersFrom_le _ _))⟩

end Triggers

section Exec

variable {env : Environment} {cfg : Cfg}

lemma exec_register (e : Engine) (names : List String) :
    Run.exec actionStep e (names.map LoadAction.register) = .ok (registerAll e names) := by
  induction names generalizing e with
  | nil => rfl
  | cons name names ih => exact ih (assignEventId e name).2

/-- One pass of the loading loop is the run of its actions. -/
lemma loadModule_eq_exec (i : ℕ) (e : Engine) :
    loadModule env cfg i e = Run.exec actionStep e (moduleActions env cfg i) := by
  rw [loadModule, moduleActions, acceptedModule]
  cases hopen : openModule env cfg i with
  | none => rfl
  | some opened =>
    simp only [Option.elim_some, Option.bind_some]
    rw [Run.exec_append, exec_register]
    by_cases hresult : (env.preInit opened).result ≠ 0
    · simp only [if_pos hresult]
      rfl
    · simp only [if_neg hresult, Option.elim_some]
      show _ = Run.exec actionStep (registerAll e (env.preInit opened).registered) (_ ++ _)
      rw [Run.exec_append, ← triggerLoop_eq_exec]
      rfl

/-- The last pass of the loading loop comes last. -/
lemma actions_succ (env : Environment) (cfg : Cfg) (n : ℕ) :
    actions env cfg (n + 1) = actions env cfg n ++ moduleActions env cfg n := by
  simp [actions, List.range_succ]

/-- **The loading loop is the run of its actions.** -/
lemma loadModules_eq_exec (n : ℕ) (e : Engine) :
    loadModules env cfg n e = Run.exec actionStep e (actions env cfg n) := by
  induction n with
  | zero => rfl
  | succ n ih =>
    rw [loadModules, ih, actions_succ, Run.exec_append]
    simp only [← loadModule_eq_exec]
    rfl

end Exec

end Tmee
