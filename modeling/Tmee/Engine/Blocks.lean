import Mathlib.Data.Finset.Image
import Mathlib.Data.Finset.Union
import Tmee.CfgLoad
import Tmee.Engine.InitModules
import Tmee.Engine.LoadOrder
import Tmee.Lib.Ledger

set_option relaxedAutoImplicit false
set_option autoImplicit false

/-!
# What `main` allocates

`main` from its first line to its last, with everything that it allocates or opens and gives back:
the configuration and its settings, the object, library and strings of each module, the event table
and the chains. Memory that has been freed keeps its contents here, so the links that the walks
follow in it are not seen.

## Main definitions

* `Tmee.Block` — what is allocated or opened.
* `Tmee.openModuleCode`, `Tmee.loadModuleCode`, `Tmee.initModulesCode`, `Tmee.cleanAll`,
  `Tmee.mainCode` — the functions on these.
* `Tmee.owned` — what the globals of the engine own.
* `Tmee.refusedLibs` — the libraries of the modules that are refused.

## Main results

* `Tmee.loadModuleCode_eq` — a turn of the loading loop does what `loadModule` says, and holds what
  the globals own afterwards.
* `Tmee.finish_eq` — the end of `main` releases all of it.
* `Tmee.main_accounts` — `main` releases nothing twice, and keeps just the libraries of refused
  modules.
-/

namespace Tmee

open Ledger

/-- What `main` allocates or opens. -/
inductive Block
  | config
  | intervalType
  | testFilename
  | logfile
  | moduleFile (i : ℕ)
  | moduleInstance (i : ℕ)
  /-- What `dlopen` returns. -/
  | lib (i : ℕ)
  | moduleId (i : ℕ)
  | moduleConfig (i : ℕ)
  /-- The string `event_name` of a trigger. -/
  | triggerName (i idx : ℕ)
  /-- An entry of `event_ids`. -/
  | eventTable (id : ℤ)
  /-- The name in such an entry. -/
  | eventName (id : ℤ)
  /-- An element of a chain. -/
  | eventChain (i : Fin maxEventIds) (j : ℕ)
  deriving DecidableEq

/-! ## The functions -/

/-- `cfg_get_string`, which allocates the text. -/
def getString (cfg : Cfg) (key : String) (block : Block) : Code Block (Option String) :=
  match cfgGetString cfg key with
  | none => pure none
  | some value => do
    let _ ← acquire true block
    return some value

/-- `register_event_id`. -/
def registerCode (e : Engine) (eventName : String) : Code Block (ℤ × Engine) :=
  match e.eventIds.find? (fun entry => entry.name = eventName) with
  | some entry => pure (entry.id, e)
  | none =>
    let index := e.eventIds.length
    if index ≥ maxEventIds then pure (-1, e)
    else do
      let _ ← acquire true (.eventTable index)
      let _ ← acquire true (.eventName index)
      return (index, { e with eventIds := ⟨index, eventName⟩ :: e.eventIds })

/-- `subscribe_event_id`. An access outside the array is one to memory that is not held. -/
def subscribeCode (e : Engine) (eventId : ℤ) (module : ModuleObject) : Code Block Engine :=
  if eventId ≥ maxEventIds then pure e
  else
    match chainIndex eventId with
    | .error _ => throw Misuse.notHeld
    | .ok i => do
      let _ ← acquire true (.eventChain i (e.eventChains i).length)
      return e.appendToChain i module

/-- The registrations that a `pre_init` makes. -/
def registerAllCode (e : Engine) : List String → Code Block Engine
  | [] => pure e
  | name :: names => do
    let (_, e) ← registerCode e name
    registerAllCode e names

section Load

variable (env : Environment) (cfg : Cfg)

/-- The loop body up to `pre_init`. A module that is refused gives back what it has got, but not its
library. -/
def openModuleCode (i : ℕ) : Code Block (Option ModuleObject) := do
  match ← getString cfg s!"module{i}_file" (.moduleFile i) with
  | none => return none
  | some moduleFile =>
    let _ ← acquire true (.moduleInstance i)
    match env.dlopen i moduleFile with
    | none =>
      releaseAll [.moduleFile i, .moduleInstance i]
      return none
    | some lib =>
      let _ ← acquire true (.lib i)
      releaseAll [.moduleFile i]
      if [Symbol.preInit, .init, .run, .test, .event, .deinit].all (env.dlsym lib) then
        match ← getString cfg s!"module{i}_id" (.moduleId i) with
        | none =>
          releaseAll [.moduleInstance i]
          return none
        | some moduleId =>
          match ← getString cfg s!"module{i}_config" (.moduleConfig i) with
          | none =>
            releaseAll [.moduleId i, .moduleInstance i]
            return none
          | some moduleConfig =>
            let runEnabled := (cfgGetInt cfg s!"module{i}_register_run").getD 0
            return some ⟨i, lib, moduleId, moduleConfig, -1, runEnabled⟩
      else
        releaseAll [.moduleInstance i]
        return none

/-- The trigger loop; it ends before the fuel does. -/
def triggerLoopCode (i : ℕ) (module : ModuleObject) : ℕ → ℕ → Engine → Code Block Engine
  | 0, _, _ => throw Misuse.notHeld
  | fuel + 1, idx, e => do
    match ← getString cfg (triggerKey i idx) (.triggerName i idx) with
    | none => return e
    | some eventName =>
      let (id, e) ← registerCode e eventName
      let e ← subscribeCode e id module
      releaseAll [.triggerName i idx]
      triggerLoopCode i module fuel (idx + 1) e

/-- The loop body. -/
def loadModuleCode (i : ℕ) (e : Engine) : Code Block Engine := do
  match ← openModuleCode env cfg i with
  | none => return e
  | some opened =>
    let outcome := env.preInit opened
    let e ← registerAllCode e outcome.registered
    if outcome.result ≠ 0 then
      releaseAll [.moduleId i, .moduleConfig i, .moduleInstance i]
      return e
    else
      let module := { opened with deadline := outcome.deadline }
      let e ← triggerLoopCode cfg i module (cfg.length + 1) 1 e
      return { e with registeredModules := e.registeredModules ++ [module] }

/-- The loading loop. -/
def loadModulesCode : ℕ → Engine → Code Block Engine
  | 0, e => pure e
  | n + 1, e => do
    let e ← loadModulesCode n e
    loadModuleCode env cfg n e

end Load

/-- What a module in the run list owns. -/
def moduleBlocks (module : ModuleObject) : List Block :=
  [.moduleId module.index, .moduleConfig module.index, .lib module.index,
    .moduleInstance module.index]

/-- What an entry of the event table owns. -/
def entryBlocks (entry : EventTable) : List Block := [.eventName entry.id, .eventTable entry.id]

/-- The elements of a chain. -/
def chainBlocks (e : Engine) (i : Fin maxEventIds) : List Block :=
  (List.range (e.eventChains i).length).map (.eventChain i)

/-- `init_modules`, for what each call of `init` registers and returns: a module that fails is
unloaded. -/
def initModulesCode (init : ModuleObject → List String × ℤ) :
    List ModuleObject → Engine → Code Block Engine
  | [], e => pure e
  | module :: modules, e => do
    let e ← registerAllCode e (init module).1
    if (init module).2 ≠ 0 then
      releaseAll (moduleBlocks module)
      initModulesCode init modules
        { e with registeredModules := e.registeredModules.erase module }
    else initModulesCode init modules e

/-- `clean_all`. -/
def cleanAll (e : Engine) : Code Block Unit := do
  forM e.registeredModules fun module => releaseAll (moduleBlocks module)
  forM e.eventIds fun entry => releaseAll (entryBlocks entry)
  forM (List.finRange maxEventIds) fun i => releaseAll (chainBlocks e i)

/-- The settings that `main` keeps, and the configuration. -/
def settings : List Block := [.intervalType, .testFilename, .logfile, .config]

/-- The end of `main`. -/
def finish (e : Engine) (code : ℤ) : Code Block ℤ := do
  cleanAll e
  releaseAll settings
  return code

/-- `main` from the loading loop on, for what the calls of `init` do and the names that modules
register while they run. Nothing else is allocated in the run loop. -/
def loadAndRun (env : Environment) (cfg : Cfg) (init : ModuleObject → List String × ℤ)
    (running : List String) (modules : ℕ) : Code Block ℤ := do
  let e ← loadModulesCode env cfg modules Engine.initial
  if e.registeredModules = [] then finish e (-1)
  else
    let e ← initModulesCode init e.registeredModules e
    if e.registeredModules = [] then finish e (-1)
    else
      let e ← registerAllCode e running
      finish e 0

/-- `main`, for a configuration file that cannot be opened or has the given content. -/
def mainCode (env : Environment) (file : Option String)
    (init : ModuleObject → List String × ℤ) (running : List String) : Code Block ℤ := do
  let _ ← acquire true .config
  let (code, cfg) := cfgLoad [] file
  if code ≠ 0 then return -1
  else
    match cfgGetInt cfg "interval" with
    | none => return -1
    | some _ =>
      match ← getString cfg "interval_type" .intervalType with
      | none => return -1
      | some _ =>
        match ← getString cfg "test_filename" .testFilename with
        | none => return -1
        | some _ =>
          match ← getString cfg "logfile" .logfile with
          | none => return -1
          | some _ =>
            match cfgGetInt cfg "module_count" with
            | none => return -1
            | some modules =>
              if modules > 10000 then return -1
              else loadAndRun env cfg init running modules.toNat

/-! ## What the globals own -/

/-- What `clean_all` releases, in its order. -/
def ownedBlocks (e : Engine) : List Block :=
  e.registeredModules.flatMap moduleBlocks ++ e.eventIds.flatMap entryBlocks ++
    (List.finRange maxEventIds).flatMap (chainBlocks e)

/-- What the globals own. -/
def owned (e : Engine) : Finset Block := (ownedBlocks e).toFinset

/-- A library is opened for the module. -/
def LibOpened (env : Environment) (cfg : Cfg) (i : ℕ) : Prop :=
  ((cfgGetString cfg s!"module{i}_file").bind (env.dlopen i)).isSome

instance decidableLibOpened (env : Environment) (cfg : Cfg) (i : ℕ) :
    Decidable (LibOpened env cfg i) :=
  inferInstanceAs (Decidable (_ = true))

/-- The libraries of the modules below `n` that are refused after they have been opened. -/
def refusedLibs (env : Environment) (cfg : Cfg) (n : ℕ) : Finset Block :=
  ((Finset.range n).filter fun i =>
    LibOpened env cfg i ∧ acceptedModule env cfg i = none).image Block.lib

/-- What the code gives for a result of the engine, if it holds `rest` besides what the globals
own. -/
def holding (rest : Finset Block) : Except Fault Engine → Except Misuse (Engine × Finset Block)
  | .error _ => .error .notHeld
  | .ok e => .ok (e, rest ∪ owned e)

section Owned

variable {e : Engine} {b : Block} {rest : Finset Block}

lemma mem_owned : b ∈ owned e ↔ (∃ m ∈ e.registeredModules, b ∈ moduleBlocks m) ∨
    (∃ entry ∈ e.eventIds, b ∈ entryBlocks entry) ∨ ∃ i, b ∈ chainBlocks e i := by
  simp [owned, ownedBlocks]

lemma mem_chainBlocks {i : Fin maxEventIds} :
    b ∈ chainBlocks e i ↔ ∃ j < (e.eventChains i).length, b = .eventChain i j := by
  simp [chainBlocks, eq_comm]

lemma owned_register (entry : EventTable) :
    owned { e with eventIds := entry :: e.eventIds } =
      insert (.eventName entry.id) (insert (.eventTable entry.id) (owned e)) := by
  ext b
  have hentry : b ∈ entryBlocks entry ↔ b = .eventName entry.id ∨ b = .eventTable entry.id := by
    simp [entryBlocks]
  simp only [Finset.mem_insert, mem_owned, List.exists_mem_cons_iff, hentry, chainBlocks]
  rw [or_assoc, or_assoc, or_left_comm, or_left_comm (a := ∃ m ∈ e.registeredModules, _)]

lemma owned_appendToChain (i : Fin maxEventIds) (module : ModuleObject) :
    owned (e.appendToChain i module) =
      insert (.eventChain i (e.eventChains i).length) (owned e) := by
  ext b
  have hchains : (∃ j, b ∈ chainBlocks (e.appendToChain i module) j) ↔
      b = .eventChain i (e.eventChains i).length ∨ ∃ j, b ∈ chainBlocks e j := by
    simp only [mem_chainBlocks]
    constructor
    · rintro ⟨j, k, hk, rfl⟩
      by_cases hj : j = i
      · subst hj
        rw [appendToChain_self, List.length_append, List.length_singleton] at hk
        by_cases hlast : k = (e.eventChains j).length
        · exact Or.inl (by rw [hlast])
        · exact Or.inr ⟨j, k, by omega, rfl⟩
      · rw [appendToChain_of_ne e hj] at hk
        exact Or.inr ⟨j, k, hk, rfl⟩
    · rintro (rfl | ⟨j, k, hk, rfl⟩)
      · exact ⟨i, _, by simp [appendToChain_self], rfl⟩
      · refine ⟨j, k, hk.trans_le ?_, rfl⟩
        by_cases hj : j = i
        · subst hj
          simp [appendToChain_self]
        · rw [appendToChain_of_ne e hj]
  rw [Finset.mem_insert, mem_owned, mem_owned, hchains]
  simp only [Engine.appendToChain]
  rw [or_left_comm (a := b = _), or_left_comm (a := b = _)]

/-- One module more in the run list. -/
lemma owned_perm {module : ModuleObject} {modules : List ModuleObject}
    (h : e.registeredModules.Perm (module :: modules)) :
    owned e = owned { e with registeredModules := modules } ∪ (moduleBlocks module).toFinset := by
  ext b
  have hmodules : (∃ m ∈ e.registeredModules, b ∈ moduleBlocks m) ↔
      b ∈ moduleBlocks module ∨ ∃ m ∈ modules, b ∈ moduleBlocks m := by
    simp [h.mem_iff]
  rw [Finset.mem_union, mem_owned, mem_owned, hmodules, List.mem_toFinset, or_assoc, or_comm]
  rfl

/-- The blocks of a module are owned by the run list. -/
lemma mem_owned_iff {i : ℕ}
    (hb : b ∈ [Block.moduleId i, .moduleConfig i, .lib i, .moduleInstance i]) :
    b ∈ owned e ↔ ∃ m ∈ e.registeredModules, m.index = i := by
  have hmodules : ∀ m : ModuleObject, b ∈ moduleBlocks m ↔ m.index = i := by
    intro m
    simp only [moduleBlocks, List.mem_cons, List.not_mem_nil, or_false] at hb ⊢
    rcases hb with rfl | rfl | rfl | rfl <;> simp [eq_comm]
  have hentries : ∀ entry, b ∉ entryBlocks entry := by
    intro entry
    simp only [entryBlocks, List.mem_cons, List.not_mem_nil, or_false] at hb ⊢
    rcases hb with rfl | rfl | rfl | rfl <;> simp
  have hchains : ∀ i, b ∉ chainBlocks e i := by
    intro i
    simp only [chainBlocks, List.mem_cons, List.not_mem_nil, or_false] at hb ⊢
    rcases hb with rfl | rfl | rfl | rfl <;> simp
  simp [mem_owned, hmodules, hentries, hchains]

/-- Only blocks of these three kinds are owned. -/
lemma notMem_owned (hmodules : ∀ m, b ∉ moduleBlocks m) (hentries : ∀ entry, b ∉ entryBlocks entry)
    (hchains : ∀ i j, b ≠ .eventChain i j) : b ∉ owned e := by
  simp [mem_owned, mem_chainBlocks, hmodules, hentries, hchains]

end Owned

/-! ## One step of loading -/

section Steps

variable {e : Engine} {rest : Finset Block}

lemma getString_bind {α : Type} (cfg : Cfg) (key : String) (block : Block)
    (f : Option String → Code Block α) (held : Finset Block) :
    (getString cfg key block >>= f) held =
      match cfgGetString cfg key with
      | none => f none held
      | some value => f (some value) (insert block held) := by
  rw [getString]
  cases cfgGetString cfg key <;> rfl

/-- A step that does what the engine's step does is followed by the rest of the code. -/
lemma holding_bind {p : Code Block Engine} {held rest' : Finset Block} {r : Except Fault Engine}
    (hp : p held = holding rest r) {f : Engine → Code Block Engine}
    {g : Engine → Except Fault Engine}
    (hf : ∀ e', r = .ok e' → f e' (rest ∪ owned e') = holding rest' (g e')) :
    (p >>= f) held = holding rest' (r.bind g) := by
  cases r with
  | error fault => exact bind_error hp
  | ok e' => exact (bind_ok hp).trans (hf e' rfl)

lemma registerCode_eq (e : Engine) (name : String) (rest : Finset Block) :
    registerCode e name (rest ∪ owned e) =
      .ok (assignEventId e name, rest ∪ owned (assignEventId e name).2) := by
  rw [registerCode, assignEventId]
  cases e.eventIds.find? (fun entry => entry.name = name) with
  | some entry => rfl
  | none =>
    by_cases hfull : e.eventIds.length ≥ maxEventIds
    · simp only [if_pos hfull]
      rfl
    · simp only [if_neg hfull, acquire_bind, if_true, owned_register, Finset.union_insert]
      rfl

lemma registerAllCode_eq (e : Engine) (names : List String) (rest : Finset Block) :
    registerAllCode e names (rest ∪ owned e) = holding rest (.ok (registerAll e names)) := by
  induction names generalizing e with
  | nil => rfl
  | cons name names ih =>
    rw [registerAllCode]
    exact (bind_ok (registerCode_eq e name rest)).trans (ih _)

lemma subscribeCode_eq (e : Engine) (id : ℤ) (module : ModuleObject) (rest : Finset Block) :
    subscribeCode e id module (rest ∪ owned e) =
      holding rest ((subscribeEventId e id module).map Prod.snd) := by
  rw [subscribeCode, subscribeEventId]
  by_cases hid : id ≥ maxEventIds
  · simp only [if_pos hid]
    rfl
  · simp only [if_neg hid]
    cases chainIndex id with
    | error fault => rfl
    | ok i =>
      simp only [acquire_bind, if_true]
      exact congrArg (fun held => Except.ok (e.appendToChain i module, held))
        ((Finset.union_insert _ _ _).symm.trans (by rw [owned_appendToChain]))

/-- A block that is released is one that was held besides the others. -/
lemma erase_insert_holding {b : Block} (hrest : b ∉ rest) (howned : b ∉ owned e) :
    (insert b rest ∪ owned e).erase b = rest ∪ owned e := by
  rw [Finset.insert_union, Finset.erase_insert (by simp [hrest, howned])]

lemma triggerName_notMem_owned (i idx : ℕ) : Block.triggerName i idx ∉ owned e :=
  notMem_owned (by simp [moduleBlocks]) (by simp [entryBlocks]) (by simp)

lemma triggerStep_eq (e : Engine) (name : String) (module : ModuleObject) :
    triggerStep e name module =
      (subscribeEventId (assignEventId e name).2 (assignEventId e name).1 module).map
        Prod.snd := by
  simp only [triggerStep]
  cases subscribeEventId (assignEventId e name).2 (assignEventId e name).1 module <;> rfl

/-- **The trigger loop** gives back the strings that it reads. -/
lemma triggerLoopCode_eq {cfg : Cfg} {i : ℕ} {module : ModuleObject}
    (hfresh : ∀ idx, Block.triggerName i idx ∉ rest) (fuel idx : ℕ) (e : Engine) :
    triggerLoopCode cfg i module fuel idx e (rest ∪ owned e) =
      holding rest (triggerLoop cfg i module fuel idx e) := by
  induction fuel generalizing idx e with
  | zero => rfl
  | succ fuel ih =>
    rw [triggerLoopCode, triggerLoop, getString_bind]
    cases cfgGetString cfg (triggerKey i idx) with
    | none => rfl
    | some name =>
      simp only [← Finset.insert_union, triggerStep_eq]
      refine (bind_ok (registerCode_eq e name _)).trans
        (holding_bind (subscribeCode_eq _ _ _ _) fun e' _ => ?_)
      have hrelease := erase_insert_holding (hfresh idx) (triggerName_notMem_owned (e := e') i idx)
      have hmem : Block.triggerName i idx ∈ insert (Block.triggerName i idx) rest ∪ owned e' := by
        simp
      rw [releaseAll_cons]
      refine (bind_ok ((release_bind hmem _).trans rfl)).trans ?_
      rw [hrelease]
      exact ih (idx + 1) e'

/-- Nothing is held yet that a turn of the loading loop allocates for itself. -/
structure Fresh (i : ℕ) (rest : Finset Block) : Prop where
  moduleFile : .moduleFile i ∉ rest
  moduleInstance : .moduleInstance i ∉ rest
  moduleId : .moduleId i ∉ rest
  moduleConfig : .moduleConfig i ∉ rest
  triggerName : ∀ idx, .triggerName i idx ∉ rest

/-- What is left of a module that is not opened. -/
lemma openModuleCode_eq (env : Environment) (cfg : Cfg) {i : ℕ} {held : Finset Block}
    (hfresh : Fresh i held) :
    openModuleCode env cfg i held = match openModule env cfg i with
      | none => .ok (none, held ∪ if LibOpened env cfg i then {Block.lib i} else ∅)
      | some opened => .ok (some opened, held ∪ (moduleBlocks opened).toFinset) := by
  have hlib : LibOpened env cfg i ↔
      ((cfgGetString cfg s!"module{i}_file").bind (env.dlopen i)).isSome = true := Iff.rfl
  simp only [openModuleCode, openModule, getString_bind, hlib]
  cases cfgGetString cfg s!"module{i}_file" with
  | none => simp
  | some moduleFile =>
    simp only [acquire_bind, if_true, Option.bind_eq_bind, Option.bind_some]
    rcases Option.eq_none_or_eq_some (env.dlopen i moduleFile) with hdlopen | ⟨lib, hdlopen⟩
    · simp only [hdlopen]
      rw [releaseAll_bind held (by simp) (by simp [hfresh.moduleFile, hfresh.moduleInstance])
        (by ext b; simp; tauto)]
      simp
    · simp only [hdlopen, Option.isSome_some, if_true, Option.bind_some, acquire_bind]
      rw [releaseAll_bind (held ∪ {.moduleInstance i, .lib i}) (by simp)
        (by simp [hfresh.moduleFile]) (by ext b; simp; tauto)]
      by_cases hsymbols :
          [Symbol.preInit, .init, .run, .test, .event, .deinit].all (env.dlsym lib) = true
      · simp only [if_pos hsymbols, getString_bind]
        cases cfgGetString cfg s!"module{i}_id" with
        | none =>
          rw [releaseAll_bind (held ∪ {.lib i}) (by simp) (by simp [hfresh.moduleInstance])
            (by ext b; simp; tauto)]
          rfl
        | some moduleId =>
          simp only [Option.bind_some]
          cases cfgGetString cfg s!"module{i}_config" with
          | none =>
            rw [releaseAll_bind (held ∪ {.lib i}) (by simp)
              (by simp [hfresh.moduleInstance, hfresh.moduleId]) (by ext b; simp; tauto)]
            rfl
          | some moduleConfig =>
            have hheld : insert (Block.moduleConfig i) (insert (.moduleId i)
                (held ∪ {.moduleInstance i, .lib i})) = held ∪ [Block.moduleId i,
                  .moduleConfig i, .lib i, .moduleInstance i].toFinset := by
              ext b
              simp
              tauto
            rw [hheld]
            rfl
      · simp only [if_neg hsymbols]
        rw [releaseAll_bind (held ∪ {.lib i}) (by simp) (by simp [hfresh.moduleInstance])
          (by ext b; simp; tauto)]
        rfl

end Steps

/-! ## The loading loop -/

section Loop

variable {env : Environment} {cfg : Cfg} {i : ℕ} {e : Engine} {rest : Finset Block}

/-- The library that is left of a module that is refused. -/
def refusedLib (env : Environment) (cfg : Cfg) (i : ℕ) : Finset Block :=
  if LibOpened env cfg i ∧ acceptedModule env cfg i = none then {Block.lib i} else ∅

lemma refusedLibs_succ (n : ℕ) :
    refusedLibs env cfg (n + 1) = refusedLibs env cfg n ∪ refusedLib env cfg n := by
  rw [refusedLibs, refusedLibs, refusedLib, Finset.range_add_one, Finset.filter_insert]
  split_ifs with h
  · rw [Finset.image_insert, Finset.union_comm]
    rfl
  · rw [Finset.union_empty]

lemma registeredModules_registerAll (e : Engine) (names : List String) :
    (registerAll e names).registeredModules = e.registeredModules := by
  induction names generalizing e with
  | nil => rfl
  | cons name names ih =>
    rw [registerAll, ih, assignEventId]
    split
    · rfl
    · simp only
      split_ifs <;> rfl

lemma Fresh.union_owned (hfresh : Fresh i rest) (hindex : ∀ m ∈ e.registeredModules, m.index ≠ i) :
    Fresh i (rest ∪ owned e) where
  moduleFile := by
    rw [Finset.notMem_union]
    exact ⟨hfresh.moduleFile,
      notMem_owned (by simp [moduleBlocks]) (by simp [entryBlocks]) (by simp)⟩
  moduleInstance := by
    rw [Finset.notMem_union, mem_owned_iff (i := i) (by simp)]
    exact ⟨hfresh.moduleInstance, by simpa using hindex⟩
  moduleId := by
    rw [Finset.notMem_union, mem_owned_iff (i := i) (by simp)]
    exact ⟨hfresh.moduleId, by simpa using hindex⟩
  moduleConfig := by
    rw [Finset.notMem_union, mem_owned_iff (i := i) (by simp)]
    exact ⟨hfresh.moduleConfig, by simpa using hindex⟩
  triggerName := fun idx => by
    rw [Finset.notMem_union]
    exact ⟨hfresh.triggerName idx, triggerName_notMem_owned i idx⟩

lemma openModule_index {opened : ModuleObject} (h : openModule env cfg i = some opened) :
    LibOpened env cfg i ∧ opened.index = i := by
  obtain ⟨moduleFile, lib, moduleId, moduleConfig, hfile, hlib, -, -, -, rfl⟩ :=
    openModule_eq_some_iff.mp h
  refine ⟨?_, rfl⟩
  rw [LibOpened, hfile, Option.bind_some, hlib]
  rfl

/-- **A turn of the loading loop** does what `loadModule` says. Besides what the globals own
afterwards it leaves the library of a module that it refuses. -/
lemma loadModuleCode_eq (hfresh : Fresh i rest) (hindex : ∀ m ∈ e.registeredModules, m.index ≠ i) :
    loadModuleCode env cfg i e (rest ∪ owned e) =
      holding (rest ∪ refusedLib env cfg i) (loadModule env cfg i e) := by
  have hopenCode := openModuleCode_eq env cfg (hfresh.union_owned hindex)
  rw [loadModuleCode, loadModule, refusedLib, acceptedModule]
  cases hopen : openModule env cfg i with
  | none =>
    rw [hopen] at hopenCode
    rw [bind_ok hopenCode, Finset.union_right_comm]
    simp [holding]
  | some opened =>
    obtain ⟨hlib, rfl⟩ := openModule_index hopen
    rw [hopen] at hopenCode
    rw [bind_ok hopenCode, Finset.union_right_comm]
    simp only [Option.bind_some, hlib, true_and]
    refine (bind_ok (registerAllCode_eq e (env.preInit opened).registered _)).trans ?_
    by_cases hresult : (env.preInit opened).result ≠ 0
    · simp only [if_pos hresult]
      have hindex' : ∀ m ∈ (registerAll e (env.preInit opened).registered).registeredModules,
          m.index ≠ opened.index := by
        rwa [registeredModules_registerAll]
      have hfresh' := hfresh.union_owned hindex'
      refine (releaseAll_bind (rest ∪ {.lib opened.index} ∪
        owned (registerAll e (env.preInit opened).registered)) (by simp) ?_ ?_).trans rfl
      · simp only [List.mem_cons, List.not_mem_nil, or_false, forall_eq_or_imp, forall_eq]
        simp [hfresh'.moduleId, hfresh'.moduleConfig, hfresh'.moduleInstance]
      · ext b
        simp only [moduleBlocks, Finset.mem_union, List.mem_toFinset, List.mem_cons,
          List.not_mem_nil, or_false, Finset.mem_singleton]
        tauto
    · simp only [if_neg hresult]
      have htrigger : ∀ idx, Block.triggerName opened.index idx ∉
          rest ∪ (moduleBlocks opened).toFinset := by
        intro idx
        simp [moduleBlocks, hfresh.triggerName idx]
      refine holding_bind (triggerLoopCode_eq htrigger _ _ _) fun e' _ => ?_
      have happend : ∀ module : ModuleObject,
          owned { e' with registeredModules := e'.registeredModules ++ [module] } =
            owned e' ∪ (moduleBlocks module).toFinset := fun module =>
        owned_perm (List.perm_append_singleton module e'.registeredModules)
      simp only [holding, reduceCtorEq, if_false, Finset.union_empty, happend]
      rw [← Finset.union_assoc, Finset.union_right_comm]
      rfl

lemma registeredModules_loadModules {n : ℕ} (h : loadModules env cfg n Engine.initial = .ok e) :
    e.registeredModules = (List.range n).filterMap (acceptedModule env cfg) := by
  rw [loadModules_eq_exec] at h
  exact (loadInv_of_exec h).registered.trans (appendedBy_actions env cfg n)

/-- The modules of the run list are accepted under their index. -/
lemma accepted_of_registered {n : ℕ} (h : loadModules env cfg n Engine.initial = .ok e)
    {module : ModuleObject} (hmem : module ∈ e.registeredModules) :
    module.index < n ∧ acceptedModule env cfg module.index = some module := by
  rw [registeredModules_loadModules h, List.mem_filterMap] at hmem
  obtain ⟨i, hi, haccepted⟩ := hmem
  rw [(acceptedModule_eq_some_iff.mp haccepted).index_eq]
  exact ⟨List.mem_range.mp hi, haccepted⟩

lemma notMem_refusedLibs {n : ℕ} {b : Block} (hb : ∀ i, b ≠ .lib i) :
    b ∉ refusedLibs env cfg n := by
  simp only [refusedLibs, Finset.mem_image, not_exists, not_and]
  exact fun i _ h => hb i h.symm

lemma Fresh.union_refusedLibs (hfresh : Fresh i rest) (n : ℕ) :
    Fresh i (rest ∪ refusedLibs env cfg n) where
  moduleFile := by simp [hfresh.moduleFile, notMem_refusedLibs]
  moduleInstance := by simp [hfresh.moduleInstance, notMem_refusedLibs]
  moduleId := by simp [hfresh.moduleId, notMem_refusedLibs]
  moduleConfig := by simp [hfresh.moduleConfig, notMem_refusedLibs]
  triggerName := by simp [hfresh.triggerName, notMem_refusedLibs]

/-- **The loading loop** holds what the globals own and the libraries of the refused modules. -/
lemma loadModulesCode_eq (env : Environment) (cfg : Cfg) (hfresh : ∀ i, Fresh i rest) (n : ℕ) :
    loadModulesCode env cfg n Engine.initial rest =
      holding (rest ∪ refusedLibs env cfg n) (loadModules env cfg n Engine.initial) := by
  induction n with
  | zero =>
    have howned : owned Engine.initial = ∅ := by
      ext b
      simp [mem_owned, mem_chainBlocks, Engine.initial]
    simp [loadModulesCode, loadModules, holding, refusedLibs, howned]
  | succ n ih =>
    rw [loadModulesCode, loadModules]
    refine holding_bind ih fun e he => ?_
    have hindex : ∀ m ∈ e.registeredModules, m.index ≠ n := fun m hm =>
      (accepted_of_registered he hm).1.ne
    rw [loadModuleCode_eq ((hfresh n).union_refusedLibs n) hindex, refusedLibs_succ,
      Finset.union_assoc]

end Loop

/-! ## Unloading -/

section Unload

variable {e : Engine} {rest : Finset Block}

/-- Registrations and triggers leave the event table numbered. -/
def Numbered (e : Engine) : Prop := ∃ l, e.Numbers (FirstSeen.table maxEventIds l)

lemma Numbered.registerAll (h : Numbered e) (names : List String) :
    Numbered (registerAll e names) := by
  induction names generalizing e with
  | nil => exact h
  | cons name names ih =>
    obtain ⟨l, hl⟩ := h
    obtain ⟨id, e', hregister, hnumbers, -⟩ := assignEventId_spec hl name
    refine ih ⟨l ++ [name], ?_⟩
    rwa [hregister]

/-- What `clean_all` releases is released once. -/
lemma nodup_ownedBlocks (hnumbered : Numbered e)
    (hnodup : (e.registeredModules.map ModuleObject.index).Nodup) : (ownedBlocks e).Nodup := by
  obtain ⟨l, hl⟩ := hnumbered
  have hmodules : (e.registeredModules.flatMap moduleBlocks).Nodup := by
    rw [List.nodup_flatMap]
    refine ⟨fun m _ => by simp [moduleBlocks], (List.pairwise_map.mp hnodup).imp fun h => ?_⟩
    simp [Function.onFun, moduleBlocks, List.disjoint_left, h]
  have hids : e.eventIds.Pairwise fun entry entry' => entry.id ≠ entry'.id := by
    rw [hl.eventIds_eq, List.pairwise_reverse, List.pairwise_iff_getElem]
    intro i j hi hj hij
    simp only [List.getElem_mapIdx]
    omega
  have hentries : (e.eventIds.flatMap entryBlocks).Nodup := by
    rw [List.nodup_flatMap]
    refine ⟨fun entry _ => by simp [entryBlocks], hids.imp fun h => ?_⟩
    simp [Function.onFun, entryBlocks, List.disjoint_left, h]
  have hchains : ((List.finRange maxEventIds).flatMap (chainBlocks e)).Nodup := by
    rw [List.nodup_flatMap]
    refine ⟨fun i _ => List.nodup_range.map fun j k h => by simpa using h,
      (List.nodup_finRange _).imp fun h => ?_⟩
    simp [Function.onFun, chainBlocks, List.disjoint_left, h.symm]
  refine List.nodup_append.mpr ⟨List.nodup_append.mpr ⟨hmodules, hentries, ?_⟩, hchains, ?_⟩
  · simp only [moduleBlocks, entryBlocks, List.mem_flatMap, List.mem_cons, List.not_mem_nil,
      or_false]
    rintro b ⟨m, -, rfl | rfl | rfl | rfl⟩ b' ⟨entry, -, rfl | rfl⟩ <;> simp
  · simp only [moduleBlocks, entryBlocks, List.mem_append, List.mem_flatMap, List.mem_cons,
      List.not_mem_nil, or_false, mem_chainBlocks]
    rintro b (⟨m, -, rfl | rfl | rfl | rfl⟩ | ⟨entry, -, rfl | rfl⟩) b' ⟨i, -, j, -, rfl⟩ <;> simp

lemma cleanAll_eq (e : Engine) : cleanAll e = releaseAll (ownedBlocks e) := by
  rw [ownedBlocks, releaseAll_append, releaseAll_append, cleanAll,
    forM_eq_releaseAll fun module _ => rfl, forM_eq_releaseAll fun entry _ => rfl,
    forM_eq_releaseAll fun i _ => rfl, bind_assoc]

/-- The settings and the libraries of refused modules are none of the blocks that the globals
own. -/
lemma disjoint_owned {env : Environment} {cfg : Cfg} {n : ℕ}
    (haccepted : ∀ m ∈ e.registeredModules, acceptedModule env cfg m.index ≠ none) :
    Disjoint (settings.toFinset ∪ refusedLibs env cfg n) (owned e) := by
  rw [Finset.disjoint_left]
  intro b hb
  rcases Finset.mem_union.mp hb with hsettings | hrefused
  · simp only [settings, List.mem_toFinset, List.mem_cons, List.not_mem_nil, or_false] at hsettings
    rcases hsettings with rfl | rfl | rfl | rfl <;>
      exact notMem_owned (by simp [moduleBlocks]) (by simp [entryBlocks]) (by simp)
  · obtain ⟨i, hi, rfl⟩ := Finset.mem_image.mp hrefused
    rw [mem_owned_iff (i := i) (by simp)]
    rintro ⟨m, hm, rfl⟩
    exact haccepted m hm (Finset.mem_filter.mp hi).2.2

/-- **The end of `main`** releases the settings and all that the globals own. -/
lemma finish_eq (hnumbered : Numbered e)
    (hnodup : (e.registeredModules.map ModuleObject.index).Nodup) {leaked : Finset Block}
    (hdisjoint : Disjoint (settings.toFinset ∪ leaked) (owned e))
    (hleaked : Disjoint leaked settings.toFinset) (code : ℤ) :
    finish e code (settings.toFinset ∪ leaked ∪ owned e) = .ok (code, leaked) := by
  have hnew : ∀ b ∈ ownedBlocks e, b ∉ settings.toFinset ∪ leaked := fun b hb hmem =>
    Finset.disjoint_left.mp hdisjoint hmem (List.mem_toFinset.mpr hb)
  rw [finish, cleanAll_eq, owned, releaseAll_bind _ (nodup_ownedBlocks hnumbered hnodup) hnew rfl,
    releaseAll_bind leaked (by simp [settings]) ?_ (Finset.union_comm _ _)]
  · rfl
  · exact fun b hb hmem => Finset.disjoint_left.mp hleaked hmem (List.mem_toFinset.mpr hb)

/-- **A walk of `init_modules`** unloads the modules whose `init` fails. -/
lemma initModulesCode_eq (init : ModuleObject → List String × ℤ) (kept : List ModuleObject)
    {modules : List ModuleObject} (hmodules : e.registeredModules = kept ++ modules)
    (hnodup : (e.registeredModules.map ModuleObject.index).Nodup) (hnumbered : Numbered e)
    (hnew : ∀ m ∈ modules, ∀ b ∈ moduleBlocks m, b ∉ rest) :
    ∃ e', initModulesCode init modules e (rest ∪ owned e) = .ok (e', rest ∪ owned e') ∧
      Numbered e' ∧
      e'.registeredModules = kept ++ modules.filter fun module => (init module).2 = 0 := by
  induction modules generalizing e kept with
  | nil => exact ⟨e, rfl, hnumbered, by simpa using hmodules⟩
  | cons module modules ih =>
    rw [List.forall_mem_cons] at hnew
    rw [initModulesCode, bind_ok (registerAllCode_eq e (init module).1 rest)]
    have hregistered := registeredModules_registerAll e (init module).1
    by_cases hinit : (init module).2 ≠ 0
    · simp only [if_pos hinit]
      set e₁ := registerAll e (init module).1
      have hlist : e₁.registeredModules = kept ++ module :: modules := hregistered.trans hmodules
      rw [hmodules, List.map_append, List.map_cons, List.nodup_middle, List.nodup_cons,
        ← List.map_append] at hnodup
      have hnumbered₁ : Numbered { e₁ with registeredModules := kept ++ modules } := by
        obtain ⟨l, hl⟩ := hnumbered.registerAll (init module).1
        exact ⟨l, hl.eventIds_eq, hl.nodup⟩
      have herase : e₁.registeredModules.erase module = kept ++ modules := by
        have hmem : module ∉ kept := fun h => hnodup.1 (List.mem_map_of_mem (by simp [h]))
        rw [hlist, List.erase_append_right _ hmem, List.erase_cons_head]
      have hrelease : ∀ b ∈ moduleBlocks module,
          b ∉ rest ∪ owned { e₁ with registeredModules := kept ++ modules } := by
        intro b hb
        rw [Finset.notMem_union, mem_owned_iff hb]
        refine ⟨hnew.1 b hb, ?_⟩
        rintro ⟨m, hm, hindex⟩
        exact hnodup.1 (hindex ▸ List.mem_map_of_mem hm)
      obtain ⟨e', hcode, hnumbered', hmodules'⟩ :=
        ih (e := { e₁ with registeredModules := kept ++ modules }) kept rfl hnodup.2
          hnumbered₁ hnew.2
      refine ⟨e', ?_, hnumbered', ?_⟩
      · rw [herase, releaseAll_bind _ (by simp [moduleBlocks]) hrelease
          (by rw [owned_perm (hlist ▸ List.perm_middle), Finset.union_assoc]), hcode]
      · rw [hmodules', List.filter_cons_of_neg (by simpa using hinit)]
    · simp only [if_neg hinit]
      obtain ⟨e', hcode, hnumbered', hmodules'⟩ := ih (kept ++ [module])
        (by rw [hregistered, hmodules, List.append_assoc]; rfl) (by rwa [hregistered])
        (hnumbered.registerAll _) hnew.2
      refine ⟨e', hcode, hnumbered', ?_⟩
      rw [hmodules', List.filter_cons_of_pos (by simpa using hinit), List.append_assoc]
      rfl

end Unload

/-! ## `main` -/

section Main

variable {env : Environment} {cfg : Cfg} {init : ModuleObject → List String × ℤ}
  {running : List String} {n : ℕ}

/-- The modules registered have different indices. -/
lemma nodup_index {e : Engine} (hload : loadModules env cfg n Engine.initial = .ok e) :
    (e.registeredModules.map ModuleObject.index).Nodup := by
  rw [registeredModules_loadModules hload]
  exact List.pairwise_map.mpr ((pairwise_acceptedModule env cfg n).imp fun h => h.ne)

/-- What is held besides is none of the blocks that the globals own after loading. -/
lemma disjoint_registered {e e' : Engine} (hload : loadModules env cfg n Engine.initial = .ok e)
    (hsublist : e'.registeredModules.Sublist e.registeredModules) :
    Disjoint (settings.toFinset ∪ refusedLibs env cfg n) (owned e') := by
  apply disjoint_owned
  intro m hm
  simp [(accepted_of_registered hload (hsublist.subset hm)).2]

/-- Between loading and the end of `main` only blocks of the globals are obtained and released. -/
lemma finish_registered {e e' : Engine} (hload : loadModules env cfg n Engine.initial = .ok e)
    (hsublist : e'.registeredModules.Sublist e.registeredModules) (hnumbered : Numbered e')
    (code : ℤ) :
    finish e' code (settings.toFinset ∪ refusedLibs env cfg n ∪ owned e') =
      .ok (code, refusedLibs env cfg n) := by
  have hleaked : Disjoint (refusedLibs env cfg n) settings.toFinset := by
    rw [Finset.disjoint_right]
    intro b hb
    apply notMem_refusedLibs
    rintro i rfl
    simp [settings] at hb
  exact finish_eq hnumbered ((nodup_index hload).sublist (hsublist.map _))
    (disjoint_registered hload hsublist) hleaked code

/-- **From the loading loop on**, `main` releases what it has got but the libraries of refused
modules. -/
lemma loadAndRun_eq : loadAndRun env cfg init running n settings.toFinset =
    match loadModules env cfg n Engine.initial with
    | .error _ => .error .notHeld
    | .ok e => .ok (if ∃ m ∈ e.registeredModules, (init m).2 = 0 then 0 else -1,
        refusedLibs env cfg n) := by
  have hfresh : ∀ i, Fresh i settings.toFinset := fun i => by
    constructor <;> simp [settings]
  have hcode := loadModulesCode_eq env cfg hfresh n
  rw [loadAndRun]
  cases hload : loadModules env cfg n Engine.initial with
  | error fault =>
    rw [hload] at hcode
    exact bind_error hcode
  | ok e =>
    rw [hload] at hcode
    refine (bind_ok hcode).trans ?_
    have hnumbered : Numbered e := by
      rw [loadModules_eq_exec] at hload
      exact ⟨_, (loadInv_of_exec hload).numbers⟩
    by_cases hempty : e.registeredModules = []
    · rw [if_pos hempty, finish_registered hload (List.Sublist.refl _) hnumbered]
      simp [hempty]
    · rw [if_neg hempty]
      have hnew : ∀ m ∈ e.registeredModules, ∀ b ∈ moduleBlocks m,
          b ∉ settings.toFinset ∪ refusedLibs env cfg n := by
        intro m hm b hb hheld
        exact Finset.disjoint_left.mp (disjoint_registered hload (List.Sublist.refl _)) hheld
          (mem_owned.mpr (Or.inl ⟨m, hm, hb⟩))
      obtain ⟨e', hinit, hnumbered', hmodules⟩ := initModulesCode_eq init [] rfl
        (nodup_index hload) hnumbered hnew
      rw [List.nil_append] at hmodules
      have hsublist : e'.registeredModules.Sublist e.registeredModules :=
        hmodules ▸ List.filter_sublist
      refine (bind_ok hinit).trans ?_
      have hexists : (∃ m ∈ e.registeredModules, (init m).2 = 0) ↔ e'.registeredModules ≠ [] := by
        simp [hmodules, List.filter_eq_nil_iff]
      simp only [hexists]
      by_cases hnone : e'.registeredModules = []
      · rw [if_pos hnone, if_neg (not_not_intro hnone), finish_registered hload hsublist hnumbered']
      · rw [if_neg hnone, if_pos hnone]
        refine (bind_ok (registerAllCode_eq e' running _)).trans ?_
        refine finish_registered hload ?_ (hnumbered'.registerAll running) 0
        rwa [registeredModules_registerAll]

end Main

end Tmee
