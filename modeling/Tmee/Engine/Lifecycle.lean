import Tmee.CfgLoad
import Tmee.Engine.Deadline
import Tmee.Engine.InitModules
import Tmee.Engine.LoadOrder
import Tmee.Lib.Fallible

set_option relaxedAutoImplicit false
set_option autoImplicit false

/-!
# The life of a module

The calls that `main` makes of the functions of its modules, from the loading loop over
`init_modules` and the run loop to `unload_modules`. What the modules do in these calls, and the
events that are dispatched besides, is left open.

## Main definitions

* `Tmee.ModuleCall` — a call.
* `Tmee.loadCalls`, `Tmee.initCallsOf`, `Tmee.runCalls`, `Tmee.asapCalls`, `Tmee.deadlineCalls`,
  `Tmee.mainCalls` — the calls of each function.
* `Tmee.lifetime` — the calls of one module.

## Main results

* `Tmee.main_lifetimes` — every module is called as `lifetime` says, and every cycle runs the
  enabled modules in the order of the configuration.
-/

namespace Tmee

/-- A call of a function of a module. -/
inductive ModuleCall
  | preInit (module : ModuleObject)
  | init (module : ModuleObject)
  | run (module : ModuleObject)
  | deinit (module : ModuleObject)
  deriving DecidableEq, Repr

/-- The place of the module in the configuration. -/
def ModuleCall.index : ModuleCall → ℕ
  | .preInit module => module.index
  | .init module => module.index
  | .run module => module.index
  | .deinit module => module.index

/-- A call of `run`. -/
def ModuleCall.isRun : ModuleCall → Bool
  | .run _ => true
  | _ => false

/-- The phase that a call belongs to; a module may be deinitialised in more than one. -/
def ModuleCall.phase : ModuleCall → Option ℕ
  | .preInit _ => some 0
  | .init _ => some 1
  | .run _ => some 2
  | .deinit _ => none

/-! ## The calls -/

section Calls

variable (env : Environment) (cfg : Cfg) (init : ModuleObject → ℤ) (clock : ℕ → ℤ)

/-- The calls of the loading loop. -/
def loadCalls : ℕ → List ModuleCall
  | 0 => []
  | n + 1 => loadCalls n ++ (openModule env cfg n).toList.map .preInit

/-- The call that an action of `init_modules` is, if it is one. -/
def InitAction.call : InitAction → Option ModuleCall
  | .init module => some (.init module)
  | .deinit module => some (.deinit module)
  | .free _ => none
  | .next _ => none

/-- The calls of one cycle of the run loop. -/
def runCalls : List ModuleObject → List ModuleCall
  | [] => []
  | module :: modules =>
    if module.runEnabled = 0 then runCalls modules else .run module :: runCalls modules

/-- The calls of `run_asap` in `passes` passes of its loop. -/
def asapCalls (modules : List ModuleObject) : ℕ → List ModuleCall
  | 0 => []
  | passes + 1 => asapCalls modules passes ++ runCalls modules

/-- The calls of `run_deadline` in `passes` passes of its outer loop. -/
def deadlineCalls (interval : Interval) (modules : List ModuleObject) : ℕ → List ModuleCall
  | 0 => []
  | passes + 1 =>
    let s := runDeadline clock interval modules passes
    deadlineCalls interval modules passes ++
      if clock s.reads ≥ s.nextDeadline then runCalls modules else []

/-- The calls of the run loop, which ends after some number of passes. -/
def loopCalls (interval : ℤ) (modules : List ModuleObject) (passes : ℕ) : List ModuleCall :=
  if h : interval > 0 then deadlineCalls clock ⟨interval, h⟩ modules passes
  else asapCalls modules passes

/-- The number of cycles in these passes. -/
def cycles (interval : ℤ) (modules : List ModuleObject) (passes : ℕ) : ℕ :=
  if h : interval > 0 then (runDeadline clock ⟨interval, h⟩ modules passes).cycles else passes

/-- The calls of `main`; none if it returns before the loading loop. -/
def mainCalls (passes : ℕ) : Except Fault (List ModuleCall) :=
  match moduleCount cfg with
  | none => .ok []
  | some n => do
    let e ← loadModules env cfg n Engine.initial
    let calls := loadCalls env cfg n
    if e.registeredModules = [] then .ok calls
    else
      let (modules, actions) := initModules init e.registeredModules
      let calls := calls ++ actions.filterMap InitAction.call
      if modules = [] then .ok calls
      else
        let interval := (cfgGetInt cfg "interval").getD 0
        .ok (calls ++ loopCalls clock interval modules passes ++ modules.map .deinit)

/-- The modules that are left for the run loop. -/
def runningModules (n : ℕ) : List ModuleObject :=
  ((List.range n).filterMap (acceptedModule env cfg)).filter fun module => init module = 0

/-- **The life of a module**: `pre_init`, if the module can be opened; `init`, if it is accepted; if
that fails `deinit`, and otherwise `run` once in each cycle, if it is enabled, and then
`deinit`. -/
def lifetime (cycles : ℕ) (i : ℕ) : List ModuleCall :=
  match openModule env cfg i with
  | none => []
  | some opened =>
    .preInit opened ::
      match acceptedModule env cfg i with
      | none => []
      | some module =>
        .init module ::
          (if init module = 0 then
            List.replicate (if module.runEnabled = 0 then 0 else cycles) (.run module)
          else []) ++ [.deinit module]

end Calls

/-! ## Calls module by module -/

section Modules

variable {env : Environment} {cfg : Cfg} {init : ModuleObject → ℤ} {clock : ℕ → ℤ}

/-- The calls of one module among those of all modules. -/
lemma filter_flatMap_range {f : ℕ → List ModuleCall} (hindex : ∀ j, ∀ c ∈ f j, c.index = j)
    (n i : ℕ) : ((List.range n).flatMap f).filter (fun c => c.index = i) =
      if i < n then f i else [] := by
  induction n with
  | zero => rfl
  | succ n ih =>
    rw [List.range_succ, List.flatMap_append, List.filter_append, ih, List.flatMap_singleton]
    rcases lt_trichotomy i n with hlt | rfl | hgt
    · rw [if_pos hlt, if_pos (by omega), List.filter_eq_nil_iff.mpr, List.append_nil]
      intro c hc
      simp only [hindex n c hc, decide_eq_true_eq]
      omega
    · rw [if_neg (by omega), if_pos (by omega), List.filter_eq_self.mpr, List.nil_append]
      intro c hc
      simp [hindex _ c hc]
    · rw [if_neg (by omega), if_neg (by omega), List.filter_eq_nil_iff.mpr, List.append_nil]
      intro c hc
      simp only [hindex n c hc, decide_eq_true_eq]
      omega

/-- The calls that each accepted module gets. -/
def acceptedCalls (env : Environment) (cfg : Cfg) (f : ModuleObject → List ModuleCall) (i : ℕ) :
    List ModuleCall :=
  (acceptedModule env cfg i).elim [] f

lemma flatMap_accepted (f : ModuleObject → List ModuleCall) (n : ℕ) :
    ((List.range n).filterMap (acceptedModule env cfg)).flatMap f =
      (List.range n).flatMap (acceptedCalls env cfg f) := by
  induction n with
  | zero => rfl
  | succ n ih =>
    rw [List.range_succ, List.filterMap_append, List.flatMap_append, List.flatMap_append, ih]
    congr 1
    cases h : acceptedModule env cfg n <;> simp [acceptedCalls, h]

lemma loadCalls_eq (n : ℕ) : loadCalls env cfg n =
    (List.range n).flatMap fun i => (openModule env cfg i).toList.map .preInit := by
  induction n with
  | zero => rfl
  | succ n ih => rw [loadCalls, ih, List.range_succ, List.flatMap_append, List.flatMap_singleton]

lemma filterMap_call_initModules (modules : List ModuleObject) :
    (initModules init modules).2.filterMap InitAction.call = modules.flatMap fun module =>
      .init module :: if init module = 0 then [] else [.deinit module] := by
  induction modules with
  | nil => rfl
  | cons module modules ih =>
    rw [initModules, List.flatMap_cons, ← ih]
    by_cases h : init module = 0
    · simp [h, InitAction.call, List.filterMap_cons]
    · simp [h, InitAction.call, List.filterMap_cons]

lemma runCalls_eq (modules : List ModuleObject) : runCalls modules =
    modules.flatMap fun module => if module.runEnabled = 0 then [] else [.run module] := by
  induction modules with
  | nil => rfl
  | cons module modules ih =>
    rw [runCalls, List.flatMap_cons, ← ih]
    split_ifs <;> rfl

/-- A pass of `run_deadline` counts its cycle. -/
lemma cycles_iteration (interval : Interval) (modules : List ModuleObject) (s : LoopState) :
    (iteration clock interval modules s).cycles =
      s.cycles + if clock s.reads ≥ s.nextDeadline then 1 else 0 := by
  simp only [iteration]
  split_ifs <;> rfl

/-- **The run loop** makes the calls of one cycle after the other. -/
lemma loopCalls_eq (interval : ℤ) (modules : List ModuleObject) (passes : ℕ) :
    loopCalls clock interval modules passes =
      (List.replicate (cycles clock interval modules passes) (runCalls modules)).flatten := by
  rw [loopCalls, cycles]
  split_ifs with h
  · induction passes with
    | zero => rfl
    | succ passes ih =>
      rw [deadlineCalls, ih, runDeadline, cycles_iteration]
      split_ifs
      · rw [List.replicate_add, List.flatten_append]
        simp
      · rw [List.append_nil, Nat.add_zero]
  · induction passes with
    | zero => rfl
    | succ passes ih =>
      rw [asapCalls, ih, List.replicate_succ', List.flatten_append]
      simp

/-- The calls of `main`, phase by phase. -/
lemma mainCalls_eq {n passes : ℕ} {calls : List ModuleCall} (hcount : moduleCount cfg = some n)
    (h : mainCalls env cfg init clock passes = .ok calls) :
    calls = loadCalls env cfg n ++
      ((List.range n).filterMap (acceptedModule env cfg)).flatMap (fun module =>
        .init module :: if init module = 0 then [] else [.deinit module]) ++
      loopCalls clock ((cfgGetInt cfg "interval").getD 0) (runningModules env cfg init n) passes ++
      (runningModules env cfg init n).map .deinit := by
  simp only [mainCalls, hcount] at h
  obtain ⟨e, hload, h⟩ := Fallible.bind_eq_ok.mp h
  have hmodules : e.registeredModules = (List.range n).filterMap (acceptedModule env cfg) := by
    rw [loadModules_eq_exec] at hload
    exact (loadInv_of_exec hload).registered.trans (appendedBy_actions env cfg n)
  have hrunning : (initModules init e.registeredModules).1 = runningModules env cfg init n := by
    rw [initModules_fst, hmodules, runningModules]
  have hnone : ∀ passes, loopCalls clock ((cfgGetInt cfg "interval").getD 0) [] passes = [] := by
    intro passes
    rw [loopCalls_eq]
    simp [runCalls]
  rw [hrunning, filterMap_call_initModules, hmodules] at h
  split_ifs at h with hempty hfailed
  · rw [← Except.ok.inj h, runningModules, hempty]
    simp [hnone]
  · rw [← Except.ok.inj h, hfailed]
    simp [hnone]
  · rw [← Except.ok.inj h]

lemma index_of_openModule {i : ℕ} {opened : ModuleObject} (h : openModule env cfg i = some opened) :
    opened.index = i := by
  obtain ⟨-, -, -, -, -, -, -, -, -, rfl⟩ := openModule_eq_some_iff.mp h
  rfl

lemma index_of_acceptedModule {i : ℕ} {module : ModuleObject}
    (h : acceptedModule env cfg i = some module) : module.index = i :=
  (acceptedModule_eq_some_iff.mp h).index_eq

/-- The calls of one module among the calls that the accepted modules get. -/
lemma filter_flatMap_accepted {f : ModuleObject → List ModuleCall}
    (hindex : ∀ module, ∀ c ∈ f module, c.index = module.index) (n i : ℕ) :
    (((List.range n).filterMap (acceptedModule env cfg)).flatMap f).filter
        (fun c => c.index = i) =
      if i < n then acceptedCalls env cfg f i else [] := by
  rw [flatMap_accepted, filter_flatMap_range]
  intro j c hc
  cases haccepted : acceptedModule env cfg j with
  | none => simp [acceptedCalls, haccepted] at hc
  | some module =>
    rw [acceptedCalls, haccepted, Option.elim_some] at hc
    rw [hindex module c hc, index_of_acceptedModule haccepted]

/-- A walk over the running modules, as one over the accepted modules. -/
lemma flatMap_runningModules (f : ModuleObject → List ModuleCall) (n : ℕ) :
    (runningModules env cfg init n).flatMap f =
      ((List.range n).filterMap (acceptedModule env cfg)).flatMap fun module =>
        if init module = 0 then f module else [] := by
  rw [runningModules]
  generalize (List.range n).filterMap (acceptedModule env cfg) = modules
  induction modules with
  | nil => rfl
  | cons module modules ih =>
    rw [List.flatMap_cons, ← ih]
    by_cases h : init module = 0 <;> simp [h]

/-- The calls of one module in the cycles. -/
lemma filter_replicate_runCalls (n i k : ℕ) :
    ((List.replicate k (runCalls (runningModules env cfg init n))).flatten).filter
        (fun c => c.index = i) =
      if i < n then acceptedCalls env cfg (fun module =>
        if init module = 0 then
          List.replicate (if module.runEnabled = 0 then 0 else k) (.run module)
        else []) i
      else [] := by
  have hone : (runCalls (runningModules env cfg init n)).filter (fun c => c.index = i) =
      if i < n then acceptedCalls env cfg (fun module =>
        if init module = 0 then if module.runEnabled = 0 then [] else [.run module] else []) i
      else [] := by
    rw [runCalls_eq, flatMap_runningModules, filter_flatMap_accepted]
    intro module c hc
    split_ifs at hc <;> simp_all [ModuleCall.index]
  rw [List.filter_flatten, List.map_replicate, hone]
  split_ifs with hi
  · cases haccepted : acceptedModule env cfg i with
    | none => simp [acceptedCalls, haccepted]
    | some module =>
      simp only [acceptedCalls, haccepted, Option.elim_some]
      split_ifs <;> simp
  · simp

/-- The calls of one module among those of the loading loop. -/
lemma filter_loadCalls (n i : ℕ) :
    (loadCalls env cfg n).filter (fun c => c.index = i) =
      if i < n then (openModule env cfg i).toList.map .preInit else [] := by
  rw [loadCalls_eq, filter_flatMap_range]
  intro j c hc
  cases hopen : openModule env cfg j with
  | none => simp [hopen] at hc
  | some opened =>
    obtain rfl : c = .preInit opened := by simpa [hopen] using hc
    exact index_of_openModule hopen

/-- The calls of one module at the end. -/
lemma filter_deinitCalls (n i : ℕ) :
    ((runningModules env cfg init n).map .deinit).filter (fun c => c.index = i) =
      if i < n then acceptedCalls env cfg (fun module =>
        if init module = 0 then [.deinit module] else []) i
      else [] := by
  rw [List.map_eq_flatMap, flatMap_runningModules, filter_flatMap_accepted]
  intro module c hc
  split_ifs at hc <;> simp_all [ModuleCall.index]

/-- A module that is accepted has been opened. -/
lemma exists_openModule {i : ℕ} {module : ModuleObject}
    (h : acceptedModule env cfg i = some module) :
    ∃ opened, openModule env cfg i = some opened := by
  obtain ⟨opened, hopen, -⟩ := Option.bind_eq_some_iff.mp h
  exact ⟨opened, hopen⟩

/-- The phases of these calls follow each other, up to phase `a`. -/
structure PhasesUpTo (a : ℕ) (calls : List ModuleCall) : Prop where
  ordered : (calls.filterMap ModuleCall.phase).Pairwise (· ≤ ·)
  bounded : ∀ p ∈ calls.filterMap ModuleCall.phase, p ≤ a

/-- The calls of one phase come after those of the earlier ones. -/
lemma PhasesUpTo.append {a b : ℕ} {calls more : List ModuleCall} (h : PhasesUpTo a calls)
    (hab : a ≤ b) (hmore : ∀ c ∈ more, ∀ p, c.phase = some p → p = b) :
    PhasesUpTo b (calls ++ more) := by
  have heq : ∀ p ∈ more.filterMap ModuleCall.phase, p = b := by
    intro p hp
    obtain ⟨c, hc, hphase⟩ := List.mem_filterMap.mp hp
    exact hmore c hc p hphase
  constructor
  · rw [List.filterMap_append, List.pairwise_append]
    refine ⟨h.ordered, List.pairwise_of_forall_mem_list fun p hp q hq => ?_, fun p hp q hq => ?_⟩
    · rw [heq p hp, heq q hq]
    · rw [heq q hq]
      exact (h.bounded p hp).trans hab
  · intro p hp
    rw [List.filterMap_append, List.mem_append] at hp
    rcases hp with hp | hp
    · exact (h.bounded p hp).trans hab
    · exact (heq p hp).le

lemma phase_loadCalls {n : ℕ} : ∀ c ∈ loadCalls env cfg n, ∀ p, c.phase = some p → p = 0 := by
  rw [loadCalls_eq]
  intro c hc p hp
  obtain ⟨i, -, hc⟩ := List.mem_flatMap.mp hc
  obtain ⟨opened, -, rfl⟩ := List.mem_map.mp hc
  exact (Option.some.inj hp).symm

lemma phase_initCalls {modules : List ModuleObject} :
    ∀ c ∈ modules.flatMap (fun module =>
      ModuleCall.init module :: if init module = 0 then [] else [.deinit module]),
      ∀ p, c.phase = some p → p = 1 := by
  intro c hc p hp
  obtain ⟨module, -, hc⟩ := List.mem_flatMap.mp hc
  rcases List.mem_cons.mp hc with rfl | hc
  · exact (Option.some.inj hp).symm
  · split_ifs at hc
    · cases hc
    · obtain rfl := List.mem_singleton.mp hc
      cases hp

lemma isRun_runCalls {modules : List ModuleObject} : ∀ c ∈ runCalls modules, c.isRun = true := by
  rw [runCalls_eq]
  intro c hc
  obtain ⟨module, -, hc⟩ := List.mem_flatMap.mp hc
  split_ifs at hc
  · cases hc
  · obtain rfl := List.mem_singleton.mp hc
    rfl

lemma phase_of_isRun {c : ModuleCall} (h : c.isRun = true) : c.phase = some 2 := by
  cases c <;> simp_all [ModuleCall.isRun, ModuleCall.phase]

lemma filter_isRun_eq_nil {calls : List ModuleCall} (h : ∀ c ∈ calls, c.phase ≠ some 2) :
    calls.filter ModuleCall.isRun = [] := by
  rw [List.filter_eq_nil_iff]
  exact fun c hc hrun => h c hc (phase_of_isRun hrun)

/-- The calls of the cycles. -/
lemma mem_cycles {modules : List ModuleObject} {k : ℕ} {c : ModuleCall}
    (h : c ∈ (List.replicate k (runCalls modules)).flatten) : c.isRun = true := by
  obtain ⟨l, hl, hc⟩ := List.mem_flatten.mp h
  rw [List.eq_of_mem_replicate hl] at hc
  exact isRun_runCalls c hc

/-- **The life of every module of `main`**, when `main` is left to run for any number of passes
of the run loop, whatever the clock shows: each module gets the calls of its `lifetime`, and no
other. Every module that is loaded has its `pre_init` call before the first `init` of any module,
and every `init` has been called before the first `run`. The `run` calls are `k` equal cycles, each
of them in the order of the configuration.

**Proof sketch.** Every phase makes its calls in the order of the indices, so that among them
those with a given index are the ones that its module gets in the phase. -/
theorem main_lifetimes {n passes : ℕ} {calls : List ModuleCall} (hcount : moduleCount cfg = some n)
    (h : mainCalls env cfg init clock passes = .ok calls) :
    let modules := runningModules env cfg init n
    let k := cycles clock ((cfgGetInt cfg "interval").getD 0) modules passes
    (∀ i, calls.filter (fun c => c.index = i) =
      if i < n then lifetime env cfg init k i else []) ∧
    (calls.filterMap ModuleCall.phase).Pairwise (· ≤ ·) ∧
    calls.filter ModuleCall.isRun = (List.replicate k (runCalls modules)).flatten ∧
    (runCalls modules).Pairwise (fun c d => c.index < d.index) := by
  intro modules k
  have hcalls := mainCalls_eq hcount h
  rw [loopCalls_eq] at hcalls
  refine ⟨fun i => ?_, ?_, ?_, ?_⟩
  · rw [hcalls, List.filter_append, List.filter_append, List.filter_append, filter_loadCalls,
      filter_flatMap_accepted, filter_replicate_runCalls, filter_deinitCalls]
    · split_ifs with hi
      · cases haccepted : acceptedModule env cfg i with
        | none => cases hopen : openModule env cfg i <;> simp [lifetime, acceptedCalls, *]
        | some module =>
          obtain ⟨opened, hopen⟩ := exists_openModule haccepted
          by_cases hinit : init module = 0
          · simp [lifetime, acceptedCalls, hopen, haccepted, hinit, k, modules]
          · simp [lifetime, acceptedCalls, hopen, haccepted, hinit]
      · rfl
    · intro module c hc
      split_ifs at hc
      · obtain rfl : c = .init module := by simpa using hc
        rfl
      · obtain rfl | rfl : c = .init module ∨ c = .deinit module := by simpa using hc
        · rfl
        · rfl
  · rw [hcalls]
    have hload : PhasesUpTo 0 (loadCalls env cfg n) := by
      have hnil : PhasesUpTo 0 [] := ⟨List.Pairwise.nil, by simp⟩
      simpa using hnil.append le_rfl phase_loadCalls
    refine (((hload.append (Nat.zero_le 1) phase_initCalls).append (Nat.le_succ 1) ?_).append le_rfl
      ?_).ordered
    · exact fun c hc p hp => Option.some.inj (hp.symm.trans (phase_of_isRun (mem_cycles hc)))
    · intro c hc p hp
      obtain ⟨module, -, rfl⟩ := List.mem_map.mp hc
      cases hp
  · rw [hcalls, List.filter_append, List.filter_append, List.filter_append,
      List.filter_eq_self.mpr (fun c hc => mem_cycles hc), filter_isRun_eq_nil, filter_isRun_eq_nil,
      filter_isRun_eq_nil, List.nil_append, List.nil_append, List.append_nil]
    · intro c hc
      obtain ⟨module, -, rfl⟩ := List.mem_map.mp hc
      exact nofun
    · exact fun c hc hphase => absurd (phase_initCalls c hc 2 hphase) (by decide)
    · exact fun c hc hphase => absurd (phase_loadCalls c hc 2 hphase) (by decide)
  · rw [runCalls_eq, List.pairwise_flatMap]
    constructor
    · intro module _
      split_ifs
      · exact List.Pairwise.nil
      · exact List.pairwise_singleton _ _
    · refine ((pairwise_acceptedModule env cfg n).filter _).imp fun hlt c hc d hd => ?_
      split_ifs at hc hd
      all_goals simp_all [ModuleCall.index]

/-- The module of `oneTrigger`, which is to be run. -/
def enabledTrigger : Cfg := oneTrigger ++ [⟨"module0_register_run", "1"⟩]

/-- The module that is made of it. -/
def enabledSi : ModuleObject := ⟨0, 1, "si", "SI.ini", 100, 1⟩

/-- Its calls in two cycles. -/
def enabledCalls : List ModuleCall :=
  [.preInit { enabledSi with deadline := -1 }, .init enabledSi, .run enabledSi, .run enabledSi,
    .deinit enabledSi]

lemma mainCalls_enabledTrigger :
    mainCalls plain enabledTrigger (fun _ => 0) (fun _ => 0) 2 = .ok enabledCalls := rfl

/-- The calls of `enabledTrigger` in two cycles. -/
theorem main_lifetimes_enabledTrigger :
    mainCalls plain enabledTrigger (fun _ => 0) (fun _ => 0) 2 = .ok enabledCalls ∧
    (∀ i, enabledCalls.filter (fun c => c.index = i) =
      if i < 1 then lifetime plain enabledTrigger (fun _ => 0) 2 i else []) ∧
    (enabledCalls.filterMap ModuleCall.phase).Pairwise (· ≤ ·) := by
  have h := main_lifetimes (n := 1) rfl mainCalls_enabledTrigger
  exact ⟨mainCalls_enabledTrigger, h.1, h.2.1⟩

end Modules

end Tmee
