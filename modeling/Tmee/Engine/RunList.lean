import Tmee.Engine.InitModules
import Tmee.Engine.LoadOrder
import Tmee.Lib.LinkedList

set_option relaxedAutoImplicit false
set_option autoImplicit false

/-!
# The run list in memory

`registered_modules` is a list of `sys/queue.h`. The loading loop appends to it, `init_modules`
takes the failing modules out of it and frees them, `unload_modules` frees all of them. Both walk
with `LIST_FOREACH`, which reads the link of an element after the body: of an element that the body
has freed, the link is read from freed memory.

## Main definitions

* `Tmee.registerModule` — appending to the list.
* `Tmee.RunList` — the list, with the actions of a walk.
* `Tmee.RunList.initModules`, `Tmee.RunList.unloadModules` — the two walks.
* `Tmee.InitialisesCleanly`, `Tmee.UnloadsCleanly` — what they are for.

## Main results

* `Tmee.initModules_refines`, `Tmee.unloadModules_refines` — what the walks do, if freed memory
  keeps its contents.
* `Tmee.runList_walks_iff` — when no link of a freed module is followed.
-/

namespace Tmee

open LinkedList

/-- Append a module to the list: at the head of an empty list, otherwise behind the last element,
which a walk of at most `fuel` turns finds. -/
def registerModule (fuel : ℕ) (heap : Heap ModuleObject) (module : ModuleObject) :
    Option (Heap ModuleObject) :=
  match heap.head with
  | none => some (heap.insertAt .head module)
  | some first => (findLast heap fuel first).map fun last => heap.insertAt (.next last) module

/-- Append modules one after the other. -/
def registerModules (fuel : ℕ) (heap : Heap ModuleObject) (modules : List ModuleObject) :
    Option (Heap ModuleObject) :=
  modules.foldlM (registerModule fuel) heap

/-- The list, and what has been done to the modules. Memory that has been freed keeps its contents
here; that a link has been followed in it can be seen from the actions. -/
structure RunList where
  heap : Heap ModuleObject
  actions : List InitAction

namespace RunList

def log (l : RunList) (action : InitAction) : RunList := { l with actions := l.actions ++ [action] }

/-- The step of `LIST_FOREACH` to the next module. -/
def follow (l : RunList) (module : ModuleObject) : Option ModuleObject × RunList :=
  (l.heap.next module, l.log (.next module))

/-- A turn of `init_modules`. -/
def initTurn (init : ModuleObject → ℤ) (l : RunList) (module : ModuleObject) :
    Option ModuleObject × RunList :=
  let l := l.log (.init module)
  if init module ≠ 0 then
    let l : RunList := { l with heap := l.heap.remove module }
    ((l.log (.deinit module)).log (.free module)).follow module
  else l.follow module

def initModules (init : ModuleObject → ℤ) (fuel : ℕ) (l : RunList) : Option RunList :=
  foreach (initTurn init) fuel l.heap.head l

/-- A turn of `unload_modules`. -/
def unloadTurn (l : RunList) (module : ModuleObject) : Option ModuleObject × RunList :=
  ((l.log (.deinit module)).log (.free module)).follow module

def unloadModules (fuel : ℕ) (l : RunList) : Option RunList :=
  foreach unloadTurn fuel l.heap.head l

end RunList

/-! ## What the walks are for -/

/-- The modules that `init` is called for. -/
def initCalls (actions : List InitAction) : List ModuleObject :=
  actions.filterMap fun
    | .init module => some module
    | _ => none

/-- The modules that `deinit` is called for. -/
def deinitCalls (actions : List InitAction) : List ModuleObject :=
  actions.filterMap fun
    | .deinit module => some module
    | _ => none

/-- The link of a module is not followed once the module has been freed. -/
def FollowsNoFreedLink (actions : List InitAction) : Prop :=
  ∀ pre module post, actions = pre ++ .next module :: post → .free module ∉ pre

/-- **`init_modules` does what it is for**: `init` is called once for each module in order, `deinit`
for those that fail, the others remain in order, and no freed link is followed. -/
structure InitialisesCleanly (init : ModuleObject → ℤ) (modules : List ModuleObject)
    (l : RunList) : Prop where
  inits : initCalls l.actions = modules
  deinits : deinitCalls l.actions = modules.filter fun module => init module ≠ 0
  remaining : Represents l.heap (modules.filter fun module => init module = 0)
  links : FollowsNoFreedLink l.actions

/-- **`unload_modules` does what it is for**: `deinit` is called once for each module, and no freed
link is followed. -/
structure UnloadsCleanly (modules : List ModuleObject) (l : RunList) : Prop where
  deinits : deinitCalls l.actions = modules
  links : FollowsNoFreedLink l.actions

/-! ## The list after loading -/

section Register

variable {heap : Heap ModuleObject} {modules rest : List ModuleObject} {module : ModuleObject}
  {fuel : ℕ}

lemma represents_nil (hempty : heap.head = none) : Represents heap [] :=
  ⟨trivial, hempty, List.nodup_nil⟩

/-- A module is appended at the end. -/
lemma exists_registerModule (h : Represents heap modules) (hmodule : module ∉ modules)
    (hfuel : modules.length ≤ fuel) :
    ∃ heap', registerModule fuel heap module = some heap' ∧
      Represents heap' (modules ++ [module]) := by
  cases modules with
  | nil =>
    refine ⟨heap.insertAt .head module, ?_, h.insertAt hmodule⟩
    rw [registerModule, h.head_eq]
    rfl
  | cons first modules =>
    have hfirst : Represents heap ([] ++ first :: modules) := h
    obtain ⟨last, hlast, hslot⟩ := hfirst.findLast_eq (Nat.lt_of_succ_le hfuel)
    refine ⟨heap.insertAt (.next last) module, ?_, ?_⟩
    · rw [registerModule, h.head_eq, List.head?_cons]
      simp only [hlast, Option.map_some]
    · rw [hslot]
      exact h.insertAt hmodule

/-- **The loading loop builds the list** of the modules that it appends. -/
lemma exists_registerModules (h : Represents heap modules) (hnodup : (modules ++ rest).Nodup)
    (hfuel : (modules ++ rest).length ≤ fuel) :
    ∃ heap', registerModules fuel heap rest = some heap' ∧ Represents heap' (modules ++ rest) := by
  induction rest generalizing heap modules with
  | nil => exact ⟨heap, rfl, by rwa [List.append_nil]⟩
  | cons module rest ih =>
    have hmodule : module ∉ modules := by
      rw [List.nodup_middle, List.nodup_cons, List.mem_append, not_or] at hnodup
      exact hnodup.1.1
    have hlen : modules.length ≤ fuel := by
      rw [List.length_append] at hfuel
      omega
    obtain ⟨heap₁, hheap₁, hrep₁⟩ := exists_registerModule h hmodule hlen
    rw [List.append_cons] at hnodup hfuel ⊢
    obtain ⟨heap', hheap', hrep'⟩ := ih hrep₁ hnodup hfuel
    refine ⟨heap', ?_, hrep'⟩
    rw [registerModules, List.foldlM_cons, hheap₁]
    exact hheap'

/-- The modules that the loading loop appends are different objects. -/
lemma nodup_registeredModules {env : Environment} {cfg : Cfg} {e : Engine}
    (hload : loadMain env cfg = .ok (some e)) : e.registeredModules.Nodup := by
  obtain ⟨n, -, hexec⟩ := exec_of_loadMain hload
  rw [(loadInv_of_exec hexec).registered, appendedBy_actions]
  refine (pairwise_acceptedModule env cfg n).imp fun hlt heq => ?_
  rw [heq] at hlt
  exact lt_irrefl _ hlt

/-- After loading, the list in memory is the one of the engine. -/
lemma represents_of_loadMain {env : Environment} {cfg : Cfg} {e : Engine}
    (hload : loadMain env cfg = .ok (some e)) (hempty : heap.head = none)
    (hfuel : e.registeredModules.length ≤ fuel) :
    ∃ heap', registerModules fuel heap e.registeredModules = some heap' ∧
      Represents heap' e.registeredModules :=
  exists_registerModules (represents_nil hempty) (nodup_registeredModules hload) hfuel

end Register

/-! ## The walks -/

section Walks

variable (init : ModuleObject → ℤ) {heap : Heap ModuleObject} {modules : List ModuleObject}
  {fuel : ℕ}

lemma initModules_append (xs ys : List ModuleObject) :
    initModules init (xs ++ ys) =
      ((initModules init xs).1 ++ (initModules init ys).1,
        (initModules init xs).2 ++ (initModules init ys).2) := by
  induction xs with
  | nil => simp [initModules]
  | cons x xs ih =>
    rw [List.cons_append, initModules, initModules, ih]
    simp only
    split_ifs <;> simp

/-- What remains and what has been done after the modules `done`. -/
structure InitInv (init : ModuleObject → ℤ) (done todo : List ModuleObject) (l : RunList) :
    Prop where
  represents : Represents l.heap ((initModules init done).1 ++ todo)
  actions_eq : l.actions = (initModules init done).2

/-- **Step lemma** of `init_modules`. -/
lemma InitInv.turn {done todo : List ModuleObject} {module : ModuleObject} {l : RunList}
    (h : InitInv init done (module :: todo) l) :
    (l.initTurn init module).1 = todo.head? ∧
      InitInv init (done ++ [module]) todo (l.initTurn init module).2 := by
  by_cases hinit : init module ≠ 0
  · have hrep :
        Represents (l.heap.remove module) ((initModules init (done ++ [module])).1 ++ todo) := by
      rw [initModules_append]
      simpa [initModules, hinit] using h.represents.remove
    rw [RunList.initTurn]
    simp only [if_pos hinit]
    refine ⟨h.represents.next_remove, hrep, ?_⟩
    rw [initModules_append]
    simp [RunList.follow, RunList.log, initModules, hinit, h.actions_eq]
  · have hrep : Represents l.heap ((initModules init (done ++ [module])).1 ++ todo) := by
      rw [initModules_append]
      simpa [initModules, hinit] using h.represents
    rw [RunList.initTurn]
    simp only [if_neg hinit]
    refine ⟨h.represents.next_eq, hrep, ?_⟩
    rw [initModules_append]
    simp [RunList.follow, RunList.log, initModules, hinit, h.actions_eq]

/-- **`init_modules` on the list in memory does what it does on the list of modules.** -/
theorem initModules_refines (h : Represents heap modules) (hfuel : modules.length < fuel) :
    ∃ l, RunList.initModules init fuel ⟨heap, []⟩ = some l ∧
      Represents l.heap (initModules init modules).1 ∧
      l.actions = (initModules init modules).2 := by
  have hinv : InitInv init [] modules ⟨heap, []⟩ := ⟨h, rfl⟩
  obtain ⟨l, hl, hdone⟩ := foreach_rule (fun _ _ _ _ hinv => InitInv.turn init hinv) hinv hfuel
  refine ⟨l, ?_, ?_, hdone.actions_eq⟩
  · rw [← hl, RunList.initModules, h.head_eq]
  · simpa using hdone.represents

/-- What `unload_modules` does. -/
def unloadActions (modules : List ModuleObject) : List InitAction :=
  modules.flatMap fun module => [.deinit module, .free module, .next module]

/-- **`unload_modules` on the list in memory.** -/
theorem unloadModules_refines (h : Represents heap modules) (hfuel : modules.length < fuel) :
    ∃ l, RunList.unloadModules fuel ⟨heap, []⟩ = some l ∧ l.actions = unloadActions modules := by
  let Inv (done todo : List ModuleObject) (l : RunList) : Prop :=
    Represents l.heap (done ++ todo) ∧ l.actions = unloadActions done
  have hturn : ∀ done module todo l, Inv done (module :: todo) l →
      (RunList.unloadTurn l module).1 = todo.head? ∧
        Inv (done ++ [module]) todo (RunList.unloadTurn l module).2 := by
    rintro done module todo l ⟨hrep, hactions⟩
    refine ⟨hrep.next_eq, ?_, ?_⟩
    · rw [← List.append_cons]
      exact hrep
    · simp [RunList.unloadTurn, RunList.follow, RunList.log, hactions, unloadActions]
  have hinv : Inv [] modules ⟨heap, []⟩ := ⟨h, rfl⟩
  obtain ⟨l, hl, -, hactions⟩ := foreach_rule hturn hinv hfuel
  refine ⟨l, ?_, hactions⟩
  rw [← hl, RunList.unloadModules, h.head_eq]

end Walks

/-! ## Links of freed modules -/

section Links

variable {init : ModuleObject → ℤ} {modules : List ModuleObject} {actions : List InitAction}

/-- `init` is called once for each module, in order. -/
lemma initCalls_initModules (init : ModuleObject → ℤ) (modules : List ModuleObject) :
    initCalls (initModules init modules).2 = modules := by
  induction modules with
  | nil => rfl
  | cons m ms ih =>
    rw [initModules]
    split_ifs
    · exact congrArg (m :: ·) ih
    · exact congrArg (m :: ·) ih

/-- `deinit` is called for the modules that fail. -/
lemma deinitCalls_initModules (init : ModuleObject → ℤ) (modules : List ModuleObject) :
    deinitCalls (initModules init modules).2 = modules.filter fun module => init module ≠ 0 := by
  induction modules with
  | nil => rfl
  | cons m ms ih =>
    rw [initModules]
    split_ifs with h
    · rw [List.filter_cons_of_pos (by simpa using h), ← ih]
      rfl
    · rw [List.filter_cons_of_neg (by simpa using h), ← ih]
      rfl

lemma deinitCalls_unloadActions (modules : List ModuleObject) :
    deinitCalls (unloadActions modules) = modules := by
  induction modules with
  | nil => rfl
  | cons m ms ih => exact congrArg (m :: ·) ih

lemma followsNoFreedLink_of_not_mem (h : ∀ module, InitAction.free module ∉ actions) :
    FollowsNoFreedLink actions := by
  rintro pre module post rfl hfree
  exact h module (List.mem_append_left _ hfree)

/-- A walk that frees a module goes on with its link. -/
lemma not_followsNoFreedLink (pre post : List InitAction) (module : ModuleObject) :
    ¬ FollowsNoFreedLink (pre ++ [.free module, .next module] ++ post) := by
  intro h
  have hsplit : pre ++ [.free module, .next module] ++ post =
      (pre ++ [.free module]) ++ .next module :: post := by simp
  exact h _ module post hsplit (by simp)

/-- The link of every module that fails is followed after the module has been freed. -/
lemma initModules_links_iff :
    FollowsNoFreedLink (initModules init modules).2 ↔ ∀ module ∈ modules, init module = 0 := by
  constructor
  · intro h module hmem
    by_contra hfail
    obtain ⟨front, rest, rfl⟩ := List.append_of_mem hmem
    refine not_followsNoFreedLink ((initModules init front).2 ++ [.init module, .deinit module])
      (initModules init rest).2 module ?_
    rw [initModules_append] at h
    simpa [initModules, hfail] using h
  · intro h
    apply followsNoFreedLink_of_not_mem
    intro module hfree
    obtain ⟨hmem, hfail⟩ := (free_mem_initModules init).mp hfree
    exact hfail (h module hmem)

lemma unloadActions_links_iff : FollowsNoFreedLink (unloadActions modules) ↔ modules = [] := by
  constructor
  · intro h
    cases modules with
    | nil => rfl
    | cons m ms => exact absurd h (not_followsNoFreedLink [.deinit m] (unloadActions ms) m)
  · rintro rfl
    exact followsNoFreedLink_of_not_mem fun _ => List.not_mem_nil

end Links

/-- **When the walks do what they are for.** For every list of distinct modules that the loading
loop has appended and all results of `init`: both walks end; `init_modules` does what it is for if
and only if no `init` fails, and `unload_modules` on what remains if and only if nothing remains.

**Proof sketch.** Both walks read links as if the list were unchanged: a removed module still links
to what was behind it (`LinkedList.Represents.next_remove`). So `init_modules` calls, removes and
keeps what it should (`initModules_refines`), but the link of a module that fails is read after it
is freed; `unload_modules` does so with every module. -/
theorem runList_walks_iff (init : ModuleObject → ℤ) {heap₀ : Heap ModuleObject}
    (hempty : heap₀.head = none) {modules : List ModuleObject} (hnodup : modules.Nodup) {fuel : ℕ}
    (hfuel : modules.length < fuel) :
    ∃ heap l l', registerModules fuel heap₀ modules = some heap ∧
      RunList.initModules init fuel ⟨heap, []⟩ = some l ∧
      RunList.unloadModules fuel ⟨l.heap, []⟩ = some l' ∧
      (InitialisesCleanly init modules l ↔ ∀ module ∈ modules, init module = 0) ∧
      (UnloadsCleanly (modules.filter fun module => init module = 0) l' ↔
        ∀ module ∈ modules, init module ≠ 0) := by
  obtain ⟨heap, hheap, hrep⟩ := exists_registerModules (represents_nil hempty) hnodup hfuel.le
  rw [List.nil_append] at hrep
  obtain ⟨l, hl, hrep', hactions⟩ := initModules_refines init hrep hfuel
  rw [initModules_fst] at hrep'
  have hfuel' : (modules.filter fun module => init module = 0).length < fuel :=
    (List.length_filter_le _ modules).trans_lt hfuel
  obtain ⟨l', hl', hactions'⟩ := unloadModules_refines hrep' hfuel'
  refine ⟨heap, l, l', hheap, hl, hl', ?_, ?_⟩
  · rw [← initModules_links_iff, ← hactions]
    refine ⟨fun h => h.links, fun hlinks => ⟨?_, ?_, hrep', hlinks⟩⟩
    · rw [hactions, initCalls_initModules]
    · rw [hactions, deinitCalls_initModules]
  · have hnone : (modules.filter fun module => init module = 0) = [] ↔
        ∀ module ∈ modules, init module ≠ 0 := by
      simp [List.filter_eq_nil_iff]
    rw [← hnone, ← unloadActions_links_iff, ← hactions']
    exact ⟨fun h => h.links, fun hlinks => ⟨by rw [hactions', deinitCalls_unloadActions], hlinks⟩⟩

/-! ### Three modules -/

def siModule : ModuleObject := ⟨0, 1, "si", "SI.ini", 100, 0⟩

def gooseModule : ModuleObject := ⟨1, 2, "goose", "GOOSE.ini", 100, 1⟩

def smvModule : ModuleObject := ⟨2, 3, "smv", "SMV.ini", 100, 1⟩

/-- An empty list; the fields of objects that are not in it hold anything. -/
def emptyList : Heap ModuleObject := ⟨none, fun _ => none, fun _ => .head⟩

/-- The `init` of the second module fails. -/
def gooseFails (module : ModuleObject) : ℤ := if module = gooseModule then -1 else 0

/-- Three modules whose `init` succeeds are initialised cleanly. If the one in the middle fails, its
link is followed after it has been freed, and so are those of the others when they are unloaded. -/
theorem runList_walks_three :
    (∃ heap l, registerModules 4 emptyList [siModule, gooseModule, smvModule] = some heap ∧
      RunList.initModules (fun _ => 0) 4 ⟨heap, []⟩ = some l ∧
      InitialisesCleanly (fun _ => 0) [siModule, gooseModule, smvModule] l) ∧
    ∃ heap l l', registerModules 4 emptyList [siModule, gooseModule, smvModule] = some heap ∧
      RunList.initModules gooseFails 4 ⟨heap, []⟩ = some l ∧
      RunList.unloadModules 4 ⟨l.heap, []⟩ = some l' ∧
      ¬ InitialisesCleanly gooseFails [siModule, gooseModule, smvModule] l ∧
      ¬ UnloadsCleanly [siModule, smvModule] l' := by
  have hempty : emptyList.head = none := rfl
  have hnodup : [siModule, gooseModule, smvModule].Nodup := by decide
  have hfuel : [siModule, gooseModule, smvModule].length < 4 := by decide
  constructor
  · obtain ⟨heap, l, -, hheap, hl, -, hinit, -⟩ :=
      runList_walks_iff (fun _ => 0) hempty hnodup hfuel
    exact ⟨heap, l, hheap, hl, hinit.mpr fun _ _ => rfl⟩
  · obtain ⟨heap, l, l', hheap, hl, hl', hinit, hunload⟩ :=
      runList_walks_iff gooseFails hempty hnodup hfuel
    refine ⟨heap, l, l', hheap, hl, hl', fun h => ?_, fun h => ?_⟩
    · exact absurd (hinit.mp h gooseModule (by simp)) (by decide)
    · exact hunload.mp h siModule (by simp) (by decide)

/-- **The walks follow freed links in general**: a module whose `init` fails. -/
theorem not_runList_walks_clean :
    ¬ ∀ (init : ModuleObject → ℤ) (heap₀ : Heap ModuleObject) (modules : List ModuleObject)
      (fuel : ℕ), heap₀.head = none → modules.Nodup → modules.length < fuel →
      ∃ heap l l', registerModules fuel heap₀ modules = some heap ∧
        RunList.initModules init fuel ⟨heap, []⟩ = some l ∧
        RunList.unloadModules fuel ⟨l.heap, []⟩ = some l' ∧
        InitialisesCleanly init modules l ∧
        UnloadsCleanly (modules.filter fun module => init module = 0) l' := by
  intro h
  have hfuel : [siModule].length < 2 := by decide
  have hempty : Represents emptyList [] := represents_nil rfl
  obtain ⟨heap, l, l', hheap, hl, -, hclean, -⟩ :=
    h (fun _ => -1) emptyList [siModule] 2 rfl (List.nodup_singleton siModule) hfuel
  obtain ⟨heap', hheap', hrep⟩ :=
    exists_registerModules hempty (List.nodup_singleton siModule) hfuel.le
  obtain rfl : heap = heap' := Option.some.inj (hheap.symm.trans hheap')
  obtain ⟨l₁, hl₁, -, hactions⟩ := initModules_refines (fun _ => -1) hrep hfuel
  obtain rfl : l = l₁ := Option.some.inj (hl.symm.trans hl₁)
  have hlinks := hclean.links
  rw [hactions, initModules_links_iff] at hlinks
  exact absurd (hlinks siModule List.mem_cons_self) (by decide)

end Tmee
