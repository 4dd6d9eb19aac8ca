import Tmee.Engine.Loader

set_option relaxedAutoImplicit false
set_option autoImplicit false

/-!
# The globals after loading

What the loading loop leaves in the event table, the chains and the run list, and the accesses it
makes to the array of chains. A trigger whose name gets no id is passed on with the id `-1`, which
`subscribe_event_id` does not refuse.

## Main definitions

* `Tmee.LoadInv` — what the globals hold after a list of actions.

## Main results

* `Tmee.exec_actionStep_isOk_iff` — loading goes through if every trigger gets an id.
-/

namespace Tmee

/-- The names registered by the actions, in order. -/
def namesOf (as : List LoadAction) : List String :=
  as.filterMap fun
    | .register name => some name
    | .trigger name _ => some name
    | .append _ => none

/-- The modules subscribed under a name by the actions, in order. -/
def subscriptionsTo (as : List LoadAction) (name : String) : List ModuleObject :=
  as.filterMap fun
    | .register _ => none
    | .trigger name' module => if name' = name then some module else none
    | .append _ => none

/-- The modules added to the run list by the actions, in order. -/
def appendedBy (as : List LoadAction) : List ModuleObject :=
  as.filterMap fun
    | .register _ => none
    | .trigger _ _ => none
    | .append module => some module

/-- **What the globals hold after the actions `as`**: the table of the names registered, under
each stored name the modules subscribed to it, and the modules added to the run list. -/
structure LoadInv (as : List LoadAction) (e : Engine) : Prop where
  numbers : e.Numbers (FirstSeen.table maxEventIds (namesOf as))
  /-- Every trigger got an id. -/
  stored : ∀ name module, LoadAction.trigger name module ∈ as →
    name ∈ FirstSeen.table maxEventIds (namesOf as)
  chain_of_name : ∀ (k : Fin maxEventIds) (name : String),
    (FirstSeen.table maxEventIds (namesOf as))[(k : ℕ)]? = some name →
      e.eventChains k = subscriptionsTo as name
  chain_of_free : ∀ k : Fin maxEventIds,
    (FirstSeen.table maxEventIds (namesOf as))[(k : ℕ)]? = none → e.eventChains k = []
  registered : e.registeredModules = appendedBy as

lemma mem_subscriptionsTo {as : List LoadAction} {name : String} {module : ModuleObject} :
    module ∈ subscriptionsTo as name ↔ LoadAction.trigger name module ∈ as := by
  rw [subscriptionsTo, List.mem_filterMap]
  constructor
  · rintro ⟨a, ha, hmodule⟩
    cases a with
    | register name' => simp at hmodule
    | trigger name' module' =>
      obtain ⟨rfl, rfl⟩ : name' = name ∧ module' = module := by simpa using hmodule
      exact ha
    | append module' => simp at hmodule
  · intro h
    exact ⟨_, h, by simp⟩

lemma mem_namesOf_of_trigger {as : List LoadAction} {name : String} {module : ModuleObject}
    (h : LoadAction.trigger name module ∈ as) : name ∈ namesOf as :=
  List.mem_filterMap.mpr ⟨_, h, rfl⟩

lemma namesOf_append (as bs : List LoadAction) :
    namesOf (as ++ bs) = namesOf as ++ namesOf bs :=
  List.filterMap_append

section Concat

variable (as : List LoadAction) (name name' : String) (module : ModuleObject)

@[simp] lemma namesOf_concat_register :
    namesOf (as ++ [.register name]) = namesOf as ++ [name] := by
  simp [namesOf]

@[simp] lemma namesOf_concat_trigger :
    namesOf (as ++ [.trigger name module]) = namesOf as ++ [name] := by
  simp [namesOf]

@[simp] lemma namesOf_concat_append : namesOf (as ++ [.append module]) = namesOf as := by
  simp [namesOf]

@[simp] lemma subscriptionsTo_concat_register :
    subscriptionsTo (as ++ [.register name]) name' = subscriptionsTo as name' := by
  simp [subscriptionsTo]

@[simp] lemma subscriptionsTo_concat_trigger_self :
    subscriptionsTo (as ++ [.trigger name module]) name =
      subscriptionsTo as name ++ [module] := by
  simp [subscriptionsTo]

lemma subscriptionsTo_concat_trigger_of_ne {name name' : String} (h : name ≠ name') :
    subscriptionsTo (as ++ [.trigger name module]) name' = subscriptionsTo as name' := by
  simp [subscriptionsTo, h]

@[simp] lemma subscriptionsTo_concat_append :
    subscriptionsTo (as ++ [.append module]) name = subscriptionsTo as name := by
  simp [subscriptionsTo]

@[simp] lemma appendedBy_concat_register :
    appendedBy (as ++ [.register name]) = appendedBy as := by
  simp [appendedBy]

@[simp] lemma appendedBy_concat_trigger :
    appendedBy (as ++ [.trigger name module]) = appendedBy as := by
  simp [appendedBy]

@[simp] lemma appendedBy_concat_append :
    appendedBy (as ++ [.append module]) = appendedBy as ++ [module] := by
  simp [appendedBy]

end Concat

namespace LoadInv

variable {as : List LoadAction} {e : Engine}

lemma initial : LoadInv [] Engine.initial where
  numbers := by simpa [namesOf] using Engine.Numbers.initial
  stored := by simp
  chain_of_name := by simp [namesOf]
  chain_of_free := fun _ _ => rfl
  registered := rfl

/-- Names registered later find the chains as they are now: a name not stored yet has no
subscriber. -/
lemma chain_of_later (h : LoadInv as e) {l : List String} {k : Fin maxEventIds} {name : String}
    (hk : (FirstSeen.table maxEventIds (namesOf as ++ l))[(k : ℕ)]? = some name) :
    e.eventChains k = subscriptionsTo as name := by
  cases hold : (FirstSeen.table maxEventIds (namesOf as))[(k : ℕ)]? with
  | some name' =>
    rw [FirstSeen.getElem?_table_append hold l] at hk
    rw [h.chain_of_name k name' hold, Option.some.inj hk]
  | none =>
    rw [h.chain_of_free k hold, eq_comm, List.eq_nil_iff_forall_not_mem]
    intro module hmem
    obtain ⟨j, hj⟩ := List.mem_iff_getElem?.mp
      (h.stored name module (mem_subscriptionsTo.mp hmem))
    have hj' := FirstSeen.getElem?_table_append hj l
    obtain ⟨hlt, -⟩ := List.getElem?_eq_some_iff.mp hk
    have hkj : (k : ℕ) = j :=
      (List.getElem?_inj hlt (FirstSeen.nodup_table _ _)).mp (hk.trans hj'.symm)
    rw [hkj, hj] at hold
    cases hold

lemma chain_of_later_free (h : LoadInv as e) {l : List String} {k : Fin maxEventIds}
    (hk : (FirstSeen.table maxEventIds (namesOf as ++ l))[(k : ℕ)]? = none) :
    e.eventChains k = [] := by
  apply h.chain_of_free k
  rw [List.getElem?_eq_none_iff] at *
  exact (FirstSeen.table_prefix_append maxEventIds (namesOf as) l).length_le.trans hk

lemma stored_append (h : LoadInv as e) (l : List String) {name : String} {module : ModuleObject}
    (hmem : LoadAction.trigger name module ∈ as) :
    name ∈ FirstSeen.table maxEventIds (namesOf as ++ l) :=
  (FirstSeen.mem_table_append_iff (mem_namesOf_of_trigger hmem)).mpr (h.stored name module hmem)

/-- A registration by `pre_init` keeps the invariant. -/
lemma register (h : LoadInv as e) (name : String) :
    LoadInv (as ++ [.register name]) (assignEventId e name).2 := by
  obtain ⟨id, e', hreg, hnum, hchains, hmodules, -⟩ := assignEventId_spec h.numbers name
  rw [hreg]
  refine ⟨by simpa using hnum, ?_, ?_, ?_, ?_⟩
  · intro name' module hmem
    rw [namesOf_concat_register]
    exact h.stored_append [name] (by simpa using hmem)
  · intro k name' hk
    rw [hchains, subscriptionsTo_concat_register]
    exact h.chain_of_later (by simpa using hk)
  · intro k hk
    rw [hchains]
    rw [namesOf_concat_register] at hk
    exact h.chain_of_later_free hk
  · rw [hmodules, h.registered, appendedBy_concat_register]

/-- Adding a module to the run list keeps the invariant. -/
lemma append (h : LoadInv as e) (module : ModuleObject) :
    LoadInv (as ++ [.append module])
      { e with registeredModules := e.registeredModules ++ [module] } := by
  refine ⟨⟨?_, ?_⟩, ?_, ?_, ?_, ?_⟩
  · rw [namesOf_concat_append]
    exact h.numbers.eventIds_eq
  · rw [namesOf_concat_append]
    exact h.numbers.nodup
  · intro name' module' hmem
    rw [namesOf_concat_append]
    exact h.stored name' module' (by simpa using hmem)
  · intro k name' hk
    rw [subscriptionsTo_concat_append]
    exact h.chain_of_name k name' (by simpa using hk)
  · intro k hk
    exact h.chain_of_free k (by simpa using hk)
  · rw [appendedBy_concat_append, h.registered]

/-- **A trigger without an id** is passed on with the error value, and the access to the array of
chains is out of bounds. -/
lemma triggerStep_of_full (h : LoadInv as e) {name : String} (module : ModuleObject)
    (hfull : name ∉ FirstSeen.table maxEventIds (namesOf as ++ [name])) :
    (assignEventId e name).1 = -1 ∧ triggerStep e name module = .error .outOfBounds := by
  obtain ⟨id, e', hreg, -, -, -, ⟨rfl, rfl, -⟩ | ⟨k, -, hk⟩⟩ := assignEventId_spec h.numbers name
  · refine ⟨congrArg Prod.fst hreg, ?_⟩
    rw [triggerStep, hreg]
    simp only [subscribeEventId_of_neg _ (by decide : (-1 : ℤ) < 0)]
    rfl
  · exact absurd (List.mem_of_getElem? hk) hfull

/-- **A trigger with an id** subscribes the module under its name, and the invariant is kept. -/
lemma triggerStep_of_stored (h : LoadInv as e) {name : String} (module : ModuleObject)
    (hmem : name ∈ FirstSeen.table maxEventIds (namesOf as ++ [name])) :
    ∃ e', triggerStep e name module = .ok e' ∧ LoadInv (as ++ [.trigger name module]) e' ∧
      (assignEventId e name).1 ≠ -1 := by
  obtain ⟨id, e', hreg, hnum, hchains, hmodules, ⟨-, -, hfull⟩ | ⟨k, rfl, hk⟩⟩ :=
    assignEventId_spec h.numbers name
  · exact absurd hmem hfull
  refine ⟨e'.appendToChain k module, ?_, ?_, ?_⟩
  · rw [triggerStep, hreg]
    simp only [subscribeEventId_natCast]
    rfl
  · refine ⟨?_, ?_, ?_, ?_, ?_⟩
    · rw [namesOf_concat_trigger]
      exact hnum.appendToChain k module
    · intro name' module' hmem'
      rw [namesOf_concat_trigger]
      rw [List.mem_append, List.mem_singleton] at hmem'
      rcases hmem' with hold | hnew
      · exact h.stored_append [name] hold
      · obtain ⟨rfl, -⟩ : name' = name ∧ module' = module := by simpa using hnew
        exact hmem
    · intro j name' hj
      rw [namesOf_concat_trigger] at hj
      by_cases hjk : j = k
      · subst hjk
        obtain rfl : name = name' := by simpa [hk] using hj
        rw [appendToChain_self, hchains, h.chain_of_later hj,
          subscriptionsTo_concat_trigger_self]
      · have hne : name ≠ name' := by
          rintro rfl
          exact hjk (Fin.ext (hnum.index_inj hj hk))
        rw [appendToChain_of_ne e' hjk, hchains, h.chain_of_later hj,
          subscriptionsTo_concat_trigger_of_ne as module hne]
    · intro j hj
      rw [namesOf_concat_trigger] at hj
      have hjk : j ≠ k := by
        rintro rfl
        rw [hk] at hj
        cases hj
      rw [appendToChain_of_ne e' hjk, hchains, h.chain_of_later_free hj]
    · rw [appendedBy_concat_trigger, ← h.registered]
      exact hmodules
  · rw [hreg]
    simp only
    omega

/-- A module is in a chain if and only if it was subscribed to something. -/
lemma mem_chain_iff (h : LoadInv as e) {module : ModuleObject} :
    (∃ k, module ∈ e.eventChains k) ↔ ∃ name, LoadAction.trigger name module ∈ as := by
  constructor
  · rintro ⟨k, hk⟩
    cases hget : (FirstSeen.table maxEventIds (namesOf as))[(k : ℕ)]? with
    | none =>
      rw [h.chain_of_free k hget] at hk
      cases hk
    | some name =>
      rw [h.chain_of_name k name hget] at hk
      exact ⟨name, mem_subscriptionsTo.mp hk⟩
  · rintro ⟨name, hmem⟩
    obtain ⟨k, hk⟩ := List.mem_iff_getElem?.mp (h.stored name module hmem)
    obtain ⟨hlt, -⟩ := List.getElem?_eq_some_iff.mp hk
    have hkmax := hlt.trans_le (FirstSeen.length_table_le _ _)
    refine ⟨⟨k, hkmax⟩, ?_⟩
    rw [h.chain_of_name ⟨k, hkmax⟩ name hk]
    exact mem_subscriptionsTo.mpr hmem

/-- **Step lemma**: an action that succeeds keeps the invariant. -/
lemma step (h : LoadInv as e) {a : LoadAction} {e' : Engine} (hstep : actionStep e a = .ok e') :
    LoadInv (as ++ [a]) e' := by
  cases a with
  | register name =>
    obtain rfl := Except.ok.inj hstep
    exact h.register name
  | trigger name module =>
    rw [actionStep] at hstep
    by_cases hmem : name ∈ FirstSeen.table maxEventIds (namesOf as ++ [name])
    · obtain ⟨e'', heq, hinv, -⟩ := h.triggerStep_of_stored module hmem
      rw [heq] at hstep
      obtain rfl := Except.ok.inj hstep
      exact hinv
    · rw [(h.triggerStep_of_full module hmem).2] at hstep
      cases hstep
  | append module =>
    obtain rfl := Except.ok.inj hstep
    exact h.append module

end LoadInv

/-- **Run lemma**: the invariant holds after every run of actions. -/
lemma loadInv_of_exec {as : List LoadAction} {e : Engine}
    (h : Run.exec actionStep Engine.initial as = .ok e) : LoadInv as e := by
  induction as using List.reverseRecOn generalizing e with
  | nil =>
    obtain rfl : Engine.initial = e := by simpa using h
    exact LoadInv.initial
  | append_singleton as a ih =>
    obtain ⟨e', has, hstep⟩ := Run.exec_concat_eq_ok.mp h
    exact (ih has).step hstep

/-- **Loading goes through** if and only if every trigger gets an id. -/
lemma exec_actionStep_isOk_iff (as : List LoadAction) :
    (∃ e, Run.exec actionStep Engine.initial as = .ok e) ↔
      ∀ name module, LoadAction.trigger name module ∈ as →
        name ∈ FirstSeen.table maxEventIds (namesOf as) := by
  constructor
  · rintro ⟨e, he⟩
    exact (loadInv_of_exec he).stored
  · intro hstored
    induction as using List.reverseRecOn with
    | nil => exact ⟨_, rfl⟩
    | append_singleton as a ih =>
      have hstarts : ∀ name module, LoadAction.trigger name module ∈ as →
          name ∈ FirstSeen.table maxEventIds (namesOf as) := by
        intro name module hmem
        have hall := hstored name module (List.mem_append_left _ hmem)
        rw [namesOf_append] at hall
        exact (FirstSeen.mem_table_append_iff (mem_namesOf_of_trigger hmem)).mp hall
      obtain ⟨e, he⟩ := ih hstarts
      have hinv := loadInv_of_exec he
      cases a with
      | register name => exact ⟨_, Run.exec_concat_eq_ok.mpr ⟨e, he, rfl⟩⟩
      | trigger name module =>
        have hmem := hstored name module (by simp)
        rw [namesOf_concat_trigger] at hmem
        obtain ⟨e', hstep, -⟩ := hinv.triggerStep_of_stored module hmem
        exact ⟨e', Run.exec_concat_eq_ok.mpr ⟨e, he, hstep⟩⟩
      | append module => exact ⟨_, Run.exec_concat_eq_ok.mpr ⟨e, he, rfl⟩⟩

/-- Every event chain is reached by clean-up at an index of the array. -/
lemma freeChains_isOk (e : Engine) {n : ℕ} (h : n ≤ maxEventIds) :
    ∃ freed, freeChains e n = .ok freed := by
  induction n with
  | zero => exact ⟨0, rfl⟩
  | succ n ih =>
    obtain ⟨freed, hfreed⟩ := ih (by omega)
    refine ⟨freed + (e.eventChains ⟨n, h⟩).length, ?_⟩
    have hindex : chainIndex (n : ℤ) = .ok ⟨n, h⟩ := chainIndex_natCast ⟨n, h⟩
    rw [freeChains, hfreed, hindex]
    rfl

/-- The loading loop of a configuration that reaches it. -/
lemma loadMain_eq {env : Environment} {cfg : Cfg} {n : ℕ} (h : moduleCount cfg = some n) :
    loadMain env cfg =
      (Run.exec actionStep Engine.initial (actions env cfg n)).map some := by
  rw [loadMain, h]
  simp only [loadModules_eq_exec]
  cases Run.exec actionStep Engine.initial (actions env cfg n) <;> rfl

/-- A configuration that reaches the loop has a run of its actions. -/
lemma exec_of_loadMain {env : Environment} {cfg : Cfg} {e : Engine}
    (h : loadMain env cfg = .ok (some e)) :
    ∃ n, moduleCount cfg = some n ∧
      Run.exec actionStep Engine.initial (actions env cfg n) = .ok e := by
  cases hcount : moduleCount cfg with
  | none =>
    rw [loadMain, hcount] at h
    cases h
  | some n =>
    rw [loadMain_eq hcount] at h
    refine ⟨n, rfl, ?_⟩
    cases hexec : Run.exec actionStep Engine.initial (actions env cfg n) with
    | error f =>
      rw [hexec] at h
      cases h
    | ok e' =>
      rw [hexec] at h
      rw [Option.some.inj (Except.ok.inj h)]

/-- The triggers among the actions are those of the accepted modules. -/
lemma mem_actions_trigger {env : Environment} {cfg : Cfg} {n : ℕ} {name : String}
    {module : ModuleObject} :
    LoadAction.trigger name module ∈ actions env cfg n ↔
      ∃ i < n, acceptedModule env cfg i = some module ∧ name ∈ triggers cfg i := by
  simp only [actions, List.mem_flatMap, List.mem_range]
  refine exists_congr fun i => and_congr_right fun _ => ?_
  rw [moduleActions]
  cases openModule env cfg i with
  | none =>
    cases acceptedModule env cfg i with
    | none => simp
    | some m => simp [and_comm, eq_comm]
  | some opened =>
    cases acceptedModule env cfg i with
    | none => simp
    | some m => simp [and_comm, eq_comm]

/-- The run list after loading is the list of the accepted modules, in the order of their
indices. -/
lemma appendedBy_actions (env : Environment) (cfg : Cfg) (n : ℕ) :
    appendedBy (actions env cfg n) = (List.range n).filterMap (acceptedModule env cfg) := by
  induction n with
  | zero => rfl
  | succ n ih =>
    have hone : appendedBy (moduleActions env cfg n) = [n].filterMap (acceptedModule env cfg) := by
      rw [appendedBy, moduleActions, List.filterMap_append]
      cases openModule env cfg n <;> cases hm : acceptedModule env cfg n <;>
        simp [hm, List.filterMap_append, List.filterMap_map]
    rw [actions_succ, List.range_succ, List.filterMap_append, ← ih, ← hone]
    exact List.filterMap_append

end Tmee
