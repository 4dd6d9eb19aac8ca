import Tmee.Client.Client

set_option relaxedAutoImplicit false
set_option autoImplicit false

/-!
# What a call does

Every call of the client but `registerReadValue` works on the state of one IED. A registration also
reads and adds to what the client keeps for all IEDs: the references in `polling` and the reports in
`cb_refs`. This file has the calls in closed form.

## Main definitions

* `Tmee.Client.withEndpoint`, `Tmee.Client.register` — what a call changes.
* `Tmee.reportOf`, `Tmee.RegistersBy` — the report that a registration comes to.

## Main results

* `Tmee.exists_clientStep_eq`, `Tmee.clientStep_register` — a call as a function of what it reads.
* `Tmee.clientStep_eq_ok` — what a step can do.
* `Tmee.registersBy` — a registration reads `cb_refs` only where it comes to a report.
-/

namespace Tmee

variable {V F : Type}

/-! ## What a call does -/

/-- The client with another state of an IED. -/
def Client.withEndpoint (c : Client) (tupl : String) (e : Endpoint) : Client :=
  { c with endpoint := Function.update c.endpoint tupl e }

section Forms

variable {α : Type} {urlparse : String → UriRef} {a : Answers V F} {call : ClientCall}
  {tupl path ref : String}

/-- The value is not used. -/
lemma onTarget_discard (target : Except PyError (Option (String × String))) (other : α)
    (m : String → String → EndpointM α) :
    (onTarget target other m >>= fun _ => pure ()) =
      onTarget target () fun tupl path => m tupl path >>= fun _ => pure () := by
  funext c
  obtain _ | _ | ⟨tupl, path⟩ := target
  · rfl
  · rfl
  · simp only [onTarget, liftPy, onEndpoint, bind, EStateM.bind, pure, EStateM.pure]
    cases m tupl path (c.endpoint tupl) <;> rfl

/-- If the call is a poll, its reference is in `polling`. -/
def Polled (c : Client) (call : ClientCall) : Prop := ∀ key, call = .pollKey key → key ∈ c.polling

/-- A call other than `registerReadValue` is code for its IED. -/
lemma exists_runCall_eq (hcall : ∀ ref, call ≠ .registerReadValue ref) :
    ∃ m : String → String → EndpointM Unit, ∀ c, Polled c call →
      runCall urlparse a call c = onTarget (callTarget urlparse call) () m c := by
  cases call with
  | registerReadValue ref => exact absurd rfl (hcall ref)
  | readValue ref => exact ⟨_, fun c _ => congrFun (onTarget_discard _ _ fun _ => readValueAt a) c⟩
  | registerWriteValue ref value =>
    exact ⟨_, fun c _ =>
      congrFun (onTarget_discard _ _ fun _ path => registerWriteValueAt a path value) c⟩
  | pollKey key =>
    refine ⟨fun _ => pollAt a, fun c hc => ?_⟩
    show pollKey urlparse a key c = _
    rw [pollKey, Hoare.get_bind_apply, if_pos (hc key rfl)]
    rfl
  | getDatamodel ref hostname port =>
    cases ref with
    | none => exact ⟨_, fun c _ => congrFun (onTarget_discard _ _ fun _ _ => modelAt a) c⟩
    | some ref => exact ⟨_, fun c _ => congrFun (onTarget_discard _ _ fun _ _ => modelAt a) c⟩
  | operate ref value =>
    exact ⟨_, fun c _ => congrFun (onTarget_discard _ _ fun _ path => operateAt a path value) c⟩
  | select ref value =>
    exact ⟨_, fun c _ => congrFun (onTarget_discard _ _ fun _ path => selectAt a path value) c⟩
  | cancel ref => exact ⟨_, fun c _ => congrFun (onTarget_discard _ _ fun _ => cancelAt a) c⟩

/-- The state after a call: an exception ends the call, and a crash ends the run. -/
def stateAfter {σ : Type} : EStateM.Result Stop σ α → Except Stop σ
  | .ok _ s => .ok s
  | .error (.raised _) s => .ok s
  | .error .crashed _ => .error .crashed

lemma clientStep_eq (c : Client) :
    clientStep urlparse c (call, a) = stateAfter (runCall urlparse a call c) := by
  rw [clientStep]
  obtain ⟨_, _⟩ | ⟨_ | _, _⟩ := runCall urlparse a call c <;> rfl

lemma stateAfter_onEndpoint (m : EndpointM α) (c : Client) :
    stateAfter (onEndpoint tupl m c) =
      (stateAfter (m (c.endpoint tupl))).map (c.withEndpoint tupl) := by
  rw [onEndpoint]
  obtain ⟨_, _⟩ | ⟨_ | _, _⟩ := m (c.endpoint tupl) <;> rfl

/-- **A step for an IED**: it works on the state of the IED alone. -/
lemma exists_clientStep_eq (hcall : ∀ ref, call ≠ .registerReadValue ref)
    (htarget : callTarget urlparse call = .ok (some (tupl, path))) :
    ∃ f : Endpoint → Except Stop Endpoint, ∀ c, Polled c call →
      clientStep urlparse c (call, a) = (f (c.endpoint tupl)).map (c.withEndpoint tupl) := by
  obtain ⟨m, hm⟩ := @exists_runCall_eq V F urlparse a call hcall
  refine ⟨fun e => stateAfter (m tupl path e), fun c hc => ?_⟩
  rw [clientStep_eq, hm c hc, htarget]
  exact stateAfter_onEndpoint (m tupl path) c

/-- A poll of a reference that is not in `polling`. -/
lemma clientStep_pollKey {c : Client} {key : String} (h : key ∉ c.polling) :
    clientStep urlparse c (.pollKey key, a) = .ok c := by
  have hcall : runCall urlparse a (.pollKey key) c = .ok () c := by
    show pollKey urlparse a key c = _
    rw [pollKey, Hoare.get_bind_apply, if_neg h]
    rfl
  rw [clientStep_eq, hcall]
  rfl

/-- A call without an IED does nothing. -/
lemma clientStep_of_not_target {c : Client}
    (htarget : ∀ tupl path, callTarget urlparse call ≠ .ok (some (tupl, path))) :
    clientStep urlparse c (call, a) = .ok c := by
  rw [clientStep_eq]
  by_cases hcall : ∀ ref, call ≠ .registerReadValue ref
  · by_cases hc : Polled c call
    · obtain ⟨m, hm⟩ := @exists_runCall_eq V F urlparse a call hcall
      rw [hm c hc]
      rcases htarget' : callTarget urlparse call with _ | _ | ⟨tupl, path⟩
      · rfl
      · rfl
      · exact absurd htarget' (htarget tupl path)
    · obtain ⟨key, rfl, hkey⟩ : ∃ key, call = .pollKey key ∧ key ∉ c.polling := by
        simpa [Polled] using hc
      rw [← clientStep_eq]
      exact clientStep_pollKey hkey
  · obtain ⟨ref, rfl⟩ : ∃ ref, call = .registerReadValue ref := by simpa using hcall
    show stateAfter ((registerReadValue urlparse a ref >>= fun _ => pure ()) c) = .ok c
    simp only [bind, EStateM.bind]
    rw [registerReadValue, Hoare.get_bind_apply]
    split_ifs
    · rfl
    rcases htarget' : uriTarget (urlparse ref) with x | _ | ⟨tupl, path⟩
    · rfl
    · show Except.ok { c with cbRefs := c.cbRefs ++ [] } = Except.ok c
      rw [List.append_nil]
    · exact absurd htarget' (htarget tupl path)

end Forms

/-! ## What a registration does -/

/-- What a registration adds to the client. -/
def Client.register (c : Client) (ref : String) (r : Registered) : Client :=
  { c with
    polling := if r.poll then c.polling ++ [ref] else c.polling
    cbRefs := c.cbRefs ++ r.cbRef.toList }

section Registration

variable {urlparse : String → UriRef} {a : Answers V F} {tupl path ref : String} {c : Client}

lemma registerReadValue_of_mem (h : ref ∈ c.polling) :
    registerReadValue urlparse a ref c = .ok 0 c := by
  rw [registerReadValue, Hoare.get_bind_apply, if_pos h]
  rfl

lemma registerReadValue_of_not_mem (h : ref ∉ c.polling)
    (htarget : uriTarget (urlparse ref) = .ok (some (tupl, path))) :
    registerReadValue urlparse a ref c =
      match registerReadValueAt a c.cbRefs ref tupl path (c.endpoint tupl) with
      | .ok r e => .ok r.result ((c.withEndpoint tupl e).register ref r)
      | .error stop e => .error stop (c.withEndpoint tupl e) := by
  rw [registerReadValue, Hoare.get_bind_apply, if_neg h, htarget]
  simp only [onTarget, liftPy, onEndpoint, bind, EStateM.bind, pure, EStateM.pure]
  cases registerReadValueAt a c.cbRefs ref tupl path (c.endpoint tupl) <;> rfl

end Registration

/-- The search of `registerForReporting`: the report for a reference, and its data set. -/
def searchReport (model : PyValue) (ref : String) :
    Except PyError (Option (String × String × String × String)) := do
  match ← findDataset model ref with
  | none => .ok none
  | some (ld, ln, ds, index) =>
    if index = "" then .ok none
    else
      let rpt ← findReport model ld ln ds
      .ok (rpt.map fun rpt => (rpt, ld, ln, ds))

/-- What registering a report does, by the result of the search. -/
lemma registerForReporting_eq {a : Answers V F} {cbRefs : List String} {key tupl ref : String}
    {e : Endpoint} {entry : Entry} (hentry : e.entry = some entry) :
    registerForReporting a cbRefs key tupl ref e =
      match searchReport entry.model ref with
      | .error x => .error (.raised x) e
      | .ok none => .ok (false, none) e
      | .ok (some (rpt, ld, ln, ds)) =>
        match entry.con, a.registerRcb with
        | some con, some rcb =>
          if rpt ∈ cbRefs then .ok (true, none) e
          else .ok (true, some rpt)
            ((e.enable con rpt a.registerError).addReport ⟨rcb, rpt, (key, tupl, ld, ln, ds)⟩)
        | _, _ => .error .crashed e := by
  simp only [registerForReporting, searchReport, bind, EStateM.bind, Except.bind,
    getEntry_of_some hentry]
  rcases findDataset entry.model ref with x | _ | ⟨ld, ln, ds, index⟩
  · rfl
  · rfl
  simp only [liftPy, pure, EStateM.pure]
  split_ifs
  · rfl
  rcases findReport entry.model ld ln ds with x | _ | rpt
  · rfl
  · rfl
  cases entry.con with
  | none => rfl
  | some con =>
    cases a.registerRcb with
    | none => rfl
    | some rcb =>
      by_cases hmem : rpt ∈ cbRefs
      · simp only [EStateM.bind, EStateM.pure, Option.map_some, if_pos hmem]
      · simp only [EStateM.bind, EStateM.pure, Option.map_some, if_neg hmem]
        rfl

/-- The report that a registration comes to, if it does: the state then, the connection, and the
report. -/
def reportOf (a : Answers V F) (key tupl path : String) (e : Endpoint) :
    Option (Endpoint × ℕ × RcbData) :=
  match getIED a e with
  | .error _ _ => none
  | .ok err e =>
    if err = 0 then do
      let entry ← e.entry
      let (node, _) ← (parseRef entry.model path).toOption
      if node.truthy then
        let (rpt, ld, ln, ds) ← (searchReport entry.model path).toOption.join
        let con ← entry.con
        let rcb ← a.registerRcb
        return (e, con, ⟨rcb, rpt, key, tupl, ld, ln, ds⟩)
      else none
    else none

/-- A registration when there is a connection. -/
lemma registerReadValueAt_of_connected {a : Answers V F} {cbRefs : List String}
    {key tupl path : String} {e s : Endpoint} {entry : Entry} (hIED : getIED a e = .ok 0 s)
    (hentry : s.entry = some entry) :
    registerReadValueAt a cbRefs key tupl path e =
      match parseRef entry.model path with
      | .error x => .error (.raised x) s
      | .ok (node, _) =>
        if node.truthy then
          match registerForReporting a cbRefs key tupl path s with
          | .ok (rpt, cbRef) s => .ok ⟨0, !rpt, cbRef⟩ s
          | .error stop s => .error stop s
        else .ok ⟨-1, false, none⟩ s := by
  simp only [registerReadValueAt, bind, EStateM.bind, hIED, if_pos, getEntry_of_some hentry]
  rcases parseRef entry.model path with x | ⟨node, _⟩
  · rfl
  by_cases hnode : node.truthy = true
  · simp only [liftPy, pure, EStateM.pure, if_pos hnode, EStateM.bind]
    cases registerForReporting a cbRefs key tupl path s <;> rfl
  · simp only [liftPy, pure, EStateM.pure, if_neg hnode]

/-- A registration as a function of `cb_refs`: where it comes to a report, it looks the report up in
them, and elsewhere it does not read them. -/
def RegistersBy (a : Answers V F) (key tupl path : String) (e : Endpoint) : Prop :=
  (reportOf a key tupl path e = none ∧
    ∃ result, ∀ cbRefs, registerReadValueAt a cbRefs key tupl path e = result) ∨
  ∃ e' con d, reportOf a key tupl path e = some (e', con, d) ∧
    ∀ cbRefs, registerReadValueAt a cbRefs key tupl path e =
      if d.rpt ∈ cbRefs then .ok ⟨0, false, none⟩ e'
      else .ok ⟨0, false, some d.rpt⟩ ((e'.enable con d.rpt a.registerError).addReport d)

/-- A registration when the reference is in the model. -/
lemma registersBy_of_node {a : Answers V F} {key tupl path : String} {e s : Endpoint}
    {entry : Entry} {node : PyValue} {p : List String} (hIED : getIED a e = .ok 0 s)
    (hentry : s.entry = some entry)
    (hparse : parseRef entry.model path = .ok (node, p)) (hnode : node.truthy = true) :
    RegistersBy a key tupl path e := by
  have hsearched : ∀ cbRefs, registerReadValueAt a cbRefs key tupl path e =
      match registerForReporting a cbRefs key tupl path s with
      | .ok (rpt, cbRef) s => .ok ⟨0, !rpt, cbRef⟩ s
      | .error stop s => .error stop s := by
    intro cbRefs
    rw [registerReadValueAt_of_connected hIED hentry, hparse]
    exact if_pos hnode
  simp only [registerForReporting_eq hentry] at hsearched
  rcases hsearch : searchReport entry.model path with x | _ | ⟨rpt, ld, ln, ds⟩
  · refine Or.inl ⟨by simp [reportOf, hIED, hentry, hparse, hsearch, Except.toOption],
      .error (.raised x) s, fun cbRefs => ?_⟩
    rw [hsearched, hsearch]
  · refine Or.inl ⟨by simp [reportOf, hIED, hentry, hparse, hsearch, Except.toOption],
      .ok ⟨0, true, none⟩ s, fun cbRefs => ?_⟩
    rw [hsearched, hsearch]
    rfl
  cases hcon : entry.con with
  | none =>
    refine Or.inl ⟨by simp [reportOf, hIED, hentry, hparse, hsearch, hcon, Except.toOption],
      .error .crashed s, fun cbRefs => ?_⟩
    simp only [hsearched, hsearch, hcon]
  | some con =>
    cases hrcb : a.registerRcb with
    | none =>
      refine Or.inl ⟨by simp [reportOf, hIED, hentry, hrcb], .error .crashed s, fun cbRefs => ?_⟩
      simp only [hsearched, hsearch, hcon, hrcb]
    | some rcb =>
      refine Or.inr ⟨s, con, ⟨rcb, rpt, key, tupl, ld, ln, ds⟩, ?_, fun cbRefs => ?_⟩
      · simp [reportOf, hIED, hentry, hparse, hnode, hsearch, hcon, hrcb, Except.toOption]
      · simp only [hsearched, hsearch, hcon, hrcb]
        split_ifs <;> rfl

/-- **A registration depends on the other IEDs only where it comes to a report.** -/
lemma registersBy (a : Answers V F) (key tupl path : String) (e : Endpoint) :
    RegistersBy a key tupl path e := by
  cases hIED : getIED a e with
  | error stop s =>
    refine Or.inl ⟨by simp [reportOf, hIED], .error stop s, fun cbRefs => ?_⟩
    simp only [registerReadValueAt, bind, EStateM.bind, hIED]
  | ok err s =>
    by_cases herr : err = 0
    swap
    · refine Or.inl ⟨by simp [reportOf, hIED, herr], .ok ⟨-1, false, none⟩ s, fun cbRefs => ?_⟩
      simp only [registerReadValueAt, bind, EStateM.bind, hIED, if_neg herr]
      rfl
    subst herr
    cases hentry : s.entry with
    | none =>
      refine Or.inl ⟨by simp [reportOf, hIED, hentry], .error (.raised .keyError) s,
        fun cbRefs => ?_⟩
      simp only [registerReadValueAt, bind, EStateM.bind, hIED, if_pos, getEntry_of_none hentry]
    | some entry =>
      rcases hparse : parseRef entry.model path with x | ⟨node, p⟩
      · refine Or.inl ⟨by simp [reportOf, hIED, hentry, hparse, Except.toOption],
          .error (.raised x) s, fun cbRefs => ?_⟩
        rw [registerReadValueAt_of_connected hIED hentry, hparse]
      by_cases hnode : node.truthy = true
      · exact registersBy_of_node hIED hentry hparse hnode
      · refine Or.inl ⟨by simp [reportOf, hIED, hentry, hparse, hnode, Except.toOption],
          .ok ⟨-1, false, none⟩ s, fun cbRefs => ?_⟩
        rw [registerReadValueAt_of_connected hIED hentry, hparse]
        exact if_neg hnode

/-! ## Steps -/

section Steps

variable {urlparse : String → UriRef} {a : Answers V F} {ref tupl path : String} {c : Client}

/-- The step of a registration when the reference is not polled. -/
lemma clientStep_register (hmem : ref ∉ c.polling)
    (htarget : uriTarget (urlparse ref) = .ok (some (tupl, path))) :
    clientStep urlparse c (.registerReadValue ref, a) =
      match registerReadValueAt a c.cbRefs ref tupl path (c.endpoint tupl) with
      | .ok r e => .ok ((c.withEndpoint tupl e).register ref r)
      | .error (.raised _) e => .ok (c.withEndpoint tupl e)
      | .error .crashed _ => .error .crashed := by
  rw [clientStep_eq]
  show stateAfter ((registerReadValue urlparse a ref >>= fun _ => pure ()) c) = _
  simp only [bind, EStateM.bind, registerReadValue_of_not_mem hmem htarget]
  rcases registerReadValueAt a c.cbRefs ref tupl path (c.endpoint tupl) with
    ⟨r, e⟩ | ⟨_ | _, e⟩ <;> rfl

lemma clientStep_register_of_mem (hmem : ref ∈ c.polling) :
    clientStep urlparse c (.registerReadValue ref, a) = .ok c := by
  rw [clientStep_eq]
  show stateAfter ((registerReadValue urlparse a ref >>= fun _ => pure ()) c) = _
  simp only [bind, EStateM.bind, registerReadValue_of_mem hmem]
  rfl

lemma Client.withEndpoint_self (c : Client) (tupl : String) :
    c.withEndpoint tupl (c.endpoint tupl) = c := by
  rw [Client.withEndpoint, Function.update_eq_self]

/-- **What a step can do**: it changes the state of its IED, and a registration adds to the
client. -/
lemma clientStep_eq_ok {call : ClientCall} {c₁ : Client}
    (htarget : callTarget urlparse call = .ok (some (tupl, path)))
    (hstep : clientStep urlparse c (call, a) = .ok c₁) :
    ∃ e, c₁ = c.withEndpoint tupl e ∨
      ∃ ref r, call = .registerReadValue ref ∧ c₁ = (c.withEndpoint tupl e).register ref r := by
  by_cases hcall : ∀ ref, call ≠ .registerReadValue ref
  · by_cases hc : Polled c call
    · obtain ⟨f, hf⟩ := exists_clientStep_eq (a := a) hcall htarget
      rw [hf c hc] at hstep
      cases he : f (c.endpoint tupl) with
      | error stop =>
        rw [he] at hstep
        cases hstep
      | ok e =>
        rw [he] at hstep
        exact ⟨e, Or.inl (Except.ok.inj hstep).symm⟩
    · obtain ⟨key, rfl, hkey⟩ : ∃ key, call = .pollKey key ∧ key ∉ c.polling := by
        simpa [Polled] using hc
      rw [clientStep_pollKey hkey] at hstep
      obtain rfl := Except.ok.inj hstep
      exact ⟨c.endpoint tupl, Or.inl (c.withEndpoint_self tupl).symm⟩
  · obtain ⟨ref, rfl⟩ : ∃ ref, call = .registerReadValue ref := by simpa using hcall
    by_cases hmem : ref ∈ c.polling
    · rw [clientStep_register_of_mem hmem] at hstep
      obtain rfl := Except.ok.inj hstep
      exact ⟨c.endpoint tupl, Or.inl (c.withEndpoint_self tupl).symm⟩
    · rw [clientStep_register hmem htarget] at hstep
      rcases hrun : registerReadValueAt a c.cbRefs ref tupl path (c.endpoint tupl) with
        ⟨r, e⟩ | ⟨_ | _, e⟩ <;> rw [hrun] at hstep
      · exact ⟨e, Or.inr ⟨ref, r, rfl, (Except.ok.inj hstep).symm⟩⟩
      · exact ⟨e, Or.inl (Except.ok.inj hstep).symm⟩
      · cases hstep

end Steps

end Tmee
