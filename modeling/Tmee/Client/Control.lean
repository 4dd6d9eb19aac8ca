import Tmee.Client.Client

set_option relaxedAutoImplicit false
set_option autoImplicit false

/-!
# Control objects after a reconnect

The client keeps the control objects of an IED beside its connection, and nothing takes them away
when the connection is destroyed. A control object that `get_controlObject` returns is on the
connection in use as long as no connection with control objects is lost.

## Main definitions

* `Tmee.ControlsCurrent` — the control objects are on the connection in use, which is not destroyed.
* `Tmee.ControlGuard` — a call that loses a connection finds no control objects.

## Main results

* `Tmee.control_rules` — what the parts of the calls preserve.
* `Tmee.control_current` — the control object that `getControlObject` returns is on the connection
  in use.
-/

namespace Tmee

variable {V F : Type}

open Hoare

namespace Endpoint

variable (e : Endpoint)

/-- `connections[tupl]['control']`; empty if it does not exist. -/
def controls : List (String × Control) := (e.entry.map Entry.control).getD []

/-- There is a model, and it is not empty. -/
def HasModel : Prop := ∃ entry, e.entry = some entry ∧ entry.model.truthy = true

@[simp] lemma controls_withCon (con : Option ℕ) : (e.withCon con).controls = e.controls := by
  cases h : e.entry <;> simp [controls, withCon, h]

@[simp] lemma controls_withModel (model : PyValue) : (e.withModel model).controls = e.controls := by
  cases h : e.entry <;> simp [controls, withModel, h]

@[simp] lemma controls_destroy (con : ℕ) : (e.destroy con).controls = e.controls := rfl

variable {e}

lemma controls_addControl {con : ℕ} (hcon : e.con = some con) (path : String) (control : Control) :
    (e.addControl path control).controls = e.controls ++ [(path, control)] := by
  cases h : e.entry with
  | none => simp [Endpoint.con, h] at hcon
  | some entry => simp [controls, addControl, h]

lemma hasModel_withModel {con : ℕ} (hcon : e.con = some con) {model : PyValue}
    (hmodel : model.truthy = true) : (e.withModel model).HasModel := by
  cases h : e.entry with
  | none => simp [Endpoint.con, h] at hcon
  | some entry => exact ⟨{ entry with model := model }, by simp [withModel, h], hmodel⟩

lemma HasModel.addControl (h : e.HasModel) (path : String) (control : Control) :
    (e.addControl path control).HasModel := by
  obtain ⟨entry, hentry, hmodel⟩ := h
  exact ⟨{ entry with control := entry.control ++ [(path, control)] },
    by simp [Endpoint.addControl, hentry], hmodel⟩

end Endpoint

/-! ## The invariant -/

/-- A connection object that can be used. -/
def Endpoint.Live (e : Endpoint) (con : ℕ) : Prop := con < e.created ∧ con ∉ e.destroyed

/-- The control objects of an IED are on the connection in use, which was not destroyed. -/
structure ControlsCurrent (e : Endpoint) : Prop where
  controls : ∀ x ∈ e.controls, e.con = some x.2.con
  /-- There is a model, so that the connection is not given up for the lack of one. -/
  model : e.controls ≠ [] → e.HasModel
  live : ∀ con, e.con = some con → e.Live con
  destroyed : ∀ con ∈ e.destroyed, con < e.created

/-- There are no control objects, and the connection object can be used. -/
structure Uncontrolled (con : ℕ) (e : Endpoint) : Prop where
  controls : e.controls = []
  live : e.Live con
  destroyed : ∀ con ∈ e.destroyed, con < e.created

/-- A call that loses a connection finds no control objects. -/
def ControlGuard (call : ClientCall) (a : Answers V F) (path : String) (e : Endpoint) : Prop :=
  call.Loses a path → e.controls = []

/-- The same, when there is a model. -/
def ConnectedGuard (call : ClientCall) (a : Answers V F) (path : String) (e : Endpoint) : Prop :=
  ControlGuard call a path e ∧ e.HasModel

section Invariant

variable {e : Endpoint} {con : ℕ}

/-- A connection without control objects. -/
lemma Uncontrolled.current (h : Uncontrolled con e)
    (hcon : ∀ con', e.con = some con' → con' = con) : ControlsCurrent e where
  controls x hx := by simp [h.controls] at hx
  model hne := absurd h.controls hne
  live con' hcon' := by
    rw [hcon con' hcon']
    exact h.live
  destroyed := h.destroyed

/-- No connection, and no control objects. -/
lemma ControlsCurrent.of_none (hcon : e.con = none) (hcontrols : e.controls = [])
    (hdestroyed : ∀ con ∈ e.destroyed, con < e.created) : ControlsCurrent e where
  controls x hx := by simp [hcontrols] at hx
  model hne := absurd hcontrols hne
  live con hcon' := by
    rw [hcon] at hcon'
    cases hcon'
  destroyed := hdestroyed

lemma Uncontrolled.destroyed_lt (h : Uncontrolled con e) :
    ∀ con' ∈ (e.destroy con).destroyed, con' < e.created := by
  intro con' hcon'
  rcases List.mem_cons.mp hcon' with rfl | hold
  · exact h.live.1
  · exact h.destroyed con' hold

/-- A connection without control objects can be given up. -/
lemma Uncontrolled.giveUp (h : Uncontrolled con e) :
    ControlsCurrent ((e.destroy con).withCon none) :=
  .of_none (by simp) (by simpa using h.controls) h.destroyed_lt

lemma ControlsCurrent.uncontrolled (h : ControlsCurrent e) (hcon : e.con = some con)
    (hcontrols : e.controls = []) : Uncontrolled con e :=
  ⟨hcontrols, h.live con hcon, h.destroyed⟩

/-- Without a connection there are no control objects. -/
lemma ControlsCurrent.controls_eq_nil (h : ControlsCurrent e) (hcon : e.con = none) :
    e.controls = [] := by
  cases hcontrols : e.controls with
  | nil => rfl
  | cons x l =>
    have hx := h.controls x (by simp [hcontrols])
    rw [hcon] at hx
    cases hx

end Invariant

/-! ## The parts of the calls -/

/-- **A new connection.** -/
lemma triple_reconnect_control (call : ClientCall) (a : Answers V F) (path : String) :
    Triple (fun e => e.con = none ∧ e.entry ≠ none ∧ ControlsCurrent e) (reconnect a)
      (fun err e => ControlsCurrent e ∧ (err = 0 → ConnectedGuard call a path e))
      (orCrash ControlsCurrent) := by
  have hcreated : ∀ e, e.con = none → ControlsCurrent e →
      Uncontrolled e.created { e with created := e.created + 1 } := by
    intro e hcon hcurrent
    refine ⟨hcurrent.controls_eq_nil hcon, ⟨Nat.lt_succ_self _, fun hmem => ?_⟩,
      fun con hmem => Nat.lt_succ_of_lt (hcurrent.destroyed con hmem)⟩
    exact Nat.lt_irrefl _ (hcurrent.destroyed _ hmem)
  have hcurrent : ∀ con e, e.con = some con → Uncontrolled con e → ControlsCurrent e :=
    fun con e hcon hfresh => hfresh.current fun con' hcon' =>
      Option.some.inj (hcon'.symm.trans hcon)
  -- once the connection is stored, nothing changes it or the control objects
  refine triple_reconnect_of (S := fun con e => e.con = some con ∧ Uncontrolled con e)
    (J := fun con _ _ e => (e.con = some con ∧ Uncontrolled con e) ∧ e.HasModel)
    (fun _ => Or.inl rfl) ?_ ?_ (fun con e _ he _ => Or.inr (hcurrent con e he.1 he.2))
    (fun con e he _ => ⟨hcurrent con e he.1 he.2, fun h => by cases h⟩) ?_ ?_ ?_
  · rintro - e ⟨hcon, -, he⟩
    exact ⟨.of_none hcon (he.controls_eq_nil hcon) (hcreated e hcon he).destroyed_lt,
      fun h => by cases h⟩
  · rintro - e ⟨hcon, hentry, he⟩
    obtain ⟨entry, hentry⟩ := Option.ne_none_iff_exists'.mp hentry
    have hfresh := hcreated e hcon he
    exact ⟨by simp [hentry], by simpa using hfresh.controls, hfresh.live, hfresh.destroyed⟩
  · rintro con e entries ⟨hcon, hfresh⟩ - hne
    exact ⟨⟨by simpa using hcon, by simpa using hfresh.controls, hfresh.live, hfresh.destroyed⟩,
      Endpoint.hasModel_withModel hcon (by simpa [PyValue.truthy] using hne)⟩
  · rintro con l done d rcb e - ⟨⟨hcon, hfresh⟩, hmodel⟩
    exact ⟨⟨hcon, hfresh.controls, hfresh.live, hfresh.destroyed⟩, hmodel⟩
  · rintro con l l' e ⟨⟨hcon, hfresh⟩, hmodel⟩
    exact ⟨hcurrent con _ hcon ⟨hfresh.controls, hfresh.live, hfresh.destroyed⟩,
      fun _ => ⟨fun _ => hfresh.controls, hmodel⟩⟩

/-- **An active connection.** -/
lemma triple_getIED_control (call : ClientCall) (a : Answers V F) (path : String) :
    Triple (fun e => ControlsCurrent e ∧ ControlGuard call a path e) (getIED a)
      (fun err e => ControlsCurrent e ∧ (err = 0 → ConnectedGuard call a path e))
      (orCrash ControlsCurrent) := by
  -- a connection without a model has no control objects
  have hfresh : ∀ e con model control, ControlsCurrent e →
      e.entry = some ⟨some con, model, control⟩ → ¬ model.truthy = true →
      e.con = some con ∧ Uncontrolled con e := by
    intro e con model control hcurrent hentry hmodel
    have hcon : e.con = some con := by simp [Endpoint.con, hentry]
    refine ⟨hcon, hcurrent.uncontrolled hcon ?_⟩
    by_contra hne
    obtain ⟨entry, hentry', hmodel'⟩ := hcurrent.model hne
    obtain rfl := Option.some.inj (hentry.symm.trans hentry')
    exact hmodel hmodel'
  refine triple_getIED_of ?_ (fun _ _ he _ => Or.inr he.1) ?_ ?_ ?_ ?_
    (triple_reconnect_control call a path)
  · rintro e con model control ⟨hcurrent, hguard⟩ hentry hmodel
    exact ⟨hcurrent, fun _ => ⟨hguard, _, hentry, hmodel⟩⟩
  · rintro e con model control entries ⟨hcurrent, -⟩ hentry hmodel hne
    obtain ⟨hcon, hfresh⟩ := hfresh e con model control hcurrent hentry hmodel
    have hstored : Uncontrolled con (e.withModel (.dict entries)) :=
      ⟨by simpa using hfresh.controls, hfresh.live, hfresh.destroyed⟩
    refine ⟨hstored.current fun con' hcon' => ?_, fun _ => ⟨fun _ => hstored.controls,
      Endpoint.hasModel_withModel hcon (by simpa [PyValue.truthy] using hne)⟩⟩
    exact Option.some.inj ((by simpa using hcon'.symm : some con' = e.con).trans hcon)
  · rintro e con model control ⟨hcurrent, -⟩ hentry hmodel
    exact ⟨(hfresh e con model control hcurrent hentry hmodel).2.giveUp, fun h => by cases h⟩
  · rintro e ⟨hcurrent, -⟩ hentry
    exact ⟨rfl, by simp, .of_none rfl rfl hcurrent.destroyed⟩
  · rintro e model control ⟨hcurrent, -⟩ hentry
    exact ⟨by simp [Endpoint.con, hentry], by simp [hentry], hcurrent⟩

/-- **What the parts of the calls preserve.** -/
lemma control_rules :
    EndpointRules ControlsCurrent (@ControlGuard V F) (@ConnectedGuard V F) where
  initial := .of_none rfl rfl (by simp [Endpoint.initial])
  connects := triple_getIED_control
  updates call a path con model error hmodel hlost := by
    refine Triple.bind (Q := fun _ e => ControlsCurrent e ∧ ControlGuard call a path e ∧
      e.con = some con) ?_ fun _ => ?_
    · rintro e ⟨⟨hcurrent, hguard, -⟩, hcon⟩
      refine ⟨⟨fun x hx => ?_, fun _ => Endpoint.hasModel_withModel hcon hmodel,
        fun con' hcon' => ?_, hcurrent.destroyed⟩, fun h => by simpa using hguard h,
        by simpa using hcon⟩
      · simpa using hcurrent.controls x (by simpa using hx)
      · exact hcurrent.live con' (by simpa using hcon')
    refine triple_ite (fun herror => ?_) fun _ e he => he.1
    rintro e ⟨hcurrent, hguard, hcon⟩
    exact (hcurrent.uncontrolled hcon (hguard (hlost herror))).giveUp
  reports a cbRefs key tupl ref := by
    refine triple_registerForReporting (fun e he => he.1) fun e con d he _ => ?_
    exact ⟨he.1.controls, he.1.model, he.1.live, he.1.destroyed⟩
  controls call a path := by
    refine (triple_getControlObject fun e he => he.1).conseq (fun _ he => he) ?_
    rintro control _ ⟨e, ⟨hcurrent, -, hmodel⟩, ⟨rfl, -⟩ | ⟨rfl, hcon⟩⟩
    · exact hcurrent
    · refine ⟨fun x hx => ?_, fun _ => hmodel.addControl path control, fun con' hcon' => ?_,
        hcurrent.destroyed⟩
      · rw [Endpoint.con_addControl]
        rw [Endpoint.controls_addControl hcon] at hx
        rcases List.mem_append.mp hx with hold | hnew
        · exact hcurrent.controls x hold
        · rw [List.mem_singleton.mp hnew]
          exact hcon
      · exact hcurrent.live con' (by simpa using hcon')

/-! ## Runs -/

/-- **Control objects are current**: after a run in which no call loses a connection that has
control objects, if `getIED` returns `0` then the control object that `getControlObject` returns is
on the connection in use, and that connection was not destroyed. -/
theorem control_current {urlparse : String → UriRef} {is : List (ClientCall × Answers V F)}
    {c : Client}
    (hguard : ∀ t i t', Run.Performs (clientStep urlparse) Client.initial is t i t' →
      ClientGuard urlparse ControlGuard t i)
    (hexec : Run.exec (clientStep urlparse) Client.initial is = .ok c)
    {tupl path : String} {a : Answers V F} {e e' : Endpoint} {control : Control}
    (hconnect : getIED a (c.endpoint tupl) = .ok 0 e)
    (hcontrol : getControlObject a path e = .ok control e') :
    e'.con = some control.con ∧ control.con ∉ e'.destroyed := by
  have hcurrent := control_rules.of_exec urlparse hguard hexec tupl
  -- an operation on a control object does not read or write
  have hconnected : ControlsCurrent e ∧ ConnectedGuard (.cancel path) a path e := by
    have hrun :=
      (triple_getIED_control (.cancel path) a path).ok ⟨hcurrent, fun h => h.elim⟩ hconnect
    exact ⟨hrun.1, hrun.2 rfl⟩
  have hcurrent' := (control_rules.controls (.cancel path) a path).ok hconnected hcontrol
  have hcon : e'.con = some control.con := by
    obtain ⟨_, rfl, ⟨rfl, entry, hentry, hmem⟩ | ⟨rfl, hcon⟩⟩ :=
      (@triple_getControlObject V F a path (fun t => t = e) (fun _ => True)
        fun _ _ => trivial).ok rfl hcontrol
    · exact hconnected.1.controls (path, control) (by simpa [Endpoint.controls, hentry] using hmem)
    · simpa using hcon
  exact ⟨hcon, (hcurrent'.live _ hcon).2⟩

/-- A control object that is kept is returned. -/
lemma getControlObject_of_lookup {a : Answers V F} {path : String} {e : Endpoint}
    {control : Control} (h : e.controls.lookup path = some control) :
    getControlObject a path e = .ok control e := by
  cases hentry : e.entry with
  | none => simp [Endpoint.controls, hentry] at h
  | some entry =>
    have hlookup : entry.control.lookup path = some control := by
      simpa [Endpoint.controls, hentry] using h
    simp only [getControlObject, bind, EStateM.bind, getEntry_of_some hentry, hlookup]
    rfl

/-- A connection without control objects is lost, and a control object is used twice on the new
one. -/
theorem control_current_loss :
    ∃ c e e' control, Run.exec (clientStep parseHosts) Client.initial
        [(.readValue refA, losing), (.operate refA (.bool true), answering)] = .ok c ∧
      getIED answering (c.endpoint "a:102") = .ok 0 e ∧
      getControlObject answering "D/L.X.v" e = .ok control e' ∧
      e'.con = some control.con ∧ control.con ∉ e'.destroyed := by
  have hstate : (afterGetIED parseHosts [(.readValue refA, losing),
      (.operate refA (.bool true), answering)] "a:102" answering).map
      (fun e => e.controls.lookup "D/L.X.v") = some (some ⟨1⟩) := by
    decide +kernel
  obtain ⟨e, he, hlookup⟩ := Option.map_eq_some_iff.mp hstate
  obtain ⟨c, hexec, hreturn⟩ := afterGetIED_eq_some he
  have hcontrol := getControlObject_of_lookup (a := answering) hlookup
  refine ⟨c, e, e, ⟨1⟩, hexec, hreturn, hcontrol, control_current ?_ hexec hreturn hcontrol⟩
  intro t i t' h tupl path _ hloses
  obtain ⟨s, hs, -⟩ := Run.exec_cons_eq_ok.mp hexec
  rcases (Run.performs_cons_iff hs).mp h with ⟨rfl, -, -⟩ | hrest
  · rfl
  · obtain rfl := List.mem_singleton.mp hrest.mem
    exact hloses.elim

/-- **Control objects outlive their connection**: after the connection is lost and made again, the
control object is still the one on the connection that was destroyed. -/
theorem control_not_current :
    ∃ c e e' control, Run.exec (clientStep parseHosts) Client.initial
        [(.operate refA (.bool true), answering), (.readValue refA, losing)] = .ok c ∧
      getIED answering (c.endpoint "a:102") = .ok 0 e ∧
      getControlObject answering "D/L.X.v" e = .ok control e' ∧
      e'.con ≠ some control.con ∧ control.con ∈ e'.destroyed := by
  have hstate : (afterGetIED parseHosts [(.operate refA (.bool true), answering),
      (.readValue refA, losing)] "a:102" answering).map
      (fun e => (e.controls.lookup "D/L.X.v", e.con, e.destroyed)) =
      some (some ⟨0⟩, some 1, [0]) := by
    decide +kernel
  obtain ⟨e, he, hstate⟩ := Option.map_eq_some_iff.mp hstate
  obtain ⟨c, hexec, hreturn⟩ := afterGetIED_eq_some he
  simp only [Prod.mk.injEq] at hstate
  obtain ⟨hlookup, hcon, hdestroyed⟩ := hstate
  refine ⟨c, e, e, ⟨0⟩, hexec, hreturn, getControlObject_of_lookup hlookup, ?_, ?_⟩
  · simp [hcon]
  · simp [hdestroyed]

end Tmee
