import Tmee.Client.Client

set_option relaxedAutoImplicit false
set_option autoImplicit false

/-!
# Reports after a reconnect

`getIED` enables the reports of an IED again when it makes a new connection and reads a model from
it. Whether every report in `reporting` is enabled on the connection in use whenever `getIED`
returns `0` depends on what the calls before have met.

## Main definitions

* `Tmee.Endpoint.Enabled` — the reports of an IED are enabled on a connection.
* `Tmee.ReportGuard` — what the library and the IED have to answer to a call.

## Main results

* `Tmee.reporting_rules` — what the parts of the calls preserve.
* `Tmee.enabled_of_getIED` — when `getIED` returns `0`, the reports are enabled.
-/

namespace Tmee

variable {V F : Type}

open Hoare

/-- Every report that is to be enabled has a handler on the connection and was enabled there. -/
def Endpoint.Enabled (e : Endpoint) (con : ℕ) : Prop :=
  ∀ d ∈ e.reporting, (con, d.rpt) ∈ e.handlers ∧ (con, d.rpt) ∈ e.enabled

/-- The reports of an IED are enabled on its connection. -/
def EnabledOnConnection (e : Endpoint) : Prop := ∀ con, e.con = some con → e.Enabled con

/-- If a new connection is made to an IED with reports, a model is read from it, and the control
blocks of the reports can be written. -/
structure ReconnectGuard (a : Answers V F) (e : Endpoint) : Prop where
  discovery : e.con = none → a.connect = 0 → e.reporting ≠ [] →
    ∃ entries, a.discovery = .ok entries ∧ entries ≠ []
  reenable : e.con = none → a.connect = 0 → ∀ d ∈ e.reporting, a.reenableError d.rpt = 0

/-- If a report is registered, its control block can be written. -/
def RegisterGuard (call : ClientCall) (a : Answers V F) (_ : String) (_ : Endpoint) : Prop :=
  ∀ ref, call = .registerReadValue ref → a.registerError = 0

/-- What the library and the IED have to answer to a call. -/
def ReportGuard (call : ClientCall) (a : Answers V F) (path : String) (e : Endpoint) : Prop :=
  ReconnectGuard a e ∧ RegisterGuard call a path e

section Enable

variable {e : Endpoint} {con : ℕ} {rpt : String}

/-- Enabling a report leaves those that are enabled. -/
lemma mem_enabled_enable {error : ℤ} {x : ℕ × String} (h : x ∈ e.enabled) :
    x ∈ (e.enable con rpt error).enabled := by
  simp only [Endpoint.enable]
  split_ifs
  · exact List.mem_cons_of_mem _ h
  · exact h

lemma enabled_enable (h : EnabledOnConnection e) (error : ℤ) :
    EnabledOnConnection (e.enable con rpt error) := by
  intro con' hcon' d hd
  obtain ⟨hhandler, henabled⟩ := h con' hcon' d hd
  exact ⟨List.mem_cons_of_mem _ hhandler, mem_enabled_enable henabled⟩

/-- Without a connection nothing is to be shown. -/
lemma enabledOnConnection_of_none (h : e.con = none) : EnabledOnConnection e := by
  intro con hcon
  rw [h] at hcon
  cases hcon

/-- Without reports neither. -/
lemma enabledOnConnection_of_nil (h : e.reporting = []) : EnabledOnConnection e := by
  intro con _ d hd
  rw [h] at hd
  cases hd

end Enable

/-- **A new connection.** -/
lemma triple_reconnect (a : Answers V F) :
    Triple (fun e => e.con = none ∧ e.entry ≠ none ∧ ReconnectGuard a e) (reconnect a)
      (fun _ => EnabledOnConnection) (orCrash EnabledOnConnection) := by
  -- the connection is stored before the model is read
  refine triple_reconnect_of
    (S := fun con e => e.con = some con ∧ (e.reporting ≠ [] →
      ∃ entries, a.discovery = .ok entries ∧ entries ≠ []) ∧
      ∀ d ∈ e.reporting, a.reenableError d.rpt = 0)
    (J := fun con l done e => (e.con = some con ∧ ∀ d ∈ l, a.reenableError d.rpt = 0) ∧
      ∀ d ∈ done, (con, d.rpt) ∈ e.handlers ∧ (con, d.rpt) ∈ e.enabled)
    (fun _ => Or.inl rfl) ?_ ?_ ?_ ?_ ?_ ?_ ?_
  · rintro - e ⟨hcon, -, -⟩
    exact enabledOnConnection_of_none hcon
  · rintro hconnect e ⟨hcon, hentry, hguard⟩
    obtain ⟨entry, hentry⟩ := Option.ne_none_iff_exists'.mp hentry
    exact ⟨by simp [hentry], hguard.discovery hcon hconnect, hguard.reenable hcon hconnect⟩
  · rintro con e x ⟨-, hreporting, -⟩ hx
    refine Or.inr (enabledOnConnection_of_nil ?_)
    by_contra hne
    obtain ⟨entries, hok, -⟩ := hreporting hne
    rw [hx] at hok
    cases hok
  · rintro con e ⟨-, hreporting, -⟩ hnil
    refine enabledOnConnection_of_nil ?_
    by_contra hne
    obtain ⟨entries, hok, hne'⟩ := hreporting hne
    exact hne' (Except.ok.inj (hok.symm.trans hnil))
  · rintro con e entries ⟨hcon, -, hreenable⟩ - -
    exact ⟨⟨by simpa using hcon, hreenable⟩, by simp⟩
  · -- the reports that have been enabled stay enabled
    rintro con l done d rcb e hd ⟨⟨hcon, hreenable⟩, hdone⟩
    refine ⟨⟨hcon, hreenable⟩, fun d' hd' => ?_⟩
    rcases List.mem_append.mp hd' with hold | hnew
    · obtain ⟨hhandler, henabled⟩ := hdone d' hold
      exact ⟨List.mem_cons_of_mem _ hhandler, mem_enabled_enable henabled⟩
    · obtain rfl := List.mem_singleton.mp hnew
      exact ⟨List.mem_cons_self, by simp [Endpoint.enable, hreenable d hd]⟩
  · rintro con l l' e ⟨⟨hcon, -⟩, hl⟩ con' hcon'
    obtain rfl : con = con' := Option.some.inj (hcon.symm.trans hcon')
    exact hl

/-- **An active connection.** -/
lemma triple_getIED (a : Answers V F) :
    Triple (fun e => EnabledOnConnection e ∧ ReconnectGuard a e) (getIED a)
      (fun _ => EnabledOnConnection) (orCrash EnabledOnConnection) := by
  refine triple_getIED_of (fun _ _ _ _ he _ _ => he.1) (fun _ _ he _ => Or.inr he.1) ?_ ?_ ?_ ?_
    (triple_reconnect a)
  · rintro e con model control entries ⟨henabled, -⟩ - - - con' hcon'
    exact henabled con' (by simpa using hcon')
  · intro e con model control _ _ _
    exact enabledOnConnection_of_none (by simp)
  · rintro e ⟨-, hguard⟩ hentry
    have hcon : e.con = none := by simp [Endpoint.con, hentry]
    exact ⟨rfl, by simp, ⟨fun _ => hguard.discovery hcon, fun _ => hguard.reenable hcon⟩⟩
  · rintro e model control ⟨-, hguard⟩ hentry
    exact ⟨by simp [Endpoint.con, hentry], by simp [hentry], hguard⟩

/-- **What the parts of the calls preserve.** -/
lemma reporting_rules :
    EndpointRules EnabledOnConnection (@ReportGuard V F) (@RegisterGuard V F) where
  initial := enabledOnConnection_of_none rfl
  connects call a path := by
    refine (triple_getIED a).and_const.conseq (fun e he => ?_) fun _ _ he => ⟨he.1, fun _ => he.2⟩
    exact ⟨⟨he.1, he.2.1⟩, he.2.2⟩
  updates call a path con model error _ _ := by
    refine Triple.bind (Q := fun _ => EnabledOnConnection) ?_ fun _ => ?_
    · rintro e ⟨⟨he, -⟩, -⟩ con' hcon'
      exact he con' (by simpa using hcon')
    refine triple_ite (fun _ => ?_) fun _ _ he => he
    exact fun e _ => enabledOnConnection_of_none (by simp)
  reports a cbRefs key tupl ref := by
    refine triple_registerForReporting (fun e he => he.1)
      fun e con d he hcon con' hcon' d' hd' => ?_
    obtain ⟨henabled, hregister⟩ := he
    have herror : a.registerError = 0 := hregister key rfl
    obtain rfl : con = con' := Option.some.inj (hcon.symm.trans hcon')
    rcases List.mem_append.mp hd' with hold | hnew
    · exact enabled_enable henabled _ con hcon d' hold
    · obtain rfl := List.mem_singleton.mp hnew
      exact ⟨List.mem_cons_self, by simp [Endpoint.enable, Endpoint.addReport, herror]⟩
  controls call a path := by
    refine (triple_getControlObject fun e he => he.1).conseq (fun _ he => he) ?_
    rintro control _ ⟨e, ⟨he, -⟩, ⟨rfl, -⟩ | ⟨rfl, -⟩⟩
    · exact he
    · exact fun con hcon => he con (by simpa using hcon)

/-! ## Runs -/

/-- **The reports are enabled**: after a run whose calls meet the condition, if `getIED` returns `0`
then there is a connection, every report of the IED has a handler on it, and was enabled there. -/
theorem enabled_of_getIED {urlparse : String → UriRef} {is : List (ClientCall × Answers V F)}
    {c : Client}
    (hguard : ∀ t i t', Run.Performs (clientStep urlparse) Client.initial is t i t' →
      ClientGuard urlparse ReportGuard t i)
    (hexec : Run.exec (clientStep urlparse) Client.initial is = .ok c)
    {tupl : String} {a : Answers V F} {e : Endpoint} (hg : ReconnectGuard a (c.endpoint tupl))
    (hreturn : getIED a (c.endpoint tupl) = .ok 0 e) :
    ∃ con, e.con = some con ∧ e.Enabled con := by
  have henabled := reporting_rules.of_exec urlparse hguard hexec tupl
  have hrun := triple_getIED a (c.endpoint tupl) ⟨henabled, hg⟩
  have hcon := con_of_getIED a (c.endpoint tupl) trivial
  rw [hreturn] at hrun hcon
  obtain ⟨con, hcon⟩ := hcon rfl
  exact ⟨con, hcon, hrun con hcon⟩

/-- The connection to an IED with a report is lost, and a new one is made. -/
theorem enabled_of_getIED_loss :
    ∃ c e, Run.exec (clientStep parseHosts) Client.initial
        [(.registerReadValue refA, answering), (.readValue refA, losing)] = .ok c ∧
      getIED answering (c.endpoint "a:102") = .ok 0 e ∧
      ∃ con, e.con = some con ∧ e.Enabled con := by
  have hg : ∀ e, ReconnectGuard answering e := fun e =>
    ⟨fun _ _ _ => ⟨oneReportModel, rfl, by simp [oneReportModel, reportModel]⟩, fun _ _ _ _ => rfl⟩
  have hsome : (afterGetIED parseHosts [(.registerReadValue refA, answering),
      (.readValue refA, losing)] "a:102" answering).isSome = true := by decide +kernel
  obtain ⟨e, he⟩ := Option.isSome_iff_exists.mp hsome
  obtain ⟨c, hexec, hreturn⟩ := afterGetIED_eq_some he
  refine ⟨c, e, hexec, hreturn, enabled_of_getIED (fun t i t' h tupl path _ => ?_) hexec (hg _)
    hreturn⟩
  have hi := h.mem
  simp only [List.mem_cons, List.not_mem_nil, or_false] at hi
  rcases hi with rfl | rfl
  · exact ⟨hg _, fun _ _ => rfl⟩
  · exact ⟨⟨(hg _).discovery, (hg _).reenable⟩, fun _ _ => rfl⟩

/-- **A model that cannot be read**: the connection is lost, no model is read from the new one, and
the next `getIED` returns `0` for the new connection and the old model. -/
theorem not_enabled_empty :
    ∃ c e, Run.exec (clientStep parseHosts) Client.initial
        [(.registerReadValue refA, answering), (.readValue refA, losing),
          (.readValue refA, { answering with discovery := .ok [] })] = .ok c ∧
      getIED answering (c.endpoint "a:102") = .ok 0 e ∧
      ¬ ∃ con, e.con = some con ∧ e.Enabled con := by
  have hstate : (afterGetIED parseHosts [(.registerReadValue refA, answering),
      (.readValue refA, losing), (.readValue refA, { answering with discovery := .ok [] })] "a:102"
      answering).map (fun e => (e.con, e.reporting.map RcbData.rpt, e.enabled)) =
      some (some 1, ["D/L.RP.R"], [(0, "D/L.RP.R")]) := by decide +kernel
  obtain ⟨e, he, hstate⟩ := Option.map_eq_some_iff.mp hstate
  obtain ⟨c, hexec, hreturn⟩ := afterGetIED_eq_some he
  simp only [Prod.mk.injEq] at hstate
  obtain ⟨hcon, hreporting, henabled⟩ := hstate
  refine ⟨c, e, hexec, hreturn, ?_⟩
  rintro ⟨con, hcon', hall⟩
  obtain rfl : 1 = con := Option.some.inj (hcon.symm.trans hcon')
  obtain ⟨d, hd, hrpt⟩ : ∃ d ∈ e.reporting, d.rpt = "D/L.RP.R" := by
    rw [← List.mem_map, hreporting]
    exact List.mem_cons_self
  have hmem := (hall d hd).2
  rw [henabled, hrpt] at hmem
  simp at hmem

end Tmee
