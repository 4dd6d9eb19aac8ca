import Tmee.Client.ReportHandler

set_option relaxedAutoImplicit false
set_option autoImplicit false

/-!
# The keys of reports

A report is enabled by the first reference that is registered through it, and the handler keeps the
key of that reference. Later references that come to the same report are only told that it exists.
This file follows a run of calls and reports, with an observer who notes which references were
registered through which report.

## Main definitions

* `Tmee.ClientEvent`, `Tmee.eventStep` — calls and reports.
* `Tmee.Registration`, `Tmee.noteRegistration` — the references that were registered.
* `Tmee.Routes` — every included member is reported under a reference that it covers.
* `Tmee.OnlyFirstCovered` — no other reference than the first is covered.
* `Tmee.KeepsDataSet`, `Tmee.LosesDataSet`, `Tmee.GetsThrough` — what the handler finds.

## Main results

* `Tmee.firstKept_of_exec` — the handler of a report has the key of the first registration.
* `Tmee.report_routes` — when a report reaches the references that it is for.
-/

namespace Tmee

variable {V F : Type}

open Hoare

/-! ## Calls and reports -/

/-- What the handler of a report has been given. -/
abbrev RefData := String × String × String × String × String

/-- What can happen to the client. -/
inductive ClientEvent (V F : Type)
  | call (call : ClientCall) (a : Answers V F)
  | report (refdata : RefData) (report : ClientReport)

section Model

variable (urlparse : String → UriRef)

/-- One step of a run: a call, or a report that the handler writes into the model. -/
def eventStep (c : Client) : ClientEvent V F → Except Stop Client
  | .call call a => clientStep urlparse c (call, a)
  | .report refdata report =>
    let e := c.endpoint refdata.2.1
    match e.entry with
    | none => .ok c
    | some entry =>
      let s := reportHandler entry.model refdata report
      .ok (c.withEndpoint refdata.2.1 (e.withModel s.model))

/-- A reference that was registered through a report. -/
structure Registration where
  tupl : String
  rpt : String
  key : String
  ref : String
  deriving DecidableEq, Repr

/-- The registrations after a step. -/
def noteRegistration (log : List Registration) (c : Client) : ClientEvent V F → List Registration
  | .call (.registerReadValue key) a =>
    if key ∈ c.polling then log
    else
      match uriTarget (urlparse key) with
      | .ok (some (tupl, ref)) =>
        match reportOf a key tupl ref (c.endpoint tupl) with
        | some (_, _, d) => log ++ [⟨tupl, d.rpt, key, ref⟩]
        | none => log
      | _ => log
  | _ => log

/-- A run with an observer. -/
def watchedStep :
    Client × List Registration → ClientEvent V F → Except Stop (Client × List Registration) :=
  Run.watch (eventStep urlparse) (noteRegistration urlparse)

end Model

/-- The keys and references that were registered through a report of an IED. -/
def registeredThrough (log : List Registration) (tupl rpt : String) : List (String × String) :=
  (log.filter fun r => r.tupl = tupl ∧ r.rpt = rpt).map fun r => (r.key, r.ref)

/-! ## The reports that are kept -/

/-- Every report that is kept for the IED has the property. -/
def ReportsHave (P : String → RefData → Prop) (e : Endpoint) : Prop :=
  ∀ d ∈ e.reporting, P d.rpt d.refdata

section Reports

variable {P : String → RefData → Prop} {e : Endpoint}

lemma ReportsHave.addReport (h : ReportsHave P e) {d : RcbData} (hd : P d.rpt d.refdata) (con : ℕ)
    (rpt : String) (error : ℤ) : ReportsHave P ((e.enable con rpt error).addReport d) :=
  List.forall_mem_append.mpr ⟨h, List.forall_mem_singleton.mpr hd⟩

/-- The reports are enabled again with what they have kept. -/
lemma reportsHave_reconnect (a : Answers V F) :
    Triple (ReportsHave P) (reconnect a) (fun _ => ReportsHave P) (orCrash (ReportsHave P)) := by
  refine triple_reconnect_of (S := fun _ => ReportsHave P)
    (J := fun _ l done _ => (∀ d ∈ l, P d.rpt d.refdata) ∧ ∀ d ∈ done, P d.rpt d.refdata)
    (fun _ => Or.inl rfl) (fun _ _ he => he) (fun _ _ he => he) (fun _ _ _ he _ => Or.inr he)
    (fun _ _ he _ => he) (fun _ _ _ he _ _ => ⟨he, by simp⟩) ?_ fun _ _ _ _ he => he.2
  rintro con l done d rcb e hd ⟨hl, hdone⟩
  exact ⟨hl, List.forall_mem_append.mpr ⟨hdone, List.forall_mem_singleton.mpr (hl d hd)⟩⟩

lemma reportsHave_getIED (a : Answers V F) :
    Triple (ReportsHave P) (getIED a) (fun _ => ReportsHave P) (orCrash (ReportsHave P)) :=
  triple_getIED_of (fun _ _ _ _ he _ _ => he) (fun _ _ he _ => Or.inr he)
    (fun _ _ _ _ _ he _ _ _ => he) (fun _ _ _ _ he _ _ => he) (fun _ he _ => he)
    (fun _ _ _ he _ => he) (reportsHave_reconnect a)

/-- The call registers nothing. -/
def RegistersNothing (call : ClientCall) (_ : Answers V F) (_ : String) (_ : Endpoint) : Prop :=
  ∀ ref, call ≠ .registerReadValue ref

/-- **The other calls keep the reports as they are.** -/
lemma reportsHave_rules (P : String → RefData → Prop) :
    EndpointRules (ReportsHave P) (@RegistersNothing V F) RegistersNothing where
  initial := by
    intro d hd
    cases hd
  connects call a path :=
    (reportsHave_getIED a).and_const.conseq (fun _ he => he) fun _ _ he => ⟨he.1, fun _ => he.2⟩
  updates call a path con model error _ _ := by
    refine Triple.bind (Q := fun _ => ReportsHave P) (fun e he => he.1.1) fun _ => ?_
    exact triple_ite (fun _ => fun e he => he) fun _ => fun e he => he
  reports a cbRefs key tupl ref := by
    rintro e ⟨-, hnothing⟩
    exact absurd rfl (hnothing key)
  controls call a path := by
    refine (triple_getControlObject fun e he => he.1).conseq (fun _ he => he) ?_
    rintro control _ ⟨e, ⟨he, -⟩, ⟨rfl, -⟩ | ⟨rfl, -⟩⟩
    · exact he
    · exact he

/-- A registration that comes to no report keeps the reports as they are. -/
lemma reportsHave_of_reportOf_eq_none (he : ReportsHave P e) {a : Answers V F}
    {key tupl path : String} (hnone : reportOf a key tupl path e = none) (cbRefs : List String) :
    match registerReadValueAt a cbRefs key tupl path e with
    | .ok _ e' => ReportsHave P e'
    | .error stop e' => orCrash (ReportsHave P) stop e' := by
  have hs := reportsHave_getIED a e he
  cases hIED : getIED a e with
  | error stop s =>
    rw [hIED] at hs
    simp only [registerReadValueAt, bind, EStateM.bind, hIED]
    exact hs
  | ok err s =>
    rw [hIED] at hs
    by_cases herr : err = 0
    swap
    · simp only [registerReadValueAt, bind, EStateM.bind, hIED, if_neg herr]
      exact hs
    subst herr
    cases hentry : s.entry with
    | none =>
      simp only [registerReadValueAt, bind, EStateM.bind, hIED, if_true, getEntry_of_none hentry]
      exact Or.inr hs
    | some entry =>
      rw [registerReadValueAt_of_connected hIED hentry]
      rcases hparse : parseRef entry.model path with x | ⟨node, p⟩
      · exact Or.inr hs
      by_cases hnode : node.truthy = true
      swap
      · simp only [if_neg hnode]
        exact hs
      simp only [if_pos hnode, registerForReporting_eq hentry]
      rcases hsearch : searchReport entry.model path with x | _ | ⟨rpt, ld, ln, ds⟩
      · exact Or.inr hs
      · exact hs
      cases hcon : entry.con with
      | none => exact Or.inl rfl
      | some con =>
        cases hrcb : a.registerRcb with
        | none => exact Or.inl rfl
        | some rcb =>
          simp [reportOf, hIED, hentry, hparse, hnode, hsearch, hcon, hrcb,
            Except.toOption] at hnone

/-- What a registration that comes to a report keeps for the handler. -/
lemma reportOf_eq_some {a : Answers V F} {key tupl path : String} {s : Endpoint} {con : ℕ}
    {d : RcbData} (h : reportOf a key tupl path e = some (s, con, d)) :
    getIED a e = .ok 0 s ∧ d.refdata.1 = key ∧ d.refdata.2.1 = tupl := by
  rw [reportOf] at h
  cases hIED : getIED a e with
  | error stop s' =>
    rw [hIED] at h
    cases h
  | ok err s' =>
    rw [hIED] at h
    dsimp only at h
    by_cases herr : err = 0
    · rw [if_pos herr] at h
      obtain ⟨entry, -, h⟩ := Option.bind_eq_some_iff.mp h
      obtain ⟨⟨node, p⟩, -, h⟩ := Option.bind_eq_some_iff.mp h
      dsimp only at h
      split_ifs at h
      obtain ⟨⟨rpt, ld, ln, ds⟩, -, h⟩ := Option.bind_eq_some_iff.mp h
      obtain ⟨con', -, h⟩ := Option.bind_eq_some_iff.mp h
      obtain ⟨rcb, -, h⟩ := Option.bind_eq_some_iff.mp h
      obtain ⟨rfl, -, rfl⟩ : s' = s ∧ con' = con ∧
          RcbData.mk rcb rpt (key, tupl, ld, ln, ds) = d := by
        simpa using h
      exact ⟨by rw [herr], rfl, rfl⟩
    · rw [if_neg herr] at h
      cases h

end Reports

/-! ## The first registration -/

section First

variable {log : List Registration} {rpt : String}

lemma registeredThrough_append (log log' : List Registration) (tupl rpt : String) :
    registeredThrough (log ++ log') tupl rpt =
      registeredThrough log tupl rpt ++ registeredThrough log' tupl rpt := by
  simp [registeredThrough]

/-- A report is kept with the key of the first reference that was registered through it. -/
def FirstKey (log : List Registration) (rpt : String) (refdata : RefData) : Prop :=
  ∃ ref, (registeredThrough log refdata.2.1 rpt).head? = some (refdata.1, ref)

lemma FirstKey.append {refdata : RefData} (h : FirstKey log rpt refdata)
    (log' : List Registration) : FirstKey (log ++ log') rpt refdata := by
  obtain ⟨ref, hhead⟩ := h
  exact ⟨ref, by rw [registeredThrough_append, List.head?_append, hhead, Option.some_or]⟩

/-- What is known after a run. -/
structure FirstKept (urlparse : String → UriRef) (s : Client × List Registration) : Prop where
  first : ForAllIeds (ReportsHave (FirstKey s.2)) s.1
  noted : ∀ r ∈ s.2, r.rpt ∈ s.1.cbRefs
  target : ∀ r ∈ s.2, uriTarget (urlparse r.key) = .ok (some (r.tupl, r.ref))

end First

section Step

variable {urlparse : String → UriRef} {log : List Registration} {c c' : Client} {a : Answers V F}

lemma ReportsHave.mono {P P' : String → RefData → Prop} {e : Endpoint} (h : ReportsHave P e)
    (hP : ∀ rpt refdata, P rpt refdata → P' rpt refdata) : ReportsHave P' e :=
  fun d hd => hP d.rpt d.refdata (h d hd)

lemma forAllIeds_withEndpoint {I : Endpoint → Prop} {e : Endpoint} (hc : ForAllIeds I c)
    (tupl : String) (he : I e) : ForAllIeds I (c.withEndpoint tupl e) := by
  intro t
  by_cases ht : t = tupl
  · subst ht
    simpa [Client.withEndpoint] using he
  · simpa [Client.withEndpoint, Function.update_of_ne ht] using hc t

/-- A call that registers nothing. -/
lemma FirstKept.call {call : ClientCall} (h : FirstKept urlparse (c, log))
    (hcall : ∀ ref, call ≠ .registerReadValue ref)
    (hstep : clientStep urlparse c (call, a) = .ok c') : FirstKept urlparse (c', log) := by
  have hguard : ClientGuard urlparse RegistersNothing c (call, a) :=
    fun _ _ _ => hcall
  refine ⟨?_, fun r hr => ?_, h.target⟩
  · exact (reportsHave_rules _).keeps_clientStep urlparse h.first hguard hstep
  · have hkept : c'.cbRefs = c.cbRefs := by
      by_cases htarget : ∃ tupl path, callTarget urlparse call = .ok (some (tupl, path))
      · obtain ⟨tupl, path, htarget⟩ := htarget
        obtain ⟨e, rfl | ⟨ref, r, rfl, -⟩⟩ := clientStep_eq_ok htarget hstep
        · rfl
        · exact absurd rfl (hcall ref)
      · rw [clientStep_of_not_target fun tupl path h => htarget ⟨tupl, path, h⟩] at hstep
        rw [Except.ok.inj hstep]
    rw [hkept]
    exact h.noted r hr

/-- A registration that comes to a report: the report is there, or it is added with the key of the
registration. -/
lemma FirstKept.register_some {key tupl path : String} {s : Endpoint} {con : ℕ} {d : RcbData}
    (h : FirstKept urlparse (c, log)) (hmem : key ∉ c.polling)
    (htarget : uriTarget (urlparse key) = .ok (some (tupl, path)))
    (hsome : reportOf a key tupl path (c.endpoint tupl) = some (s, con, d))
    (hresult : ∀ cbRefs, registerReadValueAt a cbRefs key tupl path (c.endpoint tupl) =
      if d.rpt ∈ cbRefs then .ok ⟨0, false, none⟩ s
      else .ok ⟨0, false, some d.rpt⟩ ((s.enable con d.rpt a.registerError).addReport d))
    (hstep : clientStep urlparse c (.registerReadValue key, a) = .ok c') :
    FirstKept urlparse (c', log ++ [⟨tupl, d.rpt, key, path⟩]) := by
  obtain ⟨hIED, hkey, htupl⟩ := reportOf_eq_some hsome
  have hfirst : ForAllIeds (ReportsHave (FirstKey (log ++ [⟨tupl, d.rpt, key, path⟩]))) c :=
    fun t => (h.first t).mono fun rpt refdata hfirst => hfirst.append _
  have hs : ReportsHave (FirstKey (log ++ [⟨tupl, d.rpt, key, path⟩])) s :=
    (reportsHave_getIED a).ok (hfirst tupl) hIED
  rw [clientStep_register hmem htarget, hresult] at hstep
  have htargets : ∀ r ∈ log ++ [Registration.mk tupl d.rpt key path],
      uriTarget (urlparse r.key) = .ok (some (r.tupl, r.ref)) :=
    List.forall_mem_append.mpr ⟨h.target, List.forall_mem_singleton.mpr htarget⟩
  -- what was noted before is in `cb_refs` still, and so is the report of the registration
  have hnoted : ∀ c' : Client, c.cbRefs ⊆ c'.cbRefs → d.rpt ∈ c'.cbRefs →
      ∀ r ∈ log ++ [Registration.mk tupl d.rpt key path], r.rpt ∈ c'.cbRefs :=
    fun c' hsub hrpt => List.forall_mem_append.mpr
      ⟨fun r hr => hsub (h.noted r hr), List.forall_mem_singleton.mpr hrpt⟩
  by_cases hrpt : d.rpt ∈ c.cbRefs
  · rw [if_pos hrpt] at hstep
    obtain rfl := Except.ok.inj hstep
    exact ⟨forAllIeds_withEndpoint hfirst tupl hs,
      hnoted _ (List.subset_append_left _ _) (List.mem_append_left _ hrpt), htargets⟩
  · rw [if_neg hrpt] at hstep
    obtain rfl := Except.ok.inj hstep
    have hnone : registeredThrough log tupl d.rpt = [] := by
      rw [registeredThrough, List.map_eq_nil_iff, List.filter_eq_nil_iff]
      intro r hr hthrough
      have heq : r.tupl = tupl ∧ r.rpt = d.rpt := by simpa using hthrough
      exact hrpt (heq.2 ▸ h.noted r hr)
    have hd : FirstKey (log ++ [⟨tupl, d.rpt, key, path⟩]) d.rpt d.refdata := by
      refine ⟨path, ?_⟩
      rw [hkey, htupl, registeredThrough_append, hnone]
      simp [registeredThrough]
    exact ⟨forAllIeds_withEndpoint hfirst tupl (hs.addReport hd _ _ _),
      hnoted _ (List.subset_append_left _ _) (List.mem_append_right _ (by simp)), htargets⟩

/-- A registration. -/
lemma FirstKept.register {key : String} (h : FirstKept urlparse (c, log))
    (hstep : clientStep urlparse c (.registerReadValue key, a) = .ok c') :
    FirstKept urlparse
      (c', noteRegistration urlparse log c (.call (.registerReadValue key) a)) := by
  by_cases hmem : key ∈ c.polling
  · rw [clientStep_register_of_mem hmem] at hstep
    obtain rfl := Except.ok.inj hstep
    simpa only [noteRegistration, if_pos hmem] using h
  by_cases htarget : ∃ tupl path, uriTarget (urlparse key) = .ok (some (tupl, path))
  swap
  · have hnot : ∀ tupl path,
        callTarget urlparse (.registerReadValue key) ≠ .ok (some (tupl, path)) :=
      fun tupl path h => htarget ⟨tupl, path, h⟩
    rw [clientStep_of_not_target hnot] at hstep
    obtain rfl := Except.ok.inj hstep
    rcases htarget' : uriTarget (urlparse key) with x | _ | ⟨tupl, path⟩
    · simpa only [noteRegistration, if_neg hmem, htarget'] using h
    · simpa only [noteRegistration, if_neg hmem, htarget'] using h
    · exact absurd ⟨tupl, path, htarget'⟩ htarget
  obtain ⟨tupl, path, htarget⟩ := htarget
  rcases registersBy a key tupl path (c.endpoint tupl) with
    ⟨hnone, -⟩ | ⟨s, con, d, hsome, hresult⟩
  · simp only [noteRegistration, if_neg hmem, htarget, hnone]
    have hkeeps := reportsHave_of_reportOf_eq_none (h.first tupl) hnone c.cbRefs
    rw [clientStep_register hmem htarget] at hstep
    rcases hrun : registerReadValueAt a c.cbRefs key tupl path (c.endpoint tupl) with
      ⟨r, e⟩ | ⟨x | _, e⟩ <;> rw [hrun] at hstep hkeeps
    · obtain rfl := Except.ok.inj hstep
      exact ⟨forAllIeds_withEndpoint h.first tupl hkeeps,
        fun r hr => List.mem_append_left _ (h.noted r hr), h.target⟩
    · obtain rfl := Except.ok.inj hstep
      exact ⟨forAllIeds_withEndpoint h.first tupl (hkeeps.resolve_left (by simp)), h.noted,
        h.target⟩
    · cases hstep
  · simp only [noteRegistration, if_neg hmem, htarget, hsome]
    exact h.register_some hmem htarget hsome hresult hstep

/-- A report changes the values in the model alone. -/
lemma FirstKept.report {refdata : RefData} {report : ClientReport}
    (h : FirstKept urlparse (c, log))
    (hstep : eventStep urlparse c (.report refdata report : ClientEvent V F) = .ok c') :
    FirstKept urlparse (c', log) := by
  rw [eventStep] at hstep
  cases hentry : (c.endpoint refdata.2.1).entry with
  | none =>
    simp only [hentry] at hstep
    obtain rfl := Except.ok.inj hstep
    exact h
  | some entry =>
    simp only [hentry] at hstep
    obtain rfl := Except.ok.inj hstep
    exact ⟨forAllIeds_withEndpoint h.first _ (h.first _), h.noted, h.target⟩

/-- **What a step preserves.** -/
lemma firstKept_step {s s' : Client × List Registration} {event : ClientEvent V F}
    (h : FirstKept urlparse s) (hstep : watchedStep urlparse s event = .ok s') :
    FirstKept urlparse s' := by
  obtain ⟨hstep, hlog⟩ := Run.watch_eq_ok.mp hstep
  obtain ⟨c, log⟩ := s
  obtain ⟨c', log'⟩ := s'
  obtain rfl := hlog
  cases event with
  | report refdata report => exact h.report hstep
  | call call a =>
    by_cases hcall : ∃ ref, call = .registerReadValue ref
    · obtain ⟨ref, rfl⟩ := hcall
      exact h.register hstep
    · have hlog : noteRegistration urlparse log c (.call call a) = log := by
        cases call with
        | registerReadValue ref => exact absurd ⟨ref, rfl⟩ hcall
        | _ => rfl
      rw [hlog]
      exact h.call (fun ref heq => hcall ⟨ref, heq⟩) hstep

end Step

/-- **The handler of a report has the key of the first registration**, after every run. -/
lemma firstKept_of_exec {urlparse : String → UriRef} {events : List (ClientEvent V F)}
    {s : Client × List Registration}
    (h : Run.exec (watchedStep urlparse) (Client.initial, []) events = .ok s) :
    FirstKept urlparse s := by
  refine Run.exec_invariant (fun _ _ _ hs hstep => firstKept_step hs hstep) ?_ h
  refine ⟨fun t d hd => ?_, ?_, ?_⟩
  · cases hd
  · simp
  · simp

/-! ## Where the calls go -/

/-- **The calls for a report reach the references that it is for**: each included member has a call,
under the key of a registered reference that it covers, and each registered reference that an
included member covers has a call under its key. -/
structure Routes (regs : List (String × String)) (members : List (ℕ × String))
    (calls : List RptCall) : Prop where
  calls_covered : ∀ m ∈ members, (∃ call ∈ calls, call.index = m.1) ∧
    ∀ call ∈ calls, call.index = m.1 → ∃ ref, (call.key, ref) ∈ regs ∧ CoversRef m.2 ref
  registered_called : ∀ reg ∈ regs, ∀ m ∈ members, CoversRef m.2 reg.2 →
    ∃ call ∈ calls, call.key = reg.1

/-- The calls for a report, in the state that the client is in. -/
def reportCalls (c : Client) (refdata : RefData) (report : ClientReport) : List RptCall :=
  match (c.endpoint refdata.2.1).entry with
  | none => []
  | some entry => (reportHandler entry.model refdata report).calls

/-- Each included member covers the reference that was registered first, and no included member
covers a reference that was registered under another key. -/
def OnlyFirstCovered (regs : List (String × String)) (members : List (ℕ × String)) : Prop :=
  ∀ first ∈ regs.head?, ∀ m ∈ members,
    CoversRef m.2 first.2 ∧ ∀ reg ∈ regs, CoversRef m.2 reg.2 → reg.1 = first.1

/-- One call for each member, all under the first key. -/
lemma routes_iff {regs : List (String × String)} {members : List (ℕ × String)}
    {calls : List RptCall} {key ref : String} (hhead : regs.head? = some (key, ref))
    (hrefs : ∀ reg ∈ regs, reg.1 = key → reg.2 = ref)
    (hcalls : (calls.map fun call => (call.index, call.key)) = members.map fun m => (m.1, key)) :
    Routes regs members calls ↔ OnlyFirstCovered regs members := by
  have hkey : ∀ call ∈ calls, call.key = key := by
    intro call hcall
    have hmem : (call.index, call.key) ∈ members.map fun m => (m.1, key) :=
      hcalls ▸ List.mem_map.mpr ⟨call, hcall, rfl⟩
    obtain ⟨m, -, hm⟩ := List.mem_map.mp hmem
    exact (Prod.mk.inj hm).2.symm
  have hcalled : ∀ m ∈ members, ∃ call ∈ calls, call.index = m.1 := by
    intro m hm
    have hmem : (m.1, key) ∈ calls.map fun call => (call.index, call.key) :=
      hcalls ▸ List.mem_map.mpr ⟨m, hm, rfl⟩
    obtain ⟨call, hcall, heq⟩ := List.mem_map.mp hmem
    exact ⟨call, hcall, (Prod.mk.inj heq).1⟩
  constructor
  · rintro hroutes first hfirst m hm
    obtain rfl : (key, ref) = first := Option.some.inj (hhead.symm.trans hfirst)
    refine ⟨?_, fun reg hreg hcovers => ?_⟩
    · obtain ⟨⟨call, hcall, hindex⟩, hcovered⟩ := hroutes.calls_covered m hm
      obtain ⟨ref', hreg, hcovers⟩ := hcovered call hcall hindex
      obtain rfl : ref' = ref := hrefs _ hreg (hkey call hcall)
      exact hcovers
    · obtain ⟨call, hcall, hcallkey⟩ := hroutes.registered_called reg hreg m hm hcovers
      exact hcallkey.symm.trans (hkey call hcall)
  · intro honly
    refine ⟨fun m hm => ⟨hcalled m hm, fun call hcall _ => ?_⟩, fun reg hreg m hm hcovers => ?_⟩
    · rw [hkey call hcall]
      exact ⟨ref, List.mem_of_mem_head? hhead, (honly _ hhead m hm).1⟩
    · obtain ⟨call, hcall, -⟩ := hcalled m hm
      refine ⟨call, hcall, ?_⟩
      rw [hkey call hcall, (honly _ hhead m hm).2 reg hreg hcovers]

/-- The client has the data set of the report: the model of the IED holds it. -/
def KeepsDataSet (c : Client) (refdata : RefData) (refs : List String) : Prop :=
  ∃ entry, (c.endpoint refdata.2.1).entry = some entry ∧ HoldsDataSet entry.model refdata refs

/-- The client has lost the data set of the report: the IED has no entry, or there is nothing at the
path of the data set, or a node without keys. -/
def LosesDataSet (c : Client) (refdata : RefData) : Prop :=
  ∀ entry, (c.endpoint refdata.2.1).entry = some entry → ∀ dataset,
    entry.model.resolve (dataSetPath refdata) = .ok (some dataset) → dataset.keys = []

/-- **The handler gets to every member that the report includes**: there is none, or the client has
the data set and the texts can be decoded. -/
def GetsThrough (c : Client) (refdata : RefData) (report : ClientReport) (refs : List String) :
    Prop :=
  included report refs = [] ∨
    (KeepsDataSet c refdata refs ∧ ∀ m ∈ included report refs, (report.text m.1).isSome = true)

/-- With the data set there is one call for each member that is written. -/
lemma KeepsDataSet.reportCalls {c : Client} {refdata : RefData} {refs : List String}
    (h : KeepsDataSet c refdata refs) (report : ClientReport) :
    ((reportCalls c refdata report).map fun call => (call.index, call.key)) =
      (written report refs).map fun m => (m.1, refdata.1) := by
  obtain ⟨entry, hentry, hholds⟩ := h
  rw [Tmee.reportCalls, hentry]
  exact reportHandler_calls hholds report

/-- Without the data set there is no call. -/
lemma LosesDataSet.reportCalls_eq_nil {c : Client} {refdata : RefData} (h : LosesDataSet c refdata)
    (report : ClientReport) : reportCalls c refdata report = [] := by
  obtain ⟨key, tupl, ld, ln, ds⟩ := refdata
  rw [reportCalls]
  cases hentry : (c.endpoint tupl).entry with
  | none => rfl
  | some entry =>
    dsimp only
    rw [reportHandler]
    split
    · next dataset hfound =>
      obtain ⟨device, hdevice, hfound⟩ := Fallible.bind_eq_ok.mp hfound
      obtain ⟨node, hnode, hdataset⟩ := Fallible.bind_eq_ok.mp hfound
      have hresolve : entry.model.resolve [ld, ln, ds] = .ok (some dataset) := by
        simp only [PyValue.resolve_cons_eq_ok_some]
        exact ⟨device, hdevice, node, hnode, dataset, hdataset, rfl⟩
      rw [h entry hentry dataset hresolve]
      rfl
    · rfl

/-- **When a report reaches the references that it is for**: after every run of calls and reports,
the calls for a report are right if the handler gets to every member that the report includes, and
these cover the reference that was registered first, and no reference that was registered under
another key. This is necessary as well, if the client has the data set as it was discovered or has
lost it.

**Proof sketch.** The handler calls once for each written member (`reportHandler_calls`), under the
key of the first registration (`firstKept_of_exec`). A member that is included and not written has
no call. -/
theorem report_routes {urlparse : String → UriRef} {events : List (ClientEvent V F)} {c : Client}
    {log : List Registration} {t : String} {d : RcbData}
    (hrun : Run.exec (watchedStep urlparse) (Client.initial, []) events = .ok (c, log))
    (hd : d ∈ (c.endpoint t).reporting) (refs : List String) (report : ClientReport) :
    (GetsThrough c d.refdata report refs ∧
        OnlyFirstCovered (registeredThrough log d.refdata.2.1 d.rpt) (included report refs) →
      Routes (registeredThrough log d.refdata.2.1 d.rpt) (included report refs)
        (reportCalls c d.refdata report)) ∧
    (KeepsDataSet c d.refdata refs ∨ LosesDataSet c d.refdata →
      Routes (registeredThrough log d.refdata.2.1 d.rpt) (included report refs)
        (reportCalls c d.refdata report) →
      GetsThrough c d.refdata report refs ∧
        OnlyFirstCovered (registeredThrough log d.refdata.2.1 d.rpt) (included report refs)) := by
  have hkept := firstKept_of_exec hrun
  obtain ⟨ref, hhead⟩ := hkept.first t d hd
  have htarget : ∀ reg ∈ registeredThrough log d.refdata.2.1 d.rpt,
      uriTarget (urlparse reg.1) = .ok (some (d.refdata.2.1, reg.2)) := by
    intro reg hreg
    obtain ⟨r, hr, rfl⟩ := List.mem_map.mp hreg
    obtain ⟨hr, hthrough⟩ := List.mem_filter.mp hr
    have heq : r.tupl = d.refdata.2.1 ∧ r.rpt = d.rpt := by simpa using hthrough
    rw [← heq.1]
    exact hkept.target r hr
  have hrefs : ∀ reg ∈ registeredThrough log d.refdata.2.1 d.rpt,
      reg.1 = d.refdata.1 → reg.2 = ref := by
    intro reg hreg hkey
    have hsame := (htarget reg hreg).symm.trans
      (hkey ▸ htarget (d.refdata.1, ref) (List.mem_of_mem_head? hhead))
    simpa using hsame
  have hiff : KeepsDataSet c d.refdata refs →
      (∀ m ∈ included report refs, (report.text m.1).isSome = true) →
      (Routes (registeredThrough log d.refdata.2.1 d.rpt) (included report refs)
          (reportCalls c d.refdata report) ↔
        OnlyFirstCovered (registeredThrough log d.refdata.2.1 d.rpt) (included report refs)) := by
    intro hkeeps hdecode
    have hcalls := hkeeps.reportCalls report
    rw [written_eq_included hdecode] at hcalls
    exact routes_iff hhead hrefs hcalls
  constructor
  · rintro ⟨hnone | ⟨hkeeps, hdecode⟩, honly⟩
    · rw [hnone]
      exact ⟨by simp, by simp⟩
    · exact (hiff hkeeps hdecode).mpr honly
  · intro hcase hroutes
    rcases hcase with hkeeps | hloses
    · have hdecode : ∀ m ∈ included report refs, (report.text m.1).isSome = true := by
        intro m hm
        obtain ⟨⟨call, hcall, hindex⟩, -⟩ := hroutes.calls_covered m hm
        have hmem : (call.index, call.key) ∈
            (written report refs).map fun m => (m.1, d.refdata.1) :=
          hkeeps.reportCalls report ▸ List.mem_map.mpr ⟨call, hcall, rfl⟩
        obtain ⟨w, hw, heq⟩ := List.mem_map.mp hmem
        have hsome := isSome_text_of_mem_written hw
        rwa [(Prod.mk.inj heq).1, hindex] at hsome
      exact ⟨Or.inr ⟨hkeeps, hdecode⟩, (hiff hkeeps hdecode).mp hroutes⟩
    · have hnone : included report refs = [] := by
        refine List.eq_nil_iff_forall_not_mem.mpr fun m hm => ?_
        obtain ⟨⟨call, hcall, -⟩, -⟩ := hroutes.calls_covered m hm
        rw [hloses.reportCalls_eq_nil report] at hcall
        cases hcall
      refine ⟨Or.inl hnone, fun first _ m hm => ?_⟩
      rw [hnone] at hm
      cases hm

/-! ## Two references of one report -/

/-- An IED with two data objects, and a report for both. -/
def pairIed : IedAnswers where
  devices := [("D", some [("L", {
    dataObjects := some [
      ("X", .cons "v[ST]" .nil (some (.ok ("1", "integer"))) .nil),
      ("Y", .cons "v[ST]" .nil (some (.ok ("2", "integer"))) .nil)]
    dataSets := some [("S", some ["D/L.X[ST]", "D/L.Y[ST]"])]
    urcbs := some [("R", .cons "DatSet[RP]" .nil (some (.ok ("D/L$S", "visible-string"))) .nil)]
    brcbs := some [] })])]

/-- Its model. -/
def pairModel : List (String × PyValue) :=
  [("D", .dict [("L", .dict [
    ("X", .dict [("v", daNode "ST" (some ("1", "integer")))]),
    ("Y", .dict [("v", daNode "ST" (some ("2", "integer")))]),
    ("S", dataSetNode ["D/L.X[ST]", "D/L.Y[ST]"]),
    ("R", .dict [("DatSet", daNode "RP" (some ("D/L$S", "visible-string")))])])])]

/-- The library and the IED do what they are asked for. -/
def pairAnswers : Answers PlainValue Unit :=
  { answering with discovery := pairIed.discovery.mapError Raised.error }

/-- The key of the attribute of `X`, and of `Y`. -/
def keyX : String := "iec61850://a/D/L.X.v"

@[inherit_doc keyX]
def keyY : String := "iec61850://a/D/L.Y.v"

/-- What `urlparse` makes of the two keys. -/
def parsePair (key : String) : UriRef :=
  ⟨"iec61850", some "a", .ok none, if key = keyX then "/D/L.X.v" else "/D/L.Y.v"⟩

/-- Both are registered. -/
def pairEvents : List (ClientEvent PlainValue Unit) :=
  [.call (.registerReadValue keyX) pairAnswers, .call (.registerReadValue keyY) pairAnswers]

/-- What is kept for the report. -/
def pairRefdata : RefData := (keyX, "a:102", "D", "L", "S")

/-- The IED after the run. -/
def pairEndpoint : Endpoint where
  entry := some ⟨some 0, .dict pairModel, []⟩
  reporting := [⟨0, "D/L.RP.R", pairRefdata⟩]
  created := 1
  destroyed := []
  handlers := [(0, "D/L.RP.R")]
  enabled := [(0, "D/L.RP.R")]

/-- What was registered. -/
def pairLog : List Registration :=
  [⟨"a:102", "D/L.RP.R", keyX, "D/L.X.v"⟩, ⟨"a:102", "D/L.RP.R", keyY, "D/L.Y.v"⟩]

/-- A report that includes these members. -/
def reportOfMembers (members : List ℕ) : ClientReport :=
  ⟨fun i => if i ∈ members then 1 else 0, fun _ => .ok ("1", "integer")⟩

lemma exec_pairEvents : ∃ c,
    Run.exec (watchedStep parsePair) (Client.initial, []) pairEvents = .ok (c, pairLog) ∧
      c.endpoint "a:102" = pairEndpoint :=
  ⟨_, rfl, rfl⟩

lemma refersToData_pair {value name : String} (hpath : refPath value = some ["D", "L", name])
    (hvalue : "value" ∉ ["D", "L", name]) (hds : ¬ ["D", "L", "S"] <+: ["D", "L", name])
    (hleads : LeadsToDict (.dict pairModel) ["D", "L", name]) :
    RefersToData (.dict pairModel) (dataSetPath pairRefdata) value := by
  intro path hpath'
  obtain rfl : ["D", "L", name] = path := Option.some.inj (hpath.symm.trans hpath')
  exact ⟨hvalue, hds, hleads⟩

lemma holdsDataSet_pair :
    HoldsDataSet (.dict pairModel) pairRefdata ["D/L.X[ST]", "D/L.Y[ST]"] where
  found := rfl
  data dsRef hdsRef := by
    have hcases : dsRef = "D/L.X[ST]" ∨ dsRef = "D/L.Y[ST]" := by simpa using hdsRef
    rcases hcases with rfl | rfl
    · have hpath : refPath (withoutFc "D/L.X[ST]") = some ["D", "L", "X"] := by decide
      refine refersToData_pair hpath (by decide) (by decide) ?_
      exact ⟨_, rfl, fun v hv => ⟨_, (Option.some.inj hv).symm⟩⟩
    · have hpath : refPath (withoutFc "D/L.Y[ST]") = some ["D", "L", "Y"] := by decide
      refine refersToData_pair hpath (by decide) (by decide) ?_
      exact ⟨_, rfl, fun v hv => ⟨_, (Option.some.inj hv).symm⟩⟩

/-- The client has the data set after the run. -/
lemma keepsDataSet_pair {c : Client} (h : c.endpoint "a:102" = pairEndpoint) :
    KeepsDataSet c pairRefdata ["D/L.X[ST]", "D/L.Y[ST]"] := by
  refine ⟨⟨some 0, .dict pairModel, []⟩, ?_, holdsDataSet_pair⟩
  show (c.endpoint "a:102").entry = _
  rw [h]
  rfl

lemma mem_reporting_pair {c : Client} (h : c.endpoint "a:102" = pairEndpoint) :
    RcbData.mk 0 "D/L.RP.R" pairRefdata ∈ (c.endpoint "a:102").reporting := by
  rw [h]
  exact List.mem_cons_self

/-- A report with the first member alone. -/
theorem report_routes_first : ∃ c,
    Run.exec (watchedStep parsePair) (Client.initial, []) pairEvents = .ok (c, pairLog) ∧
      Routes (registeredThrough pairLog "a:102" "D/L.RP.R")
        (included (reportOfMembers [0]) ["D/L.X[ST]", "D/L.Y[ST]"])
        (reportCalls c pairRefdata (reportOfMembers [0])) := by
  obtain ⟨c, hexec, hendpoint⟩ := exec_pairEvents
  refine ⟨c, hexec, (report_routes hexec (mem_reporting_pair hendpoint) _ _).1
    ⟨Or.inr ⟨keepsDataSet_pair hendpoint, fun m _ => rfl⟩, fun first hfirst m hm => ?_⟩⟩
  obtain rfl : (keyX, "D/L.X.v") = first := Option.some.inj hfirst
  have hmembers : included (reportOfMembers [0]) ["D/L.X[ST]", "D/L.Y[ST]"] = [(0, "D/L.X")] := by
    decide
  rw [hmembers] at hm
  obtain rfl := List.mem_singleton.mp hm
  refine ⟨by decide, fun reg hreg hcovers => ?_⟩
  have hregs : registeredThrough pairLog "a:102" "D/L.RP.R" =
      [(keyX, "D/L.X.v"), (keyY, "D/L.Y.v")] := by
    decide
  have hcases : reg = (keyX, "D/L.X.v") ∨ reg = (keyY, "D/L.Y.v") := by
    simpa [hregs, pairRefdata] using hreg
  rcases hcases with rfl | rfl
  · rfl
  · exact absurd hcovers (by decide)

/-- **The value of the second member goes to the first reference**: after two registrations, a
report with both members calls with the key of `X` for the value of `Y`, and never with the key of
`Y`. -/
theorem not_report_routes_second : ∃ c,
    Run.exec (watchedStep parsePair) (Client.initial, []) pairEvents = .ok (c, pairLog) ∧
      RcbData.mk 0 "D/L.RP.R" pairRefdata ∈ (c.endpoint "a:102").reporting ∧
      ¬ Routes (registeredThrough pairLog "a:102" "D/L.RP.R")
        (included (reportOfMembers [0, 1]) ["D/L.X[ST]", "D/L.Y[ST]"])
        (reportCalls c pairRefdata (reportOfMembers [0, 1])) := by
  obtain ⟨c, hexec, hendpoint⟩ := exec_pairEvents
  refine ⟨c, hexec, mem_reporting_pair hendpoint, fun h => ?_⟩
  have hcalls := (keepsDataSet_pair hendpoint).reportCalls (reportOfMembers [0, 1])
  have hmember : (1, "D/L.Y") ∈ included (reportOfMembers [0, 1]) ["D/L.X[ST]", "D/L.Y[ST]"] := by
    decide
  obtain ⟨call, hcall, hkey⟩ :=
    h.registered_called (keyY, "D/L.Y.v") (by decide) _ hmember (by decide)
  have hcalled : (call.index, call.key) ∈
      (written (reportOfMembers [0, 1]) ["D/L.X[ST]", "D/L.Y[ST]"]).map fun m => (m.1, keyX) :=
    hcalls ▸ List.mem_map.mpr ⟨call, hcall, rfl⟩
  obtain ⟨m, -, hm⟩ := List.mem_map.mp hcalled
  have hsame : keyX = keyY := (Prod.mk.inj hm).2.trans hkey
  exact absurd hsame (by decide)

end Tmee
