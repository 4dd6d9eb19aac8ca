import Mathlib.Logic.Function.Basic
import Tmee.Client.Endpoint
import Tmee.Lib.Hoare
import Tmee.Lib.Run

set_option relaxedAutoImplicit false
set_option autoImplicit false

/-!
# The client

The calls of `libiec61850client.py` on a client that knows any number of IEDs, and runs of calls. An
exception of Python ends a call and leaves the client as it is then; the next call goes on from
there. The callbacks that a user of the client installs are not part of it. `poll` is a loop over
the references in `polling`, and one turn of the loop is a call of its own here.

How a reference is taken apart is up to `urlparse`, which is a parameter.

## Main definitions

* `Tmee.UriRef`, `Tmee.uriTarget` — references, and the IED they are for.
* `Tmee.Client`, `Tmee.onEndpoint` — the client, and calls for one IED.
* `Tmee.registerReadValue`, `Tmee.readValue`, `Tmee.registerWriteValue`, `Tmee.pollKey`,
  `Tmee.getDatamodel`, `Tmee.operate`, `Tmee.select`, `Tmee.cancel` — the calls.
* `Tmee.clientStep` — one call of a run.
* `Tmee.EndpointRules` — what the parts of the calls preserve for one IED.

## Main results

* `Tmee.exec_of_poll` — a poll is a run of its turns.
* `Tmee.triple_reconnect_of`, `Tmee.triple_getIED_of` — what to show for a connection.
* `Tmee.EndpointRules.of_exec` — what the parts preserve holds for every IED after every run.
-/

namespace Tmee

variable {V F : Type}

open Hoare

/-! ## References -/

/-- What `urlparse` makes of a reference; the port of a malformed one raises an exception. -/
structure UriRef where
  scheme : String
  hostname : Option String
  port : Except PyError (Option ℕ)
  path : String

/-- The key of an IED in the dictionaries of the client. -/
def tuplOf (hostname : String) (port : ℕ) : String := hostname ++ ":" ++ toString port

/-- The IED and the path of a parsed reference, whatever its scheme. -/
def hostTarget (uri : UriRef) : Except PyError (Option (String × String)) := do
  let port ← uri.port
  match uri.hostname with
  | none => .ok none
  | some hostname => .ok (some (tuplOf hostname (port.getD 102), (uri.path.drop 1).toString))

/-- The IED and the path of a reference of the scheme `iec61850`. -/
def uriTarget (uri : UriRef) : Except PyError (Option (String × String)) := do
  let target ← hostTarget uri
  .ok (if uri.scheme = "iec61850" then target else none)

/-! ## The client -/

/-- The client, with what the library knows of it. -/
structure Client where
  endpoint : String → Endpoint
  /-- The keys of `polling`. -/
  polling : List String
  /-- The references of control blocks in `cb_refs`. What else is in there is no string. -/
  cbRefs : List String

/-- A new client. -/
def Client.initial : Client := ⟨fun _ => Endpoint.initial, [], []⟩

/-- Code of the client. -/
abbrev ClientM := EStateM Stop Client

/-- Code for one IED. -/
def onEndpoint {α : Type} (tupl : String) (m : EndpointM α) : ClientM α := fun c =>
  match m (c.endpoint tupl) with
  | .ok x e => .ok x { c with endpoint := Function.update c.endpoint tupl e }
  | .error stop e => .error stop { c with endpoint := Function.update c.endpoint tupl e }

/-- Code for the IED of a reference; without one the call returns `other`. -/
def onTarget {α : Type} (target : Except PyError (Option (String × String))) (other : α)
    (m : String → String → EndpointM α) : ClientM α := do
  match ← liftPy target with
  | none => return other
  | some (tupl, path) => onEndpoint tupl (m tupl path)

section Model

variable (urlparse : String → UriRef)

/-- `registerReadValue`. -/
def registerReadValue (a : Answers V F) (ref : String) : ClientM ℤ := do
  let c ← get
  if ref ∈ c.polling then return 0
  else
    let r ← onTarget (uriTarget (urlparse ref)) ⟨-1, false, none⟩
      (registerReadValueAt a c.cbRefs ref)
    modify fun c => { c with
      polling := if r.poll then c.polling ++ [ref] else c.polling
      cbRefs := c.cbRefs ++ r.cbRef.toList }
    return r.result

/-- `ReadValue`. -/
def readValue (a : Answers V F) (ref : String) : ClientM (PyValue × ℤ) :=
  onTarget (uriTarget (urlparse ref)) (.dict [], -1) fun _ => readValueAt a

/-- `registerWriteValue`. -/
def registerWriteValue (a : Answers V F) (ref : String) (value : WriteArg) : ClientM ℤ :=
  onTarget (uriTarget (urlparse ref)) (-1) fun _ path => registerWriteValueAt a path value

/-- One turn of `poll`. -/
def pollKey (a : Answers V F) (key : String) : ClientM Unit := do
  let c ← get
  if key ∈ c.polling then onTarget (uriTarget (urlparse key)) () fun _ => pollAt a

/-- `poll`, with what each turn gets from the library. -/
def poll (answers : String → Answers V F) : ClientM Unit := do
  let c ← get
  c.polling.forM fun key => pollKey urlparse (answers key) key

/-- `getDatamodel`. A reference has precedence over the host and the port. -/
def getDatamodel (a : Answers V F) (ref hostname : Option String) (port : Option ℕ) :
    ClientM PyValue :=
  let target := match ref with
    | some ref => hostTarget (urlparse ref)
    | none => hostTarget ⟨"", hostname, .ok port, ""⟩
  onTarget target (.dict []) fun _ _ => modelAt a

/-- `operate`. -/
def operate (a : Answers V F) (ref : String) (value : WriteArg) : ClientM (ℤ × AddCause) :=
  onTarget (hostTarget (urlparse ref)) (-1, .empty) fun _ path => operateAt a path value

/-- `select`. -/
def select (a : Answers V F) (ref : String) (value : WriteArg) : ClientM (ℤ × AddCause) :=
  onTarget (hostTarget (urlparse ref)) (-1, .empty) fun _ path => selectAt a path value

/-- `cancel`. -/
def cancel (a : Answers V F) (ref : String) : ClientM ℤ :=
  onTarget (hostTarget (urlparse ref)) (-1) fun _ => cancelAt a

/-- The calls. -/
inductive ClientCall
  | registerReadValue (ref : String)
  | readValue (ref : String)
  | registerWriteValue (ref : String) (value : WriteArg)
  | pollKey (key : String)
  | getDatamodel (ref hostname : Option String) (port : Option ℕ)
  | operate (ref : String) (value : WriteArg)
  | select (ref : String) (value : WriteArg)
  | cancel (ref : String)
  deriving DecidableEq, Repr

/-- A call with what it gets from the library, without what it returns. -/
def runCall (a : Answers V F) : ClientCall → ClientM Unit
  | .registerReadValue ref => do let _ ← registerReadValue urlparse a ref
  | .readValue ref => do let _ ← readValue urlparse a ref
  | .registerWriteValue ref value => do let _ ← registerWriteValue urlparse a ref value
  | .pollKey key => pollKey urlparse a key
  | .getDatamodel ref hostname port => do let _ ← getDatamodel urlparse a ref hostname port
  | .operate ref value => do let _ ← operate urlparse a ref value
  | .select ref value => do let _ ← select urlparse a ref value
  | .cancel ref => do let _ ← cancel urlparse a ref

/-- One call of a run. An exception ends the call, and a crash ends the run. -/
def clientStep (c : Client) (i : ClientCall × Answers V F) : Except Stop Client :=
  match runCall urlparse i.2 i.1 c with
  | .ok _ c => .ok c
  | .error (.raised _) c => .ok c
  | .error .crashed _ => .error .crashed

/-- The IED and the path of a call. -/
def callTarget : ClientCall → Except PyError (Option (String × String))
  | .registerReadValue ref => uriTarget (urlparse ref)
  | .readValue ref => uriTarget (urlparse ref)
  | .registerWriteValue ref _ => uriTarget (urlparse ref)
  | .pollKey key => uriTarget (urlparse key)
  | .getDatamodel (some ref) _ _ => hostTarget (urlparse ref)
  | .getDatamodel none hostname port => hostTarget ⟨"", hostname, .ok port, ""⟩
  | .operate ref _ => hostTarget (urlparse ref)
  | .select ref _ => hostTarget (urlparse ref)
  | .cancel ref => hostTarget (urlparse ref)

/-- A condition on a call, on its path and on the state of its IED before it. -/
def ClientGuard (G : ClientCall → Answers V F → String → Endpoint → Prop) (c : Client)
    (i : ClientCall × Answers V F) : Prop :=
  ∀ tupl path, callTarget urlparse i.1 = .ok (some (tupl, path)) →
    G i.1 i.2 path (c.endpoint tupl)

end Model

/-! ## What the calls preserve -/

/-- After an exception `I` holds; after a crash there is no client any more. -/
def orCrash {σ : Type} (I : σ → Prop) (stop : Stop) (s : σ) : Prop := stop = .crashed ∨ I s

/-- The call can lose the connection: it reads or writes at its path, and is told so. -/
def ClientCall.Loses (a : Answers V F) (path : String) : ClientCall → Prop
  | .readValue _ | .pollKey _ => ∃ fc, (a.readObject path fc).1 = connectionLost
  | .registerWriteValue _ _ => (∃ fc, (a.readObject path fc).1 = connectionLost) ∨
      ∃ fc v, a.writeObject path fc v = connectionLost
  | _ => False

/-- What the parts of the calls preserve for one IED. `G` is a condition on a call, its path and the
state before it, and `G'` is what is known when there is a connection. -/
structure EndpointRules (I : Endpoint → Prop)
    (G G' : ClientCall → Answers V F → String → Endpoint → Prop) : Prop where
  initial : I Endpoint.initial
  connects : ∀ call a path, Triple (fun e => I e ∧ G call a path e) (getIED a)
    (fun err e => I e ∧ (err = 0 → G' call a path e)) (orCrash I)
  updates : ∀ call a path con model error, model.truthy →
    (error = connectionLost → call.Loses a path) →
    Triple (fun e => (I e ∧ G' call a path e) ∧ e.con = some con) (storeUpdate con model error)
      (fun _ => I) (orCrash I)
  reports : ∀ a cbRefs key tupl path,
    Triple (fun e => I e ∧ G' (.registerReadValue key) a path e)
      (registerForReporting a cbRefs key tupl path) (fun _ => I) (orCrash I)
  controls : ∀ call a path,
    Triple (fun e => I e ∧ G' call a path e) (getControlObject a path) (fun _ => I) (orCrash I)

section Rules

variable {σ α : Type} {P I : σ → Prop}

/-- A function without effects. -/
lemma triple_liftPy {x : Except PyError α} (hP : ∀ s, P s → I s) :
    Triple P (liftPy x) (fun y s => P s ∧ x = .ok y) (orCrash I) := by
  cases x with
  | ok y => exact fun s hs => ⟨hs, rfl⟩
  | error e => exact fun s hs => Or.inr (hP s hs)

lemma triple_getEntry {P I : Endpoint → Prop} (hP : ∀ e, P e → I e) :
    Triple P getEntry (fun entry e => P e ∧ e.entry = some entry) (orCrash I) := by
  refine triple_get_bind fun s hs => ?_
  cases hentry : s.entry with
  | none =>
    rintro t rfl
    exact Or.inr (hP t hs)
  | some entry =>
    rintro t rfl
    exact ⟨hs, hentry⟩

/-- A model is read, or the exception of `discovery` goes on. -/
lemma triple_discovery {a : Answers V F} {P : Endpoint → Prop} {E : Stop → Endpoint → Prop}
    (hE : ∀ e x, P e → a.discovery = .error x → E (.raised x) e) :
    Triple P (discovery a)
      (fun model e => P e ∧ ∃ entries, a.discovery = .ok entries ∧ model = .dict entries) E := by
  intro e he
  rw [discovery]
  cases hdiscovery : a.discovery with
  | ok entries => exact ⟨he, entries, rfl, rfl⟩
  | error x => exact hE e x he hdiscovery

/-- The operation on a control object changes nothing in the client. -/
lemma triple_controlResult {I : Endpoint → Prop} (a : Answers V F) :
    Triple I (controlResult a) (fun _ => I) (orCrash I) := by
  refine triple_ite (fun _ => fun e he => he) fun _ => ?_
  exact Triple.bind (triple_liftPy fun e he => he) fun _ => fun e he => he.1

/-- The loop that enables the reports again keeps an invariant `J` about the reports that have been
enabled and the state. -/
lemma triple_reenable {a : Answers V F} {con : ℕ} {l : List RcbData}
    {J : List RcbData → Endpoint → Prop} {E : Stop → Endpoint → Prop} (hE : ∀ e, E .crashed e)
    (hstep : ∀ done, ∀ d ∈ l, ∀ rcb e, J done e →
      J (done ++ [{ d with rcb := rcb }]) (e.enable con d.rpt (a.reenableError d.rpt)))
    (done : List RcbData) :
    Triple (J done) (reenable a con l) (fun l' e => J (done ++ l') e) E := by
  induction l generalizing done with
  | nil =>
    intro e he
    rw [← List.append_nil done] at he
    exact he
  | cons d l ih =>
    rw [reenable]
    cases hrcb : a.reenableRcb d.rpt with
    | none => exact fun e _ => hE e
    | some rcb =>
      have hd : Triple (J done)
          (modify fun e => e.enable con d.rpt (a.reenableError d.rpt) : EndpointM PUnit)
          (fun _ => J (done ++ [{ d with rcb := rcb }])) E :=
        fun e he => hstep done d List.mem_cons_self rcb e he
      refine Triple.bind hd fun _ => ?_
      refine Triple.bind (ih (fun done d hd => hstep done d (List.mem_cons_of_mem _ hd)) _)
        fun l' e he => ?_
      rwa [List.append_assoc, List.singleton_append] at he

/-- **A new connection**, step by step: `S` holds once the connection is stored, and `J` while the
reports are enabled, for all of them and those that have been enabled. -/
lemma triple_reconnect_of {a : Answers V F} {P : Endpoint → Prop} {S : ℕ → Endpoint → Prop}
    {J : ℕ → List RcbData → List RcbData → Endpoint → Prop} {Q : ℤ → Endpoint → Prop}
    {E : Stop → Endpoint → Prop} (hcrash : ∀ e, E .crashed e)
    (hfail : a.connect ≠ 0 → ∀ e, P e →
      Q (-1) (Endpoint.destroy { e with created := e.created + 1 } e.created))
    (hconnect : a.connect = 0 → ∀ e, P e →
      S e.created (Endpoint.withCon { e with created := e.created + 1 } (some e.created)))
    (hraise : ∀ con e x, S con e → a.discovery = .error x → E (.raised x) e)
    (hempty : ∀ con e, S con e → a.discovery = .ok [] → Q (-1) e)
    (hmodel : ∀ con e entries, S con e → a.discovery = .ok entries → entries ≠ [] →
      J con e.reporting [] (e.withModel (.dict entries)))
    (hreport : ∀ con l done d rcb e, d ∈ l → J con l done e →
      J con l (done ++ [{ d with rcb := rcb }]) (e.enable con d.rpt (a.reenableError d.rpt)))
    (hdone : ∀ con l l' e, J con l l' e → Q 0 { e with reporting := l' }) :
    Triple P (reconnect a) Q E := by
  refine Triple.bind (Q := fun con e => ∃ e', P e' ∧ con = e'.created ∧
    e = { e' with created := e'.created + 1 }) (fun e he => ⟨e, he, rfl, rfl⟩) fun con => ?_
  refine triple_ite (fun hok => ?_) fun hne => ?_
  · refine Triple.bind (Q := fun _ => S con) ?_ fun _ => ?_
    · rintro e ⟨e', he', rfl, rfl⟩
      exact hconnect hok e' he'
    refine Triple.bind (triple_discovery fun e x => hraise con e x) fun model => ?_
    refine triple_ite (fun hne => ?_) fun hnil => ?_
    · refine Triple.bind (Q := fun _ e => J con e.reporting [] e) ?_ fun _ => ?_
      · rintro e ⟨he, entries, hentries, rfl⟩
        exact hmodel con e entries he hentries (by simpa [PyValue.truthy] using hne)
      refine triple_get_bind fun s hs => ?_
      refine Triple.bind ((triple_reenable (J := J con s.reporting) hcrash
        (fun done d hd rcb e => hreport con s.reporting done d rcb e hd) []).conseq ?_
        fun _ _ he => he) fun l' => hdone con s.reporting l'
      rintro _ rfl
      exact hs
    · rintro e ⟨he, entries, hentries, rfl⟩
      obtain rfl : entries = [] := by simpa [PyValue.truthy] using hnil
      exact hempty con e he hentries
  · rintro e ⟨e', he', rfl, rfl⟩
    exact hfail hne e' he'

/-- **An active connection**, by cases: `P'` holds where a new connection is made. -/
lemma triple_getIED_of {a : Answers V F} {P P' : Endpoint → Prop} {Q : ℤ → Endpoint → Prop}
    {E : Stop → Endpoint → Prop}
    (hactive : ∀ e con model control, P e → e.entry = some ⟨some con, model, control⟩ →
      model.truthy = true → Q 0 e)
    (hraise : ∀ e x, P e → a.discovery = .error x → E (.raised x) e)
    (hmodel : ∀ e con model control entries, P e → e.entry = some ⟨some con, model, control⟩ →
      ¬ model.truthy = true → entries ≠ [] → Q 0 (e.withModel (.dict entries)))
    (hempty : ∀ e con model control, P e → e.entry = some ⟨some con, model, control⟩ →
      ¬ model.truthy = true → Q (-1) ((e.destroy con).withCon none))
    (hnew : ∀ e, P e → e.entry = none → P' { e with entry := some ⟨none, .dict [], []⟩ })
    (hlost : ∀ e model control, P e → e.entry = some ⟨none, model, control⟩ → P' e)
    (hreconnect : Triple P' (reconnect a) Q E) : Triple P (getIED a) Q E := by
  refine triple_get_bind fun s hs => ?_
  cases hentry : s.entry with
  | none =>
    refine Triple.bind (Q := fun _ => P') ?_ fun _ => hreconnect
    rintro _ rfl
    exact hnew _ hs hentry
  | some entry =>
    obtain ⟨con, model, control⟩ := entry
    cases con with
    | none =>
      refine hreconnect.conseq ?_ fun _ _ he => he
      rintro _ rfl
      exact hlost _ model control hs hentry
    | some con =>
      refine triple_ite (fun htruthy => ?_) fun htruthy => ?_
      · rintro _ rfl
        exact hactive _ con model control hs hentry htruthy
      refine Triple.bind (triple_discovery ?_) fun model' => ?_
      · rintro _ x rfl hx
        exact hraise _ x hs hx
      refine triple_ite (fun hne => ?_) fun _ => ?_
      · rintro _ ⟨rfl, entries, -, rfl⟩
        exact hmodel _ con model control entries hs hentry htruthy
          (by simpa [PyValue.truthy] using hne)
      · rintro _ ⟨rfl, -⟩
        exact hempty _ con model control hs hentry htruthy

/-- When `reconnect` returns `0`, the new connection is in use. -/
lemma con_of_reconnect (a : Answers V F) :
    Triple (fun e => ∃ entry, e.entry = some entry) (reconnect a)
      (fun err e => err = 0 → ∃ con, e.con = some con) (fun _ _ => True) := by
  refine triple_reconnect_of (S := fun con e => e.con = some con)
    (J := fun con _ _ e => e.con = some con) (fun _ => trivial) (fun _ _ _ h => by cases h) ?_
    (fun _ _ _ _ _ => trivial) (fun _ _ _ _ h => by cases h) ?_ (fun _ _ _ _ _ _ _ he => he)
    fun con _ _ _ he _ => ⟨con, he⟩
  · rintro - e ⟨entry, hentry⟩
    simp [hentry]
  · intro con e entries he _ _
    exact (e.con_withModel _).trans he

/-- When `getIED` returns `0`, there is a connection. -/
lemma con_of_getIED (a : Answers V F) :
    Triple (fun _ => True) (getIED a) (fun err e => err = 0 → ∃ con, e.con = some con)
      (fun _ _ => True) := by
  refine triple_getIED_of ?_ (fun _ _ _ _ => trivial) ?_ (fun _ _ _ _ _ _ _ h => by cases h)
    (fun _ _ _ => ⟨_, rfl⟩) (fun _ _ _ _ hentry => ⟨_, hentry⟩) (con_of_reconnect a)
  · intro e con model control _ hentry _ _
    exact ⟨con, by simp [Endpoint.con, hentry]⟩
  · intro e con model control entries _ hentry _ _ _
    exact ⟨con, by simp [Endpoint.con, Endpoint.withModel, hentry]⟩

/-- **What registering a report does**: nothing, or it enables a report on the connection in use and
adds it to the reports of the IED. -/
lemma triple_registerForReporting {a : Answers V F} {cbRefs : List String} {key tupl ref : String}
    {P I : Endpoint → Prop} (hI : ∀ e, P e → I e)
    (hnew : ∀ e con d, P e → e.con = some con →
      I ((e.enable con d.rpt a.registerError).addReport d)) :
    Triple P (registerForReporting a cbRefs key tupl ref) (fun _ => I) (orCrash I) := by
  refine Triple.bind (triple_getEntry hI) fun entry => ?_
  refine Triple.bind (triple_liftPy fun e he => hI e he.1) fun found => ?_
  cases found with
  | none => exact fun e he => hI e he.1.1
  | some found =>
    obtain ⟨ld, ln, ds, index⟩ := found
    refine triple_ite (fun _ => fun e he => hI e he.1.1) fun _ => ?_
    refine Triple.bind (triple_liftPy fun e he => hI e he.1.1) fun report => ?_
    cases report with
    | none => exact fun e he => hI e he.1.1.1
    | some rpt =>
      cases hcon : entry.con with
      | none => exact fun _ _ => Or.inl rfl
      | some con =>
        cases hrcb : a.registerRcb with
        | none => exact fun _ _ => Or.inl rfl
        | some rcb =>
          refine triple_ite (fun _ => fun e he => hI e he.1.1.1) fun _ => ?_
          rintro e ⟨⟨⟨he, hentry⟩, -⟩, -⟩
          refine hnew e con ⟨rcb, rpt, (key, tupl, ld, ln, ds)⟩ he ?_
          rw [Endpoint.con, hentry]
          exact hcon

/-- **What a control object is**: the one that is kept, or a new one on the connection in use. -/
lemma triple_getControlObject {a : Answers V F} {path : String} {P I : Endpoint → Prop}
    (hI : ∀ e, P e → I e) :
    Triple P (getControlObject a path) (fun control e' => ∃ e, P e ∧
      ((e' = e ∧ ∃ entry, e.entry = some entry ∧ (path, control) ∈ entry.control) ∨
        (e' = e.addControl path control ∧ e.con = some control.con))) (orCrash I) := by
  refine Triple.bind (triple_getEntry hI) fun entry => ?_
  cases hlookup : entry.control.lookup path with
  | some control =>
    dsimp only
    rintro e ⟨he, hentry⟩
    obtain ⟨l, l', hl, -⟩ := List.lookup_eq_some_iff.mp hlookup
    exact ⟨e, he, Or.inl ⟨rfl, entry, hentry, by simp [hl]⟩⟩
  | none =>
    dsimp only
    cases hcon : entry.con with
    | none => exact fun _ _ => Or.inl rfl
    | some con =>
      cases hmade : a.controlObject with
      | false => exact fun _ _ => Or.inl rfl
      | true =>
        rintro e ⟨he, hentry⟩
        refine ⟨e, he, Or.inr ⟨rfl, ?_⟩⟩
        rw [Endpoint.con, hentry]
        exact hcon

end Rules

namespace EndpointRules

variable {I : Endpoint → Prop} {G G' : ClientCall → Answers V F → String → Endpoint → Prop}
  (h : EndpointRules I G G') (call : ClientCall) (a : Answers V F) {path : String}

include h

/-- What is left of an update: the model is stored, and a lost connection is given up. -/
lemma updates_of (path : String) {P : Endpoint → Prop} {con : ℕ} {model : PyValue} {error : ℤ}
    (hP : ∀ e, P e → (I e ∧ G' call a path e) ∧ e.con = some con ∧ model.truthy ∧
      (error = connectionLost → call.Loses a path)) :
    Triple P (storeUpdate con model error) (fun _ => I) (orCrash I) := by
  intro e he
  obtain ⟨hI, hcon, hmodel, hlost⟩ := hP e he
  exact h.updates call a path con model error hmodel hlost e ⟨hI, hcon⟩

/-- A call goes on only with a connection. -/
lemma keeps_connected {α : Type} {other : α} {use : EndpointM α}
    (huse : Triple (fun e => I e ∧ G' call a path e) use (fun _ => I) (orCrash I)) :
    Triple (fun e => I e ∧ G call a path e)
      (getIED a >>= fun err => if err = 0 then use else pure other) (fun _ => I) (orCrash I) := by
  refine Triple.bind (h.connects call a path) fun err => triple_ite (fun herr => ?_) fun _ => ?_
  · exact huse.conseq (fun e he => ⟨he.1, he.2 herr⟩) fun _ _ he => he
  · exact triple_pure fun e he => he.1

/-- What uses an active connection keeps the invariant if its use of the connection does. -/
lemma keeps_withConnection {α : Type} {other : α} {use : ℕ → PyValue → EndpointM α}
    (huse : ∀ con model, model.truthy →
      Triple (fun e => (I e ∧ G' call a path e) ∧ e.con = some con) (use con model) (fun _ => I)
        (orCrash I)) :
    Triple (fun e => I e ∧ G call a path e) (withConnection a other use) (fun _ => I)
      (orCrash I) := by
  refine h.keeps_connected call a ?_
  refine Triple.bind (triple_getEntry fun e he => he.1) fun entry => ?_
  cases hcon : entry.con with
  | none => exact triple_pure fun e he => he.1.1
  | some con =>
    refine triple_ite (fun hmodel => ?_) fun _ => triple_pure fun e he => he.1.1
    refine (huse con entry.model hmodel).conseq (fun e he => ⟨he.1, ?_⟩) fun _ _ he => he
    rw [Endpoint.con, he.2]
    exact hcon

lemma keeps_readValueAt (ref path : String) :
    Triple (fun e => I e ∧ G (.readValue ref) a path e) (readValueAt a path) (fun _ => I)
      (orCrash I) := by
  refine h.keeps_withConnection (.readValue ref) a fun con model hmodel => ?_
  refine Triple.bind (triple_liftPy fun e he => he.1.1) fun node => ?_
  refine triple_ite (fun _ => ?_) fun _ => triple_pure fun e he => he.1.1.1
  refine Triple.bind (triple_liftPy fun e he => he.1.1.1) fun updated => ?_
  refine Triple.bind (h.updates_of (.readValue ref) a path fun e he => ?_) fun _ => ?_
  · obtain ⟨⟨⟨hI, hcon⟩, -⟩, hupdate⟩ := he
    obtain ⟨htruthy, hlost⟩ := updateValueInModel_eq_ok hupdate
    exact ⟨hI, hcon, htruthy hmodel, hlost⟩
  · refine triple_ite (fun _ => ?_) fun _ => triple_pure fun e he => he
    exact Triple.bind (triple_liftPy fun e he => he) fun _ => fun e he => he.1

lemma keeps_registerWriteValueAt (ref : String) (value : WriteArg) (path : String) :
    Triple (fun e => I e ∧ G (.registerWriteValue ref value) a path e)
      (registerWriteValueAt a path value) (fun _ => I) (orCrash I) := by
  refine h.keeps_withConnection (.registerWriteValue ref value) a fun con model hmodel => ?_
  refine Triple.bind (triple_liftPy fun e he => he.1.1) fun updated => ?_
  refine Triple.bind (h.updates_of (.registerWriteValue ref value) a path fun e he => ?_)
    fun _ => ?_
  · obtain ⟨⟨hI, hcon⟩, hupdate⟩ := he
    obtain ⟨htruthy, hlost⟩ := writeValue_eq_ok hupdate
    exact ⟨hI, hcon, htruthy hmodel, hlost⟩
  · refine triple_ite (fun _ => ?_) fun _ => triple_pure fun e he => he
    exact Triple.bind (triple_liftPy fun e he => he) fun _ => fun e he => he.1

lemma keeps_pollAt (ref path : String) :
    Triple (fun e => I e ∧ G (.pollKey ref) a path e) (pollAt a path) (fun _ => I) (orCrash I) := by
  refine h.keeps_withConnection (.pollKey ref) a fun con model hmodel => ?_
  refine Triple.bind (triple_liftPy fun e he => he.1.1) fun updated => ?_
  refine Triple.bind (h.updates_of (.pollKey ref) a path fun e he => ?_) fun _ => ?_
  · obtain ⟨⟨hI, hcon⟩, hupdate⟩ := he
    obtain ⟨htruthy, hlost⟩ := updateValueInModel_eq_ok hupdate
    exact ⟨hI, hcon, htruthy hmodel, hlost⟩
  · refine triple_ite (fun _ => ?_) fun _ => triple_pure fun e he => he
    exact Triple.bind (triple_liftPy fun e he => he) fun _ => fun e he => he.1

lemma keeps_registerReadValueAt (cbRefs : List String) (key tupl path : String) :
    Triple (fun e => I e ∧ G (.registerReadValue key) a path e)
      (registerReadValueAt a cbRefs key tupl path) (fun _ => I) (orCrash I) := by
  refine h.keeps_connected (.registerReadValue key) a ?_
  refine Triple.bind (triple_getEntry fun e he => he.1) fun entry => ?_
  refine Triple.bind (triple_liftPy fun e he => he.1.1) fun node => ?_
  refine triple_ite (fun _ => ?_) fun _ => triple_pure fun e he => he.1.1.1
  refine Triple.bind (Q := fun _ => I) ?_ fun _ => fun e he => he
  exact (h.reports a cbRefs key tupl path).conseq (fun e he => he.1.1) fun _ _ he => he

lemma keeps_modelAt :
    Triple (fun e => I e ∧ G call a path e) (modelAt a) (fun _ => I) (orCrash I) := by
  refine h.keeps_connected call a ?_
  exact Triple.bind (triple_getEntry fun e he => he.1) fun entry => fun e he => he.1.1

/-- What uses a control object keeps the invariant if its use of the object does. -/
lemma keeps_withControl {α : Type} {other : α} {use : Control → EndpointM α}
    (huse : ∀ control, Triple I (use control) (fun _ => I) (orCrash I)) :
    Triple (fun e => I e ∧ G call a path e) (withControl a path other use) (fun _ => I)
      (orCrash I) := by
  refine h.keeps_connected call a ?_
  exact Triple.bind (h.controls call a path) huse

lemma keeps_operateAt (path : String) (value : WriteArg) :
    Triple (fun e => I e ∧ G call a path e) (operateAt a path value) (fun _ => I) (orCrash I) := by
  refine h.keeps_withControl call a fun _ => ?_
  refine Triple.bind (triple_liftPy fun e he => he) fun _ => ?_
  exact (triple_controlResult a).conseq (fun e he => he.1) fun _ _ he => he

lemma keeps_selectAt (path : String) (value : WriteArg) :
    Triple (fun e => I e ∧ G call a path e) (selectAt a path value) (fun _ => I) (orCrash I) := by
  refine h.keeps_withControl call a fun _ => ?_
  refine triple_ite (fun _ => triple_controlResult a) fun _ => ?_
  refine triple_ite (fun _ => ?_) fun _ => triple_pure fun e he => he
  refine Triple.bind (triple_liftPy fun e he => he) fun _ => ?_
  exact (triple_controlResult a).conseq (fun e he => he.1) fun _ _ he => he

lemma keeps_cancelAt (path : String) :
    Triple (fun e => I e ∧ G call a path e) (cancelAt a path) (fun _ => I) (orCrash I) :=
  h.keeps_withControl call a fun _ _ he => he

end EndpointRules

/-! ## Calls and runs of the client -/

/-- The invariant holds for every IED. -/
def ForAllIeds (I : Endpoint → Prop) (c : Client) : Prop := ∀ tupl, I (c.endpoint tupl)

section Calls

variable {α : Type} {I : Endpoint → Prop} {G : Endpoint → Prop}

/-- Code for one IED leaves the others alone. -/
lemma keeps_onEndpoint {m : EndpointM α}
    (hm : Triple (fun e => I e ∧ G e) m (fun _ => I) (orCrash I)) (tupl : String) :
    Triple (fun c => ForAllIeds I c ∧ G (c.endpoint tupl)) (onEndpoint tupl m)
      (fun _ => ForAllIeds I) (orCrash (ForAllIeds I)) := by
  have hupdate : ∀ (c : Client) e, ForAllIeds I c → I e →
      ForAllIeds I { c with endpoint := Function.update c.endpoint tupl e } := by
    intro c e hc he t
    by_cases ht : t = tupl
    · subst ht
      simpa using he
    · simpa [Function.update_of_ne ht] using hc t
  intro c hc
  have hrun := hm (c.endpoint tupl) ⟨hc.1 tupl, hc.2⟩
  rw [onEndpoint]
  cases hresult : m (c.endpoint tupl) with
  | ok x e =>
    rw [hresult] at hrun
    exact hupdate c e hc.1 hrun
  | error stop e =>
    rw [hresult] at hrun
    exact hrun.imp id (hupdate c e hc.1)

lemma keeps_onTarget {target : Except PyError (Option (String × String))} {other : α}
    {G : String → Endpoint → Prop} {m : String → String → EndpointM α}
    (hm : ∀ tupl path, Triple (fun e => I e ∧ G path e) (m tupl path) (fun _ => I) (orCrash I)) :
    Triple (fun c => ForAllIeds I c ∧ ∀ tupl path, target = .ok (some (tupl, path)) →
        G path (c.endpoint tupl)) (onTarget target other m)
      (fun _ => ForAllIeds I) (orCrash (ForAllIeds I)) := by
  refine Triple.bind (triple_liftPy fun c hc => hc.1) fun found => ?_
  cases found with
  | none => exact fun c hc => hc.1.1
  | some found =>
    obtain ⟨tupl, path⟩ := found
    exact (keeps_onEndpoint (hm tupl path) tupl).conseq
      (fun c hc => ⟨hc.1.1, hc.1.2 tupl path hc.2⟩) fun _ _ hc => hc

end Calls

namespace EndpointRules

variable {I : Endpoint → Prop} {G G' : ClientCall → Answers V F → String → Endpoint → Prop}
  (h : EndpointRules I G G') (urlparse : String → UriRef)

include h

/-- **What a call preserves.** -/
lemma keeps_runCall (i : ClientCall × Answers V F) :
    Triple (fun c => ForAllIeds I c ∧ ClientGuard urlparse G c i) (runCall urlparse i.2 i.1)
      (fun _ => ForAllIeds I) (orCrash (ForAllIeds I)) := by
  obtain ⟨call, a⟩ := i
  cases call with
  | registerReadValue ref =>
    refine Triple.bind (Q := fun _ => ForAllIeds I) ?_ fun _ _ hc => hc
    refine triple_get_bind fun c hc => triple_ite (fun _ => ?_) fun _ => ?_
    · rintro _ rfl
      exact hc.1
    · refine Triple.bind (Q := fun _ => ForAllIeds I) ?_ fun r => ?_
      · refine (keeps_onTarget fun tupl path =>
          h.keeps_registerReadValueAt a c.cbRefs ref tupl path).conseq ?_ fun _ _ hc => hc
        rintro _ rfl
        exact hc
      · exact fun _ hc => hc
  | readValue ref =>
    exact Triple.bind (keeps_onTarget fun _ => h.keeps_readValueAt a ref) fun _ _ hc => hc
  | registerWriteValue ref value =>
    exact Triple.bind (keeps_onTarget fun _ => h.keeps_registerWriteValueAt a ref value)
      fun _ _ hc => hc
  | pollKey key =>
    refine triple_get_bind fun c hc => triple_ite (fun _ => ?_) fun _ => ?_
    · refine (keeps_onTarget fun _ => h.keeps_pollAt a key).conseq ?_ fun _ _ hc => hc
      rintro _ rfl
      exact hc
    · rintro _ rfl
      exact hc.1
  | getDatamodel ref hostname port =>
    refine Triple.bind (Q := fun _ => ForAllIeds I) ?_ fun _ _ hc => hc
    cases ref with
    | none => exact keeps_onTarget fun _ _ => h.keeps_modelAt _ a
    | some ref => exact keeps_onTarget fun _ _ => h.keeps_modelAt _ a
  | operate ref value =>
    exact Triple.bind (keeps_onTarget fun _ path => h.keeps_operateAt _ a path value)
      fun _ _ hc => hc
  | select ref value =>
    exact Triple.bind (keeps_onTarget fun _ path => h.keeps_selectAt _ a path value)
      fun _ _ hc => hc
  | cancel ref =>
    exact Triple.bind (keeps_onTarget fun _ => h.keeps_cancelAt _ a) fun _ _ hc => hc

/-- **What a step of a run preserves.** -/
lemma keeps_clientStep {c c' : Client} {i : ClientCall × Answers V F} (hc : ForAllIeds I c)
    (hguard : ClientGuard urlparse G c i) (hstep : clientStep urlparse c i = .ok c') :
    ForAllIeds I c' := by
  have hrun := h.keeps_runCall urlparse i c ⟨hc, hguard⟩
  rw [clientStep] at hstep
  cases hcall : runCall urlparse i.2 i.1 c with
  | ok x t =>
    rw [hcall] at hrun hstep
    obtain rfl := Except.ok.inj hstep
    exact hrun
  | error stop t =>
    rw [hcall] at hrun hstep
    cases stop with
    | crashed => cases hstep
    | raised e =>
      obtain rfl := Except.ok.inj hstep
      exact hrun.resolve_left (by simp)

/-- **What the parts of the calls preserve holds for every IED**, after every run whose calls meet
the condition. -/
theorem of_exec {is : List (ClientCall × Answers V F)} {c : Client}
    (hguard : ∀ t i t', Run.Performs (clientStep urlparse) Client.initial is t i t' →
      ClientGuard urlparse G t i)
    (hexec : Run.exec (clientStep urlparse) Client.initial is = .ok c) : ForAllIeds I c :=
  Run.exec_invariant_of_guarded (fun _ _ _ hc hg hstep => h.keeps_clientStep urlparse hc hg hstep)
    (fun _ => h.initial) hguard hexec

end EndpointRules

/-! ## Polls -/

section Poll

variable {urlparse : String → UriRef} {answers : String → Answers V F} {c c' : Client}

/-- The program has returned or raised an exception, and left this client. -/
def Leaves (m : ClientM Unit) (c c' : Client) : Prop :=
  m c = .ok () c' ∨ ∃ e, m c = .error (.raised e) c'

/-- A turn of the loop is a step, and the loop goes on from there unless an exception was raised. -/
lemma exec_of_forM {keys : List String}
    (h : Leaves (keys.forM fun key => pollKey urlparse (answers key) key) c c') :
    ∃ turns, turns <+: keys ∧ Run.exec (clientStep urlparse) c
      (turns.map fun key => (ClientCall.pollKey key, answers key)) = .ok c' := by
  induction keys generalizing c with
  | nil =>
    obtain rfl : c = c' := by
      rcases h with h | ⟨e, h⟩
      · exact (EStateM.Result.ok.inj h).2
      · cases h
    exact ⟨[], List.nil_prefix, rfl⟩
  | cons key keys ih =>
    have hrun : ∀ t, clientStep urlparse c (.pollKey key, answers key) = .ok t → ∀ turns,
        Run.exec (clientStep urlparse) t
          (turns.map fun key => (ClientCall.pollKey key, answers key)) = .ok c' →
        Run.exec (clientStep urlparse) c
          ((key :: turns).map fun key => (ClientCall.pollKey key, answers key)) = .ok c' :=
      fun t ht turns hturns => Run.exec_cons_eq_ok.mpr ⟨t, ht, hturns⟩
    rw [List.forM] at h
    simp only [Leaves, bind, EStateM.bind] at h
    cases hkey : pollKey urlparse (answers key) key c with
    | ok x t =>
      rw [hkey] at h
      obtain ⟨turns, hturns, hexec⟩ := ih h
      refine ⟨key :: turns, List.cons_prefix_cons.mpr ⟨rfl, hturns⟩, hrun t ?_ turns hexec⟩
      rw [clientStep, runCall, hkey]
    | error stop t =>
      rw [hkey] at h
      obtain ⟨e, rfl, rfl⟩ : ∃ e, stop = .raised e ∧ t = c' := by simpa using h
      refine ⟨[key], List.cons_prefix_cons.mpr ⟨rfl, List.nil_prefix⟩, hrun t ?_ [] rfl⟩
      rw [clientStep, runCall, hkey]

/-- **A poll is a run of its turns**: as long as the process lives, it leaves the client as a run of
the turns up to the first one that raises an exception. -/
theorem exec_of_poll (h : Leaves (poll urlparse answers) c c') :
    ∃ turns, turns <+: c.polling ∧ Run.exec (clientStep urlparse) c
      (turns.map fun key => (ClientCall.pollKey key, answers key)) = .ok c' :=
  exec_of_forM h

end Poll

/-! ## Two IEDs with one model -/

/-- What is known of an IED after a run and a `getIED` that returns `0`. -/
def afterGetIED (urlparse : String → UriRef) (is : List (ClientCall × Answers V F)) (tupl : String)
    (a : Answers V F) : Option Endpoint :=
  match Run.exec (clientStep urlparse) Client.initial is with
  | .ok c =>
    match getIED a (c.endpoint tupl) with
    | .ok err e => if err = 0 then some e else none
    | .error _ _ => none
  | .error _ => none

lemma afterGetIED_eq_some {urlparse : String → UriRef} {is : List (ClientCall × Answers V F)}
    {tupl : String} {a : Answers V F} {e : Endpoint} (h : afterGetIED urlparse is tupl a = some e) :
    ∃ c, Run.exec (clientStep urlparse) Client.initial is = .ok c ∧
      getIED a (c.endpoint tupl) = .ok 0 e := by
  rw [afterGetIED] at h
  cases hexec : Run.exec (clientStep urlparse) Client.initial is with
  | error stop => simp [hexec] at h
  | ok c =>
    refine ⟨c, rfl, ?_⟩
    cases hreturn : getIED a (c.endpoint tupl) with
    | error stop e => simp [hexec, hreturn] at h
    | ok err e' =>
      obtain ⟨rfl, rfl⟩ : err = 0 ∧ e' = e := by simpa [hexec, hreturn] using h
      rfl

/-- The node of a data attribute. -/
def attributeNode (fc value : String) : PyValue :=
  .dict [("reftype", .str "DA"), ("type", .str "visible-string"), ("value", .str value),
    ("FC", .str fc)]

/-- A model with one value, a data set that the value is in, and a report for the data set. -/
def reportModel (rpt : String) : List (String × PyValue) :=
  [("D", .dict [("L", .dict [
    ("X", .dict [("v", attributeNode "ST" "")]),
    ("S", .dict [("0", .dict [("reftype", .str "DX"), ("type", .str "reference"),
      ("value", .str "D/L.X"), ("FC", .str "ST")])]),
    (rpt, .dict [("DatSet", attributeNode "RP" "D/L$S")])])])]

@[inherit_doc reportModel]
def oneReportModel : List (String × PyValue) := reportModel "R"

/-- The library and the IED do what they are asked for. -/
def answering : Answers PlainValue Unit where
  connect := 0
  discovery := .ok oneReportModel
  reenableRcb _ := some 0
  reenableError _ := 0
  registerRcb := some 0
  registerError := 0
  readObject _ _ := (0, .integer 1)
  dataDirectory _ := .nil
  writeObject _ _ _ := 0
  lib := plainLibrary
  controlObject := true
  ctlValType := 2
  ctlModel := 1
  controlError := 1
  addCause := 0

/-- The connection is lost. -/
def losing : Answers PlainValue Unit :=
  { answering with readObject := fun _ _ => (connectionLost, .boolean false) }

/-- The value of the model, on the host `a` and on the host `b`. -/
def refA : String := "iec61850://a/D/L.X.v"

@[inherit_doc refA]
def refB : String := "iec61850://b/D/L.X.v"

/-- What `urlparse` makes of the two references. -/
def parseHosts (ref : String) : UriRef :=
  ⟨"iec61850", some (if ref = refA then "a" else "b"), .ok none, "/D/L.X.v"⟩

end Tmee
