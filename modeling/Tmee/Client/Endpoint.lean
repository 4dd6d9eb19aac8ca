import Tmee.Client.Discovery
import Tmee.Client.Values
import Tmee.Lib.Fallible
import Tmee.Lib.Hoare

set_option relaxedAutoImplicit false
set_option autoImplicit false

/-!
# One IED in the client

The part of the client `libiec61850client.py` that works for one IED, that is for one key
`host:port` of the dictionaries `connections` and `reporting`. Connection objects are numbered in
the order of their creation. What a call gets from the library, and from the IED behind it, is a
parameter of the call: the values that are read go through `printValue`, those that are written
through `getMMsValue`, and directories through `printDataDirectory`. Of the library this file
records what was done to each connection object.

The dictionaries of a model are shared, so that `updateValueInModel` and `writeValue` change the
model in `connections` also when they return an error: both return the model after the call.

## Main definitions

* `Tmee.Endpoint` — the state of the client for one IED.
* `Tmee.Answers` — what a call gets from the library.
* `Tmee.getIED`, `Tmee.registerForReporting`, `Tmee.getControlObject` — the functions of the client.
* `Tmee.registerReadValueAt`, `Tmee.readValueAt`, `Tmee.registerWriteValueAt`, `Tmee.pollAt`,
  `Tmee.operateAt`, `Tmee.selectAt`, `Tmee.cancelAt` — the calls, when the IED is known.

## Main results

* `Tmee.updateValueInModel_eq_ok`, `Tmee.writeValue_eq_ok` — a model stays a model, and when the
  connection is lost.
-/

namespace Tmee

/-! ## The state -/

/-- What ends a call without a return. -/
inductive Stop
  | raised (e : PyError)
  /-- The library was given a null pointer, and the process is gone. -/
  | crashed
  deriving DecidableEq, Repr

/-- A control object of the library, made on a connection. -/
structure Control where
  con : ℕ
  deriving DecidableEq, Repr

/-- What `registerForReporting` keeps to enable a report again. -/
structure RcbData where
  rcb : ℕ
  rpt : String
  /-- The key, the IED, and the logical device, logical node and name of the data set. -/
  refdata : String × String × String × String × String

/-- `connections[tupl]`. -/
structure Entry where
  con : Option ℕ
  model : PyValue
  control : List (String × Control)

/-- The client and the library, as far as they are about one IED. -/
structure Endpoint where
  /-- `connections[tupl]`, if it exists. -/
  entry : Option Entry
  /-- `reporting[tupl]`; empty if it does not exist. -/
  reporting : List RcbData
  /-- The number of connection objects created. -/
  created : ℕ
  /-- The connection objects that were passed to `IedConnection_destroy`. -/
  destroyed : List ℕ
  /-- The connection objects and reports for which a handler was installed. -/
  handlers : List (ℕ × String)
  /-- The connection objects and reports for which `RptEna` was set and written. -/
  enabled : List (ℕ × String)

/-- Nothing is known of the IED. -/
def Endpoint.initial : Endpoint := ⟨none, [], 0, [], [], []⟩

/-- The connection object in use. -/
def Endpoint.con (e : Endpoint) : Option ℕ := e.entry.bind Entry.con

namespace Endpoint

variable (e : Endpoint)

/-- `connections[tupl]['con'] = con`. -/
def withCon (con : Option ℕ) : Endpoint :=
  { e with entry := e.entry.map fun entry => { entry with con := con } }

/-- `connections[tupl]['model'] = model`. -/
def withModel (model : PyValue) : Endpoint :=
  { e with entry := e.entry.map fun entry => { entry with model := model } }

/-- A control object is added to `connections[tupl]['control']`. -/
def addControl (path : String) (control : Control) : Endpoint :=
  { e with entry := e.entry.map fun entry =>
      { entry with control := entry.control ++ [(path, control)] } }

/-- A report is added to `reporting[tupl]`. -/
def addReport (d : RcbData) : Endpoint := { e with reporting := e.reporting ++ [d] }

/-- `IedConnection_destroy`. -/
def destroy (con : ℕ) : Endpoint := { e with destroyed := con :: e.destroyed }

/-- `IedConnection_installReportHandler`, then `RptEna` is set in the control block, and the block
is written with this error. -/
def enable (con : ℕ) (rpt : String) (error : ℤ) : Endpoint :=
  { e with
    handlers := (con, rpt) :: e.handlers
    enabled := if error = 0 then (con, rpt) :: e.enabled else e.enabled }

@[simp] lemma con_withCon (con : Option ℕ) : (e.withCon con).con = e.entry.bind fun _ => con := by
  cases h : e.entry <;> simp [Endpoint.con, withCon, h]

@[simp] lemma con_withModel (model : PyValue) : (e.withModel model).con = e.con := by
  cases h : e.entry <;> simp [Endpoint.con, withModel, h]

@[simp] lemma con_addControl (path : String) (control : Control) :
    (e.addControl path control).con = e.con := by
  cases h : e.entry <;> simp [Endpoint.con, addControl, h]

@[simp] lemma con_destroy (con : ℕ) : (e.destroy con).con = e.con := rfl

end Endpoint

/-- What one call gets from the library, with its types of values and of floating-point numbers. -/
structure Answers (V F : Type) where
  /-- The error of `IedConnection_connect`. -/
  connect : ℤ
  /-- What `discovery` returns. -/
  discovery : Except PyError (List (String × PyValue))
  /-- The control block that `getIED` reads for a report; none is a null pointer. -/
  reenableRcb : String → Option ℕ
  /-- The error of writing it. -/
  reenableError : String → ℤ
  /-- The control block that `registerForReporting` reads. -/
  registerRcb : Option ℕ
  /-- The error of writing it. -/
  registerError : ℤ
  /-- The error of `IedConnection_readObject` for a reference and a functional constraint, and the
  value that was read. -/
  readObject : String → String → ℤ × V
  /-- What `printDataDirectory` gets for a reference. -/
  dataDirectory : String → Directory
  /-- The error of `IedConnection_writeObject`. -/
  writeObject : String → String → V → ℤ
  /-- The functions on values. -/
  lib : MmsLibrary V F
  /-- Whether `ControlObjectClient_create` makes an object. -/
  controlObject : Bool
  /-- The type of the values of the object, by its number. -/
  ctlValType : ℤ
  /-- The control model of the object. -/
  ctlModel : ℤ
  /-- What the operation on the control object returns. -/
  controlError : ℤ
  /-- The cause that `ControlObjectClient_getLastApplError` gives. -/
  addCause : ℤ

variable {V F : Type}

/-- `IED_ERROR_CONNECTION_LOST`. -/
def connectionLost : ℤ := 3

/-- Code that works for one IED. -/
abbrev EndpointM := EStateM Stop Endpoint

/-- Raise the exceptions of a function that has no effect. -/
def liftPy {σ α : Type} : Except PyError α → EStateM Stop σ α
  | .ok x => pure x
  | .error e => throw (.raised e)

/-- `connections[tupl]`. -/
def getEntry : EndpointM Entry := do
  match (← get).entry with
  | some entry => return entry
  | none => throw (.raised .keyError)

lemma getEntry_of_some {e : Endpoint} {entry : Entry} (h : e.entry = some entry) :
    getEntry e = .ok entry e := by
  rw [getEntry, Hoare.get_bind_apply, h]
  rfl

lemma getEntry_of_none {e : Endpoint} (h : e.entry = none) :
    getEntry e = .error (.raised .keyError) e := by
  rw [getEntry, Hoare.get_bind_apply, h]
  rfl

/-- `IedConnection_create`. -/
def connectionCreate : EndpointM ℕ :=
  modifyGet fun e => (e.created, { e with created := e.created + 1 })

/-! ## Connections -/

/-- What `discovery` returns, as a model. -/
def discovery (a : Answers V F) : EndpointM PyValue := do
  return .dict (← liftPy a.discovery)

/-- Enable the reports again on a new connection. A control block that cannot be read is a null
pointer, and the next call takes its name. -/
def reenable (a : Answers V F) (con : ℕ) : List RcbData → EndpointM (List RcbData)
  | [] => return []
  | refdata :: rest => do
    match a.reenableRcb refdata.rpt with
    | none => throw .crashed
    | some rcb =>
      modify fun e => e.enable con refdata.rpt (a.reenableError refdata.rpt)
      let rest ← reenable a con rest
      return { refdata with rcb := rcb } :: rest

/-- The part of `getIED` that makes a new connection. -/
def reconnect (a : Answers V F) : EndpointM ℤ := do
  let con ← connectionCreate
  if a.connect = 0 then
    modify fun e => e.withCon (some con)
    let model ← discovery a
    if model.truthy then
      modify fun e => e.withModel model
      let reporting ← reenable a con (← get).reporting
      modify fun e => { e with reporting := reporting }
      return 0
    else return -1
  else
    modify fun e => e.destroy con
    return -1

/-- An active connection and a model, in `connections[tupl]`. -/
def getIED (a : Answers V F) : EndpointM ℤ := do
  match (← get).entry with
  | some ⟨some con, model, _⟩ =>
    if model.truthy then return 0
    else
      let model ← discovery a
      if model.truthy then
        modify fun e => e.withModel model
        return 0
      else
        modify fun e => e.destroy con
        modify fun e => e.withCon none
        return -1
  | some _ => reconnect a
  | none =>
    modify fun e => { e with entry := some ⟨none, .dict [], []⟩ }
    reconnect a

/-! ## Reading and writing -/

/-- A node with the type `DA`. -/
def isDataAttribute (node : PyValue) : Except PyError Bool :=
  if node.truthy && node.contains "reftype" then do
    let reftype ← node.getItem "reftype"
    .ok (reftype.isStr "DA")
  else .ok false

/-- What `printDataDirectory` returns for a reference. -/
def directoryAt (a : Answers V F) (ref : String) : Except PyError (List (String × PyValue)) :=
  (printDataDirectory ref (a.dataDirectory ref)).mapError Raised.error

/-- The recursion of `updateValueInModel` along a path. -/
def updateRecurse (a : Answers V F) (ref : String) :
    PyValue → List String → Except PyError (PyValue × ℤ)
  | submodel, [] => .ok (submodel, -1)
  | submodel, [name] => do
    let node ← submodel.getItem name
    if ← isDataAttribute node then do
      let fc ← node.getItem "FC"
      let fc ← fc.asStr
      let read := a.readObject ref fc
      if read.1 = 0 then do
        let printed ← printValue a.lib read.2
        let node ← node.setItem "value" (.str printed.1)
        let node ← node.setItem "type" (.str printed.2)
        let submodel ← submodel.setItem name node
        .ok (submodel, 0)
      else .ok (submodel, read.1)
    else do
      let directory ← directoryAt a ref
      let submodel ← submodel.setItem name (.dict directory)
      .ok (submodel, if directory.isEmpty then -1 else 0)
  | submodel, name :: path => do
    let node ← submodel.getItem name
    let (node, err) ← updateRecurse a ref node path
    let submodel ← submodel.setItem name node
    .ok (submodel, err)

/-- Read the value of a reference into the model: the model after the call, and the error. -/
def updateValueInModel (a : Answers V F) (model : PyValue) (ref : String) :
    Except PyError (PyValue × ℤ) := do
  let (_, path) ← parseRef model ref
  updateRecurse a ref model path

/-- A type as `getMMsValue` compares it; what is no text is the name of no type. -/
def typeName : PyValue → String
  | .str s => s
  | .dict _ => ""

/-- Write the value of a reference, and read it into the model. -/
def writeValue (a : Answers V F) (model : PyValue) (ref : String) (value : WriteArg) :
    Except PyError (PyValue × ℤ) := do
  let (submodel, _) ← parseRef model ref
  if submodel.truthy && submodel.contains "FC" then do
    let fc ← submodel.getItem "FC"
    let fc ← fc.asStr
    let type ← submodel.getItem "type"
    match ← getMMsValue a.lib (typeName type) value 8 (-1) with
    | none => .ok (model, -1)
    | some mmsvalue =>
      let error := a.writeObject ref fc mmsvalue
      if error = 0 then updateValueInModel a model ref else .ok (model, error)
  else .ok (model, -1)

/-- What the callers of these do with the model and the error: a lost connection is given up. -/
def storeUpdate (con : ℕ) (model : PyValue) (error : ℤ) : EndpointM Unit := do
  modify fun e => e.withModel model
  if error = connectionLost then
    modify fun e => e.destroy con
    modify fun e => e.withCon none

/-- The start that reading and writing share: an active connection and a model. -/
def withConnection {α : Type} (a : Answers V F) (other : α) (use : ℕ → PyValue → EndpointM α) :
    EndpointM α := do
  let err ← getIED a
  if err = 0 then
    let entry ← getEntry
    match entry.con with
    | none => return other
    | some con => if entry.model.truthy then use con entry.model else return other
  else return other

/-- `ReadValue`. -/
def readValueAt (a : Answers V F) (path : String) : EndpointM (PyValue × ℤ) :=
  withConnection a (.dict [], -1) fun con model => do
    let (submodel, _) ← liftPy (parseRef model path)
    if submodel.truthy then
      let (model, error) ← liftPy (updateValueInModel a model path)
      storeUpdate con model error
      if error = 0 then
        let (submodel, _) ← liftPy (parseRef model path)
        return (submodel, 0)
      else return (.dict [], -1)
    else return (.dict [], -1)

/-- `registerWriteValue`. -/
def registerWriteValueAt (a : Answers V F) (path : String) (value : WriteArg) : EndpointM ℤ :=
  withConnection a (-1) fun con model => do
    let (model, error) ← liftPy (writeValue a model path value)
    storeUpdate con model error
    if error = 0 then
      let _ ← liftPy (parseRef model path)
      return 0
    else return error

/-- `poll`, for one key. -/
def pollAt (a : Answers V F) (path : String) : EndpointM Unit :=
  withConnection a () fun con model => do
    let (model, error) ← liftPy (updateValueInModel a model path)
    storeUpdate con model error
    if error = 0 then
      let _ ← liftPy (parseRef model path)
      return
    else return

/-- `getDatamodel`. -/
def modelAt (a : Answers V F) : EndpointM PyValue := do
  let err ← getIED a
  if err = 0 then
    let entry ← getEntry
    return entry.model
  else return .dict []

/-! ## Reports -/

/-- Install and enable the report for a reference, unless it is in `cb_refs`: whether there is one,
and what is added to `cb_refs`. -/
def registerForReporting (a : Answers V F) (cbRefs : List String) (key tupl ref : String) :
    EndpointM (Bool × Option String) := do
  let entry ← getEntry
  match ← liftPy (findDataset entry.model ref) with
  | none => return (false, none)
  | some (ld, ln, ds, index) =>
    if index = "" then return (false, none)
    else
      match ← liftPy (findReport entry.model ld ln ds) with
      | none => return (false, none)
      | some rpt =>
        match entry.con, a.registerRcb with
        | some con, some rcb =>
          if rpt ∈ cbRefs then return (true, none)
          else
            modify fun e => e.enable con rpt a.registerError
            modify fun e => e.addReport ⟨rcb, rpt, (key, tupl, ld, ln, ds)⟩
            return (true, some rpt)
        | _, _ => throw .crashed

/-- What `registerReadValue` returns, whether it adds the reference to `polling`, and what is added
to `cb_refs`. -/
structure Registered where
  result : ℤ
  poll : Bool
  cbRef : Option String
  deriving DecidableEq, Repr

/-- `registerReadValue`, for a reference that is not in `polling`. -/
def registerReadValueAt (a : Answers V F) (cbRefs : List String) (key tupl path : String) :
    EndpointM Registered := do
  let err ← getIED a
  if err = 0 then
    let entry ← getEntry
    let (submodel, _) ← liftPy (parseRef entry.model path)
    if submodel.truthy then
      let (rpt, cbRef) ← registerForReporting a cbRefs key tupl path
      return ⟨0, !rpt, cbRef⟩
    else return ⟨-1, false, none⟩
  else return ⟨-1, false, none⟩

/-! ## Controls -/

/-- The control object of a reference, made at its first use. -/
def getControlObject (a : Answers V F) (path : String) : EndpointM Control := do
  let entry ← getEntry
  match entry.control.lookup path with
  | some control => return control
  | none =>
    match entry.con, a.controlObject with
    | some con, true =>
      let control : Control := ⟨con⟩
      modify fun e => e.addControl path control
      return control
    | _, _ => throw .crashed

/-- The cause that a control operation reports. -/
inductive AddCause
  | empty
  /-- The name of a value of the enumeration. -/
  | name (n : ℤ)
  | cannotSelect (ctlModel : ℤ)
  deriving DecidableEq, Repr

/-- `AddCause(n).name`, for the values from `0` to `27`. -/
def addCauseName (n : ℤ) : Except PyError AddCause :=
  if 0 ≤ n ∧ n ≤ 27 then .ok (.name n) else .error .valueError

/-- What an operation on a control object returns. -/
def controlResult (a : Answers V F) : EndpointM (ℤ × AddCause) :=
  if a.controlError = 1 then return (a.controlError, .empty)
  else do
    let addCause ← liftPy (addCauseName a.addCause)
    return (a.controlError, addCause)

/-- The start that the control operations share: an active connection and the control object. -/
def withControl {α : Type} (a : Answers V F) (path : String) (other : α)
    (use : Control → EndpointM α) : EndpointM α := do
  let err ← getIED a
  if err = 0 then
    let control ← getControlObject a path
    use control
  else return other

/-- `operate`. -/
def operateAt (a : Answers V F) (path : String) (value : WriteArg) : EndpointM (ℤ × AddCause) :=
  withControl a path (-1, .empty) fun _ => do
    let _ ← liftPy (getMMsValue a.lib "" value 0 a.ctlValType)
    controlResult a

/-- `select`, by the control model `SBO_NORMAL` or `SBO_ENHANCED`. -/
def selectAt (a : Answers V F) (path : String) (value : WriteArg) : EndpointM (ℤ × AddCause) :=
  withControl a path (-1, .empty) fun _ => do
    if a.ctlModel = 2 then controlResult a
    else if a.ctlModel = 4 then
      let _ ← liftPy (getMMsValue a.lib "" value 0 a.ctlValType)
      controlResult a
    else return (-1, .cannotSelect a.ctlModel)

/-- `cancel`. -/
def cancelAt (a : Answers V F) (path : String) : EndpointM ℤ :=
  withControl a path (-1) fun _ => return a.controlError

/-! ## What an update leaves -/

section Update

variable {a : Answers V F} {model model' : PyValue} {ref : String} {error : ℤ}

/-- The model does not become empty, and the error of a lost connection comes from the library. -/
lemma updateRecurse_eq_ok {path : List String}
    (h : updateRecurse a ref model path = .ok (model', error)) :
    (model.truthy → model'.truthy) ∧
      (error = connectionLost → ∃ fc, (a.readObject ref fc).1 = connectionLost) := by
  induction path generalizing model model' error with
  | nil =>
    obtain ⟨rfl, rfl⟩ : model = model' ∧ -1 = error := by simpa [updateRecurse] using h
    exact ⟨id, by simp [connectionLost]⟩
  | cons name path ih =>
    cases path with
    | nil =>
      obtain ⟨node, -, h⟩ := Fallible.bind_eq_ok.mp h
      obtain ⟨isDa, -, h⟩ := Fallible.bind_eq_ok.mp h
      by_cases hda : isDa = true
      · rw [if_pos hda] at h
        obtain ⟨_, -, h⟩ := Fallible.bind_eq_ok.mp h
        obtain ⟨fc, -, h⟩ := Fallible.bind_eq_ok.mp h
        dsimp only at h
        by_cases herror : (a.readObject ref fc).1 = 0
        · rw [if_pos herror] at h
          obtain ⟨printed, -, h⟩ := Fallible.bind_eq_ok.mp h
          obtain ⟨node₁, -, h⟩ := Fallible.bind_eq_ok.mp h
          obtain ⟨node₂, -, h⟩ := Fallible.bind_eq_ok.mp h
          obtain ⟨submodel, hset, h⟩ := Fallible.bind_eq_ok.mp h
          obtain ⟨rfl, rfl⟩ : submodel = model' ∧ 0 = error := by simpa using h
          exact ⟨fun _ => PyValue.truthy_setItem hset, by simp [connectionLost]⟩
        · rw [if_neg herror] at h
          obtain ⟨rfl, rfl⟩ : model = model' ∧ (a.readObject ref fc).1 = error := by
            simpa using h
          exact ⟨id, fun hlost => ⟨fc, hlost⟩⟩
      · rw [if_neg hda] at h
        obtain ⟨directory, -, h⟩ := Fallible.bind_eq_ok.mp h
        obtain ⟨submodel, hset, h⟩ := Fallible.bind_eq_ok.mp h
        obtain ⟨rfl, rfl⟩ : submodel = model' ∧ (if directory.isEmpty then -1 else 0) = error := by
          simpa using h
        refine ⟨fun _ => PyValue.truthy_setItem hset, fun hlost => ?_⟩
        split_ifs at hlost <;> simp [connectionLost] at hlost
    | cons name' path =>
      obtain ⟨node, -, h⟩ := Fallible.bind_eq_ok.mp h
      obtain ⟨⟨node', err⟩, hrec, h⟩ := Fallible.bind_eq_ok.mp h
      obtain ⟨submodel, hset, h⟩ := Fallible.bind_eq_ok.mp h
      obtain ⟨rfl, rfl⟩ : submodel = model' ∧ err = error := by simpa using h
      exact ⟨fun _ => PyValue.truthy_setItem hset, (ih hrec).2⟩

/-- **What an update leaves**: a model that is not empty stays so, and the connection is lost only
if the read says so. -/
lemma updateValueInModel_eq_ok (h : updateValueInModel a model ref = .ok (model', error)) :
    (model.truthy → model'.truthy) ∧
      (error = connectionLost → ∃ fc, (a.readObject ref fc).1 = connectionLost) := by
  obtain ⟨⟨_, path⟩, -, h⟩ := Fallible.bind_eq_ok.mp h
  exact updateRecurse_eq_ok h

/-- So does a write. -/
lemma writeValue_eq_ok {value : WriteArg}
    (h : writeValue a model ref value = .ok (model', error)) :
    (model.truthy → model'.truthy) ∧ (error = connectionLost →
      (∃ fc, (a.readObject ref fc).1 = connectionLost) ∨
        ∃ fc v, a.writeObject ref fc v = connectionLost) := by
  obtain ⟨⟨submodel, _⟩, -, h⟩ := Fallible.bind_eq_ok.mp h
  dsimp only at h
  by_cases hfc : (submodel.truthy && submodel.contains "FC") = true
  · rw [if_pos hfc] at h
    obtain ⟨_, -, h⟩ := Fallible.bind_eq_ok.mp h
    obtain ⟨fc, -, h⟩ := Fallible.bind_eq_ok.mp h
    obtain ⟨type, -, h⟩ := Fallible.bind_eq_ok.mp h
    obtain ⟨made, -, h⟩ := Fallible.bind_eq_ok.mp h
    cases made with
    | none =>
      obtain ⟨rfl, rfl⟩ : model = model' ∧ -1 = error := by simpa using h
      exact ⟨id, by simp [connectionLost]⟩
    | some mmsvalue =>
      dsimp only at h
      split_ifs at h
      · obtain ⟨htruthy, hlost⟩ := updateValueInModel_eq_ok h
        exact ⟨htruthy, fun herror => Or.inl (hlost herror)⟩
      · obtain ⟨rfl, rfl⟩ : model = model' ∧ a.writeObject ref fc mmsvalue = error := by
          simpa using h
        exact ⟨id, fun hlost => Or.inr ⟨fc, mmsvalue, hlost⟩⟩
  · rw [if_neg hfc] at h
    obtain ⟨rfl, rfl⟩ : model = model' ∧ -1 = error := by simpa using h
    exact ⟨id, by simp [connectionLost]⟩

end Update

end Tmee
