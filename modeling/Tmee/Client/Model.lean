import Mathlib.Data.List.Infix

set_option relaxedAutoImplicit false
set_option autoImplicit false

/-!
# Data models of IEDs

The client keeps the data model of an IED as nested dictionaries with strings at the leaves. This
file has the values of Python that occur in it, the operations on them with the exceptions they
raise, and the functions of the client that work on a model alone. A dictionary keeps its keys in
the order in which they were added.

## Main definitions

* `Tmee.PyError`, `Tmee.PyValue` — exceptions and values.
* `Tmee.PyValue.contains`, `Tmee.PyValue.getItem`, `Tmee.PyValue.setItem`, `Tmee.PyValue.keys` —
  `in`, subscripts and iteration.
* `Tmee.parseRef` — the node of a reference.
* `Tmee.findDataset`, `Tmee.findReport` — the search of `registerForReporting`.

## Main results

* `Tmee.PyValue.truthy_setItem` — an assignment to a subscript leaves something behind.
-/

namespace Tmee

/-- The exceptions of Python that the client can run into. -/
inductive PyError
  | attributeError | keyError | nameError | typeError | valueError
  deriving DecidableEq, Repr

/-- A value in a data model. -/
inductive PyValue
  | str (s : String)
  /-- The entries, in the order in which their keys were added. -/
  | dict (entries : List (String × PyValue))

namespace PyValue

/-- The value as a condition: empty strings and dictionaries are false. -/
def truthy : PyValue → Bool
  | str s => !s.isEmpty
  | dict entries => !entries.isEmpty

/-- `key in value`: on a string, whether the key is a part of it. -/
def contains (value : PyValue) (key : String) : Bool :=
  match value with
  | str s => decide (key.toList <:+: s.toList)
  | dict entries => (entries.lookup key).isSome

/-- `value[key]`. -/
def getItem (value : PyValue) (key : String) : Except PyError PyValue :=
  match value with
  | str _ => .error .typeError
  | dict entries =>
    match entries.lookup key with
    | some v => .ok v
    | none => .error .keyError

/-- Replace the value of a key, or add it as the last one. -/
def insertEntry (key : String) (v : PyValue) : List (String × PyValue) → List (String × PyValue)
  | [] => [(key, v)]
  | (k, w) :: entries => if k = key then (k, v) :: entries else (k, w) :: insertEntry key v entries

/-- `value[key] = v`. -/
def setItem (value : PyValue) (key : String) (v : PyValue) : Except PyError PyValue :=
  match value with
  | str _ => .error .typeError
  | dict entries => .ok (dict (insertEntry key v entries))

/-- What `for key in value` runs over: the characters of a string, the keys of a dictionary. -/
def keys : PyValue → List String
  | str s => s.toList.map fun c => String.ofList [c]
  | dict entries => entries.map Prod.fst

/-- `value == s`. -/
def isStr (value : PyValue) (s : String) : Bool :=
  match value with
  | str t => t = s
  | dict _ => false

/-- The value as an operand of `+`, or as the argument of `startswith`. -/
def asStr : PyValue → Except PyError String
  | str s => .ok s
  | dict _ => .error .typeError

lemma asStr_eq_ok {value : PyValue} {s : String} : value.asStr = .ok s ↔ value = .str s := by
  cases value <;> simp [asStr]

lemma insertEntry_ne_nil (key : String) (v : PyValue) (entries : List (String × PyValue)) :
    insertEntry key v entries ≠ [] := by
  cases entries with
  | nil => simp [insertEntry]
  | cons entry entries =>
    rw [insertEntry]
    split_ifs <;> simp

/-- **An assignment to a subscript leaves something behind.** -/
lemma truthy_setItem {value value' : PyValue} {key : String} {v : PyValue}
    (h : value.setItem key v = .ok value') : value'.truthy = true := by
  cases value with
  | str s => cases h
  | dict entries =>
    obtain rfl := Except.ok.inj h
    simp [truthy, insertEntry_ne_nil]

end PyValue

/-- `s.split(sep)`. -/
def splitStr (sep : Char) (s : String) : List String := (s.toList.splitOn sep).map String.ofList

/-- The names after the logical device. -/
def parseNames : PyValue → List String → List String → Except PyError (PyValue × List String)
  | mm, [], path => .ok (mm, path)
  | mm, name :: names, path =>
    if mm.contains name then do
      let mm ← mm.getItem name
      parseNames mm names (path ++ [name])
    else .ok (.dict [], [])

/-- The node that a reference `LD/LN.DO.DA` stands for, and the path to it; nothing if there is
none. -/
def parseRef (model : PyValue) (ref : String) : Except PyError (PyValue × List String) :=
  if ref = "" then .ok (model, [])
  else
    match splitStr '/' ref with
    | [_] =>
      if model.contains ref then do
        let mm ← model.getItem ref
        .ok (mm, [ref])
      else .ok (.dict [], [])
    | [ld, names] =>
      if model.contains ld then do
        let mm ← model.getItem ld
        parseNames mm (splitStr '.' names) [ld]
      else .ok (.dict [], [])
    | _ => .ok (.dict [], [])

/-! ## The search for a report -/

/-- A data set of a model is a node whose member `0` is a reference. -/
def isDataset (node : PyValue) : Except PyError Bool :=
  if node.contains "0" then do
    let member ← node.getItem "0"
    if member.contains "reftype" then do
      let reftype ← member.getItem "reftype"
      .ok (reftype.isStr "DX")
    else .ok false
  else .ok false

/-- The first member of a data set that the reference starts with. -/
def findMember (ref : String) (dataset : PyValue) : Except PyError (Option String) :=
  dataset.keys.findSomeM? fun index => do
    let member ← dataset.getItem index
    let value ← member.getItem "value"
    let value ← value.asStr
    .ok (if value.toList <+: ref.toList then some index else none)

/-- The logical device, the logical node and the name of the first data set that has a member the
reference starts with, and the member. -/
def findDataset (model : PyValue) (ref : String) :
    Except PyError (Option (String × String × String × String)) :=
  model.keys.findSomeM? fun ld => do
    let device ← model.getItem ld
    device.keys.findSomeM? fun ln => do
      let node ← device.getItem ln
      node.keys.findSomeM? fun ds => do
        let dataset ← node.getItem ds
        if ← isDataset dataset then do
          let index ← findMember ref dataset
          .ok (index.map fun index => (ld, ln, ds, index))
        else .ok none

/-- The first report of the logical node for the data set, as the reference of its control block. -/
def findReport (model : PyValue) (ld ln ds : String) : Except PyError (Option String) := do
  let device ← model.getItem ld
  let node ← device.getItem ln
  node.keys.findSomeM? fun rp => do
    let report ← node.getItem rp
    if report.contains "DatSet" then do
      let datSet ← report.getItem "DatSet"
      let value ← datSet.getItem "value"
      if value.isStr (ld ++ "/" ++ ln ++ "$" ++ ds) then do
        let fc ← datSet.getItem "FC"
        let fc ← fc.asStr
        .ok (some (ld ++ "/" ++ ln ++ "." ++ fc ++ "." ++ rp))
      else .ok none
    else .ok none

end Tmee
