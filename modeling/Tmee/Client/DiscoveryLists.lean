import Tmee.Client.Discovery
import Tmee.Lib.Handles

set_option relaxedAutoImplicit false
set_option autoImplicit false

/-!
# Discovery and its lists

Every directory that `discovery` asks for comes as a linked list of the library, which has to be
destroyed. A request that fails gives no list and ends `discovery`, with up to three lists live.
Every exit destroys the lists that are live there, also the two that raise an exception. An
exception of `printValue` does not: it leaves all lists behind that are live.

## Main definitions

* `Tmee.AttributeList`, `Tmee.LnAnswers`, `Tmee.ServerAnswers` — what the library answers, and where
  it gives no list.
* `Tmee.Lists.printDataDirectory`, `Tmee.Lists.discovery` — the functions of the client with their
  lists.

## Main results

* `Tmee.Lists.runs_discovery` — `discovery` destroys every list exactly once, unless `printValue`
  raises an exception, and its result is the one without the lists.
-/

namespace Tmee

open Handles PyValue

/-! ## What the library answers -/

/-- A list of data attributes: the name of the next one, what there is below it, and what comes of
reading it. -/
inductive AttributeList
  | nil
  /-- There is no list for the directory of the attribute. -/
  | bare (daName : String) (read : Reading) (rest : AttributeList)
  | listed (daName : String) (below : AttributeList) (read : Reading) (rest : AttributeList)
  deriving DecidableEq

/-- What `discovery` gets for a logical node; none is an error, and no list. -/
structure LnAnswers where
  dataObjects : Option (List (String × Option AttributeList))
  dataSets : Option (List (String × Option (List String)))
  urcbs : Option (List (String × Option AttributeList))
  brcbs : Option (List (String × Option AttributeList))
  deriving DecidableEq

/-- What `discovery` gets from an IED. -/
structure ServerAnswers where
  devices : Option (List (String × Option (List (String × LnAnswers))))
  deriving DecidableEq

/-- The answers for a directory, without the lists. -/
def AttributeList.toDirectory : AttributeList → Directory
  | nil => .nil
  | bare daName read rest => .cons daName .nil read rest.toDirectory
  | listed daName below read rest => .cons daName below.toDirectory read rest.toDirectory

/-- A directory for which there is no list is empty. -/
def directoryOf : Option AttributeList → Directory
  | none => .nil
  | some attributes => attributes.toDirectory

/-- The answers for a logical node, without the lists. -/
def LnAnswers.toNode (n : LnAnswers) : NodeAnswers where
  dataObjects := n.dataObjects.map (List.map (Prod.map id directoryOf))
  dataSets := n.dataSets
  urcbs := n.urcbs.map (List.map (Prod.map id directoryOf))
  brcbs := n.brcbs.map (List.map (Prod.map id directoryOf))

/-- The answers for a device, without the lists. -/
def toDevice (device : String × Option (List (String × LnAnswers))) :
    String × Option (List (String × NodeAnswers)) :=
  (device.1, device.2.map (List.map (Prod.map id LnAnswers.toNode)))

/-- The answers of an IED, without the lists. An IED without a list of devices has none. -/
def ServerAnswers.toIed (ans : ServerAnswers) : IedAnswers where
  devices := (ans.devices.getD []).map toDevice

/-! ## The functions of the client -/

namespace Lists

/-- The value and the type of a data attribute, if it can be read. -/
def readAttribute : Reading → Code Raised (Option (String × String))
  | none => pure none
  | some (.ok printed) => pure (some printed)
  | some (.error e) => throw (.printValue e)

/-- The node of a data attribute. -/
def directoryNode (submodel : List (String × PyValue)) (fc : String) (read : Reading) :
    Code Raised PyValue :=
  if submodel.isEmpty then do
    let printed ← readAttribute read
    return daNode fc printed
  else return .dict submodel

/-- The loop of `printDataDirectory`. -/
def printAttributes (doRef : String) :
    List (String × PyValue) → AttributeList → Code Raised (List (String × PyValue))
  | tmodel, .nil => pure tmodel
  | tmodel, .bare daName read rest => do
    let node ← directoryNode [] (fcName daName) read
    printAttributes doRef (insertEntry (withoutFc daName) node tmodel) rest
  | tmodel, .listed daName below read rest => do
    let daRef := doRef ++ "." ++ withoutFc daName
    let submodel ←
      (if '/' ∈ daRef.toList then holding (printAttributes daRef [] below) else pure [])
    let node ← directoryNode submodel (fcName daName) read
    printAttributes doRef (insertEntry (withoutFc daName) node tmodel) rest

/-- `printDataDirectory`. -/
def printDataDirectory (doRef : String) :
    Option AttributeList → Code Raised (List (String × PyValue))
  | none => pure []
  | some attributes =>
    if '/' ∈ doRef.toList then holding (printAttributes doRef [] attributes) else pure []

/-- The loop over the data objects, and the same loop over the control blocks. -/
def addDirectories (nodeRef : String) :
    List (String × Option AttributeList) → List (String × PyValue) →
      Code Raised (List (String × PyValue))
  | [], entries => pure entries
  | object :: objects, entries => do
    let directory ← printDataDirectory (nodeRef ++ "." ++ object.1) object.2
    addDirectories nodeRef objects (insertEntry object.1 (.dict directory) entries)

/-- The loop over the data sets. An error destroys the lists that are live. -/
def addDataSets (live : List ℕ) :
    List (String × Option (List String)) → List (String × PyValue) → Code Raised Part
  | [], entries => pure ⟨entries, true⟩
  | (name, none) :: _, entries => do
    releaseAll live
    return ⟨insertEntry name (.dict []) entries, false⟩
  | (name, some members) :: rest, entries => do
    let node ← holding (pure (dataSetNode members))
    addDataSets live rest (insertEntry name node entries)

/-- The data sets of a node. -/
def discoverDataSets (live : List ℕ) (answers : Option (List (String × Option (List String))))
    (entries : List (String × PyValue)) : Code Raised Part :=
  match answers with
  | none => do
    releaseAll live
    return ⟨entries, false⟩
  | some dataSets => do
    let lnDss ← acquire
    let part ← addDataSets (lnDss :: live) dataSets entries
    if part.complete then do
      release lnDss
      return part
    else return part

/-- The control blocks of a kind. -/
def addControlBlocks (live : List ℕ) (nodeRef : String)
    (answers : Option (List (String × Option AttributeList))) (entries : List (String × PyValue)) :
    Code Raised Part :=
  match answers with
  | none => do
    releaseAll live
    return ⟨entries, false⟩
  | some objects => do
    let entries ← holding (addDirectories nodeRef objects entries)
    return ⟨entries, true⟩

/-- The body of the loop over the logical nodes, with the lists of the nodes and of the devices
live. -/
def discoverNode (live : List ℕ) (nodeRef : String) (n : LnAnswers) : Code Raised Part :=
  match n.dataObjects with
  | none => do
    releaseAll live
    throw .model
  | some objects => do
    let entries ← holding (addDirectories nodeRef objects [])
    let part ← discoverDataSets live n.dataSets entries
    let part ← part.andThen (addControlBlocks live nodeRef n.urcbs)
    part.andThen (addControlBlocks live nodeRef n.brcbs)

/-- The loop over the logical nodes of a device. -/
def discoverNodes (live : List ℕ) (ld : String) :
    List (String × LnAnswers) → List (String × PyValue) → Code Raised Part
  | [], entries => pure ⟨entries, true⟩
  | (ln, n) :: rest, entries => do
    let part ← discoverNode live (ld ++ "/" ++ ln) n
    let entries := insertEntry ln (.dict part.entries) entries
    if part.complete then discoverNodes live ld rest entries else return ⟨entries, false⟩

/-- The loop over the devices. -/
def discoverDevices (deviceList : ℕ) :
    List (String × Option (List (String × LnAnswers))) → List (String × PyValue) →
      Code Raised Part
  | [], tmodel => pure ⟨tmodel, true⟩
  | (_, none) :: _, _ => do
    releaseAll [deviceList]
    throw .model
  | (ld, some nodes) :: rest, tmodel => do
    let logicalNodes ← acquire
    let part ← discoverNodes [logicalNodes, deviceList] ld nodes []
    let tmodel := insertEntry ld (.dict part.entries) tmodel
    if part.complete then do
      release logicalNodes
      discoverDevices deviceList rest tmodel
    else return ⟨tmodel, false⟩

/-- `discovery`. Without a list of devices the model is empty. -/
def discovery (ans : ServerAnswers) : Code Raised (List (String × PyValue)) :=
  match ans.devices with
  | none => pure []
  | some devices => do
    let deviceList ← acquire
    let part ← discoverDevices deviceList devices []
    if part.complete then do
      release deviceList
      return part.entries
    else return part.entries

/-! ## The lists -/

/-- An exception of `printValue` leaves the lists behind that are live. -/
def LeavesLists : Raised → Prop
  | .printValue _ => True
  | .model => False

/-- What is owed after a part: nothing if `discovery` has ended. -/
def owedAfter (ids : List ℕ) (part : Part) : List ℕ := if part.complete then ids else []

section Runs

variable {live : List ℕ}

lemma runs_readAttribute (read : Reading) (ids : List ℕ) :
    Runs LeavesLists (readAttribute read) ids (Tmee.readAttribute read) fun _ => ids := by
  obtain _ | e | printed := read
  · exact .pure rfl
  · exact .throw fun h => absurd trivial h
  · exact .pure rfl

lemma runs_directoryNode (submodel : List (String × PyValue)) (fc : String) (read : Reading)
    (ids : List ℕ) :
    Runs LeavesLists (directoryNode submodel fc read) ids (Tmee.directoryNode submodel fc read)
      fun _ => ids := by
  rw [directoryNode, Tmee.directoryNode]
  split_ifs
  · exact (runs_readAttribute read ids).bind fun printed _ => .pure rfl
  · exact .pure rfl

lemma runs_printAttributes (doRef : String) (tmodel : List (String × PyValue))
    (attributes : AttributeList) (ids : List ℕ) :
    Runs LeavesLists (printAttributes doRef tmodel attributes) ids
      (Tmee.printAttributes doRef tmodel attributes.toDirectory) fun _ => ids := by
  induction attributes generalizing doRef tmodel ids with
  | nil => exact .pure rfl
  | bare daName read rest ih =>
    rw [AttributeList.toDirectory, Tmee.printAttributes, printAttributes]
    have hnone : (if '/' ∈ (doRef ++ "." ++ withoutFc daName).toList then
        Tmee.printAttributes (doRef ++ "." ++ withoutFc daName) [] .nil else .ok []) = .ok [] := by
      rw [Tmee.printAttributes, ite_self]
    simp only [hnone, Fallible.ok_bind]
    exact (runs_directoryNode _ _ read ids).bind fun node _ => ih doRef _ ids
  | listed daName below read rest ihbelow ihrest =>
    rw [printAttributes, AttributeList.toDirectory, Tmee.printAttributes]
    have hsubmodel : Runs LeavesLists
        (if '/' ∈ (doRef ++ "." ++ withoutFc daName).toList then
          holding (printAttributes (doRef ++ "." ++ withoutFc daName) [] below) else pure []) ids
        (if '/' ∈ (doRef ++ "." ++ withoutFc daName).toList then
          Tmee.printAttributes (doRef ++ "." ++ withoutFc daName) [] below.toDirectory
          else .ok []) fun _ => ids := by
      split_ifs
      · exact Runs.holding fun id => ihbelow _ [] (id :: ids)
      · exact .pure rfl
    exact hsubmodel.bind fun submodel _ =>
      (runs_directoryNode submodel _ read ids).bind fun node _ => ihrest doRef _ ids

lemma runs_printDataDirectory (doRef : String) (answer : Option AttributeList) (ids : List ℕ) :
    Runs LeavesLists (printDataDirectory doRef answer) ids
      (Tmee.printDataDirectory doRef (directoryOf answer)) fun _ => ids := by
  cases answer with
  | none =>
    simp only [printDataDirectory, Tmee.printDataDirectory, directoryOf, Tmee.printAttributes,
      ite_self]
    exact .pure rfl
  | some attributes =>
    rw [printDataDirectory, directoryOf, Tmee.printDataDirectory]
    split_ifs
    · exact Runs.holding fun id => runs_printAttributes doRef [] attributes (id :: ids)
    · exact .pure rfl

lemma runs_addDirectories (nodeRef : String) (objects : List (String × Option AttributeList))
    (entries : List (String × PyValue)) (ids : List ℕ) :
    Runs LeavesLists (addDirectories nodeRef objects entries) ids
      (Tmee.addDirectories nodeRef (objects.map (Prod.map id directoryOf)) entries)
      fun _ => ids := by
  induction objects generalizing entries with
  | nil => exact .pure rfl
  | cons object objects ih =>
    rw [addDirectories]
    exact (runs_printDataDirectory _ _ ids).bind fun directory _ => ih _

lemma runs_addDataSets (dataSets : List (String × Option (List String)))
    (entries : List (String × PyValue)) (live : List ℕ) :
    Runs LeavesLists (addDataSets live dataSets entries) live
      (.ok (Tmee.addDataSets dataSets entries)) (owedAfter live) := by
  induction dataSets generalizing entries with
  | nil => exact .pure rfl
  | cons dataSet dataSets ih =>
    obtain ⟨name, _ | members⟩ := dataSet
    · exact Runs.releaseAll_exit (.pure rfl)
    · rw [addDataSets]
      have hnode : Runs LeavesLists (holding (pure (dataSetNode members))) live
          (.ok (dataSetNode members)) fun _ => live := Runs.holding fun id => .pure rfl
      exact hnode.bind (g := fun node => .ok _) fun node hnode => by
        obtain rfl := Except.ok.inj hnode
        exact ih _

lemma runs_discoverDataSets (answers : Option (List (String × Option (List String))))
    (entries : List (String × PyValue)) (live : List ℕ) :
    Runs LeavesLists (discoverDataSets live answers entries) live
      (.ok (Tmee.discoverDataSets answers entries)) (owedAfter live) := by
  cases answers with
  | none => exact Runs.releaseAll_exit (.pure rfl)
  | some dataSets =>
    refine Runs.acquire_bind fun lnDss => ?_
    refine (runs_addDataSets dataSets entries (lnDss :: live)).bind (g := .ok) fun part hpart => ?_
    by_cases hcomplete : part.complete = true
    · rw [if_pos hcomplete, owedAfter, if_pos hcomplete]
      exact Runs.release_bind (.pure (if_pos hcomplete))
    · rw [if_neg hcomplete, owedAfter, if_neg hcomplete]
      exact .pure (if_neg hcomplete)

lemma runs_addControlBlocks (nodeRef : String)
    (answers : Option (List (String × Option AttributeList))) (entries : List (String × PyValue))
    (live : List ℕ) :
    Runs LeavesLists (addControlBlocks live nodeRef answers entries) live
      (Tmee.addControlBlocks nodeRef (answers.map (List.map (Prod.map id directoryOf))) entries)
      (owedAfter live) := by
  cases answers with
  | none => exact Runs.releaseAll_exit (.pure rfl)
  | some objects =>
    refine Runs.bind (Runs.holding fun id => runs_addDirectories nodeRef objects entries _)
      fun added _ => .pure rfl

/-- The next part of a node. -/
lemma runs_andThen {part : Part} {next : List (String × PyValue) → Code Raised Part}
    {next' : List (String × PyValue) → Except Raised Part}
    (hnext : Runs LeavesLists (next part.entries) live (next' part.entries) (owedAfter live)) :
    Runs LeavesLists (part.andThen next) (owedAfter live part) (part.andThen next')
      (owedAfter live) := by
  rw [Part.andThen, Part.andThen]
  by_cases hcomplete : part.complete = true
  · rw [if_pos hcomplete, if_pos hcomplete, owedAfter, if_pos hcomplete]
    exact hnext
  · rw [if_neg hcomplete, if_neg hcomplete]
    exact .pure rfl

lemma runs_discoverNode (nodeRef : String) (n : LnAnswers) (live : List ℕ) :
    Runs LeavesLists (discoverNode live nodeRef n) live (Tmee.discoverNode nodeRef n.toNode)
      (owedAfter live) := by
  rw [discoverNode, Tmee.discoverNode]
  cases hobjects : n.dataObjects with
  | none =>
    simp only [LnAnswers.toNode, hobjects]
    exact Runs.releaseAll_exit (.throw fun _ => rfl)
  | some objects =>
    simp only [LnAnswers.toNode, hobjects, Option.map_some]
    refine Runs.bind (Runs.holding fun id => runs_addDirectories nodeRef objects [] _)
      fun entries _ => ?_
    have hsets := (runs_discoverDataSets n.dataSets entries live).bind fun part _ =>
      (runs_andThen (runs_addControlBlocks nodeRef n.urcbs part.entries live)).bind
        fun part _ => runs_andThen (runs_addControlBlocks nodeRef n.brcbs part.entries live)
    exact hsets

/-- A loop goes on with the next node or device, unless `discovery` has ended. -/
lemma runs_loop {part : Part} {m m' : Code Raised Part} {x x' : Except Raised Part}
    {outer : List ℕ} (hgo : Runs LeavesLists m live x (owedAfter outer))
    (hend : Runs LeavesLists m' [] x' (owedAfter outer)) :
    Runs LeavesLists (if part.complete then m else m') (owedAfter live part)
      (if part.complete then x else x') (owedAfter outer) := by
  rw [owedAfter]
  split_ifs
  · exact hgo
  · exact hend

lemma runs_discoverNodes (ld : String) (nodes : List (String × LnAnswers))
    (entries : List (String × PyValue)) (live : List ℕ) :
    Runs LeavesLists (discoverNodes live ld nodes entries) live
      (Tmee.discoverNodes ld (nodes.map (Prod.map id LnAnswers.toNode)) entries)
      (owedAfter live) := by
  induction nodes generalizing entries with
  | nil => exact .pure rfl
  | cons node nodes ih =>
    rw [discoverNodes, List.map_cons]
    exact (runs_discoverNode _ _ live).bind fun part _ =>
      runs_loop (ih _) (.pure rfl)

lemma runs_discoverDevices (devices : List (String × Option (List (String × LnAnswers))))
    (tmodel : List (String × PyValue)) (deviceList : ℕ) :
    Runs LeavesLists (discoverDevices deviceList devices tmodel) [deviceList]
      (Tmee.discoverDevices (devices.map toDevice) tmodel) (owedAfter [deviceList]) := by
  induction devices generalizing tmodel with
  | nil => exact .pure rfl
  | cons device devices ih =>
    obtain ⟨ld, _ | nodes⟩ := device
    · exact Runs.releaseAll_exit (.throw fun _ => rfl)
    · refine Runs.acquire_bind fun logicalNodes => ?_
      exact (runs_discoverNodes ld nodes [] [logicalNodes, deviceList]).bind fun part _ =>
        runs_loop (Runs.release_bind (ih _)) (.pure rfl)

/-- **`discovery` destroys every list exactly once**, at each of its exits, unless `printValue`
raises an exception, and returns or raises what it would without the lists. -/
theorem runs_discovery (ans : ServerAnswers) :
    Runs LeavesLists (discovery ans) [] ans.toIed.discovery fun _ => [] := by
  rw [discovery, IedAnswers.discovery, ServerAnswers.toIed]
  cases ans.devices with
  | none => exact .pure rfl
  | some devices =>
    refine Runs.acquire_bind fun deviceList => ?_
    refine (runs_discoverDevices devices [] deviceList).bind fun part _ => ?_
    rw [owedAfter]
    split_ifs
    · exact Runs.release_bind (.pure rfl)
    · exact .pure rfl

end Runs

end Lists

end Tmee
