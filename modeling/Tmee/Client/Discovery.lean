import Tmee.Client.Tree

set_option relaxedAutoImplicit false
set_option autoImplicit false

/-!
# Discovery

How the client `libiec61850client.py` makes the data model of an IED from what the library answers.
The answers are a parameter: lists of names for devices, nodes, data objects, data sets and control
blocks, and for each directory of data attributes the answers of the calls that read it. Two things
raise an exception: `printValue`, for a text that cannot be decoded, and the return of a name that
does not exist.

## Main definitions

* `Tmee.Directory`, `Tmee.NodeAnswers`, `Tmee.IedAnswers` — what the library answers.
* `Tmee.Raised` — what raises an exception.
* `Tmee.printDataDirectory`, `Tmee.IedAnswers.discovery` — the functions of the client.
* `Tmee.PyValue.EntriesOf`, `Tmee.PyValue.DictOf` — dictionaries with a property of their values.
* `Tmee.NodeEntry`, `Tmee.DiscoveredModel` — the shape of a model.

## Main results

* `Tmee.isDataset_directory` — a directory of data attributes is not taken for a data set.
* `Tmee.IedAnswers.discoveredModel` — what `discovery` returns has the shape of a model.
-/

namespace Tmee

open PyValue

/-! ## What the library answers -/

/-- What comes of reading a data attribute: none is an error, otherwise it is what `printValue`
makes of the value, its text and its type or an exception. -/
abbrev Reading := Option (Except PyError (String × String))

/-- What `printDataDirectory` gets for a directory: no further data attribute, or the name of the
next one, what there is below it, what comes of reading it, and the rest. -/
inductive Directory
  | nil
  | cons (daName : String) (below : Directory) (read : Reading) (rest : Directory)
  deriving DecidableEq

/-- What `discovery` gets for a logical node; none is an error. -/
structure NodeAnswers where
  dataObjects : Option (List (String × Directory))
  /-- The data sets, each with the references of its members. -/
  dataSets : Option (List (String × Option (List String)))
  /-- The control blocks of unbuffered reports. -/
  urcbs : Option (List (String × Directory))
  /-- The control blocks of buffered reports. -/
  brcbs : Option (List (String × Directory))
  deriving DecidableEq

/-- What `discovery` gets from an IED. -/
structure IedAnswers where
  /-- The logical devices, each with its logical nodes; none is an error. -/
  devices : List (String × Option (List (String × NodeAnswers)))
  deriving DecidableEq

/-- What raises an exception in `discovery`: `printValue`, or the name `model`. -/
inductive Raised
  | printValue (e : PyError)
  | model
  deriving DecidableEq, Repr

/-- The exception that is raised. -/
def Raised.error : Raised → PyError
  | printValue e => e
  | model => .nameError

/-! ## The functions of the client -/

/-- `name[:-4]`: what comes before the functional constraint in brackets. -/
def withoutFc (name : String) : String := String.ofList (name.toList.take (name.length - 4))

/-- `name[-3:-1]`: the functional constraint. -/
def fcName (name : String) : String :=
  String.ofList ((name.toList.take (name.length - 1)).drop (name.length - 3))

/-- The node of a data attribute with nothing below it. -/
def daNode (fc : String) : Option (String × String) → PyValue
  | none => .dict [("reftype", .str "DA"), ("FC", .str fc), ("value", .str "UNKNOWN")]
  | some (value, type) =>
    .dict [("reftype", .str "DA"), ("FC", .str fc), ("value", .str value), ("type", .str type)]

/-- The value and the type of a data attribute, if it can be read. -/
def readAttribute : Reading → Except Raised (Option (String × String))
  | none => .ok none
  | some (.ok printed) => .ok (some printed)
  | some (.error e) => .error (.printValue e)

/-- The node of a data attribute. It is read if there is nothing below it. -/
def directoryNode (submodel : List (String × PyValue)) (fc : String) (read : Reading) :
    Except Raised PyValue :=
  if submodel.isEmpty then do
    let printed ← readAttribute read
    return daNode fc printed
  else return .dict submodel

/-- The loop of `printDataDirectory`, with the dictionary it has made so far. -/
def printAttributes (doRef : String) :
    List (String × PyValue) → Directory → Except Raised (List (String × PyValue))
  | tmodel, .nil => .ok tmodel
  | tmodel, .cons daName below read rest => do
    let daRef := doRef ++ "." ++ withoutFc daName
    let submodel ← (if '/' ∈ daRef.toList then printAttributes daRef [] below else .ok [])
    let node ← directoryNode submodel (fcName daName) read
    printAttributes doRef (insertEntry (withoutFc daName) node tmodel) rest

/-- `printDataDirectory`. -/
def printDataDirectory (doRef : String) (answers : Directory) :
    Except Raised (List (String × PyValue)) :=
  if '/' ∈ doRef.toList then printAttributes doRef [] answers else .ok []

/-- A part of a model, and whether `discovery` goes on after it. -/
structure Part where
  entries : List (String × PyValue)
  complete : Bool

/-- Go on with the next part, if there was no error. -/
def Part.andThen {m : Type → Type} [Monad m] (p : Part)
    (next : List (String × PyValue) → m Part) : m Part :=
  if p.complete then next p.entries else return p

/-- The loop over the data objects, and the same loop over the control blocks. -/
def addDirectories (nodeRef : String) :
    List (String × Directory) → List (String × PyValue) → Except Raised (List (String × PyValue))
  | [], entries => .ok entries
  | object :: objects, entries => do
    let directory ← printDataDirectory (nodeRef ++ "." ++ object.1) object.2
    addDirectories nodeRef objects (insertEntry object.1 (.dict directory) entries)

/-- The entry of a member of a data set. -/
def memberEntry (index : ℕ) (dsRef : String) : String × PyValue :=
  (toString index, .dict [("reftype", .str "DX"), ("type", .str "reference"),
    ("value", .str (withoutFc dsRef)), ("FC", .str (fcName dsRef))])

/-- The node of a data set. -/
def dataSetNode (members : List String) : PyValue := .dict (members.mapIdx memberEntry)

/-- The loop over the data sets. -/
def addDataSets : List (String × Option (List String)) → List (String × PyValue) → Part
  | [], entries => ⟨entries, true⟩
  | (name, none) :: _, entries => ⟨insertEntry name (.dict []) entries, false⟩
  | (name, some members) :: rest, entries =>
    addDataSets rest (insertEntry name (dataSetNode members) entries)

/-- The data sets of a node. -/
def discoverDataSets (answers : Option (List (String × Option (List String))))
    (entries : List (String × PyValue)) : Part :=
  match answers with
  | none => ⟨entries, false⟩
  | some dataSets => addDataSets dataSets entries

/-- The control blocks of a kind. -/
def addControlBlocks (nodeRef : String) (answers : Option (List (String × Directory)))
    (entries : List (String × PyValue)) : Except Raised Part :=
  match answers with
  | none => .ok ⟨entries, false⟩
  | some objects => do
    let entries ← addDirectories nodeRef objects entries
    return ⟨entries, true⟩

/-- The node of a logical node. An error for the data objects makes `discovery` return a name that
does not exist. -/
def discoverNode (nodeRef : String) (n : NodeAnswers) : Except Raised Part :=
  match n.dataObjects with
  | none => .error .model
  | some objects => do
    let entries ← addDirectories nodeRef objects []
    let part ← (discoverDataSets n.dataSets entries).andThen (addControlBlocks nodeRef n.urcbs)
    part.andThen (addControlBlocks nodeRef n.brcbs)

/-- The loop over the logical nodes of a device. -/
def discoverNodes (ld : String) :
    List (String × NodeAnswers) → List (String × PyValue) → Except Raised Part
  | [], entries => .ok ⟨entries, true⟩
  | (ln, n) :: rest, entries => do
    let part ← discoverNode (ld ++ "/" ++ ln) n
    let entries := insertEntry ln (.dict part.entries) entries
    if part.complete then discoverNodes ld rest entries else .ok ⟨entries, false⟩

/-- The loop over the devices. An error for the nodes of a device does the same. -/
def discoverDevices : List (String × Option (List (String × NodeAnswers))) →
    List (String × PyValue) → Except Raised Part
  | [], tmodel => .ok ⟨tmodel, true⟩
  | (_, none) :: _, _ => .error .model
  | (ld, some nodes) :: rest, tmodel => do
    let part ← discoverNodes ld nodes []
    let tmodel := insertEntry ld (.dict part.entries) tmodel
    if part.complete then discoverDevices rest tmodel else .ok ⟨tmodel, false⟩

/-- `discovery`. -/
def IedAnswers.discovery (ied : IedAnswers) : Except Raised (List (String × PyValue)) := do
  let part ← discoverDevices ied.devices []
  return part.entries

/-! ## Dictionaries -/

namespace PyValue

section Entries

variable {P Q : PyValue → Prop} {key : String} {v value : PyValue}
  {entries : List (String × PyValue)}

/-- Entries with different keys, whose values have a property. -/
structure EntriesOf (P : PyValue → Prop) (entries : List (String × PyValue)) : Prop where
  nodup : (entries.map Prod.fst).Nodup
  values : ∀ entry ∈ entries, P entry.2

/-- A dictionary whose values have a property. -/
def DictOf (P : PyValue → Prop) (value : PyValue) : Prop :=
  ∃ entries, value = .dict entries ∧ EntriesOf P entries

lemma entriesOf_nil : EntriesOf P [] := ⟨List.nodup_nil, by simp⟩

/-- An assignment adds at most its own key and value. -/
lemma mem_insertEntry {entry : String × PyValue} (h : entry ∈ insertEntry key v entries) :
    entry = (key, v) ∨ entry ∈ entries := by
  induction entries with
  | nil => exact Or.inl (List.mem_singleton.mp h)
  | cons head entries ih =>
    obtain ⟨k, w⟩ := head
    rw [insertEntry] at h
    split_ifs at h with hkey
    · subst hkey
      exact (List.mem_cons.mp h).imp id (List.mem_cons_of_mem _)
    · rcases List.mem_cons.mp h with rfl | hmem
      · exact Or.inr List.mem_cons_self
      · exact (ih hmem).imp id (List.mem_cons_of_mem _)

/-- An assignment keeps the keys different. -/
lemma nodup_insertEntry (h : (entries.map Prod.fst).Nodup) (key : String) (v : PyValue) :
    ((insertEntry key v entries).map Prod.fst).Nodup := by
  induction entries with
  | nil => simp [insertEntry]
  | cons head entries ih =>
    obtain ⟨k, w⟩ := head
    rw [List.map_cons, List.nodup_cons] at h
    rw [insertEntry]
    split_ifs with hkey
    · rw [List.map_cons, List.nodup_cons]
      exact h
    · rw [List.map_cons, List.nodup_cons]
      refine ⟨fun hmem => ?_, ih h.2⟩
      obtain ⟨entry, hentry, hk⟩ := List.mem_map.mp hmem
      rcases mem_insertEntry hentry with rfl | hold
      · exact hkey hk.symm
      · exact h.1 (List.mem_map.mpr ⟨entry, hold, hk⟩)

/-- **An assignment keeps what holds of the values.** -/
lemma EntriesOf.insert (h : EntriesOf P entries) (key : String) (hv : P v) :
    EntriesOf P (insertEntry key v entries) where
  nodup := nodup_insertEntry h.nodup key v
  values entry hentry := by
    rcases mem_insertEntry hentry with rfl | hold
    · exact hv
    · exact h.values entry hold

/-- In a list of entries with different keys every entry is found under its key. -/
lemma EntriesOf.lookup_of_mem (h : EntriesOf P entries) (hmem : (key, v) ∈ entries) :
    entries.lookup key = some v := by
  have hnodup := h.nodup
  clear h
  induction entries with
  | nil => cases hmem
  | cons head entries ih =>
    obtain ⟨k, w⟩ := head
    rw [List.map_cons, List.nodup_cons] at hnodup
    rcases List.mem_cons.mp hmem with heq | hrest
    · obtain ⟨rfl, rfl⟩ := Prod.mk.inj heq
      exact List.lookup_cons_self
    · have hne : key ≠ k := by
        rintro rfl
        exact hnodup.1 (List.mem_map.mpr ⟨_, hrest, rfl⟩)
      rw [List.lookup_cons, beq_eq_false_iff_ne.mpr hne]
      exact ih hrest hnodup.2

lemma mem_of_lookup (h : entries.lookup key = some v) : (key, v) ∈ entries := by
  obtain ⟨before, after, rfl, -⟩ := List.lookup_eq_some_iff.mp h
  exact List.mem_append_right _ List.mem_cons_self

end Entries

end PyValue

/-! ## The shape of a model -/

/-- An entry of a directory of data attributes: it has no type, or another type than the members of
a data set. -/
def AttributeEntry (value : PyValue) : Prop :=
  ∃ entries, value = .dict entries ∧ ∀ w, entries.lookup "reftype" = some w → w.isStr "DX" = false

/-- An entry of a logical node: a directory of data attributes, or a data set. -/
inductive NodeEntry : PyValue → Prop
  | directory {doRef : String} {answers : Directory} {entries : List (String × PyValue)}
    (h : printDataDirectory doRef answers = .ok entries) : NodeEntry (.dict entries)
  | dataSet (members : List String) : NodeEntry (dataSetNode members)

/-- A model: logical devices with logical nodes with directories and data sets. -/
def DiscoveredModel : List (String × PyValue) → Prop := EntriesOf (DictOf (DictOf NodeEntry))

section Shape

variable {entries entries' : List (String × PyValue)}

lemma attributeEntry_daNode (fc : String) (read : Option (String × String)) :
    AttributeEntry (daNode fc read) := by
  obtain _ | ⟨value, type⟩ := read
  · refine ⟨_, rfl, fun w hw => ?_⟩
    obtain rfl : PyValue.str "DA" = w := by simpa using hw
    rfl
  · refine ⟨_, rfl, fun w hw => ?_⟩
    obtain rfl : PyValue.str "DA" = w := by simpa using hw
    rfl

/-- An attribute that is called `reftype` is no text. -/
lemma attributeEntry_dict (h : EntriesOf AttributeEntry entries) :
    AttributeEntry (.dict entries) := by
  refine ⟨entries, rfl, fun w hw => ?_⟩
  obtain ⟨below, rfl, -⟩ := h.values _ (mem_of_lookup hw)
  rfl

/-- What holds of the data attributes and of the dictionaries that are made of them holds in a
directory. -/
lemma entriesOf_printAttributes {P : PyValue → Prop} (hleaf : ∀ fc read, P (daNode fc read))
    (hdict : ∀ entries, EntriesOf P entries → P (.dict entries)) {doRef : String}
    {answers : Directory} (hentries : EntriesOf P entries)
    (h : printAttributes doRef entries answers = .ok entries') : EntriesOf P entries' := by
  induction answers generalizing doRef entries entries' with
  | nil =>
    obtain rfl := Except.ok.inj h
    exact hentries
  | cons daName below read rest ihbelow ihrest =>
    rw [printAttributes] at h
    obtain ⟨submodel, hsubmodel, h⟩ := Fallible.bind_eq_ok.mp h
    obtain ⟨node, hnode, h⟩ := Fallible.bind_eq_ok.mp h
    have hbelow : EntriesOf P submodel := by
      split_ifs at hsubmodel
      · exact ihbelow entriesOf_nil hsubmodel
      · obtain rfl := Except.ok.inj hsubmodel
        exact entriesOf_nil
    refine ihrest (hentries.insert _ ?_) h
    rw [directoryNode] at hnode
    split_ifs at hnode
    · obtain ⟨printed, -, hnode⟩ := Fallible.bind_eq_ok.mp hnode
      obtain rfl := Except.ok.inj hnode
      exact hleaf _ _
    · obtain rfl := Except.ok.inj hnode
      exact hdict _ hbelow

lemma entriesOf_printDataDirectory {P : PyValue → Prop} (hleaf : ∀ fc read, P (daNode fc read))
    (hdict : ∀ entries, EntriesOf P entries → P (.dict entries)) {doRef : String}
    {answers : Directory} (h : printDataDirectory doRef answers = .ok entries) :
    EntriesOf P entries := by
  rw [printDataDirectory] at h
  split_ifs at h
  · exact entriesOf_printAttributes hleaf hdict entriesOf_nil h
  · obtain rfl := Except.ok.inj h
    exact entriesOf_nil

/-- **A directory of data attributes is not taken for a data set.** -/
lemma isDataset_directory {doRef : String} {answers : Directory}
    (h : printDataDirectory doRef answers = .ok entries) :
    isDataset (.dict entries) = .ok false := by
  have hentries := entriesOf_printDataDirectory attributeEntry_daNode
    (fun _ h => attributeEntry_dict h) h
  rw [isDataset]
  cases hlookup : entries.lookup "0" with
  | none => simp [contains, hlookup]
  | some member =>
    obtain ⟨below, rfl, hreftype⟩ := hentries.values _ (mem_of_lookup hlookup)
    cases hw : below.lookup "reftype" with
    | none => simp [contains, getItem, hlookup, hw]
    | some w => simp [contains, getItem, hlookup, hw, hreftype w hw]

/-- A data set with a member is taken for one. -/
lemma isDataset_dataSetNode (members : List String) :
    isDataset (dataSetNode members) = .ok (!members.isEmpty) := by
  cases members with
  | nil => rfl
  | cons dsRef members =>
    rw [dataSetNode, List.mapIdx_cons]
    rfl

lemma entriesOf_addDirectories {nodeRef : String} {objects : List (String × Directory)}
    (hentries : EntriesOf NodeEntry entries)
    (h : addDirectories nodeRef objects entries = .ok entries') :
    EntriesOf NodeEntry entries' := by
  induction objects generalizing entries with
  | nil =>
    obtain rfl := Except.ok.inj h
    exact hentries
  | cons object objects ih =>
    obtain ⟨directory, hdirectory, h⟩ := Fallible.bind_eq_ok.mp h
    exact ih (hentries.insert _ (.directory hdirectory)) h

lemma entriesOf_addDataSets (dataSets : List (String × Option (List String)))
    (h : EntriesOf NodeEntry entries) :
    EntriesOf NodeEntry (addDataSets dataSets entries).entries := by
  induction dataSets generalizing entries with
  | nil => exact h
  | cons dataSet dataSets ih =>
    obtain ⟨name, _ | members⟩ := dataSet
    · exact h.insert name (NodeEntry.dataSet [])
    · exact ih (h.insert name (NodeEntry.dataSet members))

lemma entriesOf_addControlBlocks {nodeRef : String} {answers : Option (List (String × Directory))}
    {part : Part} (hentries : EntriesOf NodeEntry entries)
    (h : addControlBlocks nodeRef answers entries = .ok part) :
    EntriesOf NodeEntry part.entries := by
  cases answers with
  | none =>
    obtain rfl := Except.ok.inj h
    exact hentries
  | some objects =>
    obtain ⟨added, hadded, h⟩ := Fallible.bind_eq_ok.mp h
    obtain rfl := Except.ok.inj h
    exact entriesOf_addDirectories hentries hadded

lemma Part.entriesOf_andThen {P : PyValue → Prop} {p part : Part}
    {next : List (String × PyValue) → Except Raised Part} (hp : EntriesOf P p.entries)
    (hnext : ∀ part, next p.entries = .ok part → EntriesOf P part.entries)
    (h : p.andThen next = .ok part) : EntriesOf P part.entries := by
  rw [Part.andThen] at h
  split_ifs at h
  · exact hnext part h
  · obtain rfl := Except.ok.inj h
    exact hp

lemma entriesOf_discoverNode {nodeRef : String} {n : NodeAnswers} {part : Part}
    (h : discoverNode nodeRef n = .ok part) : EntriesOf NodeEntry part.entries := by
  rw [discoverNode] at h
  cases hobjects : n.dataObjects with
  | none =>
    rw [hobjects] at h
    cases h
  | some objects =>
    rw [hobjects] at h
    obtain ⟨added, hadded, h⟩ := Fallible.bind_eq_ok.mp h
    obtain ⟨urcbs, hurcbs, h⟩ := Fallible.bind_eq_ok.mp h
    have hsets : EntriesOf NodeEntry (discoverDataSets n.dataSets added).entries := by
      have hentries := entriesOf_addDirectories entriesOf_nil hadded
      cases n.dataSets with
      | none => exact hentries
      | some dataSets => exact entriesOf_addDataSets dataSets hentries
    have hfirst := Part.entriesOf_andThen hsets
      (fun _ hnext => entriesOf_addControlBlocks hsets hnext) hurcbs
    exact Part.entriesOf_andThen hfirst (fun _ hnext => entriesOf_addControlBlocks hfirst hnext) h

lemma entriesOf_discoverNodes {ld : String} {nodes : List (String × NodeAnswers)} {part : Part}
    (hentries : EntriesOf (DictOf NodeEntry) entries)
    (h : discoverNodes ld nodes entries = .ok part) :
    EntriesOf (DictOf NodeEntry) part.entries := by
  induction nodes generalizing entries with
  | nil =>
    obtain rfl := Except.ok.inj h
    exact hentries
  | cons node nodes ih =>
    obtain ⟨node', hnode, h⟩ := (Fallible.bind_eq_ok).mp h
    have hinsert := hentries.insert node.1 ⟨node'.entries, rfl, entriesOf_discoverNode hnode⟩
    dsimp only at h
    split_ifs at h
    · exact ih hinsert h
    · obtain rfl := Except.ok.inj h
      exact hinsert

lemma entriesOf_discoverDevices {devices : List (String × Option (List (String × NodeAnswers)))}
    {part : Part} (hentries : DiscoveredModel entries)
    (h : discoverDevices devices entries = .ok part) : DiscoveredModel part.entries := by
  induction devices generalizing entries with
  | nil =>
    obtain rfl := Except.ok.inj h
    exact hentries
  | cons device devices ih =>
    obtain ⟨ld, _ | nodes⟩ := device
    · cases h
    · obtain ⟨node, hnode, h⟩ := (Fallible.bind_eq_ok).mp h
      have hinsert : DiscoveredModel (insertEntry ld (.dict node.entries) entries) :=
        EntriesOf.insert hentries ld
          ⟨node.entries, rfl, entriesOf_discoverNodes entriesOf_nil hnode⟩
      dsimp only at h
      split_ifs at h
      · exact ih hinsert h
      · obtain rfl := Except.ok.inj h
        exact hinsert

/-- **What `discovery` returns has the shape of a model**, also when it ends early. -/
lemma IedAnswers.discoveredModel {ied : IedAnswers} {model : List (String × PyValue)}
    (h : ied.discovery = .ok model) : DiscoveredModel model := by
  obtain ⟨part, hpart, h⟩ := Fallible.bind_eq_ok.mp h
  obtain rfl := Except.ok.inj h
  exact entriesOf_discoverDevices entriesOf_nil hpart

end Shape

end Tmee
