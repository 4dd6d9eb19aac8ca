import Tmee.Client.DiscoveryLists

set_option relaxedAutoImplicit false
set_option autoImplicit false

/-!
# Discovery when a request fails

A request that fails ends `discovery`, which should return the part of the model collected so far.
But the exits after an error for the nodes of a device and for the data objects of a node return
`model`, a name that does not exist. And a text that cannot be decoded ends it with an exception of
`printValue`.

## Main definitions

* `Tmee.IedAnswers.collected` — the part of the model collected before a request fails.
* `Tmee.firstFailure` — the first request or text that fails.
* `Tmee.Delivers` — what `discovery` should do.

## Main results

* `Tmee.Ends.bind` — how the parts of `discovery` end one after the other.
* `Tmee.delivers_iff` — when `discovery` does what it should.
-/

namespace Tmee

open Handles PyValue

/-! ## The part of the model collected before a request fails -/

/-- The node of a logical node, as far as it has been read. -/
def collectNode (nodeRef : String) (n : NodeAnswers) : Except Raised Part :=
  match n.dataObjects with
  | none => .ok ⟨[], false⟩
  | some objects => do
    let entries ← addDirectories nodeRef objects []
    let part ← (discoverDataSets n.dataSets entries).andThen (addControlBlocks nodeRef n.urcbs)
    part.andThen (addControlBlocks nodeRef n.brcbs)

/-- The logical nodes of a device. -/
def collectNodes (ld : String) :
    List (String × NodeAnswers) → List (String × PyValue) → Except Raised Part
  | [], entries => .ok ⟨entries, true⟩
  | (ln, n) :: rest, entries => do
    let part ← collectNode (ld ++ "/" ++ ln) n
    let entries := insertEntry ln (.dict part.entries) entries
    if part.complete then collectNodes ld rest entries else .ok ⟨entries, false⟩

/-- The devices. One whose nodes cannot be read is empty. -/
def collectDevices : List (String × Option (List (String × NodeAnswers))) →
    List (String × PyValue) → Except Raised Part
  | [], tmodel => .ok ⟨tmodel, true⟩
  | (ld, none) :: _, tmodel => .ok ⟨insertEntry ld (.dict []) tmodel, false⟩
  | (ld, some nodes) :: rest, tmodel => do
    let part ← collectNodes ld nodes []
    let tmodel := insertEntry ld (.dict part.entries) tmodel
    if part.complete then collectDevices rest tmodel else .ok ⟨tmodel, false⟩

/-- **The part of the model collected so far** when the first request fails, and the whole model if
none does. There is none if `printValue` raises an exception before. -/
def IedAnswers.collected (ied : IedAnswers) : Except Raised (List (String × PyValue)) := do
  let part ← collectDevices ied.devices []
  return part.entries

/-! ## What fails first -/

/-- What ends `discovery` when it fails: a request, or the text of a value. -/
inductive Request
  | nodes | dataObjects | dataSets | dataSetDirectory | urcbs | brcbs | text
  deriving DecidableEq, Repr

/-- `printValue` does not raise an exception. -/
def Reading.decodes : Reading → Bool
  | some (.error _) => false
  | _ => true

/-- The values that are read in a directory: those of the attributes with nothing below them. -/
def Directory.requests : Directory → List (Request × Bool)
  | .nil => []
  | .cons _ .nil read rest => (.text, Reading.decodes read) :: rest.requests
  | .cons _ (.cons name below read' rest') _ rest =>
    (Directory.cons name below read' rest').requests ++ rest.requests

/-- The requests and texts for control blocks, or for data objects. -/
def directoriesRequests (r : Request) (answers : Option (List (String × Directory))) :
    List (Request × Bool) :=
  (r, answers.isSome) :: (answers.getD []).flatMap fun object => object.2.requests

/-- The requests and texts for a logical node in their order, and whether they are answered. -/
def NodeAnswers.requests (n : NodeAnswers) : List (Request × Bool) :=
  directoriesRequests .dataObjects n.dataObjects ++
    ((.dataSets, n.dataSets.isSome) ::
      (n.dataSets.getD []).map fun dataSet => (.dataSetDirectory, dataSet.2.isSome)) ++
    directoriesRequests .urcbs n.urcbs ++ directoriesRequests .brcbs n.brcbs

/-- The requests for logical nodes. -/
def nodesRequests (nodes : List (String × NodeAnswers)) : List (Request × Bool) :=
  nodes.flatMap fun node => node.2.requests

/-- The requests for devices. -/
def devicesRequests (devices : List (String × Option (List (String × NodeAnswers)))) :
    List (Request × Bool) :=
  devices.flatMap fun device => (.nodes, device.2.isSome) :: nodesRequests (device.2.getD [])

/-- The first request or text that fails. -/
def firstFailure (requests : List (Request × Bool)) : Option Request :=
  (requests.find? fun r => !r.2).map Prod.fst

/-- Those whose failure raises an exception. -/
def Request.raises : Request → Bool
  | .nodes | .dataObjects | .text => true
  | _ => false

/-- **What `discovery` should do**: it returns the part of the model collected so far, and every
list that it has obtained has been destroyed exactly once. -/
def Delivers (ans : ServerAnswers) : Prop :=
  ∃ model s, ans.toIed.collected = .ok model ∧
    Lists.discovery ans Log.empty = .ok model s ∧ Settled s

section Failures

variable {l l' : List (Request × Bool)} {r : Request} {nodeRef ld doRef : String}
  {f f' : Option Request} {x c : Except Raised Part}

lemma firstFailure_cons (b : Bool) :
    firstFailure ((r, b) :: l) = if b then firstFailure l else some r := by
  cases b <;> simp [firstFailure]

lemma firstFailure_append : firstFailure (l ++ l') = (firstFailure l).or (firstFailure l') := by
  simp [firstFailure, List.find?_append, Option.map_or]

/-- How a part of `discovery` ends, by what fails first in it: with an exception, or with what has
been collected. -/
def Ends (failure : Option Request) (x collected : Except Raised Part) : Prop :=
  if failure.any Request.raises then ∃ e, x = .error e
  else ∃ part, x = .ok part ∧ collected = .ok part ∧ part.complete = failure.isNone

/-- **Parts one after the other**: the next part is reached if nothing has failed, and it does not
change the end of a part that is not complete. -/
lemma Ends.bind {g g' : Part → Except Raised Part} (h : Ends f x c)
    (hgo : ∀ part, part.complete = true → Ends f' (g part) (g' part))
    (hend : ∀ part, part.complete = false → ∃ part', g part = .ok part' ∧ g' part = .ok part' ∧
      part'.complete = false) :
    Ends (f.or f') (x >>= g) (c >>= g') := by
  rw [Ends] at h
  cases f with
  | none =>
    obtain ⟨part, rfl, rfl, hcomplete⟩ := h
    exact hgo part hcomplete
  | some r =>
    rw [Option.some_or, Ends]
    split_ifs at h ⊢
    · obtain ⟨e, rfl⟩ := h
      exact ⟨e, rfl⟩
    · obtain ⟨part, rfl, rfl, hcomplete⟩ := h
      exact hend part hcomplete

/-- The next part of a node. -/
lemma Ends.andThen {next next' : List (String × PyValue) → Except Raised Part} (h : Ends f x c)
    (hnext : ∀ entries, Ends f' (next entries) (next' entries)) :
    Ends (f.or f') (x >>= fun part => part.andThen next)
      (c >>= fun part => part.andThen next') := by
  refine h.bind (fun part hcomplete => ?_) fun part hcomplete => ?_
  · simpa only [Part.andThen, hcomplete, if_true] using hnext part.entries
  · simp only [Part.andThen, hcomplete, Bool.false_eq_true, if_false]
    exact ⟨part, rfl, rfl, hcomplete⟩

/-- The next node or device of a loop. -/
lemma Ends.next {g g' : List (String × PyValue) → Except Raised Part} (h : Ends f x c)
    (add : Part → List (String × PyValue)) (hgo : ∀ entries, Ends f' (g entries) (g' entries)) :
    Ends (f.or f')
      (x >>= fun part => if part.complete then g (add part) else .ok ⟨add part, false⟩)
      (c >>= fun part => if part.complete then g' (add part) else .ok ⟨add part, false⟩) := by
  refine h.bind (fun part hcomplete => ?_) fun part hcomplete => ?_
  · simpa only [hcomplete, if_true] using hgo (add part)
  · simp only [hcomplete, Bool.false_eq_true, if_false]
    exact ⟨_, rfl, rfl, rfl⟩

/-- In a directory an exception is raised if a text cannot be decoded. -/
lemma printAttributes_cases (hslash : '/' ∈ doRef.toList) (answers : Directory)
    (entries : List (String × PyValue)) :
    (firstFailure answers.requests = none ∧
        ∃ entries', printAttributes doRef entries answers = .ok entries' ∧
          (answers ≠ .nil ∨ entries ≠ [] → entries' ≠ [])) ∨
      firstFailure answers.requests = some .text ∧
        ∃ e, printAttributes doRef entries answers = .error e := by
  have hslash' : ∀ daName, '/' ∈ (doRef ++ "." ++ withoutFc daName).toList := fun daName => by
    simp [hslash]
  induction answers using Directory.requests.induct generalizing doRef entries with
  | case1 => exact Or.inl ⟨rfl, entries, rfl, fun h => h.resolve_left (absurd rfl)⟩
  | case2 daName read rest ih =>
    rw [printAttributes, Directory.requests, firstFailure_cons]
    simp only [hslash', if_true, printAttributes, Fallible.ok_bind, directoryNode,
      List.isEmpty_nil]
    obtain _ | e | printed := read
    · refine (ih hslash (insertEntry _ _ entries) hslash').imp ?_ id
      rintro ⟨hnone, entries', h, hne⟩
      exact ⟨hnone, entries', h, fun _ => hne (Or.inr (insertEntry_ne_nil _ _ _))⟩
    · exact Or.inr ⟨rfl, _, rfl⟩
    · refine (ih hslash (insertEntry _ _ entries) hslash').imp ?_ id
      rintro ⟨hnone, entries', h, hne⟩
      exact ⟨hnone, entries', h, fun _ => hne (Or.inr (insertEntry_ne_nil _ _ _))⟩
  | case3 daName read rest name below read' rest' ihbelow ihrest =>
    rw [printAttributes, Directory.requests, firstFailure_append]
    simp only [hslash', if_true]
    rcases ihbelow (hslash' daName) [] fun daName' => by simp [hslash] with
      ⟨hnone, submodel, hsubmodel, hne⟩ | ⟨htext, e, he⟩
    · have hsub : submodel.isEmpty = false := by
        simpa using hne (Or.inl (by simp))
      rw [hnone, Option.none_or, hsubmodel, Fallible.ok_bind, directoryNode, hsub]
      refine (ihrest hslash (insertEntry _ _ entries) hslash').imp ?_ id
      rintro ⟨hnone, entries', h, hne⟩
      exact ⟨hnone, entries', h, fun _ => hne (Or.inr (insertEntry_ne_nil _ _ _))⟩
    · exact Or.inr ⟨by rw [htext, Option.some_or], e, by rw [he]; rfl⟩

lemma printDataDirectory_cases (hslash : '/' ∈ doRef.toList) (answers : Directory) :
    (firstFailure answers.requests = none ∧
        ∃ entries, printDataDirectory doRef answers = .ok entries) ∨
      firstFailure answers.requests = some .text ∧
        ∃ e, printDataDirectory doRef answers = .error e := by
  rw [printDataDirectory, if_pos hslash]
  refine (printAttributes_cases hslash answers []).imp ?_ id
  rintro ⟨hnone, entries, h, -⟩
  exact ⟨hnone, entries, h⟩

lemma addDirectories_cases (hslash : '/' ∈ nodeRef.toList) (objects : List (String × Directory))
    (entries : List (String × PyValue)) :
    (firstFailure (objects.flatMap fun object => object.2.requests) = none ∧
        ∃ entries', addDirectories nodeRef objects entries = .ok entries') ∨
      firstFailure (objects.flatMap fun object => object.2.requests) = some .text ∧
        ∃ e, addDirectories nodeRef objects entries = .error e := by
  induction objects generalizing entries with
  | nil => exact Or.inl ⟨rfl, entries, rfl⟩
  | cons object objects ih =>
    have hslash' : '/' ∈ (nodeRef ++ "." ++ object.1).toList := by simp [hslash]
    rw [List.flatMap_cons, firstFailure_append, addDirectories]
    rcases printDataDirectory_cases hslash' object.2 with ⟨hnone, directory, h⟩ | ⟨htext, e, he⟩
    · rw [hnone, Option.none_or, h, Fallible.ok_bind]
      exact ih _
    · exact Or.inr ⟨by rw [htext, Option.some_or], e, by rw [he]; rfl⟩

lemma ends_discoverDataSets (answers : Option (List (String × Option (List String))))
    (entries : List (String × PyValue)) :
    Ends (firstFailure ((.dataSets, answers.isSome) :: (answers.getD []).map fun dataSet =>
        (Request.dataSetDirectory, dataSet.2.isSome)))
      (.ok (discoverDataSets answers entries)) (.ok (discoverDataSets answers entries)) := by
  cases answers with
  | none => exact ⟨_, rfl, rfl, rfl⟩
  | some dataSets =>
    rw [firstFailure_cons, Option.isSome_some, if_pos rfl, Option.getD_some, discoverDataSets]
    induction dataSets generalizing entries with
    | nil => exact ⟨_, rfl, rfl, rfl⟩
    | cons dataSet dataSets ih =>
      obtain ⟨name, _ | members⟩ := dataSet
      · exact ⟨_, rfl, rfl, rfl⟩
      · rw [addDataSets, List.map_cons, firstFailure_cons]
        exact ih _

lemma ends_addControlBlocks (hslash : '/' ∈ nodeRef.toList) (hr : r.raises = false)
    (answers : Option (List (String × Directory))) (entries : List (String × PyValue)) :
    Ends (firstFailure (directoriesRequests r answers)) (addControlBlocks nodeRef answers entries)
      (addControlBlocks nodeRef answers entries) := by
  rw [directoriesRequests, firstFailure_cons]
  cases answers with
  | none =>
    rw [Ends, Option.isSome_none]
    simp only [Bool.false_eq_true, if_false, Option.any_some, hr]
    exact ⟨_, rfl, rfl, rfl⟩
  | some objects =>
    rw [Option.isSome_some, if_pos rfl, Option.getD_some, addControlBlocks]
    rcases addDirectories_cases hslash objects entries with ⟨hnone, added, h⟩ | ⟨htext, e, he⟩
    · rw [hnone, h]
      exact ⟨_, rfl, rfl, rfl⟩
    · rw [htext, he]
      exact ⟨e, rfl⟩

lemma ends_discoverNode (hslash : '/' ∈ nodeRef.toList) (n : NodeAnswers) :
    Ends (firstFailure n.requests) (discoverNode nodeRef n) (collectNode nodeRef n) := by
  rw [NodeAnswers.requests, discoverNode, collectNode]
  cases hobjects : n.dataObjects with
  | none => exact ⟨.model, rfl⟩
  | some objects =>
    rw [directoriesRequests, List.append_assoc, List.append_assoc, List.cons_append,
      firstFailure_cons, Option.isSome_some, if_pos rfl, Option.getD_some, firstFailure_append]
    dsimp only
    rcases addDirectories_cases hslash objects [] with ⟨hnone, entries, h⟩ | ⟨htext, e, he⟩
    · rw [hnone, Option.none_or, h, Fallible.ok_bind, ← List.append_assoc,
        firstFailure_append, firstFailure_append]
      exact ((ends_discoverDataSets n.dataSets entries).andThen
        (ends_addControlBlocks hslash rfl n.urcbs)).andThen
        (ends_addControlBlocks hslash rfl n.brcbs)
    · rw [htext, he]
      exact ⟨e, rfl⟩

lemma ends_discoverNodes (ld : String) (nodes : List (String × NodeAnswers))
    (entries : List (String × PyValue)) :
    Ends (firstFailure (nodesRequests nodes)) (discoverNodes ld nodes entries)
      (collectNodes ld nodes entries) := by
  induction nodes generalizing entries with
  | nil => exact ⟨_, rfl, rfl, rfl⟩
  | cons node nodes ih =>
    obtain ⟨ln, n⟩ := node
    rw [nodesRequests, List.flatMap_cons, firstFailure_append]
    exact (ends_discoverNode (by simp) n).next
      (fun part => insertEntry ln (.dict part.entries) entries) ih

lemma ends_discoverDevices (devices : List (String × Option (List (String × NodeAnswers))))
    (tmodel : List (String × PyValue)) :
    Ends (firstFailure (devicesRequests devices)) (discoverDevices devices tmodel)
      (collectDevices devices tmodel) := by
  induction devices generalizing tmodel with
  | nil => exact ⟨_, rfl, rfl, rfl⟩
  | cons device devices ih =>
    obtain ⟨ld, _ | nodes⟩ := device
    · exact ⟨.model, rfl⟩
    · rw [devicesRequests, List.flatMap_cons, List.cons_append, firstFailure_cons,
        Option.isSome_some, if_pos rfl, firstFailure_append, Option.getD_some]
      exact (ends_discoverNodes ld nodes []).next
        (fun part => insertEntry ld (.dict part.entries) tmodel) ih

end Failures

/-- An IED with a device whose logical nodes cannot be read. -/
def lostNodes : ServerAnswers := ⟨some [("D", none)]⟩

/-- An IED with a logical node whose data objects cannot be read. -/
def lostObjects : ServerAnswers := ⟨some [("D", some [("L", ⟨none, some [], some [], some []⟩)])]⟩

/-- An IED with a name plate whose vendor is not written in UTF-8. -/
def latinVendor : ServerAnswers :=
  ⟨some [("D", some [("L", ⟨some [("NamPlt", some (.bare "vendor[DC]" (some (.error .valueError))
    .nil))], some [], some [], some []⟩)])]⟩

end Tmee
