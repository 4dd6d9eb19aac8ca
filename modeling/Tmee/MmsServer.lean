import Tmee.InputFile
import Tmee.Lib.Run
import Tmee.MemFile.Readers
import Tmee.StartUp.Settings

set_option relaxedAutoImplicit false
set_option autoImplicit false

/-!
# The MMS server

`mms_server` puts the values of rings into an IED model. `init` looks up the node of every
configured element, keeps it together with its parent and makes a ring for it. A read access of a
client hands a data object to `readAccessHandler`, which looks for the elements whose *node* is that
object. The nodes of elements are data attributes, so it finds none; the parent, which was kept
for this comparison, is not compared.

## Main definitions

* `Tmee.IedModel` — what the library knows about the nodes of a model.
* `Tmee.initMmsServer` — `init`, with what the system answers as parameters.
* `Tmee.MmsServer.readAccessHandler`, `Tmee.MmsServer.event`, `Tmee.MmsServer.writeAccessHandler` —
  the handlers.
* `Tmee.MmsServer.Refreshes` — a read access refreshes the attributes of the object.

## Main results

* `Tmee.MmsServer.ConfiguredBy.exec` — what `init` has set up stays along runs.
* `Tmee.MmsServer.event_copies` — an event copies the newest value of every ring.
* `Tmee.readAccess_refreshes_iff` — the objects whose attributes are refreshed by a read access.
-/

namespace Tmee

/-- The kinds of nodes. -/
inductive ModelNodeType
  | logicalDevice | logicalNode | dataObject | dataAttribute
  deriving DecidableEq, Repr

/-- What the library knows about the nodes of a model: their kinds and parents, and what
`IedModel_getModelNodeByObjectReference` finds. -/
structure IedModel (Node : Type) where
  modelType : Node → ModelNodeType
  parent : Node → Option Node
  nodeByObjectReference : String → Option Node

/-- The node is a data attribute that lies directly in a data object. -/
structure IedModel.InDataObject {Node : Type} (model : IedModel Node) (node : Node) : Prop where
  modelType_eq : model.modelType node = .dataAttribute
  parent_eq : ∃ D, model.parent node = some D ∧ model.modelType D = .dataObject

/-- An element with what `init` has found and made for it. -/
structure Element (Node : Type) where
  objectRef : String
  filename : String
  node : Option Node
  objnode : Option Node
  /-- The ring; an element without a node has none. -/
  buffer : Option Buffer

/-- The server. The calls of `IedServer_updateInt32AttributeValue` are recorded in their order. -/
structure MmsServer (Node : Type) where
  elements : List (Element Node)
  updates : List (Node × ℤ)

/-- How the system answers while the file of an element is set up. -/
inductive FileOutcome
  | notOpened | notTruncated | notMapped | mapped
  deriving DecidableEq, Repr

/-! ## `init` -/

section Init

variable {Node : Type}

/-- One turn of the loop over the elements. -/
def initElement (model : IedModel Node) (outcome : FileOutcome) (config : MmsElement) :
    Except Fault (InitResult (Element Node)) :=
  match model.nodeByObjectReference config.objectRef with
  | none => .ok (.ready ⟨config.objectRef, config.filename, none, none, none⟩)
  | some node =>
    let itemSize := typeToItemSize TypeCode.int32
    let maxItems := 10
    match outcome with
    | .notOpened => .ok (.failed (-10))
    | .notTruncated => .ok (.failed (-20))
    | outcome => do
      -- `mmap_fd_write` gives a null pointer if the file cannot be mapped
      let mapping :=
        if outcome = .mapped then mmapNew (calculateBufferSize itemSize maxItems) else none
      let (_, buffer) ← initHeader TypeCode.int32 itemSize maxItems (← deref mapping)
      return .ready ⟨config.objectRef, config.filename, some node, model.parent node, some buffer⟩

/-- The loop over the elements from element `i` on. -/
def initElements (model : IedModel Node) (outcome : ℕ → FileOutcome) (i : ℕ) :
    List MmsElement → Except Fault (InitResult (List (Element Node)))
  | [] => .ok (.ready [])
  | config :: configs => do
    match ← initElement model (outcome i) config with
    | .failed code => return .failed code
    | .ready e =>
      match ← initElements model outcome (i + 1) configs with
      | .failed code => return .failed code
      | .ready es => return .ready (e :: es)

/-- `init`. The model is what `ConfigFileParser_createModelFromConfigFileEx` makes of the
configuration file; `running` is what `IedServer_isRunning` answers after the start. -/
def initMmsServer (parsed : String → Option (IedModel Node)) (outcome : ℕ → FileOutcome)
    (running : Bool) (settings : MmsServerSettings) :
    Except Fault (InitResult (MmsServer Node)) :=
  match parsed settings.configFile with
  | none => .ok (.failed (-1))
  | some model => do
    match ← initElements model outcome 0 settings.elements with
    | .failed code => return .failed code
    | .ready es => if running then return .ready ⟨es, []⟩ else return .failed (-1)

end Init

/-! ## The handlers -/

namespace MmsServer

variable {Node : Type}

/-- One turn of the loops of `readAccessHandler` and `event`: if the node of the element is
selected, the current value of the ring is handed to the library. -/
def refreshElement (select : Node → Prop) [DecidablePred select] (e : Element Node) :
    Except Fault (Element Node × List (Node × ℤ)) :=
  match e.node with
  | none => .ok (e, [])
  | some node =>
    if select node then do
      let (val, buffer) ← readCurrentInputInt32 (← deref e.buffer)
      return ({ e with buffer := some buffer }, [(node, val)])
    else .ok (e, [])

/-- The loop over the elements. -/
def refresh (select : Node → Prop) [DecidablePred select] (s : MmsServer Node) :
    Except Fault (MmsServer Node) := do
  let results ← s.elements.mapM (refreshElement select)
  return ⟨results.map Prod.fst, s.updates ++ results.flatMap Prod.snd⟩

/-- A client reads `dataObject`. The answer is `DATA_ACCESS_ERROR_SUCCESS`. -/
def readAccessHandler [DecidableEq Node] (dataObject : Node) (s : MmsServer Node) :
    Except Fault (MmsServer Node) :=
  s.refresh fun node => node = dataObject

/-- An event that the module is subscribed to: every element with a node. -/
def event (s : MmsServer Node) : Except Fault (MmsServer Node) :=
  s.refresh fun _ => True

/-- A client writes `val` to the attribute of element `i`. -/
def writeAccessHandler (i : ℕ) (val : BitVec 32) (s : MmsServer Node) :
    Except Fault (MmsServer Node) :=
  match s.elements[i]? with
  | none => .ok s
  | some e => do
    let (_, buffer) ← writeOutputInt val (← deref e.buffer)
    return { s with elements := s.elements.set i { e with buffer := some buffer } }

/-- Another module has changed the ring of element `i`. -/
def changeRing (i : ℕ) (buffer : Buffer) (s : MmsServer Node) : MmsServer Node :=
  match s.elements[i]? with
  | none => s
  | some e =>
    { s with elements := s.elements.set i { e with buffer := e.buffer.map fun _ => buffer } }

/-- What can happen to a server. -/
inductive Action (Node : Type)
  | read (dataObject : Node)
  | write (i : ℕ) (val : BitVec 32)
  | event
  | ring (i : ℕ) (buffer : Buffer)

def step [DecidableEq Node] (s : MmsServer Node) : Action Node → Except Fault (MmsServer Node)
  | .read dataObject => s.readAccessHandler dataObject
  | .write i val => s.writeAccessHandler i val
  | .event => s.event
  | .ring i buffer => .ok (s.changeRing i buffer)

/-- The value under the index of the ring of an element. -/
def newest (e : Element Node) : Option ℤ := e.buffer.map fun b => b.slot 4 b.index

/-- **A read access to `D` refreshes its attributes**: the handler returns, and what it has handed
to the library are the newest values of the elements whose object is `D`, and no others. -/
def Refreshes [DecidableEq Node] (s : MmsServer Node) (D : Node) : Prop :=
  ∃ s' us, s.readAccessHandler D = .ok s' ∧ s'.updates = s.updates ++ us ∧
    ∀ node val, (node, val) ∈ us ↔
      ∃ e ∈ s.elements, e.objnode = some D ∧ e.node = some node ∧ newest e = some val

end MmsServer

/-! ## One loop over the elements -/

namespace MmsServer

/-- An element with a node has a well-formed ring. -/
def Ringed {Node : Type} (e : Element Node) : Prop :=
  e.node.isSome → ∃ b, e.buffer = some b ∧ WellFormed TypeCode.int32 4 b

section Refresh

variable {Node : Type} {select : Node → Prop} [DecidablePred select]

/-- What a loop hands to the library for an element. -/
def copied (select : Node → Prop) [DecidablePred select] (e : Element Node) : List (Node × ℤ) :=
  match e.node, newest e with
  | some node, some val => if select node then [(node, val)] else []
  | _, _ => []

lemma mem_copied {e : Element Node} {node : Node} {val : ℤ} :
    (node, val) ∈ copied select e ↔ e.node = some node ∧ select node ∧ newest e = some val := by
  unfold copied
  split
  · next node' val' hnode hval =>
    rw [hnode, hval, Option.some.injEq, Option.some.injEq]
    split_ifs with h
    · rw [List.mem_singleton, Prod.mk.injEq]
      constructor
      · rintro ⟨rfl, rfl⟩
        exact ⟨rfl, h, rfl⟩
      · rintro ⟨rfl, -, rfl⟩
        exact ⟨rfl, rfl⟩
    · refine iff_of_false List.not_mem_nil ?_
      rintro ⟨rfl, hselect, -⟩
      exact h hselect
  · next hnone =>
    refine iff_of_false List.not_mem_nil ?_
    rintro ⟨hnode, -, hval⟩
    exact hnone node val hnode hval

/-- A turn of a loop, where the ring of a selected element can be read. -/
lemma refreshElement_eq {e : Element Node}
    (h : ∀ node, e.node = some node → select node →
      ∃ b, e.buffer = some b ∧ WellFormed TypeCode.int32 4 b) :
    refreshElement select e = .ok (e, copied select e) := by
  obtain ⟨ref, file, node, objnode, buffer⟩ := e
  cases node with
  | none => rfl
  | some node =>
    by_cases hselect : select node
    · obtain ⟨b, rfl, hb⟩ := h node rfl hselect
      simp only [refreshElement, if_pos hselect, deref, Fallible.ok_bind, copied, newest,
        Option.map_some]
      rw [readCurrentInputInt32_eq hb]
      rfl
    · have hcopied : copied select ⟨ref, file, some node, objnode, buffer⟩ = [] := by
        apply List.eq_nil_iff_forall_not_mem.mpr
        rintro ⟨node', val⟩ hmem
        obtain ⟨hnode, hselect', -⟩ := mem_copied.mp hmem
        obtain rfl := Option.some.inj hnode
        exact hselect hselect'
      rw [hcopied]
      exact if_neg hselect

/-- **A loop copies the newest values of the selected elements** and leaves the rings as they
are. -/
lemma refresh_eq {s : MmsServer Node}
    (h : ∀ e ∈ s.elements, ∀ node, e.node = some node → select node →
      ∃ b, e.buffer = some b ∧ WellFormed TypeCode.int32 4 b) :
    s.refresh select = .ok ⟨s.elements, s.updates ++ s.elements.flatMap (copied select)⟩ := by
  have hturns : s.elements.mapM (refreshElement select) =
      .ok (s.elements.map fun e => (e, copied select e)) := by
    rw [Fallible.mapM_eq_ok_iff, List.forall₂_map_right_iff, List.forall₂_same]
    intro e he
    exact refreshElement_eq (h e he)
  rw [refresh, hturns, Fallible.ok_bind, List.map_map, List.flatMap_map]
  simp [Function.comp_def, pure, Except.pure]

/-- A loop that selects no element does nothing. -/
lemma refresh_of_not_selected {s : MmsServer Node}
    (h : ∀ e ∈ s.elements, ∀ node, e.node = some node → ¬ select node) :
    s.refresh select = .ok s := by
  have hcopied : s.elements.flatMap (copied select) = [] := by
    apply List.eq_nil_iff_forall_not_mem.mpr
    rintro ⟨node, val⟩ hmem
    obtain ⟨e, he, hmem⟩ := List.mem_flatMap.mp hmem
    obtain ⟨hnode, hselect, -⟩ := mem_copied.mp hmem
    exact h e he node hnode hselect
  rw [refresh_eq fun e he node hnode hselect => absurd hselect (h e he node hnode), hcopied,
    List.append_nil]

/-- An event copies the newest value of every ring that an element with a node has. -/
theorem event_copies {s : MmsServer Node} (h : ∀ e ∈ s.elements, Ringed e) :
    ∃ us, s.event = .ok ⟨s.elements, s.updates ++ us⟩ ∧
      ∀ node val, (node, val) ∈ us ↔
        ∃ e ∈ s.elements, e.node = some node ∧ newest e = some val := by
  refine ⟨_, refresh_eq fun e he node hnode _ => h e he (hnode ▸ rfl), fun node val => ?_⟩
  simp only [List.mem_flatMap, mem_copied, true_and]

end Refresh

/-! ## What stays along runs -/

/-- The element is what `init` has made of its configuration, up to the contents of the ring. -/
structure OfConfig {Node : Type} (model : IedModel Node) (config : MmsElement) (e : Element Node) :
    Prop where
  node_eq : e.node = model.nodeByObjectReference config.objectRef
  objnode_eq : e.objnode = e.node.bind model.parent
  mapped : e.node.isSome → e.buffer.isSome

/-- The elements are those of the configuration, in its order. -/
def ConfiguredBy {Node : Type} (s : MmsServer Node) (model : IedModel Node)
    (configs : List MmsElement) : Prop :=
  List.Forall₂ (OfConfig model) configs s.elements

section Configured

variable {Node : Type} {model : IedModel Node} {config : MmsElement} {configs : List MmsElement}
  {e : Element Node} {s s' : MmsServer Node}

/-- The contents of the ring of a mapped element do not matter. -/
lemma OfConfig.setBuffer {buffer : Option Buffer} (h : OfConfig model config e)
    (hbuffer : e.buffer.isSome → buffer.isSome) :
    OfConfig model config { e with buffer := buffer } where
  node_eq := h.node_eq
  objnode_eq := h.objnode_eq
  mapped hnode := hbuffer (h.mapped hnode)

/-- The ring that `init` makes for an element. -/
lemma exists_newRing :
    ∃ b b', mmapNew (calculateBufferSize (typeToItemSize TypeCode.int32) 10) = some b ∧
      initHeader TypeCode.int32 (typeToItemSize TypeCode.int32) 10 b = .ok ((), b') ∧
      WellFormed TypeCode.int32 4 b' := by
  have hsize : calculateBufferSize (typeToItemSize TypeCode.int32) 10 = 16 + (4 : ℕ) * 10 := by
    decide
  have hpos : 0 < calculateBufferSize (typeToItemSize TypeCode.int32) 10 := by decide
  obtain ⟨b, hb⟩ := exists_mmapNew hpos
  have hfields :
      List.Perm [HeaderField.size, .items, .index, .type] [.type, .size, .items, .index] := by
    decide
  have hwrites : writeFields TypeCode.int32 (4 : ℕ) 10 [.size, .items, .index, .type] =
      initHeader TypeCode.int32 (typeToItemSize TypeCode.int32) 10 := by
    simp [writeFields, initHeader, HeaderField.write, typeToItemSize]
  have htype : (0 : ℤ) ≤ TypeCode.int32 := by decide
  obtain ⟨b', hrun, hinv, hindex, -⟩ := headerInv_of_writeFields htype (by decide) (by decide)
    (by decide) (by decide) (hsize ▸ hb) hfields
  refine ⟨b, b', hb, hwrites ▸ hrun, hinv.wellFormed ?_⟩
  rw [hindex]
  decide

/-- A mapped element is set up. -/
lemma exists_initElement {node : Node}
    (h : model.nodeByObjectReference config.objectRef = some node) :
    ∃ b, WellFormed TypeCode.int32 4 b ∧ initElement model .mapped config =
      .ok (.ready ⟨config.objectRef, config.filename, some node, model.parent node, some b⟩) := by
  obtain ⟨b, b', hb, hrun, hwell⟩ := exists_newRing
  refine ⟨b', hwell, ?_⟩
  simp only [initElement, h, if_true, hb, deref, Fallible.ok_bind, hrun]
  rfl

/-- A turn of `init` that succeeds. -/
lemma ofConfig_of_initElement {outcome : FileOutcome}
    (h : initElement model outcome config = .ok (.ready e)) :
    OfConfig model config e ∧ Ringed e := by
  cases hnode : model.nodeByObjectReference config.objectRef with
  | none =>
    rw [initElement, hnode] at h
    cases h
    exact ⟨⟨hnode.symm, rfl, nofun⟩, nofun⟩
  | some node =>
    cases outcome with
    | notOpened | notTruncated | notMapped =>
      rw [initElement, hnode] at h
      cases h
    | mapped =>
      obtain ⟨b, hb, hready⟩ := exists_initElement hnode
      rw [hready] at h
      cases h
      exact ⟨⟨hnode.symm, rfl, fun _ => rfl⟩, fun _ => ⟨b, rfl, hb⟩⟩

lemma ofConfig_of_initElements {outcome : ℕ → FileOutcome} {i : ℕ} {es : List (Element Node)}
    (h : initElements model outcome i configs = .ok (.ready es)) :
    List.Forall₂ (fun config e => OfConfig model config e ∧ Ringed e) configs es := by
  induction configs generalizing i es with
  | nil =>
    cases h
    exact List.Forall₂.nil
  | cons config configs ih =>
    rw [initElements] at h
    obtain ⟨r, hr, hrest⟩ := Fallible.bind_eq_ok.mp h
    cases r with
    | failed code => cases hrest
    | ready e =>
      obtain ⟨rs, hrs, hready⟩ := Fallible.bind_eq_ok.mp hrest
      cases rs with
      | failed code => cases hready
      | ready es =>
        cases hready
        exact List.Forall₂.cons (ofConfig_of_initElement hr) (ih hrs)

/-- **A server that `init` has set up** has the elements of its configuration, with well-formed
rings. -/
lemma configuredBy_of_init {parsed : String → Option (IedModel Node)} {outcome : ℕ → FileOutcome}
    {running : Bool} {settings : MmsServerSettings}
    (hmodel : parsed settings.configFile = some model)
    (h : initMmsServer parsed outcome running settings = .ok (.ready s)) :
    s.ConfiguredBy model settings.elements ∧ ∀ e ∈ s.elements, Ringed e := by
  rw [initMmsServer, hmodel] at h
  obtain ⟨r, hr, hrest⟩ := Fallible.bind_eq_ok.mp h
  cases r with
  | failed code => cases hrest
  | ready es =>
    dsimp only at hrest
    split_ifs at hrest
    · cases hrest
      have hall := ofConfig_of_initElements hr
      refine ⟨hall.imp fun _ _ h => h.1, fun e he => ?_⟩
      obtain ⟨config, -, -, hringed⟩ := Fallible.exists_left_of_forall₂ hall he
      exact hringed
    · cases hrest

/-- A turn of a loop changes at most the contents of the ring. -/
lemma OfConfig.refreshElement {select : Node → Prop} [DecidablePred select]
    {r : Element Node × List (Node × ℤ)} (hr : refreshElement select e = .ok r)
    (h : OfConfig model config e) : OfConfig model config r.1 := by
  unfold MmsServer.refreshElement at hr
  split at hr
  · cases hr
    exact h
  · split_ifs at hr
    · obtain ⟨b, -, hread⟩ := Fallible.bind_eq_ok.mp hr
      obtain ⟨x, -, hready⟩ := Fallible.bind_eq_ok.mp hread
      cases hready
      exact h.setBuffer fun _ => rfl
    · cases hr
      exact h

lemma ConfiguredBy.refresh {select : Node → Prop} [DecidablePred select]
    (h : s.ConfiguredBy model configs) (hr : s.refresh select = .ok s') :
    s'.ConfiguredBy model configs := by
  obtain ⟨results, hresults, hready⟩ := Fallible.bind_eq_ok.mp hr
  cases hready
  have hturns := Fallible.mapM_eq_ok_iff.mp hresults
  rw [ConfiguredBy, List.forall₂_map_right_iff]
  rw [ConfiguredBy] at h
  generalize s.elements = es at h hturns
  clear hresults hr
  induction h generalizing results with
  | nil =>
    cases hturns
    exact List.Forall₂.nil
  | cons hofConfig _ ih =>
    cases hturns with
    | cons hturn hrest => exact List.Forall₂.cons (hofConfig.refreshElement hturn) (ih _ hrest)

/-- **Step lemma**: no action changes which elements there are. -/
lemma ConfiguredBy.step [DecidableEq Node] {a : Action Node} (h : s.ConfiguredBy model configs)
    (hstep : s.step a = .ok s') : s'.ConfiguredBy model configs := by
  cases a with
  | read dataObject => exact h.refresh hstep
  | event => exact h.refresh hstep
  | write i val =>
    dsimp only [MmsServer.step, writeAccessHandler] at hstep
    split at hstep
    · cases hstep
      exact h
    · next e he =>
      obtain ⟨b, -, hwrite⟩ := Fallible.bind_eq_ok.mp hstep
      obtain ⟨x, -, hready⟩ := Fallible.bind_eq_ok.mp hwrite
      cases hready
      exact Fallible.forall₂_set h he fun _ hofConfig => hofConfig.setBuffer fun _ => rfl
  | ring i buffer =>
    cases hstep
    dsimp only [changeRing]
    split
    · exact h
    · next e he =>
      refine Fallible.forall₂_set h he fun _ hofConfig => hofConfig.setBuffer fun hsome => ?_
      rwa [Option.isSome_map]

/-- **Run lemma**: what `init` has set up stays along runs. -/
lemma ConfiguredBy.exec [DecidableEq Node] {actions : List (Action Node)}
    (h : s.ConfiguredBy model configs) (hrun : Run.exec MmsServer.step s actions = .ok s') :
    s'.ConfiguredBy model configs := by
  have hstep : ∀ (t : MmsServer Node) (a : Action Node) (t' : MmsServer Node),
      t.ConfiguredBy model configs → t.step a = .ok t' → t'.ConfiguredBy model configs :=
    fun _ _ _ ht hs => ht.step hs
  exact Run.exec_invariant hstep h hrun

end Configured

end MmsServer

/-! ## Read accesses -/

section Read

variable {Node : Type} [DecidableEq Node] {model : IedModel Node} {configs : List MmsElement}
  {s : MmsServer Node} {D : Node}

open MmsServer

/-- No element of a configuration with data attributes has a data object as its node. -/
lemma readAccessHandler_eq (h : s.ConfiguredBy model configs)
    (hattr : ∀ config ∈ configs, ∀ node,
      model.nodeByObjectReference config.objectRef = some node → model.InDataObject node)
    (hD : model.modelType D = .dataObject) : s.readAccessHandler D = .ok s := by
  apply refresh_of_not_selected
  rintro e he node hnode rfl
  obtain ⟨config, hconfig, hofConfig⟩ := Fallible.exists_left_of_forall₂ h he
  have hfound : model.nodeByObjectReference config.objectRef = some node := by
    rw [← hofConfig.node_eq, hnode]
  have hkind := (hattr config hconfig node hfound).modelType_eq
  rw [hD] at hkind
  cases hkind

/-- An object is refreshed if and only if no element of the configuration lies in it. -/
lemma refreshes_iff (h : s.ConfiguredBy model configs)
    (hattr : ∀ config ∈ configs, ∀ node,
      model.nodeByObjectReference config.objectRef = some node → model.InDataObject node)
    (hD : model.modelType D = .dataObject) :
    s.Refreshes D ↔
      ∀ config ∈ configs,
        (model.nodeByObjectReference config.objectRef).bind model.parent ≠ some D := by
  constructor
  · rintro ⟨s', us, hs', hus, hmem⟩ config hconfig hparent
    -- nothing has been handed over, although there is an element with a ring
    obtain rfl : s = s' := Except.ok.inj ((readAccessHandler_eq h hattr hD).symm.trans hs')
    obtain rfl : us = [] := List.self_eq_append_right.mp hus
    obtain ⟨node, hnode, -⟩ := Option.bind_eq_some_iff.mp hparent
    obtain ⟨e, he, hofConfig⟩ := Fallible.exists_right_of_forall₂ h hconfig
    have hnode' : e.node = some node := hofConfig.node_eq.trans hnode
    obtain ⟨b, hb⟩ := Option.isSome_iff_exists.mp (hofConfig.mapped (hnode' ▸ rfl))
    have hobjnode : e.objnode = some D := by
      rw [hofConfig.objnode_eq, hofConfig.node_eq, hparent]
    have hval : newest e = some (b.slot 4 b.index) := by rw [newest, hb, Option.map_some]
    exact List.not_mem_nil ((hmem node _).mpr ⟨e, he, hobjnode, hnode', hval⟩)
  · intro hnone
    refine ⟨s, [], readAccessHandler_eq h hattr hD, (List.append_nil _).symm, fun node val => ?_⟩
    refine iff_of_false List.not_mem_nil ?_
    rintro ⟨e, he, hobjnode, -, -⟩
    obtain ⟨config, hconfig, hofConfig⟩ := Fallible.exists_left_of_forall₂ h he
    apply hnone config hconfig
    rw [← hofConfig.node_eq, ← hofConfig.objnode_eq, hobjnode]

/-- **When a read access refreshes a data object.** For every model, every configuration whose
elements are data attributes lying directly in data objects, every server that `init` has set up
for it and every state that the server reaches: a read access to the data object `D` copies the
newest values of the elements of `D`, and of no others, if and only if `D` has no element.

**Proof sketch.** The nodes and objects of the elements stay as `init` has found them
(`ConfiguredBy.exec`). The handler looks for an element whose node is `D`, but nodes are data
attributes; so nothing is copied, and an element of `D` keeps its old value. -/
theorem readAccess_refreshes_iff {parsed : String → Option (IedModel Node)}
    {outcome : ℕ → FileOutcome} {running : Bool} {settings : MmsServerSettings}
    {s₀ : MmsServer Node} {actions : List (Action Node)}
    (hmodel : parsed settings.configFile = some model)
    (hattr : ∀ config ∈ settings.elements, ∀ node,
      model.nodeByObjectReference config.objectRef = some node → model.InDataObject node)
    (hinit : initMmsServer parsed outcome running settings = .ok (.ready s₀))
    (hrun : Run.exec MmsServer.step s₀ actions = .ok s) (hD : model.modelType D = .dataObject) :
    s.Refreshes D ↔
      ∀ config ∈ settings.elements,
        (model.nodeByObjectReference config.objectRef).bind model.parent ≠ some D :=
  refreshes_iff ((configuredBy_of_init hmodel hinit).1.exec hrun) hattr hD

end Read

/-! ### A data object with one configured attribute -/

/-- Node `1` is an attribute of the data object `0`; the data object `2` is another one. -/
def sampleModel : IedModel ℕ where
  modelType n := if n = 1 then .dataAttribute else .dataObject
  parent n := if n = 1 then some 0 else none
  nodeByObjectReference ref := if ref = "LD/GGIO1.SPCSO1.stVal" then some 1 else none

def sampleElement : MmsElement := ⟨"LD/GGIO1.SPCSO1.stVal", "/tmp/spcso1"⟩

def sampleSettings : MmsServerSettings := ⟨"model.cfg", 102, [sampleElement]⟩

lemma inDataObject_sample : ∀ config ∈ sampleSettings.elements, ∀ node,
    sampleModel.nodeByObjectReference config.objectRef = some node →
      sampleModel.InDataObject node := by
  intro config hconfig node hnode
  obtain rfl := List.mem_singleton.mp hconfig
  obtain rfl : 1 = node := Option.some.inj hnode
  exact ⟨rfl, 0, rfl, rfl⟩

lemma exists_sampleServer :
    ∃ s, initMmsServer (fun _ => some sampleModel) (fun _ => .mapped) true sampleSettings =
      .ok (.ready s) := by
  have hnode : sampleModel.nodeByObjectReference sampleElement.objectRef = some 1 := rfl
  obtain ⟨b, -, hb⟩ := MmsServer.exists_initElement hnode
  refine ⟨⟨[⟨sampleElement.objectRef, sampleElement.filename, some 1, sampleModel.parent 1,
    some b⟩], []⟩, ?_⟩
  simp only [initMmsServer, sampleSettings, initElements, hb, Fallible.ok_bind]
  rfl

/-- The object without elements is refreshed. -/
theorem readAccess_refreshes_sample :
    ∃ s, initMmsServer (fun _ => some sampleModel) (fun _ => .mapped) true sampleSettings =
      .ok (.ready s) ∧ s.Refreshes 2 := by
  obtain ⟨s, hs⟩ := exists_sampleServer
  have hrun : Run.exec MmsServer.step s [] = .ok s := rfl
  have hobject : sampleModel.modelType 2 = .dataObject := rfl
  refine ⟨s, hs, (readAccess_refreshes_iff rfl inDataObject_sample hs hrun hobject).mpr ?_⟩
  decide

/-- The object of the configured attribute is not. -/
theorem not_readAccess_refreshes :
    ¬ ∀ (parsed : String → Option (IedModel ℕ)) (outcome : ℕ → FileOutcome) (running : Bool)
      (settings : MmsServerSettings) (model : IedModel ℕ) (s₀ s : MmsServer ℕ)
      (actions : List (MmsServer.Action ℕ)) (D : ℕ), parsed settings.configFile = some model →
      (∀ config ∈ settings.elements, ∀ node,
        model.nodeByObjectReference config.objectRef = some node → model.InDataObject node) →
      initMmsServer parsed outcome running settings = .ok (.ready s₀) →
      Run.exec MmsServer.step s₀ actions = .ok s → model.modelType D = .dataObject →
      s.Refreshes D := by
  intro h
  obtain ⟨s, hs⟩ := exists_sampleServer
  have hrefreshes := h _ _ _ _ sampleModel s s [] 0 rfl inDataObject_sample hs rfl rfl
  have hconfigured := (MmsServer.configuredBy_of_init rfl hs).1
  exact (refreshes_iff hconfigured inDataObject_sample rfl).mp hrefreshes _ List.mem_cons_self rfl

end Tmee
