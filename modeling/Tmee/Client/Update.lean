import Tmee.Client.Client
import Tmee.Client.Tree

set_option relaxedAutoImplicit false
set_option autoImplicit false

/-!
# Updates of a model

`updateValueInModel` replaces one node of a model: a data attribute gets the value that was read,
and any other node is replaced by what its data directory contains. An update that fails should
leave the model as it was. When the directory cannot be read, it is empty, and the node is replaced
by an empty one before the error is returned. An update that succeeds changes nothing but the node
of its reference.

## Main definitions

* `Tmee.updateNode` — what an update does to the node of its reference.
* `Tmee.UnchangedOnError` — an update that fails leaves the model as it was.
* `Tmee.KeepsNode` — the node is not replaced by an empty one.
* `Tmee.ReplacedAt` — two models that differ at one path only.
* `Tmee.UpdatedNode` — what an update that succeeds makes of its node.

## Main results

* `Tmee.updateRecurse_eq_ok_iff` — an update replaces one node.
* `Tmee.unchangedOnError_iff` — when an update that fails leaves the model as it was.
* `Tmee.updateValueInModel_changes_one` — an update that succeeds changes one node.
-/

namespace Tmee

variable {V F : Type}

/-- What an update does to the node of its reference, and the error. -/
def updateNode (a : Answers V F) (ref : String) (node : PyValue) :
    Except PyError (PyValue × ℤ) := do
  if ← isDataAttribute node then
    let fc ← node.getItem "FC"
    let fc ← fc.asStr
    if (a.readObject ref fc).1 = 0 then
      let printed ← printValue a.lib (a.readObject ref fc).2
      let node ← node.setItem "value" (.str printed.1)
      let node ← node.setItem "type" (.str printed.2)
      return (node, 0)
    else return (node, (a.readObject ref fc).1)
  else
    let directory ← directoryAt a ref
    return (.dict directory, if directory.isEmpty then -1 else 0)

section Update

variable {a : Answers V F} {model model' node : PyValue} {path : List String} {ref : String}
  {err : ℤ}

/-- The last step of the recursion: the node under a name is replaced. -/
lemma updateRecurse_singleton {name : String} (hitem : model.getItem name = .ok node) :
    updateRecurse a ref model [name] = do
      let r ← updateNode a ref node
      let model' ← model.setItem name r.1
      return (model', r.2) := by
  rw [updateRecurse, updateNode, hitem, Fallible.ok_bind]
  cases isDataAttribute node with
  | error e => rfl
  | ok isDa =>
    cases isDa with
    | false =>
      cases directoryAt a ref with
      | error e => rfl
      | ok directory => rfl
    | true =>
      simp only [Fallible.ok_bind, if_true]
      cases node.getItem "FC" with
      | error e => rfl
      | ok fc =>
        simp only [Fallible.ok_bind]
        cases fc.asStr with
        | error e => rfl
        | ok fc =>
          simp only [Fallible.ok_bind]
          split_ifs
          · cases printValue a.lib (a.readObject ref fc).2 with
            | error e => rfl
            | ok printed =>
              simp only [Fallible.ok_bind]
              cases node.setItem "value" (.str printed.1) with
              | error e => rfl
              | ok node' =>
                simp only [Fallible.ok_bind]
                cases node'.setItem "type" (.str printed.2) with
                | error e => rfl
                | ok node'' => rfl
          · show _ = (model.setItem name node >>= fun model' => _)
            rw [PyValue.setItem_getItem_self hitem]
            rfl

/-- **An update replaces one node**: the one at the end of its path. -/
lemma updateRecurse_eq_ok_iff (hpath : path ≠ []) :
    updateRecurse a ref model path = .ok (model', err) ↔ ∃ node node',
      model.resolve path = .ok (some node) ∧ updateNode a ref node = .ok (node', err) ∧
        model.setAt path node' = .ok model' := by
  induction path generalizing model model' with
  | nil => exact absurd rfl hpath
  | cons name names ih =>
    cases names with
    | nil =>
      constructor
      · intro h
        obtain ⟨node, hitem, -⟩ := Fallible.bind_eq_ok.mp h
        rw [updateRecurse_singleton hitem] at h
        obtain ⟨⟨node', err'⟩, hnode, hrest⟩ := Fallible.bind_eq_ok.mp h
        obtain ⟨model'', hset, hreturn⟩ := Fallible.bind_eq_ok.mp hrest
        obtain ⟨rfl, rfl⟩ := Prod.mk.inj (Except.ok.inj hreturn)
        refine ⟨node, node', PyValue.resolve_cons_eq_ok_some.mpr ⟨node, hitem, rfl⟩, hnode, ?_⟩
        rw [PyValue.setAt, hitem]
        exact hset
      · rintro ⟨node, node', hresolve, hnode, hset⟩
        obtain ⟨child, hitem, hchild⟩ := PyValue.resolve_cons_eq_ok_some.mp hresolve
        obtain rfl : child = node := Option.some.inj (Except.ok.inj hchild)
        rw [PyValue.setAt, hitem] at hset
        rw [updateRecurse_singleton hitem, hnode, Fallible.ok_bind]
        exact Fallible.bind_eq_ok.mpr ⟨model', hset, rfl⟩
    | cons name' names =>
      constructor
      · intro h
        obtain ⟨child, hitem, hrest⟩ := Fallible.bind_eq_ok.mp h
        obtain ⟨⟨child', err'⟩, hrec, hrest⟩ := Fallible.bind_eq_ok.mp hrest
        obtain ⟨model'', hset, hreturn⟩ := Fallible.bind_eq_ok.mp hrest
        obtain ⟨rfl, rfl⟩ := Prod.mk.inj (Except.ok.inj hreturn)
        obtain ⟨node, node', hresolve, hnode, hchild⟩ := (ih (List.cons_ne_nil _ _)).mp hrec
        refine ⟨node, node', PyValue.resolve_cons_eq_ok_some.mpr ⟨child, hitem, hresolve⟩, hnode,
          ?_⟩
        rw [PyValue.setAt, hitem, Fallible.ok_bind, hchild]
        exact hset
      · rintro ⟨node, node', hresolve, hnode, hset⟩
        obtain ⟨child, hitem, hchild⟩ := PyValue.resolve_cons_eq_ok_some.mp hresolve
        rw [PyValue.setAt, hitem, Fallible.ok_bind] at hset
        obtain ⟨child', hchild', hset⟩ := Fallible.bind_eq_ok.mp hset
        have hrec : updateRecurse a ref child (name' :: names) = .ok (child', err) :=
          (ih (List.cons_ne_nil _ _)).mpr ⟨node, node', hchild, hnode, hchild'⟩
        exact Fallible.bind_eq_ok.mpr ⟨child, hitem, Fallible.bind_eq_ok.mpr ⟨_, hrec,
          Fallible.bind_eq_ok.mpr ⟨model', hset, rfl⟩⟩⟩

/-- An update of a node that fails leaves the node, or an empty one in place of a directory. -/
lemma updateNode_of_error {node' : PyValue} (h : updateNode a ref node = .ok (node', err))
    (herr : err ≠ 0) : node' = node ∨
      (isDataAttribute node = .ok false ∧ directoryAt a ref = .ok [] ∧ node' = .dict []) := by
  obtain ⟨isDa, hda, hrest⟩ := Fallible.bind_eq_ok.mp h
  cases isDa with
  | true =>
    simp only [if_true] at hrest
    obtain ⟨_, -, hrest⟩ := Fallible.bind_eq_ok.mp hrest
    obtain ⟨fc, -, hrest⟩ := Fallible.bind_eq_ok.mp hrest
    split_ifs at hrest
    · obtain ⟨printed, -, hrest⟩ := Fallible.bind_eq_ok.mp hrest
      obtain ⟨node₁, -, hrest⟩ := Fallible.bind_eq_ok.mp hrest
      obtain ⟨node₂, -, hreturn⟩ := Fallible.bind_eq_ok.mp hrest
      exact absurd (Prod.mk.inj (Except.ok.inj hreturn)).2.symm herr
    · exact Or.inl (Prod.mk.inj (Except.ok.inj hrest)).1.symm
  | false =>
    obtain ⟨directory, hdirectory, hreturn⟩ := Fallible.bind_eq_ok.mp hrest
    obtain ⟨rfl, rfl⟩ := Prod.mk.inj (Except.ok.inj hreturn)
    cases directory with
    | nil => exact Or.inr ⟨hda, hdirectory, rfl⟩
    | cons entry entries => exact absurd rfl herr

/-! ## Updates that fail -/

/-- **An update that fails leaves the model as it was**: every reference stands for the same node as
before the call. -/
def UnchangedOnError (a : Answers V F) (model : PyValue) (ref : String) : Prop :=
  ∀ model' err, updateValueInModel a model ref = .ok (model', err) → err ≠ 0 →
    ∀ r, parseRef model' r = parseRef model r

/-- If the reference leads to a node that is no data attribute, and its data directory comes back
empty, then the node has been empty before. -/
def KeepsNode (a : Answers V F) (model : PyValue) (ref : String) : Prop :=
  ∀ node path, parseRef model ref = .ok (node, path) → path ≠ [] →
    isDataAttribute node = .ok false → directoryAt a ref = .ok [] → node = .dict []

/-- A node replaced by an empty one is found under its reference. -/
lemma UnchangedOnError.keepsNode (h : UnchangedOnError a model ref) : KeepsNode a model ref := by
  intro node path hparse hpath hda hdirectory
  obtain ⟨href, hresolve⟩ := (parseRef_eq_ok_iff hpath).mp hparse
  have hnode : updateNode a ref node = .ok (.dict [], -1) := by
    rw [updateNode, hda, hdirectory]
    rfl
  obtain ⟨model', hset⟩ := PyValue.exists_setAt hresolve (.dict [])
  have hupdate : updateValueInModel a model ref = .ok (model', -1) := by
    rw [updateValueInModel, hparse, Fallible.ok_bind]
    exact (updateRecurse_eq_ok_iff hpath).mpr ⟨node, .dict [], hresolve, hnode, hset⟩
  have hsame := h model' (-1) hupdate (by decide) ref
  have hempty : parseRef model' ref = .ok (.dict [], path) :=
    (parseRef_eq_ok_iff hpath).mpr ⟨href, PyValue.resolve_setAt hset⟩
  rw [hempty, hparse] at hsame
  exact (Prod.mk.inj (Except.ok.inj hsame)).1.symm

/-- **When an update that fails leaves the model as it was**: unless it replaces a node by the empty
directory that was read.

**Proof sketch.** An update replaces one node (`updateRecurse_eq_ok_iff`), by itself if the read of
a data attribute fails, and by an empty dictionary if a directory comes back empty. -/
theorem unchangedOnError_iff : UnchangedOnError a model ref ↔ KeepsNode a model ref := by
  constructor
  · exact UnchangedOnError.keepsNode
  · intro h model' err hupdate herr r
    obtain ⟨⟨node, path⟩, hparse, hrec⟩ := Fallible.bind_eq_ok.mp hupdate
    dsimp only at hrec
    by_cases hpath : path = []
    · subst hpath
      obtain ⟨rfl, -⟩ := Prod.mk.inj (Except.ok.inj hrec)
      rfl
    · obtain ⟨-, hresolve⟩ := (parseRef_eq_ok_iff hpath).mp hparse
      obtain ⟨node₁, node', hresolve₁, hnode, hset⟩ := (updateRecurse_eq_ok_iff hpath).mp hrec
      obtain rfl := Option.some.inj (Except.ok.inj (hresolve.symm.trans hresolve₁))
      have hkept : node' = node := by
        rcases updateNode_of_error hnode herr with hnode' | ⟨hda, hdirectory, hnode'⟩
        · exact hnode'
        · rw [hnode', h node path hparse hpath hda hdirectory]
      rw [hkept, PyValue.setAt_resolve hresolve] at hset
      rw [Except.ok.inj hset]

end Update

/-- **A data object is lost**: its directory cannot be read any more, and the update that fails
leaves an empty node. -/
theorem not_unchangedOnError_directory :
    ¬ UnchangedOnError losing (.dict oneReportModel) "D/L.X" := by
  intro h
  have hparse : parseRef (.dict oneReportModel) "D/L.X" =
      .ok (.dict [("v", attributeNode "ST" "")], ["D", "L", "X"]) := by
    rw [parseRef_eq_ok_iff (by decide)]
    exact ⟨by decide, rfl⟩
  cases h.keepsNode _ _ hparse (by decide) rfl rfl

/-! ## Updates that succeed -/

/-- **Two models differ at one path only**: a node is replaced, the nodes above it keep their keys,
and every other path ends as before. -/
structure ReplacedAt (model model' : PyValue) (path : List String) (node node' : PyValue) :
    Prop where
  before : model.resolve path = .ok (some node)
  after : model'.resolve path = .ok (some node')
  above : ∀ p, p <+: path → p ≠ path → ∃ n n', model.resolve p = .ok (some n) ∧
    model'.resolve p = .ok (some n') ∧ n'.keys = n.keys
  elsewhere : ∀ p, ¬ path <+: p → ¬ p <+: path → model'.resolve p = model.resolve p

/-- What an update makes of a node: a data attribute with the text and the type of the value that
was read, or the data directory in place of any other node. -/
inductive UpdatedNode (a : Answers V F) (ref : String) (node : PyValue) : PyValue → Prop
  | attribute {node' : PyValue} {fc text type : String} {v : V}
    (isDa : isDataAttribute node = .ok true) (hfc : node.getItem "FC" = .ok (.str fc))
    (read : a.readObject ref fc = (0, v)) (printed : printValue a.lib v = .ok (text, type))
    (value : node'.getItem "value" = .ok (.str text))
    (type : node'.getItem "type" = .ok (.str type))
    (others : ∀ key, key ≠ "value" → key ≠ "type" → node'.getItem key = node.getItem key) :
    UpdatedNode a ref node node'
  | directory {entries : List (String × PyValue)} (isDa : isDataAttribute node = .ok false)
    (read : directoryAt a ref = .ok entries) : UpdatedNode a ref node (.dict entries)

section Success

variable {a : Answers V F} {model model' node node' : PyValue} {path : List String} {ref : String}

lemma ReplacedAt.of_setAt (hresolve : model.resolve path = .ok (some node))
    (h : model.setAt path node' = .ok model') : ReplacedAt model model' path node node' where
  before := hresolve
  after := PyValue.resolve_setAt h
  above _ hstarts hne := PyValue.exists_resolve_above h hstarts hne
  elsewhere _ hbelow habove := PyValue.resolve_setAt_of_diverges h hbelow habove

/-- A reference whose path is not on the way to the node, and does not lead through it, stands for
what it stood for. -/
lemma ReplacedAt.parseRef_eq (h : ReplacedAt model model' path node node') {r : String}
    (hr : ∀ p ∈ refPath r, ¬ path <+: p ∧ ¬ p <+: path) : parseRef model' r = parseRef model r := by
  rw [Tmee.parseRef_eq, Tmee.parseRef_eq]
  cases hpath : refPath r with
  | none => rfl
  | some p =>
    obtain ⟨hbelow, habove⟩ := hr p hpath
    dsimp only
    rw [h.elsewhere p hbelow habove]

/-- An update of a node without an error. -/
lemma updatedNode_of_ok (h : updateNode a ref node = .ok (node', 0)) :
    UpdatedNode a ref node node' := by
  obtain ⟨isDa, hda, hrest⟩ := Fallible.bind_eq_ok.mp h
  cases isDa with
  | true =>
    simp only [if_true] at hrest
    obtain ⟨fcValue, hitem, hrest⟩ := Fallible.bind_eq_ok.mp hrest
    obtain ⟨fc, hfc, hrest⟩ := Fallible.bind_eq_ok.mp hrest
    rw [PyValue.asStr_eq_ok.mp hfc] at hitem
    split_ifs at hrest with hread
    · obtain ⟨⟨text, type⟩, hprinted, hrest⟩ := Fallible.bind_eq_ok.mp hrest
      obtain ⟨node₁, hvalue, hrest⟩ := Fallible.bind_eq_ok.mp hrest
      obtain ⟨node₂, htype, hreturn⟩ := Fallible.bind_eq_ok.mp hrest
      obtain ⟨rfl, -⟩ := Prod.mk.inj (Except.ok.inj hreturn)
      refine .attribute hda hitem (Prod.ext hread rfl) hprinted ?_
        (PyValue.getItem_setItem_self htype) fun key hkey hkey' => ?_
      · rw [PyValue.getItem_setItem_of_ne htype (by decide), PyValue.getItem_setItem_self hvalue]
      · rw [PyValue.getItem_setItem_of_ne htype hkey', PyValue.getItem_setItem_of_ne hvalue hkey]
    · exact absurd (Prod.mk.inj (Except.ok.inj hrest)).2 hread
  | false =>
    obtain ⟨directory, hdirectory, hreturn⟩ := Fallible.bind_eq_ok.mp hrest
    obtain ⟨rfl, -⟩ := Prod.mk.inj (Except.ok.inj hreturn)
    exact .directory hda hdirectory

/-- **An update that succeeds changes one node**: the value and the type of a data attribute, or a
directory as a whole. Every reference whose path neither leads to or through the node nor ends above
it stands for the same node as before.

**Proof sketch.** An update replaces one node (`updateRecurse_eq_ok_iff`), and a replacement is not
seen on other paths (`PyValue.resolve_setAt_of_diverges`). -/
theorem updateValueInModel_changes_one (h : updateValueInModel a model ref = .ok (model', 0)) :
    ∃ node node' path, parseRef model ref = .ok (node, path) ∧ refPath ref = some path ∧
      UpdatedNode a ref node node' ∧ ReplacedAt model model' path node node' ∧
      ∀ r, (∀ p ∈ refPath r, ¬ path <+: p ∧ ¬ p <+: path) →
        parseRef model' r = parseRef model r := by
  obtain ⟨⟨node, path⟩, hparse, hrec⟩ := Fallible.bind_eq_ok.mp h
  dsimp only at hrec
  have hpath : path ≠ [] := by
    rintro rfl
    simp [updateRecurse] at hrec
  obtain ⟨href, hresolve⟩ := (parseRef_eq_ok_iff hpath).mp hparse
  obtain ⟨node₁, node', hresolve₁, hnode, hset⟩ := (updateRecurse_eq_ok_iff hpath).mp hrec
  obtain rfl := Option.some.inj (Except.ok.inj (hresolve.symm.trans hresolve₁))
  have hreplaced := ReplacedAt.of_setAt hresolve hset
  exact ⟨node, node', path, hparse, href, updatedNode_of_ok hnode, hreplaced,
    fun r hr => hreplaced.parseRef_eq hr⟩

end Success

/-- A value is read into a model, and the reference of the report stands for the same node. -/
theorem updateValueInModel_changes_one_value : ∃ model',
    updateValueInModel answering (.dict oneReportModel) "D/L.X.v" = .ok (model', 0) ∧
      parseRef model' "D/L.R" = parseRef (.dict oneReportModel) "D/L.R" := by
  have href : refPath "D/L.X.v" = some ["D", "L", "X", "v"] := by decide
  have hparse : parseRef (.dict oneReportModel) "D/L.X.v" =
      .ok (attributeNode "ST" "", ["D", "L", "X", "v"]) := by
    rw [parseRef_eq_ok_iff (by decide)]
    exact ⟨href, rfl⟩
  obtain ⟨model', hupdate⟩ : ∃ model',
      updateValueInModel answering (.dict oneReportModel) "D/L.X.v" = .ok (model', 0) := by
    rw [updateValueInModel, hparse, Fallible.ok_bind]
    exact ⟨_, rfl⟩
  refine ⟨model', hupdate, ?_⟩
  obtain ⟨_, _, path, -, hpath, -, -, hothers⟩ := updateValueInModel_changes_one hupdate
  obtain rfl := Option.some.inj (href.symm.trans hpath)
  refine hothers "D/L.R" fun p hp => ?_
  have hreport : refPath "D/L.R" = some ["D", "L", "R"] := by decide
  obtain rfl := Option.some.inj (hreport.symm.trans hp)
  decide

end Tmee
