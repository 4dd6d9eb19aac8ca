import Mathlib.Data.List.Nodup
import Tmee.Client.Calls
import Tmee.Client.Discovery

set_option relaxedAutoImplicit false
set_option autoImplicit false

/-!
# The search for a data set

To report a value instead of polling it, `registerForReporting` looks for a member of a data set
that stands for the value or for a node above it. It compares texts: a member is taken if the
reference starts with it, also where the name that the member ends with goes on in the reference.

## Main definitions

* `Tmee.CoversRef` — a reference stands for a node or for one above it.
* `Tmee.dataSetMembers` — the members of the data sets of a model.
* `Tmee.SelectsOrPolls` — a covering member is selected, or the reference is polled.
* `Tmee.CoversFirst` — a member that the reference only starts with comes after a covering one.

## Main results

* `Tmee.CoversRef.isPrefix` — a reference starts with what covers it.
* `Tmee.findDataset_eq` — the search is one for the first member that the reference starts with.
* `Tmee.selectsOrPolls_iff` — when the search is right.
-/

namespace Tmee

variable {V F : Type}

open PyValue

/-! ## References that cover others -/

/-- **A reference covers another**: it is the same one, or it has the same logical device, and its
names are the first ones of the other. -/
def CoversRef (value ref : String) : Prop :=
  value = ref ∨ ∃ above ∈ refPath value, ∃ path ∈ refPath ref, above ≠ [] ∧ above <+: path

instance (value ref : String) : Decidable (CoversRef value ref) := by
  unfold CoversRef
  infer_instance

section Covers

variable {sep : Char} {s value ref : String}

lemma intercalate_isPrefix {xs ys : List (List Char)} (hxs : xs ≠ []) (h : xs <+: ys) :
    [sep].intercalate xs <+: [sep].intercalate ys := by
  induction xs generalizing ys with
  | nil => exact absurd rfl hxs
  | cons x xs ih =>
    obtain ⟨rest, rfl⟩ := h
    cases xs with
    | nil =>
      cases rest with
      | nil => simp
      | cons y rest => simp [List.intercalate_cons_cons]
    | cons x' xs =>
      have hrest := ih (List.cons_ne_nil x' xs) (List.prefix_append (x' :: xs) rest)
      simpa [List.intercalate_cons_cons] using hrest

lemma splitStr_ne_nil : splitStr sep s ≠ [] := by
  simp [splitStr, List.splitOn_ne_nil]

/-- A text is its parts with the separator between them. -/
lemma intercalate_splitStr (sep : Char) (s : String) :
    [sep].intercalate ((splitStr sep s).map String.toList) = s.toList := by
  simp [splitStr, Function.comp_def, List.intercalate_splitOn]

/-- A text with the first parts of another is a prefix of it. -/
lemma isPrefix_of_splitStr {names names' : String}
    (h : splitStr sep names <+: splitStr sep names') : names.toList <+: names'.toList := by
  rw [← intercalate_splitStr sep names, ← intercalate_splitStr sep names']
  refine intercalate_isPrefix ?_ (h.map String.toList)
  simpa using splitStr_ne_nil

/-- The two forms of a path. -/
lemma refPath_eq_some {path : List String} (h : refPath ref = some path) (hpath : path ≠ []) :
    path = [ref] ∨ ∃ ld names, path = ld :: splitStr '.' names ∧
      ref.toList = ld.toList ++ '/' :: names.toList := by
  rw [refPath] at h
  split_ifs at h
  · exact absurd (Option.some.inj h).symm hpath
  rcases hparts : splitStr '/' ref with _ | ⟨ld, _ | ⟨names, _ | ⟨third, rest⟩⟩⟩ <;>
    rw [hparts] at h
  · cases h
  · exact Or.inl (Option.some.inj h).symm
  · refine Or.inr ⟨ld, names, (Option.some.inj h).symm, ?_⟩
    rw [← intercalate_splitStr '/' ref, hparts]
    simp [List.intercalate_cons_cons]
  · cases h

/-- **A reference starts with what covers it.** -/
lemma CoversRef.isPrefix (h : CoversRef value ref) : value.toList <+: ref.toList := by
  rcases h with rfl | ⟨above, habove, path, hpath, hne, hstarts⟩
  · exact List.prefix_rfl
  have hpath' : path ≠ [] := by
    rintro rfl
    exact hne (List.prefix_nil.mp hstarts)
  rcases refPath_eq_some hpath hpath' with rfl | ⟨ld', names', rfl, href⟩
  · rcases refPath_eq_some habove hne with rfl | ⟨ld, names, rfl, -⟩
    · obtain rfl : value = ref := by simpa using hstarts
      exact List.prefix_rfl
    · have hnil : splitStr '.' names = [] := by simpa using (List.cons_prefix_cons.mp hstarts).2
      exact absurd hnil splitStr_ne_nil
  · rcases refPath_eq_some habove hne with rfl | ⟨ld, names, rfl, hvalue⟩
    · obtain rfl : value = ld' := by simpa using hstarts
      rw [href]
      exact List.prefix_append _ _
    · obtain ⟨rfl, hnames⟩ := List.cons_prefix_cons.mp hstarts
      rw [href, hvalue, List.prefix_append_right_inj, List.cons_prefix_cons]
      exact ⟨rfl, isPrefix_of_splitStr hnames⟩

end Covers

/-! ## The members of the data sets -/

/-- A member of a data set: its place in a model, and the reference it stands for. -/
structure DataSetMember where
  ld : String
  ln : String
  ds : String
  index : String
  value : String
  deriving DecidableEq, Repr

/-- The place of a member. -/
def DataSetMember.place (m : DataSetMember) : String × String × String × String :=
  (m.ld, m.ln, m.ds, m.index)

/-- The entries of a dictionary. -/
def PyValue.entries : PyValue → List (String × PyValue)
  | .str _ => []
  | .dict entries => entries

/-- The members of a data set with their references. -/
def memberValues (dataset : PyValue) : List (String × String) :=
  dataset.entries.filterMap fun member =>
    match member.2.getItem "value" with
    | .ok (.str value) => some (member.1, value)
    | _ => none

/-- **The members of the data sets of a model**, in the order of the search. -/
def dataSetMembers (model : PyValue) : List DataSetMember :=
  model.entries.flatMap fun device => device.2.entries.flatMap fun node =>
    node.2.entries.flatMap fun dataset =>
      if (isDataset dataset.2).toOption = some true then
        (memberValues dataset.2).map fun member =>
          ⟨device.1, node.1, dataset.1, member.1, member.2⟩
      else []

/-- The test of the search. -/
def startsWith (ref value : String) : Bool := decide (value.toList <+: ref.toList)

section Search

variable {β : Type} {P : PyValue → Prop} {value dataset : PyValue} {ref : String}
  {model : List (String × PyValue)}

/-- A loop over the keys of a dictionary that looks at the values, as a search. -/
lemma PyValue.DictOf.findSomeM?_eq (h : DictOf P value)
    {f : String → PyValue → Except PyError (Option β)} {g : String × PyValue → Option β}
    (hf : ∀ k v, P v → f k v = .ok (g (k, v))) :
    (value.keys.findSomeM? fun k => do
      let v ← value.getItem k
      f k v) = .ok (value.entries.findSome? g) := by
  obtain ⟨entries, rfl, hentries⟩ := h
  have hloop : ∀ l : List (String × PyValue), l ⊆ entries →
      ((l.map Prod.fst).findSomeM? fun k => do
        let v ← (PyValue.dict entries).getItem k
        f k v) = .ok (l.findSome? g) := by
    intro l hl
    induction l with
    | nil => rfl
    | cons entry l ih =>
      obtain ⟨k, v⟩ := entry
      rw [List.cons_subset] at hl
      have hitem : (PyValue.dict entries).getItem k = .ok v :=
        getItem_eq_ok_iff.mpr ⟨entries, rfl, hentries.lookup_of_mem hl.1⟩
      rw [List.map_cons, List.findSomeM?_cons, hitem, Fallible.ok_bind,
        hf k v (hentries.values _ hl.1), Fallible.ok_bind, List.findSome?_cons]
      cases g (k, v) with
      | none => exact ih hl.2
      | some b => rfl
  exact hloop entries (List.Subset.refl entries)

/-- A number is the value of its digits. -/
lemma ofDigitChars_repr (n : ℕ) : Nat.ofDigitChars 10 n.repr.toList 0 = n := by
  rw [Nat.toList_repr, Nat.ofDigitChars_ten_toDigits]

lemma injective_repr : Function.Injective Nat.repr := by
  intro m n h
  rw [← ofDigitChars_repr m, h, ofDigitChars_repr]

/-- The members of a data set are numbered, and each has a reference. -/
lemma entriesOf_dataSetNode (members : List String) :
    EntriesOf (fun v => ∃ value, v.getItem "value" = .ok (.str value))
      (members.mapIdx memberEntry) where
  nodup := by
    have hkeys : (members.mapIdx memberEntry).map Prod.fst =
        (List.range' 0 members.length).map Nat.repr := by
      rw [← List.zipIdx_map_snd, List.mapIdx_eq_zipIdx_map, List.map_map, List.map_map]
      rfl
    rw [hkeys]
    exact List.Nodup.map injective_repr List.nodup_range'
  values entry hentry := by
    obtain ⟨index, hindex, rfl⟩ := List.mem_mapIdx.mp hentry
    exact ⟨_, rfl⟩

/-- The first result of a function that passes a test. -/
lemma find?_filterMap_map {α γ δ : Type} (F : α → Option γ) (p : γ → Bool) (h : γ → δ)
    (l : List α) :
    ((l.filterMap F).find? p).map h =
      l.findSome? fun x => (F x).bind fun y => if p y then some (h y) else none := by
  induction l with
  | nil => rfl
  | cons x l ih =>
    rw [List.filterMap_cons, List.findSome?_cons]
    cases F x with
    | none => exact ih
    | some y =>
      dsimp only [Option.bind_some]
      rw [List.find?_cons]
      cases p y with
      | false => exact ih
      | true => rfl

/-- **The search in a data set.** -/
lemma findMember_dataSetNode (members : List String) : findMember ref (dataSetNode members) =
    .ok (((memberValues (dataSetNode members)).find? fun member =>
      startsWith ref member.2).map Prod.fst) := by
  rw [findMember, memberValues, find?_filterMap_map]
  refine DictOf.findSomeM?_eq ⟨_, rfl, entriesOf_dataSetNode members⟩ ?_
  rintro k v ⟨value, hvalue⟩
  simp only [hvalue, Fallible.ok_bind, asStr, startsWith, Option.bind_some, decide_eq_true_eq]

/-- **The search for a data set** finds the first member that the reference starts with. -/
lemma findDataset_eq (h : DiscoveredModel model) : findDataset (.dict model) ref =
    .ok (((dataSetMembers (.dict model)).find? fun m => startsWith ref m.value).map
      DataSetMember.place) := by
  rw [findDataset, dataSetMembers, List.find?_flatMap, List.map_findSome?]
  refine DictOf.findSomeM?_eq ⟨model, rfl, h⟩ fun ld device hdevice => ?_
  rw [Function.comp_apply, List.find?_flatMap, List.map_findSome?]
  refine hdevice.findSomeM?_eq fun ln node hnode => ?_
  rw [Function.comp_apply, List.find?_flatMap, List.map_findSome?]
  refine hnode.findSomeM?_eq fun ds dataset hdataset => ?_
  rw [Function.comp_apply]
  cases hdataset with
  | directory hdirectory =>
    rw [isDataset_directory hdirectory]
    rfl
  | dataSet members =>
    rw [isDataset_dataSetNode, findMember_dataSetNode]
    cases members with
    | nil => rfl
    | cons dsRef members =>
      simp [Except.toOption, List.find?_map, Function.comp_def, DataSetMember.place]

lemma mem_memberValues {index text : String} (h : (index, text) ∈ memberValues dataset) :
    ∃ member, (index, member) ∈ dataset.entries ∧ member.getItem "value" = .ok (.str text) := by
  obtain ⟨⟨index', member⟩, hmem, hvalue⟩ := List.mem_filterMap.mp h
  dsimp only at hvalue
  split at hvalue
  · rename_i text' htext
    obtain ⟨rfl, rfl⟩ := Prod.mk.inj (Option.some.inj hvalue)
    exact ⟨member, hmem, htext⟩
  · cases hvalue

/-- A member is one of a data set of the model. -/
lemma exists_dataSet_of_mem (h : DiscoveredModel model) {m : DataSetMember}
    (hm : m ∈ dataSetMembers (.dict model)) :
    ∃ members, (PyValue.dict model).resolve [m.ld, m.ln, m.ds] =
        .ok (some (dataSetNode members)) ∧
      (m.index, m.value) ∈ memberValues (dataSetNode members) := by
  obtain ⟨⟨ld, device⟩, hdevice, hm⟩ := List.mem_flatMap.mp hm
  obtain ⟨⟨ln, node⟩, hnode, hm⟩ := List.mem_flatMap.mp hm
  obtain ⟨⟨ds, dataset⟩, hdataset, hm⟩ := List.mem_flatMap.mp hm
  obtain ⟨nodes, rfl, hnodes⟩ := h.values _ hdevice
  obtain ⟨datasets, rfl, hdatasets⟩ := hnodes.values _ hnode
  have hentry : NodeEntry dataset := hdatasets.values _ hdataset
  dsimp only at hm
  cases hentry with
  | directory hdirectory =>
    rw [isDataset_directory hdirectory] at hm
    cases hm
  | dataSet members =>
    split_ifs at hm
    · obtain ⟨⟨index, value⟩, hmember, rfl⟩ := List.mem_map.mp hm
      refine ⟨members, ?_, hmember⟩
      simp only [resolve_cons_eq_ok_some]
      exact ⟨_, getItem_eq_ok_iff.mpr ⟨_, rfl, h.lookup_of_mem hdevice⟩,
        _, getItem_eq_ok_iff.mpr ⟨_, rfl, hnodes.lookup_of_mem hnode⟩,
        _, getItem_eq_ok_iff.mpr ⟨_, rfl, hdatasets.lookup_of_mem hdataset⟩, rfl⟩
    · cases hm

/-- A member is found at its place. -/
lemma resolve_of_mem_dataSetMembers (h : DiscoveredModel model) {m : DataSetMember}
    (hm : m ∈ dataSetMembers (.dict model)) :
    (PyValue.dict model).resolve [m.ld, m.ln, m.ds, m.index, "value"] =
      .ok (some (.str m.value)) := by
  obtain ⟨members, hresolve, hmember⟩ := exists_dataSet_of_mem h hm
  obtain ⟨member, hmem, hvalue⟩ := mem_memberValues hmember
  have hitem : (dataSetNode members).getItem m.index = .ok member :=
    getItem_eq_ok_iff.mpr ⟨_, rfl, (entriesOf_dataSetNode members).lookup_of_mem hmem⟩
  simp only [resolve_cons_eq_ok_some] at hresolve ⊢
  obtain ⟨device, hdevice, node, hnode, dataset, hdataset, hnil⟩ := hresolve
  obtain rfl : dataset = dataSetNode members := by simpa [resolve] using hnil
  exact ⟨device, hdevice, node, hnode, _, hdataset, member, hitem, _, hvalue, rfl⟩

end Search

/-! ## What the search selects -/

/-- The client is asked to read a reference of this model, and can connect to the IED. -/
structure CanRead (urlparse : String → UriRef) (a : Answers V F) (c : Client)
    (key tupl ref : String) (model : PyValue) : Prop where
  target : uriTarget (urlparse key) = .ok (some (tupl, ref))
  connected : ∃ s entry, getIED a (c.endpoint tupl) = .ok 0 s ∧ s.entry = some entry ∧
    entry.model = model
  found : ∃ node path, parseRef model ref = .ok (node, path) ∧ node.truthy = true

/-- **A covering member is selected, or the reference is polled**: the member that the search
selects covers the reference, and where no member does, no report is registered and the reference
comes into `polling`. -/
structure SelectsOrPolls (model : PyValue) (ref : String) : Prop where
  selects : ∀ ld ln ds index, findDataset model ref = .ok (some (ld, ln, ds, index)) →
    ∃ value, model.resolve [ld, ln, ds, index, "value"] = .ok (some (.str value)) ∧
      CoversRef value ref
  returns_false : (∀ m ∈ dataSetMembers model, ¬ CoversRef m.value ref) →
    ∀ {V F : Type} (a : Answers V F) cbRefs key tupl e entry, e.entry = some entry →
      entry.model = model → registerForReporting a cbRefs key tupl ref e = .ok (false, none) e
  polls : (∀ m ∈ dataSetMembers model, ¬ CoversRef m.value ref) →
    ∀ {V F : Type} urlparse (a : Answers V F) c key tupl,
      CanRead urlparse a c key tupl ref model →
      ∃ c', registerReadValue urlparse a key c = .ok 0 c' ∧ key ∈ c'.polling

/-- A member that the reference starts with, but that does not cover it, comes after one that
does. -/
def CoversFirst (model : PyValue) (ref : String) : Prop :=
  ∀ before m after, dataSetMembers model = before ++ m :: after → startsWith ref m.value →
    ¬ CoversRef m.value ref → ∃ m' ∈ before, CoversRef m'.value ref

/-- The first element that passes a coarse test passes the fine one, if every element for which they
differ comes after one that passes both. -/
lemma forall_find?_iff {α : Type} {p : α → Bool} {q : α → Prop} {l : List α}
    (h : ∀ x ∈ l, q x → p x = true) :
    (∀ x, l.find? p = some x → q x) ↔
      ∀ before x after, l = before ++ x :: after → p x = true → ¬ q x → ∃ y ∈ before, q y := by
  constructor
  · rintro hfirst before x after rfl hp hq
    cases hbefore : before.find? p with
    | none =>
      refine absurd (hfirst x ?_) hq
      rw [List.find?_append, hbefore, Option.none_or, List.find?_cons_of_pos hp]
    | some y =>
      refine ⟨y, List.mem_of_find?_eq_some hbefore, hfirst y ?_⟩
      rw [List.find?_append, hbefore, Option.some_or]
  · intro hearlier x hx
    obtain ⟨hp, before, after, rfl, hbefore⟩ := List.find?_eq_some_iff_append.mp hx
    by_contra hq
    obtain ⟨y, hy, hqy⟩ := hearlier before x after rfl hp hq
    have hpy := h y (List.mem_append_left _ hy) hqy
    simpa [hpy] using hbefore y hy

section Select

variable {model : List (String × PyValue)} {ref : String}

/-- A reference for which nothing is found is polled. -/
lemma polls_of_findDataset {urlparse : String → UriRef} {a : Answers V F} {c : Client}
    {key tupl : String} {model : PyValue} (hnone : findDataset model ref = .ok none)
    (h : CanRead urlparse a c key tupl ref model) :
    ∃ c', registerReadValue urlparse a key c = .ok 0 c' ∧ key ∈ c'.polling := by
  by_cases hmem : key ∈ c.polling
  · exact ⟨c, registerReadValue_of_mem hmem, hmem⟩
  obtain ⟨s, entry, hIED, hentry, rfl⟩ := h.connected
  obtain ⟨node, path, hparse, hnode⟩ := h.found
  have hregister : registerForReporting a c.cbRefs key tupl ref s = .ok (false, none) s := by
    rw [registerForReporting_eq hentry, searchReport, hnone]
    rfl
  rw [registerReadValue_of_not_mem hmem h.target, registerReadValueAt_of_connected hIED hentry,
    hparse]
  simp only [hnode, if_true, hregister]
  exact ⟨_, rfl, by simp [Client.register]⟩

/-- What the search selects, by the members of the data sets. -/
lemma selectsOrPolls_iff_find? (h : DiscoveredModel model) :
    SelectsOrPolls (.dict model) ref ↔ ∀ m,
      (dataSetMembers (.dict model)).find? (fun m => startsWith ref m.value) = some m →
        CoversRef m.value ref := by
  constructor
  · intro hselects m hm
    have hfound : findDataset (.dict model) ref = .ok (some m.place) := by
      rw [findDataset_eq h, hm]
      rfl
    obtain ⟨value, hvalue, hcovers⟩ := hselects.selects m.ld m.ln m.ds m.index hfound
    rw [resolve_of_mem_dataSetMembers h (List.mem_of_find?_eq_some hm)] at hvalue
    obtain rfl : m.value = value := by simpa using hvalue
    exact hcovers
  · intro hfind
    have hnone : (∀ m ∈ dataSetMembers (.dict model), ¬ CoversRef m.value ref) →
        findDataset (.dict model) ref = .ok none := by
      intro hno
      rw [findDataset_eq h]
      cases hm : (dataSetMembers (.dict model)).find? fun m => startsWith ref m.value with
      | none => rfl
      | some m => exact absurd (hfind m hm) (hno m (List.mem_of_find?_eq_some hm))
    refine ⟨?_, ?_, ?_⟩
    · intro ld ln ds index hfound
      rw [findDataset_eq h] at hfound
      obtain ⟨m, hm, hplace⟩ := Option.map_eq_some_iff.mp (Except.ok.inj hfound)
      obtain ⟨rfl, rfl, rfl, rfl⟩ : m.ld = ld ∧ m.ln = ln ∧ m.ds = ds ∧ m.index = index := by
        simpa [DataSetMember.place] using hplace
      exact ⟨m.value, resolve_of_mem_dataSetMembers h (List.mem_of_find?_eq_some hm), hfind m hm⟩
    · rintro hno V F a cbRefs key tupl e entry hentry hmodel
      rw [registerForReporting_eq hentry, searchReport, hmodel, hnone hno]
      rfl
    · intro hno V F urlparse a c key tupl
      exact polls_of_findDataset (hnone hno)

/-- **When the search is right**: for a model that `discovery` returns, if every member that the
reference starts with and that does not cover it comes after one that does.

**Proof sketch.** The search finds the first member that the reference starts with
(`findDataset_eq`), and a reference starts with what covers it (`CoversRef.isPrefix`). -/
theorem selectsOrPolls_iff {ied : IedAnswers} (h : ied.discovery = .ok model) :
    SelectsOrPolls (.dict model) ref ↔ CoversFirst (.dict model) ref := by
  rw [selectsOrPolls_iff_find? (IedAnswers.discoveredModel h), CoversFirst]
  refine forall_find?_iff fun m _ hcovers => ?_
  exact decide_eq_true hcovers.isPrefix

end Select

/-! ## Two data objects of which one name is the start of the other -/

/-- An IED with the data objects `Amp` and `Amp2`, and a data set with the first. -/
def ampIed : IedAnswers where
  devices := [("D", some [("L", {
    dataObjects := some [
      ("Amp", .cons "mag[MX]" .nil (some (.ok ("1", "float"))) .nil),
      ("Amp2", .cons "mag[MX]" .nil (some (.ok ("2", "float"))) .nil)]
    dataSets := some [("S", some ["D/L.Amp[MX]"])]
    urcbs := some [("R", .cons "DatSet[RP]" .nil (some (.ok ("D/L$S", "visible-string"))) .nil)]
    brcbs := some [] })])]

/-- The node of its attributes. -/
def magNode (value : String) : PyValue := .dict [("mag", daNode "MX" (some (value, "float")))]

/-- What `discovery` makes of it. -/
def ampModel : List (String × PyValue) :=
  [("D", .dict [("L", .dict [("Amp", magNode "1"), ("Amp2", magNode "2"),
    ("S", dataSetNode ["D/L.Amp[MX]"]),
    ("R", .dict [("DatSet", daNode "RP" (some ("D/L$S", "visible-string")))])])])]

lemma discovery_ampIed : ampIed.discovery = .ok ampModel := by
  rfl

lemma dataSetMembers_ampModel :
    dataSetMembers (.dict ampModel) = [⟨"D", "L", "S", "0", "D/L.Amp"⟩] := by
  decide +kernel

/-- The attribute of `Amp` is covered. -/
theorem selectsOrPolls_amp : SelectsOrPolls (.dict ampModel) "D/L.Amp.mag" := by
  refine (selectsOrPolls_iff discovery_ampIed).mpr ?_
  intro before m after hmembers _ hcovers
  rw [dataSetMembers_ampModel] at hmembers
  have hm : m ∈ [DataSetMember.mk "D" "L" "S" "0" "D/L.Amp"] := by simp [hmembers]
  obtain rfl := List.mem_singleton.mp hm
  exact absurd (by decide) hcovers

/-- **The search takes the wrong member**: the reference of the attribute of `Amp2` starts with the
text `D/L.Amp`, so that it is taken for a reported one, and it is neither reported nor polled. -/
theorem not_selectsOrPolls_amp2 :
    ampIed.discovery = .ok ampModel ∧ ¬ SelectsOrPolls (.dict ampModel) "D/L.Amp2.mag" := by
  refine ⟨discovery_ampIed, fun h => ?_⟩
  have hfound : findDataset (.dict ampModel) "D/L.Amp2.mag" = .ok (some ("D", "L", "S", "0")) := by
    rfl
  obtain ⟨value, hvalue, hcovers⟩ := h.selects "D" "L" "S" "0" hfound
  have hvalue' : (PyValue.dict ampModel).resolve ["D", "L", "S", "0", "value"] =
      .ok (some (.str "D/L.Amp")) := by
    rfl
  rw [hvalue'] at hvalue
  obtain rfl : "D/L.Amp" = value := by simpa using hvalue
  exact absurd hcovers (by decide)

end Tmee
