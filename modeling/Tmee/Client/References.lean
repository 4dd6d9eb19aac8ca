import Tmee.Client.ReportHandler

set_option relaxedAutoImplicit false
set_option autoImplicit false

/-!
# References and nodes

Two functions of the client `libiec61850client.py` go from references to paths and back: `parseRef`
finds the node of a reference and the path to it, and `getRef` makes the reference of a path. They
are inverse to each other, on every model. But `parseRef` does not know where a model ends. It uses
`in` and subscripts on whatever it comes to, and on the texts of a data attribute these are about
parts of a text: the reference of a field returns a text, and one that goes on with a part of the
text raises an exception.

## Main definitions

* `Tmee.getRef` — the reference of a path.
* `Tmee.pathRef` — the same for a path that is in the model.
* `Tmee.IsPath` — the paths that have a reference.
* `Tmee.FindsDict` — `parseRef` returns, and what it returns is a dictionary.
* `Tmee.AvoidsTexts` — the path of a reference does not end at a text, or go on in it.

## Main results

* `Tmee.refPath_pathRef`, `Tmee.pathRef_of_refPath` — paths and references.
* `Tmee.getRef_parseRef` — the two functions are inverse to each other.
* `Tmee.findsDict_iff` — when `parseRef` finds a dictionary.
-/

namespace Tmee

open PyValue

/-! ## The reference of a path -/

/-- The loop of `getRef`, at an index. -/
def getRefFrom : ℕ → String → PyValue → List String → Except PyError (String × PyValue)
  | _, ref, mm, [] => .ok (ref, mm)
  | i, ref, mm, name :: path =>
    if mm.contains name then do
      let ref := if i = 1 then ref ++ "/" else if 1 < i then ref ++ "." else ref
      let mm ← mm.getItem name
      getRefFrom (i + 1) (ref ++ name) mm path
    else .ok (ref, mm)

/-- The reference of a path and the node at its end, or those of the part of the path that is in the
model. -/
def getRef (model : PyValue) (path : List String) : Except PyError (String × PyValue) :=
  getRefFrom 0 "" model path

/-- The names of a path after the separators of its levels. -/
def pathRef : List String → String
  | [] => ""
  | [ld] => ld
  | ld :: ln :: names => names.foldl (fun ref name => ref ++ "." ++ name) (ld ++ "/" ++ ln)

/-- A name that cannot be mistaken for two. -/
structure IsName (name : String) : Prop where
  ne_empty : name ≠ ""
  slash : '/' ∉ name.toList
  dot : '.' ∉ name.toList

instance (name : String) : Decidable (IsName name) :=
  decidable_of_iff (name ≠ "" ∧ '/' ∉ name.toList ∧ '.' ∉ name.toList)
    ⟨fun h => ⟨h.1, h.2.1, h.2.2⟩, fun h => ⟨h.1, h.2, h.3⟩⟩

/-- **A path that has a reference**: the separators of the levels do not occur in its names. -/
structure IsPath (path : List String) : Prop where
  ne_nil : path ≠ []
  ne_empty : path ≠ [""]
  slash : ∀ name ∈ path, '/' ∉ name.toList
  dot : ∀ name ∈ path.tail, '.' ∉ name.toList

section Paths

variable {model mm node : PyValue} {ref ld ln : String} {path names : List String}

lemma getRefFrom_of_resolve {i : ℕ} (hi : 1 < i) (h : mm.resolve names = .ok (some node)) :
    getRefFrom i ref mm names =
      .ok (names.foldl (fun ref name => ref ++ "." ++ name) ref, node) := by
  induction names generalizing i ref mm with
  | nil =>
    obtain rfl := Option.some.inj (Except.ok.inj h)
    rfl
  | cons name names ih =>
    obtain ⟨child, hitem, hrest⟩ := resolve_cons_eq_ok_some.mp h
    rw [getRefFrom, if_pos (contains_of_getItem hitem), hitem, if_neg (by omega), if_pos hi]
    exact ih (by omega) hrest

/-- **The reference of a path that is in the model.** -/
lemma getRef_of_resolve (h : model.resolve path = .ok (some node)) :
    getRef model path = .ok (pathRef path, node) := by
  cases path with
  | nil =>
    obtain rfl := Option.some.inj (Except.ok.inj h)
    rfl
  | cons ld names =>
    obtain ⟨device, hdevice, hrest⟩ := resolve_cons_eq_ok_some.mp h
    rw [getRef, getRefFrom, if_pos (contains_of_getItem hdevice), hdevice]
    cases names with
    | nil =>
      obtain rfl := Option.some.inj (Except.ok.inj hrest)
      simp [getRefFrom, pathRef]
    | cons ln names =>
      obtain ⟨child, hchild, hrest⟩ := resolve_cons_eq_ok_some.mp hrest
      simp only [Fallible.ok_bind]
      rw [getRefFrom, if_pos (contains_of_getItem hchild), hchild, Fallible.ok_bind,
        getRefFrom_of_resolve (by omega) hrest]
      simp [pathRef]

lemma toList_foldl_dot (ref : String) (names : List String) :
    (names.foldl (fun ref name => ref ++ "." ++ name) ref).toList =
      ref.toList ++ names.flatMap fun name => '.' :: name.toList := by
  induction names generalizing ref with
  | nil => simp
  | cons name names ih => simp [ih]

lemma intercalate_eq_append_flatMap (name : String) (names : List String) :
    ['.'].intercalate ((name :: names).map String.toList) =
      name.toList ++ names.flatMap fun name => '.' :: name.toList := by
  induction names generalizing name with
  | nil => simp
  | cons next names ih =>
    rw [List.map_cons, List.map_cons, List.intercalate_cons_cons, ← List.map_cons, ih next]
    simp

/-- The text of a reference: the logical device, a slash, and the names with dots between them. -/
lemma toList_pathRef (ld ln : String) (names : List String) :
    (pathRef (ld :: ln :: names)).toList =
      ld.toList ++ '/' :: ['.'].intercalate ((ln :: names).map String.toList) := by
  rw [pathRef, toList_foldl_dot, intercalate_eq_append_flatMap]
  simp

/-- **A path is the path of its reference alone.** -/
lemma pathRef_of_refPath (h : refPath ref = some path) (hpath : path ≠ []) :
    pathRef path = ref := by
  rcases refPath_eq_some h hpath with rfl | ⟨ld, names, rfl, href⟩
  · rfl
  · have hne : splitStr '.' names ≠ [] := splitStr_ne_nil
    obtain ⟨ln, rest, hnames⟩ := List.exists_cons_of_ne_nil hne
    apply String.toList_injective
    rw [hnames, toList_pathRef, ← hnames, intercalate_splitStr, href]

/-- A text made of parts without the separator is split into them. -/
lemma splitStr_ofList_intercalate {sep : Char} {parts : List String} (hparts : parts ≠ [])
    (h : ∀ part ∈ parts, sep ∉ part.toList) {s : String}
    (hs : s.toList = [sep].intercalate (parts.map String.toList)) : splitStr sep s = parts := by
  rw [splitStr, hs, List.splitOn_intercalate]
  · simp [Function.comp_def]
  · simpa using h
  · simpa using hparts

/-- The parts of a text do not have the separator. -/
lemma not_mem_of_mem_splitStr {sep : Char} {s part : String} (h : part ∈ splitStr sep s) :
    sep ∉ part.toList := by
  have hchars : ∀ xs : List Char, ∀ ys ∈ xs.splitOn sep, sep ∉ ys := by
    intro xs
    induction xs with
    | nil => simp
    | cons x xs ih =>
      rw [List.splitOn_cons_eq_if_modifyHead]
      split_ifs with hx
      · simpa using ih
      · cases hparts : xs.splitOn sep with
        | nil => exact absurd hparts (List.splitOn_ne_nil sep xs)
        | cons y ys =>
          rw [hparts, List.forall_mem_cons] at ih
          rw [List.modifyHead_cons, List.forall_mem_cons, List.mem_cons, not_or]
          exact ⟨⟨fun heq => hx (beq_iff_eq.mpr heq.symm), ih.1⟩, ih.2⟩
  obtain ⟨chars, hmem, rfl⟩ := List.mem_map.mp h
  rw [String.toList_ofList]
  exact hchars s.toList chars hmem

/-- The path of a reference has one. -/
lemma isPath_of_refPath (h : refPath ref = some path) (hpath : path ≠ []) : IsPath path := by
  rw [refPath] at h
  split_ifs at h with hempty
  · exact absurd (Option.some.inj h).symm hpath
  rcases hparts : splitStr '/' ref with _ | ⟨ld, _ | ⟨names, _ | ⟨third, rest⟩⟩⟩ <;>
    rw [hparts] at h
  · cases h
  · obtain rfl := Option.some.inj h
    have href : ref = ld := by
      apply String.toList_injective
      rw [← intercalate_splitStr '/' ref, hparts]
      simp
    refine ⟨hpath, by simpa using hempty, fun name hname => ?_, by simp⟩
    obtain rfl := List.mem_singleton.mp hname
    exact not_mem_of_mem_splitStr (hparts ▸ List.mem_singleton.mpr href)
  · obtain rfl := Option.some.inj h
    have hslash : ∀ part ∈ [ld, names], '/' ∉ part.toList := fun part hpart =>
      not_mem_of_mem_splitStr (hparts ▸ hpart)
    refine ⟨hpath, ?_, fun name hname => ?_, fun name hname => not_mem_of_mem_splitStr hname⟩
    · simp [splitStr_ne_nil]
    · rcases List.mem_cons.mp hname with rfl | hname
      · exact hslash name (by simp)
      · intro hmem
        have hnames := hslash names (by simp)
        rw [← intercalate_splitStr '.' names] at hnames
        obtain ⟨first, rest, hcons⟩ := List.exists_cons_of_ne_nil
          (show splitStr '.' names ≠ [] from splitStr_ne_nil)
        rw [hcons] at hname hnames
        rw [intercalate_eq_append_flatMap, List.mem_append, List.mem_flatMap, not_or] at hnames
        rcases List.mem_cons.mp hname with rfl | hname
        · exact hnames.1 hmem
        · exact hnames.2 ⟨name, hname, List.mem_cons_of_mem _ hmem⟩
  · cases h

/-- **The path of a reference is the path that it was made of.** -/
lemma refPath_pathRef (h : IsPath path) : refPath (pathRef path) = some path := by
  cases path with
  | nil => exact absurd rfl h.ne_nil
  | cons ld names =>
    have hslash := h.slash
    rw [List.forall_mem_cons] at hslash
    cases names with
    | nil =>
      have hne : ld ≠ "" := by simpa using h.ne_empty
      have hsplit : splitStr '/' ld = [ld] :=
        splitStr_ofList_intercalate (by simp) (by simpa using hslash.1) (by simp)
      rw [pathRef, refPath, if_neg hne, hsplit]
    | cons ln names =>
      have htext := toList_pathRef ld ln names
      have hdots : splitStr '.'
          (String.ofList (['.'].intercalate ((ln :: names).map String.toList))) = ln :: names :=
        splitStr_ofList_intercalate (by simp) (fun name hname => h.dot name hname) (by simp)
      have hnames : '/' ∉ ['.'].intercalate ((ln :: names).map String.toList) := by
        rw [intercalate_eq_append_flatMap, List.mem_append, List.mem_flatMap]
        rintro (hmem | ⟨name, hname, hmem⟩)
        · exact hslash.2 ln List.mem_cons_self hmem
        · rcases List.mem_cons.mp hmem with heq | hmem
          · exact absurd heq (by decide)
          · exact hslash.2 name (List.mem_cons_of_mem ln hname) hmem
      have hsplit : splitStr '/' (pathRef (ld :: ln :: names)) =
          [ld, String.ofList (['.'].intercalate ((ln :: names).map String.toList))] := by
        refine splitStr_ofList_intercalate (by simp) ?_ ?_
        · simpa using ⟨hslash.1, by simpa using hnames⟩
        · rw [htext]
          simp [List.intercalate_cons_cons]
      have hne : pathRef (ld :: ln :: names) ≠ "" := by
        intro heq
        rw [heq] at htext
        simp at htext
      rw [refPath, if_neg hne, hsplit]
      dsimp only
      rw [hdots]

/-- A path of names has a reference. -/
lemma isPath_of_isName (hpath : path ≠ []) (hnames : ∀ name ∈ path, IsName name) :
    IsPath path where
  ne_nil := hpath
  ne_empty := by
    rintro rfl
    exact (hnames "" List.mem_cons_self).ne_empty rfl
  slash name hname := (hnames name hname).slash
  dot name hname := (hnames name (List.mem_of_mem_tail hname)).dot

/-- A node below the node of a reference has a reference. -/
lemma exists_refPath_concat {name : String} (h : refPath ref = some path) (hname : IsName name) :
    ∃ r, refPath r = some (path ++ [name]) := by
  refine ⟨_, refPath_pathRef ?_⟩
  by_cases hpath : path = []
  · rw [hpath]
    exact isPath_of_isName (by simp) (by simpa using hname)
  have hold := isPath_of_refPath h hpath
  obtain ⟨ld, names, rfl⟩ := List.exists_cons_of_ne_nil hpath
  refine ⟨by simp, by simp, fun name' hname' => ?_, fun name' hname' => ?_⟩
  · rcases List.mem_append.mp hname' with hmem | hmem
    · exact hold.slash name' hmem
    · rw [List.mem_singleton.mp hmem]
      exact hname.slash
  · rw [List.cons_append, List.tail_cons] at hname'
    rcases List.mem_append.mp hname' with hmem | hmem
    · exact hold.dot name' hmem
    · rw [List.mem_singleton.mp hmem]
      exact hname.dot

end Paths

/-- **`getRef` and `parseRef` are inverse to each other**: the reference of the path that `parseRef`
returns is the one that it was given, and for a path of names in the model `parseRef` finds the node
and the path again.

**Proof sketch.** Both walk along a path. The path of a reference is its text cut at the separators
(`pathRef_of_refPath`), and a text that is put together from names is cut into the same names
(`refPath_pathRef`). -/
theorem getRef_parseRef (model : PyValue) :
    (∀ ref node path, parseRef model ref = .ok (node, path) → path ≠ [] →
      getRef model path = .ok (ref, node)) ∧
    (∀ path node, path ≠ [] → (∀ name ∈ path, IsName name) →
      model.resolve path = .ok (some node) →
        ∃ ref, getRef model path = .ok (ref, node) ∧ parseRef model ref = .ok (node, path)) := by
  constructor
  · intro ref node path hparse hpath
    obtain ⟨href, hresolve⟩ := (parseRef_eq_ok_iff hpath).mp hparse
    rw [getRef_of_resolve hresolve, pathRef_of_refPath href hpath]
  · intro path node hpath hnames hresolve
    refine ⟨pathRef path, getRef_of_resolve hresolve, ?_⟩
    have hrefPath := refPath_pathRef (isPath_of_isName hpath hnames)
    exact (parseRef_eq_ok_iff hpath).mpr ⟨hrefPath, hresolve⟩

/-- The reference of an attribute. -/
theorem getRef_parseRef_amp :
    parseRef (.dict ampModel) "D/L.Amp" = .ok (magNode "1", ["D", "L", "Amp"]) ∧
      getRef (.dict ampModel) ["D", "L", "Amp"] = .ok ("D/L.Amp", magNode "1") ∧
      ∃ ref, getRef (.dict ampModel) ["D", "L", "Amp2"] = .ok (ref, magNode "2") ∧
        parseRef (.dict ampModel) ref = .ok (magNode "2", ["D", "L", "Amp2"]) := by
  have hparse : parseRef (.dict ampModel) "D/L.Amp" = .ok (magNode "1", ["D", "L", "Amp"]) :=
    (parseRef_eq_ok_iff (by decide)).mpr ⟨by decide, rfl⟩
  exact ⟨hparse, (getRef_parseRef _).1 _ _ _ hparse (by decide),
    (getRef_parseRef _).2 _ _ (by decide) (by decide) rfl⟩

/-! ## References below a data attribute -/

/-- **`parseRef` finds a dictionary**: it returns a dictionary of the model and the path to it, or
nothing. -/
def FindsDict (model : PyValue) (ref : String) : Prop :=
  ∃ entries path, parseRef model ref = .ok (.dict entries, path) ∧
    (entries = [] ∧ path = [] ∨ model.resolve path = .ok (some (.dict entries)))

/-- **A path stays away from texts**: where its first part leads to a text, it goes on with a name
that is no part of the text. -/
def AvoidsTexts (model : PyValue) (path : List String) : Prop :=
  ∀ p s, p <+: path → model.resolve p = .ok (some (.str s)) →
    ∃ name, p ++ [name] <+: path ∧ ¬ name.toList <:+: s.toList

section Texts

variable {value child : PyValue} {ref name s : String} {path : List String}
  {entries : List (String × PyValue)}

lemma resolve_str_cons (s name : String) (path : List String) (node : PyValue) :
    (PyValue.str s).resolve (name :: path) ≠ .ok (some node) := by
  intro h
  obtain ⟨child, hchild, -⟩ := resolve_cons_eq_ok_some.mp h
  cases hchild

/-- A text has no names, but parts. -/
lemma leadsToDict_str_iff : LeadsToDict (.str s) path ↔ AvoidsTexts (.str s) path := by
  cases path with
  | nil =>
    constructor
    · rintro ⟨node, hnode, hdict⟩
      obtain ⟨entries, hentries⟩ := hdict (.str s) (Except.ok.inj hnode).symm
      cases hentries
    · intro h
      obtain ⟨name, hname, -⟩ := h [] s List.prefix_rfl rfl
      exact absurd (List.prefix_nil.mp hname) (by simp)
  | cons name path =>
    constructor
    · rintro ⟨node, hnode, -⟩ p s' hp hs'
      cases p with
      | nil =>
        obtain rfl : s = s' := by simpa [resolve] using hs'
        refine ⟨name, by simp, fun hpart => ?_⟩
        rw [resolve, if_pos (by simpa [contains] using hpart)] at hnode
        cases hnode
      | cons name' p => exact absurd hs' (resolve_str_cons s name' p _)
    · intro h
      obtain ⟨name', hname', hpart⟩ := h [] s List.nil_prefix rfl
      obtain rfl : name' = name := by simpa using hname'
      refine ⟨none, ?_, by simp⟩
      rw [resolve, if_neg (by simpa [contains] using hpart)]

/-- A path that begins at a dictionary stays away from texts if the rest of it does. -/
lemma avoidsTexts_dict_cons (h : (PyValue.dict entries).getItem name = .ok child) :
    AvoidsTexts (.dict entries) (name :: path) ↔ AvoidsTexts child path := by
  constructor
  · intro havoids p s hp hs
    obtain ⟨next, hnext, hpart⟩ := havoids (name :: p) s (List.cons_prefix_cons.mpr ⟨rfl, hp⟩)
      ((resolve_cons_of_getItem h p).trans hs)
    exact ⟨next, (List.cons_prefix_cons.mp hnext).2, hpart⟩
  · intro havoids p s hp hs
    cases p with
    | nil => cases hs
    | cons name' p =>
      obtain ⟨rfl, hrest⟩ := List.cons_prefix_cons.mp hp
      obtain ⟨next, hnext, hpart⟩ := havoids p s hrest ((resolve_cons_of_getItem h p).symm.trans hs)
      exact ⟨next, List.cons_prefix_cons.mpr ⟨rfl, hnext⟩, hpart⟩

/-- **A walk ends at a dictionary, or nowhere, if it stays away from texts.** -/
lemma leadsToDict_iff : LeadsToDict value path ↔ AvoidsTexts value path := by
  induction path generalizing value with
  | nil =>
    cases value with
    | str s => exact leadsToDict_str_iff
    | dict entries =>
      refine iff_of_true ⟨_, rfl, fun v hv => ⟨entries, (Option.some.inj hv).symm⟩⟩ ?_
      intro p s hp hs
      obtain rfl := List.prefix_nil.mp hp
      cases hs
  | cons name path ih =>
    cases value with
    | str s => exact leadsToDict_str_iff
    | dict entries =>
      cases hlookup : entries.lookup name with
      | none =>
        have hnone : (PyValue.dict entries).resolve (name :: path) = .ok none := by
          rw [resolve, contains, hlookup]
          rfl
        refine iff_of_true ⟨none, hnone, by simp⟩ ?_
        intro p s hp hs
        cases p with
        | nil => cases hs
        | cons name' p =>
          obtain ⟨rfl, -⟩ := List.cons_prefix_cons.mp hp
          obtain ⟨child, hchild, -⟩ := resolve_cons_eq_ok_some.mp hs
          rw [getItem, hlookup] at hchild
          cases hchild
      | some child =>
        have hitem : (PyValue.dict entries).getItem name = .ok child := by rw [getItem, hlookup]
        rw [avoidsTexts_dict_cons hitem, ← ih]
        simp only [LeadsToDict, resolve_cons_of_getItem hitem]

/-- What `parseRef` finds is at the end of the path of the reference. -/
lemma findsDict_iff_leadsToDict {model : PyValue} :
    FindsDict model ref ↔ ∀ path ∈ refPath ref, LeadsToDict model path := by
  rw [FindsDict, parseRef_eq]
  cases hpath : refPath ref with
  | none => exact iff_of_true ⟨[], [], rfl, Or.inl ⟨rfl, rfl⟩⟩ (by simp)
  | some path =>
    simp only [Option.mem_some_iff, forall_eq']
    constructor
    · rintro ⟨entries, path', hparse, -⟩
      cases hnode : model.resolve path with
      | error e =>
        rw [hnode] at hparse
        cases hparse
      | ok node =>
        refine ⟨node, hnode, ?_⟩
        rintro v rfl
        rw [hnode] at hparse
        exact ⟨entries, (Prod.mk.inj (Except.ok.inj hparse)).1⟩
    · rintro ⟨node, hnode, hdict⟩
      rw [hnode]
      cases node with
      | none => exact ⟨[], [], rfl, Or.inl ⟨rfl, rfl⟩⟩
      | some v =>
        obtain ⟨entries, rfl⟩ := hdict v rfl
        exact ⟨entries, path, rfl, Or.inr hnode⟩

end Texts

/-- **When `parseRef` finds a dictionary**: if the path of the reference stays away from the texts
of the model.

**Proof sketch.** On dictionaries the operators are about keys, and a key that is missing ends the
walk. The walk comes to at most one text, where a name that is a part of it raises an exception
(`leadsToDict_iff`). -/
theorem findsDict_iff (model : PyValue) (ref : String) :
    FindsDict model ref ↔ ∀ path ∈ refPath ref, AvoidsTexts model path := by
  simp only [findsDict_iff_leadsToDict, leadsToDict_iff]

/-- **A reference below a data attribute**: the digit is a part of the value, and the text has no
subscripts. -/
theorem not_findsDict_amp :
    ampIed.discovery = .ok ampModel ∧ ¬ FindsDict (.dict ampModel) "D/L.Amp.mag.value.1" ∧
      parseRef (.dict ampModel) "D/L.Amp.mag.value.1" = .error .typeError := by
  have hpath : refPath "D/L.Amp.mag.value.1" = some ["D", "L", "Amp", "mag", "value", "1"] := by
    decide
  have hparse : parseRef (.dict ampModel) "D/L.Amp.mag.value.1" = .error .typeError := by
    rw [parseRef_eq, hpath]
    rfl
  refine ⟨discovery_ampIed, ?_, hparse⟩
  rintro ⟨entries, path, hfound, -⟩
  rw [hparse] at hfound
  cases hfound

end Tmee
