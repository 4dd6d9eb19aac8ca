import Tmee.Client.References

set_option relaxedAutoImplicit false
set_option autoImplicit false

/-!
# Data attributes of a model

A data attribute is a dictionary of texts, one of which is its value. Two models are the same but
for values if they have the same references, the same data attributes, and the same texts everywhere
else. A model that `discovery` returns has data attributes at the ends of its directories, so that a
text under `value` is the value of one, or the reference of a member of a data set.

## Main definitions

* `Tmee.DataLeaf`, `Tmee.LeafAt` — data attributes.
* `Tmee.SameButValues` — two models that differ in values of data attributes.
* `Tmee.AttributeTree` — what a directory of data attributes contains.

## Main results

* `Tmee.sameButValues_setAt` — a data attribute gets another value.
* `Tmee.dataLeaf_of_discoveredModel` — a text under `value` is one of a data attribute, or of a
  member of a data set.
-/

namespace Tmee

open PyValue

/-! ## Data attributes -/

/-- **A data attribute**: a dictionary of texts with the type `DA` and a value. -/
structure DataLeaf (node : PyValue) : Prop where
  texts : ∀ key v, node.getItem key = .ok v → ∃ s, v = .str s
  reftype : node.getItem "reftype" = .ok (.str "DA")
  value : ∃ s, node.getItem "value" = .ok (.str s)

/-- The path leads to a data attribute. -/
def LeafAt (model : PyValue) (path : List String) : Prop :=
  ∃ leaf, model.resolve path = .ok (some leaf) ∧ DataLeaf leaf

/-- **Two models that differ in values of data attributes**: every path is in both or in neither,
leads to a data attribute in both or in neither, and to the same text, unless it is the path of a
value. -/
structure SameButValues (model model' : PyValue) : Prop where
  resolves : ∀ p, (∃ n, model'.resolve p = .ok (some n)) ↔ ∃ n, model.resolve p = .ok (some n)
  leaves : ∀ p, LeafAt model' p ↔ LeafAt model p
  texts : ∀ p t, (∀ q, p = q ++ ["value"] → ¬ LeafAt model q) →
    (model'.resolve p = .ok (some (.str t)) ↔ model.resolve p = .ok (some (.str t)))

section Leaves

variable {model model' model'' node child child' value value' : PyValue} {name text : String}
  {path names : List String} {entries : List (String × PyValue)}

lemma DataLeaf.exists_dict (h : DataLeaf node) : ∃ entries, node = .dict entries := by
  obtain ⟨entries, rfl, -⟩ := getItem_eq_ok_iff.mp h.reftype
  exact ⟨entries, rfl⟩

lemma not_dataLeaf_str (s : String) : ¬ DataLeaf (.str s) := fun h => by cases h.reftype

/-- A node with a dictionary below it is no data attribute. -/
lemma not_dataLeaf_of_getItem (h : value.getItem name = .ok (.dict entries)) :
    ¬ DataLeaf value := by
  intro hleaf
  obtain ⟨s, hs⟩ := hleaf.texts name _ h
  cases hs

/-- Below a data attribute there is no other. -/
lemma DataLeaf.not_leafAt (h : DataLeaf node) (name : String) (names : List String) :
    ¬ LeafAt node (name :: names) := by
  rintro ⟨leaf, hresolve, hleaf⟩
  obtain ⟨child, hitem, hrest⟩ := resolve_cons_eq_ok_some.mp hresolve
  obtain ⟨s, rfl⟩ := h.texts name child hitem
  cases names with
  | nil =>
    obtain rfl : PyValue.str s = leaf := by simpa [resolve] using hrest
    exact not_dataLeaf_str s hleaf
  | cons next names => exact resolve_str_cons s next names leaf hrest

lemma leafAt_cons (h : value.getItem name = .ok child) :
    LeafAt value (name :: names) ↔ LeafAt child names := by
  simp only [LeafAt, resolve_cons_of_getItem h]

/-- Two data attributes are not on one path. -/
lemma LeafAt.eq_of_isPrefix (h : LeafAt model path) (h' : LeafAt model names)
    (hstarts : path <+: names) : path = names := by
  obtain ⟨rest, rfl⟩ := hstarts
  obtain ⟨leaf, hresolve, hleaf⟩ := h
  cases rest with
  | nil => simp
  | cons name rest =>
    obtain ⟨leaf', hresolve', hleaf'⟩ := h'
    rw [resolve_append_of_resolve hresolve] at hresolve'
    exact absurd ⟨leaf', hresolve', hleaf'⟩ (hleaf.not_leafAt name rest)

/-! ## One value -/

lemma SameButValues.refl (model : PyValue) : SameButValues model model :=
  ⟨fun _ => Iff.rfl, fun _ => Iff.rfl, fun _ _ _ => Iff.rfl⟩

lemma SameButValues.trans (h : SameButValues model model') (h' : SameButValues model' model'') :
    SameButValues model model'' where
  resolves p := (h'.resolves p).trans (h.resolves p)
  leaves p := (h'.leaves p).trans (h.leaves p)
  texts p t hp := by
    have hp' : ∀ q, p = q ++ ["value"] → ¬ LeafAt model' q := fun q hq =>
      mt (h.leaves q).mp (hp q hq)
    exact (h'.texts p t hp').trans (h.texts p t hp)

/-- A data attribute with another value is a data attribute. -/
lemma DataLeaf.insert (h : DataLeaf (.dict entries)) (text : String) :
    DataLeaf (.dict (insertEntry "value" (.str text) entries)) := by
  have hset : (PyValue.dict entries).setItem "value" (.str text) =
      .ok (.dict (insertEntry "value" (.str text) entries)) := rfl
  refine ⟨fun key v hitem => ?_, ?_, ⟨text, getItem_setItem_self hset⟩⟩
  · by_cases hkey : key = "value"
    · subst hkey
      rw [getItem_setItem_self hset] at hitem
      exact ⟨text, (Except.ok.inj hitem).symm⟩
    · rw [getItem_setItem_of_ne hset hkey] at hitem
      exact h.texts key v hitem
  · rw [getItem_setItem_of_ne hset (by decide)]
    exact h.reftype

/-- A data attribute gets another value. -/
lemma sameButValues_insert (h : DataLeaf (.dict entries)) (text : String) :
    SameButValues (.dict entries) (.dict (insertEntry "value" (.str text) entries)) := by
  have hset : (PyValue.dict entries).setItem "value" (.str text) =
      .ok (.dict (insertEntry "value" (.str text) entries)) := rfl
  obtain ⟨s, hs⟩ := h.value
  refine ⟨fun p => ?_, fun p => ?_, fun p t hp => ?_⟩
  · cases p with
    | nil => exact iff_of_true ⟨_, rfl⟩ ⟨_, rfl⟩
    | cons name names =>
      by_cases hname : name = "value"
      · subst hname
        rw [resolve_cons_of_getItem (getItem_setItem_self hset), resolve_cons_of_getItem hs]
        cases names with
        | nil => exact iff_of_true ⟨_, rfl⟩ ⟨_, rfl⟩
        | cons next names =>
          exact iff_of_false (fun ⟨n, hn⟩ => resolve_str_cons text next names n hn)
            (fun ⟨n, hn⟩ => resolve_str_cons s next names n hn)
      · rw [resolve_setItem_of_ne hset hname]
  · cases p with
    | nil => exact iff_of_true ⟨_, rfl, h.insert text⟩ ⟨_, rfl, h⟩
    | cons name names =>
      exact iff_of_false ((h.insert text).not_leafAt name names) (h.not_leafAt name names)
  · cases p with
    | nil => exact iff_of_false (by simp [resolve]) (by simp [resolve])
    | cons name names =>
      by_cases hname : name = "value"
      · subst hname
        rw [resolve_cons_of_getItem (getItem_setItem_self hset), resolve_cons_of_getItem hs]
        cases names with
        | nil => exact absurd ⟨_, rfl, h⟩ (hp [] rfl)
        | cons next names =>
          exact iff_of_false (resolve_str_cons text next names _) (resolve_str_cons s next names _)
      · rw [resolve_setItem_of_ne hset hname]

/-- A dictionary below a node is replaced by one that differs in values. -/
lemma SameButValues.setItem {entries' : List (String × PyValue)}
    (h : SameButValues (.dict entries) (.dict entries'))
    (hitem : value.getItem name = .ok (.dict entries))
    (hset : value.setItem name (.dict entries') = .ok value') : SameButValues value value' := by
  have hitem' := getItem_setItem_self hset
  obtain ⟨e, rfl, -⟩ := getItem_eq_ok_iff.mp hitem
  obtain ⟨e', rfl, -⟩ := getItem_eq_ok_iff.mp hitem'
  refine ⟨fun p => ?_, fun p => ?_, fun p t hp => ?_⟩
  · cases p with
    | nil => exact iff_of_true ⟨_, rfl⟩ ⟨_, rfl⟩
    | cons other names =>
      by_cases hname : other = name
      · subst hname
        rw [resolve_cons_of_getItem hitem', resolve_cons_of_getItem hitem, h.resolves]
      · rw [resolve_setItem_of_ne hset hname]
  · cases p with
    | nil =>
      refine iff_of_false ?_ ?_
      · rintro ⟨leaf, hleaf, hdata⟩
        obtain rfl : PyValue.dict e' = leaf := by simpa [resolve] using hleaf
        exact not_dataLeaf_of_getItem hitem' hdata
      · rintro ⟨leaf, hleaf, hdata⟩
        obtain rfl : PyValue.dict e = leaf := by simpa [resolve] using hleaf
        exact not_dataLeaf_of_getItem hitem hdata
    | cons other names =>
      by_cases hname : other = name
      · subst hname
        rw [leafAt_cons hitem', leafAt_cons hitem, h.leaves]
      · simp only [LeafAt, resolve_setItem_of_ne hset hname]
  · cases p with
    | nil => exact iff_of_false (by simp [resolve]) (by simp [resolve])
    | cons other names =>
      by_cases hname : other = name
      · subst hname
        rw [resolve_cons_of_getItem hitem', resolve_cons_of_getItem hitem]
        refine h.texts names t fun q hq hleaf => ?_
        exact hp (other :: q) (by rw [hq, List.cons_append]) ((leafAt_cons hitem).mpr hleaf)
      · rw [resolve_setItem_of_ne hset hname]

/-- A data attribute of a model gets another value. -/
lemma sameButValues_setAt (hresolve : model.resolve path = .ok (some (.dict entries)))
    (hleaf : DataLeaf (.dict entries))
    (hset : model.setAt path (.dict (insertEntry "value" (.str text) entries)) = .ok model') :
    SameButValues model model' := by
  induction path generalizing model model' with
  | nil =>
    obtain rfl : model = .dict entries := by simpa [resolve] using hresolve
    obtain rfl := Except.ok.inj hset
    exact sameButValues_insert hleaf text
  | cons name path ih =>
    obtain ⟨child, hitem, hrest⟩ := resolve_cons_eq_ok_some.mp hresolve
    obtain ⟨_, hitem', hset⟩ := Fallible.bind_eq_ok.mp hset
    obtain rfl := Except.ok.inj (hitem.symm.trans hitem')
    obtain ⟨child', hchild, hset⟩ := Fallible.bind_eq_ok.mp hset
    have hsame := ih hrest hchild
    have hdict : ∀ {v : PyValue}, (∃ n, v.resolve path = .ok (some n) ∧ ∃ e, n = .dict e) →
        ∃ e, v = .dict e := by
      rintro v ⟨n, hn, e, rfl⟩
      cases path with
      | nil => exact ⟨e, by simpa [resolve] using hn⟩
      | cons next path =>
        have habove : v.resolve ([] ++ next :: path) = .ok (some (.dict e)) := hn
        obtain ⟨e', he'⟩ := exists_dict_above habove
        exact ⟨e', by simpa [resolve] using he'⟩
    obtain ⟨e, rfl⟩ := hdict ⟨_, hrest, _, rfl⟩
    obtain ⟨e', rfl⟩ := hdict ⟨_, resolve_setAt hchild, _, rfl⟩
    exact hsame.setItem hitem hset

end Leaves

/-! ## The nodes of a model that was discovered -/

/-- What `printDataDirectory` makes: data attributes, and dictionaries of what it makes. -/
inductive AttributeTree : PyValue → Prop
  | leaf {node : PyValue} (h : DataLeaf node) : AttributeTree node
  | directory {entries : List (String × PyValue)} (h : ∀ entry ∈ entries, AttributeTree entry.2) :
    AttributeTree (.dict entries)

section Discovered

variable {model entries : List (String × PyValue)} {node tree : PyValue} {path : List String}
  {t : String}

lemma dataLeaf_of_texts (h : ∀ entry ∈ entries, ∃ s, entry.2 = .str s)
    (hreftype : entries.lookup "reftype" = some (.str "DA"))
    (hvalue : ∃ s, entries.lookup "value" = some (.str s)) : DataLeaf (.dict entries) := by
  refine ⟨fun key v hv => ?_, getItem_eq_ok_iff.mpr ⟨entries, rfl, hreftype⟩, ?_⟩
  · obtain ⟨_, heq, hlookup⟩ := getItem_eq_ok_iff.mp hv
    cases heq
    exact h _ (mem_of_lookup hlookup)
  · obtain ⟨s, hs⟩ := hvalue
    exact ⟨s, getItem_eq_ok_iff.mpr ⟨entries, rfl, hs⟩⟩

lemma dataLeaf_daNode (fc : String) (read : Option (String × String)) :
    DataLeaf (daNode fc read) := by
  obtain _ | ⟨value, type⟩ := read
  · exact dataLeaf_of_texts (by simp) rfl ⟨_, rfl⟩
  · exact dataLeaf_of_texts (by simp) rfl ⟨_, rfl⟩

lemma attributeTree_directory {doRef : String} {answers : Directory}
    (h : printDataDirectory doRef answers = .ok entries) : AttributeTree (.dict entries) :=
  .directory (entriesOf_printDataDirectory (fun fc read => .leaf (dataLeaf_daNode fc read))
    (fun _ h => .directory h.values) h).values

/-- A dictionary of dictionaries has no text under `value`. -/
lemma not_getItem_str {P : PyValue → Prop} {value : PyValue} {key : String} (h : DictOf P value)
    (hP : ∀ v, P v → ∃ entries, v = .dict entries) : value.getItem key ≠ .ok (.str t) := by
  intro hitem
  obtain ⟨entries, rfl, hentries⟩ := h
  obtain ⟨_, heq, hlookup⟩ := getItem_eq_ok_iff.mp hitem
  cases heq
  obtain ⟨below, hbelow⟩ := hP _ (hentries.values _ (mem_of_lookup hlookup))
  cases hbelow

/-- In a directory a text under `value` is one of a data attribute. -/
lemma AttributeTree.dataLeaf (h : AttributeTree tree)
    (hresolve : tree.resolve path = .ok (some node))
    (hvalue : node.getItem "value" = .ok (.str t)) : DataLeaf node := by
  induction h generalizing path with
  | leaf hleaf =>
    cases path with
    | nil =>
      obtain rfl := Option.some.inj (Except.ok.inj hresolve)
      exact hleaf
    | cons name path =>
      obtain ⟨child, hitem, hrest⟩ := resolve_cons_eq_ok_some.mp hresolve
      obtain ⟨s, rfl⟩ := hleaf.texts name child hitem
      cases path with
      | nil =>
        obtain rfl : PyValue.str s = node := by simpa [resolve] using hrest
        cases hvalue
      | cons next path => exact absurd hrest (resolve_str_cons s next path node)
  | @directory entries hentries ih =>
    cases path with
    | nil =>
      obtain rfl : PyValue.dict entries = node := by simpa [resolve] using hresolve
      obtain ⟨_, heq, hlookup⟩ := getItem_eq_ok_iff.mp hvalue
      cases heq
      have hmem := mem_of_lookup hlookup
      cases hentries _ hmem with
      | leaf hleaf => exact absurd hleaf (not_dataLeaf_str t)
    | cons name path =>
      obtain ⟨child, hitem, hrest⟩ := resolve_cons_eq_ok_some.mp hresolve
      obtain ⟨_, heq, hlookup⟩ := getItem_eq_ok_iff.mp hitem
      cases heq
      exact ih _ (mem_of_lookup hlookup) hrest

lemma NodeEntry.exists_dict (h : NodeEntry node) : ∃ entries, node = .dict entries := by
  cases h with
  | directory hdirectory => exact ⟨_, rfl⟩
  | dataSet members => exact ⟨_, rfl⟩

lemma PyValue.DictOf.exists_dict {P : PyValue → Prop} (h : DictOf P node) :
    ∃ entries, node = .dict entries := by
  obtain ⟨entries, rfl, -⟩ := h
  exact ⟨entries, rfl⟩

/-- One level of a model: a node with a text under `value` is further below. -/
lemma PyValue.DictOf.exists_below {P : PyValue → Prop} {value : PyValue} (h : DictOf P value)
    (hP : ∀ v, P v → ∃ entries, v = .dict entries)
    (hresolve : value.resolve path = .ok (some node))
    (hvalue : node.getItem "value" = .ok (.str t)) :
    ∃ name rest child, path = name :: rest ∧ P child ∧ value.getItem name = .ok child ∧
      child.resolve rest = .ok (some node) := by
  cases path with
  | nil =>
    obtain rfl := Option.some.inj (Except.ok.inj hresolve)
    exact absurd hvalue (not_getItem_str h hP)
  | cons name rest =>
    obtain ⟨child, hitem, hrest⟩ := resolve_cons_eq_ok_some.mp hresolve
    obtain ⟨entries, rfl, hentries⟩ := h
    obtain ⟨_, heq, hlookup⟩ := getItem_eq_ok_iff.mp hitem
    cases heq
    exact ⟨name, rest, child, rfl, hentries.values _ (mem_of_lookup hlookup), hitem, hrest⟩

/-- **A text under `value`** in a model that `discovery` returns is one of a data attribute, or of a
member of a data set. -/
theorem dataLeaf_of_discoveredModel {ied : IedAnswers} (h : ied.discovery = .ok model)
    (hresolve : (PyValue.dict model).resolve path = .ok (some node))
    (hvalue : node.getItem "value" = .ok (.str t)) :
    DataLeaf node ∨ ∃ p members, p <+: path ∧
      (PyValue.dict model).resolve p = .ok (some (dataSetNode members)) := by
  have hmodel : DictOf (DictOf (DictOf NodeEntry)) (.dict model) :=
    ⟨model, rfl, IedAnswers.discoveredModel h⟩
  obtain ⟨ld, rest, device, rfl, hdevice, hld, hresolve⟩ :=
    hmodel.exists_below (fun _ hv => hv.exists_dict) hresolve hvalue
  obtain ⟨ln, rest, ln', rfl, hnode, hln, hresolve⟩ :=
    hdevice.exists_below (fun _ hv => hv.exists_dict) hresolve hvalue
  obtain ⟨name, rest, entry, rfl, hentry, hname, hresolve⟩ :=
    hnode.exists_below (fun _ hv => hv.exists_dict) hresolve hvalue
  cases hentry with
  | directory hdirectory =>
    exact Or.inl ((attributeTree_directory hdirectory).dataLeaf hresolve hvalue)
  | dataSet members =>
    refine Or.inr ⟨[ld, ln, name], members, by simp, ?_⟩
    rw [resolve_cons_of_getItem hld, resolve_cons_of_getItem hln, resolve_cons_of_getItem hname]
    rfl

end Discovered

end Tmee
