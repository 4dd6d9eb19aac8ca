import Tmee.Client.Attributes

set_option relaxedAutoImplicit false
set_option autoImplicit false

/-!
# What a report changes

A report should change values of data attributes and nothing else: the same references are found
after it, the same of them are data attributes, and the data attributes of a member that the report
includes have the values that it reports. The handler writes a text into whatever node the reference
of the member stands for. If that is a data object, then it gets a field `value` of its own, and the
attributes below it keep their old values. If a text cannot be decoded, then the members from it on
keep theirs.

## Main definitions

* `Tmee.WritesLeaves`, `Tmee.AvoidsValues` — references that stand for data attributes, and
  references that do not lead through values.
* `Tmee.ChangesOnlyValues`, `Tmee.ShowsReport` — what a report should do.
* `Tmee.LeafText` — the text that a data attribute has after values have been written.
* `Tmee.IncludesLeaves` — the members that are written are data attributes, and those that are not
  written have their values.

## Main results

* `Tmee.sameButValues_putValue`, `Tmee.hasValue_of_exec` — values that are written into data
  attributes.
* `Tmee.exists_hasValue_of_exec` — a value that is written into any other node.
* `Tmee.reportHandler_changesOnlyValues_iff` — when a report does what it should.
* `Tmee.valuesOfLeaves_of_discovery` — the nodes of members in a model that was discovered.
-/

namespace Tmee

open PyValue

/-! ## One value after the other -/

/-- The references stand for data attributes of the model, or for nothing. -/
def WritesLeaves (model : PyValue) (ws : List (String × String)) : Prop :=
  ∀ w ∈ ws, ∀ path ∈ refPath w.1, ∀ node, model.resolve path = .ok (some node) → DataLeaf node

section Values

variable {model model' : PyValue} {w : String × String} {ws : List (String × String)}
  {path : List String}

/-- A value is written into the node of its reference, or nowhere. -/
lemma putValue_cases (h : putValue model w = .ok model') :
    (model' = model ∧ ∀ path ∈ refPath w.1, model.resolve path = .ok none) ∨
    ∃ path entries, refPath w.1 = some path ∧ model.resolve path = .ok (some (.dict entries)) ∧
      model.setAt path (.dict (insertEntry "value" (.str w.2) entries)) = .ok model' := by
  rw [putValue] at h
  cases hpath : refPath w.1 with
  | none =>
    rw [hpath] at h
    exact Or.inl ⟨(Except.ok.inj h).symm, by simp⟩
  | some path =>
    rw [hpath] at h
    obtain ⟨found, hfound, h⟩ := Fallible.bind_eq_ok.mp h
    cases found with
    | none =>
      refine Or.inl ⟨(Except.ok.inj h).symm, fun path' hpath' => ?_⟩
      obtain rfl := Option.some.inj hpath'
      exact hfound
    | some node =>
      obtain ⟨node', hset, h⟩ := Fallible.bind_eq_ok.mp h
      cases node with
      | str s => cases hset
      | dict entries =>
        obtain rfl := Except.ok.inj hset
        exact Or.inr ⟨path, entries, rfl, hfound, h⟩

/-- What stands for data attributes stands for them after a change of values. -/
lemma WritesLeaves.of_same (h : WritesLeaves model ws) (hsame : SameButValues model model') :
    WritesLeaves model' ws := by
  intro w hw path hpath node hnode
  obtain ⟨old, hold⟩ := (hsame.resolves path).mp ⟨node, hnode⟩
  obtain ⟨leaf, hleaf, hdata⟩ := (hsame.leaves path).mpr ⟨old, hold, h w hw path hpath old hold⟩
  obtain rfl := Option.some.inj (Except.ok.inj (hnode.symm.trans hleaf))
  exact hdata

/-- **A value that is written into a data attribute changes nothing else.** -/
lemma sameButValues_putValue (h : WritesLeaves model ws) (hw : w ∈ ws)
    (hput : putValue model w = .ok model') : SameButValues model model' := by
  rcases putValue_cases hput with ⟨rfl, -⟩ | ⟨path, entries, hpath, hnode, hset⟩
  · exact .refl model'
  · exact sameButValues_setAt hnode (h w hw path hpath _ hnode) hset

/-- Values that are written into data attributes change nothing else. -/
lemma sameButValues_exec (h : WritesLeaves model ws)
    (hexec : Run.exec putValue model ws = .ok model') : SameButValues model model' := by
  have hstep : ∀ m w m', SameButValues model m → w ∈ ws → putValue m w = .ok m' →
      SameButValues model m' := by
    intro m w m' hsame hw hput
    exact hsame.trans (sameButValues_putValue (h.of_same hsame) hw hput)
  exact Run.exec_invariant_of_guarded hstep (.refl model) (fun _ _ _ hp => hp.mem) hexec

lemma WritesLeaves.mono {ws' : List (String × String)} (h : WritesLeaves model ws)
    (hsub : ws' ⊆ ws) : WritesLeaves model ws' :=
  fun w hw => h w (hsub hw)

/-- The value of a data attribute. -/
def HasValue (model : PyValue) (path : List String) (text : String) : Prop :=
  model.resolve (path ++ ["value"]) = .ok (some (.str text))

lemma hasValue_of_setAt {entries : List (String × PyValue)} {text : String}
    (hset : model.setAt path (.dict (insertEntry "value" (.str text) entries)) = .ok model') :
    HasValue model' path text := by
  have hitem : (PyValue.dict (insertEntry "value" (.str text) entries)).getItem "value" =
      .ok (.str text) :=
    getItem_eq_ok_iff.mpr ⟨_, rfl, lookup_insertEntry_self "value" (.str text) entries⟩
  rw [HasValue, resolve_append_of_resolve (resolve_setAt hset), resolve_cons_of_getItem hitem]
  rfl

/-- A value that is written elsewhere does not change that of a data attribute. -/
lemma HasValue.putValue {text : String} (hvalue : HasValue model path text)
    (hleaf : LeafAt model path) (h : WritesLeaves model ws) (hw : w ∈ ws)
    (hsame : refPath w.1 = some path → w.2 = text) (hput : putValue model w = .ok model') :
    HasValue model' path text := by
  rcases putValue_cases hput with ⟨rfl, -⟩ | ⟨path', entries, hpath', hnode, hset⟩
  · exact hvalue
  by_cases heq : path' = path
  · subst heq
    rw [← hsame hpath']
    exact hasValue_of_setAt hset
  have hleaf' : LeafAt model path' := ⟨_, hnode, h w hw path' hpath' _ hnode⟩
  rw [HasValue, resolve_setAt_of_diverges hset, hvalue]
  · intro hbelow
    rcases List.prefix_concat_iff.mp hbelow with rfl | hbelow
    · rw [HasValue, hnode] at hvalue
      cases Option.some.inj (Except.ok.inj hvalue)
    · exact heq (hleaf'.eq_of_isPrefix hleaf hbelow)
  · intro habove
    exact heq (hleaf.eq_of_isPrefix hleaf' ((List.prefix_append path _).trans habove)).symm

/-- **A data attribute has the value that was written into it**, if nothing else was. -/
lemma hasValue_of_exec (h : WritesLeaves model ws)
    (hexec : Run.exec putValue model ws = .ok model') (hw : w ∈ ws)
    (hpath : refPath w.1 = some path) (hleaf : LeafAt model path)
    (hsame : ∀ w' ∈ ws, refPath w'.1 = some path → w'.2 = w.2) : HasValue model' path w.2 := by
  obtain ⟨pre, post, rfl⟩ := List.append_of_mem hw
  obtain ⟨m₁, hpre, hexec⟩ := Run.exec_append_eq_ok.mp hexec
  obtain ⟨m₂, hput, hpost⟩ := Run.exec_cons_eq_ok.mp hexec
  have hsame₁ := sameButValues_exec (h.mono (List.subset_append_left _ _)) hpre
  have hsame₂ := sameButValues_putValue (h.of_same hsame₁) hw hput
  have hvalue₂ : HasValue m₂ path w.2 := by
    rcases putValue_cases hput with ⟨-, hmissing⟩ | ⟨path', entries, hpath', -, hset⟩
    · obtain ⟨leaf, hresolve, -⟩ := (hsame₁.leaves path).mpr hleaf
      rw [hmissing path hpath] at hresolve
      cases Except.ok.inj hresolve
    · obtain rfl := Option.some.inj (hpath.symm.trans hpath')
      exact hasValue_of_setAt hset
  have hstep : ∀ m w' m', SameButValues model m ∧ HasValue m path w.2 → w' ∈ post →
      putValue m w' = .ok m' → SameButValues model m' ∧ HasValue m' path w.2 := by
    rintro m w' m' ⟨hm, hvalue⟩ hw' hput'
    have hmem : w' ∈ pre ++ w :: post := by simp [hw']
    have hleaves := h.of_same hm
    exact ⟨hm.trans (sameButValues_putValue hleaves hmem hput'),
      hvalue.putValue ((hm.leaves path).mpr hleaf) hleaves hmem (hsame w' hmem) hput'⟩
  exact (Run.exec_invariant_of_guarded hstep ⟨hsame₁.trans hsame₂, hvalue₂⟩
    (fun _ _ _ hp => hp.mem) hpost).2

/-! ## Values in other nodes -/

/-- The references do not lead through values. -/
def AvoidsValues (ws : List (String × String)) : Prop :=
  ∀ w ∈ ws, ∀ path ∈ refPath w.1, "value" ∉ path

/-- A path to a dictionary still leads to one. -/
lemma exists_dict_putValue (hpath : "value" ∉ path)
    (hdict : ∃ entries, model.resolve path = .ok (some (.dict entries)))
    (hput : putValue model w = .ok model') :
    ∃ entries, model'.resolve path = .ok (some (.dict entries)) := by
  rcases putValue_cases hput with ⟨rfl, -⟩ | ⟨path', entries, -, hnode, hset⟩
  · exact hdict
  · obtain ⟨e, he⟩ := hdict
    rcases resolve_setAt_value hnode hset hpath with heq | ⟨_, e', -, he'⟩
    · exact ⟨e, heq.trans he⟩
    · exact ⟨e', he'⟩

/-- A text that has been written is replaced by texts only. -/
lemma exists_hasValue_putValue (h : AvoidsValues ws) (hw : w ∈ ws) (hpath : "value" ∉ path)
    (hvalue : ∃ text, HasValue model path text) (hput : putValue model w = .ok model') :
    ∃ text, HasValue model' path text := by
  rcases putValue_cases hput with ⟨rfl, -⟩ | ⟨path', entries, hpath', hnode, hset⟩
  · exact hvalue
  have havoids := h w hw path' hpath'
  by_cases heq : path' = path
  · subst heq
    exact ⟨w.2, hasValue_of_setAt hset⟩
  obtain ⟨text, htext⟩ := hvalue
  refine ⟨text, ?_⟩
  rw [HasValue]
  by_cases hbelow : path' <+: path
  · obtain ⟨rest, rfl⟩ := hbelow
    cases rest with
    | nil => exact absurd (by simp) heq
    | cons name rest =>
      have hne : name ≠ "value" := by
        rintro rfl
        simp at hpath
      have hitem : (PyValue.dict entries).setItem "value" (.str w.2) =
          .ok (.dict (insertEntry "value" (.str w.2) entries)) := rfl
      rw [HasValue, List.append_assoc, resolve_append_of_resolve hnode] at htext
      rw [List.append_assoc, resolve_append_of_resolve (resolve_setAt hset), List.cons_append,
        resolve_setItem_of_ne hitem hne]
      exact htext
  · rw [resolve_setAt_of_diverges hset]
    · exact htext
    · intro hstarts
      rcases List.prefix_concat_iff.mp hstarts with rfl | hstarts
      · simp at havoids
      · exact hbelow hstarts
    · intro habove
      exact havoids (habove.subset (by simp))

/-- **A node that is written into has a text for its value in the end.** -/
lemma exists_hasValue_of_exec (h : AvoidsValues ws)
    (hexec : Run.exec putValue model ws = .ok model') (hw : w ∈ ws)
    (hpath : refPath w.1 = some path)
    (hdict : ∃ entries, model.resolve path = .ok (some (.dict entries))) :
    ∃ text, HasValue model' path text := by
  have havoids := h w hw path hpath
  obtain ⟨pre, post, rfl⟩ := List.append_of_mem hw
  obtain ⟨m₁, hpre, hexec⟩ := Run.exec_append_eq_ok.mp hexec
  obtain ⟨m₂, hput, hpost⟩ := Run.exec_cons_eq_ok.mp hexec
  have hdict₁ : ∃ entries, m₁.resolve path = .ok (some (.dict entries)) :=
    Run.exec_invariant (fun _ _ _ hm hput => exists_dict_putValue havoids hm hput) hdict hpre
  have hvalue₂ : ∃ text, HasValue m₂ path text := by
    rcases putValue_cases hput with ⟨-, hmissing⟩ | ⟨path', entries, hpath', -, hset⟩
    · obtain ⟨e, he⟩ := hdict₁
      rw [hmissing path hpath] at he
      cases Except.ok.inj he
    · obtain rfl := Option.some.inj (hpath.symm.trans hpath')
      exact ⟨w.2, hasValue_of_setAt hset⟩
  have hstep : ∀ m w' m', (∃ text, HasValue m path text) → w' ∈ post →
      putValue m w' = .ok m' → ∃ text, HasValue m' path text := by
    intro m w' m' hm hw' hput'
    exact exists_hasValue_putValue h (by simp [hw'] : w' ∈ pre ++ w :: post) havoids hm hput'
  exact Run.exec_invariant_of_guarded hstep hvalue₂ (fun _ _ _ hp => hp.mem) hpost

end Values

/-! ## What a report should do -/

/-- **Only values of data attributes change**: the same references stand for nodes, the same of them
for data attributes, and every other text is the same. -/
structure ChangesOnlyValues (model model' : PyValue) : Prop where
  resolves : ∀ r, ∀ p ∈ refPath r,
    (∃ n, model'.resolve p = .ok (some n)) ↔ ∃ n, model.resolve p = .ok (some n)
  leaves : ∀ r, ∀ p ∈ refPath r, LeafAt model' p ↔ LeafAt model p
  texts : ∀ r, ∀ p ∈ refPath r, ∀ t, (∀ q, p = q ++ ["value"] → ¬ LeafAt model q) →
    (model'.resolve p = .ok (some (.str t)) ↔ model.resolve p = .ok (some (.str t)))

/-- **The values are shown**: every data attribute at or below an included member has the text that
the report has for it, which is a part of the value of the member, given by the names that lead to
the attribute. There is no such text if it cannot be decoded. -/
def ShowsReport (reported : ℕ → List String → Option String) (report : ClientReport)
    (refs : List String) (model' : PyValue) : Prop :=
  ∀ m ∈ included report refs, ∀ path ∈ refPath m.2, ∀ names leaf,
    model'.resolve (path ++ names) = .ok (some leaf) → DataLeaf leaf →
      ∃ t, reported m.1 names = some t ∧ leaf.getItem "value" = .ok (.str t)

/-- What is written for the members. -/
def textsOf (report : ClientReport) (refs : List String) : List (String × String) :=
  (written report refs).map (reportedText report)

/-- The text of a data attribute after these have been written: one of them, or the old one if none
is for the attribute. -/
def LeafText (model : PyValue) (ws : List (String × String)) (path : List String) (t : String) :
    Prop :=
  (∃ w ∈ ws, refPath w.1 = some path ∧ w.2 = t) ∨
    ((∀ w ∈ ws, refPath w.1 ≠ some path) ∧ HasValue model path t)

/-- **The written members are data attributes**, or are not in the model, and two of them for one
data attribute have the same value. The data attributes at or below a member that is included and
not written have the values that the report has for them all the same. -/
structure IncludesLeaves (reported : ℕ → List String → Option String) (model : PyValue)
    (report : ClientReport) (refs : List String) : Prop where
  leaf : ∀ m ∈ written report refs, ∀ path ∈ refPath m.2, ∀ node,
    model.resolve path = .ok (some node) → DataLeaf node
  same : ∀ m ∈ written report refs, ∀ m' ∈ written report refs, ∀ path ∈ refPath m.2,
    path ∈ refPath m'.2 → (∃ node, model.resolve path = .ok (some node)) →
      report.text m.1 = report.text m'.1
  others : ∀ m ∈ unwritten report refs, ∀ path ∈ refPath m.2, ∀ names,
    LeafAt model (path ++ names) →
      ∃ t, reported m.1 names = some t ∧ LeafText model (textsOf report refs) (path ++ names) t

/-- A node of a member that has a text for its value is a data attribute. -/
def ValuesOfLeaves (model : PyValue) (refs : List String) : Prop :=
  ∀ dsRef ∈ refs, ∀ path ∈ refPath (withoutFc dsRef), ∀ node t,
    model.resolve path = .ok (some node) → node.getItem "value" = .ok (.str t) → DataLeaf node

section Report

variable {model model' : PyValue} {refdata : String × String × String × String × String}
  {refs : List String} {report : ClientReport} {reported : ℕ → List String → Option String}

lemma SameButValues.changesOnlyValues (h : SameButValues model model') :
    ChangesOnlyValues model model' :=
  ⟨fun _ p _ => h.resolves p, fun _ p _ => h.leaves p, fun _ p _ t => h.texts p t⟩

lemma exists_mem_of_mem_included {m : ℕ × String} (h : m ∈ included report refs) :
    ∃ dsRef ∈ refs, m.2 = withoutFc dsRef := by
  obtain ⟨i, hi, rfl⟩ := List.mem_mapIdx.mp (List.mem_filter.mp h).1
  exact ⟨refs[i], List.getElem_mem hi, rfl⟩

lemma forall_mem_textsOf {P : String × String → Prop} :
    (∀ w ∈ textsOf report refs, P w) ↔ ∀ m ∈ written report refs, P (reportedText report m) :=
  List.forall_mem_map

lemma HoldsDataSet.avoidsValues (h : HoldsDataSet model refdata refs) (report : ClientReport) :
    AvoidsValues (textsOf report refs) := by
  refine forall_mem_textsOf.mpr fun m hm path hpath => ?_
  obtain ⟨dsRef, hdsRef, hm⟩ := exists_mem_of_mem_included (written_subset hm)
  exact (h.data dsRef hdsRef path (by rwa [← hm])).1

lemma HoldsDataSet.leadsToDict (h : HoldsDataSet model refdata refs) {m : ℕ × String}
    (hm : m ∈ included report refs) {path : List String} (hpath : path ∈ refPath m.2) :
    LeadsToDict model path := by
  obtain ⟨dsRef, hdsRef, hm⟩ := exists_mem_of_mem_included hm
  exact (h.data dsRef hdsRef path (by rwa [← hm])).2.2

/-- The value of a node. -/
lemma hasValue_iff {path : List String} {node : PyValue} {t : String}
    (hnode : model.resolve path = .ok (some node)) :
    HasValue model path t ↔ node.getItem "value" = .ok (.str t) := by
  rw [HasValue, resolve_append_of_resolve hnode, resolve_cons_eq_ok_some]
  constructor
  · rintro ⟨v, hv, hnil⟩
    obtain rfl : v = .str t := by simpa [resolve] using hnil
    exact hv
  · exact fun hv => ⟨.str t, hv, rfl⟩

/-- A data attribute has a text. -/
lemma exists_leafText {path : List String} (hleaf : LeafAt model path)
    (ws : List (String × String)) : ∃ t, LeafText model ws path t := by
  by_cases hwritten : ∃ w ∈ ws, refPath w.1 = some path
  · obtain ⟨w, hw, hpath⟩ := hwritten
    exact ⟨w.2, Or.inl ⟨w, hw, hpath, rfl⟩⟩
  · obtain ⟨leaf, hresolve, hdata⟩ := hleaf
    obtain ⟨t, ht⟩ := hdata.value
    exact ⟨t, Or.inr ⟨fun w hw hpath => hwritten ⟨w, hw, hpath⟩, (hasValue_iff hresolve).mpr ht⟩⟩

/-- **A data attribute has its text** after values have been written into data attributes. -/
lemma LeafText.hasValue {ws : List (String × String)} {path : List String} {t : String}
    (h : LeafText model ws path t) (hleaves : WritesLeaves model ws)
    (hexec : Run.exec putValue model ws = .ok model') (hleaf : LeafAt model path)
    (hsame : ∀ w ∈ ws, ∀ w' ∈ ws, refPath w.1 = some path → refPath w'.1 = some path →
      w.2 = w'.2) : HasValue model' path t := by
  rcases h with ⟨w, hw, hpath, rfl⟩ | ⟨hnot, hvalue⟩
  · exact hasValue_of_exec hleaves hexec hw hpath hleaf fun w' hw' hpath' =>
      hsame w' hw' w hw hpath' hpath
  · have hstep : ∀ m w m', SameButValues model m ∧ HasValue m path t → w ∈ ws →
        putValue m w = .ok m' → SameButValues model m' ∧ HasValue m' path t := by
      rintro m w m' ⟨hm, hvalue⟩ hw hput
      have hleaves' := hleaves.of_same hm
      exact ⟨hm.trans (sameButValues_putValue hleaves' hw hput),
        hvalue.putValue ((hm.leaves path).mpr hleaf) hleaves' hw
          (fun hpath => absurd hpath (hnot w hw)) hput⟩
    exact (Run.exec_invariant_of_guarded hstep ⟨.refl model, hvalue⟩
      (fun _ _ _ hp => hp.mem) hexec).2

/-- Two texts for one data attribute are the same. -/
lemma textsOf_same (hsame : ∀ m ∈ written report refs, ∀ m' ∈ written report refs,
      ∀ path ∈ refPath m.2, path ∈ refPath m'.2 → (∃ node, model.resolve path = .ok (some node)) →
        report.text m.1 = report.text m'.1)
    {path : List String} (hleaf : LeafAt model path) :
    ∀ w ∈ textsOf report refs, ∀ w' ∈ textsOf report refs, refPath w.1 = some path →
      refPath w'.1 = some path → w.2 = w'.2 := by
  obtain ⟨leaf, hresolve, -⟩ := hleaf
  refine forall_mem_textsOf.mpr fun m hm => forall_mem_textsOf.mpr fun m' hm' hpath hpath' => ?_
  exact congrArg (Option.getD · "") (hsame m hm m' hm' path hpath hpath' ⟨leaf, hresolve⟩)

/-- **Values for data attributes are shown.** -/
lemma IncludesLeaves.showsReport (h : IncludesLeaves reported model report refs)
    (hexec : Run.exec putValue model (textsOf report refs) = .ok model')
    (hreported : ∀ i, reported i [] = report.text i) :
    ShowsReport reported report refs model' := by
  have hleaves : WritesLeaves model (textsOf report refs) := forall_mem_textsOf.mpr h.leaf
  have hsame := sameButValues_exec hleaves hexec
  intro m hm path hpath names leaf hresolve hleaf
  have hbelow : LeafAt model (path ++ names) :=
    (hsame.leaves (path ++ names)).mp ⟨leaf, hresolve, hleaf⟩
  have hcases : m ∈ written report refs ∨ m ∈ unwritten report refs := by
    rw [← List.mem_append, written, unwritten, List.takeWhile_append_dropWhile]
    exact hm
  rcases hcases with hwritten | hunwritten
  · have hnode : ∃ node, model.resolve path = .ok (some node) := by
      obtain ⟨leaf', hleaf', -⟩ := hbelow
      cases names with
      | nil => exact ⟨leaf', by rwa [List.append_nil] at hleaf'⟩
      | cons name names =>
        obtain ⟨entries, hentries⟩ := exists_dict_above hleaf'
        exact ⟨_, hentries⟩
    obtain ⟨node, hnode⟩ := hnode
    have hat : LeafAt model path := ⟨node, hnode, h.leaf m hwritten path hpath node hnode⟩
    obtain rfl : names = [] := by
      simpa using hat.eq_of_isPrefix hbelow (List.prefix_append path names)
    obtain ⟨t, ht⟩ := Option.isSome_iff_exists.mp (isSome_text_of_mem_written hwritten)
    have hvalue : HasValue model' path t := by
      have hwrite : (reportedText report m).2 = t := by rw [reportedText, ht, Option.getD_some]
      exact LeafText.hasValue (Or.inl ⟨_, List.mem_map_of_mem hwritten, hpath, hwrite⟩) hleaves
        hexec hat (textsOf_same h.same hat)
    rw [List.append_nil] at hresolve
    exact ⟨t, (hreported m.1).trans ht, (hasValue_iff hresolve).mp hvalue⟩
  · obtain ⟨t, ht, htext⟩ := h.others m hunwritten path hpath names hbelow
    have hvalue := htext.hasValue hleaves hexec hbelow (textsOf_same h.same hbelow)
    exact ⟨t, ht, (hasValue_iff hresolve).mp hvalue⟩

/-- **A report that does what it should includes data attributes.** -/
lemma includesLeaves_of_changesOnlyValues (h : HoldsDataSet model refdata refs)
    (hvalues : ValuesOfLeaves model refs)
    (hexec : Run.exec putValue model (textsOf report refs) = .ok model')
    (hreported : ∀ i, reported i [] = report.text i)
    (hchanges : ChangesOnlyValues model model') (hshows : ShowsReport reported report refs model') :
    IncludesLeaves reported model report refs := by
  have hleaf : ∀ m ∈ written report refs, ∀ path ∈ refPath m.2, ∀ node,
      model.resolve path = .ok (some node) → DataLeaf node := by
    intro m hm path hpath node hnode
    by_contra hdata
    obtain ⟨node', hnode', hdict⟩ := h.leadsToDict (written_subset hm) hpath
    obtain rfl := Except.ok.inj (hnode.symm.trans hnode')
    obtain ⟨entries, rfl⟩ := hdict node rfl
    obtain ⟨text, htext⟩ := exists_hasValue_of_exec (h.avoidsValues report) hexec
      (List.mem_map_of_mem hm) hpath ⟨entries, hnode⟩
    -- the text was there before, since it is not the value of a data attribute
    obtain ⟨r, hr⟩ := exists_refPath_concat hpath (show IsName "value" by decide)
    have hold : model.resolve (path ++ ["value"]) = .ok (some (.str text)) := by
      refine (hchanges.texts r _ hr text fun q hq hleafAt => hdata ?_).mp htext
      obtain rfl : path = q := List.append_inj_left' hq rfl
      obtain ⟨leaf, hresolve, hleaf⟩ := hleafAt
      obtain rfl := Option.some.inj (Except.ok.inj (hnode.symm.trans hresolve))
      exact hleaf
    have hv := (hasValue_iff hnode).mp hold
    obtain ⟨dsRef, hdsRef, hm⟩ := exists_mem_of_mem_included (written_subset hm)
    exact hdata (hvalues dsRef hdsRef path (by rwa [← hm]) _ text hnode hv)
  have hsame : ∀ m ∈ written report refs, ∀ m' ∈ written report refs, ∀ path ∈ refPath m.2,
      path ∈ refPath m'.2 → (∃ node, model.resolve path = .ok (some node)) →
        report.text m.1 = report.text m'.1 := by
    rintro m hm m' hm' path hpath hpath' ⟨node, hnode⟩
    obtain ⟨leaf, hresolve, hdata⟩ :=
      (hchanges.leaves m.2 path hpath).mpr ⟨node, hnode, hleaf m hm path hpath node hnode⟩
    rw [← List.append_nil path] at hresolve
    obtain ⟨t, ht, hvalue⟩ := hshows m (written_subset hm) path hpath [] leaf hresolve hdata
    obtain ⟨t', ht', hvalue'⟩ := hshows m' (written_subset hm') path hpath' [] leaf hresolve hdata
    obtain rfl : t = t' := by simpa using hvalue.symm.trans hvalue'
    rw [← hreported, ← hreported, ht, ht']
  refine ⟨hleaf, hsame, fun m hm path hpath names hat => ?_⟩
  have hwrites : WritesLeaves model (textsOf report refs) := forall_mem_textsOf.mpr hleaf
  obtain ⟨leaf, hresolve, hdata⟩ := ((sameButValues_exec hwrites hexec).leaves _).mpr hat
  obtain ⟨t, ht, hvalue⟩ := hshows m (List.dropWhile_subset _ hm) path hpath names leaf hresolve
    hdata
  obtain ⟨t', htext⟩ := exists_leafText hat (textsOf report refs)
  have hvalue' := (hasValue_iff hresolve).mp
    (htext.hasValue hwrites hexec hat (textsOf_same hsame hat))
  obtain rfl : t = t' := by simpa using hvalue.symm.trans hvalue'
  exact ⟨t, ht, htext⟩

/-- **When a report does what it should**: if the members that are written are data attributes, and
the data attributes of the included members that are not written have their values all the same.

**Proof sketch.** The handler writes the texts of the members one after the other, up to the first
one that cannot be decoded (`reportHandler_model`). In a data attribute that changes a value and
nothing else (`sameButValues_putValue`); any other node has a text for its value after it
(`exists_hasValue_of_exec`), and had none before. -/
theorem reportHandler_changesOnlyValues_iff (h : HoldsDataSet model refdata refs)
    (hvalues : ValuesOfLeaves model refs) (hreported : ∀ i, reported i [] = report.text i) :
    ChangesOnlyValues model (reportHandler model refdata report).model ∧
        ShowsReport reported report refs (reportHandler model refdata report).model ↔
      IncludesLeaves reported model report refs := by
  have hexec : Run.exec putValue model (textsOf report refs) =
      .ok (reportHandler model refdata report).model := reportHandler_model h report
  constructor
  · rintro ⟨hchanges, hshows⟩
    exact includesLeaves_of_changesOnlyValues h hvalues hexec hreported hchanges hshows
  · intro hleaves
    have hwrites : WritesLeaves model (textsOf report refs) := forall_mem_textsOf.mpr hleaves.leaf
    exact ⟨(sameButValues_exec hwrites hexec).changesOnlyValues,
      hleaves.showsReport hexec hreported⟩

end Report

section Discovered

variable {model : List (String × PyValue)}

/-- **In a model that `discovery` returns**, a member that does not refer to a data set has a text
for its value only if it is a data attribute. -/
theorem valuesOfLeaves_of_discovery {ied : IedAnswers} (h : ied.discovery = .ok model)
    {refs : List String} (hrefs : ∀ dsRef ∈ refs, ∀ path ∈ refPath (withoutFc dsRef),
      ∀ members, ∀ p, p <+: path →
        (PyValue.dict model).resolve p ≠ .ok (some (dataSetNode members))) :
    ValuesOfLeaves (.dict model) refs := by
  intro dsRef hdsRef path hpath node t hresolve hvalue
  rcases dataLeaf_of_discoveredModel h hresolve hvalue with
    hleaf | ⟨p, members, hp, hds⟩
  · exact hleaf
  · exact absurd hds (hrefs dsRef hdsRef path hpath members p hp)

end Discovered

/-! ## A data object and its attribute -/

/-- What is kept for a report of the data set `S`. -/
def sRefdata : String × String × String × String × String := ("", "", "D", "L", "S")

/-- An IED with a data set for the attribute `mag`. -/
def magIed : IedAnswers where
  devices := [("D", some [("L", {
    dataObjects := some [("Amp", .cons "mag[MX]" .nil (some (.ok ("1", "float"))) .nil)]
    dataSets := some [("S", some ["D/L.Amp.mag[MX]"])]
    urcbs := some []
    brcbs := some [] })])]

/-- Its model. -/
def magModel : List (String × PyValue) :=
  [("D", .dict [("L", .dict [("Amp", magNode "1"), ("S", dataSetNode ["D/L.Amp.mag[MX]"])])])]

lemma discovery_magIed : magIed.discovery = .ok magModel := by
  rfl

/-- A report with the value `5` of the attribute. -/
def magReport : ClientReport := ⟨fun _ => 1, fun _ => .ok ("5", "float")⟩

lemma refPath_mag : refPath (withoutFc "D/L.Amp.mag[MX]") = some ["D", "L", "Amp", "mag"] := by
  decide

lemma holdsDataSet_mag : HoldsDataSet (.dict magModel) sRefdata ["D/L.Amp.mag[MX]"] where
  found := rfl
  data dsRef hdsRef path hpath := by
    obtain rfl := List.mem_singleton.mp hdsRef
    obtain rfl := Option.some.inj (refPath_mag.symm.trans hpath)
    exact ⟨by decide, by decide, _, rfl, fun v hv => ⟨_, (Option.some.inj hv).symm⟩⟩

/-- The value is shown, and nothing else changes. -/
theorem reportHandler_changesOnlyValues_mag :
    magIed.discovery = .ok magModel ∧
      ChangesOnlyValues (.dict magModel)
        (reportHandler (.dict magModel) sRefdata magReport).model ∧
      ShowsReport (fun _ _ => some "5") magReport ["D/L.Amp.mag[MX]"]
        (reportHandler (.dict magModel) sRefdata magReport).model := by
  have hleaf : ∀ path ∈ refPath (withoutFc "D/L.Amp.mag[MX]"), ∀ node,
      (PyValue.dict magModel).resolve path = .ok (some node) → DataLeaf node := by
    intro path hpath node hnode
    obtain rfl := Option.some.inj (refPath_mag.symm.trans hpath)
    obtain rfl := Option.some.inj (Except.ok.inj hnode)
    exact dataLeaf_daNode "MX" (some ("1", "float"))
  have hvalues : ValuesOfLeaves (.dict magModel) ["D/L.Amp.mag[MX]"] := by
    intro dsRef hdsRef path hpath node t hnode _
    obtain rfl := List.mem_singleton.mp hdsRef
    exact hleaf path hpath node hnode
  refine ⟨discovery_magIed,
    (reportHandler_changesOnlyValues_iff holdsDataSet_mag hvalues fun _ => rfl).mpr ⟨?_, ?_, ?_⟩⟩
  · intro m hm
    obtain ⟨dsRef, hdsRef, hm⟩ := exists_mem_of_mem_included (written_subset hm)
    rw [List.mem_singleton.mp hdsRef] at hm
    rw [hm]
    exact hleaf
  · intro m _ m' _ path _ _ _
    rfl
  · have hnone : unwritten magReport ["D/L.Amp.mag[MX]"] = [] := by decide
    rw [hnone]
    exact fun m hm => absurd hm List.not_mem_nil

/-- A report with the values of the data object: a structure, and `5` for its attribute. -/
def ampReport : ClientReport := ⟨fun _ => 1, fun _ => .ok ("STRUCTURE", "structure")⟩

@[inherit_doc ampReport]
def ampReported (_ : ℕ) (names : List String) : Option String :=
  some (if names = [] then "STRUCTURE" else "5")

/-- **The value of a data object becomes a field of it**: after a report with the data object `Amp`
there is a node for `D/L.Amp.value`, which was not there before, and its attribute `mag` has the old
value. -/
theorem not_changesOnlyValues_amp :
    ampIed.discovery = .ok ampModel ∧
      HoldsDataSet (.dict ampModel) sRefdata ["D/L.Amp[MX]"] ∧
      ¬ ChangesOnlyValues (.dict ampModel)
        (reportHandler (.dict ampModel) sRefdata ampReport).model ∧
      ¬ ShowsReport ampReported ampReport ["D/L.Amp[MX]"]
        (reportHandler (.dict ampModel) sRefdata ampReport).model := by
  have hpath : refPath (withoutFc "D/L.Amp[MX]") = some ["D", "L", "Amp"] := by decide
  have hholds : HoldsDataSet (.dict ampModel) sRefdata ["D/L.Amp[MX]"] := by
    refine ⟨rfl, fun dsRef hdsRef path hpath' => ?_⟩
    obtain rfl := List.mem_singleton.mp hdsRef
    obtain rfl := Option.some.inj (hpath.symm.trans hpath')
    exact ⟨by decide, by decide, _, rfl, fun v hv => ⟨_, (Option.some.inj hv).symm⟩⟩
  have hput : putValue (.dict ampModel) ("D/L.Amp", "STRUCTURE") =
      .ok (reportHandler (.dict ampModel) sRefdata ampReport).model := by
    have hexec := reportHandler_model hholds ampReport
    have hincluded : (written ampReport ["D/L.Amp[MX]"]).map (reportedText ampReport) =
        [("D/L.Amp", "STRUCTURE")] := by
      decide
    rw [hincluded] at hexec
    obtain ⟨m, hm, hnil⟩ := Run.exec_cons_eq_ok.mp hexec
    rw [hm, ← Except.ok.inj hnil]
  have hpath' : refPath "D/L.Amp" = some ["D", "L", "Amp"] := by decide
  rw [putValue_of_resolve "STRUCTURE" hpath' rfl] at hput
  refine ⟨discovery_ampIed, hholds, fun hchanges => ?_, fun hshows => ?_⟩
  · have hvalue : refPath "D/L.Amp.value" = some ["D", "L", "Amp", "value"] := by decide
    obtain ⟨node, hnode⟩ :=
      (hchanges.resolves "D/L.Amp.value" _ hvalue).mp ⟨_, hasValue_of_setAt hput⟩
    cases hnode
  · have hmem : (0, "D/L.Amp") ∈ included ampReport ["D/L.Amp[MX]"] := by decide
    have hmag : (reportHandler (.dict ampModel) sRefdata ampReport).model.resolve
        (["D", "L", "Amp"] ++ ["mag"]) = .ok (some (daNode "MX" (some ("1", "float")))) := by
      rw [resolve_append_of_resolve (resolve_setAt hput)]
      rfl
    obtain ⟨t, ht, hshown⟩ := hshows _ hmem _ hpath ["mag"] _ hmag (dataLeaf_daNode "MX" _)
    have hold : (daNode "MX" (some ("1", "float"))).getItem "value" = .ok (.str "1") := rfl
    obtain rfl : "1" = t := by simpa using hold.symm.trans hshown
    simp [ampReported] at ht

end Tmee
