import Mathlib.Data.List.TakeWhile
import Tmee.Client.DataSets
import Tmee.Lib.Run

set_option relaxedAutoImplicit false
set_option autoImplicit false

/-!
# Reports

What the client `libiec61850client.py` does with a report: for each member of the data set that the
report includes, the handler writes the value into the node of the member and calls `Rpt_cb`. The
nodes of a model are shared, so that the handler changes the model in `connections`, and the data
set itself if a member stands for a part of it. A text that cannot be decoded raises an exception,
which ends the handler before the members that follow.

## Main definitions

* `Tmee.ClientReport`, `Tmee.RptCall` — a report, and a call of `Rpt_cb`.
* `Tmee.handleMember`, `Tmee.reportHandler` — the handler.
* `Tmee.HoldsDataSet` — a model with a data set whose members refer to data.
* `Tmee.putValue` — what a reported value does to a model.
* `Tmee.included`, `Tmee.written`, `Tmee.unwritten` — the members that a report includes, up to the
  first one whose text cannot be decoded, and from it on.

## Main results

* `Tmee.exists_dataSet_of_searchReport` — a report is registered for a data set of the model.
* `Tmee.reportHandler_calls` — one call for each written member, with the key of the handler.
* `Tmee.reportHandler_model` — the values of the written members, put into the model in order.
-/

namespace Tmee

open PyValue

/-! ## The handler -/

/-- A report, as far as the handler asks the library for it. -/
structure ClientReport where
  /-- `ClientReport_getReasonForInclusion`. -/
  reason : ℕ → ℤ
  /-- What `printValue` makes of the value of a member: a text and its type, or an exception. -/
  value : ℕ → Except PyError (String × String)

/-- The text of the value of a member, if it can be decoded. -/
def ClientReport.text (report : ClientReport) (i : ℕ) : Option String :=
  match report.value i with
  | .ok (val, _) => some val
  | .error _ => none

/-- `IEC61850_REASON_NOT_INCLUDED`. -/
def reasonNotIncluded : ℤ := 0

/-- A call of `Rpt_cb`, and the number of the member that it is for. -/
structure RptCall where
  index : ℕ
  key : String
  submodel : PyValue

/-- What the handler works on. -/
structure HandlerState where
  /-- `connections[tupl]['model']`. -/
  model : PyValue
  dataset : PyValue
  /-- The calls of `Rpt_cb` so far. -/
  calls : List RptCall

/-- `int(text)`. The members of a data set are numbered with digits. -/
def pyInt (text : String) : Except PyError ℕ :=
  if !text.toList.isEmpty && text.toList.all Char.isDigit then
    .ok (Nat.ofDigitChars 10 text.toList 0)
  else .error .valueError

/-- A node of the model has changed. The data set is the node at its own path, and changes with
it. -/
def HandlerState.store (s : HandlerState) (dsPath path : List String) (submodel : PyValue) :
    Except PyError HandlerState := do
  let model ← s.model.setAt path submodel
  let dataset ←
    if dsPath <+: path then s.dataset.setAt (path.drop dsPath.length) submodel else .ok s.dataset
  .ok { s with model := model, dataset := dataset }

/-- One turn of the loop of `ReportHandler_cb`. A reference that is not in the model gets a node of
its own, which nothing else holds. -/
def handleMember (key : String) (dsPath : List String) (report : ClientReport) (index : String)
    (s : HandlerState) : Except PyError HandlerState := do
  let i ← pyInt index
  if report.reason i = reasonNotIncluded then .ok s
  else
    let member ← s.dataset.getItem index
    let value ← member.getItem "value"
    let (val, _) ← report.value i
    let daRef ← value.asStr
    let (submodel, path) ← parseRef s.model daRef
    let submodel ← submodel.setItem "value" (.str val)
    let s ← if daRef = "" ∨ path ≠ [] then s.store dsPath path submodel else .ok s
    .ok { s with calls := s.calls ++ [⟨i, key, submodel⟩] }

/-- The loop. An exception ends the handler, and so does a data set of another size. -/
def handleMembers (key : String) (dsPath : List String) (report : ClientReport) (size : ℕ) :
    List String → HandlerState → HandlerState
  | [], s => s
  | index :: rest, s =>
    if s.dataset.keys.length = size then
      match handleMember key dsPath report index s with
      | .ok s => handleMembers key dsPath report size rest s
      | .error _ => s
    else s

/-- The path of the data set of a report. -/
def dataSetPath (refdata : String × String × String × String × String) : List String :=
  [refdata.2.2.1, refdata.2.2.2.1, refdata.2.2.2.2]

/-- `ReportHandler_cb`, for what the registration of the report has kept. -/
def reportHandler (model : PyValue) (refdata : String × String × String × String × String)
    (report : ClientReport) : HandlerState :=
  let (key, _, ld, ln, ds) := refdata
  let found : Except PyError PyValue := do
    let device ← model.getItem ld
    let node ← device.getItem ln
    node.getItem ds
  match found with
  | .ok dataset =>
    handleMembers key (dataSetPath refdata) report dataset.keys.length dataset.keys
      ⟨model, dataset, []⟩
  | .error _ => ⟨model, .dict [], []⟩

/-! ## Nodes that a value is written into -/

/-- The path leads to a dictionary, or nowhere. -/
def LeadsToDict (model : PyValue) (path : List String) : Prop :=
  ∃ node, model.resolve path = .ok node ∧ ∀ v, node = some v → ∃ entries, v = .dict entries

/-- The reference stands for data: the way to its node does not lead through the data set or through
a value, and the node is a dictionary. -/
def RefersToData (model : PyValue) (dsPath : List String) (value : String) : Prop :=
  ∀ path, refPath value = some path →
    "value" ∉ path ∧ ¬ dsPath <+: path ∧ LeadsToDict model path

/-- **The model holds a data set**, and its members refer to data. -/
structure HoldsDataSet (model : PyValue) (refdata : String × String × String × String × String)
    (refs : List String) : Prop where
  found : model.resolve (dataSetPath refdata) = .ok (some (dataSetNode refs))
  data : ∀ dsRef ∈ refs, RefersToData model (dataSetPath refdata) (withoutFc dsRef)

/-- **A report that the search finds is one for a data set of the model.** -/
lemma exists_dataSet_of_searchReport {model : List (String × PyValue)} (h : DiscoveredModel model)
    {ref rpt ld ln ds : String}
    (hsearch : searchReport (.dict model) ref = .ok (some (rpt, ld, ln, ds))) (key tupl : String) :
    ∃ refs, (PyValue.dict model).resolve (dataSetPath (key, tupl, ld, ln, ds)) =
      .ok (some (dataSetNode refs)) := by
  obtain ⟨found, hfound, hsearch⟩ := Fallible.bind_eq_ok.mp hsearch
  rw [findDataset_eq h] at hfound
  obtain rfl := Except.ok.inj hfound
  cases hm : (dataSetMembers (.dict model)).find? fun m => startsWith ref m.value with
  | none =>
    rw [hm] at hsearch
    cases hsearch
  | some m =>
    simp only [hm, Option.map_some, DataSetMember.place] at hsearch
    split_ifs at hsearch
    · cases hsearch
    · obtain ⟨rpt', -, hsearch⟩ := Fallible.bind_eq_ok.mp hsearch
      obtain ⟨_, -, heq⟩ := Option.map_eq_some_iff.mp (Except.ok.inj hsearch)
      obtain ⟨-, rfl, rfl, rfl⟩ : _ ∧ m.ld = ld ∧ m.ln = ln ∧ m.ds = ds := by simpa using heq
      obtain ⟨members, hresolve, -⟩ := exists_dataSet_of_mem h (List.mem_of_find?_eq_some hm)
      exact ⟨members, hresolve⟩

section Data

variable {model model' : PyValue} {path names : List String} {v : PyValue}
  {entries : List (String × PyValue)}

/-- **A value that is written into a node changes no other path**: one that does not lead through a
value ends as before, or at a dictionary above the node. -/
lemma resolve_setAt_value (hpath : model.resolve path = .ok (some (.dict entries)))
    (hset : model.setAt path (.dict (insertEntry "value" v entries)) = .ok model')
    (hnames : "value" ∉ names) :
    model'.resolve names = model.resolve names ∨
      ∃ e e', model.resolve names = .ok (some (.dict e)) ∧
        model'.resolve names = .ok (some (.dict e')) := by
  have hpath' := resolve_setAt hset
  by_cases habove : names <+: path
  · obtain ⟨rest, rfl⟩ := habove
    cases rest with
    | nil =>
      rw [List.append_nil] at hpath hpath'
      exact Or.inr ⟨_, _, hpath, hpath'⟩
    | cons name rest =>
      obtain ⟨e, he⟩ := exists_dict_above hpath
      obtain ⟨e', he'⟩ := exists_dict_above hpath'
      exact Or.inr ⟨e, e', he, he'⟩
  by_cases hbelow : path <+: names
  · obtain ⟨rest, rfl⟩ := hbelow
    cases rest with
    | nil => exact absurd (by simp) habove
    | cons name rest =>
      have hne : name ≠ "value" := by
        rintro rfl
        simp at hnames
      have hitem : (PyValue.dict entries).setItem "value" v =
          .ok (.dict (insertEntry "value" v entries)) := rfl
      rw [resolve_append_of_resolve hpath, resolve_append_of_resolve hpath']
      exact Or.inl (resolve_setItem_of_ne hitem hne rest)
  · exact Or.inl (resolve_setAt_of_diverges hset hbelow habove)

/-- A path that leads to a dictionary or nowhere still does. -/
lemma LeadsToDict.setAt (h : LeadsToDict model names) (hnames : "value" ∉ names)
    (hpath : model.resolve path = .ok (some (.dict entries)))
    (hset : model.setAt path (.dict (insertEntry "value" v entries)) = .ok model') :
    LeadsToDict model' names := by
  obtain ⟨node, hnode, hdict⟩ := h
  rcases resolve_setAt_value hpath hset hnames with heq | ⟨_, e', -, he'⟩
  · exact ⟨node, heq.trans hnode, hdict⟩
  · exact ⟨_, he', fun w hw => ⟨e', (Option.some.inj hw).symm⟩⟩

end Data

/-! ## What the handler does -/

/-- The members that a report includes, by their numbers, with their references. -/
def included (report : ClientReport) (refs : List String) : List (ℕ × String) :=
  (refs.mapIdx fun i dsRef => (i, withoutFc dsRef)).filter fun m =>
    report.reason m.1 ≠ reasonNotIncluded

/-- **What a reported value does to a model**: the node of the reference gets it, if there is
one. -/
def putValue (model : PyValue) (w : String × String) : Except PyError PyValue :=
  match refPath w.1 with
  | none => .ok model
  | some path => do
    match ← model.resolve path with
    | none => .ok model
    | some node =>
      let node ← node.setItem "value" (.str w.2)
      model.setAt path node

/-- The members that are written: those that are included, up to the first one whose text cannot be
decoded. -/
def written (report : ClientReport) (refs : List String) : List (ℕ × String) :=
  (included report refs).takeWhile fun m => (report.text m.1).isSome

/-- The members that are included and not written. -/
def unwritten (report : ClientReport) (refs : List String) : List (ℕ × String) :=
  (included report refs).dropWhile fun m => (report.text m.1).isSome

/-- The reference of a member, and the text of its value. -/
def reportedText (report : ClientReport) (m : ℕ × String) : String × String :=
  (m.2, (report.text m.1).getD "")

lemma written_subset {report : ClientReport} {refs : List String} :
    written report refs ⊆ included report refs :=
  (List.takeWhile_prefix _).subset

lemma isSome_text_of_mem_written {report : ClientReport} {refs : List String} {m : ℕ × String}
    (hm : m ∈ written report refs) : (report.text m.1).isSome = true :=
  (List.mem_takeWhile_imp hm :)

/-- If all texts can be decoded, all included members are written. -/
lemma written_eq_included {report : ClientReport} {refs : List String}
    (h : ∀ m ∈ included report refs, (report.text m.1).isSome = true) :
    written report refs = included report refs :=
  List.takeWhile_eq_self_iff.mpr h

lemma pyInt_toString (i : ℕ) : pyInt (toString i) = .ok i := by
  have hdigits : (toString i).toList = Nat.toDigits 10 i := Nat.toList_repr
  have hall : (Nat.toDigits 10 i).all Char.isDigit = true :=
    List.all_eq_true.mpr fun c => Nat.isDigit_of_mem_toDigits (by omega) (by omega)
  rw [pyInt, hdigits, hall, Nat.ofDigitChars_ten_toDigits]
  simp [Nat.toDigits_ne_nil]

section Handler

variable {refs : List String} {dsPath : List String} {s : HandlerState}

/-- The data set is the one of the model, and its members refer to data. -/
structure Handles (refs dsPath : List String) (s : HandlerState) : Prop where
  dataset : s.dataset = dataSetNode refs
  data : ∀ dsRef ∈ refs, RefersToData s.model dsPath (withoutFc dsRef)

/-- The members that have been handled, and the keys. -/
def HandlerState.handled (s : HandlerState) : List (ℕ × String) :=
  s.calls.map fun call => (call.index, call.key)

/-- The node of a member has a value written into it. -/
lemma Handles.exists_store {path : List String} {entries : List (String × PyValue)}
    (h : Handles refs dsPath s) (hpath : s.model.resolve path = .ok (some (.dict entries)))
    (hnot : ¬ dsPath <+: path) (v : PyValue) :
    ∃ s', s.store dsPath path (.dict (insertEntry "value" v entries)) = .ok s' ∧
      Handles refs dsPath s' ∧ s'.calls = s.calls ∧
      s.model.setAt path (.dict (insertEntry "value" v entries)) = .ok s'.model := by
  obtain ⟨model', hmodel'⟩ := exists_setAt hpath (.dict (insertEntry "value" v entries))
  refine ⟨{ s with model := model' }, ?_, ⟨h.dataset, fun dsRef hdsRef names hnames => ?_⟩, rfl,
    hmodel'⟩
  · rw [HandlerState.store, hmodel', Fallible.ok_bind, if_neg hnot]
    rfl
  · obtain ⟨hvalue, hds, hleads⟩ := h.data dsRef hdsRef names hnames
    exact ⟨hvalue, hds, hleads.setAt hvalue hpath hmodel'⟩

lemma refPath_ne_nil {value : String} {path : List String} (h : refPath value = some path)
    (hvalue : value ≠ "") : path ≠ [] := by
  rintro rfl
  rw [refPath, if_neg hvalue] at h
  split at h <;> simp at h

/-- The reference of a member is looked up: a node of the model, or one of its own. -/
lemma parseRef_of_refersToData {model : PyValue} {value : String}
    (h : RefersToData model dsPath value) :
    (∃ entries path, parseRef model value = .ok (.dict entries, path) ∧
      (value = "" ∨ path ≠ []) ∧ refPath value = some path ∧
      model.resolve path = .ok (some (.dict entries)) ∧ ¬ dsPath <+: path) ∨
    (parseRef model value = .ok (.dict [], []) ∧ value ≠ "" ∧
      ∀ path ∈ refPath value, model.resolve path = .ok none) := by
  rw [parseRef_eq]
  by_cases hvalue : value = ""
  · subst hvalue
    obtain ⟨-, hds, node, hnode, hdict⟩ := h [] rfl
    obtain rfl := Except.ok.inj hnode
    obtain ⟨entries, rfl⟩ := hdict model rfl
    exact Or.inl ⟨entries, [], rfl, Or.inl rfl, rfl, rfl, hds⟩
  cases hpath : refPath value with
  | none => exact Or.inr ⟨rfl, hvalue, by simp⟩
  | some path =>
    obtain ⟨-, hds, node, hnode, hdict⟩ := h path hpath
    dsimp only
    rw [hnode]
    cases node with
    | none =>
      refine Or.inr ⟨rfl, hvalue, fun path' hpath' => ?_⟩
      obtain rfl := Option.some.inj hpath'
      exact hnode
    | some v =>
      obtain ⟨entries, rfl⟩ := hdict v rfl
      exact Or.inl ⟨entries, path, rfl, Or.inr (refPath_ne_nil hpath hvalue), rfl, hnode, hds⟩

lemma putValue_of_resolve {model : PyValue} {value : String} {path : List String}
    {entries : List (String × PyValue)} (text : String) (hpath : refPath value = some path)
    (hnode : model.resolve path = .ok (some (.dict entries))) :
    putValue model (value, text) =
      model.setAt path (.dict (insertEntry "value" (.str text) entries)) := by
  rw [putValue, hpath]
  dsimp only
  rw [hnode, Fallible.ok_bind]
  rfl

lemma putValue_of_missing {model : PyValue} {value : String} (text : String)
    (h : ∀ path ∈ refPath value, model.resolve path = .ok none) :
    putValue model (value, text) = .ok model := by
  rw [putValue]
  cases hpath : refPath value with
  | none => rfl
  | some path =>
    dsimp only
    rw [h path hpath, Fallible.ok_bind]

/-- What turns of the loop do: a call for every member that is written, and its value in the
model. -/
structure Turn (key : String) (report : ClientReport) (ms : List (ℕ × String))
    (s s' : HandlerState) : Prop where
  handled : s'.handled = s.handled ++ ms.map fun m => (m.1, key)
  model : Run.exec putValue s.model (ms.map (reportedText report)) = .ok s'.model

/-- The turn of a member that the report does not include. -/
lemma handleMember_of_not_included {i : ℕ} {report : ClientReport}
    (hreason : report.reason i = reasonNotIncluded) (key : String) :
    handleMember key dsPath report (toString i) s = .ok s := by
  rw [handleMember, pyInt_toString, Fallible.ok_bind, if_pos hreason]

/-- **One turn of the loop**: a member that the report includes gets its call, or raises an
exception if its text cannot be decoded. -/
lemma handleMember_of_included {i : ℕ} {dsRef : String} (h : Handles refs dsPath s)
    (hi : refs[i]? = some dsRef) (key : String) {report : ClientReport}
    (hreason : report.reason i ≠ reasonNotIncluded) :
    ((report.text i).isSome = true ∧
      ∃ s', handleMember key dsPath report (toString i) s = .ok s' ∧ Handles refs dsPath s' ∧
        Turn key report [(i, withoutFc dsRef)] s s') ∨
    ((report.text i).isSome = false ∧
      ∃ e, handleMember key dsPath report (toString i) s = .error e) := by
  rw [handleMember, pyInt_toString, Fallible.ok_bind, if_neg hreason]
  have hmember : s.dataset.getItem (toString i) = .ok (memberEntry i dsRef).2 := by
    rw [h.dataset]
    refine getItem_eq_ok_iff.mpr ⟨_, rfl, (entriesOf_dataSetNode refs).lookup_of_mem ?_⟩
    obtain ⟨hlt, rfl⟩ := List.getElem?_eq_some_iff.mp hi
    exact List.mem_mapIdx.mpr ⟨i, hlt, rfl⟩
  have hvalue : (memberEntry i dsRef).2.getItem "value" = .ok (.str (withoutFc dsRef)) := rfl
  rw [hmember, Fallible.ok_bind, hvalue, Fallible.ok_bind]
  cases hread : report.value i with
  | error e => exact Or.inr ⟨by simp [ClientReport.text, hread], e, rfl⟩
  | ok printed =>
  obtain ⟨val, type⟩ := printed
  have htext : report.text i = some val := by simp [ClientReport.text, hread]
  refine Or.inl ⟨by simp [htext], ?_⟩
  rw [Fallible.ok_bind]
  dsimp only
  rw [asStr, Fallible.ok_bind]
  rcases parseRef_of_refersToData (h.data dsRef (List.mem_of_getElem? hi)) with
    ⟨entries, path, hparse, hstored, hpath, hresolve, hds⟩ | ⟨hparse, hne, hmissing⟩
  · have hset : (PyValue.dict entries).setItem "value" (.str val) =
        .ok (.dict (insertEntry "value" (.str val) entries)) := rfl
    obtain ⟨s', hs', hhandles, hcalls, hmodel⟩ := h.exists_store hresolve hds (.str val)
    rw [hparse, Fallible.ok_bind]
    dsimp only
    rw [hset, Fallible.ok_bind, if_pos hstored, hs', Fallible.ok_bind]
    refine ⟨_, rfl, ⟨hhandles.dataset, hhandles.data⟩, ⟨?_, ?_⟩⟩
    · simp [HandlerState.handled, hcalls]
    · have hput := putValue_of_resolve val hpath hresolve
      simp [reportedText, htext, Run.exec_cons_eq_ok, hput, hmodel]
  · have hstored : ¬ (withoutFc dsRef = "" ∨ ([] : List String) ≠ []) := by simpa using hne
    rw [hparse, Fallible.ok_bind]
    dsimp only
    rw [setItem, Fallible.ok_bind, if_neg hstored]
    refine ⟨_, rfl, ⟨h.dataset, h.data⟩, ⟨?_, ?_⟩⟩
    · simp [HandlerState.handled]
    · have hput := putValue_of_missing val hmissing
      simp [reportedText, htext, Run.exec_cons_eq_ok, hput]

/-- The loop over the members: those that the report includes are written, up to the first one whose
text cannot be decoded. -/
lemma turn_handleMembers {l : List (ℕ × String)}
    (hl : ∀ m ∈ l, ∃ dsRef, refs[m.1]? = some dsRef ∧ m.2 = withoutFc dsRef)
    (h : Handles refs dsPath s) (key : String) (report : ClientReport) :
    Turn key report ((l.filter fun m => report.reason m.1 ≠ reasonNotIncluded).takeWhile
        fun m => (report.text m.1).isSome) s
      (handleMembers key dsPath report (dataSetNode refs).keys.length
        (l.map fun m => toString m.1) s) := by
  induction l generalizing s with
  | nil => exact ⟨by simp [handleMembers], rfl⟩
  | cons m l ih =>
    obtain ⟨i, value⟩ := m
    rw [List.forall_mem_cons] at hl
    obtain ⟨dsRef, hdsRef, rfl⟩ := hl.1
    rw [List.map_cons, handleMembers, if_pos (by rw [h.dataset])]
    by_cases hreason : report.reason i = reasonNotIncluded
    · rw [handleMember_of_not_included hreason, List.filter_cons_of_neg (by simpa using hreason)]
      exact ih hl.2 h
    rw [List.filter_cons_of_pos (by simpa using hreason)]
    rcases handleMember_of_included h hdsRef key hreason with
      ⟨hsome, s', hs', hhandles, hturn⟩ | ⟨hnone, e, he⟩
    · have hrest := ih hl.2 hhandles
      have htake : ∀ l : List (ℕ × String),
          ((i, withoutFc dsRef) :: l).takeWhile (fun m => (report.text m.1).isSome) =
            [(i, withoutFc dsRef)] ++ l.takeWhile fun m => (report.text m.1).isSome :=
        fun l => List.takeWhile_cons_of_pos hsome
      rw [hs', htake]
      exact ⟨by rw [hrest.handled, hturn.handled, List.append_assoc, ← List.map_append],
        List.map_append ▸ Run.exec_append_eq_ok.mpr ⟨s'.model, hturn.model, hrest.model⟩⟩
    · rw [he, List.takeWhile_cons_of_neg (by simp [hnone])]
      exact ⟨by simp, rfl⟩

end Handler

/-- A report is one turn for each member that is written. -/
lemma turn_reportHandler {model : PyValue} {refdata : String × String × String × String × String}
    {refs : List String} (h : HoldsDataSet model refdata refs) (report : ClientReport) :
    Turn refdata.1 report (written report refs) ⟨model, .dict [], []⟩
      (reportHandler model refdata report) := by
  obtain ⟨key, tupl, ld, ln, ds⟩ := refdata
  have hfound := h.found
  simp only [dataSetPath, resolve_cons_eq_ok_some] at hfound
  obtain ⟨device, hdevice, node, hnode, dataset, hdataset, hresolve⟩ := hfound
  obtain rfl : dataset = dataSetNode refs := by simpa [resolve] using hresolve
  have hkeys : (dataSetNode refs).keys =
      (refs.mapIdx fun i dsRef => (i, withoutFc dsRef)).map fun m => toString m.1 := by
    rw [dataSetNode, keys, List.mapIdx_eq_zipIdx_map, List.mapIdx_eq_zipIdx_map, List.map_map,
      List.map_map]
    rfl
  have hhandles : Handles refs (dataSetPath (key, tupl, ld, ln, ds))
      ⟨model, dataSetNode refs, []⟩ := ⟨rfl, h.data⟩
  have hnumbered : ∀ m ∈ refs.mapIdx fun i dsRef => (i, withoutFc dsRef),
      ∃ dsRef, refs[m.1]? = some dsRef ∧ m.2 = withoutFc dsRef := by
    intro m hm
    obtain ⟨i, hi, rfl⟩ := List.mem_mapIdx.mp hm
    exact ⟨refs[i], List.getElem?_eq_getElem hi, rfl⟩
  have hloop := turn_handleMembers hnumbered hhandles key report
  rw [← hkeys] at hloop
  rw [reportHandler]
  simp only [hdevice, hnode, hdataset, Fallible.ok_bind]
  exact ⟨hloop.handled, hloop.model⟩

/-- **A report is one call for each member that is written**, with the key that the registration of
the report has kept. -/
theorem reportHandler_calls {model : PyValue}
    {refdata : String × String × String × String × String} {refs : List String}
    (h : HoldsDataSet model refdata refs) (report : ClientReport) :
    (reportHandler model refdata report).handled =
      (written report refs).map fun m => (m.1, refdata.1) :=
  (turn_reportHandler h report).handled

/-- **A report puts the values of the members that are written into the model**, one after the
other. -/
theorem reportHandler_model {model : PyValue}
    {refdata : String × String × String × String × String} {refs : List String}
    (h : HoldsDataSet model refdata refs) (report : ClientReport) :
    Run.exec putValue model ((written report refs).map (reportedText report)) =
      .ok (reportHandler model refdata report).model :=
  (turn_reportHandler h report).model

end Tmee
