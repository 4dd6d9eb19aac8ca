import Tmee.Client.Attributes

set_option relaxedAutoImplicit false
set_option autoImplicit false

/-!
# The references of a model

`printrefs` walks over a model and prints a line for every node that has a value, with its
reference. It does not go on below such a node, and it takes everything else for a dictionary, so
that a text that is not below a value ends it with an exception. The references are those that
`parseRef` takes.

## Main definitions

* `Tmee.printrefs` — the lines printed, and the exception.
* `Tmee.WalksTo` — the nodes that are not below a value.
* `Tmee.ShownAt` — the paths of the nodes that are printed.
* `Tmee.Keyed` — every dictionary has each key once.
* `Tmee.ListsValues` — what is printed, and when there is an exception.

## Main results

* `Tmee.printrefs_lists` — what is printed for any model, and that there is no exception for one
  that `discovery` returns.
-/

namespace Tmee

open PyValue

/-! ## The walk -/

/-- What has been printed, and the exception that ended it. A line is a reference and a value. -/
structure Printed where
  lines : List (String × PyValue)
  error : Option PyError

/-- Go on, unless there was an exception. -/
def Printed.andThen (printed next : Printed) : Printed :=
  match printed.error with
  | some _ => printed
  | none => ⟨printed.lines ++ next.lines, next.error⟩

/-- The reference of an element of a node at this depth. -/
def elementRef (ref : String) (depth : ℕ) (element : String) : String :=
  if depth = 0 then element
  else if depth = 1 then ref ++ "/" ++ element
  else ref ++ "." ++ element

mutual

/-- `printrefs`. The elements of a text are its characters, and there is no text under the name of
one. -/
def printrefs (ref : String) (depth : ℕ) : PyValue → Printed
  | .str s => if s = "" then ⟨[], none⟩ else ⟨[], some .typeError⟩
  | .dict entries => printEntries ref depth entries

/-- The loop over the elements of a dictionary. -/
def printEntries (ref : String) (depth : ℕ) : List (String × PyValue) → Printed
  | [] => ⟨[], none⟩
  | (element, node) :: entries =>
    (if node.contains "value" then
      match node.getItem "value" with
      | .ok v => ⟨[(elementRef ref depth element, v)], none⟩
      | .error e => ⟨[], some e⟩
    else printrefs (elementRef ref depth element) (depth + 1) node).andThen
      (printEntries ref depth entries)

end

/-- The walk goes by dictionaries without a value before it comes to the node. -/
structure WalksTo (model : PyValue) (path : List String) (node : PyValue) : Prop where
  resolves : model.resolve path = .ok (some node)
  first : ∀ p above, p ≠ [] → p <+: path → p ≠ path → model.resolve p = .ok (some above) →
    above.contains "value" = false

/-- **A path that is printed**: it leads to a node with this value, and to no value before. -/
def ShownAt (model : PyValue) (path : List String) (v : PyValue) : Prop :=
  path ≠ [] ∧ ∃ node, WalksTo model path node ∧ node.getItem "value" = .ok v

/-- The walk comes to a text that is not empty. -/
def ReachesText (model : PyValue) : Prop := ∃ path s, WalksTo model path (.str s) ∧ s ≠ ""

/-- Every dictionary of the value has each key once, as dictionaries do. -/
inductive Keyed : PyValue → Prop
  | str (s : String) : Keyed (.str s)
  | dict {entries : List (String × PyValue)} (hnodup : (entries.map Prod.fst).Nodup)
    (hvalues : ∀ entry ∈ entries, Keyed entry.2) : Keyed (.dict entries)

/-! ## The paths that are printed -/

mutual

/-- The paths that are printed with their values, in the order of the walk. -/
def shown : PyValue → List (List String × PyValue)
  | .str _ => []
  | .dict entries => shownEntries entries

/-- The same for the elements of a dictionary. -/
def shownEntries : List (String × PyValue) → List (List String × PyValue)
  | [] => []
  | (element, node) :: entries =>
    (match node.getItem "value" with
      | .ok v => [([element], v)]
      | .error _ => (shown node).map fun s => (element :: s.1, s.2)) ++ shownEntries entries

end

/-- The line of a path below a node. -/
def lineAt (path : List String) (s : List String × PyValue) : String × PyValue :=
  (pathRef (path ++ s.1), s.2)

section Walk

variable {value node child v : PyValue} {name : String} {path : List String}
  {entries : List (String × PyValue)}

/-- A path one longer. -/
lemma elementRef_pathRef (path : List String) (element : String) :
    elementRef (pathRef path) path.length element = pathRef (path ++ [element]) := by
  rcases path with _ | ⟨ld, _ | ⟨ln, names⟩⟩
  · rfl
  · rfl
  · simp [elementRef, pathRef]

lemma walksTo_nil : WalksTo value [] node ↔ node = value := by
  constructor
  · intro h
    exact (Option.some.inj (Except.ok.inj h.resolves)).symm
  · rintro rfl
    exact ⟨rfl, fun p above hne hp => absurd (List.prefix_nil.mp hp) hne⟩

/-- The first step of the walk. -/
lemma walksTo_cons : WalksTo value (name :: path) node ↔ ∃ child, value.getItem name = .ok child ∧
    (path ≠ [] → child.contains "value" = false) ∧ WalksTo child path node := by
  constructor
  · intro h
    obtain ⟨child, hitem, hrest⟩ := resolve_cons_eq_ok_some.mp h.resolves
    refine ⟨child, hitem, fun hpath => ?_, hrest, fun p above hne hp hlt hresolve => ?_⟩
    · refine h.first [name] child (by simp) (by simp) (by simpa using hpath) ?_
      rw [resolve_cons_of_getItem hitem]
      rfl
    · refine h.first (name :: p) above (by simp) (List.cons_prefix_cons.mpr ⟨rfl, hp⟩)
        (by simpa using hlt) ?_
      rwa [resolve_cons_of_getItem hitem]
  · rintro ⟨child, hitem, hvalue, hresolves, hfirst⟩
    refine ⟨by rwa [resolve_cons_of_getItem hitem], fun p above hne hp hlt hresolve => ?_⟩
    cases p with
    | nil => exact absurd rfl hne
    | cons name' p =>
      obtain ⟨rfl, hrest⟩ := List.cons_prefix_cons.mp hp
      rw [resolve_cons_of_getItem hitem] at hresolve
      have hlt : p ≠ path := fun heq => hlt (by rw [heq])
      by_cases hnil : p = []
      · subst hnil
        obtain rfl : child = above := Option.some.inj (Except.ok.inj hresolve)
        exact hvalue hlt.symm
      · exact hfirst p above hnil hrest hlt hresolve

lemma shownAt_cons : ShownAt value (name :: path) v ↔ ∃ child, value.getItem name = .ok child ∧
    (path = [] ∧ child.getItem "value" = .ok v ∨
      child.contains "value" = false ∧ ShownAt child path v) := by
  simp only [ShownAt, walksTo_cons]
  constructor
  · rintro ⟨-, node, ⟨child, hitem, hvalue, hwalk⟩, hv⟩
    refine ⟨child, hitem, ?_⟩
    by_cases hpath : path = []
    · subst hpath
      rw [walksTo_nil] at hwalk
      exact Or.inl ⟨rfl, hwalk ▸ hv⟩
    · exact Or.inr ⟨hvalue hpath, hpath, node, hwalk, hv⟩
  · rintro ⟨child, hitem, ⟨rfl, hv⟩ | ⟨hvalue, hpath, node, hwalk, hv⟩⟩
    · exact ⟨by simp, child, ⟨child, hitem, by simp, walksTo_nil.mpr rfl⟩, hv⟩
    · exact ⟨by simp, node, ⟨child, hitem, fun _ => hvalue, hwalk⟩, hv⟩

/-- A node without a value has none to print. -/
lemma getItem_value_of_not_contains (h : node.contains "value" = false) :
    ∃ e, node.getItem "value" = .error e := by
  cases hitem : node.getItem "value" with
  | error e => exact ⟨e, rfl⟩
  | ok v =>
    rw [contains_of_getItem hitem] at h
    cases h

/-- Nothing is printed below a text. -/
lemma not_shownAt_str (s : String) : ¬ ShownAt (.str s) path v := by
  rintro ⟨hpath, node, hwalk, -⟩
  obtain ⟨name, path, rfl⟩ := List.exists_cons_of_ne_nil hpath
  exact resolve_str_cons s name path node hwalk.resolves

lemma mem_shownEntries : ∀ {entries : List (String × PyValue)}, (path, v) ∈ shownEntries entries ↔
    ∃ entry ∈ entries, (path = [entry.1] ∧ entry.2.getItem "value" = .ok v) ∨
      (∃ e, entry.2.getItem "value" = .error e) ∧ ∃ rest, path = entry.1 :: rest ∧
        (rest, v) ∈ shown entry.2
  | [] => by simp [shownEntries]
  | (element, node) :: entries => by
    simp only [shownEntries, List.mem_append, mem_shownEntries, List.mem_cons, exists_eq_or_imp]
    refine or_congr ?_ Iff.rfl
    cases hitem : node.getItem "value" with
    | ok w => simp [eq_comm]
    | error e => simp [eq_comm, and_comm]

/-- **The paths listed are the paths shown.** -/
lemma mem_shown (hkeyed : Keyed value) : (path, v) ∈ shown value ↔ ShownAt value path v := by
  induction hkeyed generalizing path with
  | str s => exact iff_of_false (by simp [shown]) (not_shownAt_str s)
  | @dict entries hnodup hvalues ih =>
    have hentries : EntriesOf Keyed entries := ⟨hnodup, hvalues⟩
    rw [shown, mem_shownEntries]
    constructor
    · rintro ⟨⟨element, node⟩, hentry, hcase⟩
      have hitem : (PyValue.dict entries).getItem element = .ok node :=
        getItem_eq_ok_iff.mpr ⟨entries, rfl, hentries.lookup_of_mem hentry⟩
      rcases hcase with ⟨rfl, hv⟩ | ⟨⟨e, he⟩, rest, rfl, hrest⟩
      · exact shownAt_cons.mpr ⟨node, hitem, Or.inl ⟨rfl, hv⟩⟩
      · refine shownAt_cons.mpr ⟨node, hitem, Or.inr ⟨?_, (ih _ hentry).mp hrest⟩⟩
        cases node with
        | str s => simp [shown] at hrest
        | dict below =>
          cases hlookup : below.lookup "value" with
          | none => rw [contains_dict, hlookup, Option.isSome_none]
          | some w =>
            rw [getItem_dict, hlookup] at he
            cases he
    · intro h
      obtain ⟨name, rest, rfl⟩ := List.exists_cons_of_ne_nil h.1
      obtain ⟨node, hitem, hcase⟩ := shownAt_cons.mp h
      obtain ⟨_, heq, hlookup⟩ := getItem_eq_ok_iff.mp hitem
      cases heq
      refine ⟨(name, node), mem_of_lookup hlookup, ?_⟩
      rcases hcase with ⟨rfl, hv⟩ | ⟨hvalue, hrest⟩
      · exact Or.inl ⟨rfl, hv⟩
      · exact Or.inr ⟨getItem_value_of_not_contains hvalue, rest, rfl,
          (ih _ (mem_of_lookup hlookup)).mpr hrest⟩

/-- The paths listed for a dictionary begin with its keys. -/
lemma exists_key_of_mem_shownEntries {p : List String}
    (h : p ∈ (shownEntries entries).map Prod.fst) :
    ∃ key rest, p = key :: rest ∧ key ∈ entries.map Prod.fst := by
  obtain ⟨⟨p, w⟩, hmem, rfl⟩ := List.mem_map.mp h
  obtain ⟨entry, hentry, ⟨hpath, -⟩ | ⟨-, rest, hpath, -⟩⟩ := mem_shownEntries.mp hmem
  · exact ⟨entry.1, [], hpath, List.mem_map_of_mem hentry⟩
  · exact ⟨entry.1, rest, hpath, List.mem_map_of_mem hentry⟩

/-- A path is listed once. -/
lemma nodup_shown (hkeyed : Keyed value) : ((shown value).map Prod.fst).Nodup := by
  induction hkeyed with
  | str s => simp [shown]
  | @dict entries hnodup hvalues ih =>
    rw [shown]
    clear hvalues
    induction entries with
    | nil => simp [shownEntries]
    | cons entry entries ihe =>
      obtain ⟨element, node⟩ := entry
      rw [List.map_cons, List.nodup_cons] at hnodup
      rw [List.forall_mem_cons] at ih
      rw [shownEntries, List.map_append, List.nodup_append']
      refine ⟨?_, ihe hnodup.2 ih.2, ?_⟩
      · cases node.getItem "value" with
        | ok w => simp
        | error e =>
          have hcons : Function.Injective fun p : List String => element :: p :=
            fun p p' hpp' => (List.cons.inj hpp').2
          simpa [List.map_map, Function.comp_def] using ih.1.map hcons
      · intro p hp hp'
        obtain ⟨key, rest, rfl, hkey⟩ := exists_key_of_mem_shownEntries hp'
        have helement : key = element := by
          cases hitem : node.getItem "value" <;> simp_all
        exact hnodup.1 (helement ▸ hkey)

/-! ## What is printed -/

/-- The lines are printed, unless a text is reached. -/
structure PrintsAs (printed : Printed) (lines : List (String × PyValue)) (text : Prop) : Prop where
  starts : printed.lines <+: lines
  complete : ¬ text → printed = ⟨lines, none⟩
  raises : text → printed.error = some .typeError

lemma PrintsAs.andThen {printed next : Printed} {lines more : List (String × PyValue)}
    {text text' : Prop} (h : PrintsAs printed lines text) (hnext : PrintsAs next more text') :
    PrintsAs (printed.andThen next) (lines ++ more) (text ∨ text') := by
  by_cases htext : text
  · have hstop : printed.andThen next = printed := by rw [Printed.andThen, h.raises htext]
    rw [hstop]
    exact ⟨h.starts.trans (List.prefix_append _ _), fun hnot => absurd (Or.inl htext) hnot,
      fun _ => h.raises htext⟩
  · have hgo : printed.andThen next = ⟨lines ++ next.lines, next.error⟩ := by
      rw [h.complete htext, Printed.andThen]
    rw [hgo]
    refine ⟨(List.prefix_append_right_inj _).mpr hnext.starts, fun hnot => ?_, fun hany => ?_⟩
    · rw [hnext.complete fun htext' => hnot (Or.inr htext')]
    · exact hnext.raises (hany.resolve_left htext)

/-- An element of a dictionary leads to a text. -/
def EntryReachesText (node : PyValue) : Prop :=
  (∃ s, node = .str s ∧ s ≠ "") ∨ node.contains "value" = false ∧ ReachesText node

lemma reachesText_str {s : String} : ReachesText (.str s) ↔ s ≠ "" := by
  constructor
  · rintro ⟨path, t, hwalk, ht⟩
    cases path with
    | nil =>
      obtain rfl := PyValue.str.inj (walksTo_nil.mp hwalk)
      exact ht
    | cons name path => exact absurd hwalk.resolves (resolve_str_cons s name path _)
  · intro hs
    exact ⟨[], s, walksTo_nil.mpr rfl, hs⟩

lemma reachesText_dict (hnodup : EntriesOf Keyed entries) :
    ReachesText (.dict entries) ↔ ∃ entry ∈ entries, EntryReachesText entry.2 := by
  constructor
  · rintro ⟨path, s, hwalk, hs⟩
    cases path with
    | nil => cases walksTo_nil.mp hwalk
    | cons name path =>
      obtain ⟨child, hitem, hvalue, hwalk⟩ := walksTo_cons.mp hwalk
      obtain ⟨_, heq, hlookup⟩ := getItem_eq_ok_iff.mp hitem
      cases heq
      refine ⟨(name, child), mem_of_lookup hlookup, ?_⟩
      by_cases hpath : path = []
      · subst hpath
        exact Or.inl ⟨s, (walksTo_nil.mp hwalk).symm, hs⟩
      · exact Or.inr ⟨hvalue hpath, path, s, hwalk, hs⟩
  · rintro ⟨⟨name, child⟩, hentry, hcase⟩
    have hitem : (PyValue.dict entries).getItem name = .ok child :=
      getItem_eq_ok_iff.mpr ⟨entries, rfl, hnodup.lookup_of_mem hentry⟩
    rcases hcase with ⟨s, hchild, hs⟩ | ⟨hvalue, path, s, hwalk, hs⟩
    · exact ⟨[name], s, walksTo_cons.mpr ⟨child, hitem, by simp, walksTo_nil.mpr hchild.symm⟩, hs⟩
    · exact ⟨name :: path, s, walksTo_cons.mpr ⟨child, hitem, fun _ => hvalue, hwalk⟩, hs⟩

/-- **What `printrefs` prints below a path.** -/
lemma printsAs_printrefs (hkeyed : Keyed value) (path : List String) :
    PrintsAs (printrefs (pathRef path) path.length value) ((shown value).map (lineAt path))
      (ReachesText value) := by
  induction hkeyed generalizing path with
  | str s =>
    rw [reachesText_str, printrefs, shown]
    split_ifs with hs
    · exact ⟨by simp, fun _ => rfl, fun hne => absurd hs hne⟩
    · exact ⟨by simp, fun hnot => absurd hs hnot, fun _ => rfl⟩
  | @dict entries hnodup hvalues ih =>
    rw [reachesText_dict ⟨hnodup, hvalues⟩, printrefs, shown]
    clear hnodup hvalues
    induction entries with
    | nil => exact ⟨by simp [printEntries], fun _ => rfl, by simp⟩
    | cons entry entries ihe =>
      obtain ⟨element, node⟩ := entry
      rw [List.forall_mem_cons] at ih
      rw [printEntries, shownEntries, List.map_append]
      simp only [List.mem_cons, exists_eq_or_imp]
      refine PrintsAs.andThen ?_ (ihe ih.2)
      rw [elementRef_pathRef]
      by_cases hvalue : node.contains "value" = true
      · rw [if_pos hvalue]
        cases node with
        | str s =>
          have hs : s ≠ "" := by
            rintro rfl
            revert hvalue
            decide
          exact ⟨by simp [getItem, shown], fun hnot => absurd (Or.inl ⟨s, rfl, hs⟩) hnot,
            fun _ => rfl⟩
        | dict below =>
          obtain ⟨v, hlookup⟩ := Option.isSome_iff_exists.mp (contains_dict below ▸ hvalue)
          rw [getItem_dict, hlookup]
          refine ⟨by simp [lineAt], fun _ => rfl, ?_⟩
          rintro (⟨s, hs, -⟩ | ⟨hnot, -⟩)
          · cases hs
          · rw [hvalue] at hnot
            cases hnot
      · rw [if_neg hvalue]
        have hbelow := ih.1 (path ++ [element])
        rw [List.length_append, List.length_singleton] at hbelow
        obtain ⟨e, he⟩ := getItem_value_of_not_contains (by simpa using hvalue)
        have htext : EntryReachesText node ↔ ReachesText node := by
          constructor
          · rintro (⟨s, rfl, hs⟩ | ⟨-, h⟩)
            · exact reachesText_str.mpr hs
            · exact h
          · exact fun h => Or.inr ⟨by simpa using hvalue, h⟩
        have hlines : lineAt path ∘ (fun s => (element :: s.1, s.2)) =
            lineAt (path ++ [element]) := by
          funext s
          simp [lineAt]
        simp only [he, List.map_map, hlines]
        rw [htext]
        exact hbelow

end Walk

/-- **The values of a model are listed.** There is an exception exactly if the walk comes to a text
that is not empty. Otherwise there is a line for every path to a first value, once, and no other;
with an exception there are some of these. Where the names of a path have no separators, `parseRef`
makes of the reference in the line the path again, and finds the value there. -/
structure ListsValues (model : PyValue) (printed : Printed) : Prop where
  error_eq : printed.error = none ∨ printed.error = some .typeError
  error_iff : printed.error = none ↔ ¬ ReachesText model
  lines : ∃ paths : List (List String × PyValue), (paths.map Prod.fst).Nodup ∧
    (∀ path v, (path, v) ∈ paths ↔ ShownAt model path v) ∧
    printed.lines <+: paths.map (fun s => (pathRef s.1, s.2)) ∧
    (printed.error = none → printed.lines = paths.map fun s => (pathRef s.1, s.2))
  parses : ∀ path v, ShownAt model path v → (∀ name ∈ path, IsName name) →
    ∃ node, parseRef model (pathRef path) = .ok (node, path) ∧ node.getItem "value" = .ok v

lemma listsValues_printrefs {model : PyValue} (hkeyed : Keyed model) :
    ListsValues model (printrefs "" 0 model) := by
  have hprints : PrintsAs (printrefs "" 0 model) ((shown model).map (lineAt []))
      (ReachesText model) := printsAs_printrefs hkeyed []
  have herror : (printrefs "" 0 model).error = none ↔ ¬ ReachesText model := by
    constructor
    · intro hnone htext
      rw [hprints.raises htext] at hnone
      cases hnone
    · intro htext
      rw [hprints.complete htext]
  refine ⟨?_, herror, ⟨shown model, nodup_shown hkeyed, fun path v => mem_shown hkeyed,
    hprints.starts, fun hnone => ?_⟩, ?_⟩
  · by_cases htext : ReachesText model
    · exact Or.inr (hprints.raises htext)
    · exact Or.inl (herror.mpr htext)
  · rw [hprints.complete (herror.mp hnone)]
    rfl
  · rintro path v ⟨hpath, node, hwalk, hv⟩ hnames
    have href := refPath_pathRef (isPath_of_isName hpath hnames)
    exact ⟨node, (parseRef_eq_ok_iff hpath).mpr ⟨href, hwalk.resolves⟩, hv⟩

/-! ## Models that were discovered -/

/-- A node that can be walked over: it has a value, or no text is reached from it. -/
structure Listable (node : PyValue) : Prop where
  keyed : Keyed node
  not_str : ∀ s, node ≠ .str s
  not_text : node.contains "value" = false → ¬ ReachesText node

section Discovered

variable {node : PyValue} {entries : List (String × PyValue)} {P : PyValue → Prop}

lemma entriesOf_imp {Q : PyValue → Prop} (h : EntriesOf P entries) (hPQ : ∀ v, P v → Q v) :
    EntriesOf Q entries :=
  ⟨h.nodup, fun entry hentry => hPQ _ (h.values entry hentry)⟩

/-- No text is reached in a dictionary of such nodes. -/
lemma not_reachesText_dict (h : EntriesOf Listable entries) : ¬ ReachesText (.dict entries) := by
  rw [reachesText_dict (entriesOf_imp h fun _ hv => hv.keyed)]
  rintro ⟨entry, hentry, ⟨s, hs, -⟩ | ⟨hvalue, htext⟩⟩
  · exact (h.values entry hentry).not_str s hs
  · exact (h.values entry hentry).not_text hvalue htext

lemma listable_dict (h : EntriesOf Listable entries) : Listable (.dict entries) :=
  ⟨.dict h.nodup fun entry hentry => (h.values entry hentry).keyed, nofun,
    fun _ => not_reachesText_dict h⟩

/-- A dictionary of texts with a value can be walked over. -/
lemma listable_of_texts (hnodup : (entries.map Prod.fst).Nodup)
    (htexts : ∀ entry ∈ entries, ∃ s, entry.2 = .str s)
    (hvalue : (PyValue.dict entries).contains "value" = true) : Listable (.dict entries) := by
  refine ⟨.dict hnodup fun entry hentry => ?_, nofun, fun hnot => ?_⟩
  · obtain ⟨s, hs⟩ := htexts entry hentry
    rw [hs]
    exact .str s
  · rw [hvalue] at hnot
    cases hnot

lemma listable_daNode (fc : String) (read : Option (String × String)) :
    Listable (daNode fc read) := by
  obtain _ | ⟨value, type⟩ := read
  · exact listable_of_texts (by simp) (by simp) rfl
  · exact listable_of_texts (by simp) (by simp) rfl

lemma listable_nodeEntry (h : NodeEntry node) : Listable node := by
  cases h with
  | directory hdirectory =>
    exact listable_dict
      (entriesOf_printDataDirectory listable_daNode (fun _ h => listable_dict h) hdirectory)
  | dataSet members =>
    refine listable_dict ⟨(entriesOf_dataSetNode members).nodup, fun entry hentry => ?_⟩
    obtain ⟨index, hindex, rfl⟩ := List.mem_mapIdx.mp hentry
    exact listable_of_texts (by simp) (by simp) rfl

lemma listable_dictOf (hP : ∀ v, P v → Listable v) (h : DictOf P node) : Listable node := by
  obtain ⟨below, rfl, hbelow⟩ := h
  exact listable_dict (entriesOf_imp hbelow hP)

/-- What `discovery` returns can be walked over. -/
lemma entriesOf_listable {ied : IedAnswers} (h : ied.discovery = .ok entries) :
    EntriesOf Listable entries :=
  entriesOf_imp (IedAnswers.discoveredModel h) fun _ hdevice =>
    listable_dictOf (fun _ hnode => listable_dictOf (fun _ hentry => listable_nodeEntry hentry)
      hnode) hdevice

end Discovered

/-- **`printrefs` lists the values of a model**, of any one whose dictionaries have each key once,
and on a model that `discovery` returns it does so without an exception.

**Proof sketch.** Along the walk the reference is the one of the path (`elementRef_pathRef`), so
that the lines are those of the paths listed by `shown`. In a model that was discovered every text
is below a value (`entriesOf_listable`). -/
theorem printrefs_lists :
    (∀ model, Keyed model → ListsValues model (printrefs "" 0 model)) ∧
    ∀ (ied : IedAnswers) (entries : List (String × PyValue)), ied.discovery = .ok entries →
      Keyed (.dict entries) ∧ (printrefs "" 0 (.dict entries)).error = none := by
  refine ⟨fun model => listsValues_printrefs, fun ied entries h => ?_⟩
  have hlistable := entriesOf_listable h
  have hkeyed := (listable_dict hlistable).keyed
  exact ⟨hkeyed, (listsValues_printrefs hkeyed).error_iff.mpr (not_reachesText_dict hlistable)⟩

/-- The lines for `ampModel`. -/
theorem printrefs_lists_amp :
    (printrefs "" 0 (.dict ampModel)).lines.map Prod.fst =
        ["D/L.Amp.mag", "D/L.Amp2.mag", "D/L.S.0", "D/L.R.DatSet"] ∧
      (printrefs "" 0 (.dict ampModel)).error = none ∧
      ListsValues (.dict ampModel) (printrefs "" 0 (.dict ampModel)) := by
  obtain ⟨hkeyed, herror⟩ := printrefs_lists.2 ampIed ampModel discovery_ampIed
  exact ⟨rfl, herror, printrefs_lists.1 _ hkeyed⟩

/-- A text that is not below a value. -/
example : (printrefs "" 0 (.dict [("D", .dict [("L", .str "text")])])).error = some .typeError := by
  decide

end Tmee
