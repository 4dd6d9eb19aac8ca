import Tmee.Client.Model
import Tmee.Lib.Fallible

set_option relaxedAutoImplicit false
set_option autoImplicit false

/-!
# References and paths

A reference names a path in a model, and `parseRef` walks along it. This file separates the two: the
path of a reference depends on the reference alone, and the walk on the model alone.

## Main definitions

* `Tmee.refPath` — the path of a reference.
* `Tmee.PyValue.resolve`, `Tmee.PyValue.setAt` — the node at the end of a path, and its replacement.

## Main results

* `Tmee.PyValue.getItem_setItem_self`, `Tmee.PyValue.getItem_setItem_of_ne`,
  `Tmee.PyValue.setItem_getItem_self` — subscripts and assignments.
* `Tmee.PyValue.resolve_setAt`, `Tmee.PyValue.setAt_resolve`,
  `Tmee.PyValue.resolve_setAt_of_diverges` — replacements.
* `Tmee.parseRef_eq` — `parseRef` is a walk along the path of its reference.
-/

namespace Tmee

namespace PyValue

variable {value value' child node v : PyValue} {key key' name : String} {names : List String}

/-! ## Subscripts -/

lemma insertEntry_cons (k : String) (w : PyValue) (entries : List (String × PyValue)) :
    insertEntry key v ((k, w) :: entries) =
      if k = key then (k, v) :: entries else (k, w) :: insertEntry key v entries := rfl

lemma contains_dict (entries : List (String × PyValue)) :
    (dict entries).contains key = (entries.lookup key).isSome := rfl

lemma getItem_str (s : String) : (str s).getItem key = .error .typeError := rfl

lemma getItem_dict (entries : List (String × PyValue)) : (dict entries).getItem key =
    match entries.lookup key with
    | some v => .ok v
    | none => .error .keyError := rfl

lemma setItem_dict (entries : List (String × PyValue)) :
    (dict entries).setItem key v = .ok (dict (insertEntry key v entries)) := rfl

lemma lookup_insertEntry_self (key : String) (v : PyValue) (entries : List (String × PyValue)) :
    (insertEntry key v entries).lookup key = some v := by
  induction entries with
  | nil => exact List.lookup_cons_self
  | cons entry entries ih =>
    obtain ⟨k, w⟩ := entry
    rw [insertEntry_cons]
    split_ifs with h
    · rw [h, List.lookup_cons_self]
    · rw [List.lookup_cons, beq_eq_false_iff_ne.mpr (Ne.symm h), ih]

lemma lookup_insertEntry_of_ne (h : key' ≠ key) (v : PyValue)
    (entries : List (String × PyValue)) :
    (insertEntry key v entries).lookup key' = entries.lookup key' := by
  induction entries with
  | nil =>
    show [(key, v)].lookup key' = none
    rw [List.lookup_cons, beq_eq_false_iff_ne.mpr h, List.lookup_nil]
  | cons entry entries ih =>
    obtain ⟨k, w⟩ := entry
    rw [insertEntry_cons]
    split_ifs with hkey
    · subst hkey
      rw [List.lookup_cons, List.lookup_cons, beq_eq_false_iff_ne.mpr h]
    · rw [List.lookup_cons, List.lookup_cons, ih]

lemma insertEntry_eq_self {entries : List (String × PyValue)} (h : entries.lookup key = some v) :
    insertEntry key v entries = entries := by
  induction entries with
  | nil => cases h
  | cons entry entries ih =>
    obtain ⟨k, w⟩ := entry
    rw [insertEntry_cons]
    rw [List.lookup_cons] at h
    split_ifs with hkey
    · subst hkey
      simp only [beq_self_eq_true] at h
      rw [Option.some.inj h]
    · rw [beq_eq_false_iff_ne.mpr (Ne.symm hkey)] at h
      rw [ih h]

/-- A subscript that returns is one of a dictionary. -/
lemma getItem_eq_ok_iff : value.getItem key = .ok child ↔
    ∃ entries, value = .dict entries ∧ entries.lookup key = some child := by
  cases value with
  | str s =>
    rw [getItem_str]
    simp
  | dict entries =>
    rw [getItem_dict]
    cases h : entries.lookup key with
    | none => simp [h]
    | some w => simp [h]

lemma contains_of_getItem (h : value.getItem key = .ok child) : value.contains key = true := by
  obtain ⟨entries, rfl, hlookup⟩ := (getItem_eq_ok_iff).mp h
  rw [contains_dict, hlookup, Option.isSome_some]

lemma getItem_setItem_self (h : value.setItem key v = .ok value') : value'.getItem key = .ok v := by
  cases value with
  | str s => cases h
  | dict entries =>
    obtain rfl := Except.ok.inj h
    exact (getItem_eq_ok_iff).mpr ⟨_, rfl, lookup_insertEntry_self key v entries⟩

lemma getItem_setItem_of_ne (h : value.setItem key v = .ok value') (hne : key' ≠ key) :
    value'.getItem key' = value.getItem key' := by
  cases value with
  | str s => cases h
  | dict entries =>
    obtain rfl := Except.ok.inj h
    rw [getItem_dict, getItem_dict, lookup_insertEntry_of_ne hne]

/-- Assigning what is there changes nothing. -/
lemma setItem_getItem_self (h : value.getItem key = .ok child) :
    value.setItem key child = .ok value := by
  obtain ⟨entries, rfl, hlookup⟩ := (getItem_eq_ok_iff).mp h
  rw [setItem_dict, insertEntry_eq_self hlookup]

/-- What has subscripts can be assigned to. -/
lemma exists_setItem (h : value.getItem key = .ok child) (v : PyValue) :
    ∃ value', value.setItem key' v = .ok value' := by
  obtain ⟨entries, rfl, -⟩ := (getItem_eq_ok_iff).mp h
  exact ⟨_, rfl⟩

lemma contains_setItem_of_ne (h : value.setItem key v = .ok value') (hne : key' ≠ key) :
    value'.contains key' = value.contains key' := by
  cases value with
  | str s => cases h
  | dict entries =>
    obtain rfl := Except.ok.inj h
    rw [contains_dict, contains_dict, lookup_insertEntry_of_ne hne]

lemma map_fst_insertEntry {entries : List (String × PyValue)} (h : entries.lookup key = some child)
    (v : PyValue) : (insertEntry key v entries).map Prod.fst = entries.map Prod.fst := by
  induction entries with
  | nil => cases h
  | cons entry entries ih =>
    obtain ⟨k, w⟩ := entry
    rw [insertEntry_cons]
    rw [List.lookup_cons] at h
    split_ifs with hkey
    · rfl
    · rw [beq_eq_false_iff_ne.mpr (Ne.symm hkey)] at h
      rw [List.map_cons, List.map_cons, ih h]

/-- An assignment to a key that is there keeps the keys and their order. -/
lemma keys_setItem (hitem : value.getItem key = .ok child)
    (h : value.setItem key v = .ok value') : value'.keys = value.keys := by
  obtain ⟨entries, rfl, hlookup⟩ := (getItem_eq_ok_iff).mp hitem
  obtain rfl := Except.ok.inj h
  exact map_fst_insertEntry hlookup v

/-! ## Paths -/

/-- The node at the end of a path, if there is one. -/
def resolve : PyValue → List String → Except PyError (Option PyValue)
  | value, [] => .ok (some value)
  | value, name :: names =>
    if value.contains name then do
      let child ← value.getItem name
      child.resolve names
    else .ok none

lemma resolve_cons (value : PyValue) (name : String) (names : List String) :
    value.resolve (name :: names) =
      if value.contains name then value.getItem name >>= fun child => child.resolve names
      else .ok none := rfl

lemma resolve_cons_eq_ok_some : value.resolve (name :: names) = .ok (some node) ↔
    ∃ child, value.getItem name = .ok child ∧ child.resolve names = .ok (some node) := by
  constructor
  · intro h
    rw [resolve_cons] at h
    split_ifs at h
    · exact (Fallible.bind_eq_ok).mp h
    · cases Except.ok.inj h
  · rintro ⟨child, hitem, hrest⟩
    rw [resolve_cons, if_pos (contains_of_getItem hitem), hitem, Fallible.ok_bind, hrest]

/-- The first step of a walk. -/
lemma resolve_cons_of_getItem (h : value.getItem name = .ok child) (names : List String) :
    value.resolve (name :: names) = child.resolve names := by
  rw [resolve_cons, if_pos (contains_of_getItem h), h, Fallible.ok_bind]

/-- An assignment is not seen under other names. -/
lemma resolve_setItem_of_ne (h : value.setItem key v = .ok value') (hne : name ≠ key)
    (names : List String) : value'.resolve (name :: names) = value.resolve (name :: names) := by
  rw [resolve_cons, resolve_cons, contains_setItem_of_ne h hne, getItem_setItem_of_ne h hne]

/-- A walk goes on from where its first part ends. -/
lemma resolve_append_of_resolve (h : value.resolve names = .ok (some node)) (rest : List String) :
    value.resolve (names ++ rest) = node.resolve rest := by
  induction names generalizing value with
  | nil =>
    obtain rfl := Option.some.inj (Except.ok.inj h)
    rfl
  | cons name names ih =>
    obtain ⟨child, hitem, hrest⟩ := (resolve_cons_eq_ok_some).mp h
    rw [List.cons_append, resolve_cons_of_getItem hitem, ih hrest]

/-- What a longer walk comes by is a dictionary. -/
lemma exists_dict_above {rest : List String}
    (h : value.resolve (names ++ name :: rest) = .ok (some node)) :
    ∃ entries, value.resolve names = .ok (some (.dict entries)) := by
  induction names generalizing value with
  | nil =>
    obtain ⟨child, hitem, -⟩ := (resolve_cons_eq_ok_some).mp h
    obtain ⟨entries, rfl, -⟩ := (getItem_eq_ok_iff).mp hitem
    exact ⟨entries, rfl⟩
  | cons next names ih =>
    obtain ⟨child, hitem, hrest⟩ := (resolve_cons_eq_ok_some).mp h
    rw [resolve_cons_of_getItem hitem]
    exact ih hrest

/-- The value with the node at the end of a path replaced. -/
def setAt : PyValue → List String → PyValue → Except PyError PyValue
  | _, [], node => .ok node
  | value, name :: names, node => do
    let child ← value.getItem name
    let child ← child.setAt names node
    value.setItem name child

lemma setAt_cons (value node : PyValue) (name : String) (names : List String) :
    value.setAt (name :: names) node = (value.getItem name >>= fun child =>
      child.setAt names node >>= fun child => value.setItem name child) := rfl

/-- What is found can be replaced. -/
lemma exists_setAt (h : value.resolve names = .ok (some node)) (node' : PyValue) :
    ∃ value', value.setAt names node' = .ok value' := by
  induction names generalizing value with
  | nil => exact ⟨node', rfl⟩
  | cons name names ih =>
    obtain ⟨child, hitem, hrest⟩ := (resolve_cons_eq_ok_some).mp h
    obtain ⟨child', hchild⟩ := ih hrest
    obtain ⟨value', hvalue⟩ := exists_setItem hitem child'
    exact ⟨value', by rw [setAt_cons, hitem, Fallible.ok_bind, hchild, Fallible.ok_bind, hvalue]⟩

/-- A replacement is found where it was put. -/
lemma resolve_setAt (h : value.setAt names node = .ok value') :
    value'.resolve names = .ok (some node) := by
  induction names generalizing value value' with
  | nil =>
    obtain rfl := Except.ok.inj h
    rfl
  | cons name names ih =>
    obtain ⟨child, -, hrest⟩ := (Fallible.bind_eq_ok).mp h
    obtain ⟨child', hchild, hset⟩ := (Fallible.bind_eq_ok).mp hrest
    exact (resolve_cons_eq_ok_some).mpr ⟨child', getItem_setItem_self hset, ih hchild⟩

/-- **A replacement is not seen on other paths**, that is, on those that neither lead through the
node nor end above it. -/
lemma resolve_setAt_of_diverges {others : List String} (h : value.setAt names node = .ok value')
    (hbelow : ¬ names <+: others) (habove : ¬ others <+: names) :
    value'.resolve others = value.resolve others := by
  induction names generalizing value value' others with
  | nil => exact absurd List.nil_prefix hbelow
  | cons name names ih =>
    cases others with
    | nil => exact absurd List.nil_prefix habove
    | cons other others =>
      obtain ⟨child, hitem, hrest⟩ := (Fallible.bind_eq_ok).mp h
      obtain ⟨child', hchild, hset⟩ := (Fallible.bind_eq_ok).mp hrest
      by_cases hname : other = name
      · subst hname
        rw [List.cons_prefix_cons, not_and] at hbelow habove
        rw [resolve_cons_of_getItem (getItem_setItem_self hset), resolve_cons_of_getItem hitem,
          ih hchild (hbelow rfl) (habove rfl)]
      · exact resolve_setItem_of_ne hset hname others

/-- The nodes above a replacement keep their keys. -/
lemma exists_resolve_above {above : List String} (h : value.setAt names node = .ok value')
    (habove : above <+: names) (hne : above ≠ names) : ∃ n n', value.resolve above = .ok (some n) ∧
      value'.resolve above = .ok (some n') ∧ n'.keys = n.keys := by
  induction names generalizing value value' above with
  | nil => exact absurd (List.prefix_nil.mp habove) hne
  | cons name names ih =>
    obtain ⟨child, hitem, hrest⟩ := (Fallible.bind_eq_ok).mp h
    obtain ⟨child', hchild, hset⟩ := (Fallible.bind_eq_ok).mp hrest
    cases above with
    | nil => exact ⟨value, value', rfl, rfl, keys_setItem hitem hset⟩
    | cons name' above =>
      obtain ⟨rfl, hstarts⟩ := List.cons_prefix_cons.mp habove
      rw [resolve_cons_of_getItem (getItem_setItem_self hset), resolve_cons_of_getItem hitem]
      exact ih hchild hstarts fun heq => hne (by rw [heq])

/-- Replacing a node by itself changes nothing. -/
lemma setAt_resolve (h : value.resolve names = .ok (some node)) :
    value.setAt names node = .ok value := by
  induction names generalizing value with
  | nil =>
    obtain rfl := Option.some.inj (Except.ok.inj h)
    rfl
  | cons name names ih =>
    obtain ⟨child, hitem, hrest⟩ := (resolve_cons_eq_ok_some).mp h
    rw [setAt_cons, hitem, Fallible.ok_bind, ih hrest, Fallible.ok_bind, setItem_getItem_self hitem]

end PyValue

/-- The path of a reference: nothing for a reference with more than one slash. -/
def refPath (ref : String) : Option (List String) :=
  if ref = "" then some []
  else
    match splitStr '/' ref with
    | [_] => some [ref]
    | [ld, names] => some (ld :: splitStr '.' names)
    | _ => none

/-- What `parseRef` returns for the node at the end of a path. -/
def parsed (path : List String) : Option PyValue → PyValue × List String
  | some node => (node, path)
  | none => (.dict [], [])

lemma parseNames_eq (mm : PyValue) (names path : List String) :
    parseNames mm names path = (mm.resolve names).map (parsed (path ++ names)) := by
  induction names generalizing mm path with
  | nil => simp [parseNames, PyValue.resolve, Except.map, parsed]
  | cons name names ih =>
    unfold parseNames
    rw [PyValue.resolve_cons]
    split_ifs
    · cases mm.getItem name with
      | error e => rfl
      | ok child => simp only [Fallible.ok_bind, ih, List.append_assoc, List.singleton_append]
    · rfl

/-- **`parseRef` is a walk** along the path of its reference. -/
lemma parseRef_eq (model : PyValue) (ref : String) : parseRef model ref =
    match refPath ref with
    | none => .ok (.dict [], [])
    | some path => (model.resolve path).map (parsed path) := by
  unfold parseRef refPath
  by_cases hempty : ref = ""
  · rw [if_pos hempty, if_pos hempty]
    rfl
  · rw [if_neg hempty, if_neg hempty]
    rcases splitStr '/' ref with _ | ⟨ld, _ | ⟨names, _ | ⟨third, rest⟩⟩⟩
    · rfl
    · dsimp only
      rw [PyValue.resolve_cons]
      split_ifs
      · cases model.getItem ref <;> rfl
      · rfl
    · dsimp only
      rw [PyValue.resolve_cons]
      split_ifs
      · cases model.getItem ld with
        | error e => rfl
        | ok child => simp only [Fallible.ok_bind, parseNames_eq, List.singleton_append]
      · rfl
    · rfl

/-- A reference that is found has a path, and the path leads to the node. -/
lemma parseRef_eq_ok_iff {model node : PyValue} {ref : String} {path : List String}
    (hpath : path ≠ []) : parseRef model ref = .ok (node, path) ↔
      refPath ref = some path ∧ model.resolve path = .ok (some node) := by
  rw [parseRef_eq]
  cases href : refPath ref with
  | none => simp [Ne.symm hpath]
  | some path' =>
    dsimp only
    cases hnode : model.resolve path' with
    | error e =>
      refine iff_of_false (fun h => by cases h) ?_
      rintro ⟨heq, hok⟩
      obtain rfl := Option.some.inj heq
      rw [hnode] at hok
      cases hok
    | ok o =>
      cases o with
      | none =>
        refine iff_of_false (fun h => ?_) ?_
        · exact hpath (Prod.mk.inj (Except.ok.inj h)).2.symm
        · rintro ⟨heq, hok⟩
          obtain rfl := Option.some.inj heq
          rw [hnode] at hok
          cases Except.ok.inj hok
      | some node' =>
        constructor
        · intro h
          obtain ⟨rfl, rfl⟩ := Prod.mk.inj (Except.ok.inj h)
          exact ⟨rfl, hnode⟩
        · rintro ⟨heq, hok⟩
          obtain rfl := Option.some.inj heq
          obtain rfl := Option.some.inj (Except.ok.inj (hnode.symm.trans hok))
          rfl

end Tmee
