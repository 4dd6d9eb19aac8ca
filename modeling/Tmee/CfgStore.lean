import Mathlib.Logic.Function.Basic
import Tmee.CfgLoad

set_option relaxedAutoImplicit false
set_option autoImplicit false

/-!
# The store behind a configuration

`cfg_set`, `cfg_delete` and `cfg_load` work on a linked list, of which every operation looks at the
first node with a key only. For its users the list is a map from trimmed keys to trimmed values; it
is one because no key ever occurs twice.

## Main definitions

* `Tmee.cfgDelete` — removing a value.
* `Tmee.CfgOp` — the operations.
* `Tmee.CfgMap` — the map, with the meaning of the operations.
* `Tmee.StoresMap` — the list stands for the map.

## Main results

* `Tmee.StoresMap.apply` — every operation on the list does what it should on the map.
* `Tmee.cfg_refines_map` — so does every sequence of operations.
-/

namespace Tmee

/-- `cfg_delete(cfg, key)`: the first node with the trimmed key is taken out. -/
def cfgDelete (cfg : Cfg) (key : String) : Cfg :=
  cfg.eraseP fun node => node.key = cfgTrim key

/-- The operations on a configuration. -/
inductive CfgOp
  | set (key value : String)
  | delete (key : String)
  | load (file : Option String)
  deriving DecidableEq, Repr

/-- An operation on the list. -/
def CfgOp.apply (cfg : Cfg) : CfgOp → Cfg
  | .set key value => cfgSet cfg key value
  | .delete key => cfgDelete cfg key
  | .load file => (cfgLoad cfg file).2

/-! ## The map -/

/-- What a configuration is for: a value for some keys. -/
abbrev CfgMap := String → Option String

/-- The assignment that a piece of a file makes. -/
def assignment (line : List Char) : Option (String × String) :=
  let buffer := (line.takeWhile (· ≠ '\x00')).takeWhile (· ≠ '#')
  match buffer.dropWhile (· ≠ '=') with
  | [] => none
  | _ :: value => some (String.ofList (buffer.takeWhile (· ≠ '=')), String.ofList value)

namespace CfgMap

/-- Assign a value; the empty key has none. -/
def set (m : CfgMap) (key value : String) : CfgMap :=
  if cfgTrim key = "" then m else Function.update m (cfgTrim key) (some (cfgTrim value))

/-- Forget a value. -/
def delete (m : CfgMap) (key : String) : CfgMap := Function.update m (cfgTrim key) none

/-- Assignments one after the other. -/
def assign (m : CfgMap) (assignments : List (String × String)) : CfgMap :=
  assignments.foldl (fun m a => m.set a.1 a.2) m

/-- An operation on the map. -/
def apply (m : CfgMap) : CfgOp → CfgMap
  | .set key value => m.set key value
  | .delete key => m.delete key
  | .load none => m
  | .load (some content) => m.assign ((readLines content.toList).filterMap assignment)

end CfgMap

/-- **The list stands for the map**: it has one node for each key with a value, and what is stored
is trimmed. -/
structure StoresMap (cfg : Cfg) (m : CfgMap) : Prop where
  nodup : (cfg.map CfgNode.key).Nodup
  trimmed : ∀ node ∈ cfg,
    node.key ≠ "" ∧ cfgTrim node.key = node.key ∧ cfgTrim node.value = node.value
  value_eq : ∀ key, (cfg.find? fun node => node.key = key).map CfgNode.value = m key

/-! ## Trimming -/

/-- A trimmed text does not start with white space. -/
lemma not_isBlank_head_cfgTrim {str : String} : ∀ c ∈ (cfgTrim str).toList.head?, ¬ isBlank c := by
  intro c hc
  rw [toList_cfgTrim] at hc
  obtain ⟨cs, hcs⟩ := List.rdropWhile_prefix isBlank (str.toList.dropWhile isBlank)
  obtain ⟨ds, hds⟩ := List.head?_eq_some_iff.mp hc
  rw [hds, List.cons_append] at hcs
  have hhead := List.head?_dropWhile_not isBlank str.toList
  rw [← hcs] at hhead
  simpa using hhead

/-- What neither starts nor ends with white space is trimmed. -/
lemma cfgTrim_eq_self_of {str : String} (hfirst : ∀ c ∈ str.toList.head?, ¬ isBlank c)
    (hlast : ∀ c ∈ str.toList.getLast?, ¬ isBlank c) : cfgTrim str = str := by
  by_cases hne : str.toList = []
  · rw [cfgTrim, hne, ← String.ofList_toList (s := str), hne]
    rfl
  · have hblanks : ∀ c ∈ ([] : List Char), isBlank c := by simp
    have htrim := toList_cfgTrim_append hfirst hlast hne hblanks
    rw [List.append_nil, String.ofList_toList] at htrim
    exact String.toList_inj.mp htrim

/-- Trimming twice is trimming once. -/
@[simp] lemma cfgTrim_cfgTrim (str : String) : cfgTrim (cfgTrim str) = cfgTrim str :=
  cfgTrim_eq_self_of not_isBlank_head_cfgTrim not_isBlank_getLast_cfgTrim

/-! ## One operation -/

section Apply

variable {cfg : Cfg} {m : CfgMap}

/-- The keys with a value are those of the nodes. -/
lemma StoresMap.mem_keys_iff (h : StoresMap cfg m) (key : String) :
    key ∈ cfg.map CfgNode.key ↔ (m key).isSome := by
  rw [← h.value_eq, Option.isSome_map, List.find?_isSome]
  simp

/-- What `cfg_get` returns. -/
lemma StoresMap.cfgGet_eq (h : StoresMap cfg m) (key : String) : cfgGet cfg key = m (cfgTrim key) :=
  h.value_eq (cfgTrim key)

lemma map_key_replaceValue (key value : String) (cfg : Cfg) :
    (replaceValue key value cfg).map CfgNode.key = cfg.map CfgNode.key := by
  induction cfg with
  | nil => rfl
  | cons node cfg ih =>
    rw [replaceValue]
    split_ifs
    · rfl
    · rw [List.map_cons, List.map_cons, ih]

/-- **`cfg_set`** assigns a value. -/
lemma StoresMap.set (h : StoresMap cfg m) (key value : String) :
    StoresMap (cfgSet cfg key value) (m.set key value) := by
  by_cases hkey : cfgTrim key = ""
  · rw [cfgSet, if_pos hkey, CfgMap.set, if_pos hkey]
    exact h
  · refine ⟨?_, fun node hnode => ?_, fun key' => ?_⟩
    · rw [cfgSet, if_neg hkey]
      split_ifs with hany
      · rw [map_key_replaceValue]
        exact h.nodup
      · rw [List.map_cons, List.nodup_cons]
        exact ⟨by simpa using hany, h.nodup⟩
    · rcases mem_cfgSet hnode with hnode | rfl
      · exact h.trimmed node hnode
      · exact ⟨hkey, cfgTrim_cfgTrim key, cfgTrim_cfgTrim value⟩
    · rw [cfgSet, if_neg hkey, CfgMap.set, if_neg hkey, Function.update_apply, ← h.value_eq]
      split_ifs with hany hsame hsame
      · have hmem : cfgTrim key ∈ cfg.map CfgNode.key := by simpa [List.mem_map] using hany
        rw [find?_replaceValue, if_pos ⟨hsame, hmem⟩]
      · rw [find?_replaceValue, if_neg fun hboth => hsame hboth.1]
      · rw [List.find?_cons_of_pos (by simpa using hsame.symm)]
        rfl
      · rw [List.find?_cons_of_neg (by simpa using Ne.symm hsame)]

/-- The first node with a key is the only one. -/
lemma find?_eraseP {key : String} (hnodup : (cfg.map CfgNode.key).Nodup) (key' : String) :
    ((cfg.eraseP fun node => node.key = key).find? fun node => node.key = key') =
      if key' = key then none else cfg.find? fun node => node.key = key' := by
  induction cfg with
  | nil => simp
  | cons node cfg ih =>
    rw [List.map_cons, List.nodup_cons] at hnodup
    by_cases hnode : node.key = key
    · rw [List.eraseP_cons_of_pos (by simpa using hnode)]
      split_ifs with hkey
      · rw [List.find?_eq_none]
        intro node' hmem
        have hne : node'.key ≠ key' := by
          rintro hsame
          exact hnodup.1 (List.mem_map.mpr ⟨node', hmem, hsame.trans (hkey.trans hnode.symm)⟩)
        simpa using hne
      · rw [List.find?_cons_of_neg (by simpa [hnode] using Ne.symm hkey)]
    · rw [List.eraseP_cons_of_neg (by simpa using hnode), List.find?_cons, List.find?_cons,
        ih hnodup.2]
      by_cases hkey : node.key = key'
      · have hne : key' ≠ key := fun hsame => hnode (hkey.trans hsame)
        simp [hkey, hne]
      · simp [hkey]

/-- **`cfg_delete`** forgets a value: the key does not occur again. -/
lemma StoresMap.delete (h : StoresMap cfg m) (key : String) :
    StoresMap (cfgDelete cfg key) (m.delete key) := by
  refine ⟨?_, fun node hnode => h.trimmed node (List.mem_of_mem_eraseP hnode), fun key' => ?_⟩
  · exact h.nodup.sublist (List.eraseP_sublist.map CfgNode.key)
  · rw [cfgDelete, find?_eraseP h.nodup, CfgMap.delete, Function.update_apply]
    split_ifs with hkey
    · rfl
    · exact h.value_eq key'

/-- A piece of a file makes its assignment. -/
lemma loadLine_eq (cfg : Cfg) (line : List Char) :
    loadLine cfg line = (assignment line).elim cfg fun a => cfgSet cfg a.1 a.2 := by
  rw [loadLine, assignment]
  cases ((line.takeWhile (· ≠ '\x00')).takeWhile (· ≠ '#')).dropWhile (· ≠ '=') <;> simp

/-- **The pieces of a file** make their assignments in order. -/
lemma StoresMap.loadLines (h : StoresMap cfg m) (lines : List (List Char)) :
    StoresMap (lines.foldl loadLine cfg) (m.assign (lines.filterMap assignment)) := by
  induction lines generalizing cfg m with
  | nil => exact h
  | cons line lines ih =>
    rw [List.foldl_cons, loadLine_eq]
    cases hassign : assignment line with
    | none =>
      rw [List.filterMap_cons_none hassign]
      exact ih h
    | some a =>
      rw [List.filterMap_cons_some hassign]
      exact ih (h.set a.1 a.2)

/-- **Every operation** on the list is the operation on the map. -/
lemma StoresMap.apply (h : StoresMap cfg m) (op : CfgOp) :
    StoresMap (CfgOp.apply cfg op) (m.apply op) := by
  cases op with
  | set key value => exact h.set key value
  | delete key => exact h.delete key
  | load file =>
    cases file with
    | none => exact h
    | some content => exact h.loadLines (readLines content.toList)

end Apply

/-! ## Sequences of operations -/

/-- What `cfg_init` makes. -/
lemma storesMap_nil : StoresMap [] fun _ => none :=
  ⟨List.nodup_nil, by simp, fun _ => rfl⟩

/-- The configuration after operations on what `cfg_init` makes. -/
def cfgAfter (ops : List CfgOp) : Cfg := ops.foldl CfgOp.apply []

/-- The map after the same operations. -/
def mapAfter (ops : List CfgOp) : CfgMap := ops.foldl CfgMap.apply fun _ => none

/-- The list after any operations stands for the map after them. -/
lemma storesMap_cfgAfter (ops : List CfgOp) : StoresMap (cfgAfter ops) (mapAfter ops) := by
  have hrun {cfg : Cfg} {m : CfgMap} (h : StoresMap cfg m) :
      StoresMap (ops.foldl CfgOp.apply cfg) (ops.foldl CfgMap.apply m) := by
    induction ops generalizing cfg m with
    | nil => exact h
    | cons op ops ih => exact ih (h.apply op)
  exact hrun storesMap_nil

/-- **A configuration is a map.** After every sequence of `cfg_set`, `cfg_delete` and `cfg_load`, in
any order, with any arguments and files: there is one node for each key that has a value, and
`cfg_get` returns for every key what the map has for it, trimmed. -/
theorem cfg_refines_map (ops : List CfgOp) :
    ((cfgAfter ops).map CfgNode.key).Nodup ∧
      (∀ key, key ∈ (cfgAfter ops).map CfgNode.key ↔ (mapAfter ops key).isSome) ∧
      (∀ key value, cfgGet (cfgAfter ops) key = some value ↔
        mapAfter ops (cfgTrim key) = some value) ∧
      mapAfter ops "" = none := by
  have h := storesMap_cfgAfter ops
  refine ⟨h.nodup, h.mem_keys_iff, fun key value => by rw [h.cfgGet_eq], ?_⟩
  by_contra hsome
  have hmem : "" ∈ (cfgAfter ops).map CfgNode.key :=
    (h.mem_keys_iff "").mpr (Option.isSome_iff_ne_none.mpr hsome)
  obtain ⟨node, hnode, hkey⟩ := List.mem_map.mp hmem
  exact (h.trimmed node hnode).1 hkey

example : cfgAfter [.set " a" "1", .set "b" "2\n", .delete "a ", .set "b" " 3"] = [⟨"b", "3"⟩] := by
  decide

end Tmee
