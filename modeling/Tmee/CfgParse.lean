import Mathlib.Data.List.DropRight
import Tmee.Basic

set_option relaxedAutoImplicit false
set_option autoImplicit false

/-!
# Reading a configuration

The list of keys and values that `cfg_load` leaves, and the functions of `cfg_parse.c` that read
it. A C string is a `String` whose characters stand for its bytes. A conversion that fails leaves
its destination as it was, so the functions return an option.

## Main definitions

* `Tmee.Cfg` — the list of nodes.
* `Tmee.cfgTrim`, `Tmee.cfgGet`, `Tmee.cfgGetInt`, `Tmee.cfgGetString`.
-/

namespace Tmee

/-- `struct cfg_node` without its link. -/
structure CfgNode where
  key : String
  value : String
  deriving DecidableEq, Repr

/-- `struct cfg_struct`: the nodes, the head first. -/
abbrev Cfg := List CfgNode

/-- The white space that `cfg_trim` removes. -/
def isBlank (c : Char) : Bool := c == ' ' || c == '\t' || c == '\n'

/-- The string without leading and trailing white space. -/
def cfgTrim (str : String) : String :=
  String.ofList ((str.toList.dropWhile isBlank).rdropWhile isBlank)

/-- The value of the first node with the trimmed key. -/
def cfgGet (cfg : Cfg) (key : String) : Option String :=
  (cfg.find? (fun node => node.key = cfgTrim key)).map CfgNode.value

/-- The white space that a conversion skips. -/
def isSpace (c : Char) : Bool := isBlank c || c == '\x0b' || c == '\x0c' || c == '\r'

/-- The digits at the front of a string, as a number. -/
def scanDigits (cs : List Char) : Option ℕ :=
  match cs.takeWhile Char.isDigit with
  | [] => none
  | ds => some (Nat.ofDigitChars 10 ds 0)

/-- `sscanf(value, "%d", ..)`: the number is read as a `long`, which saturates, and its low 32
bits are stored. -/
def scanInt (value : String) : Option ℤ :=
  match value.toList.dropWhile isSpace with
  | '-' :: cs => (scanDigits cs).map fun n => wrap32 (max (-(n : ℤ)) (-2 ^ 63))
  | '+' :: cs => (scanDigits cs).map fun n => wrap32 (min (n : ℤ) (2 ^ 63 - 1))
  | cs => (scanDigits cs).map fun n => wrap32 (min (n : ℤ) (2 ^ 63 - 1))

/-- `sscanf` with a quoted string: a quote, then at least one character that is none. The closing
quote is not needed for the conversion to count. -/
def scanQuoted (value : String) : Option String :=
  match value.toList with
  | '"' :: cs =>
    match cs.takeWhile (· ≠ '"') with
    | [] => none
    | s => some (String.ofList s)
  | _ => none

def cfgGetInt (cfg : Cfg) (key : String) : Option ℤ := (cfgGet cfg key).bind scanInt

def cfgGetString (cfg : Cfg) (key : String) : Option String := (cfgGet cfg key).bind scanQuoted

example : cfgGetString [⟨"id", "\"si\""⟩, ⟨"n", "7"⟩] "\tid " = some "si" := by decide

/-- A key that starts and ends with other characters than white space is not trimmed. -/
lemma cfgTrim_eq_self {str : String} {c d : Char} {cs : List Char}
    (hc : isBlank c = false) (hd : isBlank d = false) (h : str.toList = c :: cs ++ [d]) :
    cfgTrim str = str := by
  rw [cfgTrim, h, List.cons_append, List.dropWhile_cons_of_neg (by simp [hc]), ← List.cons_append,
    List.rdropWhile_concat_neg _ _ _ (by simp [hd]), ← h, String.ofList_toList]

/-- A value that is found belongs to a node with the trimmed key. -/
lemma mem_keys_of_cfgGetString {cfg : Cfg} {key value : String}
    (h : cfgGetString cfg key = some value) : cfgTrim key ∈ cfg.map CfgNode.key := by
  rw [cfgGetString, cfgGet, Option.bind_eq_some_iff] at h
  obtain ⟨v, hv, -⟩ := h
  rw [Option.map_eq_some_iff] at hv
  obtain ⟨node, hnode, -⟩ := hv
  have hkey : node.key = cfgTrim key := by simpa using List.find?_some hnode
  exact List.mem_map.mpr ⟨node, List.mem_of_find?_eq_some hnode, hkey⟩

end Tmee
