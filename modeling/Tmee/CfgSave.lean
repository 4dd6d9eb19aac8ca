import Mathlib.Data.List.Nodup
import Tmee.CfgStore

set_option relaxedAutoImplicit false
set_option autoImplicit false

/-!
# Saving a configuration

`cfg_save` writes a line `key=value` for each node, and `cfg_load` reads it back. What comes back is
what was saved exactly if every node survives the reading: the key is not split or cut, the value is
not cut, and the line is read in one piece. A configuration that was only loaded and deleted from
consists of such nodes; `cfg_set` can store others. The lines are buffered until `fclose`, and what
`fclose` returns is not looked at, so that `cfg_save` returns `0` also where the file is cut off.

## Main definitions

* `Tmee.cfgSave` — writing a file.
* `Tmee.CfgNode.Savable` — the node survives.

## Main results

* `Tmee.savable_of_mem_cfgAfter` — loading stores nodes that survive.
* `Tmee.cfgLoad_saved` — reading back nodes that survive.
* `Tmee.cfg_save_load` — when `cfg_save` succeeds, and when the file has what was saved.
-/

namespace Tmee

/-- What `fprintf(fp, "%s=%s\n", ..)` prints. -/
def CfgNode.print (node : CfgNode) : List Char :=
  node.key.toList ++ '=' :: (node.value.toList ++ ['\n'])

/-- The loop of `cfg_save`: its code, and what it has printed. `failure i` says how much the call of
`fprintf` number `i` has printed if it fails. -/
def saveNodes (failure : ℕ → Option ℕ) (i : ℕ) : Cfg → ℤ × List Char
  | [] => (0, [])
  | node :: cfg =>
    match failure i with
    | some written => (-2, node.print.take written)
    | none => ((saveNodes failure (i + 1) cfg).1, node.print ++ (saveNodes failure (i + 1) cfg).2)

/-- What is in the file after `fclose`: everything that was printed, or a beginning of it if the
buffer cannot be written. -/
def flushed (cut : Option ℕ) (printed : List Char) : List Char :=
  match cut with
  | none => printed
  | some n => printed.take n

/-- `cfg_save(cfg, filename)` on a file that can be opened or not: the code, and the content of the
file. The code does not depend on `fclose`. -/
def cfgSave (opened : Bool) (failure : ℕ → Option ℕ) (cut : Option ℕ) (cfg : Cfg) :
    ℤ × Option String :=
  if opened then
    ((saveNodes failure 0 cfg).1, some (String.ofList (flushed cut (saveNodes failure 0 cfg).2)))
  else (-1, none)

/-- **The node survives**: neither its key nor its value is split or cut, and its line is read in
one piece. -/
structure CfgNode.Savable (node : CfgNode) : Prop where
  key_chars : ∀ c ∈ node.key.toList, c ≠ '=' ∧ c ≠ '#' ∧ c ≠ '\n' ∧ c ≠ '\x00'
  value_chars : ∀ c ∈ node.value.toList, c ≠ '#' ∧ c ≠ '\n' ∧ c ≠ '\x00'
  length_lt : node.key.toList.length + 1 + node.value.toList.length < cfgMaxLine

/-! ## What a piece of a file holds -/

lemma sublist_dropLast {cs ds : List Char} (h : cs.Sublist ds) :
    cs.dropLast.Sublist ds.dropLast := by
  rw [← List.reverse_sublist, ← List.tail_reverse, ← List.tail_reverse]
  exact (List.reverse_sublist.mpr h).tail

/-- Only the last character of a piece can be the end of a line. -/
lemma newline_notMem_dropLast_fgets (n : ℕ) (cs : List Char) :
    '\n' ∉ (fgets n cs).1.dropLast := by
  induction cs generalizing n with
  | nil => cases n <;> simp [fgets]
  | cons c cs ih =>
    cases n with
    | zero => simp [fgets]
    | succ n =>
      rw [fgets]
      split_ifs with hc
      · simp
      · cases hfst : (fgets n cs).1 with
        | nil => simp
        | cons d ds =>
          have htail := ih n
          rw [hfst] at htail
          simp only [List.dropLast_cons_cons, List.mem_cons, not_or]
          exact ⟨Ne.symm hc, htail⟩

lemma newline_notMem_dropLast {cs line : List Char} (h : line ∈ readLines cs) :
    '\n' ∉ line.dropLast := by
  induction cs using readLines.induct with
  | case1 => simp [readLines] at h
  | case2 c cs ih =>
    rw [readLines, List.mem_cons] at h
    rcases h with rfl | h
    · exact newline_notMem_dropLast_fgets _ _
    · exact ih h

/-- **What a piece assigns** stands at its front, without a comment. -/
lemma assignment_eq_some {line : List Char} {a : String × String} (h : assignment line = some a) :
    (a.1.toList ++ '=' :: a.2.toList).Sublist line ∧ '=' ∉ a.1.toList ∧
      ∀ c ∈ a.1.toList ++ '=' :: a.2.toList, c ≠ '#' ∧ c ≠ '\x00' := by
  rw [assignment] at h
  set buffer := (line.takeWhile (· ≠ '\x00')).takeWhile (· ≠ '#') with hbuffer
  cases hdrop : buffer.dropWhile (· ≠ '=') with
  | nil =>
    rw [hdrop] at h
    cases h
  | cons c value =>
    have hc : c = '=' := by
      have hhead := List.head?_dropWhile_not (· ≠ '=') buffer
      rw [hdrop] at hhead
      simpa using hhead
    have hsplit := List.takeWhile_append_dropWhile (p := (· ≠ '=')) (l := buffer)
    rw [hdrop, hc] at hsplit
    rw [hdrop] at h
    obtain rfl := Option.some.inj h
    rw [String.toList_ofList, String.toList_ofList, hsplit]
    refine ⟨(List.takeWhile_sublist _).trans (List.takeWhile_sublist _), fun hmem => ?_,
      fun d hd => ⟨?_, ?_⟩⟩
    · simpa using List.mem_takeWhile_imp hmem
    · simpa using List.mem_takeWhile_imp hd
    · simpa using List.mem_takeWhile_imp ((List.takeWhile_sublist _).subset hd)

/-- A piece stores a node that survives. -/
lemma savable_of_mem_loadLine {cfg : Cfg} {line : List Char} (hlen : line.length < cfgMaxLine)
    (hnewline : '\n' ∉ line.dropLast) (hcfg : ∀ node ∈ cfg, node.Savable) :
    ∀ node ∈ loadLine cfg line, node.Savable := by
  intro node hnode
  rw [loadLine_eq] at hnode
  cases hassign : assignment line with
  | none =>
    rw [hassign] at hnode
    exact hcfg node hnode
  | some a =>
    rw [hassign] at hnode
    rcases mem_cfgSet hnode with hnode | rfl
    · exact hcfg node hnode
    · obtain ⟨hline, heq, hchars⟩ := assignment_eq_some hassign
      have hkey := sublist_cfgTrim a.1
      have hvalue := sublist_cfgTrim a.2
      refine ⟨fun c hc => ?_, fun c hc => ?_, ?_⟩
      · have hmem := hkey.subset hc
        have hother := hchars c (List.mem_append_left _ hmem)
        refine ⟨fun h => heq (h ▸ hmem), hother.1, ?_, hother.2⟩
        -- the key ends before the last character of the piece
        rintro rfl
        have hlast : (a.1.toList ++ '=' :: a.2.toList).dropLast.Sublist line.dropLast :=
          sublist_dropLast hline
        rw [List.dropLast_append_of_ne_nil (by simp)] at hlast
        exact hnewline (hlast.subset (List.mem_append_left _ hmem))
      · have hmem := hvalue.subset hc
        have hother := hchars c (List.mem_append_right _ (List.mem_cons_of_mem _ hmem))
        refine ⟨hother.1, ?_, hother.2⟩
        -- the trimmed value does not end with it, so it would stand before the last character
        rintro rfl
        have hne := List.ne_nil_of_mem hc
        rw [← List.dropLast_append_getLast hne, List.mem_append, List.mem_singleton] at hc
        rcases hc with hc | hc
        · have hsub : (cfgTrim a.2).toList.Sublist line :=
            hvalue.trans (((List.sublist_cons_self _ _).trans
              (List.sublist_append_right _ _)).trans hline)
          exact hnewline ((sublist_dropLast hsub).subset hc)
        · exact not_isBlank_getLast_cfgTrim _ (List.getLast?_eq_some_getLast hne) (hc ▸ rfl)
      · have hlength := hline.length_le
        rw [List.length_append, List.length_cons] at hlength
        have hkeyLe := hkey.length_le
        have hvalueLe := hvalue.length_le
        change (cfgTrim a.1).toList.length + 1 + (cfgTrim a.2).toList.length < cfgMaxLine
        omega

/-- A file stores nodes that survive. -/
lemma savable_of_mem_cfgLoad {cfg : Cfg} (hcfg : ∀ node ∈ cfg, node.Savable)
    (file : Option String) : ∀ node ∈ (cfgLoad cfg file).2, node.Savable := by
  have hrun {lines : List (List Char)}
      (hlines : ∀ line ∈ lines, line.length < cfgMaxLine ∧ '\n' ∉ line.dropLast)
      {cfg : Cfg} (hcfg : ∀ node ∈ cfg, node.Savable) :
      ∀ node ∈ lines.foldl loadLine cfg, node.Savable := by
    induction lines generalizing cfg with
    | nil => exact hcfg
    | cons line lines ih =>
      rw [List.forall_mem_cons] at hlines
      exact ih hlines.2 (savable_of_mem_loadLine hlines.1.1 hlines.1.2 hcfg)
  cases file with
  | none => exact hcfg
  | some content =>
    exact hrun (fun line hline =>
      ⟨length_le_of_mem_readLines hline, newline_notMem_dropLast hline⟩) hcfg

/-- **What a file leaves survives**: only `cfg_set` can store something else. -/
lemma savable_of_mem_cfgAfter {ops : List CfgOp} (hops : ∀ key value, .set key value ∉ ops) :
    ∀ node ∈ cfgAfter ops, node.Savable := by
  have hrun {cfg : Cfg} (hcfg : ∀ node ∈ cfg, node.Savable) :
      ∀ node ∈ ops.foldl CfgOp.apply cfg, node.Savable := by
    induction ops generalizing cfg with
    | nil => exact hcfg
    | cons op ops ih =>
      apply ih fun key value hmem => hops key value (List.mem_cons_of_mem op hmem)
      cases op with
      | set key value => exact absurd List.mem_cons_self (hops key value)
      | delete key => exact fun node hnode => hcfg node (List.mem_of_mem_eraseP hnode)
      | load file => exact savable_of_mem_cfgLoad hcfg file
  exact hrun (by simp)

/-! ## Reading back -/

namespace CfgNode

variable {node : CfgNode}

/-- A line that survives assigns its value to its key, whether its end is read with it or not. -/
lemma Savable.assignment_eq (h : node.Savable) {tail : List Char}
    (htail : ∀ c ∈ tail, c ≠ '#' ∧ c ≠ '\x00') :
    assignment (node.key.toList ++ '=' :: (node.value.toList ++ tail)) =
      some (node.key, String.ofList (node.value.toList ++ tail)) := by
  have hchars : ∀ c ∈ node.key.toList ++ '=' :: (node.value.toList ++ tail),
      c ≠ '#' ∧ c ≠ '\x00' := by
    intro c hc
    rw [List.mem_append, List.mem_cons, List.mem_append] at hc
    rcases hc with hc | rfl | hc | hc
    · exact ⟨(h.key_chars c hc).2.1, (h.key_chars c hc).2.2.2⟩
    · decide
    · exact ⟨(h.value_chars c hc).1, (h.value_chars c hc).2.2⟩
    · exact htail c hc
  have hkey : ∀ c ∈ node.key.toList, decide (c ≠ '=') = true := fun c hc =>
    decide_eq_true (h.key_chars c hc).1
  rw [assignment, List.takeWhile_eq_self_iff.mpr fun c hc => decide_eq_true (hchars c hc).2,
    List.takeWhile_eq_self_iff.mpr fun c hc => decide_eq_true (hchars c hc).1,
    List.dropWhile_append_of_pos hkey, List.takeWhile_append_of_pos hkey]
  simp

/-- The end of the line is trimmed away. -/
lemma cfgTrim_value_append (htrim : cfgTrim node.value = node.value) :
    cfgTrim (String.ofList (node.value.toList ++ ['\n'])) = node.value := by
  by_cases hne : node.value.toList = []
  · rw [hne, String.toList_eq_nil_iff.mp hne]
    decide
  · have hfirst := @not_isBlank_head_cfgTrim node.value
    have hlast := @not_isBlank_getLast_cfgTrim node.value
    rw [htrim] at hfirst hlast
    exact String.toList_inj.mp (toList_cfgTrim_append hfirst hlast hne (by simp [isBlank]))

/-- Storing a value with the end of its line is storing the value. -/
lemma cfgSet_value_append (htrim : cfgTrim node.value = node.value) (cfg : Cfg) :
    cfgSet cfg node.key (String.ofList (node.value.toList ++ ['\n'])) =
      cfgSet cfg node.key node.value := by
  rw [cfgSet, cfgSet, cfgTrim_value_append htrim, htrim]

/-- **A line that survives** stores its node, whatever else the file holds. -/
lemma Savable.readLines_print (h : node.Savable) (htrim : cfgTrim node.value = node.value)
    (cfg : Cfg) (rest : List Char) :
    (readLines (node.print ++ rest)).foldl loadLine cfg =
      (readLines rest).foldl loadLine (cfgSet cfg node.key node.value) := by
  have hlength := h.length_lt
  set line := node.key.toList ++ '=' :: node.value.toList with hline
  have hprint : node.print ++ rest = line ++ '\n' :: rest := by
    rw [print, hline]
    simp
  have hnewline : '\n' ∉ line := by
    rw [hline, List.mem_append, List.mem_cons]
    rintro (hmem | hmem | hmem)
    · exact (h.key_chars _ hmem).2.2.1 rfl
    · exact absurd hmem (by decide)
    · exact (h.value_chars _ hmem).2.1 rfl
  have hlen : line.length = node.key.toList.length + 1 + node.value.toList.length := by
    rw [hline, List.length_append, List.length_cons]
    omega
  rw [hprint]
  have hle : line.length + 1 ≤ cfgMaxLine := by
    rw [hlen]
    exact Nat.succ_le_of_lt hlength
  rcases Nat.lt_or_eq_of_le hle with hlt | heq
  · -- the line is read with its end
    have htail : ∀ c ∈ ['\n'], c ≠ '#' ∧ c ≠ '\x00' := by simp
    rw [readLines_eq (by simp) (fgets_line hnewline (by omega) rest), List.foldl_cons, loadLine_eq,
      hline, List.append_assoc, List.cons_append, h.assignment_eq htail, Option.elim_some,
      cfgSet_value_append htrim]
  · -- the end of the line is a piece of its own
    have hfull : fgets (cfgMaxLine - 1) (line ++ '\n' :: rest) = (line, '\n' :: rest) := by
      rw [← heq, Nat.add_sub_cancel]
      exact fgets_full hnewline _
    have hsecond : fgets (cfgMaxLine - 1) ('\n' :: rest) = (['\n'], rest) := rfl
    have hnone : ∀ c ∈ ([] : List Char), c ≠ '#' ∧ c ≠ '\x00' := by simp
    have hassign := h.assignment_eq hnone
    rw [List.append_nil, String.ofList_toList] at hassign
    rw [readLines_eq (by simp) hfull, readLines_eq (by simp) hsecond, List.foldl_cons,
      List.foldl_cons, loadLine_of_notMem (by decide), loadLine_eq, hline, hassign]
    rfl

end CfgNode

section Reload

variable {cfg : Cfg}

/-- Reading back is storing the nodes one after the other. -/
lemma readLines_flatMap_print (hsavable : ∀ node ∈ cfg, node.Savable)
    (htrim : ∀ node ∈ cfg, cfgTrim node.value = node.value) (cfg' : Cfg) :
    (readLines (cfg.flatMap CfgNode.print)).foldl loadLine cfg' =
      cfg.foldl (fun c node => cfgSet c node.key node.value) cfg' := by
  induction cfg generalizing cfg' with
  | nil => simp [readLines]
  | cons node cfg ih =>
    rw [List.forall_mem_cons] at hsavable htrim
    rw [List.flatMap_cons, hsavable.1.readLines_print htrim.1, ih hsavable.2 htrim.2,
      List.foldl_cons]

/-- Nodes with different keys are stored in front of each other. -/
lemma foldl_cfgSet (hnodup : (cfg.map CfgNode.key).Nodup)
    (htrim : ∀ node ∈ cfg,
      node.key ≠ "" ∧ cfgTrim node.key = node.key ∧ cfgTrim node.value = node.value)
    {cfg' : Cfg} (hnew : ∀ node ∈ cfg, node.key ∉ cfg'.map CfgNode.key) :
    cfg.foldl (fun c node => cfgSet c node.key node.value) cfg' = cfg.reverse ++ cfg' := by
  induction cfg generalizing cfg' with
  | nil => rfl
  | cons node cfg ih =>
    rw [List.forall_mem_cons] at htrim hnew
    rw [List.map_cons, List.nodup_cons] at hnodup
    have hset : cfgSet cfg' node.key node.value = node :: cfg' := by
      have hany : ¬ cfg'.any fun node' => node'.key = node.key := by simpa using hnew.1
      rw [cfgSet, htrim.1.2.1, htrim.1.2.2, if_neg htrim.1.1, if_neg hany]
    have hnew' : ∀ node' ∈ cfg, node'.key ∉ (node :: cfg').map CfgNode.key := by
      intro node' hmem
      rw [List.map_cons, List.mem_cons, not_or]
      refine ⟨fun hkey => hnodup.1 ?_, hnew.2 node' hmem⟩
      rw [← hkey]
      exact List.mem_map_of_mem hmem
    rw [List.foldl_cons, hset, ih hnodup.2 htrim.2 hnew', List.reverse_cons, List.append_assoc]
    rfl

/-- The nodes are found under their keys. -/
lemma cfgGet_eq_some_iff (hnodup : (cfg.map CfgNode.key).Nodup) (key value : String) :
    cfgGet cfg key = some value ↔ ⟨cfgTrim key, value⟩ ∈ cfg := by
  induction cfg with
  | nil => simp [cfgGet]
  | cons node cfg ih =>
    rw [List.map_cons, List.nodup_cons] at hnodup
    have ih := ih hnodup.2
    rw [cfgGet] at ih ⊢
    obtain ⟨nodeKey, nodeValue⟩ := node
    by_cases hkey : nodeKey = cfgTrim key
    · have hnone : (⟨cfgTrim key, value⟩ : CfgNode) ∉ cfg := by
        intro hmem
        apply hnodup.1
        rw [hkey]
        exact List.mem_map.mpr ⟨_, hmem, rfl⟩
      simp [hkey, hnone, eq_comm]
    · simp [hkey, ih, Ne.symm hkey]

/-- **What survives comes back**, in the order of the list turned around. -/
lemma cfgLoad_saved {m : CfgMap} (h : StoresMap cfg m) (hsavable : ∀ node ∈ cfg, node.Savable) :
    (cfgLoad [] (some (String.ofList (cfg.flatMap CfgNode.print)))).2 = cfg.reverse := by
  have htrim : ∀ node ∈ cfg, cfgTrim node.value = node.value := fun node hnode =>
    (h.trimmed node hnode).2.2
  rw [cfgLoad]
  dsimp only
  rw [String.toList_ofList, readLines_flatMap_print hsavable htrim,
    foldl_cfgSet h.nodup h.trimmed (by simp), List.append_nil]

/-- A node that comes back survived. -/
lemma savable_of_cfgGet_eq {m : CfgMap} (h : StoresMap cfg m) {text : String}
    (hsame : ∀ key, cfgGet (cfgLoad [] (some text)).2 key = cfgGet cfg key) :
    ∀ node ∈ cfg, node.Savable := by
  intro node hnode
  have htrim := (h.trimmed node hnode).2.1
  have hget : cfgGet cfg node.key = some node.value := by
    rw [cfgGet_eq_some_iff h.nodup, htrim]
    exact hnode
  rw [← hsame, cfgGet, Option.map_eq_some_iff] at hget
  obtain ⟨node', hfind, hvalue⟩ := hget
  have hkey : node'.key = node.key := by
    rw [← htrim]
    simpa using List.find?_some hfind
  have hnode' : node' = node := by
    cases node
    cases node'
    simp_all
  rw [← hnode']
  exact savable_of_mem_cfgLoad (by simp) _ node' (List.mem_of_find?_eq_some hfind)

/-- Turning the list around keeps the map. -/
lemma cfgGet_reverse (hnodup : (cfg.map CfgNode.key).Nodup) (key : String) :
    cfgGet cfg.reverse key = cfgGet cfg key := by
  have hnodup' : (cfg.reverse.map CfgNode.key).Nodup := by
    rw [List.map_reverse]
    rwa [List.nodup_reverse]
  apply Option.ext
  intro value
  rw [cfgGet_eq_some_iff hnodup', cfgGet_eq_some_iff hnodup, List.mem_reverse]

end Reload

/-! ## Saving -/

/-- The loop ends with `0` if no call fails. -/
lemma saveNodes_fst (failure : ℕ → Option ℕ) (cfg : Cfg) (i : ℕ) :
    (saveNodes failure i cfg).1 = 0 ↔ ∀ j < cfg.length, failure (i + j) = none := by
  induction cfg generalizing i with
  | nil => simp [saveNodes]
  | cons node cfg ih =>
    rw [saveNodes, List.length_cons, Nat.forall_lt_succ_left, Nat.add_zero]
    cases hfail : failure i with
    | some written => simp
    | none =>
      simp only [ih, true_and]
      refine forall₂_congr fun j _ => ?_
      rw [Nat.add_right_comm, Nat.add_assoc]

/-- A prefix of the lines is printed, and all of them if the loop ends with `0`. -/
lemma saveNodes_snd (failure : ℕ → Option ℕ) (cfg : Cfg) (i : ℕ) :
    (saveNodes failure i cfg).2 <+: cfg.flatMap CfgNode.print ∧
      ((saveNodes failure i cfg).1 = 0 →
        (saveNodes failure i cfg).2 = cfg.flatMap CfgNode.print) := by
  induction cfg generalizing i with
  | nil => simp [saveNodes]
  | cons node cfg ih =>
    rw [saveNodes, List.flatMap_cons]
    cases hfail : failure i with
    | some written =>
      exact ⟨(List.take_prefix _ _).trans (List.prefix_append _ _), by simp⟩
    | none =>
      refine ⟨(List.prefix_append_right_inj _).mpr (ih (i + 1)).1, fun hcode => ?_⟩
      rw [(ih (i + 1)).2 hcode]

lemma isPrefix_flushed (cut : Option ℕ) (printed : List Char) :
    flushed cut printed <+: printed := by
  cases cut with
  | none => exact List.prefix_rfl
  | some n => exact List.take_prefix n printed

/-- **Saving and loading.** For the configuration after any sequence of operations: `cfg_save`
returns `0` exactly if the file opens and no call of `fprintf` fails, and the file then has all
lines or, if the buffer could not be written, a beginning of them. A file with all lines gives every
key the value it had exactly if all nodes survive, as they do unless `cfg_set` was called; what is
loaded is then the same list, turned around. After a failure the file has a beginning of the same
text.

**Proof sketch.** A line that survives is read as one assignment (`Savable.readLines_print`), so
loading stores the nodes one after the other (`cfgLoad_saved`). Conversely a piece of a file only
stores nodes that survive (`savable_of_mem_loadLine`). -/
theorem cfg_save_load (ops : List CfgOp) (opened : Bool) (failure : ℕ → Option ℕ)
    (cut : Option ℕ) :
    let cfg := cfgAfter ops
    let saved := cfgSave opened failure cut cfg
    (saved.1 = 0 ↔ opened ∧ ∀ i < cfg.length, failure i = none) ∧
      (∀ text, saved.2 = some text → text.toList <+: cfg.flatMap CfgNode.print) ∧
      (∀ text, saved = (0, some text) →
        text.toList = flushed cut (cfg.flatMap CfgNode.print)) ∧
      (∀ text, saved.2 = some text → text.toList = cfg.flatMap CfgNode.print →
        ((∀ key, cfgGet (cfgLoad [] (some text)).2 key = cfgGet cfg key) ↔
          ∀ node ∈ cfg, node.Savable) ∧
        ((∀ node ∈ cfg, node.Savable) → (cfgLoad [] (some text)).2 = cfg.reverse)) ∧
      ((∀ key value, .set key value ∉ ops) → ∀ node ∈ cfg, node.Savable) := by
  intro cfg saved
  have hstores := storesMap_cfgAfter ops
  refine ⟨?_, fun text htext => ?_, fun text htext => ?_, fun text _ hall => ?_,
    savable_of_mem_cfgAfter⟩
  · have hcode := saveNodes_fst failure cfg 0
    simp only [Nat.zero_add] at hcode
    cases opened <;> simp [saved, cfgSave, hcode]
  · cases opened with
    | false => cases htext
    | true =>
      rw [← Option.some.inj htext, String.toList_ofList]
      exact (isPrefix_flushed cut _).trans (saveNodes_snd failure cfg 0).1
  · cases opened with
    | false => exact absurd (Prod.mk.inj htext).1 (by decide)
    | true =>
      obtain ⟨hcode, hcontent⟩ := Prod.mk.inj htext
      rw [← Option.some.inj hcontent, String.toList_ofList, (saveNodes_snd failure cfg 0).2 hcode]
  · have htext : text = String.ofList (cfg.flatMap CfgNode.print) := by
      rw [← hall, String.ofList_toList]
    rw [htext]
    refine ⟨⟨savable_of_cfgGet_eq hstores, fun hsavable key => ?_⟩, cfgLoad_saved hstores⟩
    rw [cfgLoad_saved hstores hsavable, cfgGet_reverse hstores.nodup]

/-- On a full disk nothing may be in the file, and `cfg_save` returns `0`. -/
example : cfgSave true (fun _ => none) (some 0) [⟨"a", "1"⟩] = (0, some "") := rfl

/-- A value of two lines does not survive. -/
example : ¬ CfgNode.Savable ⟨"a", "1\n2"⟩ := fun h =>
  (h.value_chars '\n' (by decide)).2.1 rfl

end Tmee
