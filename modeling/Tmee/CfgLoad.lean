import Tmee.CfgParse

set_option relaxedAutoImplicit false
set_option autoImplicit false

/-!
# Loading a configuration

`cfg_load` reads a file in pieces of at most `CFG_MAX_LINE - 1` characters, cuts each piece at the
first `#`, splits it at the first `=` and stores what is left with `cfg_set`. None of these steps
knows about quotes, so a quoted text is only found again if it has no `#` and its line is read in
one piece.

## Main definitions

* `Tmee.cfgSet`, `Tmee.cfgLoad` — storing a value, and loading a file.
* `Tmee.CfgLine` — a line `key="text"`.
* `Tmee.CfgLine.Fits` — the text has no `#`, and the piece that its line starts with is long enough.

## Main results

* `Tmee.cfgGetString_cfgLoad_iff` — which texts are found after they have been loaded.
-/

namespace Tmee

/-! ## Storing a value -/

/-- Replace the value of the first node with the key. -/
def replaceValue (key value : String) : Cfg → Cfg
  | [] => []
  | node :: cfg =>
    if node.key = key then { node with value := value } :: cfg
    else node :: replaceValue key value cfg

/-- `cfg_set(cfg, key, value)`. -/
def cfgSet (cfg : Cfg) (key value : String) : Cfg :=
  if cfgTrim key = "" then cfg
  else if cfg.any (fun node => node.key = cfgTrim key) then
    replaceValue (cfgTrim key) (cfgTrim value) cfg
  else ⟨cfgTrim key, cfgTrim value⟩ :: cfg

/-! ## Loading a file -/

/-- `CFG_MAX_LINE`. -/
def cfgMaxLine : ℕ := 1024

/-- `fgets(buffer, n + 1, fp)`: at most `n` characters up to the end of the line, and the rest of
the file. -/
def fgets : ℕ → List Char → List Char × List Char
  | 0, cs => ([], cs)
  | _ + 1, [] => ([], [])
  | n + 1, c :: cs =>
    if c = '\n' then ([c], cs) else (c :: (fgets n cs).1, (fgets n cs).2)

lemma length_fgets_snd_le (n : ℕ) (cs : List Char) : (fgets n cs).2.length ≤ cs.length := by
  induction cs generalizing n with
  | nil => cases n <;> simp [fgets]
  | cons c cs ih =>
    cases n with
    | zero => simp [fgets]
    | succ n =>
      rw [fgets]
      split_ifs
      · simp
      · exact (ih n).trans (by simp)

/-- The pieces in which a file is read. -/
def readLines : List Char → List (List Char)
  | [] => []
  | c :: cs =>
    (fgets (cfgMaxLine - 1) (c :: cs)).1 :: readLines (fgets (cfgMaxLine - 1) (c :: cs)).2
termination_by cs => cs.length
decreasing_by
  rw [cfgMaxLine, fgets]
  split_ifs
  · simp
  · have hle := length_fgets_snd_le 1022 cs
    simp only [List.length_cons]
    omega

/-- One turn of the loop of `cfg_load`: the piece as a C string, without its comment, is split at
the first `=`. -/
def loadLine (cfg : Cfg) (line : List Char) : Cfg :=
  let buffer := (line.takeWhile (· ≠ '\x00')).takeWhile (· ≠ '#')
  match buffer.dropWhile (· ≠ '=') with
  | [] => cfg
  | _ :: value => cfgSet cfg (String.ofList (buffer.takeWhile (· ≠ '='))) (String.ofList value)

/-- `cfg_load(cfg, filename)` for a file that cannot be opened or has the given content: the code,
and the configuration afterwards. -/
def cfgLoad (cfg : Cfg) (file : Option String) : ℤ × Cfg :=
  match file with
  | none => (-1, cfg)
  | some content => (0, (readLines content.toList).foldl loadLine cfg)

example : (cfgSet (cfgSet [] " id" "\"a\"") "id\t" " \"b\"\n") = [⟨"id", "\"b\""⟩] := by decide

/-! ## Lines with a quoted text -/

/-- A line `key="text"`: the key is a trimmed word that the loading does not split or cut, and the
text can stand between quotes on one line. -/
structure CfgLine where
  key : String
  text : String
  key_ne : key ≠ ""
  key_trimmed : cfgTrim key = key
  key_chars : ∀ c ∈ key.toList, c ≠ '=' ∧ c ≠ '#' ∧ c ≠ '\n' ∧ c ≠ '\x00'
  text_chars : ∀ c ∈ text.toList, c ≠ '"' ∧ c ≠ '\n' ∧ c ≠ '\x00'

namespace CfgLine

/-- The characters of the line up to the closing quote. -/
def opened (line : CfgLine) : List Char := line.key.toList ++ '=' :: '"' :: line.text.toList

/-- The characters of the line. -/
def chars (line : CfgLine) : List Char := line.opened ++ ['"', '\n']

/-- The text has no `#`, and the piece that the line starts with goes up to the closing quote, or up
to the character before it if that is not blank. -/
def Fits (line : CfgLine) : Prop :=
  '#' ∉ line.text.toList ∧
    (line.opened.length + 1 < cfgMaxLine ∨
      line.opened.length + 1 = cfgMaxLine ∧ ∀ c ∈ line.text.toList.getLast?, ¬ isBlank c)

end CfgLine

/-- The content of a file with the lines. -/
def cfgFile (lines : List CfgLine) : String := String.ofList (lines.flatMap CfgLine.chars)

/-! ## Trimmed texts -/

lemma toList_cfgTrim (str : String) :
    (cfgTrim str).toList = (str.toList.dropWhile isBlank).rdropWhile isBlank := by
  rw [cfgTrim, String.toList_ofList]

lemma sublist_cfgTrim (str : String) : (cfgTrim str).toList.Sublist str.toList := by
  rw [toList_cfgTrim]
  exact (List.rdropWhile_prefix isBlank _).sublist.trans (List.dropWhile_suffix isBlank).sublist

/-- A trimmed text does not end with white space. -/
lemma not_isBlank_getLast_cfgTrim {str : String} :
    ∀ c ∈ (cfgTrim str).toList.getLast?, ¬ isBlank c := by
  intro c hc
  rw [toList_cfgTrim] at hc
  obtain ⟨hne, rfl⟩ := List.mem_getLast?_eq_getLast hc
  exact List.rdropWhile_last_not isBlank _ hne

/-- A text that does not start with white space keeps what stands before trailing white space. -/
lemma toList_cfgTrim_append {cs blanks : List Char} (hfirst : ∀ c ∈ cs.head?, ¬ isBlank c)
    (hlast : ∀ c ∈ cs.getLast?, ¬ isBlank c) (hne : cs ≠ []) (hblanks : ∀ c ∈ blanks, isBlank c) :
    (cfgTrim (String.ofList (cs ++ blanks))).toList = cs := by
  obtain ⟨c, cs, rfl⟩ := List.exists_cons_of_ne_nil hne
  rw [toList_cfgTrim, String.toList_ofList, List.cons_append,
    List.dropWhile_cons_of_neg (hfirst c rfl), ← List.cons_append, List.rdropWhile,
    List.reverse_append, List.dropWhile_append_of_pos (by simpa using hblanks), ← List.rdropWhile,
    List.rdropWhile_eq_self_iff]
  intro hcs
  exact hlast _ (List.getLast?_eq_some_getLast hcs)

/-! ## Storing and finding -/

lemma find?_replaceValue (key value : String) (cfg : Cfg) (key' : String) :
    ((replaceValue key value cfg).find? fun node => node.key = key').map CfgNode.value =
      if key' = key ∧ key ∈ cfg.map CfgNode.key then some value
      else (cfg.find? fun node => node.key = key').map CfgNode.value := by
  induction cfg with
  | nil => simp [replaceValue]
  | cons node cfg ih =>
    rw [replaceValue]
    by_cases hnode : node.key = key
    · by_cases hkey : key' = key
      · simp [hnode, hkey]
      · simp [hnode, hkey, Ne.symm hkey]
    · rw [if_neg hnode, List.find?_cons, List.find?_cons]
      by_cases hkey : node.key = key'
      · have hne : key' ≠ key := fun h => hnode (hkey.trans h)
        simp [hkey, hne]
      · simpa [hkey, Ne.symm hnode] using ih

/-- **A value that is stored is found**, and every other key keeps its value. -/
lemma cfgGet_cfgSet {key : String} (hkey : cfgTrim key ≠ "") (cfg : Cfg) (value key' : String) :
    cfgGet (cfgSet cfg key value) key' =
      if cfgTrim key' = cfgTrim key then some (cfgTrim value) else cfgGet cfg key' := by
  rw [cfgSet, if_neg hkey]
  split_ifs with hany hsame hsame
  · have hmem : cfgTrim key ∈ cfg.map CfgNode.key := by simpa [List.mem_map] using hany
    rw [cfgGet, find?_replaceValue, if_pos ⟨hsame, hmem⟩]
  · rw [cfgGet, find?_replaceValue, if_neg fun h => hsame h.1]
    rfl
  · simp [cfgGet, hsame]
  · simp [cfgGet, Ne.symm hsame]

/-! ## Pieces of a file -/

/-- A line with its end is read at once if there is room. -/
lemma fgets_line {n : ℕ} {line : List Char} (hline : '\n' ∉ line) (hlen : line.length < n)
    (rest : List Char) : fgets n (line ++ '\n' :: rest) = (line ++ ['\n'], rest) := by
  induction line generalizing n with
  | nil =>
    cases n with
    | zero => simp at hlen
    | succ n => simp [fgets]
  | cons c line ih =>
    cases n with
    | zero => simp at hlen
    | succ n =>
      rw [List.mem_cons, not_or] at hline
      rw [List.cons_append, fgets, if_neg (Ne.symm hline.1), ih hline.2 (by simpa using hlen)]
      rfl

/-- What fills the buffer is read at once. -/
lemma fgets_full {line : List Char} (hline : '\n' ∉ line) (rest : List Char) :
    fgets line.length (line ++ rest) = (line, rest) := by
  induction line with
  | nil => simp [fgets]
  | cons c line ih =>
    rw [List.mem_cons, not_or] at hline
    rw [List.cons_append, List.length_cons, fgets, if_neg (Ne.symm hline.1), ih hline.2]

lemma length_fgets_fst_le (n : ℕ) (cs : List Char) : (fgets n cs).1.length ≤ n := by
  induction cs generalizing n with
  | nil => cases n <;> simp [fgets]
  | cons c cs ih =>
    cases n with
    | zero => simp [fgets]
    | succ n =>
      rw [fgets]
      split_ifs
      · simp
      · simpa using ih n

/-- The first piece, and the pieces of the rest. -/
lemma readLines_eq {cs line rest : List Char} (hne : cs ≠ [])
    (h : fgets (cfgMaxLine - 1) cs = (line, rest)) : readLines cs = line :: readLines rest := by
  obtain ⟨c, cs, rfl⟩ := List.exists_cons_of_ne_nil hne
  rw [readLines, h]

lemma length_le_of_mem_readLines {cs line : List Char} (h : line ∈ readLines cs) :
    line.length < cfgMaxLine := by
  induction cs using readLines.induct with
  | case1 => simp [readLines] at h
  | case2 c cs ih =>
    rw [readLines, List.mem_cons] at h
    rcases h with rfl | h
    · exact (length_fgets_fst_le _ _).trans_lt (by decide)
    · exact ih h

/-! ## What a line stores -/

/-- A quote and a text are scanned, whether the closing quote is there or not. -/
lemma scanQuoted_eq_some {value : String} {text tail : List Char} (hne : text ≠ [])
    (htext : '"' ∉ text) (htail : ∀ c ∈ tail.head?, c = '"')
    (hvalue : value.toList = '"' :: (text ++ tail)) :
    scanQuoted value = some (String.ofList text) := by
  have htake : (text ++ tail).takeWhile (· ≠ '"') = text := by
    rw [List.takeWhile_append_of_pos fun c hc => by
      have hquote : c ≠ '"' := fun h => htext (h ▸ hc)
      simpa using hquote]
    cases tail with
    | nil => simp
    | cons c cs => simp [htail c rfl]
  obtain ⟨c, cs, rfl⟩ := List.exists_cons_of_ne_nil hne
  rw [scanQuoted, hvalue]
  simp only [htake]

/-- What is scanned stands behind a quote. -/
lemma exists_of_scanQuoted {value text : String} (h : scanQuoted value = some text) :
    ∃ tail, value.toList = '"' :: (text.toList ++ tail) := by
  rw [scanQuoted] at h
  split at h
  · next cs hcs =>
    refine ⟨cs.dropWhile (· ≠ '"'), ?_⟩
    split at h
    · cases h
    · rw [← Option.some.inj h, String.toList_ofList, hcs, List.takeWhile_append_dropWhile]
  · cases h

namespace CfgLine

variable {line : CfgLine}

lemma not_mem_opened {c : Char} (hkey : c ∉ line.key.toList) (htext : c ∉ line.text.toList)
    (heq : c ≠ '=') (hquote : c ≠ '"') : c ∉ line.opened := by
  simp [opened, hkey, htext, heq, hquote]

lemma length_opened (line : CfgLine) :
    line.opened.length = line.key.toList.length + 2 + line.text.toList.length := by
  simp [opened]
  omega

lemma newline_notMem_opened (line : CfgLine) : '\n' ∉ line.opened :=
  not_mem_opened (fun h => (line.key_chars _ h).2.2.1 rfl) (fun h => (line.text_chars _ h).2.1 rfl)
    (by decide) (by decide)

/-- The part of a line up to its text or its closing quote is split at the right place. -/
lemma loadLine_opened (hhash : '#' ∉ line.text.toList) {tail : List Char}
    (htail : ∀ c ∈ tail, c ≠ '#' ∧ c ≠ '\x00') (cfg : Cfg) :
    loadLine cfg (line.opened ++ tail) =
      cfgSet cfg line.key (String.ofList ('"' :: (line.text.toList ++ tail))) := by
  have hnul : ∀ c ∈ line.opened ++ tail, decide (c ≠ '\x00') = true := by
    intro c hc
    rw [decide_eq_true_eq]
    rintro rfl
    rcases List.mem_append.mp hc with hc | hc
    · exact not_mem_opened (fun h => (line.key_chars _ h).2.2.2 rfl)
        (fun h => (line.text_chars _ h).2.2 rfl) (by decide) (by decide) hc
    · exact (htail _ hc).2 rfl
  have hcomment : ∀ c ∈ line.opened ++ tail, decide (c ≠ '#') = true := by
    intro c hc
    rw [decide_eq_true_eq]
    rintro rfl
    rcases List.mem_append.mp hc with hc | hc
    · exact not_mem_opened (fun h => (line.key_chars _ h).2.1 rfl) hhash (by decide) (by decide) hc
    · exact (htail _ hc).1 rfl
  have hkey : ∀ c ∈ line.key.toList, decide (c ≠ '=') = true := fun c hc =>
    decide_eq_true (line.key_chars c hc).1
  rw [loadLine, List.takeWhile_eq_self_iff.mpr hnul, List.takeWhile_eq_self_iff.mpr hcomment,
    opened, List.append_assoc, List.dropWhile_append_of_pos hkey,
    List.takeWhile_append_of_pos hkey]
  simp

end CfgLine

/-- A piece without `=` stores nothing. -/
lemma loadLine_of_notMem {line : List Char} (h : '=' ∉ line) (cfg : Cfg) :
    loadLine cfg line = cfg := by
  have hdrop : ((line.takeWhile (· ≠ '\x00')).takeWhile (· ≠ '#')).dropWhile (· ≠ '=') = [] := by
    rw [List.dropWhile_eq_nil_iff]
    intro c hc
    rw [decide_eq_true_eq]
    rintro rfl
    exact h ((List.takeWhile_sublist _).subset ((List.takeWhile_sublist _).subset hc))
  rw [loadLine]
  simp only [hdrop]

namespace CfgLine

variable {line : CfgLine}

/-- **The pieces of a line**: the first ends at the end of the line, or before it if the buffer is
full, and what is left of the line stores nothing. -/
lemma exists_readLines (h : line.opened.length < cfgMaxLine) :
    ∃ tail, (tail = ['"', '\n'] ∨ tail = ['"'] ∨
        tail = [] ∧ line.opened.length + 1 = cfgMaxLine) ∧
      ∀ cfg rest, (readLines (line.chars ++ rest)).foldl loadLine cfg =
        (readLines rest).foldl loadLine (loadLine cfg (line.opened ++ tail)) := by
  have hopened := line.newline_notMem_opened
  have hclosed : '\n' ∉ line.opened ++ ['"'] := by simp [hopened]
  have hne : line.opened ≠ [] := by simp [opened]
  rcases lt_trichotomy (line.opened.length + 2) cfgMaxLine with hlt | heq | hgt
  · -- the whole line is one piece
    refine ⟨['"', '\n'], .inl rfl, fun cfg rest => ?_⟩
    have hfirst : fgets (cfgMaxLine - 1) (line.chars ++ rest)
        = (line.opened ++ ['"', '\n'], rest) := by
      have hroom : (line.opened ++ ['"']).length < cfgMaxLine - 1 := by
        rw [List.length_append, List.length_singleton]
        omega
      simpa [chars] using fgets_line hclosed hroom rest
    rw [readLines_eq (by simp [chars]) hfirst, List.foldl_cons]
  · -- the buffer ends with the closing quote
    refine ⟨['"'], .inr (.inl rfl), fun cfg rest => ?_⟩
    have hlen : cfgMaxLine - 1 = (line.opened ++ ['"']).length := by
      rw [List.length_append, List.length_singleton]
      omega
    have hfirst : fgets (cfgMaxLine - 1) (line.chars ++ rest)
        = (line.opened ++ ['"'], '\n' :: rest) := by
      rw [hlen]
      simpa [chars] using fgets_full hclosed ('\n' :: rest)
    have hsecond : fgets (cfgMaxLine - 1) ('\n' :: rest) = (['\n'], rest) := rfl
    rw [readLines_eq (by simp [chars]) hfirst, readLines_eq (by simp) hsecond, List.foldl_cons,
      List.foldl_cons, loadLine_of_notMem (by decide)]
  · -- the buffer ends before the closing quote
    refine ⟨[], .inr (.inr ⟨rfl, by omega⟩), fun cfg rest => ?_⟩
    have hlen : cfgMaxLine - 1 = line.opened.length := by omega
    have hfirst : fgets (cfgMaxLine - 1) (line.chars ++ rest)
        = (line.opened, '"' :: '\n' :: rest) := by
      rw [hlen]
      simpa [chars] using fgets_full hopened ('"' :: '\n' :: rest)
    have hsecond : fgets (cfgMaxLine - 1) ('"' :: '\n' :: rest) = (['"', '\n'], rest) := rfl
    rw [readLines_eq (by simp [chars]) hfirst, readLines_eq (by simp) hsecond, List.foldl_cons,
      List.foldl_cons, loadLine_of_notMem (by decide), List.append_nil]

/-- **A line that fits** stores a value in which its text is found, whatever else the file holds. -/
lemma Fits.exists_value (h : line.Fits) (hne : line.text ≠ "") :
    ∃ value, scanQuoted (cfgTrim value) = some line.text ∧ ∀ cfg rest,
      (readLines (line.chars ++ rest)).foldl loadLine cfg =
        (readLines rest).foldl loadLine (cfgSet cfg line.key value) := by
  obtain ⟨hhash, hlen⟩ := h
  obtain ⟨tail, htail, hload⟩ := line.exists_readLines (by omega)
  have htext : line.text.toList ≠ [] := by simpa using hne
  have hquote : '"' ∉ line.text.toList := fun hmem => (line.text_chars _ hmem).1 rfl
  refine ⟨String.ofList ('"' :: (line.text.toList ++ tail)), ?_, fun cfg rest => ?_⟩
  · have hclosed {blanks : List Char} (hblanks : ∀ c ∈ blanks, isBlank c) :
        (cfgTrim (String.ofList ('"' :: (line.text.toList ++ '"' :: blanks)))).toList
          = '"' :: (line.text.toList ++ ['"']) := by
      have hfirst : ∀ c ∈ ('"' :: (line.text.toList ++ ['"'])).head?, ¬ isBlank c := by
        simp [isBlank]
      have hlast : ∀ c ∈ ('"' :: (line.text.toList ++ ['"'])).getLast?, ¬ isBlank c := by
        rw [← List.cons_append, List.getLast?_concat]
        simp [isBlank]
      simpa using toList_cfgTrim_append hfirst hlast (by simp) hblanks
    rcases htail with rfl | rfl | ⟨rfl, hfull⟩
    · rw [scanQuoted_eq_some htext hquote (by simp) (hclosed (by simp [isBlank])),
        String.ofList_toList]
    · rw [scanQuoted_eq_some htext hquote (by simp) (hclosed (by simp)), String.ofList_toList]
    · -- without the closing quote the text is what stands before the trailing white space
      have hfirst : ∀ c ∈ ('"' :: line.text.toList).head?, ¬ isBlank c := by simp [isBlank]
      have hlast : ∀ c ∈ ('"' :: line.text.toList).getLast?, ¬ isBlank c := by
        rw [List.getLast?_cons_of_ne_nil htext]
        rcases hlen with hlen | hlen
        · omega
        · exact hlen.2
      have hblanks : ∀ c ∈ ([] : List Char), isBlank c := by simp
      have htrim := toList_cfgTrim_append hfirst hlast (by simp) hblanks
      rw [List.append_nil, ← List.append_nil line.text.toList] at htrim
      have hnone : ∀ c ∈ ([] : List Char).head?, c = '"' := by simp
      rw [List.append_nil, scanQuoted_eq_some htext hquote hnone (by simpa using htrim),
        String.ofList_toList]
  · rw [hload, loadLine_opened hhash]
    rcases htail with rfl | rfl | ⟨rfl, -⟩ <;> simp

end CfgLine

/-! ## Loading a file of lines -/

/-- Loading lines, the first of which fits. -/
lemma cfgLoad_cons {line : CfgLine} {value : String} {lines : List CfgLine} {cfg : Cfg}
    (h : ∀ rest, (readLines (line.chars ++ rest)).foldl loadLine cfg =
      (readLines rest).foldl loadLine (cfgSet cfg line.key value)) :
    cfgLoad cfg (some (cfgFile (line :: lines))) =
      cfgLoad (cfgSet cfg line.key value) (some (cfgFile lines)) := by
  simp [cfgLoad, cfgFile, h]

/-- Loading a file that can be opened returns `0`. -/
lemma cfgLoad_some_fst (cfg : Cfg) (content : String) : (cfgLoad cfg (some content)).1 = 0 := rfl

lemma CfgLine.cfgTrim_key_ne (line : CfgLine) : cfgTrim line.key ≠ "" := by
  rw [line.key_trimmed]
  exact line.key_ne

/-- **Frame**: lines that fit leave the keys alone that they do not have. -/
lemma cfgGet_cfgLoad_of_notMem {lines : List CfgLine} (hfits : ∀ line ∈ lines, line.Fits)
    (hne : ∀ line ∈ lines, line.text ≠ "") {key : String}
    (hkey : ∀ line ∈ lines, line.key ≠ cfgTrim key) (cfg : Cfg) :
    cfgGet (cfgLoad cfg (some (cfgFile lines))).2 key = cfgGet cfg key := by
  induction lines generalizing cfg with
  | nil => simp [cfgLoad, cfgFile, readLines]
  | cons line lines ih =>
    rw [List.forall_mem_cons] at hfits hne hkey
    obtain ⟨value, -, hload⟩ := hfits.1.exists_value hne.1
    rw [cfgLoad_cons (hload cfg), ih hfits.2 hne.2 hkey.2, cfgGet_cfgSet line.cfgTrim_key_ne,
      if_neg (by rw [line.key_trimmed]; exact Ne.symm hkey.1)]

/-- **The texts of lines that fit are found.** -/
lemma cfgGetString_cfgLoad {lines : List CfgLine} (hfits : ∀ line ∈ lines, line.Fits)
    (hne : ∀ line ∈ lines, line.text ≠ "") (hkeys : (lines.map CfgLine.key).Nodup) (cfg : Cfg) :
    ∀ line ∈ lines,
      cfgGetString (cfgLoad cfg (some (cfgFile lines))).2 line.key = some line.text := by
  induction lines generalizing cfg with
  | nil => simp
  | cons line lines ih =>
    rw [List.forall_mem_cons] at hfits hne
    rw [List.map_cons, List.nodup_cons] at hkeys
    obtain ⟨value, hvalue, hload⟩ := hfits.1.exists_value hne.1
    rw [cfgLoad_cons (hload cfg), List.forall_mem_cons]
    refine ⟨?_, ih hfits.2 hne.2 hkeys.2 _⟩
    have hother : ∀ line' ∈ lines, line'.key ≠ cfgTrim line.key := by
      intro line' hmem heq
      rw [line.key_trimmed] at heq
      exact hkeys.1 (List.mem_map.mpr ⟨line', hmem, heq⟩)
    rw [cfgGetString, cfgGet_cfgLoad_of_notMem hfits.2 hne.2 hother,
      cfgGet_cfgSet line.cfgTrim_key_ne, if_pos rfl, Option.bind_some, hvalue]

/-! ## What a loaded node holds -/

/-- A node as a piece of a file leaves it: without `#` and trailing white space, and not longer than
the piece. -/
structure CfgNode.Loaded (node : CfgNode) : Prop where
  no_comment : '#' ∉ node.value.toList
  trimmed : ∀ c ∈ node.value.toList.getLast?, ¬ isBlank c
  length_lt : node.key.toList.length + 1 + node.value.toList.length < cfgMaxLine

lemma mem_replaceValue {cfg : Cfg} {key value : String} {node : CfgNode}
    (h : node ∈ replaceValue key value cfg) : node ∈ cfg ∨ node = ⟨key, value⟩ := by
  induction cfg with
  | nil => simp [replaceValue] at h
  | cons node' cfg ih =>
    rw [replaceValue] at h
    split_ifs at h with hkey
    · rcases List.mem_cons.mp h with rfl | h
      · exact .inr (by rw [hkey])
      · exact .inl (List.mem_cons_of_mem node' h)
    · rcases List.mem_cons.mp h with rfl | h
      · exact .inl List.mem_cons_self
      · exact (ih h).imp_left (List.mem_cons_of_mem node')

lemma mem_cfgSet {cfg : Cfg} {key value : String} {node : CfgNode}
    (h : node ∈ cfgSet cfg key value) : node ∈ cfg ∨ node = ⟨cfgTrim key, cfgTrim value⟩ := by
  rw [cfgSet] at h
  split_ifs at h
  · exact .inl h
  · exact mem_replaceValue h
  · exact (List.mem_cons.mp h).symm

lemma loaded_of_mem_loadLine {cfg : Cfg} {line : List Char} (hlen : line.length < cfgMaxLine)
    (hcfg : ∀ node ∈ cfg, node.Loaded) : ∀ node ∈ loadLine cfg line, node.Loaded := by
  intro node hnode
  rw [loadLine] at hnode
  set buffer := (line.takeWhile (· ≠ '\x00')).takeWhile (· ≠ '#') with hbuffer
  cases hdrop : buffer.dropWhile (· ≠ '=') with
  | nil =>
    rw [hdrop] at hnode
    exact hcfg node hnode
  | cons c value =>
    rw [hdrop] at hnode
    rcases mem_cfgSet hnode with hnode | rfl
    · exact hcfg node hnode
    · have hsplit := List.takeWhile_append_dropWhile (p := (· ≠ '=')) (l := buffer)
      rw [hdrop] at hsplit
      have hvalue := sublist_cfgTrim (String.ofList value)
      have hkey := sublist_cfgTrim (String.ofList (buffer.takeWhile (· ≠ '=')))
      rw [String.toList_ofList] at hvalue hkey
      have hsub : buffer.length ≤ line.length :=
        ((List.takeWhile_sublist _).trans (List.takeWhile_sublist _)).length_le
      refine ⟨fun hmem => ?_, not_isBlank_getLast_cfgTrim, ?_⟩
      · have hhash : '#' ∈ buffer := by
          rw [← hsplit]
          exact List.mem_append_right _ (List.mem_cons_of_mem c (hvalue.subset hmem))
        simpa using List.mem_takeWhile_imp hhash
      · have hlength := congrArg List.length hsplit
        rw [List.length_append, List.length_cons] at hlength
        have hle := hvalue.length_le
        have hle' := hkey.length_le
        change (cfgTrim _).toList.length + 1 + (cfgTrim _).toList.length < cfgMaxLine
        omega

/-- **Every node that a file leaves comes from one piece.** -/
lemma loaded_of_mem_cfgLoad (content : String) :
    ∀ node ∈ (cfgLoad [] (some content)).2, node.Loaded := by
  have hrun {lines : List (List Char)} (hlines : ∀ line ∈ lines, line.length < cfgMaxLine)
      {cfg : Cfg} (hcfg : ∀ node ∈ cfg, node.Loaded) :
      ∀ node ∈ lines.foldl loadLine cfg, node.Loaded := by
    induction lines generalizing cfg with
    | nil => exact hcfg
    | cons line lines ih =>
      rw [List.forall_mem_cons] at hlines
      exact ih hlines.2 (loaded_of_mem_loadLine hlines.1 hcfg)
  exact hrun (fun line hline => length_le_of_mem_readLines hline) (by simp)

/-- A text that is found in a loaded configuration comes from a line that fits. -/
lemma CfgLine.fits_of_cfgGetString {line : CfgLine} {cfg : Cfg} (hcfg : ∀ node ∈ cfg, node.Loaded)
    (hne : line.text ≠ "") (h : cfgGetString cfg line.key = some line.text) : line.Fits := by
  rw [cfgGetString, cfgGet, Option.bind_eq_some_iff] at h
  obtain ⟨value, hvalue, hscan⟩ := h
  obtain ⟨node, hfind, rfl⟩ := Option.map_eq_some_iff.mp hvalue
  have hkey : node.key = line.key := by
    rw [← line.key_trimmed]
    simpa using List.find?_some hfind
  obtain ⟨hcomment, htrimmed, hlength⟩ := hcfg node (List.mem_of_find?_eq_some hfind)
  obtain ⟨tail, htail⟩ := exists_of_scanQuoted hscan
  rw [htail] at hcomment htrimmed hlength
  refine ⟨fun hmem => hcomment (by simp [hmem]), ?_⟩
  have hopened := line.length_opened
  rw [hkey, List.length_cons, List.length_append] at hlength
  rcases lt_or_eq_of_le (show line.opened.length + 1 ≤ cfgMaxLine by omega) with hlt | heq
  · exact .inl hlt
  · have hnil : tail = [] := List.eq_nil_of_length_eq_zero (by omega)
    have htext : line.text.toList ≠ [] := by simpa using hne
    rw [hnil, List.append_nil, List.getLast?_cons_of_ne_nil htext] at htrimmed
    exact .inr ⟨heq, htrimmed⟩

/-- **Which texts are found after a file of lines has been loaded.** -/
theorem cfgGetString_cfgLoad_iff {lines : List CfgLine} (hne : ∀ line ∈ lines, line.text ≠ "")
    (hkeys : (lines.map CfgLine.key).Nodup) :
    ((∀ line ∈ lines, line.Fits) → ∀ cfg, ∀ line ∈ lines,
        cfgGetString (cfgLoad cfg (some (cfgFile lines))).2 line.key = some line.text) ∧
      ((∀ line ∈ lines,
          cfgGetString (cfgLoad [] (some (cfgFile lines))).2 line.key = some line.text) →
        ∀ line ∈ lines, line.Fits) := by
  refine ⟨fun hfits cfg => cfgGetString_cfgLoad hfits hne hkeys cfg, fun hfound line hmem => ?_⟩
  exact line.fits_of_cfgGetString (loaded_of_mem_cfgLoad _) (hne line hmem) (hfound line hmem)

/-- Two lines that fit are found in any configuration; beside one that does not, not both are. -/
theorem cfgGetString_cfgLoad_iff_two :
    let id : CfgLine := ⟨"id", "si", by decide, by decide, by simp, by simp⟩
    let path : CfgLine := ⟨"path", "/usr/lib/si.so", by decide, by decide, by simp, by simp⟩
    let note : CfgLine := ⟨"note", "b#c", by decide, by decide, by simp, by simp⟩
    (∀ cfg, cfgGetString (cfgLoad cfg (some (cfgFile [id, path]))).2 "id" = some "si" ∧
        cfgGetString (cfgLoad cfg (some (cfgFile [id, path]))).2 "path" = some "/usr/lib/si.so") ∧
      ¬ ∀ line ∈ [id, note],
        cfgGetString (cfgLoad [] (some (cfgFile [id, note]))).2 line.key = some line.text := by
  intro id path note
  have hid : id.Fits := ⟨by decide, Or.inl (by decide)⟩
  have hpath : path.Fits := ⟨by decide, Or.inl (by decide)⟩
  have hnote : ¬ note.Fits := fun h => absurd h.1 (by decide)
  constructor
  · intro cfg
    have hne : ∀ line ∈ [id, path], line.text ≠ "" := by simp [id, path]
    have hkeys : ([id, path].map CfgLine.key).Nodup := by simp [id, path]
    have hfound := (cfgGetString_cfgLoad_iff hne hkeys).1 (by simp [hid, hpath]) cfg
    exact ⟨hfound id (by simp), hfound path (by simp)⟩
  · intro hfound
    have hne : ∀ line ∈ [id, note], line.text ≠ "" := by simp [id, note]
    have hkeys : ([id, note].map CfgLine.key).Nodup := by simp [id, note]
    exact hnote ((cfgGetString_cfgLoad_iff hne hkeys).2 hfound note (by simp))

/-- A text with `#` is cut. -/
theorem not_cfgGetString_cfgLoad :
    ¬ ∀ lines : List CfgLine, (lines.map CfgLine.key).Nodup → ∀ line ∈ lines,
      cfgGetString (cfgLoad [] (some (cfgFile lines))).2 line.key = some line.text := by
  intro h
  have hfound := h [⟨"id", "b#c", by decide, by decide, by simp, by simp⟩] (by simp) _
    List.mem_cons_self
  have hread : readLines "id=\"b#c\"\n".toList = ["id=\"b#c\"\n".toList] := by
    have hfirst : fgets (cfgMaxLine - 1) "id=\"b#c\"\n".toList = ("id=\"b#c\"\n".toList, []) := by
      decide
    rw [readLines_eq (by decide) hfirst, readLines]
  have hload : (cfgLoad [] (some "id=\"b#c\"\n")).2 = [⟨"id", "\"b"⟩] := by
    rw [cfgLoad]
    dsimp only
    rw [hread]
    decide
  have hfile : cfgFile [⟨"id", "b#c", by decide, by decide, by simp, by simp⟩]
      = "id=\"b#c\"\n" := by decide
  rw [hfile, hload] at hfound
  revert hfound
  decide

end Tmee
