import Mathlib.Algebra.Order.Ring.Int
import Mathlib.Data.List.TakeWhile

set_option relaxedAutoImplicit false
set_option autoImplicit false

/-!
# Scanning hexadecimal numbers

The conversion `%x` of the C function `sscanf` on a list of characters: white space is skipped, then
there may be a sign and a prefix `0x`, and there must be a digit. The number is converted as by
`strtoul` for 64 bits, and the low 32 bits are stored.

## Main definitions

* `Scan.isSpace`, `Scan.isHexDigit`, `Scan.ofHexDigits` — characters and digits.
* `Scan.hex` — the conversion: the number, and the characters that are left.
* `Scan.hexGroups` — several conversions with a separator between them.
* `Scan.Reads`, `Scan.ReadsGroups` — the texts at the front of which there are such numbers.

## Main results

* `Scan.hex_eq_some_iff`, `Scan.hexGroups_eq_some_iff` — what the conversions read.
* `Scan.ReadsGroups.of_digits` — plain numbers with the separator between them are read.
-/

namespace Scan

/-- `isspace`. -/
def isSpace (c : Char) : Bool :=
  c == ' ' || c == '\t' || c == '\n' || c == '\x0b' || c == '\x0c' || c == '\r'

/-- `isxdigit`. -/
def isHexDigit (c : Char) : Bool :=
  c.isDigit || (decide ('a' ≤ c) && decide (c ≤ 'f')) || (decide ('A' ≤ c) && decide (c ≤ 'F'))

/-- The value of a hexadecimal digit. -/
def hexDigit (c : Char) : ℕ :=
  if c.isDigit then c.toNat - '0'.toNat
  else if 'a' ≤ c then c.toNat - 'a'.toNat + 10
  else c.toNat - 'A'.toNat + 10

/-- The number with the digits. -/
def ofHexDigits (ds : List Char) : ℕ := ds.foldl (fun n d => 16 * n + hexDigit d) 0

/-- An optional sign: whether it is a minus, and what follows it. -/
def sign : List Char → Bool × List Char
  | '-' :: cs => (true, cs)
  | '+' :: cs => (false, cs)
  | cs => (false, cs)

/-- What follows an optional prefix. -/
def dropPrefix : List Char → List Char
  | '0' :: 'x' :: cs => cs
  | '0' :: 'X' :: cs => cs
  | cs => cs

/-- The `unsigned long` that `strtoul` makes of a sign and a number. -/
def unsignedLong (neg : Bool) (n : ℕ) : ℕ :=
  if n < 2 ^ 64 then
    if neg then (2 ^ 64 - n) % 2 ^ 64 else n
  else 2 ^ 64 - 1

/-- `%x`: the number that is stored, and the characters that are left. -/
def hex (cs : List Char) : Option (ℕ × List Char) :=
  let (neg, cs) := sign (cs.dropWhile isSpace)
  let cs := dropPrefix cs
  match cs.takeWhile isHexDigit with
  | [] => none
  | ds => some (unsignedLong neg (ofHexDigits ds) % 2 ^ 32, cs.dropWhile isHexDigit)

/-- Numbers with a separator between them, one more than there are separators. -/
def hexGroups (sep : Char) : ℕ → List Char → Option (List ℕ)
  | 0, cs => (hex cs).map fun r => [r.1]
  | k + 1, cs =>
    match hex cs with
    | some (n, c :: rest) => if c = sep then (hexGroups sep k rest).map (n :: ·) else none
    | _ => none

/-- The texts of a sign, and whether they are a minus. -/
inductive IsSign : List Char → Bool → Prop
  | none : IsSign [] false
  | plus : IsSign ['+'] false
  | minus : IsSign ['-'] true

/-- The texts of a prefix. -/
inductive IsPrefix : List Char → Prop
  | none : IsPrefix []
  | lower : IsPrefix ['0', 'x']
  | upper : IsPrefix ['0', 'X']

/-- **A number at the front of a text**: white space, a sign, a prefix and at least one digit, and
as many of them as there are. -/
inductive Reads : List Char → ℕ → List Char → Prop
  | mk {spaces sgn pre ds rest : List Char} {neg : Bool} (hspaces : ∀ c ∈ spaces, isSpace c)
      (hsign : IsSign sgn neg) (hstarts : IsPrefix pre)
      (hbare : pre = [] → dropPrefix (ds ++ rest) = ds ++ rest) (hne : ds ≠ [])
      (hdigits : ∀ c ∈ ds, isHexDigit c) (hstop : ∀ c ∈ rest.head?, ¬ isHexDigit c) :
      Reads (spaces ++ (sgn ++ (pre ++ (ds ++ rest))))
        (unsignedLong neg (ofHexDigits ds) % 2 ^ 32) rest

/-- **Numbers at the front of a text**, with a separator between them. -/
inductive ReadsGroups (sep : Char) : ℕ → List Char → List ℕ → Prop
  | last {cs rest : List Char} {n : ℕ} (h : Reads cs n rest) : ReadsGroups sep 0 cs [n]
  | cons {cs rest : List Char} {n k : ℕ} {ns : List ℕ} (h : Reads cs n (sep :: rest))
      (hs : ReadsGroups sep k rest ns) : ReadsGroups sep (k + 1) cs (n :: ns)

/-- At least one digit. -/
def IsDigits (ds : List Char) : Prop := ds ≠ [] ∧ ∀ c ∈ ds, isHexDigit c

/-- A character that ends a number. -/
def Ends (c : Char) : Prop := isHexDigit c = false ∧ c ≠ 'x' ∧ c ≠ 'X'

/-! ## Characters -/

lemma not_isSpace_of_isHexDigit {c : Char} (h : isHexDigit c = true) : isSpace c = false := by
  by_contra hspace
  simp only [isSpace, Bool.not_eq_false, Bool.or_eq_true, beq_iff_eq] at hspace
  rcases hspace with ((((rfl | rfl) | rfl) | rfl) | rfl) | rfl <;> revert h <;> decide

lemma sign_of_isHexDigit {c : Char} (h : isHexDigit c = true) (cs : List Char) :
    sign (c :: cs) = (false, c :: cs) := by
  have hminus : c ≠ '-' := by
    rintro rfl
    revert h
    decide
  have hplus : c ≠ '+' := by
    rintro rfl
    revert h
    decide
  simp [sign, hminus, hplus]

/-! ## Spans -/

section Span

variable {p : Char → Bool} {xs rest : List Char}

lemma takeWhile_append (hall : ∀ c ∈ xs, p c) (hstop : ∀ c ∈ rest.head?, ¬ p c) :
    (xs ++ rest).takeWhile p = xs := by
  rw [List.takeWhile_append_of_pos hall]
  cases rest with
  | nil => simp
  | cons c cs => simp [hstop c rfl]

lemma dropWhile_append (hall : ∀ c ∈ xs, p c) (hstop : ∀ c ∈ rest.head?, ¬ p c) :
    (xs ++ rest).dropWhile p = rest := by
  rw [List.dropWhile_append_of_pos hall]
  cases rest with
  | nil => rfl
  | cons c cs => simp [hstop c rfl]

/-- What follows a span does not go on with it. -/
lemma head?_dropWhile (cs : List Char) : ∀ c ∈ (cs.dropWhile p).head?, ¬ p c := by
  intro c hc
  have hnot := List.head?_dropWhile_not p cs
  rw [Option.mem_def.mp hc] at hnot
  simpa using hnot

end Span

/-! ## The conversion -/

/-- A sign that has been read. -/
lemma exists_sign (cs : List Char) :
    ∃ sgn, IsSign sgn (sign cs).1 ∧ cs = sgn ++ (sign cs).2 := by
  unfold sign
  split
  · exact ⟨_, .minus, rfl⟩
  · exact ⟨_, .plus, rfl⟩
  · exact ⟨_, .none, rfl⟩

/-- A prefix that has been read. -/
lemma exists_prefix (cs : List Char) : ∃ pre, IsPrefix pre ∧ cs = pre ++ dropPrefix cs ∧
    (pre = [] → dropPrefix (dropPrefix cs) = dropPrefix cs) := by
  by_cases hsame : dropPrefix cs = cs
  · refine ⟨[], .none, hsame.symm, fun _ => ?_⟩
    rw [hsame, hsame]
  · revert hsame
    unfold dropPrefix
    split
    · exact fun _ => ⟨_, .lower, rfl, by simp⟩
    · exact fun _ => ⟨_, .upper, rfl, by simp⟩
    · exact fun h => absurd rfl h

lemma IsSign.head_not_isSpace {sgn cs : List Char} {neg : Bool} (h : IsSign sgn neg)
    (hcs : ∀ c ∈ cs.head?, isSpace c = false) : ∀ c ∈ (sgn ++ cs).head?, ¬ isSpace c := by
  cases h with
  | none => simpa using hcs
  | plus => simp [isSpace]
  | minus => simp [isSpace]

/-- A sign is read, if what follows starts with a digit. -/
lemma IsSign.sign_append {sgn cs : List Char} {neg : Bool} (h : IsSign sgn neg)
    (hcs : ∃ c, cs.head? = some c ∧ isHexDigit c) : sign (sgn ++ cs) = (neg, cs) := by
  obtain ⟨c, hc, hdigit⟩ := hcs
  obtain ⟨cs', rfl⟩ := List.head?_eq_some_iff.mp hc
  cases h with
  | none => exact sign_of_isHexDigit hdigit cs'
  | plus => rfl
  | minus => rfl

lemma IsPrefix.dropPrefix_append {pre cs : List Char} (h : IsPrefix pre)
    (hbare : pre = [] → dropPrefix cs = cs) : dropPrefix (pre ++ cs) = cs := by
  cases h with
  | none => exact hbare rfl
  | lower => rfl
  | upper => rfl

/-- A prefix and digits start with a digit. -/
lemma IsPrefix.exists_head {pre ds : List Char} (h : IsPrefix pre) (hne : ds ≠ [])
    (hdigits : ∀ c ∈ ds, isHexDigit c) (rest : List Char) :
    ∃ c, (pre ++ (ds ++ rest)).head? = some c ∧ isHexDigit c := by
  cases h with
  | none =>
    obtain ⟨d, ds', rfl⟩ := List.exists_cons_of_ne_nil hne
    exact ⟨d, rfl, hdigits d List.mem_cons_self⟩
  | lower => exact ⟨'0', rfl, by decide⟩
  | upper => exact ⟨'0', rfl, by decide⟩

/-- **What the conversion reads.** -/
theorem hex_eq_some_iff {cs rest : List Char} {n : ℕ} :
    hex cs = some (n, rest) ↔ Reads cs n rest := by
  constructor
  · intro h
    obtain ⟨sgn, hsign, hcs⟩ := exists_sign (cs.dropWhile isSpace)
    obtain ⟨pre, hstarts, hcs', hbare⟩ := exists_prefix (sign (cs.dropWhile isSpace)).2
    rw [hex] at h
    dsimp only at h
    set number := dropPrefix (sign (cs.dropWhile isSpace)).2
    have hsplit := List.takeWhile_append_dropWhile (p := isHexDigit) (l := number)
    cases hds : number.takeWhile isHexDigit with
    | nil =>
      rw [hds] at h
      cases h
    | cons d ds =>
      rw [hds] at h hsplit
      obtain ⟨rfl, rfl⟩ := Prod.mk.inj (Option.some.inj h)
      have hdigits : ∀ c ∈ d :: ds, isHexDigit c := hds ▸ fun c hc => List.mem_takeWhile_imp hc
      have hbare' : pre = [] → dropPrefix (d :: ds ++ number.dropWhile isHexDigit)
          = d :: ds ++ number.dropWhile isHexDigit := by
        intro hpre
        rw [hsplit]
        exact hbare hpre
      have hspaces : ∀ c ∈ cs.takeWhile isSpace, isSpace c := fun c hc => List.mem_takeWhile_imp hc
      have hreads := Reads.mk hspaces hsign hstarts hbare' (List.cons_ne_nil d ds) hdigits
        (head?_dropWhile number)
      rwa [hsplit, ← hcs', ← hcs, List.takeWhile_append_dropWhile] at hreads
  · intro h
    cases h with
    | @mk spaces sgn pre ds _ neg hspaces hsign hstarts hbare hne hdigits hstop =>
      have hhead := hstarts.exists_head hne hdigits rest
      have hspace := hsign.head_not_isSpace fun c hc => by
        obtain ⟨d, hd, hdigit⟩ := hhead
        obtain rfl : d = c := Option.some.inj (hd.symm.trans hc)
        exact not_isSpace_of_isHexDigit hdigit
      rw [hex, dropWhile_append hspaces hspace, hsign.sign_append hhead]
      dsimp only
      rw [hstarts.dropPrefix_append hbare, takeWhile_append hdigits hstop,
        dropWhile_append hdigits hstop]
      obtain ⟨d, ds', rfl⟩ := List.exists_cons_of_ne_nil hne
      rfl

/-- **What the conversions read**, with a separator between them. -/
theorem hexGroups_eq_some_iff {sep : Char} {k : ℕ} {cs : List Char} {ns : List ℕ} :
    hexGroups sep k cs = some ns ↔ ReadsGroups sep k cs ns := by
  constructor
  · intro h
    induction k generalizing cs ns with
    | zero =>
      obtain ⟨⟨n, rest⟩, hn, rfl⟩ := Option.map_eq_some_iff.mp h
      exact .last (hex_eq_some_iff.mp hn)
    | succ k ih =>
      rw [hexGroups] at h
      split at h
      · next n c rest hn =>
        split_ifs at h with hc
        obtain ⟨ns', hns, rfl⟩ := Option.map_eq_some_iff.mp h
        rw [hc] at hn
        exact .cons (hex_eq_some_iff.mp hn) (ih hns)
      · cases h
  · intro h
    induction h with
    | last h => rw [hexGroups, hex_eq_some_iff.mpr h, Option.map_some]
    | cons h hs ih =>
      rw [hexGroups, hex_eq_some_iff.mpr h]
      simp only [if_true, ih, Option.map_some]

/-- There is one number more than separators. -/
lemma ReadsGroups.length {sep : Char} {k : ℕ} {cs : List Char} {ns : List ℕ}
    (h : ReadsGroups sep k cs ns) : ns.length = k + 1 := by
  induction h with
  | last h => rfl
  | cons h hs ih => rw [List.length_cons, ih]

/-! ## Plain numbers -/

lemma dropPrefix_digits {ds rest : List Char} (hdigits : IsDigits ds)
    (hends : ∀ c ∈ rest.head?, Ends c) : dropPrefix (ds ++ rest) = ds ++ rest := by
  obtain ⟨d, ds, rfl⟩ := List.exists_cons_of_ne_nil hdigits.1
  have hx : ∀ c ∈ (ds ++ rest).head?, c ≠ 'x' ∧ c ≠ 'X' := by
    intro c hc
    cases ds with
    | nil => exact (hends c hc).2
    | cons e ds =>
      obtain rfl : e = c := Option.some.inj hc
      have he : isHexDigit e = true := hdigits.2 e (by simp)
      constructor <;> rintro rfl <;> revert he <;> decide
  rw [List.cons_append]
  cases hcs : ds ++ rest with
  | nil => simp [dropPrefix]
  | cons e cs =>
    rw [hcs] at hx
    obtain ⟨hlower, hupper⟩ := hx e rfl
    simp [dropPrefix, hlower, hupper]

/-- A number of 32 bits is read as it is. -/
lemma Reads.of_digits {ds rest : List Char} (hdigits : IsDigits ds) (hmax : ofHexDigits ds < 2 ^ 32)
    (hends : ∀ c ∈ rest.head?, Ends c) : Reads (ds ++ rest) (ofHexDigits ds) rest := by
  have hnumber : unsignedLong false (ofHexDigits ds) % 2 ^ 32 = ofHexDigits ds := by
    rw [unsignedLong, if_pos (hmax.trans (by decide)), if_neg (by decide), Nat.mod_eq_of_lt hmax]
  have hspaces : ∀ c ∈ ([] : List Char), isSpace c := by simp
  have hreads := Reads.mk hspaces IsSign.none IsPrefix.none
    (fun _ => dropPrefix_digits hdigits hends) hdigits.1 hdigits.2 fun c hc => by
      simp [(hends c hc).1]
  rwa [hnumber] at hreads

/-- **Plain numbers** of 32 bits are read as they are, if the separator and what follows them end a
number. -/
theorem ReadsGroups.of_digits {sep : Char} {gs : List (List Char)} {k : ℕ} {rest : List Char}
    (hsep : Ends sep) (hlen : gs.length = k + 1)
    (hgs : ∀ g ∈ gs, IsDigits g ∧ ofHexDigits g < 2 ^ 32) (hends : ∀ c ∈ rest.head?, Ends c) :
    ReadsGroups sep k (List.intercalate [sep] gs ++ rest) (gs.map ofHexDigits) := by
  induction gs generalizing k with
  | nil => simp at hlen
  | cons g gs ih =>
    obtain ⟨hdigits, hmax⟩ := hgs g List.mem_cons_self
    cases gs with
    | nil =>
      obtain rfl : k = 0 := by simpa using hlen.symm
      simpa using ReadsGroups.last (Reads.of_digits hdigits hmax hends)
    | cons g' gs =>
      obtain ⟨k, rfl⟩ : ∃ k', k = k' + 1 := ⟨gs.length, by simpa using hlen.symm⟩
      have hrest := ih (by simpa using hlen) fun g'' hg'' => hgs g'' (List.mem_cons_of_mem g hg'')
      have hfirst : Reads (g ++ (sep :: (List.intercalate [sep] (g' :: gs) ++ rest)))
          (ofHexDigits g) (sep :: (List.intercalate [sep] (g' :: gs) ++ rest)) :=
        .of_digits hdigits hmax fun c hc => by
          obtain rfl : sep = c := Option.some.inj hc
          exact hsep
      simpa [List.intercalate] using ReadsGroups.cons hfirst hrest

end Scan
