import Mathlib.Algebra.Order.Ring.Int
import Tmee.Client.Model
import Tmee.Lib.Fallible

set_option relaxedAutoImplicit false
set_option autoImplicit false

/-!
# Values and texts

The client `libiec61850client.py` keeps values as texts: `printValue` makes a text of a value that
it has read, and `getMMsValue` makes a value of a text that it writes. The two should be inverse to
each other, so that a value that is written back is the one that was read. For some types they are
not. The call that fills a bit string returns nothing; a text is not a buffer, as the branch for
octet strings wants; a generalized time is read in seconds and written as a time of another type in
milliseconds; a binary time is written as a flag. The number of an integer is written as its size in
bits, and the integer that is made is zero.

The library is a parameter, with the types that its functions have in `lib61850.py`.

## Main definitions

* `Tmee.MmsLibrary` — the functions of the library on values.
* `Tmee.printValue`, `Tmee.getMMsValue` — the functions of the client.
* `Tmee.MmsLibrary.Inverse` — constructors and accessors of the library are inverse to each other.
* `Tmee.WritesBack` — a value that is written back is the one that was read.
* `Tmee.Rewritable` — the values for which the two functions agree.

## Main results

* `Tmee.intOfText_toString` — a number is read from its text.
* `Tmee.writesBack_iff` — which values are written back as they were read.
-/

namespace Tmee

/-! ## Texts of Python -/

/-- `"%r" % b`. -/
def pyBool (b : Bool) : String := if b then "True" else "False"

/-- `format(x, '02x')`. -/
def hexByte (x : UInt8) : String :=
  String.ofList [Nat.digitChar (x.toNat / 16), Nat.digitChar (x.toNat % 16)]

/-- White space, as far as it is ASCII. -/
def isPySpace (c : Char) : Bool :=
  c = ' ' || (9 ≤ c.toNat && c.toNat ≤ 13) || (28 ≤ c.toNat && c.toNat ≤ 31)

/-- The characters without white space around them. -/
def strip (chars : List Char) : List Char :=
  ((chars.dropWhile isPySpace).reverse.dropWhile isPySpace).reverse

/-- A sign, if there is one, and what comes after it. -/
def splitSign (chars : List Char) : Bool × List Char :=
  if chars.head? = some '-' then (true, chars.tail)
  else if chars.head? = some '+' then (false, chars.tail)
  else (false, chars)

/-- `int(text)`: digits, which single underscores may separate, after an optional sign. -/
def intOfText (text : String) : Except PyError ℤ :=
  let (negative, digits) := splitSign (strip text.toList)
  let groups := digits.splitOn '_'
  if groups.all fun group => !group.isEmpty && group.all Char.isDigit then
    let n : ℤ := Nat.ofDigitChars 10 groups.flatten 0
    .ok (if negative then -n else n)
  else .error .valueError

/-! ## The library -/

/-- The functions of the library on values, for the types `V` of values and `F` of floating-point
numbers. -/
structure MmsLibrary (V F : Type) where
  getTypeString : V → String
  getBoolean : V → Bool
  newBoolean : Bool → V
  toInt64 : V → BitVec 64
  /-- An integer is made with nothing but its size in bits. -/
  newInteger : BitVec 32 → V
  toUint32 : V → BitVec 32
  newUnsignedFromUint32 : BitVec 32 → V
  /-- The bytes of a string; none is a null pointer. -/
  toString : V → Option ByteArray
  newVisibleString : ByteArray → V
  newMmsString : ByteArray → V
  toFloat : V → F
  newFloat : F → V
  /-- The text of a number, and the number of a text. -/
  formatFloat : F → String
  floatOfText : String → Except PyError F
  getUtcTimeInMs : V → BitVec 64
  newUtcTimeByMsTime : BitVec 64 → V
  toUnixTimestamp : V → BitVec 32
  getBinaryTimeAsUtcMs : V → BitVec 64
  /-- A binary time is made with nothing but the choice between a time of day and a date. -/
  newBinaryTime : Bool → V
  getBitStringAsInteger : V → BitVec 32
  newBitString : BitVec 32 → V
  setBitStringFromInteger : V → BitVec 32 → V
  /-- The bytes from `getOctetStringBuffer`, as many as `getOctetStringSize`. -/
  getOctetString : V → List UInt8

section Functions

variable {V F : Type} (lib : MmsLibrary V F)

/-- `MmsValue_toString(value).decode("utf-8")`. -/
def decodeString (value : V) : Except PyError String :=
  match lib.toString value with
  | none => .error .attributeError
  | some bytes =>
    match String.fromUTF8? bytes with
    | some text => .ok text
    | none => .error .valueError

/-- `printValue`: the text of a value and its type. -/
def printValue (value : V) : Except PyError (String × String) :=
  let type := lib.getTypeString value
  if type = "boolean" then .ok (pyBool (lib.getBoolean value), type)
  else if type = "array" then .ok ("arr", type)
  else if type = "bcd" then .ok ("bcd", type)
  else if type = "binary-time" then
    .ok (toString ((lib.getBinaryTimeAsUtcMs value).toNat : ℤ), type)
  else if type = "bit-string" then
    .ok (toString ((lib.getBitStringAsInteger value).toNat : ℤ), type)
  else if type = "access-error" then .ok ("ACCESS ERROR", type)
  else if type = "float" then .ok (lib.formatFloat (lib.toFloat value), type)
  else if type = "generalized-time" then
    .ok (toString ((lib.toUnixTimestamp value).toNat : ℤ), type)
  else if type = "integer" then .ok (toString (lib.toInt64 value).toInt, type)
  else if type = "oid" then .ok ("OID ERROR", type)
  else if type = "mms-string" then (decodeString lib value).map fun text => (text, type)
  else if type = "structure" then .ok ("STRUCTURE", type)
  else if type = "octet-string" then
    .ok (String.join ((lib.getOctetString value).map hexByte), type)
  else if type = "unsigned" then .ok (toString ((lib.toUint32 value).toNat : ℤ), type)
  else if type = "utc-time" then .ok (toString ((lib.getUtcTimeInMs value).toNat : ℤ), type)
  else if type = "visible-string" then (decodeString lib value).map fun text => (text, type)
  else if type = "unknown(error)" then .ok ("UNKNOWN ERROR", type)
  else .ok ("CANNOT FIND TYPE", type)

/-- The value that `getMMsValue` gets. -/
inductive WriteArg
  | text (s : String)
  | bool (b : Bool)
  | int (i : ℤ)
  deriving DecidableEq, Repr

/-- `str(value)`. -/
def WriteArg.pyStr : WriteArg → String
  | text s => s
  | bool b => pyBool b
  | int i => toString i

/-- `int(value)`. -/
def WriteArg.pyInt : WriteArg → Except PyError ℤ
  | text s => intOfText s
  | bool b => .ok (if b then 1 else 0)
  | int i => .ok i

/-- The test for a true value. -/
def WriteArg.isTrue : WriteArg → Bool
  | text s => s.toLower = "true"
  | bool b => b
  | int _ => false

/-- `getMMsValue`, by the name of a type or by its number: a value, or none. Arguments of the
library are cut to their width. -/
def getMMsValue (typeVal : String) (value : WriteArg) (size typeval : ℤ) :
    Except PyError (Option V) :=
  if typeVal = "visible-string" ∨ typeval = 8 then
    .ok (some (lib.newVisibleString value.pyStr.toUTF8))
  else if typeVal = "boolean" ∨ typeval = 2 then .ok (some (lib.newBoolean value.isTrue))
  else if typeVal = "integer" ∨ typeval = 4 then do
    let i ← value.pyInt
    .ok (some (lib.newInteger (.ofInt 32 i)))
  else if typeVal = "unsigned" ∨ typeval = 5 then do
    let i ← value.pyInt
    .ok (some (lib.newUnsignedFromUint32 (.ofInt 32 i)))
  else if typeVal = "mms-string" ∨ typeval = 13 then
    .ok (some (lib.newMmsString value.pyStr.toUTF8))
  else if typeVal = "float" ∨ typeval = 6 then do
    let x ← lib.floatOfText value.pyStr
    .ok (some (lib.newFloat x))
  else if typeVal = "binary-time" ∨ typeval = 10 then do
    let i ← value.pyInt
    .ok (some (lib.newBinaryTime (i ≠ 0)))
  else if typeVal = "bit-string" ∨ typeval = 3 then do
    let i ← value.pyInt
    -- the call fills the bit string and returns nothing, and this is what is returned here
    let _ := lib.setBitStringFromInteger (lib.newBitString (.ofInt 32 size)) (.ofInt 32 i)
    .ok none
  else if typeVal = "generalized-time" ∨ typeval = 9 then do
    let i ← value.pyInt
    .ok (some (lib.newUtcTimeByMsTime (.ofInt 64 i)))
  else if typeVal = "utc-time" ∨ typeval = 14 then do
    let i ← value.pyInt
    .ok (some (lib.newUtcTimeByMsTime (.ofInt 64 i)))
  else if typeVal = "octet-string" ∨ typeval = 7 then
    -- a text has no buffer that can be written to, and the other values have no length
    .error .typeError
  else .ok none

end Functions

/-! ## Numbers and their texts -/

lemma strip_eq_self {chars : List Char} (h : ∀ c ∈ chars, isPySpace c = false) :
    strip chars = chars := by
  have hdrop : ∀ l : List Char, (∀ c ∈ l, isPySpace c = false) → l.dropWhile isPySpace = l := by
    intro l hl
    cases l with
    | nil => rfl
    | cons c l => rw [List.dropWhile_cons_of_neg (by simp [hl c List.mem_cons_self])]
  rw [strip, hdrop chars h, hdrop chars.reverse (by simpa using h), List.reverse_reverse]

lemma isPySpace_of_isDigit {c : Char} (h : c.isDigit = true) : isPySpace c = false := by
  have hrange : 48 ≤ c.toNat ∧ c.toNat ≤ 57 := by
    simp only [Char.isDigit, Bool.and_eq_true, decide_eq_true_eq, ge_iff_le,
      UInt32.le_iff_toNat_le] at h
    exact h
  have hspace : c ≠ ' ' := by
    rintro rfl
    exact absurd h (by decide)
  simp only [isPySpace, hspace, decide_false, Bool.false_or, Bool.or_eq_false_iff,
    Bool.and_eq_false_iff, decide_eq_false_iff_not]
  omega

lemma isDigit_of_mem_toDigits {n : ℕ} {c : Char} (h : c ∈ Nat.toDigits 10 n) : c.isDigit = true :=
  Nat.isDigit_of_mem_toDigits (by omega) (by omega) h

/-- The digits of a number, after its sign. -/
lemma intOfText_of_splitSign {text : String} {negative : Bool} {n : ℕ}
    (hspace : ∀ c ∈ text.toList, isPySpace c = false)
    (hsign : splitSign text.toList = (negative, Nat.toDigits 10 n)) :
    intOfText text = .ok (if negative then -n else n) := by
  have hgroups : (Nat.toDigits 10 n).splitOn '_' = [Nat.toDigits 10 n] := by
    refine List.splitOn_eq_singleton fun hmem => ?_
    exact absurd (isDigit_of_mem_toDigits hmem) (by decide)
  have hall : (Nat.toDigits 10 n).all Char.isDigit = true :=
    List.all_eq_true.mpr fun c => isDigit_of_mem_toDigits
  rw [intOfText, strip_eq_self hspace, hsign]
  dsimp only
  rw [hgroups, if_pos (by simp [hall, Nat.toDigits_ne_nil]), List.flatten_singleton,
    Nat.ofDigitChars_ten_toDigits]

/-- **A number is read from its text.** -/
lemma intOfText_toString (i : ℤ) : intOfText (toString i) = .ok i := by
  cases i with
  | ofNat n =>
    have htext : (toString (Int.ofNat n)).toList = Nat.toDigits 10 n := Nat.toList_repr
    have hspace : ∀ c ∈ (toString (Int.ofNat n)).toList, isPySpace c = false := by
      rw [htext]
      exact fun c hc => isPySpace_of_isDigit (isDigit_of_mem_toDigits hc)
    have hsign : splitSign (toString (Int.ofNat n)).toList = (false, Nat.toDigits 10 n) := by
      obtain ⟨c, rest, hcons⟩ := List.exists_cons_of_ne_nil (Nat.toDigits_ne_nil (b := 10) (n := n))
      have hc : c.isDigit = true := isDigit_of_mem_toDigits (hcons ▸ List.mem_cons_self)
      have hminus : c ≠ '-' := by
        rintro rfl
        exact absurd hc (by decide)
      have hplus : c ≠ '+' := by
        rintro rfl
        exact absurd hc (by decide)
      rw [htext, splitSign, hcons, List.head?_cons, if_neg (by simpa using hminus),
        if_neg (by simpa using hplus)]
    rw [intOfText_of_splitSign hspace hsign]
    rfl
  | negSucc n =>
    have htext : (toString (Int.negSucc n)).toList = '-' :: Nat.toDigits 10 (n + 1) := by
      show ("-" ++ Nat.repr (n + 1)).toList = _
      rw [String.toList_append, Nat.toList_repr]
      rfl
    have hspace : ∀ c ∈ (toString (Int.negSucc n)).toList, isPySpace c = false := by
      rw [htext, List.forall_mem_cons]
      exact ⟨by decide, fun c hc => isPySpace_of_isDigit (isDigit_of_mem_toDigits hc)⟩
    have hsign : splitSign (toString (Int.negSucc n)).toList = (true, Nat.toDigits 10 (n + 1)) := by
      rw [htext]
      rfl
    rw [intOfText_of_splitSign hspace hsign]
    rfl

/-! ## Values that are written back -/

section WriteBack

variable {V F : Type}

/-- **Constructors and accessors of the library are inverse to each other** on the values of each
type, where a constructor takes the value. A new integer is zero, whatever its size, and is equal to
every integer that is zero. A new binary time is the start of the day, and a new date the start of
1984, in milliseconds from 1970. -/
structure MmsLibrary.Inverse (lib : MmsLibrary V F) : Prop where
  boolean : ∀ v, lib.getTypeString v = "boolean" → lib.newBoolean (lib.getBoolean v) = v
  integer : ∀ v size, lib.getTypeString v = "integer" →
    lib.toInt64 v = lib.toInt64 (lib.newInteger size) → lib.newInteger size = v
  toInt64_newInteger : ∀ size, lib.toInt64 (lib.newInteger size) = 0
  unsigned : ∀ v, lib.getTypeString v = "unsigned" →
    lib.newUnsignedFromUint32 (lib.toUint32 v) = v
  visibleString : ∀ v bytes, lib.getTypeString v = "visible-string" →
    lib.toString v = some bytes → lib.newVisibleString bytes = v
  mmsString : ∀ v bytes, lib.getTypeString v = "mms-string" →
    lib.toString v = some bytes → lib.newMmsString bytes = v
  utcTime : ∀ v, lib.getTypeString v = "utc-time" →
    lib.newUtcTimeByMsTime (lib.getUtcTimeInMs v) = v
  getTypeString_utcTime : ∀ ms, lib.getTypeString (lib.newUtcTimeByMsTime ms) = "utc-time"
  timeOfDay : lib.getBinaryTimeAsUtcMs (lib.newBinaryTime true) = 0
  date : lib.getBinaryTimeAsUtcMs (lib.newBinaryTime false) = 441763200000

/-- The types of values that a client writes, other than numbers with a point. -/
def writtenTypes : List String :=
  ["boolean", "integer", "unsigned", "mms-string", "visible-string", "octet-string", "bit-string",
    "binary-time", "generalized-time", "utc-time"]

/-- **A value is written back as it was read**: from the text and the type that `printValue` makes
of it, `getMMsValue` makes the same value. -/
def WritesBack (lib : MmsLibrary V F) (v : V) : Prop :=
  ∃ s t, printValue lib v = .ok (s, t) ∧ getMMsValue lib t (.text s) 8 (-1) = .ok (some v)

/-- **The values for which the two functions agree**: truth values, numbers without a sign, times in
UTC, the integer zero, and strings in UTF-8. -/
def Rewritable (lib : MmsLibrary V F) (v : V) : Prop :=
  let type := lib.getTypeString v
  type = "boolean" ∨ type = "unsigned" ∨ type = "utc-time" ∨
    (type = "integer" ∧ lib.toInt64 v = 0) ∨
    ((type = "visible-string" ∨ type = "mms-string") ∧
      ∃ bytes, lib.toString v = some bytes ∧ bytes.IsValidUTF8)

variable {lib : MmsLibrary V F} {v : V}

/-- What is read decides what is written. -/
lemma writesBack_iff_of_printValue {s t : String} (hprint : printValue lib v = .ok (s, t)) :
    WritesBack lib v ↔ getMMsValue lib t (.text s) 8 (-1) = .ok (some v) := by
  constructor
  · rintro ⟨s', t', hprint', hwrite⟩
    obtain ⟨rfl, rfl⟩ := Prod.mk.inj (Except.ok.inj (hprint.symm.trans hprint'))
    exact hwrite
  · intro hwrite
    exact ⟨s, t, hprint, hwrite⟩

lemma writesBack_boolean (h : lib.Inverse) (ht : lib.getTypeString v = "boolean") :
    WritesBack lib v := by
  have hprint : printValue lib v = .ok (pyBool (lib.getBoolean v), "boolean") := by
    unfold printValue
    simp [ht]
  have htrue : ∀ b, (WriteArg.text (pyBool b)).isTrue = b := by decide +kernel
  rw [writesBack_iff_of_printValue hprint]
  unfold getMMsValue
  simp [htrue, h.boolean v ht]

lemma writesBack_unsigned (h : lib.Inverse) (ht : lib.getTypeString v = "unsigned") :
    WritesBack lib v := by
  have hprint : printValue lib v = .ok (toString ((lib.toUint32 v).toNat : ℤ), "unsigned") := by
    unfold printValue
    simp [ht]
  have hcut : BitVec.ofInt 32 ((lib.toUint32 v).toNat : ℤ) = lib.toUint32 v := by
    rw [BitVec.ofInt_natCast, BitVec.ofNat_toNat, BitVec.setWidth_eq]
  rw [writesBack_iff_of_printValue hprint]
  unfold getMMsValue
  simp only [WriteArg.pyInt, intOfText_toString, Fallible.ok_bind, hcut, h.unsigned v ht]
  simp

/-- A time in UTC is read and written in milliseconds. -/
lemma writesBack_utcTime (h : lib.Inverse) (ht : lib.getTypeString v = "utc-time") :
    WritesBack lib v := by
  have hprint : printValue lib v =
      .ok (toString ((lib.getUtcTimeInMs v).toNat : ℤ), "utc-time") := by
    unfold printValue
    simp [ht]
  have hcut : BitVec.ofInt 64 ((lib.getUtcTimeInMs v).toNat : ℤ) = lib.getUtcTimeInMs v := by
    rw [BitVec.ofInt_natCast, BitVec.ofNat_toNat, BitVec.setWidth_eq]
  rw [writesBack_iff_of_printValue hprint]
  unfold getMMsValue
  simp only [WriteArg.pyInt, intOfText_toString, Fallible.ok_bind, hcut, h.utcTime v ht]
  simp

/-- The number of an integer is written as its size, so what is written is zero. -/
lemma writesBack_integer_iff (h : lib.Inverse) (ht : lib.getTypeString v = "integer") :
    WritesBack lib v ↔ lib.toInt64 v = 0 := by
  have hprint : printValue lib v = .ok (toString (lib.toInt64 v).toInt, "integer") := by
    unfold printValue
    simp [ht]
  have hwrite : WritesBack lib v ↔
      lib.newInteger (.ofInt 32 (lib.toInt64 v).toInt) = v := by
    rw [writesBack_iff_of_printValue hprint]
    unfold getMMsValue
    simp only [WriteArg.pyInt, intOfText_toString, Fallible.ok_bind]
    simp
  rw [hwrite]
  constructor
  · intro heq
    have hzero := h.toInt64_newInteger (.ofInt 32 (lib.toInt64 v).toInt)
    rwa [heq] at hzero
  · intro hzero
    exact h.integer v _ ht (hzero.trans (h.toInt64_newInteger _).symm)

/-- A string is decoded if its bytes are UTF-8. -/
lemma decodeString_eq_ok_iff {text : String} :
    decodeString lib v = .ok text ↔ lib.toString v = some text.toByteArray := by
  cases hbytes : lib.toString v with
  | none => simp [decodeString, hbytes]
  | some bytes =>
    by_cases hvalid : bytes.IsValidUTF8
    · have hdecode : decodeString lib v = .ok ⟨bytes, hvalid⟩ := by
        simp [decodeString, hbytes, String.fromUTF8?, hvalid, String.fromUTF8]
      rw [hdecode, Except.ok.injEq, Option.some.injEq, ← String.toByteArray_inj]
    · have hne : bytes ≠ text.toByteArray := by
        rintro rfl
        exact hvalid text.isValidUTF8
      simp [decodeString, hbytes, String.fromUTF8?, hvalid, hne]

/-- A string is written back if it is UTF-8, whichever constructor takes it. -/
lemma writesBack_text_iff {newString : ByteArray → V}
    (hprint : printValue lib v = (decodeString lib v).map fun text => (text, lib.getTypeString v))
    (hwrite : ∀ text, getMMsValue lib (lib.getTypeString v) (.text text) 8 (-1) =
      .ok (some (newString text.toByteArray)))
    (hnew : ∀ bytes, lib.toString v = some bytes → newString bytes = v) :
    WritesBack lib v ↔ ∃ bytes, lib.toString v = some bytes ∧ bytes.IsValidUTF8 := by
  constructor
  · rintro ⟨s, t, hread, -⟩
    rw [hprint] at hread
    cases hdecode : decodeString lib v with
    | error e => simp [hdecode, Except.map] at hread
    | ok text => exact ⟨_, (decodeString_eq_ok_iff).mp hdecode, text.isValidUTF8⟩
  · rintro ⟨bytes, hbytes, hvalid⟩
    have hdecode : decodeString lib v = .ok ⟨bytes, hvalid⟩ := (decodeString_eq_ok_iff).mpr hbytes
    rw [hdecode] at hprint
    rw [writesBack_iff_of_printValue hprint, hwrite, hnew bytes hbytes]

lemma writesBack_visibleString_iff (h : lib.Inverse)
    (ht : lib.getTypeString v = "visible-string") :
    WritesBack lib v ↔ ∃ bytes, lib.toString v = some bytes ∧ bytes.IsValidUTF8 := by
  refine writesBack_text_iff ?_ (fun text => ?_) (h.visibleString v · ht)
  · unfold printValue
    simp [ht]
  · unfold getMMsValue
    simp [ht, WriteArg.pyStr]

lemma writesBack_mmsString_iff (h : lib.Inverse) (ht : lib.getTypeString v = "mms-string") :
    WritesBack lib v ↔ ∃ bytes, lib.toString v = some bytes ∧ bytes.IsValidUTF8 := by
  refine writesBack_text_iff ?_ (fun text => ?_) (h.mmsString v · ht)
  · unfold printValue
    simp [ht]
  · unfold getMMsValue
    simp [ht, WriteArg.pyStr]

/-- No bit string comes back from the call that fills it. -/
lemma not_writesBack_bitString (ht : lib.getTypeString v = "bit-string") :
    ¬ WritesBack lib v := by
  have hprint : printValue lib v =
      .ok (toString ((lib.getBitStringAsInteger v).toNat : ℤ), "bit-string") := by
    unfold printValue
    simp [ht]
  rw [writesBack_iff_of_printValue hprint]
  unfold getMMsValue
  simp only [WriteArg.pyInt, intOfText_toString, Fallible.ok_bind]
  simp

/-- A text of hexadecimal digits is not a buffer. -/
lemma not_writesBack_octetString (ht : lib.getTypeString v = "octet-string") :
    ¬ WritesBack lib v := by
  have hprint : printValue lib v =
      .ok (String.join ((lib.getOctetString v).map hexByte), "octet-string") := by
    unfold printValue
    simp [ht]
  rw [writesBack_iff_of_printValue hprint]
  unfold getMMsValue
  simp

/-- A generalized time is written as a time in UTC. -/
lemma not_writesBack_generalizedTime (h : lib.Inverse)
    (ht : lib.getTypeString v = "generalized-time") : ¬ WritesBack lib v := by
  have hprint : printValue lib v =
      .ok (toString ((lib.toUnixTimestamp v).toNat : ℤ), "generalized-time") := by
    unfold printValue
    simp [ht]
  rw [writesBack_iff_of_printValue hprint]
  unfold getMMsValue
  simp only [WriteArg.pyInt, intOfText_toString, Fallible.ok_bind]
  have hne : ∀ ms, lib.newUtcTimeByMsTime ms ≠ v := by
    intro ms heq
    have htype := h.getTypeString_utcTime ms
    rw [heq, ht] at htype
    exact absurd htype (by decide)
  simp [hne]

/-- The number of a binary time only chooses between the start of the day and the start of 1984. The
first comes of every number but zero, and is zero; the second comes of zero. -/
lemma not_writesBack_binaryTime (h : lib.Inverse)
    (ht : lib.getTypeString v = "binary-time") : ¬ WritesBack lib v := by
  have hprint : printValue lib v =
      .ok (toString ((lib.getBinaryTimeAsUtcMs v).toNat : ℤ), "binary-time") := by
    unfold printValue
    simp [ht]
  rw [writesBack_iff_of_printValue hprint]
  unfold getMMsValue
  simp only [WriteArg.pyInt, intOfText_toString, Fallible.ok_bind]
  have hne : lib.newBinaryTime (decide (((lib.getBinaryTimeAsUtcMs v).toNat : ℤ) ≠ 0)) ≠ v := by
    intro heq
    by_cases hzero : ((lib.getBinaryTimeAsUtcMs v).toNat : ℤ) = 0
    · rw [decide_eq_false (not_not_intro hzero)] at heq
      have hdate := h.date
      rw [heq] at hdate
      rw [hdate] at hzero
      exact absurd hzero (by decide)
    · rw [decide_eq_true hzero] at heq
      have htimeOfDay := h.timeOfDay
      rw [heq] at htimeOfDay
      rw [htimeOfDay] at hzero
      exact hzero rfl
  simpa using hne

/-- **Which values are written back as they were read.**

**Proof sketch.** The two functions are compared type by type. Truth values, numbers without a sign
and times in UTC go through their texts unchanged. An integer comes back as zero, and a string whose
bytes are not UTF-8 has no text. No value comes of the text of a bit string or of an octet string,
and a value of another type or another time of that of the two remaining kinds. -/
theorem writesBack_iff (h : lib.Inverse) (ht : lib.getTypeString v ∈ writtenTypes) :
    WritesBack lib v ↔ Rewritable lib v := by
  simp only [writtenTypes, List.mem_cons, List.not_mem_nil, or_false] at ht
  rcases ht with ht | ht | ht | ht | ht | ht | ht | ht | ht | ht
  · simpa [Rewritable, ht] using writesBack_boolean h ht
  · simpa [Rewritable, ht] using writesBack_integer_iff h ht
  · simpa [Rewritable, ht] using writesBack_unsigned h ht
  · simpa [Rewritable, ht] using writesBack_mmsString_iff h ht
  · simpa [Rewritable, ht] using writesBack_visibleString_iff h ht
  · simpa [Rewritable, ht] using not_writesBack_octetString ht
  · simpa [Rewritable, ht] using not_writesBack_bitString ht
  · simpa [Rewritable, ht] using not_writesBack_binaryTime h ht
  · simpa [Rewritable, ht] using not_writesBack_generalizedTime h ht
  · simpa [Rewritable, ht] using writesBack_utcTime h ht

end WriteBack

/-! ## A library of plain values -/

/-- Values that keep what they were made of, and times in milliseconds. -/
inductive PlainValue
  | boolean (b : Bool)
  | integer (i : BitVec 64)
  | unsigned (n : BitVec 32)
  | visibleString (bytes : ByteArray)
  | mmsString (bytes : ByteArray)
  | float
  | utcTime (ms : BitVec 64)
  | generalizedTime (seconds : BitVec 32)
  | binaryTime (ms : BitVec 64)
  | bitString (bits : BitVec 32)
  | octetString (bytes : List UInt8)

/-- `MmsValue_getTypeString`. -/
def PlainValue.typeString : PlainValue → String
  | .boolean _ => "boolean"
  | .integer _ => "integer"
  | .unsigned _ => "unsigned"
  | .visibleString _ => "visible-string"
  | .mmsString _ => "mms-string"
  | .float => "float"
  | .utcTime _ => "utc-time"
  | .generalizedTime _ => "generalized-time"
  | .binaryTime _ => "binary-time"
  | .bitString _ => "bit-string"
  | .octetString _ => "octet-string"

/-- The library of plain values, in which all numbers with a point are one. -/
def plainLibrary : MmsLibrary PlainValue Unit where
  getTypeString := PlainValue.typeString
  getBoolean
    | .boolean b => b
    | _ => false
  newBoolean := .boolean
  toInt64
    | .integer i => i
    | _ => 0
  newInteger _ := .integer 0
  toUint32
    | .unsigned n => n
    | _ => 0
  newUnsignedFromUint32 := .unsigned
  toString
    | .visibleString bytes => some bytes
    | .mmsString bytes => some bytes
    | _ => none
  newVisibleString := .visibleString
  newMmsString := .mmsString
  toFloat _ := ()
  newFloat _ := .float
  formatFloat _ := "0.000000"
  floatOfText _ := .ok ()
  getUtcTimeInMs
    | .utcTime ms => ms
    | _ => 0
  newUtcTimeByMsTime := .utcTime
  toUnixTimestamp
    | .generalizedTime seconds => seconds
    | _ => 0
  getBinaryTimeAsUtcMs
    | .binaryTime ms => ms
    | _ => 0
  newBinaryTime timeOfDay := .binaryTime (if timeOfDay then 0 else 441763200000)
  getBitStringAsInteger
    | .bitString bits => bits
    | _ => 0
  newBitString _ := .bitString 0
  setBitStringFromInteger _ bits := .bitString bits
  getOctetString
    | .octetString bytes => bytes
    | _ => []

lemma plainLibrary_inverse : plainLibrary.Inverse where
  boolean v ht := by
    change v.typeString = "boolean" at ht
    cases v <;> simp [PlainValue.typeString] at ht
    rfl
  integer v size ht heq := by
    change v.typeString = "integer" at ht
    cases v <;> simp [PlainValue.typeString] at ht
    exact congrArg PlainValue.integer heq.symm
  toInt64_newInteger size := rfl
  unsigned v ht := by
    change v.typeString = "unsigned" at ht
    cases v <;> simp [PlainValue.typeString] at ht
    rfl
  visibleString v bytes ht heq := by
    change v.typeString = "visible-string" at ht
    cases v <;> simp [PlainValue.typeString] at ht
    exact congrArg PlainValue.visibleString (Option.some.inj heq).symm
  mmsString v bytes ht heq := by
    change v.typeString = "mms-string" at ht
    cases v <;> simp [PlainValue.typeString] at ht
    exact congrArg PlainValue.mmsString (Option.some.inj heq).symm
  utcTime v ht := by
    change v.typeString = "utc-time" at ht
    cases v <;> simp [PlainValue.typeString] at ht
    rfl
  getTypeString_utcTime ms := rfl
  timeOfDay := rfl
  date := rfl

/-- A number without a sign and a string of letters are written back as they were read, an integer
other than zero is not. -/
theorem writesBack_iff_plain :
    WritesBack plainLibrary (.unsigned 4294967295) ∧
      WritesBack plainLibrary (.visibleString "IED".toUTF8) ∧
      ¬ WritesBack plainLibrary (.integer 5) := by
  refine ⟨(writesBack_iff plainLibrary_inverse (by decide)).mpr (Or.inr (Or.inl rfl)),
    (writesBack_iff plainLibrary_inverse (by decide)).mpr
      (Or.inr (Or.inr (Or.inr (Or.inr ⟨Or.inl rfl, _, rfl, "IED".isValidUTF8⟩)))), fun h => ?_⟩
  have hrewritable := (writesBack_iff plainLibrary_inverse (by decide)).mp h
  revert hrewritable
  simp [Rewritable, plainLibrary, PlainValue.typeString]

/-- A bit string, an octet string, two times and an integer are not written back. -/
theorem not_writesBack_values :
    plainLibrary.Inverse ∧
      ∀ v ∈ [PlainValue.bitString 5, .octetString [65, 66], .generalizedTime 1700000000,
        .binaryTime 1700000000000, .integer 5],
        plainLibrary.getTypeString v ∈ writtenTypes ∧ ¬ WritesBack plainLibrary v := by
  have hinteger : ¬ WritesBack plainLibrary (.integer 5) := by
    rw [writesBack_integer_iff plainLibrary_inverse rfl]
    decide
  refine ⟨plainLibrary_inverse, fun v hv => ?_⟩
  simp only [List.mem_cons, List.not_mem_nil, or_false] at hv
  rcases hv with rfl | rfl | rfl | rfl | rfl
  · exact ⟨by decide, not_writesBack_bitString rfl⟩
  · exact ⟨by decide, not_writesBack_octetString rfl⟩
  · exact ⟨by decide, not_writesBack_generalizedTime plainLibrary_inverse rfl⟩
  · exact ⟨by decide, not_writesBack_binaryTime plainLibrary_inverse rfl⟩
  · exact ⟨by decide, hinteger⟩

end Tmee
