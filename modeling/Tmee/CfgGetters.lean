import Tmee.CfgParse
import Tmee.Lib.Scan

set_option relaxedAutoImplicit false
set_option autoImplicit false

/-!
# The getters of a configuration

`cfg_get_int`, `cfg_get_hex` and `cfg_get_mac` with the code that they return and their destination.
None of them looks at what follows the part of the value that `sscanf` converts, and the numbers are
cut to the width of the destination.

## Main definitions

* `Tmee.cfgGetIntInto`, `Tmee.cfgGetHex`, `Tmee.cfgGetMac` — the getters.
* `Tmee.IntFormat`, `Tmee.HexFormat`, `Tmee.MacFormat` — the values that a getter is for, and what
  they stand for.
* `Tmee.AcceptsExactly` — a getter accepts the values of its format and no others.

## Main results

* `Tmee.getters_acceptExactly_iff` — the getters do so on the values that are in the format as a
  whole or do not start with anything that is converted.
-/

namespace Tmee

/-! ## The getters -/

/-- The code of a getter and what its destination holds: a conversion that fails leaves it. -/
def stored {α : Type*} (r : Option α) (value : α) : ℤ × α :=
  match r with
  | none => (-1, value)
  | some n => (0, n)

/-- `sscanf(value, "0x%x", ..)` and the cast to `short unsigned int`. -/
def scanHex (value : String) : Option ℕ :=
  match value.toList with
  | '0' :: 'x' :: cs => (Scan.hex cs).map fun r => r.1 % 2 ^ 16
  | _ => none

/-- `sscanf` with a quote and six hexadecimal numbers, and the casts to `unsigned char`. What
follows the sixth number does not matter for the numbers that are converted. -/
def scanMac (value : String) : Option (List UInt8) :=
  match value.toList with
  | '"' :: cs => (Scan.hexGroups ':' 5 cs).map fun values => values.map UInt8.ofNat
  | _ => none

/-- `cfg_get_int(config, key, &value)`: the code, and the value afterwards. -/
def cfgGetIntInto (cfg : Cfg) (key : String) (value : ℤ) : ℤ × ℤ :=
  stored (cfgGetInt cfg key) value

/-- `cfg_get_hex(config, key, &value)`: the code, and the value afterwards. -/
def cfgGetHex (cfg : Cfg) (key : String) (value : ℕ) : ℤ × ℕ :=
  stored ((cfgGet cfg key).bind scanHex) value

/-- `cfg_get_mac(config, key, MAC)`: the code, and the bytes afterwards. -/
def cfgGetMac (cfg : Cfg) (key : String) (mac : List UInt8) : ℤ × List UInt8 :=
  stored ((cfgGet cfg key).bind scanMac) mac

/-! ## The formats -/

/-- An optionally signed decimal number in the range of `int`. -/
def IntFormat (value : String) (n : ℤ) : Prop :=
  ∃ sgn neg ds, Scan.IsSign sgn neg ∧ ds ≠ [] ∧ (∀ c ∈ ds, c.isDigit) ∧ value.toList = sgn ++ ds ∧
    n = (if neg then -(Nat.ofDigitChars 10 ds 0 : ℤ) else (Nat.ofDigitChars 10 ds 0 : ℤ)) ∧
    -2 ^ 31 ≤ n ∧ n < 2 ^ 31

/-- `0x` and a hexadecimal number of at most 16 bits. -/
def HexFormat (value : String) (n : ℕ) : Prop :=
  ∃ ds, Scan.IsDigits ds ∧ value.toList = '0' :: 'x' :: ds ∧ n = Scan.ofHexDigits ds ∧ n ≤ 0xFFFF

/-- A quoted list of six hexadecimal bytes with colons between them. -/
def MacFormat (value : String) (mac : List UInt8) : Prop :=
  ∃ gs, gs.length = 6 ∧ (∀ g ∈ gs, Scan.IsDigits g ∧ Scan.ofHexDigits g ≤ 0xFF) ∧
    value.toList = '"' :: (List.intercalate [':'] gs ++ ['"']) ∧
    mac = gs.map fun g => UInt8.ofNat (Scan.ofHexDigits g)

/-- The getter accepts exactly the values of a format and stores what they stand for; any other
value is refused with `-1` and leaves the destination as it was. -/
def AcceptsExactly {α : Type*} (Format : String → α → Prop) (getter : α → ℤ × α)
    (value : String) : Prop :=
  (∀ old, (getter old).1 = 0 ↔ ∃ n, Format value n) ∧
    (∀ old n, Format value n → (getter old).2 = n) ∧
    ∀ old, (¬ ∃ n, Format value n) → getter old = (-1, old)

/-! ## What is converted -/

/-- The value starts, after white space, with a signed or unsigned decimal number. -/
def StartsWithInt (value : String) : Prop :=
  ∃ spaces sgn neg d rest, (∀ c ∈ spaces, isSpace c) ∧ Scan.IsSign sgn neg ∧ d.isDigit ∧
    value.toList = spaces ++ (sgn ++ (d :: rest))

/-- The value starts with `0x` and a number as `%x` reads it. -/
def StartsWithHex (value : String) : Prop :=
  ∃ cs n rest, value.toList = '0' :: 'x' :: cs ∧ Scan.Reads cs n rest

/-- The value starts with a quote and six numbers as `%x` reads them, with colons between them. -/
def StartsWithMac (value : String) : Prop :=
  ∃ cs ns, value.toList = '"' :: cs ∧ Scan.ReadsGroups ':' 5 cs ns

lemma not_isSpace_of_isDigit {c : Char} (h : c.isDigit = true) : isSpace c = false := by
  by_contra hspace
  simp only [isSpace, isBlank, Bool.not_eq_false, Bool.or_eq_true, beq_iff_eq] at hspace
  rcases hspace with (((((rfl | rfl) | rfl) | rfl) | rfl) | rfl) <;> revert h <;> decide

/-- The digits at the front are converted if there is one. -/
lemma exists_scanDigits_iff {cs : List Char} :
    (∃ n, scanDigits cs = some n) ↔ ∃ d rest, d.isDigit = true ∧ cs = d :: rest := by
  cases cs with
  | nil => simp [scanDigits]
  | cons c cs =>
    by_cases hc : c.isDigit = true
    · simp [scanDigits, hc]
    · simp [scanDigits, hc]

lemma scanDigits_eq {ds : List Char} (hne : ds ≠ []) (hdigits : ∀ c ∈ ds, c.isDigit) :
    scanDigits ds = some (Nat.ofDigitChars 10 ds 0) := by
  have htake : ds.takeWhile Char.isDigit = ds := List.takeWhile_eq_self_iff.mpr hdigits
  obtain ⟨d, ds, rfl⟩ := List.exists_cons_of_ne_nil hne
  rw [scanDigits, htake]

/-- The conversion `%d` from the sign and the digits. -/
lemma scanInt_eq (value : String) : scanInt value =
    (scanDigits (Scan.sign (value.toList.dropWhile isSpace)).2).map fun (n : ℕ) =>
      if (Scan.sign (value.toList.dropWhile isSpace)).1 then wrap32 (max (-(n : ℤ)) (-2 ^ 63))
      else wrap32 (min (n : ℤ) (2 ^ 63 - 1)) := by
  rw [scanInt]
  split
  · next cs hcs => cases hn : scanDigits cs <;> simp [hcs, Scan.sign, hn]
  · next cs hcs => cases hn : scanDigits cs <;> simp [hcs, Scan.sign, hn]
  · next cs hminus hplus =>
    have hsign : Scan.sign (value.toList.dropWhile isSpace)
        = (false, value.toList.dropWhile isSpace) := by
      unfold Scan.sign
      split
      · next cs hcs => exact absurd hcs (hminus cs)
      · next cs hcs => exact absurd hcs (hplus cs)
      · rfl
    rw [hsign]
    cases scanDigits (value.toList.dropWhile isSpace) <;> simp

/-- A digit and what follows it has no sign. -/
lemma isSign_sign_append {sgn rest : List Char} {neg : Bool} {d : Char}
    (hsign : Scan.IsSign sgn neg) (hd : d.isDigit = true) :
    Scan.sign (sgn ++ (d :: rest)) = (neg, d :: rest) :=
  hsign.sign_append ⟨d, rfl, by simp [Scan.isHexDigit, hd]⟩

lemma dropWhile_isSpace_append {spaces sgn rest : List Char} {neg : Bool} {d : Char}
    (hspaces : ∀ c ∈ spaces, isSpace c) (hsign : Scan.IsSign sgn neg) (hd : d.isDigit = true) :
    (spaces ++ (sgn ++ (d :: rest))).dropWhile isSpace = sgn ++ (d :: rest) := by
  apply Scan.dropWhile_append hspaces
  cases hsign with
  | none => simp [not_isSpace_of_isDigit hd]
  | plus => simp [isSpace, isBlank]
  | minus => simp [isSpace, isBlank]

/-- **The values that `%d` converts.** -/
lemma exists_scanInt_iff {value : String} :
    (∃ n, scanInt value = some n) ↔ StartsWithInt value := by
  constructor
  · rintro ⟨n, hn⟩
    rw [scanInt_eq, Option.map_eq_some_iff] at hn
    obtain ⟨m, hm, -⟩ := hn
    obtain ⟨d, rest, hd, hrest⟩ := exists_scanDigits_iff.mp ⟨m, hm⟩
    obtain ⟨sgn, hsign, hcs⟩ := Scan.exists_sign (value.toList.dropWhile isSpace)
    refine ⟨value.toList.takeWhile isSpace, sgn, _, d, rest,
      fun c hc => List.mem_takeWhile_imp hc, hsign, hd, ?_⟩
    rw [← hrest, ← hcs, List.takeWhile_append_dropWhile]
  · rintro ⟨spaces, sgn, neg, d, rest, hspaces, hsign, hd, hvalue⟩
    obtain ⟨m, hm⟩ := exists_scanDigits_iff.mpr ⟨d, rest, hd, rfl⟩
    rw [scanInt_eq, hvalue, dropWhile_isSpace_append hspaces hsign hd,
      isSign_sign_append hsign hd, hm]
    exact ⟨_, rfl⟩

/-- A number in range is stored as it is. -/
lemma IntFormat.scanInt_eq_some {value : String} {n : ℤ} (h : IntFormat value n) :
    scanInt value = some n := by
  obtain ⟨sgn, neg, ds, hsign, hne, hdigits, hvalue, hn, hmin, hmax⟩ := h
  have hscan := scanDigits_eq hne hdigits
  obtain ⟨d, ds, rfl⟩ := List.exists_cons_of_ne_nil hne
  have hd : d.isDigit = true := hdigits d List.mem_cons_self
  have hdrop : (sgn ++ (d :: ds)).dropWhile isSpace = sgn ++ (d :: ds) := by
    have hspaces : ∀ c ∈ ([] : List Char), isSpace c := by simp
    exact dropWhile_isSpace_append hspaces hsign hd
  rw [scanInt_eq, hvalue, hdrop, isSign_sign_append hsign hd, hscan, Option.map_some]
  have hwrap : wrap32 n = n := by
    rw [wrap32]
    exact Int.bmod_eq_of_le (by omega) (by omega)
  cases neg with
  | false =>
    rw [if_neg (by simp)] at hn
    rw [if_neg (by simp), ← hn, min_eq_left (by omega), hwrap]
  | true =>
    rw [if_pos rfl] at hn
    rw [if_pos rfl, ← hn, max_eq_left (by omega), hwrap]

/-- **The values that `0x%x` converts.** -/
lemma exists_scanHex_iff {value : String} :
    (∃ n, scanHex value = some n) ↔ StartsWithHex value := by
  constructor
  · rintro ⟨n, hn⟩
    rw [scanHex] at hn
    split at hn
    · next cs hcs =>
      obtain ⟨⟨m, rest⟩, hm, -⟩ := Option.map_eq_some_iff.mp hn
      exact ⟨cs, m, rest, hcs, Scan.hex_eq_some_iff.mp hm⟩
    · cases hn
  · rintro ⟨cs, n, rest, hvalue, hreads⟩
    refine ⟨n % 2 ^ 16, ?_⟩
    rw [scanHex, hvalue]
    simp only [Scan.hex_eq_some_iff.mpr hreads, Option.map_some]

/-- A number of 16 bits is stored as it is. -/
lemma HexFormat.scanHex_eq_some {value : String} {n : ℕ} (h : HexFormat value n) :
    scanHex value = some n := by
  obtain ⟨ds, hdigits, hvalue, hn, hmax⟩ := h
  have hreads : Scan.Reads (ds ++ []) (Scan.ofHexDigits ds) [] :=
    .of_digits hdigits (by omega) (by simp)
  rw [List.append_nil] at hreads
  rw [scanHex, hvalue]
  simp only [Scan.hex_eq_some_iff.mpr hreads, Option.map_some, ← hn]
  rw [Nat.mod_eq_of_lt (by omega)]

/-- **The values that the conversion of an address converts.** -/
lemma exists_scanMac_iff {value : String} :
    (∃ n, scanMac value = some n) ↔ StartsWithMac value := by
  constructor
  · rintro ⟨n, hn⟩
    rw [scanMac] at hn
    split at hn
    · next cs hcs =>
      obtain ⟨ns, hns, -⟩ := Option.map_eq_some_iff.mp hn
      exact ⟨cs, ns, hcs, Scan.hexGroups_eq_some_iff.mp hns⟩
    · cases hn
  · rintro ⟨cs, ns, hvalue, hreads⟩
    refine ⟨ns.map UInt8.ofNat, ?_⟩
    rw [scanMac, hvalue]
    simp only [Scan.hexGroups_eq_some_iff.mpr hreads, Option.map_some]

/-- Bytes are stored as they are. -/
lemma MacFormat.scanMac_eq_some {value : String} {mac : List UInt8} (h : MacFormat value mac) :
    scanMac value = some mac := by
  obtain ⟨gs, hlen, hgs, hvalue, rfl⟩ := h
  have hreads : Scan.ReadsGroups ':' 5 (List.intercalate [':'] gs ++ ['"'])
      (gs.map Scan.ofHexDigits) := by
    have hends : Scan.Ends ':' ∧ Scan.Ends '"' := by simp [Scan.Ends, Scan.isHexDigit]
    refine .of_digits hends.1 hlen (fun g hg => ?_) (by simp [hends.2])
    exact ⟨(hgs g hg).1, (hgs g hg).2.trans_lt (by decide)⟩
  rw [scanMac, hvalue]
  simp only [Scan.hexGroups_eq_some_iff.mpr hreads, Option.map_some, List.map_map]
  rfl

/-! ## When a getter accepts its format exactly -/

/-- A getter whose conversion stores what the values of its format stand for accepts these exactly
if it converts nothing else. -/
lemma acceptsExactly_iff {α : Type*} {Format : String → α → Prop} {StartsWith : String → Prop}
    {convert : String → Option α} (hstart : ∀ v, (∃ n, convert v = some n) ↔ StartsWith v)
    (hformat : ∀ v n, Format v n → convert v = some n) (value : String) :
    AcceptsExactly Format (stored (convert value)) value ↔
      (StartsWith value → ∃ n, Format value n) := by
  constructor
  · rintro ⟨hcode, -, -⟩ hstarts
    obtain ⟨n, hn⟩ := (hstart value).mpr hstarts
    apply (hcode n).mp
    rw [hn, stored]
  · intro hwhole
    cases hn : convert value with
    | none =>
      have hno : ¬ ∃ n, Format value n := fun ⟨n, h⟩ => by
        have := hformat value n h
        rw [hn] at this
        cases this
      refine ⟨fun old => ?_, fun old n h => absurd ⟨n, h⟩ hno, fun old _ => rfl⟩
      simp [stored, hno]
    | some n =>
      obtain ⟨m, hm⟩ := hwhole ((hstart value).mp ⟨n, hn⟩)
      refine ⟨fun old => by simpa [stored] using ⟨m, hm⟩, fun old m' h => ?_,
        fun old h => absurd ⟨m, hm⟩ h⟩
      have hsome := hformat value m' h
      rw [hn] at hsome
      exact Option.some.inj hsome

/-- **When the getters accept their formats exactly.** On a value that is stored under the key,
each of the three getters does so if and only if the value is in its format as a whole or does not
start with anything that the getter converts.

*Proof sketch.* A conversion succeeds on the values that start with something it converts, and on a
value of the format it gives what the value stands for, since the bounds keep the casts from
cutting anything. -/
theorem getters_acceptExactly_iff {cfg : Cfg} {key value : String}
    (h : cfgGet cfg key = some value) :
    (AcceptsExactly IntFormat (cfgGetIntInto cfg key) value ↔
        (StartsWithInt value → ∃ n, IntFormat value n)) ∧
      (AcceptsExactly HexFormat (cfgGetHex cfg key) value ↔
        (StartsWithHex value → ∃ n, HexFormat value n)) ∧
      (AcceptsExactly MacFormat (cfgGetMac cfg key) value ↔
        (StartsWithMac value → ∃ mac, MacFormat value mac)) := by
  have hint : cfgGetIntInto cfg key = stored (scanInt value) := by
    ext1 old
    simp [cfgGetIntInto, cfgGetInt, h]
  have hhex : cfgGetHex cfg key = stored (scanHex value) := by
    ext1 old
    simp [cfgGetHex, h]
  have hmac : cfgGetMac cfg key = stored (scanMac value) := by
    ext1 old
    simp [cfgGetMac, h]
  rw [hint, hhex, hmac]
  exact ⟨
    acceptsExactly_iff (fun _ => exists_scanInt_iff) (fun _ _ => IntFormat.scanInt_eq_some) value,
    acceptsExactly_iff (fun _ => exists_scanHex_iff) (fun _ _ => HexFormat.scanHex_eq_some) value,
    acceptsExactly_iff (fun _ => exists_scanMac_iff) (fun _ _ => MacFormat.scanMac_eq_some) value⟩

/-- Numbers as they stand in a configuration. -/
theorem getters_acceptExactly_iff_port :
    let cfg : Cfg := [⟨"port", "102"⟩]
    cfgGet cfg "port" = some "102" ∧
      (AcceptsExactly IntFormat (cfgGetIntInto cfg "port") "102" ↔
        (StartsWithInt "102" → ∃ n, IntFormat "102" n)) :=
  have hport : cfgGet [⟨"port", "102"⟩] "port" = some "102" := by decide
  ⟨hport, (getters_acceptExactly_iff hport).1⟩

/-- A number with other text after it, a number of more than 16 bits and an address without a
closing quote are accepted. -/
theorem not_getters_acceptExactly :
    ¬ AcceptsExactly IntFormat (cfgGetIntInto [⟨"port", "12abc"⟩] "port") "12abc" ∧
      ¬ AcceptsExactly HexFormat (cfgGetHex [⟨"appid", "0x1FFFF"⟩] "appid") "0x1FFFF" ∧
      ¬ AcceptsExactly MacFormat (cfgGetMac [⟨"dst", "\"1:2:3:4:5:6"⟩] "dst") "\"1:2:3:4:5:6" := by
  refine ⟨fun h => ?_, fun h => ?_, fun h => ?_⟩
  · obtain ⟨n, sgn, neg, ds, hsign, -, hdigits, hvalue, -⟩ := (h.1 0).mp (by decide)
    have ha : 'a' ∈ sgn ++ ds := hvalue ▸ by decide
    have hnot : 'a' ∉ ds := fun hmem => by simpa using hdigits 'a' hmem
    cases hsign <;> simp [hnot] at ha
  · obtain ⟨n, ds, -, hvalue, hn, hmax⟩ := (h.1 0).mp (by decide)
    obtain rfl : "1FFFF".toList = ds := by simpa using hvalue
    rw [hn] at hmax
    revert hmax
    decide
  · obtain ⟨mac, gs, -, -, hvalue, -⟩ := (h.1 []).mp (by decide)
    have hlast := congrArg List.getLast? hvalue
    rw [← List.cons_append, List.getLast?_concat] at hlast
    simp at hlast

end Tmee
