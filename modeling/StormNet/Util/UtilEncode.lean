/-
  Util/UtilEncode.lean --- `UtilEncode` of `util/util_encode.cpp`: C escapes and URL encoding.

  A string is a list of bytes, and a `char` is a signed byte.  Each function is a loop over the
  string with `unsigned i`; a turn sees the string from `i` on, so that `i + 1 < s.size()` asks
  whether there is a byte behind the first.  The classes of characters are those of the C
  locale.
-/
import StormNet.Foundation.Scan
import Mathlib

set_option autoImplicit false

namespace StormNet.Util

open StormNet.Foundation

/-- `std::string`, byte by byte. -/
abbrev Bytes := List UInt8

namespace UtilEncode

/-! ## The source -/

/-- The byte of a character literal. -/
def code (c : Char) : UInt8 := c.toUInt8

/-- `g_hexcode`. -/
def hexcode (n : UInt8) : UInt8 := ("0123456789abcdef".toList.map code).getD n.toNat 0

def isxdigit (c : UInt8) : Bool :=
  (code '0' ≤ c && c ≤ code '9') || (code 'a' ≤ c && c ≤ code 'f') ||
    (code 'A' ≤ c && c ≤ code 'F')

def isprint (c : UInt8) : Bool := 0x20 ≤ c && c ≤ 0x7e

def tolower (c : UInt8) : UInt8 := if code 'A' ≤ c && c ≤ code 'Z' then c + 0x20 else c

/-- A digit of `getHex`. -/
def hexDigit (c : UInt8) : UInt8 :=
  if code 'a' ≤ c then c - code 'a' + 10
  else if code 'A' ≤ c then c - code 'A' + 10
  else c - code '0'

def getHex (hi lo : UInt8) : UInt8 := (hexDigit hi <<< 4) ||| hexDigit lo

/-- The cases that the switches of `c_unescape` and `c_escape` have in common: the letter behind
the backslash, and the character. -/
def letters : List (UInt8 × UInt8) :=
  [('a', 0x07), ('b', 0x08), ('f', 0x0c), ('n', 0x0a), ('r', 0x0d), ('t', 0x09), ('v', 0x0b),
    ('\\', 0x5c), ('\x27', 0x27), ('\x22', 0x22)].map fun p => (code p.1, p.2)

/-- `case '0'` to `case '7'` of `c_unescape`: up to three digits. -/
def octalEscape (c : UInt8) (rest : Bytes) : Bytes × Nat :=
  let octal (c : UInt8) : Bool := code '0' ≤ c && c ≤ code '7'
  match rest with
  | [] => ([c - code '0'], 1)
  | d :: rest =>
      if !octal d then ([c - code '0'], 1)
      else
        let val := (c - code '0') * 8 + (d - code '0')
        match rest with
        | [] => ([val], 2)
        | e :: _ =>
            if val ≤ 0o37 && octal e then ([val * 8 + (e - code '0')], 3) else ([val], 2)

/-- `case 'x'` of `c_unescape`: up to two digits. -/
def hexEscape (rest : Bytes) : Bytes × Nat :=
  let digit (c : UInt8) : UInt8 :=
    if code 'a' ≤ tolower c then tolower c - code 'a' + 10 else tolower c - code '0'
  match rest with
  | [] => ([code '\\', code 'x'], 1)
  | d :: rest =>
      if !isxdigit d then ([code '\\', code 'x'], 1)
      else
        match rest with
        | [] => ([digit d], 2)
        | e :: _ => if isxdigit e then ([digit d * 16 + digit e], 3) else ([digit d], 2)

/-- A turn of `c_unescape`. -/
def cUnescapeTurn : Bytes → Bytes × Nat
  | [] => ([], 0)
  | [b] => ([b], 0)
  | b :: c :: rest =>
      if b ≠ code '\\' then ([b], 0)
      else
        match letters.lookup c with
        | some x => ([x], 1)
        | none =>
            if code '0' ≤ c && c ≤ code '7' then octalEscape c rest
            else if c = code 'x' then hexEscape rest
            else ([c], 1)

/-- `c_unescape`; `none` when its loop never ends. -/
def cUnescape (s : Bytes) : Option Bytes := loop cUnescapeTurn s

/-- The letter that stands for a character in the switch of `c_escape`. -/
def letterOf (c : UInt8) : Option UInt8 := (letters.find? (·.2 = c)).map (·.1)

/-- What `c_escape` appends for a character; the last case is `"%02x"`. -/
def cEscapeChar (c : UInt8) : Bytes :=
  match letterOf c with
  | some x => [code '\\', x]
  | none =>
      if isprint c || c &&& 0x80 ≠ 0 then [c]
      else [code '\\', code 'x', hexcode (c >>> 4), hexcode (c &&& 15)]

def cEscapeTurn : Bytes → Bytes × Nat
  | [] => ([], 0)
  | c :: _ => (cEscapeChar c, 0)

/-- `c_escape`; `none` when its loop never ends. -/
def cEscape (s : Bytes) : Option Bytes := loop cEscapeTurn s

/-- The test of `rawurlencode`, on signed characters. -/
def isEscaped (b : UInt8) : Bool :=
  let c := b.toInt8
  let char (c : Char) : Int8 := (code c).toInt8
  (c < char '0' && c ≠ char '-' && c ≠ char '.') ||
    (c < char 'A' && c > char '9') ||
    (c > char 'Z' && c < char 'a' && c ≠ char '_') ||
    (c > char 'z' && c ≠ char '~')

def rawurlencodeChar (c : UInt8) : Bytes :=
  if isEscaped c then [code '%', hexcode (c >>> 4), hexcode (c &&& 15)] else [c]

def rawurlencodeTurn : Bytes → Bytes × Nat
  | [] => ([], 0)
  | c :: _ => (rawurlencodeChar c, 0)

/-- `rawurlencode`; `none` when its loop never ends. -/
def rawurlencode (s : Bytes) : Option Bytes := loop rawurlencodeTurn s

/-- A turn of `rawurldecode`.  Below 2^31 bytes `((int)s.size() - 1 - i) >= 2` says that two
bytes are behind the first. -/
def rawurldecodeTurn : Bytes → Bytes × Nat
  | [] => ([], 0)
  | c :: hi :: lo :: _ =>
      if c = code '%' && isxdigit hi && isxdigit lo then ([getHex hi lo], 2) else ([c], 0)
  | c :: _ => ([c], 0)

/-- `rawurldecode`, of fewer than 2^31 bytes; `none` when its loop never ends. -/
def rawurldecode (s : Bytes) : Option Bytes := loop rawurldecodeTurn s

/-! ## Bytes -/

/-- What holds of 256 numbers holds of every byte. -/
theorem forall_byte {P : UInt8 → Prop} (h : ∀ n < 256, P (UInt8.ofNat n)) (c : UInt8) : P c := by
  have hc := h c.toNat c.toNat_lt
  rwa [UInt8.ofNat_toNat] at hc

theorem lookup_of_letterOf {c x : UInt8} (h : letterOf c = some x) : letters.lookup x = some c := by
  obtain ⟨p, hp, rfl⟩ := Option.map_eq_some_iff.mp h
  have hfound := List.find?_some hp
  have hc : p.2 = c := of_decide_eq_true hfound
  have hall : letters.all (fun p => letters.lookup p.1 = some p.2) = true := by decide
  rw [of_decide_eq_true (List.all_eq_true.mp hall p (List.mem_of_find?_eq_some hp)), hc]

theorem ne_backslash_of_letterOf {c : UInt8} (h : letterOf c = none) : c ≠ code '\\' := by
  rintro rfl
  revert h
  decide

/-- Two digits of `hexcode` are read back. -/
theorem hexcode_spec (c : UInt8) :
    isxdigit (hexcode (c >>> 4)) = true ∧ isxdigit (hexcode (c &&& 15)) = true ∧
      getHex (hexcode (c >>> 4)) (hexcode (c &&& 15)) = c ∧
      hexEscape [hexcode (c >>> 4), hexcode (c &&& 15)] = ([c], 3) := by
  revert c
  exact forall_byte (by decide +kernel)

/-! ## C escapes -/

theorem octalEscape_le (c : UInt8) (rest : Bytes) : (octalEscape c rest).2 ≤ rest.length + 1 := by
  unfold octalEscape
  match rest with
  | [] => exact Nat.le_refl 1
  | [d] =>
    simp only
    split
    · exact Nat.le_add_left 1 1
    · exact Nat.le_refl 2
  | d :: e :: rest =>
    simp only [List.length_cons]
    split
    · omega
    · split <;> simp only <;> omega

theorem hexEscape_le (rest : Bytes) : (hexEscape rest).2 ≤ rest.length + 1 := by
  unfold hexEscape
  match rest with
  | [] => exact Nat.le_refl 1
  | [d] =>
    simp only
    split
    · exact Nat.le_add_left 1 1
    · exact Nat.le_refl 2
  | d :: e :: rest =>
    simp only [List.length_cons]
    split
    · omega
    · split <;> simp only <;> omega

theorem inside_cUnescapeTurn : Inside cUnescapeTurn := by
  intro l hl
  match l with
  | [b] => exact Nat.zero_lt_one
  | b :: c :: rest =>
    have hoctal := octalEscape_le c rest
    have hhex := hexEscape_le rest
    rw [cUnescapeTurn, List.length_cons, List.length_cons]
    split
    · exact Nat.zero_lt_succ _
    · split
      · simp only
        omega
      · split
        · omega
        · split
          · omega
          · simp only
            omega

theorem hexEscape_append (c : UInt8) (t : Bytes) :
    hexEscape (hexcode (c >>> 4) :: hexcode (c &&& 15) :: t) = ([c], 3) := by
  obtain ⟨hhi, hlo, -, hval⟩ := hexcode_spec c
  rw [← hval]
  simp only [hexEscape, hhi, hlo]

/-- What a character is escaped to is read back, whatever comes behind it. -/
theorem cUnescapeTurn_escaped (c : UInt8) (t : Bytes) :
    cUnescapeTurn (cEscapeChar c ++ t) = ([c], (cEscapeChar c).length - 1) := by
  unfold cEscapeChar
  split
  · rename_i x hx
    have hlookup := lookup_of_letterOf hx
    rw [List.cons_append, List.cons_append, List.nil_append, cUnescapeTurn,
      if_neg (not_not.mpr rfl), hlookup]
    rfl
  · rename_i hnone
    have hc := ne_backslash_of_letterOf hnone
    split
    · cases t with
      | nil => rfl
      | cons d t =>
        rw [List.cons_append, List.nil_append, cUnescapeTurn, if_pos hc]
        rfl
    · have hx : letters.lookup (code 'x') = none := by decide
      have hnot : ¬ (code '0' ≤ code 'x' && code 'x' ≤ code '7') = true := by decide
      rw [List.cons_append, List.cons_append, List.cons_append, List.cons_append, List.nil_append,
        cUnescapeTurn, if_neg (not_not.mpr rfl), hx]
      simp only [if_neg hnot, if_true, hexEscape_append]
      rfl

/-- The length of what a character is escaped to. -/
def escapedWidth (c : UInt8) : Nat :=
  if (letterOf c).isSome then 2 else if isprint c || c &&& 0x80 ≠ 0 then 1 else 4

theorem length_cEscapeChar (c : UInt8) : (cEscapeChar c).length = escapedWidth c := by
  unfold cEscapeChar escapedWidth
  cases letterOf c with
  | some x => rfl
  | none =>
    simp only [Option.isSome_none, Bool.false_eq_true, if_false]
    split <;> rfl

/-- What `c_escape` gives for a string that its counter can run over. -/
theorem cEscape_eq {s : Bytes} (h : s.length < UInt32.size) :
    cEscape s = some (s.flatMap cEscapeChar) := loop_eq_flatMap (fun _ _ => rfl) h

theorem length_escaped (s : Bytes) :
    (s.flatMap cEscapeChar).length = (s.map escapedWidth).sum := by
  rw [List.length_flatMap]
  exact congrArg List.sum (List.map_congr_left fun c _ => length_cEscapeChar c)

/-- What was escaped is read back if the counter of `c_unescape` can run over it. -/
theorem cUnescape_escaped {s : Bytes} (h : (s.map escapedWidth).sum < UInt32.size) :
    cUnescape (s.flatMap cEscapeChar) = some s := by
  have hne : ∀ c, cEscapeChar c ≠ [] := by
    intro c hnil
    have hlen := length_cEscapeChar c
    rw [hnil, List.length_nil, escapedWidth] at hlen
    split at hlen
    · cases hlen
    · split at hlen <;> cases hlen
  rw [cUnescape, loop_eq_scan inside_cUnescapeTurn (length_escaped s ▸ h),
    scan_flatMap cUnescapeTurn_escaped hne]

/-- **The round trip of C escapes.**  Every string comes back as long as its escaped text has
fewer than 2^32 bytes; for a longer text the loop of `c_unescape` never ends. -/
theorem cUnescape_cEscape_iff (s : Bytes) (h : s.length < 2 ^ 31) :
    (cEscape s).bind cUnescape = some s ↔ (s.map escapedWidth).sum < 2 ^ 32 := by
  have hword : UInt32.size = 2 ^ 32 := rfl
  rw [cEscape_eq (by omega), Option.bind_some]
  constructor
  · intro hback
    apply Nat.lt_of_not_le
    intro hmore
    have hnone : cUnescape (s.flatMap cEscapeChar) = none :=
      loop_eq_none (by rw [length_escaped]; omega)
    rw [hnone] at hback
    cases hback
  · intro hless
    exact cUnescape_escaped hless

/-- Digits, a quote and a backslash behind escaped bytes. -/
theorem cUnescape_cEscape_of_neighbours :
    (cEscape [0x01, 0x41, 0x00, 0x37, 0x5c, 0x6e, 0x22, 0xff, 0x7f]).bind cUnescape =
      some [0x01, 0x41, 0x00, 0x37, 0x5c, 0x6e, 0x22, 0xff, 0x7f] :=
  (cUnescape_cEscape_iff _ (by decide)).mpr (by decide)

/-- A string of 2^30 bytes whose escaped text has 2^32. -/
theorem cUnescape_never_ends :
    (List.replicate (2 ^ 30) (1 : UInt8)).length < 2 ^ 31 ∧
    (cEscape (List.replicate (2 ^ 30) 1)).bind cUnescape ≠ some (List.replicate (2 ^ 30) 1) := by
  have hword : UInt32.size = 2 ^ 32 := rfl
  have hlen : (List.replicate (2 ^ 30) (1 : UInt8)).length = 2 ^ 30 := List.length_replicate
  have hsum : ((List.replicate (2 ^ 30) (1 : UInt8)).map escapedWidth).sum = 2 ^ 30 * 4 := by
    rw [List.map_replicate, List.sum_replicate]
    rfl
  refine ⟨by omega, ?_⟩
  have hnone : cUnescape ((List.replicate (2 ^ 30) (1 : UInt8)).flatMap cEscapeChar) = none :=
    loop_eq_none (by rw [length_escaped]; omega)
  rw [cEscape_eq (by omega), Option.bind_some, hnone]
  intro hsome
  cases hsome

end UtilEncode

end StormNet.Util
