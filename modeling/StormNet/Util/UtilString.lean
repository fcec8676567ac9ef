/-
  Util/UtilString.lean --- `UtilString` of `util/util_string.cpp`: trimming, splitting,
  repeating, and the integer cast of `util/util_string.h`.

  A `std::string` is a list of characters.  A byte of the source is the character of the
  same number; every character below is an ASCII one, so nothing depends on what the other
  bytes stand for.  `isspace` is the one of the C locale.
-/
import Mathlib

set_option autoImplicit false

namespace StormNet.Util

/-- `std::string`. -/
abbrev Str := List Char

namespace UtilString

/-! ## The operations of the source -/

def isspace (c : Char) : Bool :=
  c = ' ' || c = '\t' || c = '\n' || c = '\x0b' || c = '\x0c' || c = '\r'

/-- `trim`: `i` runs forward over blanks, then `j` backward. -/
def trim (s : Str) : Str := (s.dropWhile isspace).rdropWhile isspace

/-- The loop of `splitString`, with `piece` what stands between `p` and the place that
`find_first_of` has reached. -/
def splitLoop (sep : Str) (bStrip : Bool) (piece : Str) : Str → List Str
  | [] => if !bStrip || !piece.isEmpty then [piece] else []
  | c :: rest =>
      if c ∈ sep then
        (if bStrip && piece.isEmpty then [] else [piece]) ++ splitLoop sep bStrip [] rest
      else splitLoop sep bStrip (piece ++ [c]) rest

/-- `splitString(str, sep, bStrip)`. -/
def splitString (str sep : Str) (bStrip : Bool) : List Str := splitLoop sep bStrip [] str

/-- `repeat(s, n)`, a keyword here. -/
def repeatN (s : Str) (n : Nat) : Str := (List.replicate n s).flatten

/-! ## Casting to an integer -/

/-- The value of a digit in any base up to 16. -/
def digit (c : Char) : Option Nat :=
  if '0' ≤ c ∧ c ≤ '9' then some (c.toNat - '0'.toNat)
  else if 'a' ≤ c ∧ c ≤ 'f' then some (c.toNat - 'a'.toNat + 10)
  else if 'A' ≤ c ∧ c ≤ 'F' then some (c.toNat - 'A'.toNat + 10)
  else none

/-- The number the longest run of digits of the base denotes; zero for the empty run. -/
def digits (base acc : Nat) : Str → Nat
  | [] => acc
  | c :: rest =>
      match (digit c).filter (· < base) with
      | some d => digits base (acc * base + d) rest
      | none => acc

/-- What `strtoull(s, NULL, 0)` reads behind the sign: the prefix chooses the base. -/
def magnitude : Str → Nat
  | '0' :: x :: d :: rest =>
      if (x = 'x' ∨ x = 'X') ∧ (digit d).isSome then digits 16 0 (d :: rest)
      else digits 8 0 (x :: d :: rest)
  | '0' :: rest => digits 8 0 rest
  | s => digits 10 0 s

/-- `strtoull(s.c_str(), NULL, 0)`: leading blanks are skipped, a magnitude out of range
gives `ULLONG_MAX`, a minus negates in the result type. -/
def strtoull (s : Str) : Nat :=
  let body (negative : Bool) (t : Str) : Nat :=
    if 2 ^ 64 ≤ magnitude t then 2 ^ 64 - 1
    else if negative then (2 ^ 64 - magnitude t) % 2 ^ 64
    else magnitude t
  match (s.takeWhile (· ≠ '\x00')).dropWhile isspace with
  | '-' :: t => body true t
  | '+' :: t => body false t
  | t => body false t

/-- `strto<uint32_t>(s)`. -/
def strtoUInt32 (s : Str) : Nat := strtoull s % 2 ^ 32

/-! ## Splitting -/

variable {sep piece l s : Str} {bStrip : Bool}

/-- What holds no separator goes into the piece. -/
theorem splitLoop_append (h : ∀ c ∈ l, c ∉ sep) (rest : Str) :
    splitLoop sep bStrip piece (l ++ rest) = splitLoop sep bStrip (piece ++ l) rest := by
  induction l generalizing piece with
  | nil => rw [List.nil_append, List.append_nil]
  | cons c l ih =>
    have hc : c ∉ sep := h c List.mem_cons_self
    rw [List.cons_append, splitLoop, if_neg hc, ih fun d hd => h d (List.mem_cons_of_mem c hd),
      List.append_assoc, List.singleton_append]

/-- Lines that are ended and not empty are split into themselves. -/
theorem splitString_lines {nl : Char} {lines : List Str} (hnl : nl ∈ sep)
    (h : ∀ l ∈ lines, l ≠ [] ∧ ∀ c ∈ l, c ∉ sep) :
    splitString (lines.flatMap (· ++ [nl])) sep true = lines := by
  unfold splitString
  induction lines with
  | nil => rfl
  | cons l lines ih =>
    obtain ⟨hne, hsep⟩ := h l List.mem_cons_self
    have hfull : l.isEmpty = false := List.isEmpty_eq_false_iff.mpr hne
    rw [List.flatMap_cons, List.append_assoc, splitLoop_append hsep, List.nil_append,
      List.singleton_append, splitLoop, if_pos hnl, hfull, Bool.and_false,
      ih fun l' hl' => h l' (List.mem_cons_of_mem l hl')]
    rfl

/-- No piece holds a separator. -/
theorem not_mem_of_mem_splitString (hl : l ∈ splitString s sep bStrip) :
    ∀ c ∈ l, c ∉ sep := by
  have hloop : ∀ piece : Str, (∀ c ∈ piece, c ∉ sep) → l ∈ splitLoop sep bStrip piece s →
      ∀ c ∈ l, c ∉ sep := by
    clear hl
    induction s with
    | nil =>
      intro piece hpiece hl
      rw [splitLoop] at hl
      split at hl
      · exact List.mem_singleton.mp hl ▸ hpiece
      · cases hl
    | cons d rest ih =>
      intro piece hpiece hl
      rw [splitLoop] at hl
      split at hl
      · rcases List.mem_append.mp hl with hfirst | hlater
        · split at hfirst
          · cases hfirst
          · exact List.mem_singleton.mp hfirst ▸ hpiece
        · exact ih [] (fun _ hc => (nomatch hc)) hlater
      · rename_i hd
        refine ih (piece ++ [d]) ?_ hl
        exact List.forall_mem_append.mpr ⟨hpiece, List.forall_mem_singleton.mpr hd⟩
  exact hloop [] (fun _ hc => (nomatch hc)) hl

/-- Copies of blanks are blanks. -/
theorem isspace_of_mem_repeatN (h : ∀ c ∈ s, isspace c = true) (n : Nat) :
    ∀ c ∈ repeatN s n, isspace c = true := by
  intro c hc
  obtain ⟨copy, hcopy, hc⟩ := List.mem_flatten.mp hc
  exact h c (List.eq_of_mem_replicate hcopy ▸ hc)

end UtilString

end StormNet.Util
