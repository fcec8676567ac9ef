/-
  RpcGenerator/Scanner.lean --- the scanner of `rpc_generator/lexical.l`.

  A rule is tried in its start condition only, the longest match is taken, and what no rule of
  an exclusive condition matches is echoed.  A character is a byte; the parser takes a token
  that is not positive, which is what a byte from 128 on and the byte 0 are, for the end of the
  file.
-/
import StormNet.Foundation.Munch
import StormNet.RpcGenerator.Parser

set_option autoImplicit false

namespace StormNet.RpcGenerator

open StormNet.Foundation StormNet.Util UtilString

/-! ## The source -/

/-- The start conditions: `INITIAL`, `INCL`, `USINGNS` and `NS`. -/
inductive Start where
  | initial
  | incl
  | usingns
  | ns
  deriving DecidableEq, Repr

/-- The rules, in their order. -/
inductive Rule where
  | inclusion
  | inclusionText
  | inclusionNewline
  | usingNamespace
  | usingText
  | usingNewline
  | package
  | packageText
  | packageNewline
  | identifier
  | integerLiteral
  | space
  | any
  deriving DecidableEq, Repr

/-- `[ \t]` -/
def isBlank (c : Char) : Bool := c = ' ' || c = '\t'

/-- `[[:alpha:]_]` -/
def isIdentifierHead (c : Char) : Bool := c.isAlpha || c = '_'

/-- `[[:alnum:]_]` -/
def isIdentifierTail (c : Char) : Bool := c.isAlphanum || c = '_'

/-- The pattern `identifier`. -/
def identifier : Str → Bool
  | [] => false
  | c :: t => isIdentifierHead c && t.all isIdentifierTail

/-- A word and blanks: `"word"[ \t]*`. -/
def keyword (word t : Str) : Bool := word.isPrefixOf t && (t.drop word.length).all isBlank

/-- `\"[^"]*\"` and `<[^>]*>`, by their ends. -/
def enclosed (opening closing : Char) : Str → Bool
  | [] => false
  | c :: t => c = opening && t.getLast? = some closing && t.dropLast.all (· ≠ closing)

/-- `{identifier}";"` -/
def identifierSemicolon (t : Str) : Bool := t.getLast? = some ';' && identifier t.dropLast

/-- The pattern of a rule. -/
def pattern : Rule → Str → Bool
  | .inclusion => keyword "#include".toList
  | .inclusionText => fun t => enclosed '"' '"' t || enclosed '<' '>' t
  | .usingNamespace => keyword "using namespace".toList
  | .package => keyword "package".toList
  | .usingText | .packageText => identifierSemicolon
  | .inclusionNewline | .usingNewline | .packageNewline => fun t => t = ['\n']
  | .identifier => identifier
  | .integerLiteral => integerLiteral
  | .space => fun t => t.length = 1 && t.all isspace
  | .any => fun t => t.length = 1 && t.all (· ≠ '\n')

/-- The rules of a start condition. -/
def Start.rules : Start → List Rule
  | .initial => [.inclusion, .usingNamespace, .package, .identifier, .integerLiteral, .space, .any]
  | .incl => [.inclusionText, .inclusionNewline]
  | .usingns => [.usingText, .usingNewline]
  | .ns => [.packageText, .packageNewline]

/-- What the rules change of a `Parser` by themselves. -/
structure Directives where
  m_includes : List Str
  m_usingNameSpace : List Str
  m_nameSpace : Str
  deriving DecidableEq, Repr

namespace Directives

/-- `addInclude(file)`. -/
def addInclude (d : Directives) (file : Str) : Directives :=
  { d with m_includes := d.m_includes ++ [file] }

/-- `addUsingNS(ns)`. -/
def addUsingNS (d : Directives) (ns : Str) : Directives :=
  { d with m_usingNameSpace := d.m_usingNameSpace ++ [ns] }

/-- `setNS(ns)`. -/
def setNS (d : Directives) (ns : Str) : Directives := { d with m_nameSpace := ns }

end Directives

/-- What `yylex` returns, with `yylval`; a number still has its text. -/
inductive Token where
  | service
  | identifier (sval : Str)
  | number (yytext : Str)
  | char (c : Char)
  deriving DecidableEq, Repr

/-- How the tokens end. -/
inductive Finish where
  | eof
  /-- `g_parser.error`, which exits -/
  | error (err : Str)
  /-- a `string` of an end in front of its beginning -/
  | terminate
  /-- `yylex` does not return -/
  | hang
  deriving DecidableEq, Repr

/-- All that the scanner does with a file. -/
structure Scanned where
  directives : Directives
  tokens : List Token
  finish : Finish
  deriving DecidableEq, Repr

def Scanned.push (t : Token) (r : Scanned) : Scanned := { r with tokens := t :: r.tokens }

/-- The end of the file. -/
def Start.eof : Start → Finish
  | .initial => .eof
  -- the rule of `INCL` does nothing, and is tried again
  | .incl => .hang
  | .usingns => .error "Invalid USINGNS\n".toList
  | .ns => .error "Invalid NS\n".toList

/-- The token of the rule for words. -/
def wordToken (yytext : Str) : Token :=
  if yytext = "service".toList then .service else .identifier yytext

/-- `yytext[0]` is positive as a `char`. -/
def isPositive (c : Char) : Bool := 0 < c.toNat && c.toNat < 128

/-- The action of a rule; `next` is what the scanner does behind it. -/
def Rule.act (d : Directives) (yytext : Str) (next : Start → Directives → Scanned) :
    Rule → Scanned
  | .inclusion => next .incl d
  | .inclusionText =>
      -- `strlen(yytext)` sees no zero
      let text := yytext.takeWhile (· ≠ '\x00')
      if text.length < 2 then ⟨d, [], .terminate⟩
      else next .initial (d.addInclude (text.drop 1).dropLast)
  | .inclusionNewline => next .incl d
  | .usingNamespace => next .usingns d
  | .usingText => next .initial (d.addUsingNS yytext.dropLast)
  | .usingNewline => ⟨d, [], .error "Invalid USINGNS\n".toList⟩
  | .package => next .ns d
  | .packageText => next .initial (d.setNS yytext.dropLast)
  | .packageNewline => ⟨d, [], .error "Invalid NS\n".toList⟩
  | .identifier => (next .initial d).push (wordToken yytext)
  | .integerLiteral => (next .initial d).push (.number yytext)
  | .space => next .initial d
  | .any =>
      let c := yytext.headD '\x00'
      if isPositive c then (next .initial d).push (.char c) else ⟨d, [], .eof⟩

/-- The calls of `yylex`, one after the other. -/
def scan (start : Start) (d : Directives) : Str → Scanned
  | [] => ⟨d, [], start.eof⟩
  | c :: s =>
      match munch pattern (c :: s) start.rules with
      | none => scan start d s
      -- a match has at least one character
      | some (rule, n) =>
          rule.act d ((c :: s).take n) fun start d => scan start d (s.drop (n - 1))
  termination_by s => s.length
  decreasing_by all_goals simp only [List.length_cons, List.length_drop]; omega

/-! ## What the patterns match -/

section Patterns

variable {c : Char} {s t rest word blanks : Str}

theorem not_prefix_of_head (hword : word ≠ []) (hhead : word.head? ≠ some c) :
    ¬ word <+: c :: s := by
  obtain ⟨d, word, rfl⟩ := List.exists_cons_of_ne_nil hword
  rw [List.cons_prefix_cons]
  rintro ⟨rfl, -⟩
  exact hhead rfl

/-- A prefix whose characters all meet `q` ends in front of a character that does not. -/
theorem prefix_of_append {q : Char → Bool} (hall : word.all q = true)
    (hrest : ∀ c ∈ rest.head?, q c = false) (h : word <+: t ++ rest) : word <+: t := by
  rcases Nat.le_total word.length t.length with hle | hle
  · exact List.prefix_of_prefix_length_le h (List.prefix_append t rest) hle
  · obtain ⟨more, rfl⟩ := List.prefix_of_prefix_length_le (List.prefix_append t rest) h hle
    rw [List.prefix_append_right_inj] at h
    cases more with
    | nil => rw [List.append_nil]
    | cons d more =>
      obtain ⟨tail, rfl⟩ := h
      have hd : q d = true := List.all_eq_true.mp hall d (by simp)
      rw [hrest d rfl] at hd
      cases hd

theorem longest_keyword_eq_zero (h : ¬ word <+: s) : longest (keyword word) s = 0 := by
  refine longest_eq_zero fun t ht => ?_
  rw [keyword, Bool.and_eq_false_iff, ← Bool.not_eq_true]
  exact .inl fun hword => h ((List.isPrefixOf_iff_prefix.mp hword).trans ht)

theorem keyword_append (word : Str) (blanks : Str) :
    keyword word (word ++ blanks) = blanks.all isBlank := by
  rw [keyword, List.isPrefixOf_iff_prefix.mpr (List.prefix_append _ _), List.drop_left,
    Bool.true_and]

theorem longest_keyword (hblanks : blanks.all isBlank = true)
    (hrest : ∀ c ∈ rest.head?, isBlank c = false) :
    longest (keyword word) (word ++ blanks ++ rest) = word.length + blanks.length := by
  rw [longest_append (by rwa [keyword_append]), List.length_append]
  rintro (_ | ⟨c, more⟩) hne hmore
  · exact absurd rfl hne
  · obtain ⟨tail, rfl⟩ := hmore
    rw [List.append_assoc, keyword_append, List.all_append, List.all_cons, hrest c rfl]
    simp

theorem longest_identifier (ht : identifier t = true)
    (hrest : ∀ c ∈ rest.head?, isIdentifierTail c = false) :
    longest identifier (t ++ rest) = t.length := by
  refine longest_append ht ?_
  rintro (_ | ⟨c, more⟩) hne hmore
  · exact absurd rfl hne
  · obtain ⟨tail, rfl⟩ := hmore
    cases t with
    | nil => cases ht
    | cons d t =>
      rw [List.cons_append, identifier, List.all_append, List.all_cons, hrest c rfl]
      simp

theorem longest_identifier_eq_zero (h : isIdentifierHead c = false) :
    longest identifier (c :: s) = 0 := by
  refine longest_eq_zero fun t ht => ?_
  cases t with
  | nil => rfl
  | cons d t =>
    rw [List.cons_prefix_cons] at ht
    rw [identifier, ht.1, h, Bool.false_and]

theorem isIdentifierTail_of_isDigit (h : c.isDigit = true) : isIdentifierTail c = true := by
  rw [isIdentifierTail, Char.isAlphanum, h, Bool.or_true, Bool.true_or]

theorem isIdentifierTail_of_digit (h : (digit c).isSome = true) : isIdentifierTail c = true := by
  have hrange : c.isDigit = true ∨ c.isLower = true ∨ c.isUpper = true := by
    unfold digit at h
    simp only [Char.le_def, UInt32.le_iff_toNat_le] at h
    simp only [Char.isDigit, Char.isLower, Char.isUpper, Bool.and_eq_true, decide_eq_true_eq,
      ge_iff_le, UInt32.le_iff_toNat_le]
    have hends : ('0'.val.toNat = 48 ∧ '9'.val.toNat = 57) ∧ ('a'.val.toNat = 97 ∧
      'f'.val.toNat = 102 ∧ 'z'.val.toNat = 122) ∧ 'A'.val.toNat = 65 ∧ 'F'.val.toNat = 70 ∧
      'Z'.val.toNat = 90 := by decide
    split at h
    · exact .inl ‹_›
    · split at h
      · exact .inr (.inl ⟨by omega, by omega⟩)
      · split at h
        · exact .inr (.inr ⟨by omega, by omega⟩)
        · cases h
  rw [isIdentifierTail, Char.isAlphanum, Char.isAlpha]
  rcases hrange with hc | hc | hc <;> simp [hc]

/-- Behind its sign a number has letters and digits only. -/
theorem all_of_integerLiteral (h : integerLiteral t = true) :
    unsigned t ≠ [] ∧ (unsigned t).all isIdentifierTail = true := by
  rw [integerLiteral, Bool.or_eq_true, Bool.or_eq_true] at h
  generalize unsigned t = u at h ⊢
  rcases h with (h | h) | h
  · unfold octalLiteral at h
    split at h
    · rename_i ds
      rw [Bool.and_eq_true, List.all_eq_true] at h
      refine ⟨List.cons_ne_nil _ _, ?_⟩
      rw [List.all_cons, Bool.and_eq_true, List.all_eq_true]
      refine ⟨by decide, fun d hd => ?_⟩
      exact isIdentifierTail_of_isDigit (isDigit_of_isOctalDigit (h.2 d hd)).1
    · cases h
  · unfold hexLiteral at h
    split at h
    · rename_i x ds
      rw [Bool.and_eq_true, Bool.and_eq_true, List.all_eq_true, Bool.or_eq_true,
        decide_eq_true_eq, decide_eq_true_eq] at h
      obtain ⟨⟨hx, -⟩, hds⟩ := h
      refine ⟨List.cons_ne_nil _ _, ?_⟩
      rw [List.all_cons, List.all_cons, Bool.and_eq_true, Bool.and_eq_true, List.all_eq_true]
      refine ⟨by decide, ?_, fun d hd => isIdentifierTail_of_digit (hds d hd)⟩
      rcases hx with rfl | rfl <;> decide
    · cases h
  · rw [digitLiteral, Bool.and_eq_true, List.all_eq_true] at h
    refine ⟨?_, List.all_eq_true.mpr fun d hd => isIdentifierTail_of_isDigit (h.2 d hd)⟩
    rintro rfl
    exact absurd h.1 (by decide)

theorem unsigned_append (ht : t ≠ []) (more : Str) :
    ∃ u, unsigned (t ++ more) = u ++ more ∧ u.length ≤ t.length := by
  obtain ⟨d, t, rfl⟩ := List.exists_cons_of_ne_nil ht
  by_cases hplus : d = '+'
  · subst hplus
    exact ⟨t, rfl, Nat.le_succ _⟩
  · by_cases hminus : d = '-'
    · subst hminus
      exact ⟨t, rfl, Nat.le_succ _⟩
    · exact ⟨d :: t, unsigned_of_ne hplus hminus (t ++ more), Nat.le_refl _⟩

theorem longest_integerLiteral (ht : integerLiteral t = true)
    (hrest : ∀ c ∈ rest.head?, isIdentifierTail c = false) :
    longest integerLiteral (t ++ rest) = t.length := by
  refine longest_append ht ?_
  rintro (_ | ⟨c, more⟩) hne hmore
  · exact absurd rfl hne
  · obtain ⟨tail, rfl⟩ := hmore
    have htne : t ≠ [] := by
      rintro rfl
      exact absurd ht (by decide)
    obtain ⟨u, hu, -⟩ := unsigned_append htne (c :: more)
    rw [← Bool.not_eq_true]
    intro hlonger
    have hall := (all_of_integerLiteral hlonger).2
    rw [hu, List.all_append, List.all_cons, hrest c rfl] at hall
    simp at hall

/-- A number begins with a digit or a sign. -/
theorem head_of_integerLiteral (h : integerLiteral (c :: t) = true) :
    c = '+' ∨ c = '-' ∨ c.isDigit = true := by
  by_contra hnot
  simp only [not_or] at hnot
  obtain ⟨hplus, hminus, hdigit⟩ := hnot
  rw [integerLiteral, unsigned_of_ne hplus hminus] at h
  have hzero : c ≠ '0' := by
    rintro rfl
    exact hdigit (by decide)
  simp [octalLiteral, hexLiteral, digitLiteral, hzero, hdigit] at h

theorem longest_integerLiteral_eq_zero
    (h : ¬ (c = '+' ∨ c = '-' ∨ c.isDigit = true)) :
    longest integerLiteral (c :: s) = 0 := by
  refine longest_eq_zero fun t ht => ?_
  cases t with
  | nil => rfl
  | cons d t =>
    rw [List.cons_prefix_cons] at ht
    rw [ht.1, ← Bool.not_eq_true]
    exact mt head_of_integerLiteral h

/-- A pattern of one character. -/
theorem longest_char_le (q : Char → Bool) (s : Str) :
    longest (fun t => t.length = 1 && t.all q) s ≤ 1 := by
  refine longest_le fun t _ ht => ?_
  rw [Bool.and_eq_true, decide_eq_true_eq] at ht
  exact Nat.le_of_eq ht.1

theorem longest_char (q : Char → Bool) (c : Char) (s : Str) :
    longest (fun t => t.length = 1 && t.all q) (c :: s) = if q c then 1 else 0 := by
  split
  · rename_i hc
    show longest _ ([c] ++ s) = [c].length
    refine longest_append (by simp [hc]) ?_
    intro more hne _
    simp [hne]
  · rename_i hc
    refine longest_eq_zero fun t ht => ?_
    cases t with
    | nil => rfl
    | cons d t =>
      rw [List.cons_prefix_cons] at ht
      rw [ht.1, List.all_cons, Bool.eq_false_iff.mpr hc, Bool.false_and, Bool.and_false]

end Patterns

end StormNet.RpcGenerator
