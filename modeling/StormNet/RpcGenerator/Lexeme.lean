/-
  RpcGenerator/Lexeme.lean --- what the scanner reads, lexeme by lexeme.

  A file that is spelled as lexemes, in any layout, is read back as their directives and
  tokens.  The word of a directive is read wherever it stands: `package` is no name, and
  behind `using` nothing may follow that begins with ` namespace`.
-/
import StormNet.RpcGenerator.Scanner

set_option autoImplicit false

namespace StormNet.RpcGenerator

open StormNet.Foundation StormNet.Util UtilString

/-! ## Turns of the scanner -/

section Turns

variable {start : Start} {d : Directives} {rule : Rule} {c : Char}
variable {s t rest word blanks : Str}

theorem scan_of_munch (ht : t ≠ [])
    (h : munch pattern (t ++ rest) start.rules = some (rule, t.length)) :
    scan start d (t ++ rest) = rule.act d t fun start d => scan start d rest := by
  obtain ⟨c, t, rfl⟩ := List.exists_cons_of_ne_nil ht
  rw [List.cons_append] at h ⊢
  rw [scan, h]
  simp

theorem longest_inclusion_eq_zero (h : c ≠ '#') : longest (pattern .inclusion) (c :: s) = 0 := by
  refine longest_keyword_eq_zero (not_prefix_of_head (by decide) ?_)
  rintro ⟨⟩
  exact h rfl

theorem longest_usingNamespace_eq_zero (h : c ≠ 'u') :
    longest (pattern .usingNamespace) (c :: s) = 0 := by
  refine longest_keyword_eq_zero (not_prefix_of_head (by decide) ?_)
  rintro ⟨⟩
  exact h rfl

theorem longest_package_eq_zero (h : c ≠ 'p') : longest (pattern .package) (c :: s) = 0 := by
  refine longest_keyword_eq_zero (not_prefix_of_head (by decide) ?_)
  rintro ⟨⟩
  exact h rfl

theorem longest_space_le (s : Str) : longest (pattern .space) s ≤ 1 := longest_char_le isspace s

theorem longest_any_le (s : Str) : longest (pattern .any) s ≤ 1 := longest_char_le (· ≠ '\n') s

/-- A character that begins neither a word nor a number nor a directive. -/
structure Alone (c : Char) : Prop where
  head : isIdentifierHead c = false
  hash : c ≠ '#'
  number : ¬ (c = '+' ∨ c = '-' ∨ c.isDigit = true)

theorem Alone.longest_lt (h : Alone c) :
    ∀ r ∈ [Rule.inclusion, .usingNamespace, .package, .identifier, .integerLiteral],
      longest (pattern r) (c :: s) < 1 := by
  have hne : ∀ d, isIdentifierHead d = true → c ≠ d := by
    rintro d hd rfl
    rw [h.head] at hd
    cases hd
  simp only [List.forall_mem_cons, Nat.lt_one_iff]
  exact ⟨longest_inclusion_eq_zero h.hash, longest_usingNamespace_eq_zero (hne 'u' (by decide)),
    longest_package_eq_zero (hne 'p' (by decide)), longest_identifier_eq_zero h.head,
    longest_integerLiteral_eq_zero h.number, List.forall_mem_nil _⟩

theorem alone_of_isspace (h : isspace c = true) : Alone c := by
  simp only [isspace, Bool.or_eq_true, decide_eq_true_eq] at h
  rcases h with ((((rfl | rfl) | rfl) | rfl) | rfl) | rfl <;> exact ⟨by decide, by decide, by decide⟩

/-- Blanks between two lexemes. -/
theorem scan_spaces {ws : Str} (hws : ws.all isspace = true) (s : Str) :
    scan .initial d (ws ++ s) = scan .initial d s := by
  induction ws with
  | nil => rfl
  | cons c ws ih =>
    rw [List.all_cons, Bool.and_eq_true] at hws
    have hspace : longest (pattern .space) (c :: (ws ++ s)) = 1 := by
      rw [pattern, longest_char, if_pos hws.1]
    have hmunch : munch pattern (c :: (ws ++ s)) Start.initial.rules = some (.space, 1) := by
      refine munch_eq [Rule.inclusion, .usingNamespace, .package, .identifier, .integerLiteral]
        [Rule.any] hspace Nat.one_pos (alone_of_isspace hws.1).longest_lt ?_
      rw [List.forall_mem_cons]
      exact ⟨longest_any_le _, List.forall_mem_nil _⟩
    have hturn := scan_of_munch (d := d) (List.cons_ne_nil c []) hmunch
    exact hturn.trans (ih hws.2)

/-- The characters of the grammar. -/
def punctuation : Str := ['\x7b', '\x7d', '(', ')', ',', '=', ';']

theorem of_mem_punctuation (h : c ∈ punctuation) :
    Alone c ∧ isspace c = false ∧ c ≠ '\n' ∧ isPositive c = true := by
  simp only [punctuation, List.mem_cons, List.not_mem_nil, or_false] at h
  rcases h with rfl | rfl | rfl | rfl | rfl | rfl | rfl <;>
    exact ⟨⟨by decide, by decide, by decide⟩, by decide, by decide, by decide⟩

theorem scan_char (hc : c ∈ punctuation) (s : Str) :
    scan .initial d (c :: s) = (scan .initial d s).push (.char c) := by
  obtain ⟨halone, hspace, hnewline, hpositive⟩ := of_mem_punctuation hc
  have hany : longest (pattern .any) (c :: s) = 1 := by
    rw [pattern, longest_char, if_pos (decide_eq_true hnewline)]
  have hmunch : munch pattern (c :: s) Start.initial.rules = some (.any, 1) := by
    refine munch_eq [Rule.inclusion, .usingNamespace, .package, .identifier, .integerLiteral, .space]
      [] hany Nat.one_pos ?_ (List.forall_mem_nil _)
    intro r hr
    rw [← List.mem_reverse] at hr
    rcases List.mem_cons.mp hr with rfl | hr
    · rw [pattern, longest_char, if_neg (by rw [hspace]; exact Bool.false_ne_true)]
      exact Nat.one_pos
    · exact halone.longest_lt r (List.mem_reverse.mpr hr)
  have hturn := scan_of_munch (d := d) (List.cons_ne_nil c []) hmunch
  rw [Rule.act, List.headD_cons, if_pos hpositive] at hturn
  exact hturn

theorem isIdentifierTail_of_isBlank (h : isBlank c = true) : isIdentifierTail c = false := by
  rw [isBlank, Bool.or_eq_true, decide_eq_true_eq, decide_eq_true_eq] at h
  rcases h with rfl | rfl
  · decide
  · decide

/-- The word of a directive is shorter than an identifier that goes on behind it. -/
theorem longest_keyword_lt (hword : word.all isIdentifierTail = true) (ht : t.all isIdentifierTail)
    (hrest : ∀ c ∈ rest.head?, isIdentifierTail c = false) (hpos : t ≠ []) (hne : t ≠ word) :
    longest (keyword word) (t ++ rest) < t.length := by
  by_cases hprefix : word <+: t ++ rest
  · obtain ⟨more, rfl⟩ := prefix_of_append hword hrest hprefix
    cases more with
    | nil => exact absurd (List.append_nil word) hne
    | cons e more =>
      have he : isBlank e = false := by
        rw [List.all_append, List.all_cons, Bool.and_eq_true, Bool.and_eq_true] at ht
        refine Bool.eq_false_iff.mpr fun hblank => ?_
        rw [isIdentifierTail_of_isBlank hblank] at ht
        exact absurd ht.2.1 Bool.false_ne_true
      have hlongest : longest (keyword word) (word ++ [] ++ (e :: more ++ rest)) =
          word.length + 0 := longest_keyword rfl fun c hc => by cases hc; exact he
      rw [List.append_nil, ← List.append_assoc] at hlongest
      rw [hlongest, List.length_append, List.length_cons]
      omega
  · rw [longest_keyword_eq_zero hprefix]
    exact List.length_pos_iff.mpr hpos

theorem all_of_identifier (h : identifier t = true) : t ≠ [] ∧ t.all isIdentifierTail = true := by
  cases t with
  | nil => cases h
  | cons c t =>
    rw [identifier, Bool.and_eq_true] at h
    refine ⟨List.cons_ne_nil _ _, ?_⟩
    rw [List.all_cons, h.2, Bool.and_true]
    rw [isIdentifierHead, Bool.or_eq_true] at h
    rw [isIdentifierTail, Char.isAlphanum]
    rcases h.1 with hc | hc
    · rw [hc, Bool.true_or, Bool.true_or]
    · rw [hc, Bool.or_true]

theorem not_number_of_isIdentifierHead (h : isIdentifierHead c = true) :
    ¬ (c = '+' ∨ c = '-' ∨ c.isDigit = true) := by
  rintro (rfl | rfl | hdigit)
  · exact absurd h (by decide)
  · exact absurd h (by decide)
  · simp only [isIdentifierHead, Char.isAlpha, Char.isUpper, Char.isLower, Bool.or_eq_true,
      Bool.and_eq_true, decide_eq_true_eq, ge_iff_le, UInt32.le_iff_toNat_le] at h
    simp only [Char.isDigit, Bool.and_eq_true, decide_eq_true_eq, ge_iff_le,
      UInt32.le_iff_toNat_le] at hdigit
    have hends : '9'.val.toNat = 57 ∧ 'a'.val.toNat = 97 ∧ 'A'.val.toNat = 65 := by decide
    rcases h with (h | h) | rfl
    · omega
    · omega
    · exact absurd hdigit.2 (by decide)

/-- A word of the file, unless a directive is read there. -/
theorem scan_identifier (ht : identifier t = true) (hpackage : t ≠ "package".toList)
    (hrest : ∀ c ∈ rest.head?, isIdentifierTail c = false)
    (husing : ¬ "using namespace".toList <+: t ++ rest) :
    scan .initial d (t ++ rest) = (scan .initial d rest).push (wordToken t) := by
  obtain ⟨hne, hall⟩ := all_of_identifier ht
  have hpos := List.length_pos_iff.mpr hne
  have hinclusion : ¬ "#include".toList <+: t ++ rest := by
    cases t with
    | nil => cases ht
    | cons c t =>
      refine not_prefix_of_head (by decide) ?_
      rintro ⟨⟩
      exact absurd ht Bool.false_ne_true
  have hinteger : longest integerLiteral (t ++ rest) = 0 := by
    cases t with
    | nil => cases ht
    | cons c t =>
      rw [identifier, Bool.and_eq_true] at ht
      exact longest_integerLiteral_eq_zero (not_number_of_isIdentifierHead ht.1)
  have hmunch : munch pattern (t ++ rest) Start.initial.rules = some (.identifier, t.length) := by
    refine munch_eq [Rule.inclusion, .usingNamespace, .package] [Rule.integerLiteral, .space, .any]
      (longest_identifier ht hrest) hpos ?_ ?_
    · simp only [List.forall_mem_cons]
      exact ⟨(longest_keyword_eq_zero hinclusion).trans_lt hpos,
        (longest_keyword_eq_zero husing).trans_lt hpos,
        longest_keyword_lt (by decide) hall hrest hne hpackage, List.forall_mem_nil _⟩
    · simp only [List.forall_mem_cons]
      exact ⟨hinteger.trans_le (Nat.zero_le _), Nat.le_trans (longest_space_le _) hpos,
        Nat.le_trans (longest_any_le _) hpos, List.forall_mem_nil _⟩
  exact scan_of_munch hne hmunch

theorem scan_number (ht : integerLiteral t = true)
    (hrest : ∀ c ∈ rest.head?, isIdentifierTail c = false) :
    scan .initial d (t ++ rest) = (scan .initial d rest).push (.number t) := by
  cases t with
  | nil => exact absurd ht (by decide)
  | cons c t =>
    have hc := head_of_integerLiteral ht
    have hpos : 0 < (c :: t).length := Nat.succ_pos _
    have hhead : isIdentifierHead c = false :=
      Bool.eq_false_iff.mpr fun hhead => not_number_of_isIdentifierHead hhead hc
    have hne : ∀ e, ¬ (e = '+' ∨ e = '-' ∨ e.isDigit = true) → c ≠ e := by
      rintro e he rfl
      exact he hc
    have hmunch : munch pattern (c :: t ++ rest) Start.initial.rules =
        some (.integerLiteral, (c :: t).length) := by
      refine munch_eq [Rule.inclusion, .usingNamespace, .package, .identifier] [Rule.space, .any]
        (longest_integerLiteral ht hrest) hpos ?_ ?_
      · simp only [List.forall_mem_cons]
        exact ⟨(longest_inclusion_eq_zero (hne '#' (by decide))).trans_lt hpos,
          (longest_usingNamespace_eq_zero (hne 'u' (by decide))).trans_lt hpos,
          (longest_package_eq_zero (hne 'p' (by decide))).trans_lt hpos,
          (longest_identifier_eq_zero hhead).trans_lt hpos, List.forall_mem_nil _⟩
      · simp only [List.forall_mem_cons]
        exact ⟨Nat.le_trans (longest_space_le _) hpos, Nat.le_trans (longest_any_le _) hpos,
          List.forall_mem_nil _⟩
    exact scan_of_munch (List.cons_ne_nil c t) hmunch

/-- A word of a directive leaves `INITIAL`, with the blanks behind it. -/
theorem scan_keyword (before after : List Rule) (hpattern : pattern rule = keyword word)
    (hrules : Start.initial.rules = before ++ rule :: after) (hword : word ≠ [])
    (hblanks : blanks.all isBlank = true) (hrest : ∀ c ∈ rest.head?, isBlank c = false)
    (hbefore : ∀ r ∈ before, longest (pattern r) (word ++ blanks ++ rest) = 0)
    (hafter : ∀ r ∈ after, longest (pattern r) (word ++ blanks ++ rest) ≤ word.length) :
    scan .initial d (word ++ blanks ++ rest) =
      rule.act d (word ++ blanks) fun start d => scan start d rest := by
  have hpos := List.length_pos_iff.mpr hword
  have hlongest : longest (pattern rule) (word ++ blanks ++ rest) = (word ++ blanks).length := by
    rw [hpattern, longest_keyword hblanks hrest, List.length_append]
  have hlength : word.length ≤ (word ++ blanks).length := by
    rw [List.length_append]
    exact Nat.le_add_right _ _
  refine scan_of_munch (List.append_ne_nil_of_left_ne_nil hword _) ?_
  rw [hrules]
  refine munch_eq before after hlongest (Nat.lt_of_lt_of_le hpos hlength) ?_ ?_
  · exact fun r hr => (hbefore r hr).trans_lt (Nat.lt_of_lt_of_le hpos hlength)
  · exact fun r hr => Nat.le_trans (hafter r hr) hlength

theorem enclosed_eq_false {o e : Char} {body more : Str} (hmore : more ≠ []) :
    enclosed o e (o :: (body ++ e :: more)) = false := by
  have hdrop : (body ++ e :: more).dropLast = body ++ e :: more.dropLast := by
    rw [List.dropLast_append_of_ne_nil (List.cons_ne_nil e more), List.dropLast_cons_of_ne_nil hmore]
  rw [enclosed, hdrop, List.all_append, List.all_cons]
  simp

/-- The two ways to write the file of a directive. -/
def Quotes (o e : Char) : Prop := o = '"' ∧ e = '"' ∨ o = '<' ∧ e = '>'

theorem Quotes.pattern_eq {o e : Char} (h : Quotes o e) (t : Str) :
    pattern .inclusionText (o :: t) = enclosed o e (o :: t) := by
  rcases h with ⟨rfl, rfl⟩ | ⟨rfl, rfl⟩
  · exact Bool.or_false _
  · exact Bool.false_or _

theorem scan_inclusionText {o e : Char} {file : Str} (hquotes : Quotes o e)
    (hfile : ∀ c ∈ file, c ≠ e ∧ c ≠ '\x00') :
    scan .incl d (o :: (file ++ [e]) ++ rest) = scan .initial (d.addInclude file) rest := by
  have hlongest : longest (pattern .inclusionText) (o :: (file ++ [e]) ++ rest) =
      (o :: (file ++ [e])).length := by
    refine longest_append ?_ fun more hmore _ => ?_
    · rw [hquotes.pattern_eq]
      simp only [enclosed, decide_true, List.getLast?_concat, List.dropLast_concat, Bool.true_and,
        List.all_eq_true, decide_eq_true_eq]
      exact fun c hc => (hfile c hc).1
    · rw [List.cons_append, hquotes.pattern_eq, List.append_assoc, List.singleton_append]
      exact enclosed_eq_false hmore
  have hmunch : munch pattern (o :: (file ++ [e]) ++ rest) Start.incl.rules =
      some (.inclusionText, (o :: (file ++ [e])).length) := by
    refine munch_eq [] [Rule.inclusionNewline] hlongest (Nat.succ_pos _) (List.forall_mem_nil _) ?_
    rw [List.forall_mem_singleton]
    refine longest_le fun t _ ht => ?_
    rw [of_decide_eq_true ht]
    exact Nat.succ_pos _
  have hends : o ≠ '\x00' ∧ e ≠ '\x00' := by
    rcases hquotes with ⟨rfl, rfl⟩ | ⟨rfl, rfl⟩
    · decide
    · decide
  have htext : (o :: (file ++ [e])).takeWhile (· ≠ '\x00') = o :: (file ++ [e]) := by
    rw [List.takeWhile_eq_self_iff]
    simp only [List.mem_cons, List.mem_append, List.not_mem_nil, or_false, decide_eq_true_eq]
    rintro c (rfl | hc | rfl)
    · exact hends.1
    · exact (hfile c hc).2
    · exact hends.2
  have hturn := scan_of_munch (d := d) (List.cons_ne_nil _ _) hmunch
  rw [hturn, Rule.act, htext]
  simp

/-- The name of a directive. -/
theorem scan_identifierSemicolon (newline : Rule) {name : Str}
    (hrules : start.rules = [rule, newline])
    (hpattern : pattern rule = identifierSemicolon)
    (hnewline : pattern newline = fun t => decide (t = ['\n']))
    (hname : identifier name = true) :
    scan start d (name ++ [';'] ++ rest) =
      rule.act d (name ++ [';']) fun start d => scan start d rest := by
  have hlongest : longest (pattern rule) (name ++ [';'] ++ rest) = (name ++ [';']).length := by
    rw [hpattern]
    refine longest_append ?_ fun more hmore _ => ?_
    · rw [identifierSemicolon, List.getLast?_concat, List.dropLast_concat, hname]
      rfl
    · rw [identifierSemicolon, List.append_assoc, List.singleton_append,
        List.dropLast_append_of_ne_nil (List.cons_ne_nil _ _), List.dropLast_cons_of_ne_nil hmore,
        Bool.and_eq_false_iff]
      refine .inr (Bool.eq_false_iff.mpr fun hlonger => ?_)
      have hall := (all_of_identifier hlonger).2
      rw [List.all_append, List.all_cons, Bool.and_eq_true, Bool.and_eq_true] at hall
      exact absurd hall.2.1 (by decide)
  refine scan_of_munch (List.concat_ne_nil _ _) ?_
  rw [hrules]
  refine munch_eq [] [newline] hlongest ?_ (List.forall_mem_nil _) ?_
  · rw [List.length_append]
    exact Nat.succ_pos _
  · rw [List.forall_mem_singleton, hnewline]
    refine longest_le fun t _ ht => ?_
    rw [of_decide_eq_true ht, List.length_append]
    exact Nat.le_add_left _ _

theorem not_isBlank_of_identifier {name : Str} (hname : identifier name = true) :
    ∀ c ∈ (name ++ [';'] ++ rest).head?, isBlank c = false := by
  obtain ⟨hne, hall⟩ := all_of_identifier hname
  obtain ⟨e, name, rfl⟩ := List.exists_cons_of_ne_nil hne
  rintro c ⟨⟩
  refine Bool.eq_false_iff.mpr fun hblank => ?_
  have htail := List.all_eq_true.mp hall e (List.mem_cons_self ..)
  rw [isIdentifierTail_of_isBlank hblank] at htail
  cases htail

theorem scan_inclusion {o e : Char} {file : Str} (hblanks : blanks.all isBlank = true)
    (hquotes : Quotes o e) (hfile : ∀ c ∈ file, c ≠ e ∧ c ≠ '\x00') :
    scan .initial d ("#include".toList ++ blanks ++ (o :: (file ++ [e]) ++ rest)) =
      scan .initial (d.addInclude file) rest := by
  have hopening : ∀ c ∈ (o :: (file ++ [e]) ++ rest).head?, isBlank c = false := by
    rintro c ⟨⟩
    rcases hquotes with ⟨rfl, -⟩ | ⟨rfl, -⟩
    · decide
    · decide
  refine (scan_keyword [] [.usingNamespace, .package, .identifier, .integerLiteral, .space, .any]
    rfl rfl (by decide) hblanks hopening (List.forall_mem_nil _) ?_).trans
    (scan_inclusionText hquotes hfile)
  simp only [List.forall_mem_cons]
  have hle : 1 ≤ "#include".toList.length := by decide
  exact ⟨(longest_usingNamespace_eq_zero (by decide)).trans_le (Nat.zero_le _),
    (longest_package_eq_zero (by decide)).trans_le (Nat.zero_le _),
    (longest_identifier_eq_zero (by decide)).trans_le (Nat.zero_le _),
    (longest_integerLiteral_eq_zero (by decide)).trans_le (Nat.zero_le _),
    Nat.le_trans (longest_space_le _) hle, Nat.le_trans (longest_any_le _) hle,
    List.forall_mem_nil _⟩

theorem scan_usingNamespace {name : Str} (hblanks : blanks.all isBlank = true)
    (hname : identifier name = true) :
    scan .initial d ("using namespace".toList ++ blanks ++ (name ++ [';'] ++ rest)) =
      scan .initial (d.addUsingNS name) rest := by
  have hturn : scan .usingns d (name ++ [';'] ++ rest) = scan .initial (d.addUsingNS name) rest := by
    rw [scan_identifierSemicolon .usingNewline rfl rfl rfl hname, Rule.act,
      List.dropLast_concat]
  have hsplit : "using namespace".toList = "using".toList ++ " namespace".toList := by decide
  refine (scan_keyword [.inclusion] [.package, .identifier, .integerLiteral, .space, .any]
    rfl rfl (by decide) hblanks (not_isBlank_of_identifier hname) ?_ ?_).trans hturn
  · rw [List.forall_mem_singleton]
    exact longest_inclusion_eq_zero (by decide)
  · simp only [List.forall_mem_cons]
    have hidentifier : longest identifier ("using namespace".toList ++ blanks ++
        (name ++ [';'] ++ rest)) = "using".toList.length := by
      rw [hsplit, List.append_assoc, List.append_assoc]
      refine longest_identifier (by decide) ?_
      rintro c ⟨⟩
      decide
    have hle : 1 ≤ "using namespace".toList.length := by decide
    exact ⟨(longest_package_eq_zero (by decide)).trans_le (Nat.zero_le _),
      hidentifier.trans_le (by decide),
      (longest_integerLiteral_eq_zero (by decide)).trans_le (Nat.zero_le _),
      Nat.le_trans (longest_space_le _) hle, Nat.le_trans (longest_any_le _) hle,
      List.forall_mem_nil _⟩

theorem scan_package {name : Str} (hblanks : blanks.all isBlank = true) (hne : blanks ≠ [])
    (hname : identifier name = true) :
    scan .initial d ("package".toList ++ blanks ++ (name ++ [';'] ++ rest)) =
      scan .initial (d.setNS name) rest := by
  have hturn : scan .ns d (name ++ [';'] ++ rest) = scan .initial (d.setNS name) rest := by
    rw [scan_identifierSemicolon .packageNewline rfl rfl rfl hname, Rule.act,
      List.dropLast_concat]
  refine (scan_keyword [.inclusion, .usingNamespace] [.identifier, .integerLiteral, .space, .any]
    rfl rfl (by decide) hblanks (not_isBlank_of_identifier hname) ?_ ?_).trans hturn
  · simp only [List.forall_mem_cons]
    exact ⟨longest_inclusion_eq_zero (by decide), longest_usingNamespace_eq_zero (by decide),
      List.forall_mem_nil _⟩
  · simp only [List.forall_mem_cons]
    have hidentifier : longest identifier ("package".toList ++ blanks ++
        (name ++ [';'] ++ rest)) = "package".toList.length := by
      rw [List.append_assoc]
      refine longest_identifier (by decide) ?_
      obtain ⟨e, blanks, rfl⟩ := List.exists_cons_of_ne_nil hne
      rintro c ⟨⟩
      exact isIdentifierTail_of_isBlank (List.all_eq_true.mp hblanks _ (List.mem_cons_self ..))
    have hle : 1 ≤ "package".toList.length := by decide
    exact ⟨Nat.le_of_eq hidentifier,
      (longest_integerLiteral_eq_zero (by decide)).trans_le (Nat.zero_le _),
      Nat.le_trans (longest_space_le _) hle, Nat.le_trans (longest_any_le _) hle,
      List.forall_mem_nil _⟩

end Turns

/-! ## Lexemes -/

/-- What a file is made of. -/
inductive Lexeme where
  | inclusion (file : Str)
  | usingNamespace (ns : Str)
  | package (ns : Str)
  | token (t : Token)
  deriving DecidableEq, Repr

namespace Lexeme

/-- What a lexeme changes of the directives. -/
def direct (d : Directives) : Lexeme → Directives
  | .inclusion file => d.addInclude file
  | .usingNamespace ns => d.addUsingNS ns
  | .package ns => d.setNS ns
  | .token _ => d

def token? : Lexeme → Option Token
  | .token t => some t
  | _ => none

/-- A text of a lexeme, in front of what follows. -/
inductive Spelled : Lexeme → Str → Str → Prop
  | inclusion (blanks file : Str) {rest : Str} {o e : Char} (hblanks : blanks.all isBlank = true)
      (hquotes : Quotes o e) (hfile : ∀ c ∈ file, c ≠ e ∧ c ≠ '\x00') :
      Spelled (.inclusion file) ("#include".toList ++ blanks ++ o :: (file ++ [e])) rest
  | usingNamespace (blanks ns : Str) {rest : Str} (hblanks : blanks.all isBlank = true)
      (hns : identifier ns = true) :
      Spelled (.usingNamespace ns) ("using namespace".toList ++ blanks ++ (ns ++ [';'])) rest
  | package (blanks ns : Str) {rest : Str} (hblanks : blanks.all isBlank = true) (hne : blanks ≠ [])
      (hns : identifier ns = true) :
      Spelled (.package ns) ("package".toList ++ blanks ++ (ns ++ [';'])) rest
  | word (t : Str) {rest : Str} (ht : identifier t = true) (hpackage : t ≠ "package".toList)
      (husing : ¬ "using namespace".toList <+: t ++ rest)
      (hrest : ∀ c ∈ rest.head?, isIdentifierTail c = false) :
      Spelled (.token (wordToken t)) t rest
  | number (t : Str) {rest : Str} (ht : integerLiteral t = true)
      (hrest : ∀ c ∈ rest.head?, isIdentifierTail c = false) :
      Spelled (.token (.number t)) t rest
  | char (c : Char) {rest : Str} (hc : c ∈ punctuation) : Spelled (.token (.char c)) [c] rest

end Lexeme

/-- A file that is spelled as lexemes, with blanks between them. -/
inductive Spelled : List Lexeme → Str → Prop
  | nil (ws : Str) (hws : ws.all isspace = true) : Spelled [] ws
  | cons {l : Lexeme} {ls : List Lexeme} {t rest : Str} (ws : Str) (hws : ws.all isspace = true)
      (hl : l.Spelled t rest) (hrest : Spelled ls rest) : Spelled (l :: ls) (ws ++ (t ++ rest))

/-- What a lexeme adds to what is read behind it. -/
def Lexeme.read (l : Lexeme) (d : Directives) (next : Directives → Scanned) : Scanned :=
  match l.token? with
  | none => next (l.direct d)
  | some t => (next (l.direct d)).push t

section Spelling

variable {d : Directives} {l : Lexeme} {ls : List Lexeme} {s t rest : Str}

/-- A lexeme is read back. -/
theorem scan_lexeme (h : l.Spelled t rest) :
    scan .initial d (t ++ rest) = l.read d fun d => scan .initial d rest := by
  cases h with
  | inclusion blanks file hblanks hquotes hfile =>
    rw [List.append_assoc]
    exact scan_inclusion hblanks hquotes hfile
  | usingNamespace blanks ns hblanks hns =>
    rw [List.append_assoc]
    exact scan_usingNamespace hblanks hns
  | package blanks ns hblanks hne hns =>
    rw [List.append_assoc]
    exact scan_package hblanks hne hns
  | word t ht hpackage husing hrest => exact scan_identifier ht hpackage hrest husing
  | number t ht hrest => exact scan_number ht hrest
  | char c hc => exact scan_char hc rest

/-- **A file that is spelled as lexemes** is read back to its end. -/
theorem scan_spelled (h : Spelled ls s) (d : Directives) :
    scan .initial d s = ⟨ls.foldl Lexeme.direct d, ls.filterMap Lexeme.token?, .eof⟩ := by
  induction h generalizing d with
  | nil ws hws =>
    have hscan := scan_spaces (d := d) hws []
    rw [List.append_nil] at hscan
    rw [hscan, scan]
    rfl
  | @cons l ls t rest ws hws hl _ ih =>
    rw [scan_spaces hws, scan_lexeme hl, Lexeme.read, List.foldl_cons, List.filterMap_cons]
    cases l.token? with
    | none => rw [ih]
    | some t =>
      rw [ih]
      rfl

end Spelling

end StormNet.RpcGenerator
