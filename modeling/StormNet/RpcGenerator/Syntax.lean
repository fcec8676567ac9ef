/-
  RpcGenerator/Syntax.lean --- the grammar of `rpc_generator/syntax.y`, from the tokens of a file
  to the services.

  The parser is an automaton that reads one token at a time; at each place it knows what may
  come.  An error ends the program, with the first token that may not come.
-/
import StormNet.RpcGenerator.Lexeme

set_option autoImplicit false

namespace StormNet.RpcGenerator

open StormNet.Util UtilString

/-! ## The source -/

/-- The tokens without their values. -/
inductive Symbol where
  | TOK_SERVICE
  | TOK_IDENTIFIER
  | TOK_NUMBER_LITERAL
  | char (c : Char)
  deriving DecidableEq, Repr

def Token.symbol : Token → Symbol
  | .service => .TOK_SERVICE
  | .identifier _ => .TOK_IDENTIFIER
  | .number _ => .TOK_NUMBER_LITERAL
  | .char c => .char c

/-- `yylval`, where the rules have an action with it. -/
def Token.value : Token → List Str
  | .identifier sval => [sval]
  | .number yytext => [yytext]
  | _ => []

/-- The right side of `func_def`. -/
def funcDefSymbols : List Symbol :=
  [.TOK_IDENTIFIER, .char '(', .TOK_IDENTIFIER, .TOK_IDENTIFIER, .char ',', .TOK_IDENTIFIER,
    .TOK_IDENTIFIER, .char ')', .char '=', .TOK_NUMBER_LITERAL, .char ';']

/-- `$1`, `$3`, `$4`, `$6`, `$7` and `$10` of a `func_def`. -/
def FuncDef.ofValues : List Str → Option FuncDef
  | [funcName, inputClassName, inputParamName, outputClassName, outputParamName, literal] =>
      some ⟨funcName, inputClassName, inputParamName, outputClassName, outputParamName, literal⟩
  | _ => none

/-- Where the parser is. -/
inductive Place where
  /-- between two services -/
  | definitions
  /-- behind `service` -/
  | service
  /-- behind the name of a service -/
  | named
  /-- between two functions -/
  | funcList
  /-- in a function, with the symbols that are missing and the values that were read -/
  | funcDef (missing : List Symbol) (values : List Str)
  /-- behind the closing brace -/
  | closed
  deriving DecidableEq, Repr

/-- `yyerror`. -/
def syntaxError : Str := "syntax error".toList

/-- `func_def` is complete, and its action is run. -/
def reduceFuncDef (g : Parser) (values : List Str) : Except Str (Parser × Place) :=
  match FuncDef.ofValues values with
  | some d => (funcDef g d).map fun g => (g, .funcList)
  -- the six values are there
  | none => .error syntaxError

/-- A token inside of a function. -/
def shiftFuncDef (g : Parser) (missing : List Symbol) (values : List Str) (t : Token) :
    Except Str (Parser × Place) :=
  match missing with
  | [] => .error syntaxError
  | symbol :: missing =>
      if t.symbol = symbol then
        if missing.isEmpty then reduceFuncDef g (values ++ t.value)
        else .ok (g, .funcDef missing (values ++ t.value))
      else .error syntaxError

/-- A token. -/
def shift : Parser × Place → Token → Except Str (Parser × Place)
  | (g, .definitions), .service => .ok (g, .service)
  | (g, .service), .identifier name => .ok (g.addNewService name, .named)
  | (g, .named), .char '\x7b' => .ok (g, .funcList)
  | (g, .funcList), .char '\x7d' => .ok (g, .closed)
  | (g, .funcList), t => shiftFuncDef g funcDefSymbols [] t
  | (g, .funcDef missing values), t => shiftFuncDef g missing values t
  | (g, .closed), .char ';' => .ok ({ g with m_curService := none }, .definitions)
  | _, _ => .error syntaxError

/-- What becomes of the program. -/
inductive Outcome where
  /-- `yyparse` returns 0 -/
  | parsed (directives : Directives) (m_services : List Service)
  /-- `exit(1)` behind a message -/
  | error (err : Str)
  | terminate
  | hang

/-- `yyparse()`: the scanner is asked for one token at a time. -/
def yyparse (s : Str) : Outcome :=
  let r := scan .initial ⟨[], [], []⟩ s
  match r.tokens.foldlM shift (⟨[], none⟩, .definitions) with
  | .error err => .error err
  | .ok (g, place) =>
      match r.finish with
      | .error err => .error err
      | .terminate => .terminate
      | .hang => .hang
      | .eof => if place = .definitions then .parsed r.directives g.m_services
          else .error syntaxError

/-! ## The tokens of a definition -/

def FuncDef.tokens (d : FuncDef) : List Token :=
  [.identifier d.funcName, .char '(', .identifier d.inputClassName, .identifier d.inputParamName,
    .char ',', .identifier d.outputClassName, .identifier d.outputParamName, .char ')', .char '=',
    .number d.literal, .char ';']

/-- A definition up to its closing brace. -/
def RpcDef.begun (d : RpcDef) : List Token :=
  [.service, .identifier d.service, .char '\x7b'] ++ d.funcList.flatMap FuncDef.tokens

def RpcDef.tokens (d : RpcDef) : List Token := d.begun ++ [.char '\x7d', .char ';']

/-- The parser inside of a definition. -/
def opened (defs : List RpcDef) (d : RpcDef) : Parser where
  m_services := defs.map RpcDef.toService ++ [d.toService]
  m_curService := some defs.length

/-- What the tokens so far are, wherever the parser is. -/
def Read (ts : List Token) : Parser × Place → Prop
  | (g, .definitions) => ∃ defs : List RpcDef, ts = defs.flatMap RpcDef.tokens ∧
      g = ⟨defs.map RpcDef.toService, none⟩
  | (g, .service) => ∃ defs : List RpcDef, ts = defs.flatMap RpcDef.tokens ++ [.service] ∧
      g = ⟨defs.map RpcDef.toService, none⟩
  | (g, .named) => ∃ (defs : List RpcDef) (name : Str),
      ts = defs.flatMap RpcDef.tokens ++ [.service, .identifier name] ∧ g = opened defs ⟨name, []⟩
  | (g, .funcList) => ∃ (defs : List RpcDef) (d : RpcDef),
      ts = defs.flatMap RpcDef.tokens ++ d.begun ∧ g = opened defs d
  | (g, .funcDef missing values) => ∃ (defs : List RpcDef) (d : RpcDef) (stack : List Token),
      ts = defs.flatMap RpcDef.tokens ++ d.begun ++ stack ∧ g = opened defs d ∧
        stack.map Token.symbol ++ missing = funcDefSymbols ∧ values = stack.flatMap Token.value
  | (g, .closed) => ∃ (defs : List RpcDef) (d : RpcDef),
      ts = defs.flatMap RpcDef.tokens ++ d.begun ++ [.char '\x7d'] ∧ g = opened defs d

/-! ## What is accepted -/

section Grammar

variable {g : Parser} {d : RpcDef} {fd : FuncDef} {defs : List RpcDef} {t : Token}
  {ts stack : List Token} {missing : List Symbol} {values : List Str} {st st' : Parser × Place}

theorem Token.exists_of_identifier (h : t.symbol = .TOK_IDENTIFIER) : ∃ s, t = .identifier s := by
  cases t with
  | identifier s => exact ⟨s, rfl⟩
  | _ => cases h

theorem Token.exists_of_number (h : t.symbol = .TOK_NUMBER_LITERAL) : ∃ s, t = .number s := by
  cases t with
  | number s => exact ⟨s, rfl⟩
  | _ => cases h

theorem Token.eq_char {c : Char} (h : t.symbol = .char c) : t = .char c := by
  cases t with
  | char e =>
    cases h
    rfl
  | _ => cases h

/-- Tokens with the symbols of a function are those of a function. -/
theorem tokens_of_symbols (h : stack.map Token.symbol = funcDefSymbols) :
    ∃ d : FuncDef, stack = d.tokens := by
  simp only [funcDefSymbols, List.map_eq_cons_iff, List.map_eq_nil_iff] at h
  obtain ⟨t1, _, rfl, h1, t2, _, rfl, h2, t3, _, rfl, h3, t4, _, rfl, h4, t5, _, rfl, h5, t6, _,
    rfl, h6, t7, _, rfl, h7, t8, _, rfl, h8, t9, _, rfl, h9, t10, _, rfl, h10, t11, _, rfl, h11,
    rfl⟩ := h
  obtain ⟨funcName, rfl⟩ := Token.exists_of_identifier h1
  obtain ⟨inputClassName, rfl⟩ := Token.exists_of_identifier h3
  obtain ⟨inputParamName, rfl⟩ := Token.exists_of_identifier h4
  obtain ⟨outputClassName, rfl⟩ := Token.exists_of_identifier h6
  obtain ⟨outputParamName, rfl⟩ := Token.exists_of_identifier h7
  obtain ⟨literal, rfl⟩ := Token.exists_of_number h10
  rw [Token.eq_char h2, Token.eq_char h5, Token.eq_char h8, Token.eq_char h9, Token.eq_char h11]
  exact ⟨⟨funcName, inputClassName, inputParamName, outputClassName, outputParamName, literal⟩, rfl⟩

theorem ofValues_tokens (fd : FuncDef) :
    FuncDef.ofValues (fd.tokens.flatMap Token.value) = some fd := rfl

/-- A function goes to the definition that is open. -/
theorem funcDef_opened (defs : List RpcDef) (d : RpcDef) (fd : FuncDef) :
    funcDef (opened defs d) fd =
      .ok (opened defs { d with funcList := d.funcList ++ [fd] }) := by
  have hlast := funcDef_last (defs.map RpcDef.toService) d.toService fd
  rw [List.length_map] at hlast
  rw [opened, hlast]
  simp [opened, RpcDef.toService]

theorem addNewService_eq (defs : List RpcDef) (name : Str) :
    Parser.addNewService ⟨defs.map RpcDef.toService, none⟩ name = opened defs ⟨name, []⟩ := by
  simp [opened, Parser.addNewService, RpcDef.toService]

theorem begun_concat (d : RpcDef) (fd : FuncDef) :
    RpcDef.begun { d with funcList := d.funcList ++ [fd] } = d.begun ++ fd.tokens := by
  simp [RpcDef.begun]

/-- One more token of a function. -/
theorem read_shiftFuncDef (hsymbols : stack.map Token.symbol ++ missing = funcDefSymbols)
    (h : shiftFuncDef (opened defs d) missing (stack.flatMap Token.value) t = .ok st') :
    Read (defs.flatMap RpcDef.tokens ++ d.begun ++ stack ++ [t]) st' := by
  cases missing with
  | nil => cases h
  | cons symbol missing =>
    have hvalues : stack.flatMap Token.value ++ t.value = (stack ++ [t]).flatMap Token.value := by
      rw [List.flatMap_append, List.flatMap_singleton]
    rw [shiftFuncDef, hvalues] at h
    split at h
    · rename_i htoken
      have hshifted : (stack ++ [t]).map Token.symbol ++ missing = funcDefSymbols := by
        rw [List.map_append, List.map_singleton, htoken, List.append_assoc,
          List.singleton_append, hsymbols]
      cases missing with
      | nil =>
        rw [List.append_nil] at hshifted
        obtain ⟨fd, hfd⟩ := tokens_of_symbols hshifted
        rw [hfd, List.isEmpty_nil, if_pos rfl, reduceFuncDef, ofValues_tokens] at h
        simp only [funcDef_opened] at h
        cases h
        refine ⟨defs, _, ?_, rfl⟩
        rw [begun_concat, List.append_assoc _ stack, hfd, List.append_assoc]
      | cons next missing =>
        cases h
        exact ⟨defs, d, stack ++ [t], by rw [← List.append_assoc], rfl, hshifted, rfl⟩
    · cases h

/-- One token: what is read stays what the grammar says. -/
theorem read_shift (hread : Read ts st) (h : shift st t = .ok st') : Read (ts ++ [t]) st' := by
  unfold shift at h
  split at h
  · cases h
    obtain ⟨defs, rfl, rfl⟩ := hread
    exact ⟨defs, rfl, rfl⟩
  · rename_i name
    cases h
    obtain ⟨defs, rfl, rfl⟩ := hread
    exact ⟨defs, name, by rw [List.append_assoc, List.singleton_append], addNewService_eq defs name⟩
  · cases h
    obtain ⟨defs, name, rfl, rfl⟩ := hread
    exact ⟨defs, ⟨name, []⟩, by rw [List.append_assoc]; rfl, rfl⟩
  · cases h
    obtain ⟨defs, d, rfl, rfl⟩ := hread
    exact ⟨defs, d, rfl, rfl⟩
  · obtain ⟨defs, d, rfl, rfl⟩ := hread
    have hshifted : Read (defs.flatMap RpcDef.tokens ++ d.begun ++ [] ++ [t]) st' :=
      read_shiftFuncDef (List.nil_append funcDefSymbols) h
    rwa [List.append_nil] at hshifted
  · obtain ⟨defs, d, stack, rfl, rfl, hsymbols, rfl⟩ := hread
    exact read_shiftFuncDef hsymbols h
  · cases h
    obtain ⟨defs, d, rfl, rfl⟩ := hread
    refine ⟨defs ++ [d], ?_, ?_⟩
    · rw [List.flatMap_append, List.flatMap_singleton, RpcDef.tokens]
      simp only [List.append_assoc, List.singleton_append]
    · simp [opened]
  · cases h

theorem read_run (hread : Read ts st) {rest : List Token}
    (h : rest.foldlM shift st = .ok st') : Read (ts ++ rest) st' := by
  induction rest generalizing ts st with
  | nil =>
    cases h
    rwa [List.append_nil]
  | cons t rest ih =>
    rw [List.foldlM_cons] at h
    cases hshift : shift st t with
    | error err =>
      rw [hshift] at h
      cases h
    | ok next =>
      rw [hshift] at h
      have hall := ih (read_shift hread hshift) h
      rwa [List.append_assoc] at hall

/-- A token of a function that may not come. -/
theorem error_shiftFuncDef {err : Str}
    (hsymbols : stack.map Token.symbol ++ missing = funcDefSymbols)
    (h : shiftFuncDef (opened defs d) missing (stack.flatMap Token.value) t = .error err) :
    err = syntaxError := by
  cases missing with
  | nil =>
    cases h
    rfl
  | cons symbol missing =>
    have hvalues : stack.flatMap Token.value ++ t.value = (stack ++ [t]).flatMap Token.value := by
      rw [List.flatMap_append, List.flatMap_singleton]
    rw [shiftFuncDef, hvalues] at h
    split at h
    · rename_i htoken
      have hshifted : (stack ++ [t]).map Token.symbol ++ missing = funcDefSymbols := by
        rw [List.map_append, List.map_singleton, htoken, List.append_assoc,
          List.singleton_append, hsymbols]
      cases missing with
      | nil =>
        -- the action of a complete function finds the service that is open
        rw [List.append_nil] at hshifted
        obtain ⟨fd, hfd⟩ := tokens_of_symbols hshifted
        rw [hfd, List.isEmpty_nil, if_pos rfl, reduceFuncDef, ofValues_tokens] at h
        simp only [funcDef_opened] at h
        cases h
      | cons next missing => cases h
    · cases h
      rfl

/-- One token: the only error is the one of the grammar. -/
theorem error_shift {err : Str} (hread : Read ts st) (h : shift st t = .error err) :
    err = syntaxError := by
  unfold shift at h
  split at h
  · cases h
  · cases h
  · cases h
  · cases h
  · obtain ⟨defs, d, -, rfl⟩ := hread
    have hsymbols : ([] : List Token).map Token.symbol ++ funcDefSymbols = funcDefSymbols := rfl
    exact error_shiftFuncDef hsymbols h
  · obtain ⟨defs, d, stack, -, rfl, hsymbols, rfl⟩ := hread
    exact error_shiftFuncDef hsymbols h
  · cases h
  · cases h
    rfl

theorem error_run {err : Str} (hread : Read ts st) {rest : List Token}
    (h : rest.foldlM shift st = .error err) : err = syntaxError := by
  induction rest generalizing ts st with
  | nil => cases h
  | cons t rest ih =>
    rw [List.foldlM_cons] at h
    cases hshift : shift st t with
    | error err' =>
      rw [hshift] at h
      cases h
      exact error_shift hread hshift
    | ok next =>
      rw [hshift] at h
      exact ih (read_shift hread hshift) h

theorem shift_funcDef (g : Parser) (fd : FuncDef) :
    fd.tokens.foldlM shift (g, .funcList) = (funcDef g fd).map fun g => (g, .funcList) :=
  bind_pure ((funcDef g fd).map fun g => (g, Place.funcList))

theorem shift_funcList (defs : List RpcDef) (d : RpcDef) (l : List FuncDef) :
    (l.flatMap FuncDef.tokens).foldlM shift (opened defs d, .funcList) =
      .ok (opened defs { d with funcList := d.funcList ++ l }, .funcList) := by
  induction l generalizing d with
  | nil =>
    rw [List.append_nil]
    rfl
  | cons fd l ih =>
    rw [List.flatMap_cons, List.foldlM_append, shift_funcDef, funcDef_opened]
    refine (ih _).trans ?_
    rw [List.append_assoc, List.singleton_append]

/-- The tokens of a definition add its service. -/
theorem shift_rpcDef (defs : List RpcDef) (d : RpcDef) :
    d.tokens.foldlM shift (⟨defs.map RpcDef.toService, none⟩, .definitions) =
      .ok (⟨(defs ++ [d]).map RpcDef.toService, none⟩, .definitions) := by
  have hopen : ([.service, .identifier d.service, .char '\x7b'] : List Token).foldlM shift
      (⟨defs.map RpcDef.toService, none⟩, .definitions) =
        .ok (opened defs ⟨d.service, []⟩, .funcList) := by
    rw [← addNewService_eq]
    rfl
  have hclose : ([.char '\x7d', .char ';'] : List Token).foldlM shift (opened defs d, .funcList) =
      .ok (⟨(defs ++ [d]).map RpcDef.toService, none⟩, .definitions) := by
    rw [List.map_append]
    rfl
  rw [RpcDef.tokens, RpcDef.begun, List.append_assoc, List.foldlM_append, hopen]
  show List.foldlM shift _ (_ ++ _) = _
  rw [List.foldlM_append, shift_funcList]
  exact hclose

theorem shift_definitions (defs : List RpcDef) :
    (defs.flatMap RpcDef.tokens).foldlM shift (⟨[], none⟩, .definitions) =
      .ok (⟨defs.map RpcDef.toService, none⟩, .definitions) := by
  induction defs using List.reverseRecOn with
  | nil => rfl
  | append_singleton defs d ih =>
    rw [List.flatMap_append, List.flatMap_singleton, List.foldlM_append, ih]
    exact shift_rpcDef defs d

/-- The tokens that are accepted, and the services that they become. -/
theorem parses_iff : ts.foldlM shift (⟨[], none⟩, .definitions) = .ok (g, .definitions) ↔
    ∃ defs : List RpcDef, ts = defs.flatMap RpcDef.tokens ∧
      g = ⟨defs.map RpcDef.toService, none⟩ := by
  constructor
  · intro h
    have hstart : Read [] (⟨[], none⟩, .definitions) := ⟨[], rfl, rfl⟩
    exact read_run hstart h
  · rintro ⟨defs, rfl, rfl⟩
    exact shift_definitions defs

end Grammar

/-- **The front end of the generator.**  A file that is spelled as lexemes, in any layout, is
parsed just when its tokens are those of service definitions; then the services are those of
the definitions, function by function, and the directives are all there, in their order.  With
any other tokens the program ends with a syntax error. -/
theorem yyparse_spelled {ls : List Lexeme} {s : Str} (h : Spelled ls s) :
    (∀ (directives : Directives) (services : List Service),
      yyparse s = .parsed directives services ↔
        directives = ls.foldl Lexeme.direct ⟨[], [], []⟩ ∧
        ∃ defs : List RpcDef, ls.filterMap Lexeme.token? = defs.flatMap RpcDef.tokens ∧
          services = defs.map RpcDef.toService) ∧
    ((¬ ∃ defs : List RpcDef, ls.filterMap Lexeme.token? = defs.flatMap RpcDef.tokens) →
      yyparse s = .error syntaxError) := by
  have hparsed : ∀ defs : List RpcDef, ls.filterMap Lexeme.token? = defs.flatMap RpcDef.tokens →
      yyparse s = .parsed (ls.foldl Lexeme.direct ⟨[], [], []⟩) (defs.map RpcDef.toService) := by
    intro defs hdefs
    rw [yyparse, scan_spelled h]
    simp only [hdefs, shift_definitions, if_true]
  have herror : (¬ ∃ defs : List RpcDef,
      ls.filterMap Lexeme.token? = defs.flatMap RpcDef.tokens) → yyparse s = .error syntaxError := by
    intro hnone
    have hstart : Read [] (⟨[], none⟩, .definitions) := ⟨[], rfl, rfl⟩
    rw [yyparse, scan_spelled h]
    cases hrun : (ls.filterMap Lexeme.token?).foldlM shift (⟨[], none⟩, .definitions) with
    | error err => simp only [error_run hstart hrun]
    | ok st =>
      obtain ⟨g, place⟩ := st
      have hplace : place ≠ .definitions := by
        rintro rfl
        obtain ⟨defs, hdefs, -⟩ := parses_iff.mp hrun
        exact hnone ⟨defs, hdefs⟩
      simp only [if_neg hplace]
  refine ⟨fun directives services => ⟨fun heq => ?_, ?_⟩, herror⟩
  · by_cases hdefs : ∃ defs : List RpcDef,
        ls.filterMap Lexeme.token? = defs.flatMap RpcDef.tokens
    · obtain ⟨defs, hdefs⟩ := hdefs
      rw [hparsed defs hdefs] at heq
      cases heq
      exact ⟨rfl, defs, hdefs, rfl⟩
    · rw [herror hdefs] at heq
      cases heq
  · rintro ⟨rfl, defs, hdefs, rfl⟩
    exact hparsed defs hdefs

theorem next_of_decide {rest : Str} (h : (rest.head?.all fun c => !isIdentifierTail c) = true) :
    ∀ c ∈ rest.head?, isIdentifierTail c = false := by
  rintro c hc
  rw [Option.mem_def.mp hc] at h
  simpa using h

/-- A file like `echo.rpc`, with a package. -/
def echoText : Str :=
  "#include <echo.proto>\npackage demo;\n\nservice EchoService \x7b\n".toList ++
    "\tEcho(EchoReq req, EchoAck ack) = 1;\n\x7d;\n".toList

def echoLexemes : List Lexeme :=
  [.inclusion "echo.proto".toList, .package "demo".toList] ++
    (RpcDef.tokens ⟨"EchoService".toList, [echo "1".toList]⟩).map .token

theorem spelled_echo : Spelled echoLexemes echoText := by
  have hclose := Spelled.cons "\n".toList (by decide) (.char '\x7d' (by decide))
    (.cons [] rfl (.char ';' (by decide)) (.nil "\n".toList (by decide)))
  have hnumber := Spelled.cons " ".toList (by decide) (.char '=' (by decide))
    (.cons " ".toList (by decide) (.number "1".toList (by decide) (next_of_decide (by decide)))
      (.cons [] rfl (.char ';' (by decide)) hclose))
  have houtput := Spelled.cons [] rfl (.char ',' (by decide))
    (.cons " ".toList (by decide)
      (.word "EchoAck".toList (by decide) (by decide) (by decide)
        (next_of_decide (by decide)))
      (.cons " ".toList (by decide)
        (.word "ack".toList (by decide) (by decide) (by decide)
          (next_of_decide (by decide)))
        (.cons [] rfl (.char ')' (by decide)) hnumber)))
  have hinput := Spelled.cons [] rfl (.char '(' (by decide))
    (.cons [] rfl
      (.word "EchoReq".toList (by decide) (by decide) (by decide) (next_of_decide (by decide)))
      (.cons " ".toList (by decide)
        (.word "req".toList (by decide) (by decide) (by decide)
          (next_of_decide (by decide))) houtput))
  have hfunction := Spelled.cons " ".toList (by decide) (.char '\x7b' (by decide))
    (.cons "\n\t".toList (by decide)
      (.word "Echo".toList (by decide) (by decide) (by decide)
        (next_of_decide (by decide))) hinput)
  have hservice := Spelled.cons "\n\n".toList (by decide)
    (.word "service".toList (by decide) (by decide) (by decide)
      (next_of_decide (by decide)))
    (.cons " ".toList (by decide)
      (.word "EchoService".toList (by decide) (by decide) (by decide)
        (next_of_decide (by decide))) hfunction)
  have hname : ("echo.proto".toList.all fun c => c ≠ '>' ∧ c ≠ '\x00') = true := by decide
  have hfile := Spelled.cons [] rfl
    (.inclusion " ".toList "echo.proto".toList (by decide) (.inr ⟨rfl, rfl⟩)
      fun c hc => of_decide_eq_true (List.all_eq_true.mp hname c hc))
    (.cons "\n".toList (by decide)
      (.package " ".toList "demo".toList (by decide) (by decide) (by decide)) hservice)
  refine (congrArg₂ Spelled ?_ ?_).mp hfile
  · decide +kernel
  · decide +kernel

theorem yyparse_spelled_echo :
    yyparse echoText = .parsed ⟨["echo.proto".toList], [], "demo".toList⟩
      [RpcDef.toService ⟨"EchoService".toList, [echo "1".toList]⟩] := by
  refine ((yyparse_spelled spelled_echo).1 _ _).mpr ⟨by decide +kernel, ?_⟩
  exact ⟨[⟨"EchoService".toList, [echo "1".toList]⟩], by decide +kernel, rfl⟩

end StormNet.RpcGenerator
