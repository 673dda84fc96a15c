import ScopeScript.Proofs.Actions
import ScopeScript.Proofs.Literals
import ScopeScript.Proofs.ParserCompleteness
import ScopeScript.Proofs.PostOrder
import ScopeScript.Proofs.WholeNumbers

/-!
Contract: a literal that is bound to a name and printed comes out as it was written.

Owns: the program that echoes a literal, its tokens, its nodes and its run, for any name and
any literal, and the theorem about quoted texts and whole numbers.

Every stage is followed once for any literal.  What is particular to texts and to whole
numbers is only how they are shown.
-/

set_option autoImplicit false

namespace ScopeScript

open Grammar

/-- The literal is bound to the name, and the name is printed. -/
def echo (name literal : String) : String :=
  "let " ++ name ++ " = " ++ literal ++ ";\nprint(" ++ name ++ ");\n"

/-! ## Tokens -/

def bindingTokens (name : String) (literal : Token) : List Token :=
  [⟨.ident, "let"⟩, ⟨.ident, name⟩, ⟨.equal, "="⟩, literal, ⟨.semicolon, ";"⟩]

def printingTokens (name : String) : List Token :=
  [⟨.ident, "print"⟩, ⟨.leftParen, "("⟩, ⟨.ident, name⟩, ⟨.rightParen, ")"⟩, ⟨.semicolon, ";"⟩]

def echoTokens (name : String) (literal : Token) : List Token :=
  bindingTokens name literal ++ printingTokens name

theorem valid_echoTokens {name : String} {literal : Token} (isName : IsName name)
    (valid : literal.Valid) : ∀ token ∈ echoTokens name literal, token.Valid := by
  have letName : IsName "let" := ⟨'l', ['e', 't'], rfl, by simp, by simp⟩
  have print : IsName "print" := ⟨'p', ['r', 'i', 'n', 't'], rfl, by simp, by simp⟩
  have equal : Token.Valid ⟨.equal, "="⟩ := ⟨'=', rfl, rfl⟩
  have semicolon : Token.Valid ⟨.semicolon, ";"⟩ := ⟨';', rfl, rfl⟩
  have opening : Token.Valid ⟨.leftParen, "("⟩ := ⟨'(', rfl, rfl⟩
  have closing : Token.Valid ⟨.rightParen, ")"⟩ := ⟨')', rfl, rfl⟩
  simp only [echoTokens, bindingTokens, printingTokens, List.cons_append, List.nil_append,
    List.forall_mem_cons]
  exact ⟨letName, isName, equal, valid, semicolon, print, opening, isName, closing, semicolon,
    nofun⟩

/-- No gap is needed where tokens do not run into each other. -/
theorem Lexer.Spaced.tight {token : Token} {tokens : List Token} {chars : List Char}
    (loose : ∀ next ∈ tokens.head?, token.kind.clings next.kind = false)
    (rest : Spaced tokens chars) : Spaced (token :: tokens) (token.rendering ++ chars) := by
  have none : Blank [] := nofun
  exact .cons none (fun next member clings => absurd clings (by simp [loose next member])) rest

theorem spaced_echo (name : String) (literal : Token) :
    Lexer.Spaced (echoTokens name literal)
      (echo name (String.ofList literal.rendering)).toList := by
  have space : Lexer.Blank [' '] := by simp [Lexer.Blank]
  have lineBreak : Lexer.Blank ['\n'] := by simp [Lexer.Blank]
  have loose : ∀ kind : TokenKind, kind.clings .semicolon = false := by
    intro kind
    cases kind <;> rfl
  have printing : Lexer.Spaced (printingTokens name) _ :=
    .tight (by simp [TokenKind.clings]) (.tight (by simp [TokenKind.clings])
      (.tight (by simp [TokenKind.clings]) (.tight (by simp [TokenKind.clings])
        (.cons lineBreak nofun .nil))))
  have spaced : Lexer.Spaced (echoTokens name literal) _ :=
    .cons space nofun (.cons space nofun (.cons space nofun
      (.tight (by simp [loose]) (.cons lineBreak nofun printing))))
  convert spaced using 1
  simp [echo, Token.rendering]

/-- The text of the program is read as its tokens. -/
theorem tokenize_echo {name : String} {literal : Token} (isName : IsName name)
    (valid : literal.Valid) :
    tokenize (echo name (String.ofList literal.rendering)) = .ok (echoTokens name literal) :=
  (tokenize_iff_renders _ _).mpr
    ⟨valid_echoTokens isName valid, [], _, rfl, nofun, spaced_echo name literal⟩

/-! ## Nodes -/

/-- The token is a literal of the value. -/
inductive Denotes : Token → Value → Prop where
  | number {text : String} {value : Float} (fits : TokenKind.number.Fits text.toList)
      (read : Number.read? text = some value) : Denotes ⟨.number, text⟩ (.number value)
  | text {text : String} (fits : TokenKind.text.Fits text.toList) :
      Denotes ⟨.text, text⟩ (.text text)

theorem Denotes.valid {literal : Token} {value : Value} (denotes : Denotes literal value) :
    literal.Valid := by
  cases denotes with
  | number fits read => exact fits
  | text fits => exact fits

def echoProgram (name : String) (node : Node) : Program where
  nodes := #[node, .ident name, .call printName [1]]
  body := [.letBind name 0, .expr 2]

theorem trees_echoTokens {name : String} {literal : Token} {expr : Expr}
    (derives : Derives .primary [literal] expr) :
    Parser.trees (echoTokens name literal) =
      .ok [.letBind name expr, .expr (.call printName [.ident name])] := by
  have whole : ∀ {tokens : List Token} {expr : Expr}, Derives .primary tokens expr →
      Derives .assignment tokens expr :=
    fun derives => .ofSum (.ofProduct (.ofPrimary derives))
  have argument : Derives .primary [⟨.ident, name⟩] (.ident name) := .ident rfl
  have call : Derives .primary ((printingTokens name).take 4) (.call printName [.ident name]) :=
    .call rfl rfl (.some (.one (whole argument))) rfl
  have binding : Statement (bindingTokens name literal) (.letBind name expr) :=
    .letBind rfl rfl rfl (whole derives) rfl
  have printing : Statement (printingTokens name) (.expr (.call printName [.ident name])) :=
    .expr (whole call) (by simp [printingTokens, Token.isKeyword, Token.isWord]) rfl
  exact Parser.trees_of_statements (.cons binding (.cons printing .nil))

/-- The node has the value in every frame, and needs no operands for it. -/
def Node.Yields (node : Node) (value : Value) : Prop :=
  ∀ settings eval frame, Eval.evalNode settings eval frame node = pure value

theorem Denotes.readProgram {name : String} {literal : Token} {value : Value}
    (isName : IsName name) (denotes : Denotes literal value) :
    ∃ node, ScopeScript.readProgram (echo name (String.ofList literal.rendering)) =
        .ok (echoProgram name node) ∧ node.Yields value := by
  have tokenized : tokenize _ = _ := tokenize_echo isName denotes.valid
  have short : (echoTokens name literal).length ≤ Program.capacity :=
    show 10 ≤ Program.capacity by decide
  cases denotes with
  | @number text value fits read =>
      refine ⟨.number value, ?_, fun _ _ _ => rfl⟩
      have derives : Derives .primary [⟨.number, text⟩] (.number value) := .number rfl read
      rw [readProgram_eq_of_short tokenized short, parse_eq_map_trees, trees_echoTokens derives]
      rfl
  | @text text fits =>
      refine ⟨.text text, ?_, fun _ _ _ => rfl⟩
      have derives : Derives .primary [⟨.text, text⟩] (.text text) := .text rfl
      rw [readProgram_eq_of_short tokenized short, parse_eq_map_trees, trees_echoTokens derives]
      rfl

/-! ## The run -/

section Run

variable (name : String) {node : Node} {value : Value} (settings : Settings)

theorem nesting_echoProgram (node : Node) :
    ∃ depth, (echoProgram name node).nesting = depth + 2 :=
  ⟨Environment.capacity * 4 - 2, rfl⟩

theorem evalExpr_literal (yields : node.Yields value) (machine : Machine) :
    (echoProgram name node).evalExpr settings 0 Environment.root machine = .ok value machine := by
  obtain ⟨depth, deep⟩ := nesting_echoProgram name node
  have stored : (echoProgram name node).nodes[0]? = some node := rfl
  rw [Program.evalExpr, deep, Eval.evalExpr, stored]
  simp only [yields settings]
  rfl

theorem evalExpr_print (node : Node) {machine : Machine} {owner : FrameId}
    (bound : machine.environment.getVar Environment.root name = .found value owner) :
    (echoProgram name node).evalExpr settings 2 Environment.root machine =
      .ok .void { machine with output := appendLine machine.output value.display } := by
  obtain ⟨depth, deep⟩ := nesting_echoProgram name node
  have argument : Eval.evalExpr (echoProgram name node).nodes settings (depth + 1) 1
      Environment.root machine = .ok value machine := by
    change Eval.readVar Environment.root name machine = _
    rw [Eval.readVar_apply, bound]
  have arguments : Eval.evalAll (Eval.evalExpr (echoProgram name node).nodes settings (depth + 1))
      Environment.root [1] machine = .ok [value] machine := by
    rw [Eval.evalAll, Eval.bind_of_ok _ argument]
    rfl
  have shown : printedLine [value] = value.display := by simp [printedLine]
  rw [Program.evalExpr, deep]
  change Eval.evalPrint _ [1] Environment.root machine = _
  rw [Eval.evalPrint, Eval.bind_of_ok _ arguments, shown]
  rfl

theorem getVar_setVar_root (value : Value) :
    (Environment.empty.setVar Environment.root name value).getVar Environment.root name =
      .found value Environment.root := by
  have entry : (Environment.empty.setVar Environment.root name value).frames[Environment.root]? =
      some { Frame.empty none with vars := Table.empty.insert name value } := rfl
  rw [Environment.getVar, Environment.lookup, entry]
  simp

theorem run_echoProgram (yields : node.Yields value) (output : String) :
    ∃ machine, (echoProgram name node).run settings output = .ok () machine ∧
      machine.output = output ++ value.display ++ "\n" := by
  let start := Machine.initial settings.callLimit output
  let bound : Machine :=
    { start with environment := start.environment.setVar Environment.root name value }
  let printed : Machine := { bound with output := appendLine output value.display }
  have binds : Eval.execStmt ((echoProgram name node).evalExpr settings) Environment.root
      (.letBind name 0) start = .ok .normal bound := by
    rw [Eval.execStmt, Eval.bind_of_ok _ (evalExpr_literal name settings yields start)]
    rfl
  have prints : Eval.execStmt ((echoProgram name node).evalExpr settings) Environment.root
      (.expr 2) bound = .ok .normal printed := by
    have found : bound.environment.getVar Environment.root name = _ :=
      getVar_setVar_root name value
    rw [Eval.execStmt, Eval.bind_of_ok _ (evalExpr_print name settings node found)]
    rfl
  have block : Eval.execBlock ((echoProgram name node).evalExpr settings) Environment.root
      (echoProgram name node).body start = .ok .normal printed := by
    have body : (echoProgram name node).body = [.letBind name 0, .expr 2] := rfl
    rw [body, Eval.execBlock_cons_of_normal _ binds, Eval.execBlock_cons_of_normal _ prints]
    rfl
  refine ⟨printed, ?_, rfl⟩
  rw [Program.run, Program.exec, Eval.bind_of_ok _ block]
  rfl

end Run

theorem Denotes.runSource {name : String} {literal : Token} {value : Value}
    (isName : IsName name) (denotes : Denotes literal value) (settings : Settings)
    (output : String) :
    ScopeScript.runSource settings (echo name (String.ofList literal.rendering)) output =
      (.ok (), output ++ value.display ++ "\n") := by
  obtain ⟨node, read, yields⟩ := denotes.readProgram isName
  obtain ⟨machine, ran, printed⟩ := run_echoProgram name settings yields output
  rw [ScopeScript.runSource, read]
  simp only [ran, printed]

/-- A quoted text and a whole number up to `2 ^ 53` are printed as they were written.  The
name may be any identifier, the words of the language included, and no setting plays a
role. -/
theorem literals_echo (name : String) (isName : IsName name) (settings : Settings)
    (output : String) :
    (∀ text : String, '"' ∉ text.toList → '\n' ∉ text.toList →
      runSource settings (echo name ("\"" ++ text ++ "\"")) output =
        (.ok (), output ++ text ++ "\n")) ∧
    ∀ number : Nat, number ≤ 2 ^ 53 →
      runSource settings (echo name number.repr) output =
        (.ok (), output ++ number.repr ++ "\n") := by
  refine ⟨fun text noQuote noBreak => ?_, fun number small => ?_⟩
  · have fits : TokenKind.text.Fits text.toList := by
      refine fun char member => ⟨?_, ?_⟩
      · rintro rfl
        exact noQuote member
      · rintro rfl
        exact noBreak member
    have quoted : String.ofList (Token.rendering ⟨.text, text⟩) = "\"" ++ text ++ "\"" := by
      apply String.toList_inj.mp
      simp [Token.rendering]
    rw [← quoted]
    exact (Denotes.text fits).runSource isName settings output
  · have fits : TokenKind.number.Fits number.repr.toList := by
      rw [Nat.toList_repr]
      exact .inl (Number.digits_toDigits number)
    have bare : String.ofList (Token.rendering ⟨.number, number.repr⟩) = number.repr :=
      String.ofList_toList
    have echoed := (Denotes.number fits (Number.read?_repr number)).runSource isName settings output
    rwa [bare, Value.display, Number.display_ofNat small] at echoed

/-- The name of a keyword, a text with a symbol that the language refuses, and the bound
itself; no call may be active. -/
theorem keyword_and_bound_echo :
    let settings : Settings := ⟨.lexical, some 0⟩
    IsName "return" ∧
      runSource settings (echo "return" "\"é @;\t)\"") "" = (.ok (), "é @;\t)\n") ∧
      runSource settings (echo "return" "9007199254740992") "" =
        (.ok (), "9007199254740992\n") := by
  intro settings
  have isName : IsName "return" := ⟨'r', ['e', 't', 'u', 'r', 'n'], rfl, by simp, by simp⟩
  obtain ⟨texts, numbers⟩ := literals_echo "return" isName settings ""
  have digits : (2 ^ 53).repr = "9007199254740992" := by decide +kernel
  have text := texts "é @;\t)" (by decide +kernel) (by decide +kernel)
  have number := numbers (2 ^ 53) (Nat.le_refl _)
  rw [digits] at number
  exact ⟨isName, text, number⟩

end ScopeScript
