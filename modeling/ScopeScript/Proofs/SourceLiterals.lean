import ScopeScript.Proofs.Literals
import ScopeScript.Proofs.SyntaxErrors

/-!
Contract: the numbers of a source text can be read, and its program holds nothing that a
token could not say.

Owns: the numbers that literals can be, the names in statements, and the theorem on all that
a program from source text holds.

Three grammars have to agree here: that of the lexer, which makes number tokens, that of the
reader of numbers, which accepts signs, exponents and words besides, and the parser's use of
token texts.  What the lexer makes is the part that the reader takes without any of these.
-/

set_option autoImplicit false

namespace ScopeScript

/-! ## Numbers -/

namespace Number

/-- The text of a number token is read. -/
theorem exists_read {text : String} (fits : TokenKind.number.Fits text.toList) :
    ∃ value, read? text = some value := by
  rw [read?, readChars?_of_fits fits]
  rcases fits with digits | ⟨whole, fraction, same, wholeDigits, fractionDigits⟩
  · rw [Decimal.read?_of_digits digits]
    exact ⟨_, rfl⟩
  · rw [same, Decimal.read?_of_point wholeDigits fractionDigits]
    exact ⟨_, rfl⟩

theorem isNaN_of_isFinite {number : Float} (finite : number.isFinite = true) :
    number.isNaN = false := by
  change number.toModel.unpack.isFinite = true at finite
  change number.toModel.unpack.isNaN = false
  cases unpacked : number.toModel.unpack with
  | notANumber =>
      rw [unpacked] at finite
      cases finite
  | infinity sign => rfl
  | zero sign => rfl
  | finite sign mantissa exponent positive => rfl

/-- The double above all finite ones. -/
def infinity : Float :=
  ofMagnitude false infinityMagnitude

/-- A literal is finite or so large that it became infinite, and never anything else. -/
theorem IsLiteral.finite_or_infinity {number : Float} (literal : IsLiteral number) :
    isNegative number = false ∧ number.isNaN = false ∧
      (number.isFinite = true ∨ number = infinity) := by
  have positive := literal.positive
  by_cases finite : magnitude number < infinityMagnitude
  · have isFinite := (isFinite_iff number).mpr finite
    exact ⟨positive, isNaN_of_isFinite isFinite, .inl isFinite⟩
  · have most := literal.magnitude_le
    have infinite : magnitude number = infinityMagnitude := by omega
    have same : number = infinity := by
      rw [infinity, ← infinite, ofMagnitude_magnitude positive]
    have isNumber : infinity.isNaN = false := by decide +kernel
    exact ⟨positive, by rw [same, isNumber], .inr same⟩

end Number

/-- The parser finds no fault with the number tokens of the lexer. -/
theorem parse_ne_invalidNumber {tokens : List Token} (valid : ∀ token ∈ tokens, token.Valid)
    (text : String) : parse tokens ≠ .error (.invalidNumber text) := by
  intro failed
  have failedTrees := parse_eq_error.mp failed
  cases ran : (Parser.State.start : Parser.State Expr).run tokens with
  | ok state =>
      rw [Parser.trees_of_run ran, Parser.State.finish_eq] at failedTrees
      split at failedTrees <;> cases failedTrees
  | error error =>
      rw [Parser.trees_of_run_error ran] at failedTrees
      cases failedTrees
      obtain ⟨before, token, after, next, rfl, ranBefore, wrong⟩ := Parser.State.run_error ran
      rcases Parser.step_error_cases ranBefore wrong with
        ⟨_, isNumber, unread, _⟩ | ⟨⟨expected, other⟩, _⟩
      · obtain ⟨value, read⟩ := Number.exists_read ((valid token (by simp)).fits isNumber)
        cases unread.symm.trans read
      · cases other

/-! ## Names -/

mutual

/-- The names that a statement binds, those in the bodies of functions included. -/
def Stmt.names {ε : Type} : Stmt ε → List String
  | .letBind name _ => [name]
  | .fnDef name params body => name :: (params ++ Stmt.namesAll body)
  | .ret _ => []
  | .expr _ => []

/-- The names that statements bind. -/
def Stmt.namesAll {ε : Type} : List (Stmt ε) → List String
  | [] => []
  | stmt :: rest => stmt.names ++ Stmt.namesAll rest

end

mutual

theorem Stmt.names_store : ∀ (stmt : Stmt Expr) (nodes : Array Node),
    (stmt.store nodes).1.names = stmt.names
  | .letBind _ _, _ => by simp only [Stmt.store, Stmt.names]
  | .fnDef _ _ body, nodes => by
      simp only [Stmt.store, Stmt.names, Stmt.namesAll_storeAll body nodes]
  | .ret _, _ => by simp only [Stmt.store, Stmt.names]
  | .expr _, _ => by simp only [Stmt.store, Stmt.names]

/-- Storing the expressions of statements keeps all names. -/
theorem Stmt.namesAll_storeAll : ∀ (stmts : List (Stmt Expr)) (nodes : Array Node),
    Stmt.namesAll (Stmt.storeAll stmts nodes).1 = Stmt.namesAll stmts
  | [], _ => rfl
  | stmt :: rest, nodes => by
      simp only [Stmt.storeAll, Stmt.namesAll, stmt.names_store nodes,
        Stmt.namesAll_storeAll rest]

end

theorem Stmt.isName_of_mem_namesAll {stmts : List (Stmt Expr)}
    (each : ∀ stmt ∈ stmts, ∀ name ∈ stmt.names, IsName name) :
    ∀ name ∈ Stmt.namesAll stmts, IsName name := by
  induction stmts with
  | nil => nofun
  | cons stmt rest inductionHypothesis =>
      rw [List.forall_mem_cons] at each
      intro name member
      rcases List.mem_append.mp member with here | later
      · exact each.1 name here
      · exact inductionHypothesis each.2 name later

theorem Stmt.Proper.isName {stmt : Stmt Expr} (proper : stmt.Proper) :
    ∀ name ∈ stmt.names, IsName name := by
  induction proper with
  | letBind isName proper =>
      intro other member
      rw [List.mem_singleton.mp member]
      exact isName
  | fnDef isName areNames proper inductionHypothesis =>
      refine List.forall_mem_cons.mpr ⟨isName, fun name member => ?_⟩
      rcases List.mem_append.mp member with param | inside
      · exact areNames name param
      · exact Stmt.isName_of_mem_namesAll inductionHypothesis name inside
  | ret proper => nofun
  | expr proper => nofun

/-! ## Programs -/

/-- No source text fails because of one of its numbers: the text of every number token is
read.  In the program of a source text every number has no sign and is a number, finite or
infinite; no text has a quote or a line break; and every name is an identifier. -/
theorem lexed_literals_always_parse (source : String) :
    (∀ text, readProgram source ≠ .error (.parse (.invalidNumber text))) ∧
    (∀ tokens, tokenize source = .ok tokens → ∀ token ∈ tokens, token.kind = .number →
      ∃ value, Number.read? token.text = some value) ∧
    ∀ program, readProgram source = .ok program →
      (∀ value, .number value ∈ program.nodes → Number.isNegative value = false ∧
        value.isNaN = false ∧ (value.isFinite = true ∨ value = Number.infinity)) ∧
      (∀ text, .text text ∈ program.nodes → '"' ∉ text.toList ∧ '\n' ∉ text.toList) ∧
      (∀ name, .ident name ∈ program.nodes → IsName name) ∧
      (∀ callee args, .call callee args ∈ program.nodes → IsName callee) ∧
      ∀ name ∈ Stmt.namesAll program.body, IsName name := by
  refine ⟨fun text failed => ?_, fun tokens tokenized token member isNumber => ?_, ?_⟩
  · cases tokenized : tokenize source with
    | error error => simp [readProgram, tokenized] at failed
    | ok tokens =>
        have right := parse_ne_invalidNumber (valid_of_tokenize tokenized) text
        rw [readProgram_of_tokenize tokenized] at failed
        split at failed
        · cases parsed : parse tokens with
          | ok program => simp [parsed, Except.mapError] at failed
          | error error =>
              rw [parsed] at failed
              cases failed
              exact right parsed
        · cases failed
  · exact Number.exists_read ((valid_of_tokenize tokenized token member).fits isNumber)
  · intro program read
    obtain ⟨trees, rfl, proper⟩ := readProgram_eq_ok read
    have nodes := allProper_ofTrees proper
    refine ⟨fun value member => ?_, fun text member => ?_, fun name => nodes (.ident name),
      fun callee args => nodes (.call callee args), ?_⟩
    · exact Number.IsLiteral.finite_or_infinity (nodes _ member)
    · have quotable : TokenKind.text.Fits text.toList := nodes _ member
      exact ⟨fun quote => (quotable _ quote).1 rfl, fun lineBreak => (quotable _ lineBreak).2 rfl⟩
    · have stored : Stmt.namesAll (Program.ofTrees trees).body = Stmt.namesAll trees :=
        Stmt.namesAll_storeAll trees #[]
      rw [stored]
      exact Stmt.isName_of_mem_namesAll fun stmt member => (proper stmt member).isName

end ScopeScript
