import ScopeScript.Syntax.Tree
import ScopeScript.Number.Text

/-!
Contract: the grammar of programs over lists of tokens.

Owns: the levels of expressions, which tokens are derived as which tree at which
level, and the derivations of parameter lists, statements and whole programs.

The grammar is stratified: the operands of an operator are derived at its own level
on the left and at the next tighter level on the right, which makes every operator
associate to the left.  Parentheses leave no mark in the tree.  The words of
statements are identifiers like any other except at the start of a statement.
-/

set_option autoImplicit false

namespace ScopeScript

namespace Grammar

/-- The levels of expressions, from the loosest to the tightest. -/
inductive Level where
  | assignment
  | sum
  | product
  | primary
deriving DecidableEq, Repr

end Grammar

/-- The level at which an operator stands. -/
def BinaryOp.level : BinaryOp → Grammar.Level
  | .assign => .assignment
  | .add | .subtract => .sum
  | .multiply | .divide => .product

/-- The level of an operator's right operand. -/
def BinaryOp.operandLevel : BinaryOp → Grammar.Level
  | .assign => .sum
  | .add | .subtract => .product
  | .multiply | .divide => .primary

/-- The kind of the token that stands for an operator. -/
def BinaryOp.tokenKind : BinaryOp → TokenKind
  | .add => .plus
  | .subtract => .minus
  | .multiply => .star
  | .divide => .slash
  | .assign => .equal

theorem BinaryOp.ofKind?_eq_some {kind : TokenKind} {op : BinaryOp} :
    BinaryOp.ofKind? kind = some op ↔ kind = op.tokenKind := by
  cases kind <;> cases op <;> decide

/-- The identifiers that begin a statement of their own. -/
def Token.isKeyword (token : Token) : Bool :=
  token.isWord "let" || token.isWord "fn" || token.isWord "return"

theorem Token.isWord_of_ne {token : Token} {word : String} (isWord : token.isWord word = true)
    {other : String} (differ : word ≠ other) : token.isWord other = false := by
  simp only [Token.isWord, Bool.and_eq_true, beq_iff_eq] at isWord
  simp [Token.isWord, isWord.2, differ]

namespace Grammar

mutual

/-- The tokens are an expression of a level, and this is its tree. -/
inductive Derives : Level → List Token → Expr → Prop where
  | number {token : Token} {value : Float} (kind : token.kind = .number)
      (read : Number.read? token.text = some value) : Derives .primary [token] (.number value)
  | text {token : Token} (kind : token.kind = .text) : Derives .primary [token] (.text token.text)
  | ident {token : Token} (kind : token.kind = .ident) :
      Derives .primary [token] (.ident token.text)
  | call {callee opening closing : Token} {tokens : List Token} {args : List Expr}
      (name : callee.kind = .ident) (opens : opening.kind = .leftParen)
      (derives : Args tokens args) (closes : closing.kind = .rightParen) :
      Derives .primary (callee :: opening :: (tokens ++ [closing])) (.call callee.text args)
  | paren {opening closing : Token} {tokens : List Token} {value : Expr}
      (opens : opening.kind = .leftParen) (derives : Derives .assignment tokens value)
      (closes : closing.kind = .rightParen) :
      Derives .primary (opening :: (tokens ++ [closing])) value
  | ofPrimary {tokens : List Token} {value : Expr} (derives : Derives .primary tokens value) :
      Derives .product tokens value
  | ofProduct {tokens : List Token} {value : Expr} (derives : Derives .product tokens value) :
      Derives .sum tokens value
  | ofSum {tokens : List Token} {value : Expr} (derives : Derives .sum tokens value) :
      Derives .assignment tokens value
  | binary {level : Level} {op : BinaryOp} {operator : Token} {leftTokens rightTokens : List Token}
      {left right : Expr} (atLevel : op.level = level) (first : Derives level leftTokens left)
      (stands : operator.kind = op.tokenKind)
      (second : Derives op.operandLevel rightTokens right) :
      Derives level (leftTokens ++ operator :: rightTokens) (.binary op left right)

/-- The tokens between the parentheses of a call. -/
inductive Args : List Token → List Expr → Prop where
  | none : Args [] []
  | some {tokens : List Token} {args : List Expr} (derives : ArgList tokens args) :
      Args tokens args

/-- One or more expressions with commas between them. -/
inductive ArgList : List Token → List Expr → Prop where
  | one {tokens : List Token} {value : Expr} (derives : Derives .assignment tokens value) :
      ArgList tokens [value]
  | more {comma : Token} {tokens others : List Token} {value : Expr} {values : List Expr}
      (derives : Derives .assignment tokens value) (separates : comma.kind = .comma)
      (rest : ArgList others values) : ArgList (tokens ++ comma :: others) (value :: values)

end

/-- One or more names with commas between them. -/
inductive NameList : List Token → List String → Prop where
  | one {name : Token} (kind : name.kind = .ident) : NameList [name] [name.text]
  | more {name comma : Token} {others : List Token} {names : List String}
      (kind : name.kind = .ident) (separates : comma.kind = .comma)
      (rest : NameList others names) : NameList (name :: comma :: others) (name.text :: names)

/-- The tokens between the parentheses of a definition. -/
inductive Params : List Token → List String → Prop where
  | none : Params [] []
  | some {tokens : List Token} {names : List String} (derives : NameList tokens names) :
      Params tokens names

mutual

/-- The tokens are a statement, and this is its tree. -/
inductive Statement : List Token → Stmt Expr → Prop where
  | letBind {keyword name equal semicolon : Token} {tokens : List Token} {value : Expr}
      (isLet : keyword.isWord "let" = true) (isName : name.kind = .ident)
      (binds : equal.kind = .equal) (derives : Derives .assignment tokens value)
      (ends : semicolon.kind = .semicolon) :
      Statement (keyword :: name :: equal :: (tokens ++ [semicolon])) (.letBind name.text value)
  | fnDef {keyword name opening closing leftBrace rightBrace : Token}
      {paramTokens bodyTokens : List Token} {params : List String} {body : List (Stmt Expr)}
      (isFn : keyword.isWord "fn" = true) (isName : name.kind = .ident)
      (opens : opening.kind = .leftParen) (hasParams : Params paramTokens params)
      (closes : closing.kind = .rightParen) (begins : leftBrace.kind = .leftBrace)
      (hasBody : Statements bodyTokens body) (ends : rightBrace.kind = .rightBrace) :
      Statement
        (keyword :: name :: opening ::
          (paramTokens ++ closing :: leftBrace :: (bodyTokens ++ [rightBrace])))
        (.fnDef name.text params body)
  | ret {keyword semicolon : Token} {tokens : List Token} {value : Expr}
      (isReturn : keyword.isWord "return" = true) (derives : Derives .assignment tokens value)
      (ends : semicolon.kind = .semicolon) :
      Statement (keyword :: (tokens ++ [semicolon])) (.ret value)
  | expr {semicolon : Token} {tokens : List Token} {value : Expr}
      (derives : Derives .assignment tokens value)
      (plain : ∀ first ∈ tokens.head?, first.isKeyword = false)
      (ends : semicolon.kind = .semicolon) : Statement (tokens ++ [semicolon]) (.expr value)

/-- The tokens are statements one after the other: the body of a function, or a
whole program. -/
inductive Statements : List Token → List (Stmt Expr) → Prop where
  | nil : Statements [] []
  | cons {tokens others : List Token} {stmt : Stmt Expr} {stmts : List (Stmt Expr)}
      (first : Statement tokens stmt) (rest : Statements others stmts) :
      Statements (tokens ++ others) (stmt :: stmts)

end

/-! ## Levels and precedence -/

/-- How tightly a level binds, on the scale of the operators' precedence. -/
def Level.precedence : Level → Nat
  | .assignment => 1
  | .sum => 10
  | .product => 20
  | .primary => 30

theorem precedence_level (op : BinaryOp) : op.level.precedence = op.precedence := by
  cases op <;> rfl

theorem precedence_lt_operandLevel (op : BinaryOp) :
    op.precedence < op.operandLevel.precedence := by
  cases op <;> decide

/-- The right operand's level is the loosest one that is tighter than the
operator. -/
theorem operandLevel_le {op : BinaryOp} {level : Level}
    (tighter : op.precedence < level.precedence) :
    op.operandLevel.precedence ≤ level.precedence := by
  revert tighter
  cases op <;> cases level <;> decide

theorem Level.precedence_pos (level : Level) : 1 ≤ level.precedence := by
  cases level <;> decide

/-- An expression of a tight level is one of every looser level. -/
theorem Derives.loosen {tight loose : Level} {tokens : List Token} {value : Expr}
    (derives : Derives tight tokens value) (le : loose.precedence ≤ tight.precedence) :
    Derives loose tokens value := by
  cases tight with
  | primary =>
      cases loose with
      | primary => exact derives
      | product => exact .ofPrimary derives
      | sum => exact .ofProduct (.ofPrimary derives)
      | assignment => exact .ofSum (.ofProduct (.ofPrimary derives))
  | product =>
      cases loose with
      | primary => exact absurd le (by decide)
      | product => exact derives
      | sum => exact .ofProduct derives
      | assignment => exact .ofSum (.ofProduct derives)
  | sum =>
      cases loose with
      | primary => exact absurd le (by decide)
      | product => exact absurd le (by decide)
      | sum => exact derives
      | assignment => exact .ofSum derives
  | assignment =>
      cases loose with
      | primary => exact absurd le (by decide)
      | product => exact absurd le (by decide)
      | sum => exact absurd le (by decide)
      | assignment => exact derives

end Grammar

end ScopeScript
