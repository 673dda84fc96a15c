import ScopeScript.Proofs.NumberText
import ScopeScript.Proofs.ParserSoundness
import ScopeScript.Run

/-!
Contract: the names, texts and numbers in a program that is read from source text.

Owns: the doubles that literals stand for, trees whose leaves come from valid tokens, tables
that are filled from such trees, and the fact that every source text has trees and a table of
this kind.

The parser copies the texts of tokens into its trees, so what the lexer guarantees for
tokens holds for the leaves.
-/

set_option autoImplicit false

namespace ScopeScript

/-- The double has no sign and is a number; infinity is one. -/
def Number.IsLiteral (number : Float) : Prop :=
  number.toBits.toNat ≤ Number.infinityMagnitude

/-- The text is an identifier. -/
def IsName (name : String) : Prop :=
  TokenKind.ident.Fits name.toList

/-- Every leaf of the expression can be written as a token. -/
inductive Expr.Proper : Expr → Prop where
  | number {value : Float} (literal : Number.IsLiteral value) : Expr.Proper (.number value)
  | text {value : String} (quotable : TokenKind.text.Fits value.toList) :
      Expr.Proper (.text value)
  | ident {name : String} (isName : IsName name) : Expr.Proper (.ident name)
  | call {callee : String} {args : List Expr} (isName : IsName callee)
      (operands : ∀ arg ∈ args, Expr.Proper arg) : Expr.Proper (.call callee args)
  | binary {op : BinaryOp} {left right : Expr} (first : Expr.Proper left)
      (second : Expr.Proper right) : Expr.Proper (.binary op left right)

/-- Every name and every leaf of the statement can be written as a token. -/
inductive Stmt.Proper : Stmt Expr → Prop where
  | letBind {name : String} {value : Expr} (isName : IsName name) (proper : value.Proper) :
      Stmt.Proper (.letBind name value)
  | fnDef {name : String} {params : List String} {body : List (Stmt Expr)}
      (isName : IsName name) (areNames : ∀ param ∈ params, IsName param)
      (proper : ∀ stmt ∈ body, Stmt.Proper stmt) : Stmt.Proper (.fnDef name params body)
  | ret {value : Expr} (proper : value.Proper) : Stmt.Proper (.ret value)
  | expr {value : Expr} (proper : value.Proper) : Stmt.Proper (.expr value)

/-! ## Leaves -/

theorem Number.nearestMagnitude_le (numerator denominator : Nat) :
    nearestMagnitude numerator denominator ≤ infinityMagnitude :=
  Nat.min_le_right _ _

/-- The text of a number token is read as a literal. -/
theorem Number.isLiteral_of_read {text : String} {value : Float}
    (fits : TokenKind.number.Fits text.toList) (read : Number.read? text = some value) :
    Number.IsLiteral value := by
  rw [Number.read?, readChars?_of_fits fits] at read
  obtain ⟨decimal, _, rfl⟩ := Option.map_eq_some_iff.mp read
  have number : decimal.magnitude ≤ infinityMagnitude := nearestMagnitude_le _ _
  rw [Number.IsLiteral, toNat_toBits_ofMagnitude number]
  exact number

theorem Number.IsLiteral.positive {number : Float} (literal : IsLiteral number) :
    isNegative number = false := by
  have below : infinityMagnitude < signBit := by decide
  simpa [isNegative] using Nat.lt_of_le_of_lt literal below

theorem Number.IsLiteral.magnitude_le {number : Float} (literal : IsLiteral number) :
    magnitude number ≤ infinityMagnitude :=
  Nat.le_trans (Nat.mod_le _ _) literal

theorem Number.display_of_infinite {number : Float} (positive : isNegative number = false)
    (infinite : magnitude number = infinityMagnitude) : display number = "inf" := by
  simp [display, displayMagnitude, infinite, positive]

/-- The text that is shown for a literal is read as this literal.  It is that of a number
token, or the word for infinity, which no token is. -/
theorem Number.read?_display_of_literal {number : Float} (literal : IsLiteral number) :
    read? (display number) = some number ∧
      (display number = "inf" ∨ TokenKind.number.Fits (display number).toList) := by
  have positive := literal.positive
  by_cases finite : magnitude number < infinityMagnitude
  · exact ⟨read?_display positive finite, .inr (fits_display positive finite)⟩
  · have infinite : magnitude number = infinityMagnitude := by
      have most := literal.magnitude_le
      omega
    have shown := display_of_infinite positive infinite
    have word : read? "inf" = some (ofMagnitude false infinityMagnitude) := rfl
    refine ⟨?_, .inl shown⟩
    rw [shown, word, ← infinite, ofMagnitude_magnitude positive]

/-- Different literals are shown differently. -/
theorem Number.display_injective {first second : Float} (firstLiteral : Number.IsLiteral first)
    (secondLiteral : Number.IsLiteral second) (same : display first = display second) :
    first = second := by
  have firstRead := (read?_display_of_literal firstLiteral).1
  rw [same, (read?_display_of_literal secondLiteral).1] at firstRead
  exact (Option.some.inj firstRead).symm

/-- A name consists of letters, digits and underscores. -/
theorem IsName.isIdentPart {name : String} (isName : IsName name) :
    ∀ char ∈ name.toList, Lexer.isIdentPart char = true := by
  obtain ⟨first, rest, same, starts, continues⟩ := isName
  intro char member
  rw [same] at member
  apply (Lexer.isIdentPart_iff char).mpr
  rcases List.mem_cons.mp member with rfl | inside
  · rcases starts with letter | underscore
    · exact .inl (by simp [Char.isAlphanum, letter])
    · exact .inr underscore
  · exact continues char inside

theorem IsName.not_mem {name : String} (isName : IsName name) {char : Char}
    (other : Lexer.isIdentPart char = false) : char ∉ name.toList := by
  intro member
  rw [isName.isIdentPart char member] at other
  cases other

theorem Token.Valid.fits {token : Token} {kind : TokenKind} (valid : token.Valid)
    (isKind : token.kind = kind) : kind.Fits token.text.toList := by
  rw [← isKind]
  exact valid

/-! ## Derivations from valid tokens -/

namespace Grammar

mutual

theorem Derives.proper : ∀ {level : Level} {tokens : List Token} {value : Expr},
    Derives level tokens value → (∀ token ∈ tokens, token.Valid) → value.Proper
  | _, _, _, .number kind read, valid =>
      .number (Number.isLiteral_of_read ((valid _ (by simp)).fits kind) read)
  | _, _, _, .text kind, valid => .text ((valid _ (by simp)).fits kind)
  | _, _, _, .ident kind, valid => .ident ((valid _ (by simp)).fits kind)
  | _, _, _, .call name _ .none _, valid => .call ((valid _ (by simp)).fits name) nofun
  | _, _, _, .call name _ (.some derives) _, valid =>
      .call ((valid _ (by simp)).fits name)
        (derives.proper fun token member => valid token (by simp [member]))
  | _, _, _, .paren _ derives _, valid =>
      derives.proper fun token member => valid token (by simp [member])
  | _, _, _, .ofPrimary derives, valid => derives.proper valid
  | _, _, _, .ofProduct derives, valid => derives.proper valid
  | _, _, _, .ofSum derives, valid => derives.proper valid
  | _, _, _, .binary _ first _ second, valid =>
      .binary (first.proper fun token member => valid token (by simp [member]))
        (second.proper fun token member => valid token (by simp [member]))

theorem ArgList.proper : ∀ {tokens : List Token} {values : List Expr},
    ArgList tokens values → (∀ token ∈ tokens, token.Valid) → ∀ value ∈ values, value.Proper
  | _, _, .one derives, valid => by
      intro value member
      rw [List.mem_singleton.mp member]
      exact derives.proper valid
  | _, _, .more derives _ rest, valid => by
      have first := derives.proper fun token member => valid token (by simp [member])
      have others := rest.proper fun token member => valid token (by simp [member])
      exact List.forall_mem_cons.mpr ⟨first, others⟩

end

theorem NameList.areNames {tokens : List Token} {names : List String}
    (derives : NameList tokens names) (valid : ∀ token ∈ tokens, token.Valid) :
    ∀ name ∈ names, IsName name := by
  induction derives with
  | one kind =>
      intro name member
      rw [List.mem_singleton.mp member]
      exact (valid _ (by simp)).fits kind
  | more kind separates rest inductionHypothesis =>
      have others := inductionHypothesis fun token member => valid token (by simp [member])
      exact List.forall_mem_cons.mpr ⟨(valid _ (by simp)).fits kind, others⟩

theorem Params.areNames {tokens : List Token} {names : List String}
    (derives : Params tokens names) (valid : ∀ token ∈ tokens, token.Valid) :
    ∀ name ∈ names, IsName name := by
  cases derives with
  | none => nofun
  | some derives => exact derives.areNames valid

mutual

theorem Statement.proper : ∀ {tokens : List Token} {stmt : Stmt Expr},
    Statement tokens stmt → (∀ token ∈ tokens, token.Valid) → stmt.Proper
  | _, _, .letBind _ isName _ derives _, valid =>
      .letBind ((valid _ (by simp)).fits isName)
        (derives.proper fun token member => valid token (by simp [member]))
  | _, _, .fnDef _ isName _ hasParams _ _ hasBody _, valid =>
      .fnDef ((valid _ (by simp)).fits isName)
        (hasParams.areNames fun token member => valid token (by simp [member]))
        (hasBody.proper fun token member => valid token (by simp [member]))
  | _, _, .ret _ derives _, valid =>
      .ret (derives.proper fun token member => valid token (by simp [member]))
  | _, _, .expr derives _ _, valid =>
      .expr (derives.proper fun token member => valid token (by simp [member]))

theorem Statements.proper : ∀ {tokens : List Token} {stmts : List (Stmt Expr)},
    Statements tokens stmts → (∀ token ∈ tokens, token.Valid) → ∀ stmt ∈ stmts, stmt.Proper
  | _, _, .nil, _ => nofun
  | _, _, .cons first rest, valid => by
      have head := first.proper fun token member => valid token (by simp [member])
      have others := rest.proper fun token member => valid token (by simp [member])
      exact List.forall_mem_cons.mpr ⟨head, others⟩

end

end Grammar

/-! ## Tables -/

/-- The name or the leaf that the node holds can be written as a token. -/
def Node.Proper : Node → Prop
  | .number value => Number.IsLiteral value
  | .text value => TokenKind.text.Fits value.toList
  | .ident name | .call name _ => IsName name
  | .binary .. => True

/-- What all nodes of the table hold can be written as tokens. -/
def AllProper (nodes : Array Node) : Prop :=
  ∀ node ∈ nodes, node.Proper

theorem AllProper.storeNode {nodes : Array Node} {node : Node} (all : AllProper nodes)
    (proper : node.Proper) : AllProper (storeNode node nodes).2 := by
  intro other member
  rcases Array.mem_push.mp member with old | rfl
  · exact all other old
  · exact proper

theorem allProper_storeAll {exprs : List Expr}
    (each : ∀ expr ∈ exprs, ∀ nodes, AllProper nodes → AllProper (expr.store nodes).2)
    {nodes : Array Node} (all : AllProper nodes) : AllProper (Expr.storeAll exprs nodes).2 := by
  induction exprs generalizing nodes with
  | nil => exact all
  | cons expr rest inductionHypothesis =>
      rw [List.forall_mem_cons] at each
      exact inductionHypothesis each.2 (each.1 nodes all)

theorem Expr.Proper.allProper {expr : Expr} (proper : expr.Proper) {nodes : Array Node}
    (all : AllProper nodes) : AllProper (expr.store nodes).2 := by
  induction proper generalizing nodes with
  | number literal => exact all.storeNode literal
  | text quotable => exact all.storeNode quotable
  | ident isName => exact all.storeNode isName
  | call isName operands inductionHypothesis =>
      have stored :=
        allProper_storeAll (fun expr member nodes => inductionHypothesis expr member) all
      exact stored.storeNode isName
  | binary first second firstHypothesis secondHypothesis =>
      exact (secondHypothesis (firstHypothesis all)).storeNode trivial

theorem allProper_stmtStoreAll {stmts : List (Stmt Expr)}
    (each : ∀ stmt ∈ stmts, ∀ nodes, AllProper nodes → AllProper (stmt.store nodes).2)
    {nodes : Array Node} (all : AllProper nodes) : AllProper (Stmt.storeAll stmts nodes).2 := by
  induction stmts generalizing nodes with
  | nil => exact all
  | cons stmt rest inductionHypothesis =>
      rw [List.forall_mem_cons] at each
      exact inductionHypothesis each.2 (each.1 nodes all)

theorem Stmt.Proper.allProper {stmt : Stmt Expr} (proper : stmt.Proper) {nodes : Array Node}
    (all : AllProper nodes) : AllProper (stmt.store nodes).2 := by
  induction proper generalizing nodes with
  | letBind isName proper => exact proper.allProper all
  | fnDef isName areNames proper inductionHypothesis =>
      exact allProper_stmtStoreAll (fun stmt member nodes => inductionHypothesis stmt member) all
  | ret proper => exact proper.allProper all
  | expr proper => exact proper.allProper all

theorem allProper_ofTrees {trees : List (Stmt Expr)} (proper : ∀ stmt ∈ trees, stmt.Proper) :
    AllProper (Program.ofTrees trees).nodes := by
  have none : AllProper #[] := by
    intro node member
    simp at member
  exact allProper_stmtStoreAll (fun stmt member nodes => (proper stmt member).allProper) none

/-! ## Programs from source text -/

theorem valid_of_tokenize {source : String} {tokens : List Token}
    (tokenized : tokenize source = .ok tokens) : ∀ token ∈ tokens, token.Valid := by
  obtain ⟨new, rfl, valid, _⟩ := Lexer.renders_of_scan (tokenize_eq_ok.mp tokenized)
  simpa using valid

/-- A program that is read from source text was made from trees whose names and leaves can
be written as tokens. -/
theorem readProgram_eq_ok {source : String} {program : Program}
    (read : readProgram source = .ok program) :
    ∃ trees, program = Program.ofTrees trees ∧ ∀ stmt ∈ trees, stmt.Proper := by
  obtain ⟨tokens, tokenized, _, parsed⟩ := readProgram_eq_ok_iff.mp read
  obtain ⟨trees, parsedTrees, rfl⟩ := parse_eq_ok.mp parsed
  exact ⟨trees, rfl, (trees_eq_ok.mp parsedTrees).proper (valid_of_tokenize tokenized)⟩

end ScopeScript
