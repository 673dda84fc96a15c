import ScopeScript.Proofs.Literals
import ScopeScript.Proofs.Quoting
import ScopeScript.Proofs.TreeOutlines

/-!
Contract: the outline of a program determines the program.

Owns: lines that can be told apart in the text of an outline, the text read back into
lines, the lines read back into trees, and the theorem on programs that are read from
source text.

The text is cut at its line breaks, and the blanks in front of a line are its level.  The
level then says where the parts of a statement or expression end: at the first line that is
not deeper than it.
-/

set_option autoImplicit false

namespace ScopeScript

namespace Outline

/-- The text stays on one line and begins with a character that is no blank. -/
structure Plain (text : String) : Prop where
  solid : ∃ first rest, text.toList = first :: rest ∧ first ≠ ' '
  unbroken : '\n' ∉ text.toList

theorem plain_iff (text : String) :
    Plain text ↔ text.toList.head?.any (· ≠ ' ') = true ∧ '\n' ∉ text.toList := by
  rw [Option.any_eq_true]
  constructor
  · rintro ⟨⟨first, rest, same, solid⟩, unbroken⟩
    exact ⟨⟨first, by rw [same]; rfl, decide_eq_true solid⟩, unbroken⟩
  · rintro ⟨⟨first, begins, solid⟩, unbroken⟩
    obtain ⟨rest, same⟩ := List.head?_eq_some_iff.mp begins
    exact ⟨⟨first, rest, same, of_decide_eq_true solid⟩, unbroken⟩

instance (text : String) : Decidable (Plain text) :=
  decidable_of_iff _ (plain_iff text).symm

/-- The lines can be told apart in a text. -/
def AllPlain (lines : List OutlineLine) : Prop :=
  ∀ line ∈ lines, Plain line.text

/-! ## From text to lines -/

theorem toList_lineText (line : OutlineLine) :
    (lineText line).toList =
      List.replicate (2 * line.level) ' ' ++ line.text.toList ++ ['\n'] := by
  simp [lineText]

theorem toList_render (lines : List OutlineLine) :
    (render lines).toList = lines.flatMap fun line => (lineText line).toList := by
  have grows : ∀ start : String,
      (lines.foldl (fun text line => text ++ lineText line) start).toList =
        start.toList ++ lines.flatMap fun line => (lineText line).toList := by
    induction lines with
    | nil => simp
    | cons line rest inductionHypothesis =>
        intro start
        rw [List.foldl_cons, inductionHypothesis]
        simp
  simpa [render] using grows ""

/-- The blanks in front of a text can be counted. -/
theorem blanks_append_inj {first second : Nat} {left right : Char} {leftRest rightRest : List Char}
    (leftSolid : left ≠ ' ') (rightSolid : right ≠ ' ')
    (same : List.replicate first ' ' ++ left :: leftRest =
      List.replicate second ' ' ++ right :: rightRest) :
    first = second ∧ left :: leftRest = right :: rightRest := by
  induction first generalizing second with
  | zero =>
      cases second with
      | zero => exact ⟨rfl, same⟩
      | succ second => exact absurd (List.head_eq_of_cons_eq same) leftSolid
  | succ first inductionHypothesis =>
      cases second with
      | zero => exact absurd (List.head_eq_of_cons_eq same).symm rightSolid
      | succ second =>
          obtain ⟨rfl, rests⟩ := inductionHypothesis (List.tail_eq_of_cons_eq same)
          exact ⟨rfl, rests⟩

theorem lineText_append_inj {first second : OutlineLine} {firstRest secondRest : List Char}
    (firstPlain : Plain first.text) (secondPlain : Plain second.text)
    (same : (lineText first).toList ++ firstRest = (lineText second).toList ++ secondRest) :
    first = second ∧ firstRest = secondRest := by
  have unbroken : ∀ line : OutlineLine, Plain line.text →
      '\n' ∉ List.replicate (2 * line.level) ' ' ++ line.text.toList := by
    intro line plain member
    rcases List.mem_append.mp member with blank | inside
    · exact absurd (List.eq_of_mem_replicate blank) (by decide)
    · exact plain.unbroken inside
  rw [toList_lineText, toList_lineText, List.append_assoc _ ['\n'], List.append_assoc _ ['\n'],
    List.singleton_append, List.singleton_append] at same
  obtain ⟨lines, rests⟩ :=
    Text.append_delimiter_inj (unbroken first firstPlain) (unbroken second secondPlain) same
  obtain ⟨left, leftRest, leftText, leftSolid⟩ := firstPlain.solid
  obtain ⟨right, rightRest, rightText, rightSolid⟩ := secondPlain.solid
  rw [leftText, rightText] at lines
  obtain ⟨levels, texts⟩ := blanks_append_inj leftSolid rightSolid lines
  rw [← leftText, ← rightText] at texts
  have sameLevel : first.level = second.level := by omega
  have sameText : first.text = second.text := String.toList_injective texts
  refine ⟨?_, rests⟩
  obtain ⟨level, text⟩ := first
  cases sameLevel
  cases sameText
  rfl

/-- The lines of an outline can be read off its text. -/
theorem render_injective {first second : List OutlineLine}
    (firstPlain : AllPlain first) (secondPlain : AllPlain second)
    (same : render first = render second) : first = second := by
  have chars := congrArg String.toList same
  rw [toList_render, toList_render] at chars
  clear same
  induction first generalizing second with
  | nil =>
      cases second with
      | nil => rfl
      | cons line rest =>
          simp [toList_lineText] at chars
  | cons line rest inductionHypothesis =>
      cases second with
      | nil => simp [toList_lineText] at chars
      | cons other others =>
          rw [AllPlain, List.forall_mem_cons] at firstPlain secondPlain
          rw [List.flatMap_cons, List.flatMap_cons] at chars
          obtain ⟨rfl, rests⟩ := lineText_append_inj firstPlain.1 secondPlain.1 chars
          rw [inductionHypothesis firstPlain.2 secondPlain.2 rests]

/-! ## From lines to lists -/

/-- Where the lines begin, a part that started at the level is over. -/
def Ends (level : Nat) (lines : List OutlineLine) : Prop :=
  ∀ line ∈ lines.head?, line.level < level

theorem Ends.succ {level : Nat} {lines : List OutlineLine} (ends : Ends level lines) :
    Ends (level + 1) lines :=
  fun line first => Nat.lt_succ_of_lt (ends line first)

section Lists

variable {α : Type} {proper : α → Prop} {level : Nat}
  {write : α → List OutlineLine → List OutlineLine}

/-- An item and what follows it can be read off its lines, when what follows does not belong
to the item. -/
def ReadsBack (proper : α → Prop) (level : Nat) (write : α → List OutlineLine → List OutlineLine)
    (item : α) : Prop :=
  ∀ (other : α) (rest otherRest : List OutlineLine), proper other →
    Ends (level + 1) rest → Ends (level + 1) otherRest →
    write item rest = write other otherRest → item = other ∧ rest = otherRest

variable (begins : ∀ item rest, ∃ text more, write item rest = ⟨level, text⟩ :: more)

include begins

theorem ends_foldr (items : List α) {rest : List OutlineLine} (ends : Ends level rest) :
    Ends (level + 1) (items.foldr write rest) := by
  intro line first
  cases items with
  | nil => exact ends.succ line first
  | cons item items =>
      obtain ⟨text, more, begun⟩ := begins item (items.foldr write rest)
      rw [List.foldr_cons, begun] at first
      cases first
      exact Nat.lt_succ_self level

/-- The rest after a list of items is no further item. -/
theorem ne_foldr_cons (item : α) (items : List α) {rest otherRest : List OutlineLine}
    (ends : Ends level rest) : rest ≠ (item :: items).foldr write otherRest := by
  intro same
  obtain ⟨text, more, begun⟩ := begins item (items.foldr write otherRest)
  rw [List.foldr_cons, begun] at same
  have below := ends ⟨level, text⟩ (by rw [same]; rfl)
  exact Nat.lt_irrefl level below

theorem readsBack_foldr {items : List α}
    (readsBack : ∀ item ∈ items, ReadsBack proper level write item)
    {others : List α} (othersProper : ∀ other ∈ others, proper other)
    {rest otherRest : List OutlineLine} (ends : Ends level rest) (otherEnds : Ends level otherRest)
    (same : items.foldr write rest = others.foldr write otherRest) :
    items = others ∧ rest = otherRest := by
  induction items generalizing others with
  | nil =>
      cases others with
      | nil => exact ⟨rfl, same⟩
      | cons other others => exact absurd same (ne_foldr_cons begins other others ends)
  | cons item items inductionHypothesis =>
      cases others with
      | nil => exact absurd same.symm (ne_foldr_cons begins item items otherEnds)
      | cons other others =>
          rw [List.forall_mem_cons] at readsBack othersProper
          obtain ⟨rfl, remaining⟩ := readsBack.1 other _ _ othersProper.1
            (ends_foldr begins items ends) (ends_foldr begins others otherEnds) same
          obtain ⟨rfl, rests⟩ := inductionHypothesis readsBack.2 othersProper.2 remaining
          exact ⟨rfl, rests⟩

end Lists

end Outline

/-! ## Expressions -/

theorem BinaryOp.symbol_injective {first second : BinaryOp} (same : first.symbol = second.symbol) :
    first = second := by
  cases first <;> cases second <;> first | rfl | exact absurd same (by decide)

theorem Expr.Proper.operands {expr : Expr} (proper : expr.Proper) :
    ∀ operand ∈ expr.operands, operand.Proper := by
  cases proper with
  | call isName operands => exact operands
  | binary first second => simpa [Expr.operands] using ⟨first, second⟩
  | number _ | text _ | ident _ => exact fun _ member => absurd member List.not_mem_nil

/-- Induction on a proper expression with one case, the same for all kinds. -/
theorem Expr.Proper.induct {motive : ∀ expr : Expr, expr.Proper → Prop}
    (step : ∀ (expr : Expr) (proper : expr.Proper), (∀ (operand : Expr)
      (member : operand ∈ expr.operands), motive operand (proper.operands operand member)) →
      motive expr proper) {expr : Expr} (proper : expr.Proper) : motive expr proper := by
  induction proper with
  | number literal => exact step _ (.number literal) nofun
  | text quotable => exact step _ (.text quotable) nofun
  | ident isName => exact step _ (.ident isName) nofun
  | call isName operands inductionHypothesis =>
      exact step _ (.call isName operands) inductionHypothesis
  | binary first second firstHypothesis secondHypothesis =>
      apply step _ (.binary first second)
      simp only [Expr.operands, List.mem_cons, List.not_mem_nil, or_false]
      rintro operand (rfl | rfl)
      · exact firstHypothesis
      · exact secondHypothesis

theorem Expr.Proper.eq_of_label {first second : Expr} (firstProper : first.Proper)
    (secondProper : second.Proper) (labels : first.label = second.label)
    (parts : first.operands = second.operands) : first = second := by
  cases firstProper <;> cases secondProper <;>
    simp only [Expr.label, Expr.operands, String.append_right_inj] at labels parts
  case number.number _ literal _ other => rw [Number.display_injective literal other labels]
  case text.text => rw [Text.quoteString_injective labels]
  case ident.ident => rw [labels]
  case call.call => rw [labels, parts]
  case binary.binary =>
    cases parts
    rw [BinaryOp.symbol_injective labels]
  all_goals simp [← String.toList_inj] at labels

namespace Outline

theorem ofExpr_begins (level : Nat) (expr : Expr) (rest : List OutlineLine) :
    ∃ text more, ofExpr level expr rest = ⟨level, text⟩ :: more :=
  ⟨_, _, ofExpr_eq level expr rest⟩

theorem readsBack_ofExpr {expr : Expr} (proper : expr.Proper) (level : Nat) :
    ReadsBack Expr.Proper level (ofExpr level) expr := by
  induction proper using Expr.Proper.induct generalizing level with
  | step expr proper inductionHypothesis =>
      intro other rest otherRest otherProper ends otherEnds same
      rw [ofExpr_eq, ofExpr_eq, List.cons_eq_cons, OutlineLine.mk.injEq] at same
      obtain ⟨⟨_, labels⟩, tails⟩ := same
      obtain ⟨parts, rests⟩ := readsBack_foldr (ofExpr_begins (level + 1))
        (fun operand member => inductionHypothesis operand member (level + 1))
        otherProper.operands ends otherEnds tails
      exact ⟨proper.eq_of_label otherProper labels parts, rests⟩

end Outline

/-! ## Statements -/

/-- The first character of the line of a statement, different for each kind. -/
def Stmt.initial : Stmt Expr → Char
  | .letBind _ _ => 'l'
  | .fnDef _ _ _ => 'f'
  | .ret _ => 'r'
  | .expr _ => 'e'

theorem Stmt.head?_label (stmt : Stmt Expr) : stmt.label.toList.head? = some stmt.initial := by
  cases stmt <;> simp [Stmt.label, Stmt.initial]

theorem IsName.toList_ne_nil {name : String} (isName : IsName name) : name.toList ≠ [] := by
  obtain ⟨first, rest, same, _⟩ := isName
  rw [same]
  exact List.cons_ne_nil first rest

theorem IsName.no_comma {name : String} (isName : IsName name) : ',' ∉ name.toList :=
  isName.not_mem (by decide)

theorem toList_intercalate_cons (name next : String) (rest : List String) :
    (", ".intercalate (name :: next :: rest)).toList =
      name.toList ++ ',' :: ' ' :: (", ".intercalate (next :: rest)).toList := by
  simp [String.intercalate_cons_cons]

theorem intercalate_cons_ne_empty {name : String} (isName : IsName name) (rest : List String) :
    (", ".intercalate (name :: rest)).toList ≠ [] := by
  cases rest with
  | nil => simpa using isName.toList_ne_nil
  | cons next rest => simp

/-- Names can be read off the list that shows them. -/
theorem intercalate_injective {first second : List String}
    (firstNames : ∀ name ∈ first, IsName name) (secondNames : ∀ name ∈ second, IsName name)
    (same : (", ".intercalate first).toList = (", ".intercalate second).toList) :
    first = second := by
  induction first generalizing second with
  | nil =>
      cases second with
      | nil => rfl
      | cons name rest =>
          exact absurd same.symm (intercalate_cons_ne_empty (secondNames name (by simp)) rest)
  | cons name rest inductionHypothesis =>
      cases second with
      | nil => exact absurd same (intercalate_cons_ne_empty (firstNames name (by simp)) rest)
      | cons other others =>
          rw [List.forall_mem_cons] at firstNames secondNames
          obtain ⟨isName, restNames⟩ := firstNames
          obtain ⟨otherIsName, otherNames⟩ := secondNames
          -- A list of one name has no comma, so both lists go on or both end here.
          cases rest with
          | nil =>
              cases others with
              | nil => simpa [String.toList_inj] using same
              | cons next others =>
                  rw [String.intercalate_singleton, toList_intercalate_cons] at same
                  exact absurd (by rw [same]; simp) isName.no_comma
          | cons next rest =>
              cases others with
              | nil =>
                  rw [String.intercalate_singleton, toList_intercalate_cons] at same
                  exact absurd (by rw [← same]; simp) otherIsName.no_comma
              | cons otherNext others =>
                  rw [toList_intercalate_cons, toList_intercalate_cons] at same
                  obtain ⟨names, rests⟩ :=
                    Text.append_delimiter_inj isName.no_comma otherIsName.no_comma same
                  rw [String.toList_injective names, inductionHypothesis restNames otherNames
                    (List.tail_eq_of_cons_eq rests)]

/-- The line of a function shows its name and its parameters. -/
theorem fnLine_injective {name other : String} {params otherParams : List String}
    (isName : IsName name) (otherIsName : IsName other)
    (areNames : ∀ param ∈ params, IsName param) (otherNames : ∀ param ∈ otherParams, IsName param)
    (same : "fn " ++ name ++ "(" ++ ", ".intercalate params ++ ")" =
      "fn " ++ other ++ "(" ++ ", ".intercalate otherParams ++ ")") :
    name = other ∧ params = otherParams := by
  simp only [String.append_assoc, String.append_right_inj] at same
  have chars : name.toList ++ '(' :: ((", ".intercalate params).toList ++ [')']) =
      other.toList ++ '(' :: ((", ".intercalate otherParams).toList ++ [')']) := by
    simpa using congrArg String.toList same
  obtain ⟨names, lists⟩ := Text.append_delimiter_inj (isName.not_mem (by decide))
    (otherIsName.not_mem (by decide)) chars
  exact ⟨String.toList_injective names,
    intercalate_injective areNames otherNames (List.append_cancel_right lists)⟩

namespace Outline

/-- The lines of the parts of a statement, put in front of `rest`. -/
def parts (level : Nat) : Stmt Expr → List OutlineLine → List OutlineLine
  | .fnDef _ _ body, rest => body.foldr (ofStmt level) rest
  | .letBind _ value, rest | .ret value, rest | .expr value, rest => ofExpr level value rest

theorem ofBlock_eq (level : Nat) (stmts : List (Stmt Expr)) (rest : List OutlineLine) :
    ofBlock level stmts rest = stmts.foldr (ofStmt level) rest := by
  induction stmts with
  | nil => rfl
  | cons stmt stmts inductionHypothesis =>
      rw [ofBlock, List.foldr_cons, inductionHypothesis]

theorem ofStmt_eq (level : Nat) (stmt : Stmt Expr) (rest : List OutlineLine) :
    ofStmt level stmt rest = ⟨level, stmt.label⟩ :: parts (level + 1) stmt rest := by
  cases stmt with
  | fnDef name params body => rw [ofStmt, ofBlock_eq]; rfl
  | _ => rfl

theorem ofStmt_begins (level : Nat) (stmt : Stmt Expr) (rest : List OutlineLine) :
    ∃ text more, ofStmt level stmt rest = ⟨level, text⟩ :: more :=
  ⟨_, _, ofStmt_eq level stmt rest⟩

theorem of_ofStmt_eq {level : Nat} {first second : Stmt Expr} {rest otherRest : List OutlineLine}
    (same : ofStmt level first rest = ofStmt level second otherRest) :
    first.label = second.label ∧ first.initial = second.initial ∧
      parts (level + 1) first rest = parts (level + 1) second otherRest := by
  rw [ofStmt_eq, ofStmt_eq, List.cons_eq_cons, OutlineLine.mk.injEq] at same
  obtain ⟨⟨_, labels⟩, tails⟩ := same
  have initials := first.head?_label
  rw [labels, second.head?_label] at initials
  exact ⟨labels, (Option.some.inj initials).symm, tails⟩

theorem readsBack_ofStmt {stmt : Stmt Expr} (isProper : stmt.Proper) (level : Nat) :
    ReadsBack Stmt.Proper level (ofStmt level) stmt := by
  induction isProper generalizing level with
  | letBind isName proper =>
      intro other rest otherRest otherProper ends otherEnds same
      obtain ⟨labels, kinds, tails⟩ := of_ofStmt_eq same
      cases otherProper with
      | letBind otherIsName otherProper =>
          simp only [Stmt.label, String.append_right_inj] at labels
          obtain ⟨rfl, rests⟩ := readsBack_ofExpr proper (level + 1) _ _ _ otherProper
            ends.succ otherEnds.succ tails
          exact ⟨by rw [labels], rests⟩
      | _ => simp [Stmt.initial] at kinds
  | fnDef isName areNames proper inductionHypothesis =>
      intro other rest otherRest otherProper ends otherEnds same
      obtain ⟨labels, kinds, tails⟩ := of_ofStmt_eq same
      cases otherProper with
      | fnDef otherIsName otherNames otherProper =>
          obtain ⟨rfl, rfl⟩ := fnLine_injective isName otherIsName areNames otherNames labels
          obtain ⟨rfl, rests⟩ := readsBack_foldr (ofStmt_begins (level + 1))
            (fun stmt member => inductionHypothesis stmt member (level + 1)) otherProper
            ends otherEnds tails
          exact ⟨rfl, rests⟩
      | _ => simp [Stmt.initial] at kinds
  | ret proper =>
      intro other rest otherRest otherProper ends otherEnds same
      obtain ⟨_, kinds, tails⟩ := of_ofStmt_eq same
      cases otherProper with
      | ret otherProper =>
          obtain ⟨rfl, rests⟩ := readsBack_ofExpr proper (level + 1) _ _ _ otherProper
            ends.succ otherEnds.succ tails
          exact ⟨rfl, rests⟩
      | _ => simp [Stmt.initial] at kinds
  | expr proper =>
      intro other rest otherRest otherProper ends otherEnds same
      obtain ⟨_, kinds, tails⟩ := of_ofStmt_eq same
      cases otherProper with
      | expr otherProper =>
          obtain ⟨rfl, rests⟩ := readsBack_ofExpr proper (level + 1) _ _ _ otherProper
            ends.succ otherEnds.succ tails
          exact ⟨rfl, rests⟩
      | _ => simp [Stmt.initial] at kinds

/-- The statements of a program can be read off the lines of its outline. -/
theorem ofBlock_injective {first second : List (Stmt Expr)}
    (firstProper : ∀ stmt ∈ first, stmt.Proper) (secondProper : ∀ stmt ∈ second, stmt.Proper)
    (same : ofBlock 0 first [] = ofBlock 0 second []) : first = second := by
  rw [ofBlock_eq, ofBlock_eq] at same
  have atEnd : Ends 0 [] := nofun
  exact (readsBack_foldr (ofStmt_begins 0)
    (fun stmt member => readsBack_ofStmt (firstProper stmt member) 0) secondProper
    atEnd atEnd same).1

/-! ## Plain lines -/

theorem Plain.append {word text : String} (plain : Plain word) (unbroken : '\n' ∉ text.toList) :
    Plain (word ++ text) := by
  obtain ⟨first, rest, same, solid⟩ := plain.solid
  exact ⟨⟨first, rest ++ text.toList, by simp [same], solid⟩,
    Text.not_mem_append plain.unbroken unbroken⟩

theorem plain_label {expr : Expr} (proper : expr.Proper) : Plain expr.label := by
  cases proper with
  | number literal =>
      exact Plain.append (by decide) (Number.display_unbroken _)
  | text quotable =>
      exact Plain.append (by decide) (Text.quoteString_no_break _)
  | ident isName =>
      exact Plain.append (by decide) (isName.not_mem (by decide))
  | call isName operands =>
      exact Plain.append (by decide) (isName.not_mem (by decide))
  | @binary op left right first second =>
      exact Plain.append (by decide) (by cases op <;> decide)

theorem plain_stmtLabel {stmt : Stmt Expr} (proper : stmt.Proper) : Plain stmt.label := by
  cases proper with
  | letBind isName proper =>
      exact Plain.append (by decide) (isName.not_mem (by decide))
  | @fnDef name params body isName areNames proper =>
      have word : Plain "fn " := by decide
      have list : '\n' ∉ (", ".intercalate params).toList :=
        Text.not_mem_intercalate (by decide) fun param member =>
          (areNames param member).not_mem (by decide)
      exact (((word.append (isName.not_mem (by decide))).append (by decide)).append
        list).append (by decide)
  | ret proper => exact (by decide : Plain "return")
  | expr proper => exact (by decide : Plain "expr")

theorem allPlain_foldr {α : Type} {write : α → List OutlineLine → List OutlineLine}
    {items : List α}
    (plain : ∀ item ∈ items, ∀ rest, AllPlain rest → AllPlain (write item rest))
    {rest : List OutlineLine} (restPlain : AllPlain rest) : AllPlain (items.foldr write rest) := by
  induction items with
  | nil => exact restPlain
  | cons item items inductionHypothesis =>
      rw [List.forall_mem_cons] at plain
      exact plain.1 _ (inductionHypothesis plain.2)

theorem allPlain_ofExpr {expr : Expr} (proper : expr.Proper) (level : Nat)
    {rest : List OutlineLine} (restPlain : AllPlain rest) : AllPlain (ofExpr level expr rest) := by
  induction proper using Expr.Proper.induct generalizing level rest with
  | step expr proper inductionHypothesis =>
      rw [ofExpr_eq]
      exact List.forall_mem_cons.mpr ⟨plain_label proper, allPlain_foldr
        (fun operand member _ => inductionHypothesis operand member (level + 1)) restPlain⟩

theorem allPlain_ofStmt {stmt : Stmt Expr} (proper : stmt.Proper) (level : Nat)
    {rest : List OutlineLine} (restPlain : AllPlain rest) : AllPlain (ofStmt level stmt rest) := by
  rw [ofStmt_eq]
  refine List.forall_mem_cons.mpr ⟨plain_stmtLabel proper, ?_⟩
  induction proper generalizing level rest with
  | letBind isName proper => exact allPlain_ofExpr proper (level + 1) restPlain
  | fnDef isName areNames proper inductionHypothesis =>
      refine allPlain_foldr (fun stmt member rest restPlain => ?_) restPlain
      rw [ofStmt_eq]
      exact List.forall_mem_cons.mpr ⟨plain_stmtLabel (proper stmt member),
        inductionHypothesis stmt member (level + 1) restPlain⟩
  | ret proper => exact allPlain_ofExpr proper (level + 1) restPlain
  | expr proper => exact allPlain_ofExpr proper (level + 1) restPlain

theorem allPlain_ofBlock {stmts : List (Stmt Expr)} (proper : ∀ stmt ∈ stmts, stmt.Proper) :
    AllPlain (ofBlock 0 stmts []) := by
  rw [ofBlock_eq]
  exact allPlain_foldr (fun stmt member _ => allPlain_ofStmt (proper stmt member) 0) nofun

end Outline

/-- The outline of a program that is read from source text exists and determines the
program: its statements, its table and all positions in it, and every number. -/
theorem outline_determines_program {firstSource secondSource : String} {first second : Program}
    (firstRead : readProgram firstSource = .ok first)
    (secondRead : readProgram secondSource = .ok second) :
    ∃ firstOutline secondOutline, first.outline? = some firstOutline ∧
      second.outline? = some secondOutline ∧ (firstOutline = secondOutline → first = second) := by
  obtain ⟨firstTrees, rfl, firstProper⟩ := readProgram_eq_ok firstRead
  obtain ⟨secondTrees, rfl, secondProper⟩ := readProgram_eq_ok secondRead
  have outlines : ∀ trees, (Program.ofTrees trees).outline? =
      some (Outline.render (Outline.ofBlock 0 trees [])) := by
    intro trees
    rw [Program.outline?_eq, Program.trees?_ofTrees, Option.map_some]
  refine ⟨_, _, outlines firstTrees, outlines secondTrees, ?_⟩
  intro same
  have lines := Outline.render_injective (Outline.allPlain_ofBlock firstProper)
    (Outline.allPlain_ofBlock secondProper) same
  rw [Outline.ofBlock_injective firstProper secondProper lines]

/-- Two spellings with one outline have one program. -/
theorem respelled_source_keeps_program :
    ∃ first second : Program, readProgram "let x=1.50*(y+2);" = .ok first ∧
      readProgram "let x =\n  (1.5) * (y + 2.0);" = .ok second ∧
      first.outline? = second.outline? ∧ first = second := by
  have shown : ((readProgram "let x=1.50*(y+2);").toOption.bind
      Program.outline?).isSome = true := by decide +kernel
  have same : (readProgram "let x=1.50*(y+2);").toOption.bind Program.outline? =
      (readProgram "let x =\n  (1.5) * (y + 2.0);").toOption.bind
        Program.outline? := by decide +kernel
  cases firstRead : readProgram "let x=1.50*(y+2);" with
  | error reason =>
      rw [firstRead] at shown
      cases shown
  | ok first =>
      cases secondRead : readProgram "let x =\n  (1.5) * (y + 2.0);" with
      | error reason =>
          rw [same, secondRead] at shown
          cases shown
      | ok second =>
          rw [firstRead, secondRead] at same
          obtain ⟨firstOutline, secondOutline, firstShown, secondShown, determines⟩ :=
            outline_determines_program firstRead secondRead
          have sameOutline : first.outline? = second.outline? := same
          refine ⟨first, second, rfl, rfl, sameOutline, determines ?_⟩
          rw [firstShown, secondShown] at sameOutline
          exact Option.some.inj sameOutline

end ScopeScript
