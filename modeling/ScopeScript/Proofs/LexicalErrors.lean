import Mathlib.Data.List.Monad
import Mathlib.Data.String.Basic
import ScopeScript.Proofs.Lexing

/-!
Contract: a lexical error stands where no token begins, after a text that has tokens.

Owns: the texts at which nothing begins, what the lexer reads before it stops, how such a
text can be cut off and put back, and the exact condition for an error.

Where the lexer stops is known from the text before and the text after.  The two meet in
one place only: a point after a whole number belongs to the number if a digit follows it.
-/

set_option autoImplicit false

namespace ScopeScript

namespace Lexer

/-! ## Where nothing begins -/

/-- The symbols that are tokens by themselves. -/
def symbols : List Char :=
  ['+', '-', '*', '/', '=', ',', '(', ')', '\x7b', '\x7d', ';']

/-- White space or a token may begin with the character. -/
def MayBegin (char : Char) : Prop :=
  char = ' ' ∨ char = '\t' ∨ char = '\r' ∨ char = '\n' ∨ char.isAlpha = true ∨
    char.isDigit = true ∨ char = '_' ∨ char = '"' ∨ char ∈ symbols

/-- Every quote in the text stands behind a line break. -/
def Unclosed (chars : List Char) : Prop :=
  ∀ inside after, chars = inside ++ '"' :: after → '\n' ∈ inside

/-- Neither white space nor a token begins here: the first character begins none, or it is
a quote that is not closed on its line. -/
def NothingBegins (first : Char) (rest : List Char) : Prop :=
  ¬ MayBegin first ∨ first = '"' ∧ Unclosed rest

theorem ofSymbol?_eq_none {char : Char} : TokenKind.ofSymbol? char = none ↔ char ∉ symbols := by
  constructor
  · intro none member
    have stands : ∀ symbol ∈ symbols, TokenKind.ofSymbol? symbol ≠ Option.none := by
      simp [symbols, TokenKind.ofSymbol?]
    exact stands char member none
  · intro other
    rw [Option.eq_none_iff_forall_ne_some]
    intro kind found
    apply other
    have symbol := ofSymbol?_eq_some.mp found
    cases kind <;> cases symbol <;> simp [symbols]

theorem dropWhile_isQuotable {inside : List Char} (unbroken : '\n' ∉ inside)
    (after : List Char) :
    ∃ tail, (inside ++ '"' :: after).dropWhile isQuotable = '"' :: tail := by
  induction inside with
  | nil => exact ⟨after, rfl⟩
  | cons char rest inductionHypothesis =>
      rw [List.mem_cons, not_or] at unbroken
      by_cases quotable : isQuotable char = true
      · rw [List.cons_append, List.dropWhile_cons_of_pos quotable]
        exact inductionHypothesis unbroken.2
      · rw [List.cons_append, List.dropWhile_cons_of_neg quotable]
        rw [isQuotable_iff, not_and_or, not_not, not_not] at quotable
        rcases quotable with rfl | rfl
        · exact ⟨_, rfl⟩
        · exact absurd rfl unbroken.1

theorem quotedText?_eq_none {rest : List Char} : quotedText? rest = none ↔ Unclosed rest := by
  constructor
  · rintro none inside after rfl
    by_contra unbroken
    obtain ⟨tail, dropped⟩ := dropWhile_isQuotable unbroken after
    rw [quotedText?, dropped] at none
    cases none
  · intro unclosed
    rw [Option.eq_none_iff_forall_ne_some]
    rintro ⟨token, after⟩ found
    unfold quotedText? at found
    split at found
    case h_1 tail quote =>
        have split := List.takeWhile_append_dropWhile (p := isQuotable) (l := rest)
        rw [quote] at split
        have broken := unclosed _ tail split.symm
        exact absurd (keep_of_mem_takeWhile broken) (by decide)
    case h_2 => cases found

theorem token?_eq_none {first : Char} (rest : List Char) (other : first ≠ '"') :
    token? first rest = none ↔
      first.isDigit = false ∧ isIdentStart first = false ∧ first ∉ symbols := by
  rw [← ofSymbol?_eq_none, token?, if_neg other]
  cases first.isDigit <;> cases isIdentStart first <;> simp

/-- The lexer stops exactly where nothing begins. -/
theorem nothingBegins_iff {first : Char} {rest : List Char} :
    NothingBegins first rest ↔ isSpace first = false ∧ token? first rest = none := by
  by_cases quote : first = '"'
  · subst quote
    have stops : token? '"' rest = none ↔ Unclosed rest := quotedText?_eq_none
    have solid : isSpace '"' = false := by decide
    simp [NothingBegins, MayBegin, stops, solid]
  · rw [token?_eq_none rest quote, ← Bool.not_eq_true, ← Bool.not_eq_true, ← Bool.not_eq_true,
      isSpace_iff, isIdentStart_iff, NothingBegins, MayBegin]
    simp only [quote, not_or, false_and, or_false, not_false_eq_true, true_and, and_assoc]
    constructor
    · rintro ⟨blank, tab, carriage, lineFeed, letter, digit, underscore, symbol⟩
      exact ⟨blank, tab, carriage, lineFeed, digit, letter, underscore, symbol⟩
    · rintro ⟨blank, tab, carriage, lineFeed, digit, letter, underscore, symbol⟩
      exact ⟨blank, tab, carriage, lineFeed, letter, digit, underscore, symbol⟩

/-! ## Reading up to a place -/

/-- The lexer reads the tokens and comes to `rest`. -/
inductive Reads : List Char → List Token → List Char → Prop where
  | nothing {chars : List Char} : Reads chars [] chars
  | space {first : Char} {chars rest : List Char} {tokens : List Token}
      (space : isSpace first = true) (later : Reads chars tokens rest) :
      Reads (first :: chars) tokens rest
  | token {first : Char} {chars after rest : List Char} {token : Token} {tokens : List Token}
      (solid : isSpace first = false) (taken : token? first chars = some (token, after))
      (later : Reads after tokens rest) : Reads (first :: chars) (token :: tokens) rest

theorem Reads.scan_eq {chars rest : List Char} {tokens : List Token}
    (reads : Reads chars tokens rest) (found : List Token) :
    scan found chars = scan (tokens.reverse ++ found) rest := by
  induction reads generalizing found with
  | nothing => rfl
  | space space later inductionHypothesis =>
      rw [scan_space found _ space, inductionHypothesis]
  | token solid taken later inductionHypothesis =>
      rw [scan_token found solid taken, inductionHypothesis, List.reverse_cons,
        List.append_assoc, List.singleton_append]

/-- The lexer comes to the end or to a place where nothing begins. -/
theorem exists_reads (chars : List Char) :
    ∃ tokens rest, Reads chars tokens rest ∧
      ∀ first more, rest = first :: more → NothingBegins first more := by
  induction length : chars.length using Nat.strongRecOn generalizing chars with
  | ind _ inductionHypothesis =>
      subst length
      cases chars with
      | nil => exact ⟨[], [], .nothing, nofun⟩
      | cons first more =>
          cases space : isSpace first with
          | true =>
              obtain ⟨tokens, rest, reads, stops⟩ :=
                inductionHypothesis more.length (Nat.lt_succ_self _) more rfl
              exact ⟨tokens, rest, .space space reads, stops⟩
          | false =>
              cases taken : token? first more with
              | none =>
                  refine ⟨[], first :: more, .nothing, ?_⟩
                  rintro _ _ ⟨⟩
                  exact nothingBegins_iff.mpr ⟨space, taken⟩
              | some result =>
                  obtain ⟨token, after⟩ := result
                  obtain ⟨tokens, rest, reads, stops⟩ := inductionHypothesis after.length
                    (Nat.lt_succ_of_le (length_token?_le taken)) after rfl
                  exact ⟨token :: tokens, rest, .token space taken reads, stops⟩

theorem scan_of_stop {first : Char} {rest : List Char} (found : List Token)
    (stops : NothingBegins first rest) : scan found (first :: rest) = .error (first, rest) := by
  obtain ⟨solid, stuck⟩ := nothingBegins_iff.mp stops
  exact scan_stuck found solid stuck

theorem scan_eq_ok {chars : List Char} {tokens : List Token} :
    scan [] chars = .ok tokens ↔ Reads chars tokens [] := by
  constructor
  · intro scanned
    obtain ⟨read, rest, reads, stops⟩ := exists_reads chars
    rw [reads.scan_eq] at scanned
    cases rest with
    | nil =>
        rw [scan_nil] at scanned
        cases scanned
        simpa using reads
    | cons first more =>
        rw [scan_of_stop _ (stops first more rfl)] at scanned
        cases scanned
  · intro reads
    rw [reads.scan_eq, scan_nil]
    simp

theorem scan_eq_error {chars rest : List Char} {first : Char} :
    scan [] chars = .error (first, rest) ↔
      NothingBegins first rest ∧ ∃ tokens, Reads chars tokens (first :: rest) := by
  constructor
  · intro scanned
    obtain ⟨read, place, reads, stops⟩ := exists_reads chars
    rw [reads.scan_eq] at scanned
    cases place with
    | nil =>
        rw [scan_nil] at scanned
        cases scanned
    | cons other more =>
        have stop := stops other more rfl
        rw [scan_of_stop _ stop] at scanned
        cases scanned
        exact ⟨stop, read, reads⟩
  · rintro ⟨stops, tokens, reads⟩
    rw [reads.scan_eq, scan_of_stop _ stops]

/-! ## Cutting off and putting back -/

theorem Longest.of_append {token : Token} {before rest : List Char}
    (longest : Longest token (before ++ rest)) : Longest token before := by
  have stops : ∀ {keep : Char → Bool}, Stops keep (before ++ rest) → Stops keep before := by
    intro keep stops char head
    apply stops
    rw [List.head?_append, Option.mem_def.mp head]
    rfl
  unfold Longest at longest ⊢
  split
  case h_1 isNumber =>
      simp only [isNumber] at longest
      refine ⟨stops longest.1, fun noPoint digit more point => ?_⟩
      exact longest.2 noPoint digit (more ++ rest) (by rw [point]; rfl)
  case h_2 isIdent =>
      simp only [isIdent] at longest
      exact stops longest
  case h_3 => trivial

/-- What was read before a place has the same tokens by itself. -/
theorem Reads.before {chars rest : List Char} {tokens : List Token}
    (reads : Reads chars tokens rest) :
    ∃ before, chars = before ++ rest ∧ Reads before tokens [] := by
  induction reads with
  | nothing => exact ⟨[], rfl, .nothing⟩
  | @space first chars rest tokens space later inductionHypothesis =>
      obtain ⟨before, rfl, reads⟩ := inductionHypothesis
      exact ⟨first :: before, rfl, .space space reads⟩
  | @token first chars after rest token tokens solid taken later inductionHypothesis =>
      obtain ⟨before, rfl, reads⟩ := inductionHypothesis
      obtain ⟨valid, whole, longest⟩ := token?_eq_some.mp taken
      obtain ⟨head, others, same, _⟩ := rendering_begins valid
      rw [same, List.cons_append, List.cons.injEq] at whole
      obtain ⟨rfl, rfl⟩ := whole
      have heads : Heads (first :: (others ++ before)) token before :=
        ⟨valid, by rw [same, List.cons_append], longest.of_append⟩
      exact ⟨first :: (others ++ before), by simp,
        .token solid (token?_eq_some.mpr heads) reads⟩

/-- The text ends in its last token, and this is a number without a fraction. -/
def EndsInInteger (chars : List Char) (tokens : List Token) : Prop :=
  ∃ lead text init, chars = lead ++ String.toList text ∧ tokens = init ++ [⟨.number, text⟩] ∧
    '.' ∉ text.toList

theorem EndsInInteger.append {chars : List Char} {tokens : List Token}
    (ends : EndsInInteger chars tokens) (lead : List Char) (init : List Token) :
    EndsInInteger (lead ++ chars) (init ++ tokens) := by
  obtain ⟨before, text, others, rfl, rfl, integer⟩ := ends
  exact ⟨lead ++ before, text, init ++ others, by simp, by simp, integer⟩

/-- A point and a digit do not both follow: they would belong to a number before them. -/
def NoFraction (chars : List Char) : Prop :=
  ∀ digit more, chars = '.' :: digit :: more → digit.isDigit = false

theorem NothingBegins.not_continues {first : Char} {rest : List Char}
    (stops : NothingBegins first rest) :
    first.isDigit = false ∧ isIdentPart first = false := by
  rcases stops with unknown | ⟨rfl, _⟩
  · simp only [MayBegin, not_or, Bool.not_eq_true] at unknown
    obtain ⟨_, _, _, _, letter, digit, underscore, _⟩ := unknown
    exact ⟨digit, by simp [isIdentPart, Char.isAlphanum, letter, digit, underscore]⟩
  · decide

theorem NothingBegins.longest {first : Char} {rest : List Char}
    (stops : NothingBegins first rest) {token : Token}
    (noFraction : token.kind = .number → '.' ∉ token.text.toList → NoFraction (first :: rest)) :
    Longest token (first :: rest) := by
  unfold Longest
  split
  case h_1 isNumber =>
      exact ⟨stops_cons stops.not_continues.1 _, noFraction isNumber⟩
  case h_2 => exact stops_cons stops.not_continues.2 _
  case h_3 => trivial

theorem Reads.eq_nil {tokens : List Token} {rest : List Char} (reads : Reads [] tokens rest) :
    tokens = [] := by
  cases reads
  rfl

/-- A text with tokens does not begin with a point. -/
theorem Reads.head_ne_point {chars : List Char} {tokens : List Token}
    (reads : Reads ('.' :: chars) tokens []) : False := by
  cases reads with
  | space space later => exact absurd space (by decide)
  | token solid taken later =>
      have stuck : token? '.' chars = none := rfl
      cases stuck.symm.trans taken

theorem Longest.append {token : Token} {after rest : List Char} {tokens : List Token}
    (longest : Longest token after) (reads : Reads after tokens []) (more : after ≠ []) :
    Longest token (after ++ rest) := by
  obtain ⟨first, others, rfl⟩ := List.exists_cons_of_ne_nil more
  have stops : ∀ {keep : Char → Bool}, Stops keep (first :: others) →
      Stops keep (first :: others ++ rest) := fun stops => stops
  unfold Longest at longest ⊢
  split
  case h_1 isNumber =>
      simp only [isNumber] at longest
      refine ⟨stops longest.1, fun noPoint digit tail point => ?_⟩
      rw [List.cons_append, List.cons.injEq] at point
      obtain ⟨rfl, _⟩ := point
      exact absurd reads Reads.head_ne_point
  case h_2 isIdent =>
      simp only [isIdent] at longest
      exact stops longest
  case h_3 => trivial

/-- A text with tokens can be followed by one where nothing begins, unless a fraction comes
about where they meet. -/
theorem Reads.append {before rest : List Char} {tokens : List Token} {first : Char}
    (reads : Reads before tokens []) (stops : NothingBegins first rest)
    (noFraction : EndsInInteger before tokens → NoFraction (first :: rest)) :
    Reads (before ++ first :: rest) tokens (first :: rest) := by
  generalize ended : ([] : List Char) = place at reads
  induction reads with
  | nothing =>
      subst ended
      exact .nothing
  | @space char chars _ tokens space later inductionHypothesis =>
      refine .space space (inductionHypothesis (fun ends => noFraction ?_) ended)
      exact ends.append [char] []
  | @token char chars after _ token tokens solid taken later inductionHypothesis =>
      subst ended
      obtain ⟨valid, whole, longest⟩ := token?_eq_some.mp taken
      have rejoined : Reads (after ++ first :: rest) tokens (first :: rest) := by
        refine inductionHypothesis (fun ends => noFraction ?_) rfl
        rw [whole]
        exact ends.append token.rendering [token]
      have stillLongest : Longest token (after ++ first :: rest) := by
        by_cases last : after = []
        · subst last
          refine stops.longest fun isNumber integer => noFraction ?_
          obtain ⟨kind, text⟩ := token
          cases isNumber
          rw [List.append_nil] at whole
          rw [later.eq_nil]
          exact ⟨[], text, [], whole, rfl, integer⟩
        · exact longest.append later last
      have heads : Heads (char :: chars ++ first :: rest) token (after ++ first :: rest) :=
        ⟨valid, by rw [whole, List.append_assoc], stillLongest⟩
      exact .token solid (token?_eq_some.mpr heads) rejoined

theorem Reads.blank {chars rest : List Char} (reads : Reads chars [] rest) :
    ∃ gap, chars = gap ++ rest ∧ Blank gap := by
  generalize none : ([] : List Token) = tokens at reads
  induction reads with
  | nothing => exact ⟨[], rfl, nofun⟩
  | @space first chars rest tokens space later inductionHypothesis =>
      obtain ⟨gap, rfl, blank⟩ := inductionHypothesis none
      exact ⟨first :: gap, rfl, List.forall_mem_cons.mpr ⟨(isSpace_iff first).mp space, blank⟩⟩
  | token solid taken later => cases none

/-- After the last token there is only a gap, and the token was the longest there. -/
theorem Reads.last {chars rest : List Char} {init : List Token} {last : Token}
    (reads : Reads chars (init ++ [last]) rest) :
    ∃ lead gap, chars = lead ++ (last.rendering ++ (gap ++ rest)) ∧ Blank gap ∧ last.Valid ∧
      Longest last (gap ++ rest) := by
  generalize all : init ++ [last] = tokens at reads
  induction reads generalizing init with
  | nothing => simp at all
  | @space first chars rest tokens space later inductionHypothesis =>
      obtain ⟨lead, gap, rfl, facts⟩ := inductionHypothesis all
      exact ⟨first :: lead, gap, rfl, facts⟩
  | @token first chars after rest token tokens solid taken later inductionHypothesis =>
      obtain ⟨valid, whole, longest⟩ := token?_eq_some.mp taken
      rw [whole]
      cases init with
      | nil =>
          cases all
          obtain ⟨gap, rfl, blank⟩ := later.blank
          exact ⟨[], gap, rfl, blank, valid, longest⟩
      | cons head others =>
          cases all
          obtain ⟨lead, gap, rfl, facts⟩ := inductionHypothesis rfl
          exact ⟨token.rendering ++ lead, gap, by rw [List.append_assoc], facts⟩

theorem digits_of_integer {text : String} (valid : Token.Valid ⟨.number, text⟩)
    (integer : '.' ∉ text.toList) : Digits text.toList := by
  rcases valid with digits | ⟨whole, fraction, same, _⟩
  · exact digits
  · simp only at same
    rw [same] at integer
    simp at integer

/-- A point and a digit after a number without a fraction would have been read with it. -/
theorem Reads.noFraction {before rest : List Char} {tokens : List Token}
    (reads : Reads (before ++ rest) tokens rest) (ends : EndsInInteger before tokens) :
    NoFraction rest := by
  obtain ⟨start, text, init, ending, rfl, integer⟩ := ends
  obtain ⟨lead, gap, whole, blank, valid, longest⟩ := reads.last
  have digits := digits_of_integer valid integer
  have parts : before = lead ++ (text.toList ++ gap) := by
    have same : before ++ rest = lead ++ (text.toList ++ gap) ++ rest := by
      rw [whole, List.append_assoc, List.append_assoc]
      rfl
    exact List.append_cancel_right same
  -- The last character is a digit, so no gap is left between the number and the point.
  have noGap : gap = [] := by
    by_contra wide
    have lastDigit := digits.2 _ (List.getLast_mem digits.1)
    have lastBlank := blank _ (List.getLast_mem wide)
    have same : gap.getLast wide = text.toList.getLast digits.1 := by
      have last := congrArg List.getLast? (parts.symm.trans ending)
      rw [List.getLast?_append, List.getLast?_append, List.getLast?_append,
        List.getLast?_eq_some_getLast wide, List.getLast?_eq_some_getLast digits.1] at last
      simpa using last
    rw [← same, not_isDigit_of_space _ ((isSpace_iff _).mpr lastBlank)] at lastDigit
    cases lastDigit
  rw [noGap, List.nil_append] at longest
  exact longest.2 integer

theorem byteLength_eq (chars : List Char) :
    byteLength chars = (String.ofList chars).utf8ByteSize := by
  rw [String.utf8ByteSize_ofList]
  induction chars with
  | nil => rfl
  | cons char rest inductionHypothesis =>
      rw [String.utf8Len_cons, ← inductionHypothesis, Nat.add_comm]
      rfl

end Lexer

/-- The error names the character where nothing begins and the number of bytes before it:
the source is cut there into a text with tokens and a text with which none begins. -/
structure LexError.Exact (error : LexError) (source before : String) (tokens : List Token)
    (rest : List Char) : Prop where
  split : source = before ++ String.ofList (error.char :: rest)
  offset : before.utf8ByteSize = error.offset
  readable : tokenize before = .ok tokens
  stops : Lexer.NothingBegins error.char rest
  noFraction : error.char = '.' → Lexer.EndsInInteger before.toList tokens →
    ∀ digit more, rest = digit :: more → digit.isDigit = false

theorem tokenize_eq_error {source : String} {error : LexError} :
    tokenize source = .error error ↔
      ∃ rest, Lexer.scan [] source.toList = .error (error.char, rest) ∧
        error.offset = source.utf8ByteSize - Lexer.byteLength (error.char :: rest) := by
  obtain ⟨char, offset⟩ := error
  unfold tokenize
  cases scanned : Lexer.scan [] source.toList with
  | ok tokens =>
      constructor
      · intro failed
        cases failed
      · rintro ⟨_, failed, _⟩
        cases failed
  | error place =>
      obtain ⟨first, rest⟩ := place
      constructor
      · intro failed
        cases failed
        exact ⟨rest, rfl, rfl⟩
      · rintro ⟨_, failed, place⟩
        cases failed
        exact congrArg (fun offset => Except.error (LexError.mk char offset)) place.symm

theorem exact_of_tokenize {source : String} {error : LexError}
    (failed : tokenize source = .error error) :
    ∃ before tokens rest, error.Exact source before tokens rest := by
  obtain ⟨rest, scanned, offset⟩ := tokenize_eq_error.mp failed
  obtain ⟨stops, tokens, reads⟩ := Lexer.scan_eq_error.mp scanned
  obtain ⟨before, whole, own⟩ := reads.before
  have split : source = String.ofList before ++ String.ofList (error.char :: rest) := by
    rw [← String.ofList_append, ← whole, String.ofList_toList]
  refine ⟨String.ofList before, tokens, rest, split, ?_, ?_, stops, ?_⟩
  · rw [offset, Lexer.byteLength_eq, split, String.utf8ByteSize_append, Nat.add_sub_cancel]
  · rw [tokenize_eq_ok, String.toList_ofList]
    exact Lexer.scan_eq_ok.mpr own
  · intro isPoint ends digit more same
    rw [whole] at reads
    rw [String.toList_ofList] at ends
    exact reads.noFraction ends digit more (by rw [isPoint, same])

theorem LexError.Exact.tokenize_eq {source before : String} {error : LexError}
    {tokens : List Token} {rest : List Char} (exact : error.Exact source before tokens rest) :
    tokenize source = .error error := by
  obtain ⟨split, offset, readable, stops, noFraction⟩ := exact
  have own := Lexer.scan_eq_ok.mp (tokenize_eq_ok.mp readable)
  have reads := own.append stops fun ends digit more same => by
    rw [List.cons.injEq] at same
    exact noFraction same.1 ends digit more same.2
  refine tokenize_eq_error.mpr ⟨rest, Lexer.scan_eq_error.mpr ⟨stops, tokens, ?_⟩, ?_⟩
  · rw [split, String.toList_append, String.toList_ofList]
    exact reads
  · rw [← offset, Lexer.byteLength_eq, split, String.utf8ByteSize_append, Nat.add_sub_cancel]

theorem LexError.Exact.get?_offset {source before : String} {error : LexError}
    {tokens : List Token} {rest : List Char} (exact : error.Exact source before tokens rest) :
    String.Pos.Raw.IsValid source ⟨error.offset⟩ ∧
      String.Pos.Raw.get? source ⟨error.offset⟩ = some error.char := by
  constructor
  · refine String.Pos.Raw.isValid_iff_exists_append.mpr ⟨before, _, exact.split, ?_⟩
    rw [← exact.offset]
    rfl
  · have chars := String.get?_of_valid before.toList (error.char :: rest)
    rwa [String.ofList_append, String.ofList_toList, ← exact.split, String.utf8Len_toList,
      exact.offset] at chars

/-- A source has a lexical error exactly if it is cut, so many bytes from its start, into a
text with tokens and one where the named character stands and nothing begins; a point
after a whole number does not stand before a digit there.  So the bytes lead to a character
and to the one that is named, and a quote that is not closed on its line is named itself. -/
theorem lexical_errors_are_exact (source : String) (error : LexError) :
    (tokenize source = .error error ↔
      ∃ before tokens rest, error.Exact source before tokens rest) ∧
    (tokenize source = .error error →
      String.Pos.Raw.IsValid source ⟨error.offset⟩ ∧
        String.Pos.Raw.get? source ⟨error.offset⟩ = some error.char) ∧
    ∀ before tokens rest, source = before ++ String.ofList ('"' :: rest) →
      tokenize before = .ok tokens → Lexer.Unclosed rest →
        tokenize source = .error ⟨'"', before.utf8ByteSize⟩ := by
  refine ⟨⟨exact_of_tokenize, fun ⟨_, _, _, exact⟩ => exact.tokenize_eq⟩, fun failed => ?_, ?_⟩
  · obtain ⟨before, tokens, rest, exact⟩ := exact_of_tokenize failed
    exact exact.get?_offset
  · intro before tokens rest split readable unclosed
    have exact : LexError.Exact ⟨'"', before.utf8ByteSize⟩ source before tokens rest :=
      ⟨split, rfl, readable, .inr ⟨rfl, unclosed⟩, nofun⟩
    exact exact.tokenize_eq

end ScopeScript
