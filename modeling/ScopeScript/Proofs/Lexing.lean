import ScopeScript.Token.Lexer

/-!
Contract: source texts are tokens with white space between them, and the lexer
reads back exactly those tokens.

Owns: the texts that fit each kind of token, the rendering of tokens with gaps, the
longest-match law of a single token, and the agreement of `tokenize` with rendering.

Two tokens may stand without a gap unless the longest match would run from the
first into the second.  Those pairs are known from the kinds alone: the only
characters that can continue a token are digits, letters, underscores and a point,
and no token begins with a point.
-/

set_option autoImplicit false

namespace ScopeScript

/-! ## Valid tokens and their renderings -/

/-- One or more digits. -/
def Digits (chars : List Char) : Prop :=
  chars ≠ [] ∧ ∀ char ∈ chars, char.isDigit = true

theorem Digits.exists_cons {chars : List Char} (digits : Digits chars) :
    ∃ first rest, chars = first :: rest ∧ first.isDigit = true ∧
      ∀ char ∈ rest, char.isDigit = true := by
  obtain ⟨first, rest, rfl⟩ := List.exists_cons_of_ne_nil digits.1
  exact ⟨first, rest, rfl, List.forall_mem_cons.mp digits.2⟩

theorem Digits.no_point {chars : List Char} (digits : Digits chars) : '.' ∉ chars := by
  intro member
  exact absurd (digits.2 '.' member) (by decide)

/-- The symbol of a kind that has only one text. -/
def TokenKind.symbol? : TokenKind → Option Char
  | .number | .text | .ident => none
  | .plus => some '+'
  | .minus => some '-'
  | .star => some '*'
  | .slash => some '/'
  | .equal => some '='
  | .comma => some ','
  | .leftParen => some '('
  | .rightParen => some ')'
  | .leftBrace => some '\x7b'
  | .rightBrace => some '\x7d'
  | .semicolon => some ';'

/-- The texts that a token of each kind can have. -/
def TokenKind.Fits (kind : TokenKind) (chars : List Char) : Prop :=
  match kind with
  | .number => Digits chars ∨
      ∃ whole fraction, chars = whole ++ '.' :: fraction ∧ Digits whole ∧ Digits fraction
  | .text => ∀ char ∈ chars, char ≠ '"' ∧ char ≠ '\n'
  | .ident => ∃ first rest, chars = first :: rest ∧ (first.isAlpha = true ∨ first = '_') ∧
      ∀ char ∈ rest, char.isAlphanum = true ∨ char = '_'
  | symbolic => ∃ symbol, symbolic.symbol? = some symbol ∧ chars = [symbol]

namespace Token

/-- The text fits the kind. -/
def Valid (token : Token) : Prop :=
  token.kind.Fits token.text.toList

/-- The characters that stand for a token in a source text. -/
def rendering (token : Token) : List Char :=
  if token.kind = .text then '"' :: (token.text.toList ++ ['"']) else token.text.toList

end Token

/-- Whether a token of the first kind would run into one of the second if nothing
stood between them. -/
def TokenKind.clings : TokenKind → TokenKind → Bool
  | .ident, .ident | .ident, .number | .number, .number => true
  | _, _ => false

namespace Lexer

/-- White space only. -/
def Blank (chars : List Char) : Prop :=
  ∀ char ∈ chars, char = ' ' ∨ char = '\t' ∨ char = '\r' ∨ char = '\n'

/-- The renderings of tokens, each with a gap after it. -/
inductive Spaced : List Token → List Char → Prop where
  | nil : Spaced [] []
  | cons {token : Token} {tokens : List Token} {gap chars : List Char} (blank : Blank gap)
      (apart : ∀ next ∈ tokens.head?, token.kind.clings next.kind = true → gap ≠ [])
      (rest : Spaced tokens chars) :
      Spaced (token :: tokens) (token.rendering ++ (gap ++ chars))

/-- The renderings of tokens with gaps before, between and after them. -/
def Renders (tokens : List Token) (chars : List Char) : Prop :=
  ∃ lead body, chars = lead ++ body ∧ Blank lead ∧ Spaced tokens body

/-! ## Runs of characters -/

/-- The first character, if there is one, is refused. -/
def Stops (keep : Char → Bool) (chars : List Char) : Prop :=
  ∀ char ∈ chars.head?, keep char = false

theorem stops_cons {keep : Char → Bool} {first : Char} (refused : keep first = false)
    (rest : List Char) : Stops keep (first :: rest) := by
  intro char member
  cases member
  exact refused

theorem stops_dropWhile (keep : Char → Bool) (chars : List Char) :
    Stops keep (chars.dropWhile keep) := by
  intro char member
  have refused := List.head?_dropWhile_not keep chars
  rw [Option.mem_def.mp member] at refused
  exact refused

theorem keep_of_mem_takeWhile {keep : Char → Bool} {chars : List Char} {char : Char}
    (member : char ∈ chars.takeWhile keep) : keep char = true :=
  List.all_eq_true.mp List.all_takeWhile char member

theorem takeWhile_of_stops {keep : Char → Bool} {word after : List Char}
    (kept : ∀ char ∈ word, keep char = true) (stops : Stops keep after) :
    (word ++ after).takeWhile keep = word := by
  rw [List.takeWhile_append_of_pos kept]
  cases after with
  | nil => simp
  | cons first rest =>
      have refused := stops first rfl
      rw [List.takeWhile_cons_of_neg (by simp [refused]), List.append_nil]

theorem dropWhile_of_stops {keep : Char → Bool} {word after : List Char}
    (kept : ∀ char ∈ word, keep char = true) (stops : Stops keep after) :
    (word ++ after).dropWhile keep = after := by
  rw [List.dropWhile_append_of_pos kept]
  cases after with
  | nil => rfl
  | cons first rest =>
      have refused := stops first rfl
      rw [List.dropWhile_cons_of_neg (by simp [refused])]

/-! ## One token -/

theorem isIdentStart_iff (char : Char) :
    isIdentStart char = true ↔ char.isAlpha = true ∨ char = '_' := by
  simp [isIdentStart]

theorem isIdentPart_iff (char : Char) :
    isIdentPart char = true ↔ char.isAlphanum = true ∨ char = '_' := by
  simp [isIdentPart]

theorem isQuotable_iff (char : Char) : isQuotable char = true ↔ char ≠ '"' ∧ char ≠ '\n' := by
  simp [isQuotable]

theorem ofSymbol?_eq_some {char : Char} {kind : TokenKind} :
    TokenKind.ofSymbol? char = some kind ↔ kind.symbol? = some char := by
  constructor
  · unfold TokenKind.ofSymbol?
    split <;> intro found <;> cases found <;> rfl
  · cases kind <;> intro symbol <;> cases symbol <;> rfl

/-- No longer token of the same kind begins here. -/
def Longest (token : Token) (after : List Char) : Prop :=
  match token.kind with
  | .number => Stops Char.isDigit after ∧ ('.' ∉ token.text.toList →
      ∀ digit rest, after = '.' :: digit :: rest → digit.isDigit = false)
  | .ident => Stops isIdentPart after
  | _ => True

/-- A valid token stands at the head of a text, and no longer one does. -/
structure Heads (chars : List Char) (token : Token) (after : List Char) : Prop where
  valid : token.Valid
  whole : chars = token.rendering ++ after
  longest : Longest token after

theorem digits_takeWhile {first : Char} (isDigit : first.isDigit = true) (rest : List Char) :
    Digits (first :: rest.takeWhile Char.isDigit) := by
  refine ⟨nofun, fun char member => ?_⟩
  rcases List.mem_cons.mp member with rfl | inside
  · exact isDigit
  · exact keep_of_mem_takeWhile inside

theorem splitFraction_of_digit {digit : Char} (rest : List Char)
    (isDigit : digit.isDigit = true) :
    splitFraction ('.' :: digit :: rest) =
      ('.' :: digit :: rest.takeWhile Char.isDigit, rest.dropWhile Char.isDigit) := by
  rw [splitFraction, if_pos isDigit]

theorem splitFraction_of_none {chars : List Char}
    (none : ∀ digit rest, chars = '.' :: digit :: rest → digit.isDigit = false) :
    splitFraction chars = ([], chars) := by
  unfold splitFraction
  split
  case h_1 digit rest =>
      have noDigit := none digit rest rfl
      rw [if_neg (by simp [noDigit])]
  case h_2 => rfl

theorem number_heads {first : Char} (isDigit : first.isDigit = true) (rest : List Char) :
    Heads (first :: rest) (number first rest).1 (number first rest).2 := by
  have whole := digits_takeWhile isDigit rest
  have split : first :: rest =
      first :: rest.takeWhile Char.isDigit ++ rest.dropWhile Char.isDigit := by
    rw [List.cons_append, List.takeWhile_append_dropWhile]
  by_cases fraction : ∃ digit others, rest.dropWhile Char.isDigit = '.' :: digit :: others ∧
      digit.isDigit = true
  · obtain ⟨digit, others, point, digitAfter⟩ := fraction
    rw [point] at split
    have parts := splitFraction_of_digit others digitAfter
    simp only [number, point, parts]
    refine ⟨?_, ?_, ?_⟩
    · right
      exact ⟨_, _, String.toList_ofList, whole, digits_takeWhile digitAfter others⟩
    · rw [split]
      simp [Token.rendering, List.takeWhile_append_dropWhile]
    · refine ⟨stops_dropWhile _ _, fun noPoint => absurd ?_ noPoint⟩
      simp
  · have none : ∀ digit others, rest.dropWhile Char.isDigit = '.' :: digit :: others →
        digit.isDigit = false := by
      intro digit others point
      exact Bool.eq_false_iff.mpr fun digitAfter => fraction ⟨digit, others, point, digitAfter⟩
    simp only [number, splitFraction_of_none none, List.append_nil]
    refine ⟨?_, ?_, ?_⟩
    · left
      rw [String.toList_ofList]
      exact whole
    · rw [split]
      simp [Token.rendering]
    · exact ⟨stops_dropWhile _ _, fun _ => none⟩

theorem exists_chars (text : String) : ∃ chars, text = String.ofList chars :=
  ⟨text.toList, String.ofList_toList.symm⟩

theorem number_of_heads {text : String} {first : Char} {rest after : List Char}
    (heads : Heads (first :: rest) ⟨.number, text⟩ after) :
    first.isDigit = true ∧ number first rest = (⟨.number, text⟩, after) := by
  obtain ⟨valid, whole, stops, noFraction⟩ := heads
  obtain ⟨chars, rfl⟩ := exists_chars text
  simp only [Token.Valid, TokenKind.Fits, Token.rendering, String.toList_ofList, reduceCtorEq,
    if_false] at valid whole noFraction
  rcases valid with digits | ⟨integer, fraction, rfl, integerDigits, fractionDigits⟩
  · obtain ⟨digit, others, rfl, isDigit, kept⟩ := digits.exists_cons
    simp only [List.cons_append, List.cons.injEq] at whole
    obtain ⟨rfl, rfl⟩ := whole
    refine ⟨isDigit, ?_⟩
    simp only [number, takeWhile_of_stops kept stops, dropWhile_of_stops kept stops,
      splitFraction_of_none (noFraction digits.no_point), List.append_nil]
  · obtain ⟨digit, others, rfl, isDigit, kept⟩ := integerDigits.exists_cons
    obtain ⟨second, more, rfl, digitAfter, keptAfter⟩ := fractionDigits.exists_cons
    simp only [List.cons_append, List.append_assoc, List.cons.injEq] at whole
    obtain ⟨rfl, rfl⟩ := whole
    have atPoint : Stops Char.isDigit ('.' :: second :: (more ++ after)) :=
      stops_cons (by decide) _
    refine ⟨isDigit, ?_⟩
    simp only [number, takeWhile_of_stops kept atPoint, dropWhile_of_stops kept atPoint,
      splitFraction_of_digit _ digitAfter, takeWhile_of_stops keptAfter stops,
      dropWhile_of_stops keptAfter stops, List.cons_append]

theorem identifier_heads {first : Char} (starts : isIdentStart first = true) (rest : List Char) :
    Heads (first :: rest) (identifier first rest).1 (identifier first rest).2 := by
  refine ⟨?_, ?_, stops_dropWhile _ _⟩
  · refine ⟨first, _, String.toList_ofList, (isIdentStart_iff first).mp starts, ?_⟩
    exact fun char member => (isIdentPart_iff char).mp (keep_of_mem_takeWhile member)
  · simp [identifier, Token.rendering, List.takeWhile_append_dropWhile]

theorem identifier_of_heads {text : String} {first : Char} {rest after : List Char}
    (heads : Heads (first :: rest) ⟨.ident, text⟩ after) :
    isIdentStart first = true ∧ identifier first rest = (⟨.ident, text⟩, after) := by
  obtain ⟨valid, whole, stops⟩ := heads
  obtain ⟨chars, rfl⟩ := exists_chars text
  simp only [Token.Valid, TokenKind.Fits, Token.rendering, String.toList_ofList, reduceCtorEq,
    if_false] at valid whole
  obtain ⟨head, parts, rfl, starts, continues⟩ := valid
  simp only [List.cons_append, List.cons.injEq] at whole
  obtain ⟨rfl, rfl⟩ := whole
  have kept : ∀ char ∈ parts, isIdentPart char = true :=
    fun char member => (isIdentPart_iff char).mpr (continues char member)
  refine ⟨(isIdentStart_iff first).mpr starts, ?_⟩
  simp only [identifier, takeWhile_of_stops kept stops, dropWhile_of_stops kept stops]

theorem quotedText?_heads {rest after : List Char} {token : Token}
    (found : quotedText? rest = some (token, after)) : Heads ('"' :: rest) token after := by
  unfold quotedText? at found
  split at found
  case h_1 tail quote =>
      cases found
      refine ⟨?_, ?_, trivial⟩
      · intro char member
        simp only [String.toList_ofList] at member
        exact (isQuotable_iff char).mp (keep_of_mem_takeWhile member)
      · have split : rest = rest.takeWhile isQuotable ++ '"' :: after := by
          rw [← quote, List.takeWhile_append_dropWhile]
        simpa [Token.rendering] using split
  case h_2 => cases found

theorem quotedText?_of_heads {text : String} {first : Char} {rest after : List Char}
    (heads : Heads (first :: rest) ⟨.text, text⟩ after) :
    first = '"' ∧ quotedText? rest = some (⟨.text, text⟩, after) := by
  obtain ⟨valid, whole, _⟩ := heads
  obtain ⟨chars, rfl⟩ := exists_chars text
  simp only [Token.Valid, TokenKind.Fits, Token.rendering, String.toList_ofList, if_true,
    List.cons_append, List.append_assoc, List.nil_append, List.cons.injEq] at valid whole
  obtain ⟨rfl, rfl⟩ := whole
  have kept : ∀ char ∈ chars, isQuotable char = true :=
    fun char member => (isQuotable_iff char).mpr (valid char member)
  have atQuote : Stops isQuotable ('"' :: after) := stops_cons (by decide) _
  refine ⟨rfl, ?_⟩
  simp only [quotedText?, takeWhile_of_stops kept atQuote, dropWhile_of_stops kept atQuote]

theorem fits_of_symbol {kind : TokenKind} {symbol : Char} (stands : kind.symbol? = some symbol)
    (chars : List Char) : kind.Fits chars ↔ chars = [symbol] := by
  cases kind with
  | number | text | ident => cases stands
  | _ =>
      cases stands
      simp [TokenKind.Fits, TokenKind.symbol?]

theorem rendering_of_symbol {kind : TokenKind} {symbol : Char} (stands : kind.symbol? = some symbol)
    (text : String) : Token.rendering ⟨kind, text⟩ = text.toList := by
  have notText : kind ≠ .text := by
    rintro rfl
    cases stands
  exact if_neg notText

theorem symbol_heads {kind : TokenKind} {symbol : Char} (stands : kind.symbol? = some symbol)
    (rest : List Char) : Heads (symbol :: rest) ⟨kind, String.ofList [symbol]⟩ rest := by
  refine ⟨?_, ?_, ?_⟩
  · exact (fits_of_symbol stands _).mpr String.toList_ofList
  · rw [rendering_of_symbol stands, String.toList_ofList]
    rfl
  · cases kind with
    | number | text | ident => cases stands
    | _ => trivial

theorem token?_of_symbol {kind : TokenKind} {symbol : Char} (stands : kind.symbol? = some symbol)
    (rest : List Char) : token? symbol rest = some (⟨kind, String.ofList [symbol]⟩, rest) := by
  cases kind <;> cases stands <;> rfl

theorem token?_of_symbol_heads {kind : TokenKind} {symbol first : Char} {text : String}
    {rest after : List Char} (stands : kind.symbol? = some symbol)
    (heads : Heads (first :: rest) ⟨kind, text⟩ after) :
    token? first rest = some (⟨kind, text⟩, after) := by
  obtain ⟨valid, whole, _⟩ := heads
  have spelled := (fits_of_symbol stands _).mp valid
  rw [rendering_of_symbol stands, spelled, List.singleton_append, List.cons.injEq] at whole
  obtain ⟨rfl, rfl⟩ := whole
  rw [token?_of_symbol stands, ← spelled, String.ofList_toList]

/-! ## First characters -/

/-- Whether a token of this kind can begin with a character. -/
def begins (kind : TokenKind) (char : Char) : Bool :=
  match kind with
  | .number => char.isDigit
  | .text => char == '"'
  | .ident => isIdentStart char
  | symbolic => symbolic.symbol? == some char

theorem rendering_begins {token : Token} (valid : token.Valid) :
    ∃ first rest, token.rendering = first :: rest ∧ begins token.kind first = true := by
  obtain ⟨kind, text⟩ := token
  cases kind with
  | number =>
      rcases valid with digits | ⟨integer, fraction, same, digits, _⟩
      · obtain ⟨first, rest, same, isDigit, _⟩ := digits.exists_cons
        exact ⟨first, rest, same, isDigit⟩
      · obtain ⟨first, rest, rfl, isDigit, _⟩ := digits.exists_cons
        exact ⟨first, _, same, isDigit⟩
  | text => exact ⟨'"', _, rfl, rfl⟩
  | ident =>
      obtain ⟨first, rest, same, starts, _⟩ := valid
      exact ⟨first, rest, same, (isIdentStart_iff first).mpr starts⟩
  | _ =>
      obtain ⟨symbol, stands, same⟩ := valid
      exact ⟨symbol, [], same, beq_iff_eq.mpr stands⟩

/-- Letters stand above the digits. -/
theorem not_isDigit_of_isAlpha {char : Char} (letter : char.isAlpha = true) :
    char.isDigit = false := by
  have aboveDigits : '9'.val < char.val := by
    rcases Bool.or_eq_true_iff.mp letter with upper | lower
    · have range : 'A'.val ≤ char.val ∧ char.val ≤ 'Z'.val := of_decide_eq_true upper
      exact UInt32.lt_of_lt_of_le (by decide) range.1
    · have range := Bool.and_eq_true_iff.mp lower
      exact UInt32.lt_of_lt_of_le (by decide) (of_decide_eq_true range.1)
  have beyond : decide (char.val ≤ '9'.val) = false :=
    decide_eq_false (UInt32.not_le.mpr aboveDigits)
  exact Bool.and_eq_false_iff.mpr (.inr beyond)

theorem isDigit_of_begins {kind : TokenKind} {char : Char} (starts : begins kind char = true) :
    char.isDigit = true ↔ kind = .number := by
  cases kind with
  | number => exact ⟨fun _ => rfl, fun _ => starts⟩
  | ident =>
      have noDigit : char.isDigit = false := by
        rcases (isIdentStart_iff char).mp starts with letter | rfl
        · exact not_isDigit_of_isAlpha letter
        · decide
      simp [noDigit]
  | _ =>
      cases beq_iff_eq.mp starts
      decide

theorem isIdentPart_of_begins {kind : TokenKind} {char : Char} (starts : begins kind char = true) :
    isIdentPart char = true ↔ kind = .ident ∨ kind = .number := by
  cases kind with
  | number =>
      have digit : char.isDigit = true := starts
      simp [isIdentPart, Char.isAlphanum, digit]
  | ident =>
      have part : isIdentPart char = true := by
        rcases (isIdentStart_iff char).mp starts with letter | rfl
        · simp [isIdentPart, Char.isAlphanum, letter]
        · decide
      simp [part]
  | _ =>
      cases beq_iff_eq.mp starts
      decide

theorem isSpace_iff (char : Char) :
    isSpace char = true ↔ char = ' ' ∨ char = '\t' ∨ char = '\r' ∨ char = '\n' := by
  simp [isSpace, or_assoc]

theorem not_isDigit_of_space (char : Char) (space : isSpace char = true) :
    char.isDigit = false := by
  rcases (isSpace_iff char).mp space with rfl | rfl | rfl | rfl <;> decide

theorem not_isIdentPart_of_space (char : Char) (space : isSpace char = true) :
    isIdentPart char = false := by
  rcases (isSpace_iff char).mp space with rfl | rfl | rfl | rfl <;> decide

theorem not_begins_of_space {kind : TokenKind} {char : Char} (space : isSpace char = true) :
    begins kind char = false := by
  rcases (isSpace_iff char).mp space with rfl | rfl | rfl | rfl <;> cases kind <;> decide

theorem not_begins_point (kind : TokenKind) : begins kind '.' = false := by
  cases kind <;> decide

/-- The lexer takes a token exactly where a valid one stands that is the longest of
its kind. -/
theorem token?_eq_some {first : Char} {rest after : List Char} {token : Token} :
    token? first rest = some (token, after) ↔ Heads (first :: rest) token after := by
  constructor
  · intro found
    unfold token? at found
    split at found
    case isTrue isDigit =>
        cases found
        exact number_heads isDigit rest
    case isFalse =>
    split at found
    case isTrue starts =>
        cases found
        exact identifier_heads starts rest
    case isFalse =>
    split at found
    case isTrue quote =>
        rw [quote]
        exact quotedText?_heads found
    case isFalse =>
        obtain ⟨kind, symbol, same⟩ := Option.map_eq_some_iff.mp found
        cases same
        exact symbol_heads (ofSymbol?_eq_some.mp symbol) rest
  · intro heads
    obtain ⟨kind, text⟩ := token
    cases kind with
    | number =>
        obtain ⟨isDigit, taken⟩ := number_of_heads heads
        rw [token?, if_pos isDigit, taken]
    | ident =>
        obtain ⟨starts, taken⟩ := identifier_of_heads heads
        have noDigit : ¬first.isDigit = true := by
          rw [isDigit_of_begins (show begins .ident first = true from starts)]
          decide
        rw [token?, if_neg noDigit, if_pos starts, taken]
    | text =>
        obtain ⟨rfl, taken⟩ := quotedText?_of_heads heads
        exact taken
    | _ => exact token?_of_symbol_heads rfl heads

/-! ## Gaps -/

theorem clings_iff (first second : TokenKind) :
    first.clings second = true ↔ first = .ident ∧ (second = .ident ∨ second = .number) ∨
      first = .number ∧ second = .number := by
  cases first <;> cases second <;> decide

/-- What stands after a gap: white space, or the first character of the next
token. -/
theorem boundary {tokens : List Token} {gap chars : List Char} (blank : Blank gap)
    (spaced : Spaced tokens chars) (valid : ∀ token ∈ tokens, token.Valid) :
    ∀ char ∈ (gap ++ chars).head?, isSpace char = true ∨
      gap = [] ∧ ∃ next ∈ tokens.head?, begins next.kind char = true := by
  intro char member
  cases gap with
  | cons space others =>
      cases member
      exact .inl ((isSpace_iff char).mpr (blank char List.mem_cons_self))
  | nil =>
      refine .inr ⟨rfl, ?_⟩
      cases spaced with
      | nil => cases member
      | @cons token _ _ _ _ _ _ =>
          obtain ⟨first, rest, same, starts⟩ := rendering_begins (valid token List.mem_cons_self)
          rw [same] at member
          cases member
          exact ⟨token, rfl, starts⟩

theorem stops_of_apart {token : Token} {tokens : List Token} {gap chars : List Char}
    {keep : Char → Bool} (blank : Blank gap)
    (apart : ∀ next ∈ tokens.head?, token.kind.clings next.kind = true → gap ≠ [])
    (spaced : Spaced tokens chars) (valid : ∀ token ∈ tokens, token.Valid)
    (noSpace : ∀ char, isSpace char = true → keep char = false)
    (clings : ∀ (next : TokenKind) (char : Char), begins next char = true → keep char = true →
      token.kind.clings next = true) :
    Stops keep (gap ++ chars) := by
  intro char member
  rcases boundary blank spaced valid char member with space | ⟨empty, next, here, starts⟩
  · exact noSpace char space
  · refine Bool.eq_false_iff.mpr fun kept => ?_
    exact apart next here (clings next.kind char starts kept) empty

theorem longest_of_apart {token : Token} {tokens : List Token} {gap chars : List Char}
    (blank : Blank gap)
    (apart : ∀ next ∈ tokens.head?, token.kind.clings next.kind = true → gap ≠ [])
    (spaced : Spaced tokens chars) (valid : ∀ token ∈ tokens, token.Valid) :
    Longest token (gap ++ chars) := by
  unfold Longest
  split
  case h_1 isNumber =>
      refine ⟨stops_of_apart blank apart spaced valid not_isDigit_of_space ?_, ?_⟩
      · intro next char starts digit
        exact (clings_iff _ _).mpr (.inr ⟨isNumber, (isDigit_of_begins starts).mp digit⟩)
      · intro _ digit rest point
        have here : '.' ∈ (gap ++ chars).head? := by
          rw [point]
          rfl
        rcases boundary blank spaced valid '.' here with space | ⟨_, next, _, starts⟩
        · exact absurd space (by decide)
        · rw [not_begins_point] at starts
          cases starts
  case h_2 isIdent =>
      refine stops_of_apart blank apart spaced valid not_isIdentPart_of_space ?_
      intro next char starts part
      exact (clings_iff _ _).mpr (.inl ⟨isIdent, (isIdentPart_of_begins starts).mp part⟩)
  case h_3 => trivial

theorem apart_of_longest {token : Token} {tokens : List Token} {gap chars : List Char}
    (longest : Longest token (gap ++ chars)) (spaced : Spaced tokens chars)
    (valid : ∀ token ∈ tokens, token.Valid) :
    ∀ next ∈ tokens.head?, token.kind.clings next.kind = true → gap ≠ [] := by
  rintro next here clings rfl
  cases spaced with
  | nil => cases here
  | cons blank apart rest =>
      cases here
      obtain ⟨first, others, same, starts⟩ := rendering_begins (valid next List.mem_cons_self)
      rw [same] at longest
      unfold Longest at longest
      rcases (clings_iff _ _).mp clings with ⟨isIdent, continues⟩ | ⟨isNumber, continues⟩
      · simp only [isIdent] at longest
        have part := (isIdentPart_of_begins starts).mpr continues
        exact absurd (longest first rfl) (by simp [part])
      · simp only [isNumber] at longest
        have digit := (isDigit_of_begins starts).mpr continues
        exact absurd (longest.1 first rfl) (by simp [digit])

/-! ## Whole texts -/

theorem scan_blank {lead : List Char} (blank : Blank lead) (found : List Token)
    (chars : List Char) : scan found (lead ++ chars) = scan found chars := by
  induction lead with
  | nil => rfl
  | cons first rest inductionHypothesis =>
      have space := (isSpace_iff first).mpr (blank first List.mem_cons_self)
      rw [List.cons_append, scan_space found _ space]
      exact inductionHypothesis fun char member => blank char (List.mem_cons_of_mem _ member)

theorem scan_of_spaced {tokens : List Token} {chars : List Char} (spaced : Spaced tokens chars)
    (valid : ∀ token ∈ tokens, token.Valid) (found : List Token) :
    scan found chars = .ok (found.reverse ++ tokens) := by
  induction spaced generalizing found with
  | nil => rw [scan_nil, List.append_nil]
  | @cons token tokens gap chars blank apart rest inductionHypothesis =>
      have restValid : ∀ token ∈ tokens, token.Valid :=
        fun token member => valid token (List.mem_cons_of_mem _ member)
      have tokenValid := valid token List.mem_cons_self
      have longest := longest_of_apart blank apart rest restValid
      obtain ⟨first, others, same, starts⟩ := rendering_begins tokenValid
      have heads : Heads (first :: (others ++ (gap ++ chars))) token (gap ++ chars) :=
        ⟨tokenValid, by rw [same, List.cons_append], longest⟩
      have solid : isSpace first = false :=
        Bool.eq_false_iff.mpr fun space => by simp [not_begins_of_space space] at starts
      rw [same, List.cons_append, scan_token found solid (token?_eq_some.mpr heads),
        scan_blank blank, inductionHypothesis restValid, List.reverse_cons, List.append_assoc,
        List.singleton_append]

theorem renders_of_scan {found tokens : List Token} {chars : List Char}
    (scanned : scan found chars = .ok tokens) :
    ∃ new, tokens = found.reverse ++ new ∧ (∀ token ∈ new, token.Valid) ∧ Renders new chars := by
  induction found, chars using scan.induct with
  | case1 found =>
      rw [scan_nil] at scanned
      cases scanned
      exact ⟨[], by simp, nofun, [], [], rfl, nofun, .nil⟩
  | case2 found first rest space inductionHypothesis =>
      rw [scan_space found rest space] at scanned
      obtain ⟨new, same, valid, lead, body, rfl, blank, spaced⟩ := inductionHypothesis scanned
      refine ⟨new, same, valid, first :: lead, body, rfl, fun char member => ?_, spaced⟩
      rcases List.mem_cons.mp member with rfl | inside
      · exact (isSpace_iff char).mp space
      · exact blank char inside
  | case3 found first rest solid stuck =>
      rw [scan_stuck found (by simpa using solid) stuck] at scanned
      cases scanned
  | case4 found first rest solid token after taken inductionHypothesis =>
      rw [scan_token found (by simpa using solid) taken] at scanned
      obtain ⟨new, same, valid, lead, body, rfl, blank, spaced⟩ := inductionHypothesis scanned
      obtain ⟨tokenValid, whole, longest⟩ := token?_eq_some.mp taken
      -- White space that leads the remaining text is the gap after this token.
      refine ⟨token :: new, by simp [same], ?_, [], _, rfl, nofun, ?_⟩
      · intro other member
        rcases List.mem_cons.mp member with rfl | inside
        · exact tokenValid
        · exact valid other inside
      · rw [whole]
        exact .cons blank (apart_of_longest longest spaced valid) spaced

end Lexer

theorem tokenize_eq_ok {source : String} {tokens : List Token} :
    tokenize source = .ok tokens ↔ Lexer.scan [] source.toList = .ok tokens := by
  unfold tokenize
  cases Lexer.scan [] source.toList with
  | ok read => constructor <;> (intro same; cases same; rfl)
  | error place => constructor <;> (intro same; cases same)

/-- The lexer accepts exactly the texts that render valid tokens, and reads back the
tokens that were rendered. -/
theorem tokenize_iff_renders (source : String) (tokens : List Token) :
    tokenize source = .ok tokens ↔
      (∀ token ∈ tokens, token.Valid) ∧ Lexer.Renders tokens source.toList := by
  rw [tokenize_eq_ok]
  constructor
  · intro scanned
    obtain ⟨new, rfl, valid, renders⟩ := Lexer.renders_of_scan scanned
    exact ⟨valid, renders⟩
  · rintro ⟨valid, lead, body, whole, blank, spaced⟩
    rw [whole, Lexer.scan_blank blank, Lexer.scan_of_spaced spaced valid]
    rfl

end ScopeScript
