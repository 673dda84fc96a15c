import ScopeScript.Eval.Settings
import ScopeScript.Proofs.NumberText

/-!
Contract: the texts of settings and what they say.

Owns: trimming as a split of the text, words up to the case of their letters, the value of
digits by their places, and the theorems that the readers of settings accept just the texts
that say something and read them as what they say.

None of the relations here goes through a reader: white space is a list of code points, the
two cases of a letter are two rows of the alphabet, and a digit counts by its place.
-/

set_option autoImplicit false

namespace ScopeScript

namespace Text

/-! ## White space around a text -/

/-- The code points with the Unicode property White_Space. -/
def whiteSpace : List Nat :=
  [0x09, 0x0a, 0x0b, 0x0c, 0x0d, 0x20, 0x85, 0xa0, 0x1680, 0x2000, 0x2001, 0x2002, 0x2003,
    0x2004, 0x2005, 0x2006, 0x2007, 0x2008, 0x2009, 0x200a, 0x2028, 0x2029, 0x202f, 0x205f,
    0x3000]

/-- A character of white space. -/
def IsWhite (char : Char) : Prop :=
  char.toNat ∈ whiteSpace

theorem isBlank_iff (char : Char) : isBlank char = true ↔ IsWhite char := by
  simp only [isBlank, IsWhite, whiteSpace, Bool.or_eq_true, Bool.and_eq_true, decide_eq_true_eq,
    beq_iff_eq, List.mem_cons, List.not_mem_nil,
    or_false]
  omega

/-- The text is `core` between white space, and `core` neither begins nor ends with any. -/
structure Trims (chars core : List Char) : Prop where
  around : ∃ before after, chars = before ++ (core ++ after) ∧
    (∀ char ∈ before, IsWhite char) ∧ ∀ char ∈ after, IsWhite char
  first : ∀ char ∈ core.head?, ¬ IsWhite char
  last : ∀ char ∈ core.getLast?, ¬ IsWhite char

theorem dropWhile_isBlank_append {before rest : List Char}
    (white : ∀ char ∈ before, IsWhite char) (first : ∀ char ∈ rest.head?, ¬ IsWhite char) :
    (before ++ rest).dropWhile isBlank = rest := by
  rw [List.dropWhile_append_of_pos fun char member => (isBlank_iff char).mpr (white char member)]
  cases rest with
  | nil => rfl
  | cons char rest =>
      apply List.dropWhile_cons_of_neg
      rw [isBlank_iff]
      exact first char rfl

theorem not_isWhite_head?_dropWhile (chars : List Char) :
    ∀ char ∈ (chars.dropWhile isBlank).head?, ¬ IsWhite char := by
  intro char first
  have stopped := List.head?_dropWhile_not isBlank chars
  rw [Option.mem_def.mp first] at stopped
  rw [← isBlank_iff, stopped]
  exact Bool.false_ne_true

theorem trimEnd_append {core after : List Char} (white : ∀ char ∈ after, IsWhite char)
    (last : ∀ char ∈ core.getLast?, ¬ IsWhite char) : trimEnd (core ++ after) = core := by
  have whiteReversed : ∀ char ∈ after.reverse, IsWhite char := fun char member =>
    white char (List.mem_reverse.mp member)
  have first : ∀ char ∈ core.reverse.head?, ¬ IsWhite char := by
    rwa [List.head?_reverse]
  rw [trimEnd, List.reverse_append, dropWhile_isBlank_append whiteReversed first,
    List.reverse_reverse]

/-- What trimming leaves is the text between the white space. -/
theorem trims_trim (chars : List Char) : Trims chars (trim chars) where
  around := by
    refine ⟨chars.takeWhile isBlank, (chars.dropWhile isBlank).rtakeWhile isBlank, ?_, ?_, ?_⟩
    · have ending : trim chars ++ (chars.dropWhile isBlank).rtakeWhile isBlank =
          chars.dropWhile isBlank := List.rdropWhile_append_rtakeWhile
      rw [ending, List.takeWhile_append_dropWhile]
    · intro char member
      exact (isBlank_iff char).mp (List.mem_takeWhile_imp member)
    · intro char member
      exact (isBlank_iff char).mp (List.mem_rtakeWhile_imp member)
  first := by
    -- The end of the text has been cut off meanwhile, which leaves its first character.
    intro char first
    have kept : trim chars <+: chars.dropWhile isBlank := List.rdropWhile_prefix isBlank _
    obtain ⟨rest, same⟩ := kept
    apply not_isWhite_head?_dropWhile chars
    rw [← same, List.head?_append, Option.mem_def.mp first]
    rfl
  last := by
    rw [trim, trimEnd, List.getLast?_reverse]
    exact not_isWhite_head?_dropWhile _

theorem trim_eq_iff {chars core : List Char} : trim chars = core ↔ Trims chars core := by
  constructor
  · rintro rfl
    exact trims_trim chars
  · rintro ⟨⟨before, after, rfl, whiteBefore, whiteAfter⟩, first, last⟩
    cases core with
    | nil =>
        -- All of the text is white, so what follows the core is cut off in front already.
        have white : ∀ char ∈ before ++ after, IsWhite char :=
          List.forall_mem_append.mpr ⟨whiteBefore, whiteAfter⟩
        have nothing : (before ++ after ++ []).dropWhile isBlank = [] :=
          dropWhile_isBlank_append white nofun
        rw [List.append_nil] at nothing
        rw [trim, List.nil_append, nothing]
        rfl
    | cons char rest =>
        have opening : (before ++ (char :: rest ++ after)).dropWhile isBlank =
            char :: rest ++ after := dropWhile_isBlank_append whiteBefore first
        rw [trim, opening, trimEnd_append whiteAfter last]

/-! ## Words in any case -/

/-- The characters are equal, or they are one ASCII letter in its two cases. -/
def SameLetter (char letter : Char) : Prop :=
  char = letter ∨ ∃ place < 26,
    char.toNat = 'A'.toNat + place ∧ letter.toNat = 'a'.toNat + place ∨
      char.toNat = 'a'.toNat + place ∧ letter.toNat = 'A'.toNat + place

/-- The text is the word up to the case of ASCII letters. -/
def SameWord (chars : List Char) (word : String) : Prop :=
  List.Forall₂ SameLetter chars word.toList

theorem isUpper_iff (char : Char) : char.isUpper = true ↔ 65 ≤ char.toNat ∧ char.toNat ≤ 90 := by
  simp [Char.isUpper, UInt32.le_iff_toNat_le]

theorem toNat_toLower {char : Char} (upper : char.isUpper = true) :
    char.toLower.toNat = char.toNat + 32 := by
  have bounds := (isUpper_iff char).mp upper
  have valid : (char.toNat + 32).isValidChar := by
    left
    omega
  rw [Char.toLower_eq_of_isUpper upper, Char.toNat_ofNat, if_pos valid]

/-- The two rows of the alphabet are as far apart as lowering moves a letter. -/
theorem toLower_eq_iff {char letter : Char} (lower : letter.isUpper = false) :
    char.toLower = letter ↔ SameLetter char letter := by
  have notUpper : ¬ (65 ≤ letter.toNat ∧ letter.toNat ≤ 90) := by
    rw [← isUpper_iff, lower]
    exact Bool.false_ne_true
  simp only [SameLetter, Char.reduceToNat]
  by_cases upper : char.isUpper = true
  · have bounds := (isUpper_iff char).mp upper
    rw [← Char.toNat_inj, ← Char.toNat_inj, toNat_toLower upper]
    constructor
    · intro moved
      exact .inr ⟨char.toNat - 65, by omega, .inl ⟨by omega, by omega⟩⟩
    · rintro (same | ⟨place, inside, cases⟩) <;> omega
  · have bounds := mt (isUpper_iff char).mpr upper
    rw [Char.toLower_eq_of_not_isUpper upper]
    constructor
    · exact .inl
    · rintro (same | ⟨place, inside, cases⟩)
      · exact same
      · omega

theorem map_toLower_eq_iff {word : List Char} (lower : ∀ letter ∈ word, letter.isUpper = false)
    {chars : List Char} : chars.map Char.toLower = word ↔ List.Forall₂ SameLetter chars word := by
  induction word generalizing chars with
  | nil => simp
  | cons letter rest inductionHypothesis =>
      rw [List.forall_mem_cons] at lower
      cases chars with
      | nil => simp
      | cons char more =>
          rw [List.map_cons, List.cons_eq_cons, List.forall₂_cons, toLower_eq_iff lower.1,
            inductionHypothesis lower.2]

theorem spells_iff {chars : List Char} {word : String}
    (lower : ∀ letter ∈ word.toList, letter.isUpper = false) :
    spells chars word = true ↔ SameWord chars word := by
  rw [spells, beq_iff_eq, map_toLower_eq_iff lower, SameWord]

/-- A text spells one word at most. -/
theorem eq_of_spells {chars : List Char} {word other : String} (one : spells chars word = true)
    (two : spells chars other = true) : word = other := by
  rw [spells, beq_iff_eq] at one two
  exact String.toList_inj.mp (one.symm.trans two)

end Text

/-! ## Ways of scoping -/

/-- The word for a way of scoping. -/
def Scoping.word : Scoping → String
  | .dynamic => "dynamic"
  | .lexical => "lexical"

/-- The text is the word for the way of scoping, in any case. -/
def Scoping.SaidBy (scoping : Scoping) (chars : List Char) : Prop :=
  Text.SameWord chars scoping.word

theorem Scoping.spells_word_iff {chars : List Char} (scoping : Scoping) :
    Text.spells chars scoping.word = true ↔ scoping.SaidBy chars :=
  Text.spells_iff (by cases scoping <;> simp [word, Char.isUpper])

theorem Scoping.read?_eq_some_iff (chars : List Char) (scoping : Scoping) :
    read? chars = some scoping ↔ scoping.SaidBy chars := by
  rw [← spells_word_iff, read?]
  constructor
  · intro read
    split at read
    case isTrue dynamic =>
      cases read
      exact dynamic
    case isFalse =>
      split at read
      case isTrue lexical =>
        cases read
        exact lexical
      case isFalse => cases read
  · intro spelled
    cases scoping with
    | dynamic => exact if_pos spelled
    | lexical =>
        have notDynamic : ¬ Text.spells chars "dynamic" = true := fun dynamic =>
          absurd (Text.eq_of_spells dynamic spelled) (by decide)
        rw [if_neg notDynamic]
        exact if_pos spelled

/-! ## Limits -/

namespace Number

/-- The number that decimal digits write, the last of them in the place of the ones. -/
def placeValue (digits : List Char) : Nat :=
  Nat.ofDigits 10 (digits.map fun digit => digit.toNat - '0'.toNat).reverse

theorem digitsValue_eq_placeValue (digits : List Char) :
    digitsValue digits = placeValue digits := by
  rw [digitsValue, placeValue, Nat.ofDigits_eq_foldr, List.foldr_reverse, List.foldl_map]
  simp [Nat.add_comm]

end Number

namespace CallLimit

/-- The text is `unlimited` in any case, or digits with or without a plus sign whose value is
below two to the power of 64. -/
inductive SaidBy : CallLimit → List Char → Prop where
  | unlimited {chars : List Char} (word : Text.SameWord chars "unlimited") : SaidBy none chars
  | count {sign digits : List Char} (optional : sign = [] ∨ sign = ['+'])
      (isDigits : Digits digits) (below : Number.placeValue digits < 2 ^ 64) :
      SaidBy (some (Number.placeValue digits)) (sign ++ digits)

theorem readDigits?_eq_some_iff {digits : List Char} {count : Nat} :
    readCount?.readDigits? digits = some count ↔
      Digits digits ∧ Number.placeValue digits = count ∧ count < 2 ^ 64 := by
  have accepted : Digits digits ↔ (digits.isEmpty || !digits.all Char.isDigit) = false := by
    simp [Digits]
  simp only [readCount?.readDigits?, Number.digitsValue_eq_placeValue,
    Option.ite_none_left_eq_some, Option.ite_none_right_eq_some, Option.some.injEq, accepted,
    Bool.not_eq_true]
  constructor
  · rintro ⟨isDigits, below, rfl⟩
    exact ⟨isDigits, rfl, below⟩
  · rintro ⟨isDigits, rfl, below⟩
    exact ⟨isDigits, below, rfl⟩

theorem readCount?_eq_some_iff {chars : List Char} {count : Nat} :
    readCount? chars = some count ↔ ∃ sign digits, chars = sign ++ digits ∧
      (sign = [] ∨ sign = ['+']) ∧ Digits digits ∧ Number.placeValue digits = count ∧
        count < 2 ^ 64 := by
  fun_cases readCount? chars with
  | case1 digits =>
      rw [readDigits?_eq_some_iff]
      constructor
      · intro said
        exact ⟨['+'], digits, rfl, .inr rfl, said⟩
      · rintro ⟨sign, rest, same, rfl | rfl, isDigits, said⟩
        · -- A plus sign is no digit.
          subst same
          exact absurd (isDigits.2 '+' List.mem_cons_self) (by decide)
        · cases same
          exact ⟨isDigits, said⟩
  | case2 _ unsigned =>
      rw [readDigits?_eq_some_iff]
      constructor
      · intro said
        exact ⟨[], chars, rfl, .inl rfl, said⟩
      · rintro ⟨sign, rest, same, rfl | rfl, said⟩
        · subst same
          exact said
        · exact (unsigned rest same).elim

/-- A count is no word. -/
theorem spells_of_readCount? {chars : List Char} {count : Nat}
    (read : readCount? chars = some count) : Text.spells chars "unlimited" = false := by
  obtain ⟨sign, digits, rfl, rfl | rfl, isDigits, _⟩ := readCount?_eq_some_iff.mp read
  · obtain ⟨first, rest, rfl, digit, _⟩ := isDigits.exists_cons
    exact Number.spells_of_digit digit rest 'u' "nlimited".toList (by decide)
  · simp [Text.spells]

theorem read?_eq_some_iff (chars : List Char) (limit : CallLimit) :
    read? chars = some limit ↔ limit.SaidBy chars := by
  have unlimited : Text.spells chars "unlimited" = true ↔ Text.SameWord chars "unlimited" :=
    Text.spells_iff (by simp [Char.isUpper])
  constructor
  · intro read
    rw [read?] at read
    split at read
    case isTrue spelled =>
      cases read
      exact .unlimited (unlimited.mp spelled)
    case isFalse =>
      obtain ⟨count, readCount, rfl⟩ := Option.map_eq_some_iff.mp read
      obtain ⟨sign, digits, rfl, optional, isDigits, rfl, below⟩ :=
        readCount?_eq_some_iff.mp readCount
      exact .count optional isDigits below
  · intro said
    cases said with
    | unlimited word => exact if_pos (unlimited.mpr word)
    | @count sign digits optional isDigits below =>
        have readCount : readCount? (sign ++ digits) = some (Number.placeValue digits) :=
          readCount?_eq_some_iff.mpr ⟨sign, digits, rfl, optional, isDigits, rfl, below⟩
        rw [read?, spells_of_readCount? readCount, readCount]
        rfl

end CallLimit

end ScopeScript
