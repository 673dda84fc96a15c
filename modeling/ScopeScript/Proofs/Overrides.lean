import ScopeScript.Proofs.SettingTexts

/-!
Contract: of the texts that override a setting one after the other, the last that says
something decides.

Owns: sequences of overrides, the relation between the texts for one setting and its final
value, and the theorem that every setting ends with this value, whatever the texts for the
other one.

One override is settled by what its text says or by its saying nothing.  A sequence is settled
by induction on its length, with the newest override split off.
-/

set_option autoImplicit false

namespace ScopeScript.Settings

/-- There is a text, and without the white space around it, it says the value. -/
def Gives {α : Type} (SaidBy : α → List Char → Prop) (text : Option String) (value : α) : Prop :=
  ∃ given core, text = some given ∧ Text.Trims given.toList core ∧ SaidBy value core

/-- A text is absent or says nothing. -/
def Silent {α : Type} (SaidBy : α → List Char → Prop) (text : Option String) : Prop :=
  ∀ value, ¬ Gives SaidBy text value

/-- The value comes from the last text that says anything, and is the initial one if none
does. -/
inductive LastGiven {α : Type} (SaidBy : α → List Char → Prop) (initial : α) :
    List (Option String) → α → Prop where
  | given {before after : List (Option String)} {text : Option String} {value : α}
      (gives : Gives SaidBy text value) (silent : ∀ later ∈ after, Silent SaidBy later) :
      LastGiven SaidBy initial (before ++ text :: after) value
  | never {texts : List (Option String)} (silent : ∀ text ∈ texts, Silent SaidBy text) :
      LastGiven SaidBy initial texts initial

theorem LastGiven.append_silent {α : Type} {SaidBy : α → List Char → Prop} {initial value : α}
    {texts : List (Option String)} {text : Option String}
    (last : LastGiven SaidBy initial texts value) (silent : Silent SaidBy text) :
    LastGiven SaidBy initial (texts ++ [text]) value := by
  cases last with
  | given gives silentAfter =>
      rw [List.append_assoc, List.cons_append]
      exact .given gives (List.forall_mem_append.mpr
        ⟨silentAfter, List.forall_mem_singleton.mpr silent⟩)
  | never silentBefore =>
      exact .never (List.forall_mem_append.mpr
        ⟨silentBefore, List.forall_mem_singleton.mpr silent⟩)

/-- One setting after the texts for it, the first of them first. -/
def overrideAll {α : Type} (read? : List Char → Option α) (initial : α)
    (texts : List (Option String)) : α :=
  texts.foldl (fun present text => override present read? text) initial

/-! ## One setting -/

section Setting

variable {α : Type} {SaidBy : α → List Char → Prop} {read? : List Char → Option α}
  (reads : ∀ chars value, read? chars = some value ↔ SaidBy value chars)

include reads

theorem gives_iff {text : Option String} {value : α} :
    Gives SaidBy text value ↔
      (text.bind fun given => read? (Text.trim given.toList)) = some value := by
  rw [Option.bind_eq_some_iff]
  constructor
  · rintro ⟨given, core, rfl, trims, said⟩
    refine ⟨given, rfl, ?_⟩
    rwa [Text.trim_eq_iff.mpr trims, reads]
  · rintro ⟨given, rfl, read⟩
    exact ⟨given, _, rfl, Text.trims_trim _, (reads _ _).mp read⟩

theorem override_of_gives {text : Option String} {value : α} (gives : Gives SaidBy text value)
    (present : α) : override present read? text = value := by
  rw [override, (gives_iff reads).mp gives, Option.getD_some]

theorem override_of_silent {text : Option String} (silent : Silent SaidBy text) (present : α) :
    override present read? text = present := by
  have unread : (text.bind fun given => read? (Text.trim given.toList)) = none := by
    rw [Option.eq_none_iff_forall_ne_some]
    exact fun value read => silent value ((gives_iff reads).mpr read)
  rw [override, unread, Option.getD_none]

theorem overrideAll_of_silent {texts : List (Option String)}
    (silent : ∀ text ∈ texts, Silent SaidBy text) (initial : α) :
    overrideAll read? initial texts = initial := by
  induction texts with
  | nil => rfl
  | cons text rest inductionHypothesis =>
      rw [List.forall_mem_cons] at silent
      rw [overrideAll, List.foldl_cons, override_of_silent reads silent.1]
      exact inductionHypothesis silent.2

/-- One more text says the new value or leaves the last one. -/
theorem LastGiven.override {initial present : α} {texts : List (Option String)}
    (last : LastGiven SaidBy initial texts present) (text : Option String) :
    LastGiven SaidBy initial (texts ++ [text]) (override present read? text) := by
  by_cases silent : Silent SaidBy text
  · rw [override_of_silent reads silent]
    exact last.append_silent silent
  · obtain ⟨value, gives⟩ : ∃ value, Gives SaidBy text value := by
      simpa [Silent] using silent
    rw [override_of_gives reads gives]
    exact .given gives nofun

theorem lastGiven_overrideAll (initial : α) (texts : List (Option String)) :
    LastGiven SaidBy initial texts (overrideAll read? initial texts) := by
  induction texts using List.reverseRecOn with
  | nil => exact .never nofun
  | append_singleton texts text inductionHypothesis =>
      rw [overrideAll, List.foldl_concat]
      exact inductionHypothesis.override reads text

theorem overrideAll_eq_iff {initial value : α} {texts : List (Option String)} :
    overrideAll read? initial texts = value ↔ LastGiven SaidBy initial texts value := by
  constructor
  · rintro rfl
    exact lastGiven_overrideAll reads initial texts
  · intro last
    cases last with
    | @given before after text value gives silent =>
        rw [overrideAll, List.foldl_append, List.foldl_cons, override_of_gives reads gives]
        exact overrideAll_of_silent reads silent value
    | never silent => exact overrideAll_of_silent reads silent initial

end Setting

/-! ## All settings -/

/-- The texts of one override. -/
structure Texts where
  scoping : Option String
  callLimit : Option String

/-- The settings after a sequence of overrides. -/
def withAllOverrides (settings : Settings) (overrides : List Texts) : Settings :=
  overrides.foldl (fun settings texts => settings.withOverrides texts.scoping texts.callLimit)
    settings

/-- Each setting is overridden by its own texts. -/
theorem withAllOverrides_eq (settings : Settings) (overrides : List Texts) :
    settings.withAllOverrides overrides =
      { scoping := overrideAll Scoping.read? settings.scoping (overrides.map Texts.scoping)
        callLimit :=
          overrideAll CallLimit.read? settings.callLimit (overrides.map Texts.callLimit) } := by
  induction overrides generalizing settings with
  | nil => rfl
  | cons texts rest inductionHypothesis => exact inductionHypothesis _

/-- However often settings are overridden, the value of each comes from the last text for it
that says anything, and is the initial one if none does.  The texts for one setting, and its
initial value, have no effect on the other. -/
theorem last_understood_text_wins (settings : Settings) (overrides : List Texts) :
    (∀ scoping, (settings.withAllOverrides overrides).scoping = scoping ↔
      LastGiven Scoping.SaidBy settings.scoping (overrides.map Texts.scoping) scoping) ∧
    (∀ limit, (settings.withAllOverrides overrides).callLimit = limit ↔
      LastGiven CallLimit.SaidBy settings.callLimit (overrides.map Texts.callLimit) limit) ∧
    (∀ (other : Settings) (others : List Texts), other.scoping = settings.scoping →
      others.map Texts.scoping = overrides.map Texts.scoping →
      (other.withAllOverrides others).scoping = (settings.withAllOverrides overrides).scoping) ∧
    ∀ (other : Settings) (others : List Texts), other.callLimit = settings.callLimit →
      others.map Texts.callLimit = overrides.map Texts.callLimit →
      (other.withAllOverrides others).callLimit =
        (settings.withAllOverrides overrides).callLimit := by
  refine ⟨fun scoping => ?_, fun limit => ?_, fun other others start texts => ?_,
    fun other others start texts => ?_⟩
  · rw [withAllOverrides_eq]
    exact overrideAll_eq_iff Scoping.read?_eq_some_iff
  · rw [withAllOverrides_eq]
    exact overrideAll_eq_iff CallLimit.read?_eq_some_iff
  · rw [withAllOverrides_eq, withAllOverrides_eq, start, texts]
  · rw [withAllOverrides_eq, withAllOverrides_eq, start, texts]

/-- The largest limit with zeros in front of it outlasts a limit that is one too large and one
with a minus sign, and none of the three touches the way of scoping. -/
theorem largest_limit_outlasts_larger :
    let overrides : List Texts :=
      [⟨some " Lexical\n", some "+000000000000000000000018446744073709551615 "⟩,
        ⟨some "static", some "18446744073709551616"⟩, ⟨none, some "-1"⟩]
    let unlimited : List Texts := [⟨some " Lexical\n", some "unlimited"⟩, ⟨some "static", none⟩,
      ⟨none, none⟩]
    let final := default.withAllOverrides overrides
    final = ⟨.lexical, some 18446744073709551615⟩ ∧
      LastGiven CallLimit.SaidBy (some 1000) (overrides.map Texts.callLimit)
        (some 18446744073709551615) ∧
      (withAllOverrides ⟨.dynamic, none⟩ unlimited).scoping = final.scoping := by
  intro overrides unlimited final
  have same : final = ⟨.lexical, some 18446744073709551615⟩ := by decide +kernel
  obtain ⟨_, limit, apart, _⟩ := last_understood_text_wins default overrides
  exact ⟨same, (limit _).mp (congrArg callLimit same), apart _ unlimited rfl rfl⟩

end ScopeScript.Settings
