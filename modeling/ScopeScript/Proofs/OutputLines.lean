import ScopeScript.Proofs.PrintCalls
import ScopeScript.Proofs.QuotableValues
import ScopeScript.Proofs.Quoting

/-!
Contract: the output of a run has one line for each print call that it completes.

Owns: that no shown value breaks its line, the lines of an output, and the theorem that the
lines are the completed print calls in order, for every program that is read from source text.

A line can be told from the next one because no value of a run contains a line break.
-/

set_option autoImplicit false

namespace ScopeScript

/-! ## Lines -/

theorem Value.Quotable.display_unbroken {value : Value} (quotable : value.Quotable) :
    '\n' ∉ value.display.toList := by
  cases value with
  | number number => exact Number.display_unbroken number
  | text text => exact fun member => (quotable '\n' member).2 rfl
  | void => decide

theorem printedLine_unbroken {values : List Value} (quotable : ∀ value ∈ values, value.Quotable) :
    '\n' ∉ (printedLine values).toList := by
  refine Text.not_mem_intercalate (by decide) fun text member => ?_
  obtain ⟨value, inside, rfl⟩ := List.mem_map.mp member
  exact (quotable value inside).display_unbroken

/-- The line breaks stand between the lines and a last line that is empty. -/
theorem outputText_eq_intercalate (prints : List (List Value)) :
    outputText prints = "\n".intercalate (prints.map printedLine ++ [""]) := by
  induction prints with
  | nil => simp
  | cons values rest inductionHypothesis =>
      have further : rest.map printedLine ++ [""] ≠ [] := by simp
      rw [List.map_cons, List.cons_append, String.intercalate_cons_of_ne_nil further,
        ← inductionHypothesis, ← List.singleton_append, outputText_append, outputText_singleton]

/-- The lines are found again by splitting the text at its line breaks. -/
theorem split_outputText {prints : List (List Value)}
    (unbroken : ∀ values ∈ prints, '\n' ∉ (printedLine values).toList) :
    ((outputText prints).split '\n').toList.map String.Slice.copy =
      prints.map printedLine ++ [""] := by
  have lines : ∀ line ∈ prints.map printedLine ++ [""], '\n' ∉ line.toList := by
    intro line member
    rcases List.mem_append.mp member with inside | last
    · obtain ⟨values, listed, rfl⟩ := List.mem_map.mp inside
      exact unbroken values listed
    · rw [List.mem_singleton.mp last]
      decide
  rw [outputText_eq_intercalate]
  have split := String.toList_split_intercalate lines
  rw [if_neg (by simp)] at split
  exact split

/-- Logs with the same text are equally long if no entry breaks its line. -/
theorem length_eq_of_outputText {first second : List (List Value)}
    (firstUnbroken : ∀ values ∈ first, '\n' ∉ (printedLine values).toList)
    (secondUnbroken : ∀ values ∈ second, '\n' ∉ (printedLine values).toList)
    (same : outputText first = outputText second) : first.length = second.length := by
  have lines := split_outputText firstUnbroken
  rw [same, split_outputText secondUnbroken] at lines
  simpa using congrArg List.length lines.symm

/-! ## Runs -/

variable {program : Program} {settings : Settings}

theorem Program.quotable_completedPrints (all : AllProper program.nodes) :
    ∀ values ∈ program.completedPrints settings, ∀ value ∈ values, value.Quotable := by
  intro values member
  obtain ⟨place, listed⟩ := List.mem_iff_getElem?.mp member
  obtain ⟨moment, between, reached, completes, _⟩ :=
    program.accounts_completedPrints settings place values listed
  cases completes with
  | call here evaluated =>
      have arguments := reached.step (.operands here)
      rw [Node.operands_print] at arguments
      exact (Moment.Quotable.of_reaches all arguments).2 values between evaluated

/-- The text of the entries before a place tells the place. -/
theorem Program.eq_of_outputText_take (all : AllProper program.nodes) {place other : Nat}
    (inside : place < (program.completedPrints settings).length)
    (same : outputText ((program.completedPrints settings).take place) =
      outputText ((program.completedPrints settings).take other)) : other = place := by
  have unbroken : ∀ values ∈ program.completedPrints settings,
      '\n' ∉ (printedLine values).toList := fun values member =>
    printedLine_unbroken (program.quotable_completedPrints all values member)
  have lengths := length_eq_of_outputText
    (fun values member => unbroken values (List.mem_of_mem_take member))
    (fun values member => unbroken values (List.mem_of_mem_take member)) same
  rw [List.length_take, List.length_take] at lengths
  omega

/-- Every print call that is completed has one place in the log, where the output is the text
of the entries before it. -/
theorem Moment.CompletesPrint.existsUnique_place {moment : Moment} {values : List Value}
    {between : Machine} (wellFormed : program.WellFormed) (all : AllProper program.nodes)
    (reached : program.Reaches settings "" moment)
    (completes : moment.CompletesPrint program settings values between) :
    ∃! place, (program.completedPrints settings)[place]? = some values ∧
      between.output = outputText ((program.completedPrints settings).take place) := by
  obtain ⟨early, late, split, before⟩ := completes.listed wellFormed reached
  have inside : early.length < (program.completedPrints settings).length := by simp [split]
  refine ⟨early.length, ⟨by simp [split], by simp [split, before]⟩, ?_⟩
  rintro other ⟨_, printed⟩
  apply Program.eq_of_outputText_take all inside
  rw [← printed, before, split, List.take_left]

/-- The entry at a place of the log is the print call that is completed when the output is the
text of all entries before it. -/
theorem Program.getElem?_completedPrints (wellFormed : program.WellFormed)
    (all : AllProper program.nodes) (place : Nat) (values : List Value) :
    (program.completedPrints settings)[place]? = some values ↔
      ∃ moment between, program.Reaches settings "" moment ∧
        moment.CompletesPrint program settings values between ∧
        between.output = outputText ((program.completedPrints settings).take place) := by
  constructor
  · intro listed
    obtain ⟨moment, between, reached, completes, printed⟩ :=
      program.accounts_completedPrints settings place values listed
    rw [String.empty_append] at printed
    exact ⟨moment, between, reached, completes, printed⟩
  · rintro ⟨moment, between, reached, completes, printed⟩
    obtain ⟨own, ⟨listed, before⟩, _⟩ := completes.existsUnique_place wellFormed all reached
    have inside := (List.getElem?_eq_some_iff.mp listed).1
    rwa [Program.eq_of_outputText_take all inside (before.symm.trans printed)]

theorem snd_runSource {source : String} (read : readProgram source = .ok program)
    (output : String) :
    (runSource settings source output).2 =
      (Eval.lastMachine (program.run settings output)).output := by
  rw [runSource, read]
  cases run : program.run settings output with
  | ok value machine =>
      simp only [run]
      rfl
  | error halt machine =>
      simp only [run]
      rfl

/-- Every line of the output is one print call.  No text that is bound, passed, returned or
printed at any moment of a run contains a quote or a line break.  A print call writes its one
line when all its arguments have their values, and nothing if one of them fails.  The log of
the run lists the values of the print calls that are completed, each at the place where the
output is the text of the calls before it; every entry has its call, and every call its one
place.  So the output, whether the run succeeds or fails, is the text of the log, and splitting
it at the line breaks gives the lines of the log. -/
theorem output_has_one_line_per_print (source : String) (program : Program) (settings : Settings)
    (read : readProgram source = .ok program) :
    let prints := program.completedPrints settings
    let output := (runSource settings source "").2
    (∀ moment, program.Reaches settings "" moment → moment.Quotable program settings) ∧
    (∀ values ∈ prints, ∀ value ∈ values, value.Quotable) ∧
    (∀ id args frame machine active,
      program.Reaches settings "" ⟨.expr id, frame, machine, active⟩ →
      program.nodes[id]? = some (.call printName args) →
      program.evalExpr settings id frame machine =
        match Eval.evalAll (program.evalExpr settings) frame args machine with
        | .ok values between =>
            .ok .void { between with output := appendLine between.output (printedLine values) }
        | .error halt between => .error halt between) ∧
    (∀ place values, prints[place]? = some values ↔
      ∃ moment between, program.Reaches settings "" moment ∧
        moment.CompletesPrint program settings values between ∧
        between.output = outputText (prints.take place)) ∧
    (∀ moment values between, program.Reaches settings "" moment →
      moment.CompletesPrint program settings values between →
      ∃! place, prints[place]? = some values ∧
        between.output = outputText (prints.take place)) ∧
    output = outputText prints ∧
    (output.split '\n').toList.map String.Slice.copy = prints.map printedLine ++ [""] := by
  intro prints output
  obtain ⟨trees, rfl, proper⟩ := readProgram_eq_ok read
  have all := allProper_ofTrees proper
  have wellFormed := Program.wellFormed_ofTrees trees
  have quotable : ∀ values ∈ prints, ∀ value ∈ values, value.Quotable :=
    Program.quotable_completedPrints all
  have printed : output = outputText prints := by
    rw [← Program.output_run]
    exact snd_runSource read ""
  refine ⟨fun moment reached => .of_reaches all reached, quotable, ?_, ?_, ?_, printed, ?_⟩
  · exact fun id args frame machine active reached here => reached.evalExpr_print wellFormed here
  · exact Program.getElem?_completedPrints wellFormed all
  · exact fun moment values between reached completes =>
      completes.existsUnique_place wellFormed all reached
  · rw [printed]
    exact split_outputText fun values member => printedLine_unbroken (quotable values member)

/-- A function prints while the arguments of a print call are evaluated, and so does a print
call among them.  The last print call fails and leaves no line. -/
theorem nested_prints_have_their_lines :
    let settings : Settings := ⟨.lexical, some 1⟩
    let source := "fn f(x) \x7b print(x, \"in\"); return x + \"!\"; \x7d " ++
      "print(f(\"a\"), print(\"b\")); print(\"lost\", y);"
    let output := (runSource settings source "").2
    let prints := [[.text "a", .text "in"], [.text "b"], [.text "a!", .void]]
    ∃ program, readProgram source = .ok program ∧
      program.completedPrints settings = prints ∧ output = "a in\nb\na! None\n" ∧
      (output.split '\n').toList.map String.Slice.copy = ["a in", "b", "a! None", ""] := by
  intro settings source output prints
  have logged : (readProgram source).toOption.map (Program.completedPrints · settings) =
      some prints := by decide +kernel
  cases read : readProgram source with
  | error reason =>
      rw [read] at logged
      cases logged
  | ok program =>
      rw [read] at logged
      have same : program.completedPrints settings = prints := Option.some.inj logged
      obtain ⟨_, _, _, _, _, printed, lines⟩ :=
        output_has_one_line_per_print source program settings read
      rw [same] at printed lines
      refine ⟨program, rfl, same, printed.trans ?_, lines.trans ?_⟩
      · decide +kernel
      · decide +kernel

end ScopeScript
