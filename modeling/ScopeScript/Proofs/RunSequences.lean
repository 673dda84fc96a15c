import ScopeScript.Proofs.ErrorMessages
import ScopeScript.Proofs.Exhaustion
import ScopeScript.Proofs.PostOrder
import ScopeScript.Proofs.Printing

/-!
Contract: files that are run one after the other do not disturb each other.

Owns: sequences of runs that print into one buffer, the ways in which one run ends, and the
theorem that every run of a sequence does what it would do alone.

The buffer is all that a run hands on to the next one.  Evaluation puts its lines behind
what it finds there and has no other use for it.  File contents are given by one function for
the whole sequence, since they do not change between the runs.
-/

set_option autoImplicit false

namespace ScopeScript

/-- A file to be run and the settings to run it under. -/
structure FileRun where
  settings : Settings
  path : String

/-- The report of a run that prints behind what is in the buffer.  `read` gives the text of
the file under a path. -/
def FileRun.report (read : String → Except ReadError String) (run : FileRun) (buffer : String) :
    Report :=
  runFile run.settings run.path (read run.path) buffer

/-- The reports of runs that print into one buffer, one after the other. -/
def runFiles (read : String → Except ReadError String) : List FileRun → String → List Report
  | [], _ => []
  | run :: rest, buffer =>
      run.report read buffer :: runFiles read rest (run.report read buffer).output

/-! ## The buffer -/

theorem Program.run_after (program : Program) (settings : Settings) (buffer : String) :
    program.run settings buffer =
      Eval.changeMachine (Machine.printedAfter buffer) (program.run settings "") := by
  have appended := Eval.uniform_appends.exec program settings buffer
    (Machine.initial settings.callLimit "")
  have start : (Machine.initial settings.callLimit "").printedAfter buffer =
      Machine.initial settings.callLimit buffer := by
    simp [Machine.printedAfter, Machine.initial]
  rwa [start] at appended

/-- The report with text in front of its output. -/
def Report.printedAfter (buffer : String) (report : Report) : Report :=
  { report with output := buffer ++ report.output }

theorem RunError.report_append (error : RunError) (buffer output : String) :
    error.report (buffer ++ output) = (error.report output).printedAfter buffer := by
  cases error with
  | read path error => rfl
  | lex error => rfl
  | parse error => rfl
  | halt halt =>
      cases halt with
      | error reason =>
          simp only [RunError.report, Report.printedAfter, appendLine, String.append_assoc]
      | fault => rfl
      | exhausted => rfl

theorem runSource_after (settings : Settings) (source buffer : String) :
    runSource settings source buffer =
      ((runSource settings source "").1, buffer ++ (runSource settings source "").2) := by
  unfold runSource
  cases readProgram source with
  | error error => simp
  | ok program =>
      simp only [program.run_after settings buffer]
      cases program.run settings "" <;> rfl

/-- A run does what it does on an empty buffer, and its text comes behind the buffer. -/
theorem FileRun.report_after (read : String → Except ReadError String) (run : FileRun)
    (buffer : String) : run.report read buffer = (run.report read "").printedAfter buffer := by
  unfold FileRun.report runFile
  cases read run.path with
  | error error =>
      have failed := (RunError.read run.path error).report_append buffer ""
      rwa [String.append_empty] at failed
  | ok source =>
      simp only [runSource_after run.settings source buffer]
      obtain ⟨ended, output⟩ := runSource run.settings source ""
      cases ended with
      | ok value => rfl
      | error error => exact error.report_append buffer output

/-- The text that a run prints alone. -/
def FileRun.text (read : String → Except ReadError String) (run : FileRun) : String :=
  (run.report read "").output

theorem length_runFiles (read : String → Except ReadError String) (runs : List FileRun)
    (buffer : String) : (runFiles read runs buffer).length = runs.length := by
  induction runs generalizing buffer with
  | nil => rfl
  | cons run rest inductionHypothesis =>
      rw [runFiles, List.length_cons, List.length_cons, inductionHypothesis]

theorem getElem?_runFiles (read : String → Except ReadError String) (runs : List FileRun)
    (buffer : String) (position : Nat) :
    (runFiles read runs buffer)[position]? = (runs[position]?).map fun run =>
      run.report read (buffer ++ String.join ((runs.take position).map (FileRun.text read))) := by
  -- The later runs find a longer buffer, so the induction is over all buffers.
  induction runs generalizing buffer position with
  | nil => rfl
  | cons run rest inductionHypothesis =>
      cases position with
      | zero => simp [runFiles]
      | succ position =>
          have output : (run.report read buffer).output = buffer ++ run.text read := by
            rw [FileRun.report_after]
            rfl
          rw [runFiles, List.getElem?_cons_succ, List.getElem?_cons_succ, inductionHypothesis,
            output, List.take_succ_cons, List.map_cons, String.join_cons, String.append_assoc]

/-! ## How one run ends -/

namespace FileRun

/-- The file can be read, its text has tokens, the tokens are those of the program, and its
nodes all have positions. -/
def Loads (read : String → Except ReadError String) (run : FileRun) (program : Program) : Prop :=
  ∃ source tokens, read run.path = .ok source ∧ tokenize source = .ok tokens ∧
    parse tokens = .ok program ∧ program.nodes.size ≤ Program.capacity

/-- The exit code of a run and the text that it prints.  A run fails without printing
anything, or all of its file is a program and evaluation comes to an end, to an error, which
one more line reports, or to a call for which no frame is left.  No position is left for a
node only if the file has more tokens than there are positions. -/
inductive Outcome (read : String → Except ReadError String) (run : FileRun) :
    ExitCode → String → Prop where
  | unread {error : ReadError} (failed : read run.path = .error error) :
      Outcome read run .failure ""
  | unlexed {source : String} {error : LexError} (text : read run.path = .ok source)
      (failed : tokenize source = .error error) : Outcome read run .failure ""
  | unparsed {source : String} {tokens : List Token} {error : ParseError}
      (text : read run.path = .ok source) (lexed : tokenize source = .ok tokens)
      (failed : parse tokens = .error error) : Outcome read run .failure ""
  | outOfPositions {source : String} {tokens : List Token} (text : read run.path = .ok source)
      (lexed : tokenize source = .ok tokens)
      (overflow : Program.capacity < (Parser.build tokens).nodes.size)
      (long : Program.capacity < tokens.length) : Outcome read run .fault ""
  | finished {program : Program} {machine : Machine} (loads : run.Loads read program)
      (ended : program.run run.settings "" = .ok () machine) :
      Outcome read run .success machine.output
  | failed {program : Program} {reason : RuntimeError} {machine : Machine}
      (loads : run.Loads read program)
      (ended : program.run run.settings "" = .error (.error reason) machine)
      (oneLine : '\n' ∉ reason.message.toList) :
      Outcome read run .failure
        (machine.output ++ ("Runtime error: " ++ reason.message ++ "\n"))
  | outOfFrames {program : Program} {machine : Machine} (loads : run.Loads read program)
      (ended : program.run run.settings "" = .error .fault machine) :
      Outcome read run .fault machine.output

variable {read : String → Except ReadError String} {run : FileRun}

/-- A file has one program at most. -/
theorem Loads.unique {first second : Program} (firstLoads : run.Loads read first)
    (secondLoads : run.Loads read second) : first = second := by
  obtain ⟨source, tokens, text, lexed, parsed, _⟩ := firstLoads
  obtain ⟨_, _, otherText, otherLexed, otherParsed, _⟩ := secondLoads
  cases text.symm.trans otherText
  cases lexed.symm.trans otherLexed
  cases parsed.symm.trans otherParsed
  rfl

theorem loads_iff {program : Program} :
    run.Loads read program ↔
      ∃ source, read run.path = .ok source ∧ readProgram source = .ok program := by
  constructor
  · rintro ⟨source, tokens, text, lexed, parsed, fits⟩
    rw [← Parser.nodes_build parsed] at fits
    exact ⟨source, text, readProgram_eq_ok_iff.mpr ⟨tokens, lexed, fits, parsed⟩⟩
  · rintro ⟨source, text, reads⟩
    obtain ⟨tokens, lexed, fits, parsed⟩ := readProgram_eq_ok_iff.mp reads
    rw [Parser.nodes_build parsed] at fits
    exact ⟨source, tokens, text, lexed, parsed, fits⟩

theorem outcome_of_loads {program : Program} (loads : run.Loads read program) :
    run.Outcome read (run.report read "").code (run.report read "").output := by
  obtain ⟨source, text, reads⟩ := loads_iff.mp loads
  cases ended : program.run run.settings "" with
  | ok value machine =>
      have report : run.report read "" = ⟨.success, machine.output, ""⟩ := by
        simp only [FileRun.report, runFile, text, runSource, reads, ended]
      rw [report]
      exact .finished loads ended
  | error halt machine =>
      have report : run.report read "" = (RunError.halt halt).report machine.output := by
        simp only [FileRun.report, runFile, text, runSource, reads, ended]
      rw [report]
      cases halt with
      | error reason =>
          have line : ((RunError.halt (.error reason)).report machine.output).output =
              machine.output ++ (reason.report ++ "\n") := by
            simp only [RunError.report, appendLine, String.append_assoc]
          rw [line]
          exact .failed loads ended (message_unbroken_of_run reads ended)
      | fault => exact .outOfFrames loads ended
      | exhausted =>
          obtain ⟨trees, rfl, _⟩ := readProgram_eq_ok reads
          exact absurd ⟨machine, ended⟩
            ((Program.wellFormed_ofTrees trees).not_exhausted run.settings "")

theorem outcome_report (read : String → Except ReadError String) (run : FileRun) :
    run.Outcome read (run.report read "").code (run.report read "").output := by
  cases text : read run.path with
  | error error =>
      have report : run.report read "" = (RunError.read run.path error).report "" := by
        simp only [FileRun.report, runFile, text]
      rw [report]
      exact .unread text
  | ok source =>
      cases lexed : tokenize source with
      | error error =>
          have report : run.report read "" = (RunError.lex error).report "" := by
            simp only [FileRun.report, runFile, text, runSource, readProgram, lexed]
          rw [report]
          exact .unlexed text lexed
      | ok tokens =>
          have reads := readProgram_of_tokenize lexed
          by_cases fits : (Parser.build tokens).nodes.size ≤ Program.capacity
          · cases parsed : parse tokens with
            | error error =>
                rw [if_pos fits, parsed] at reads
                have report : run.report read "" = (RunError.parse error).report "" := by
                  simp only [FileRun.report, runFile, text, runSource, reads, Except.mapError]
                rw [report]
                exact .unparsed text lexed parsed
            | ok program =>
                rw [Parser.nodes_build parsed] at fits
                exact outcome_of_loads ⟨source, tokens, text, lexed, parsed, fits⟩
          · rw [if_neg fits] at reads
            have overflow := Nat.lt_of_not_le fits
            have report : run.report read "" = (RunError.halt .fault).report "" := by
              simp only [FileRun.report, runFile, text, runSource, reads]
            rw [report]
            exact .outOfPositions text lexed overflow
              (Nat.lt_of_lt_of_le overflow (Parser.size_build_le tokens))

/-- The exit code tells whether the file is a program that is evaluated to its end. -/
theorem Outcome.code_eq_zero_iff {code : ExitCode} {text : String}
    (outcome : run.Outcome read code text) :
    code.toNat = 0 ↔
      ∃ program machine, run.Loads read program ∧
        program.run run.settings "" = .ok () machine := by
  constructor
  · intro zero
    cases outcome with
    | finished loads ended => exact ⟨_, _, loads, ended⟩
    | _ => cases zero
  · rintro ⟨program, machine, loads, ended⟩
    cases outcome with
    | finished => rfl
    | unread failed =>
        obtain ⟨source, tokens, text, _⟩ := loads
        cases failed.symm.trans text
    | unlexed text failed =>
        obtain ⟨source, tokens, otherText, lexed, _⟩ := loads
        cases text.symm.trans otherText
        cases failed.symm.trans lexed
    | outOfPositions text lexed overflow long =>
        obtain ⟨source, tokens, otherText, otherLexed, parsed, fits⟩ := loads
        cases text.symm.trans otherText
        cases lexed.symm.trans otherLexed
        rw [Parser.nodes_build parsed] at overflow
        exact absurd fits (Nat.not_le_of_lt overflow)
    | unparsed text lexed failed =>
        obtain ⟨source, tokens, otherText, otherLexed, parsed, _⟩ := loads
        cases text.symm.trans otherText
        cases lexed.symm.trans otherLexed
        cases failed.symm.trans parsed
    | failed otherLoads otherEnded =>
        cases otherLoads.unique loads
        cases ended.symm.trans otherEnded
    | outOfFrames otherLoads otherEnded =>
        cases otherLoads.unique loads
        cases ended.symm.trans otherEnded

end FileRun

/-! ## Sequences -/

/-- Every run of a sequence has the exit code that it has alone on an empty buffer, and it
appends the text that it prints there to what the runs before it have left.  Its exit code is
zero exactly if the whole file is a program that is evaluated to its end; what is printed
otherwise is said by `FileRun.Outcome`. -/
theorem runs_are_independent (read : String → Except ReadError String) (runs : List FileRun)
    (buffer : String) :
    (runFiles read runs buffer).length = runs.length ∧
      ∀ (position : Nat) (run : FileRun), runs[position]? = some run →
        ∃ report, (runFiles read runs buffer)[position]? = some report ∧
          report.code = (run.report read "").code ∧
          report.output = buffer ++ String.join ((runs.take position).map (FileRun.text read)) ++
            run.text read ∧
          run.Outcome read report.code (run.text read) ∧
          (report.code.toNat = 0 ↔ ∃ program machine, run.Loads read program ∧
            program.run run.settings "" = .ok () machine) := by
  refine ⟨length_runFiles read runs buffer, fun position run here => ?_⟩
  have outcome := FileRun.outcome_report read run
  have reported := getElem?_runFiles read runs buffer position
  rw [here, Option.map_some, FileRun.report_after] at reported
  exact ⟨_, reported, rfl, rfl, outcome, outcome.code_eq_zero_iff⟩

/-- A run that fails after its first line leaves the run after it as it is alone. -/
theorem failed_run_is_independent :
    let read : String → Except ReadError String := fun path =>
      if path = "fails" then .ok "print(1); print(x);" else .ok "let x = 2; print(x);"
    let runs : List FileRun := [⟨.default, "fails"⟩, ⟨.default, "succeeds"⟩]
    ∃ report, (runFiles read runs "")[1]? = some report ∧ report.code = .success ∧
      report.output = "1\nRuntime error: undefined variable: x\n2\n" := by
  intro read runs
  obtain ⟨report, here, code, output, _⟩ :=
    (runs_are_independent read runs "").2 1 ⟨.default, "succeeds"⟩ rfl
  exact ⟨report, here, code.trans (by decide +kernel), output.trans (by decide +kernel)⟩

end ScopeScript
