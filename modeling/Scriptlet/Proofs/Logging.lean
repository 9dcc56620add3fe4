import Scriptlet.CommandLine
import Scriptlet.Proofs.Unlogged

/-!
# Runs with and without a log

A function that evaluations do not look at is not looked at by the interactive loop and by runs of
files either (`Unseen.loop`, `Unseen.runFiles`). So the program does the same whether a log is kept
or not (`work_unlogged`), and asking for the log adds the lines of the log in front of the errors
and nothing else (`run_debug`).
-/

namespace Scriptlet

/-! ## The loop and the files -/

namespace Session.Unseen

variable {g : Session → Session} (h : Unseen g)
include h

theorem report (answer : Except Failure Value) (s : Session) :
    Repl.report (answer, g s) = g (Repl.report (answer, s)) := by
  cases answer with
  | ok v => exact (h.write s _).symm
  | error f => exact (h.write s _).symm

theorem answer (pretty : Bool) (s : Session) (line : String) :
    Repl.answer pretty (g s) line = g (Repl.answer pretty s line) := by
  unfold Repl.answer
  cases Expr.parse line with
  | error e => exact h.report _ s
  | ok e =>
    have shown : (if pretty then (g s).writeLine e.form.onPage else g s) =
        g (if pretty then s.writeLine e.form.onPage else s) := by
      cases pretty with
      | false => rfl
      | true => exact (h.write s _).symm
    show Repl.report (Session.evaluate _ e) = g (Repl.report (Session.evaluate _ e))
    rw [shown, h.evaluate, h.report]

theorem step (r : Repl) (line : String) :
    Repl.step { r with session := g r.session } line =
      { r.step line with session := g (r.step line).session } := by
  unfold Repl.step
  split
  · rfl
  · simp only [h.answer]

/-- The loop reads as many lines whether the session is changed before it or after it. -/
theorem loop (prompt : String) (r : Repl) (lines : List String) :
    Repl.run prompt { r with session := g r.session } lines =
      ((r.run prompt lines).1,
        { (r.run prompt lines).2 with session := g (r.run prompt lines).2.session }) := by
  induction lines generalizing r with
  | nil => simp only [Repl.run, h.write]
  | cons line lines ih =>
    simp only [Repl.run, ← h.write]
    split
    · rfl
    · rw [h.step { r with session := r.session.write prompt } line, ih]

theorem runFile (s : Session) (content : Except CommandLine.Unreadable ByteArray) :
    CommandLine.runFile (g s) content =
      ((CommandLine.runFile s content).1, g (CommandLine.runFile s content).2) := by
  unfold CommandLine.runFile
  cases content.bind CommandLine.scriptOf with
  | error reason => rfl
  | ok source =>
    simp only [h.run]
    obtain ⟨answer, t⟩ := s.run source
    cases answer with
    | ok v => exact congrArg _ (h.write t _).symm
    | error f => rfl

theorem runFiles (files : String → Except CommandLine.Unreadable ByteArray) (s : Session)
    (paths : List String) :
    CommandLine.runFiles files (g s) paths =
      ((CommandLine.runFiles files s paths).1, g (CommandLine.runFiles files s paths).2.1,
        (CommandLine.runFiles files s paths).2.2) := by
  induction paths generalizing s with
  | nil => rfl
  | cons path paths ih =>
    simp only [CommandLine.runFiles, h.runFile]
    obtain ⟨fileEnd, t⟩ := CommandLine.runFile s (files path)
    cases fileEnd with
    | completed => exact ih t
    | failed f => rfl
    | unreadable reason => rfl

end Session.Unseen

namespace CommandLine

theorem work_lines (debug : Bool) (files : String → Except Unreadable ByteArray) (input : String) :
    work debug files input [] = (.done 0,
      ((Repl.start (startSession debug)).run prompt
        ((Text.inputLines input.toList).map String.ofList)).2.session, "") :=
  rfl

/-- Without a log the program does the same, and leaves the same session but for the log. -/
theorem work_unlogged (files : String → Except Unreadable ByteArray) (input : String)
    (sources : List String) :
    work false files input sources =
      ((work true files input sources).1, (work true files input sources).2.1.unlogged,
        (work true files input sources).2.2) := by
  cases sources with
  | nil =>
    have loop := unseen_unlogged.loop prompt (Repl.start (startSession true))
      ((Text.inputLines input.toList).map String.ofList)
    rw [work_lines, work_lines]
    exact congrArg (fun r => (Ending.done 0, r.2.session, "")) loop
  | cons path paths => exact unseen_unlogged.runFiles files (startSession true) (path :: paths)

/-! ## The switch -/

/-- The request with the log shown, if it starts the program at all. -/
def Request.debugging : Request → Request
  | start _ sources => .start true sources
  | help => .help
  | invalid message => .invalid message

theorem Understood.take_debug (u : Understood) (run : List String) :
    { u with debug := true }.take run = { u.take run with debug := true } := by
  unfold Understood.take
  split <;> simp_all

theorem Understood.finish_debug (u : Understood) :
    { u with debug := true }.finish = u.finish.debugging := by
  unfold Understood.finish
  cases u.extras <;> rfl

theorem understand_debug (u : Understood) (run : List String) (args : List Argument) :
    understand { u with debug := true } run args = (understand u run args).debugging := by
  induction args generalizing u run with
  | nil => rw [understand, understand, u.take_debug, Understood.finish_debug]
  | cons arg args ih =>
    cases arg with
    | source text => exact ih u _
    | unknown text =>
      simp only [understand, u.take_debug]
      exact ih { u.take run with extras := (u.take run).extras ++ [text] } []
    | long switch value =>
      cases value with
      | some value => cases switch <;> rfl
      | none =>
        cases switch with
        | help => rfl
        | debug =>
          simp only [understand, u.take_debug]
          exact ih { u.take run with debug := true } []
    | short value =>
      cases value with
      | none => rfl
      | some value =>
        simp only [understand, ofShortValue]
        split <;> rfl

/-- The debug switch in front of other arguments changes nothing but that the log is shown. -/
theorem Request.ofArguments_debug (args : List String) :
    Request.ofArguments ("--debug" :: args) = (Request.ofArguments args).debugging := by
  have switch : Argument.ofText "--debug" = .ok (.long .debug none) := by rfl
  have first : (("--debug" : String) != "--") = true := by rfl
  simp only [Request.ofArguments, List.takeWhile_cons, List.dropWhile_cons, first, if_true,
    List.mapM_cons, switch]
  cases (args.takeWhile (· != "--")).mapM Argument.ofText with
  | error message => rfl
  | ok before => exact understand_debug ⟨false, none, []⟩ [] _

/-! ## The program -/

theorem run_start (files : String → Except Unreadable ByteArray) (input : String)
    {args : List String} {debug : Bool} {sources : List String}
    (hargs : Request.ofArguments args = .start debug sources) :
    run files input args =
      ⟨(work debug files input sources).1, (work debug files input sources).2.1.output,
        (work debug files input sources).2.1.logText ++ (work debug files input sources).2.2⟩ := by
  rw [run, hargs]

/-- The debug switch in front of other arguments only asks for the log. If two lists of arguments
differ in nothing but that, the program ends in the same way with the same variables, containers and
output. One of the two runs has lines of the log in front of its errors; without these the errors
are those of the other run. -/
theorem run_debug (files : String → Except Unreadable ByteArray) (input : String) :
    (∀ args, Request.ofArguments ("--debug" :: args) = (Request.ofArguments args).debugging) ∧
      ∀ plain debug sources, Request.ofArguments plain = .start false sources →
        Request.ofArguments debug = .start true sources →
        ∃ ending s t errors, ∃ events : List Event,
          work false files input sources = (ending, s, errors) ∧
          work true files input sources = (ending, t, errors) ∧
          t.scope = s.scope ∧ t.store = s.store ∧
          run files input plain = ⟨ending, s.output, errors⟩ ∧
          run files input debug = ⟨ending, s.output,
            String.join (events.map fun e => "DEBUG tilde: " ++ e.message ++ "\n") ++ errors⟩ := by
  refine ⟨Request.ofArguments_debug, fun plain debug sources hplain hdebug => ?_⟩
  have plainWork := work_unlogged files input sources
  have plainRun := run_start files input hplain
  have debugRun := run_start files input hdebug
  rcases debugWork : work true files input sources with ⟨ending, t, errors⟩
  rw [debugWork] at plainWork debugRun
  have noLog : t.unlogged.logText ++ errors = errors := String.empty_append
  rw [plainWork, noLog] at plainRun
  exact ⟨ending, t.unlogged, t, errors, (t.log.getD #[]).toList, plainWork, rfl, rfl, rfl,
    plainRun, debugRun⟩

/-- A line that prints, and one that fails. -/
theorem run_debug_lines :
    Request.ofArguments [] = .start false [] ∧ Request.ofArguments ["--debug"] = .start true [] ∧
      ∃ ending s t errors, ∃ events : List Event,
        work false (fun _ => .error .missing) "print: `a`\n1 + `b`\n" [] = (ending, s, errors) ∧
        work true (fun _ => .error .missing) "print: `a`\n1 + `b`\n" [] = (ending, t, errors) ∧
        t.scope = s.scope ∧ t.store = s.store ∧
        run (fun _ => .error .missing) "print: `a`\n1 + `b`\n" [] = ⟨ending, s.output, errors⟩ ∧
        run (fun _ => .error .missing) "print: `a`\n1 + `b`\n" ["--debug"] = ⟨ending, s.output,
          String.join (events.map fun e => "DEBUG tilde: " ++ e.message ++ "\n") ++ errors⟩ :=
  ⟨rfl, rfl, (run_debug _ _).2 [] ["--debug"] [] rfl rfl⟩

end CommandLine

end Scriptlet
