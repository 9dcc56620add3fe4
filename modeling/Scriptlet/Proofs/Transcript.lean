import Scriptlet.CommandLine
import Scriptlet.Proofs.Outcome
import Scriptlet.Proofs.Unseen

/-!
# What the interactive loop shows

`Repl.entries s before lines` is what the loop shows for lines that it takes after other lines, but
for the prompts: for the switch nothing, and for any other line the tree if it is to be shown, what
the script prints, and its value or its failure. Every entry is said by itself, from the session
that running all scripts before it leaves.

* `run_entries`: the loop shows the entries of the lines in front of the first empty one and leaves
  the variables and containers that running their scripts leaves. The lines that switch make no
  difference but to the trees that are shown.
-/

namespace Scriptlet

/-! ## Sessions up to what is printed -/

namespace Session

/-- The variables and the containers of a session, with nothing printed and without a log. -/
def bare (s : Session) : Session := { s with output := "", log := none }

/-- The session with a text in front of all that is printed, and without its log. -/
def behind (text : String) (s : Session) : Session :=
  { s with output := text ++ s.output, log := none }

theorem unseen_behind (text : String) : Unseen (behind text) where
  scope _ := rfl
  store _ := rfl
  update _ _ _ := rfl
  write _ _ := by simp [behind, Session.write, String.append_assoc]
  record _ _ := rfl

theorem of_bare_eq {s t : Session} (h : s.bare = t.bare) :
    s.scope = t.scope ∧ s.store = t.store := by
  simpa [bare] using h

theorem behind_bare (s : Session) : behind "" s = behind s.output s.bare := by
  simp [behind, bare]

/-- Results that are alike but for the output in front of them. -/
theorem of_behind {text : String} {r r' : Except Failure Value × Session}
    (h : (r.1, behind "" r.2) = (r'.1, behind text r'.2)) :
    r.1 = r'.1 ∧ r.2.bare = r'.2.bare ∧ r.2.output = text ++ r'.2.output := by
  simp only [Prod.mk.injEq, behind, Session.mk.injEq, String.empty_append] at h
  obtain ⟨hr, hscope, hstore, hout, -⟩ := h
  exact ⟨hr, by simp [bare, hscope, hstore], hout⟩

theorem evaluate_of_bare (s : Session) (e : Expr) :
    (s.evaluate e).1 = (s.bare.evaluate e).1 ∧
      (s.evaluate e).2.bare = (s.bare.evaluate e).2.bare ∧
      (s.evaluate e).2.output = s.output ++ (s.bare.evaluate e).2.output := by
  apply of_behind
  rw [← (unseen_behind _).evaluate, ← (unseen_behind _).evaluate, behind_bare]

/-- What a script prints. -/
def printed (s : Session) (source : String) : String := (s.bare.run source).2.output

/-- The session after scripts, whether they fail or not. -/
def runAll (s : Session) (sources : List String) : Session :=
  sources.foldl (fun s source => (s.run source).2) s

theorem run_of_bare (s : Session) (source : String) :
    (s.run source).1 = (s.bare.run source).1 ∧
      (s.run source).2.bare = (s.bare.run source).2.bare ∧
      (s.run source).2.output = s.output ++ s.printed source := by
  apply of_behind
  rw [← (unseen_behind _).run, ← (unseen_behind _).run, behind_bare]

theorem run_of_parse_error {source : String} {e : ParseError} (h : Expr.parse source = .error e)
    (s : Session) : s.run source = (.error (.parse e), s) := by
  unfold Session.run
  generalize Expr.parse source = r at h ⊢
  cases h
  rfl

theorem run_bare_of_parse_ok {source : String} {e : Expr} (h : Expr.parse source = .ok e)
    (s : Session) : s.bare.run source = s.bare.evaluate e := by
  have bare : s.bare.record (.parsed source e) = s.bare := rfl
  unfold Session.run
  generalize Expr.parse source = r at h ⊢
  cases h
  dsimp only
  rw [bare]

end Session

/-- The program starts with nothing but builtins. -/
theorem CommandLine.holds_startSession (debug : Bool) :
    (startSession debug).Holds Value.OfScript := by
  obtain ⟨hscope, hstore⟩ := Session.Holds.initial Value.OfScript
  exact Session.Holds.withBuiltins ⟨hscope, hstore⟩ trivial fun _ => trivial

/-! ## Entries -/

namespace Repl

/-- What is shown of the result of a script. -/
def reply : Except Failure Value → String
  | .ok v => v.display ++ "\n"
  | .error f => "error: " ++ f.report ++ "\n"

/-- The tree of a line, if trees are shown and the line has one. -/
def dump (pretty : Bool) (line : String) : String :=
  match Expr.parse line with
  | .ok e => if pretty then e.form.onPage ++ "\n" else ""
  | .error _ => ""

/-- What the loop shows for one line. -/
inductive Entry where
  | switched
  | answered (dump printed reply : String)

def Entry.text : Entry → String
  | switched => ""
  | answered dump printed reply => dump ++ printed ++ reply

/-- The entry without its tree; none for a line that switches. -/
def Entry.withoutDump? : Entry → Option Entry
  | switched => none
  | answered _ printed reply => some (.answered "" printed reply)

/-- The lines that are run. -/
def scripts (lines : List String) : List String := lines.filter (· ≠ prettyLine)

theorem scripts_cons_prettyLine (lines : List String) :
    scripts (prettyLine :: lines) = scripts lines := by
  simp [scripts]

theorem scripts_cons_of_ne {line : String} (h : line ≠ prettyLine) (lines : List String) :
    scripts (line :: lines) = line :: scripts lines := by
  simp [scripts, h]

theorem scripts_append_prettyLine (lines : List String) :
    scripts (lines ++ [prettyLine]) = scripts lines := by
  simp [scripts]

theorem scripts_append_of_ne {line : String} (h : line ≠ prettyLine) (lines : List String) :
    scripts (lines ++ [line]) = scripts lines ++ [line] := by
  simp [scripts, List.filter_append, h]

theorem scripts_scripts (lines : List String) : scripts (scripts lines) = scripts lines := by
  simp [scripts]

/-- The entry of a line that is taken after other lines of a loop that started in a session. Trees
are shown after an odd number of switches. -/
def entry (s : Session) (before : List String) (line : String) : Entry :=
  if line = prettyLine then .switched
  else
    let t := s.runAll (scripts before)
    .answered (dump (before.count prettyLine % 2 = 1) line) (t.printed line) (reply (t.run line).1)

def entries (s : Session) (before : List String) : List String → List Entry
  | [] => []
  | line :: lines => entry s before line :: entries s (before ++ [line]) lines

/-! ## One line -/

theorem report_eq (answer : Except Failure Value) (s : Session) :
    report (answer, s) = s.write (reply answer) := by
  cases answer with
  | ok v => rfl
  | error f => simp [report, reply, Session.writeLine, String.append_assoc]

theorem answer_of_parse_error {line : String} {e : ParseError} (h : Expr.parse line = .error e)
    (pretty : Bool) (s : Session) : answer pretty s line = s.write (reply (.error (.parse e))) := by
  rw [← report_eq]
  unfold answer
  generalize Expr.parse line = r at h ⊢
  cases h
  rfl

theorem answer_of_parse_ok {line : String} {e : Expr} (h : Expr.parse line = .ok e)
    (pretty : Bool) (s : Session) :
    answer pretty s line =
      ((s.write (dump pretty line)).evaluate e).2.write
        (reply ((s.write (dump pretty line)).evaluate e).1) := by
  have shown : s.write (dump pretty line) = if pretty then s.writeLine e.form.onPage else s := by
    unfold dump
    generalize Expr.parse line = r at h ⊢
    cases h
    cases pretty with
    | true => rfl
    | false => simp [Session.write]
  rw [shown, ← report_eq]
  unfold answer
  generalize Expr.parse line = r at h ⊢
  cases h
  rfl

theorem dump_of_parse_error {line : String} {e : ParseError} (h : Expr.parse line = .error e)
    (pretty : Bool) : dump pretty line = "" := by
  unfold dump
  generalize Expr.parse line = r at h ⊢
  cases h
  rfl

/-- A script is answered by its tree, its output and its result, and leaves what running it
leaves. -/
theorem answer_spec (pretty : Bool) (s : Session) (line : String) :
    (answer pretty s line).bare = (s.run line).2.bare ∧
      (answer pretty s line).output =
        s.output ++ (dump pretty line ++ s.printed line ++ reply (s.run line).1) := by
  obtain ⟨hres, hbare, -⟩ := s.run_of_bare line
  rw [hres, hbare, Session.printed]
  cases hp : Expr.parse line with
  | error e =>
    rw [Session.run_of_parse_error hp, answer_of_parse_error hp, dump_of_parse_error hp]
    exact ⟨rfl, by simp [Session.write, Session.bare]⟩
  | ok e =>
    obtain ⟨hres, hbare, hout⟩ := (s.write (dump pretty line)).evaluate_of_bare e
    have hs : (s.write (dump pretty line)).bare = s.bare := rfl
    rw [hs] at hres hbare hout
    rw [Session.run_bare_of_parse_ok hp, answer_of_parse_ok hp, hres]
    refine ⟨hbare, ?_⟩
    show ((s.write (dump pretty line)).evaluate e).2.output ++ _ = _
    rw [hout]
    simp only [Session.write, String.append_assoc]

/-- The loop has taken lines, from a given session on: it shows trees after an odd number of
switches, and has run all other lines. -/
structure Taken (s : Session) (before : List String) (r : Repl) : Prop where
  pretty : r.pretty = true ↔ before.count prettyLine % 2 = 1
  bare : r.session.bare = (s.runAll (scripts before)).bare

theorem taken_nil (s : Session) : Taken s [] (start s) := ⟨by simp [start], rfl⟩

theorem Taken.step {s : Session} {before : List String} {r : Repl} (h : Taken s before r)
    (line : String) :
    Taken s (before ++ [line]) (r.step line) ∧
      (r.step line).session.output = r.session.output ++ (entry s before line).text := by
  unfold Repl.step entry
  split
  case isTrue hl =>
    refine ⟨⟨?_, ?_⟩, by simp [Entry.text]⟩
    · have hp := h.pretty
      simp only [List.count_append, List.count_singleton, hl, beq_self_eq_true, if_true]
      cases hr : r.pretty <;> simp_all <;> omega
    · rw [hl, scripts_append_prettyLine]
      exact h.bare
  case isFalse hl =>
    obtain ⟨hbare, hout⟩ := answer_spec r.pretty r.session line
    obtain ⟨hr, hrb, -⟩ := r.session.run_of_bare line
    obtain ⟨ht, htb, -⟩ := (s.runAll (scripts before)).run_of_bare line
    refine ⟨⟨?_, ?_⟩, ?_⟩
    · simpa [List.count_append, List.count_singleton, hl] using h.pretty
    · rw [scripts_append_of_ne hl, Session.runAll, List.foldl_append]
      show (answer r.pretty r.session line).bare =
        ((s.runAll (scripts before)).run line).2.bare
      rw [hbare, hrb, htb, h.bare]
    · have hd : decide (before.count prettyLine % 2 = 1) = r.pretty := by
        rw [Bool.eq_iff_iff, h.pretty, decide_eq_true_iff]
      show (answer r.pretty r.session line).output =
        r.session.output ++ (dump (decide (before.count prettyLine % 2 = 1)) line ++
          (s.runAll (scripts before)).printed line ++
          reply ((s.runAll (scripts before)).run line).1)
      rw [hout, hr, ht, Session.printed, Session.printed, h.bare, hd]

/-! ## The loop -/

/-- Taking lines after others shows their entries, each behind a prompt, and a last prompt. -/
theorem Taken.run {s : Session} {before : List String} {r : Repl} (h : Taken s before r)
    (prompt : String) (lines : List String) :
    (r.run prompt lines).1 = (lines.takeWhile (· ≠ "")).length + 1 ∧
      Taken s (before ++ lines.takeWhile (· ≠ "")) (r.run prompt lines).2 ∧
      (r.run prompt lines).2.session.output = r.session.output ++
        String.join ((entries s before (lines.takeWhile (· ≠ ""))).map (prompt ++ ·.text)) ++
          prompt := by
  have prompted (r : Repl) (before : List String) (h : Taken s before r) :
      Taken s before { r with session := r.session.write prompt } := ⟨h.pretty, h.bare⟩
  induction lines generalizing before r with
  | nil =>
    refine ⟨rfl, by simpa [Repl.run] using prompted r before h, ?_⟩
    simp [Repl.run, entries, Session.write]
  | cons line lines ih =>
    unfold Repl.run
    by_cases hl : line = ""
    · simp only [hl, if_true, List.takeWhile_cons, ne_eq, not_true_eq_false, decide_false,
        Bool.false_eq_true, if_false, List.length_nil, List.append_nil]
      refine ⟨trivial, prompted r before h, ?_⟩
      simp [entries, Session.write]
    · obtain ⟨hs, hout⟩ := (prompted r before h).step line
      obtain ⟨hn, ht, ho⟩ := ih hs
      simp only [hl, if_false, List.takeWhile_cons, ne_eq, not_false_eq_true, decide_true, if_true,
        List.length_cons, entries, List.map_cons, String.join_cons]
      refine ⟨congrArg (· + 1) hn, by simpa using ht, ?_⟩
      rw [ho, hout]
      simp [Session.write, String.append_assoc]

/-- Without the lines that switch, the entries are the same but for the trees. -/
theorem entries_scripts (s : Session) (before lines : List String) :
    entries s (scripts before) (scripts lines) =
      (entries s before lines).filterMap Entry.withoutDump? := by
  induction lines generalizing before with
  | nil => rfl
  | cons line lines ih =>
    have hs := ih (before ++ [line])
    by_cases hl : line = prettyLine
    · rw [hl, scripts_append_prettyLine] at hs
      rw [hl, scripts_cons_prettyLine, entries, entry, if_pos rfl, List.filterMap_cons, ← hs]
      rfl
    · rw [scripts_append_of_ne hl] at hs
      have hn : (scripts before).count prettyLine = 0 := by simp [scripts, List.count_eq_zero]
      have hd : dump false line = "" := by
        unfold dump
        cases Expr.parse line <;> rfl
      rw [scripts_cons_of_ne hl, entries, entries, List.filterMap_cons, ← hs]
      simp only [entry, if_neg hl, hn, scripts_scripts, Entry.withoutDump?]
      simp [hd]

/-- No line that switches is empty, so the first empty line stays the first one without them. -/
theorem takeWhile_scripts (lines : List String) :
    (scripts lines).takeWhile (· ≠ "") = scripts (lines.takeWhile (· ≠ "")) := by
  induction lines with
  | nil => rfl
  | cons line lines ih =>
    by_cases hl : line = prettyLine
    · have hne : prettyLine ≠ "" := by decide
      rw [hl, scripts_cons_prettyLine, ih, List.takeWhile_cons, if_pos (by simpa using hne),
        scripts_cons_prettyLine]
    · rw [scripts_cons_of_ne hl, List.takeWhile_cons, List.takeWhile_cons, ih]
      split
      · rw [scripts_cons_of_ne hl]
      · rfl

theorem holds_runAll {s : Session} (h : s.Holds Value.OfScript) (sources : List String) :
    (s.runAll sources).Holds Value.OfScript := by
  induction sources generalizing s with
  | nil => exact h
  | cons source sources ih =>
    have hs := h.runWithin nestingLimit .standard source
    rw [← s.run_eq_runWithin] at hs
    exact ih hs

/-- The loop takes the lines in front of the first empty one. It shows the entries of these lines,
each behind a prompt, and a last prompt, and leaves the variables and containers that running their
scripts in one session leaves. Without the lines that switch it leaves the same and shows the same
but for the trees. In the sessions that scripts leave in the program no script meets a defect. A
script that never ends is cut off in place of a failure: that is shown as one, and the loop goes on.
The program always ends well. -/
theorem run_entries (prompt : String) (s : Session) (lines : List String) :
    let taken := lines.takeWhile (· ≠ "")
    let r := (start s).run prompt lines
    let plain := (start s).run prompt (scripts lines)
    r.1 = taken.length + 1 ∧
      r.2.session.scope = (s.runAll (scripts taken)).scope ∧
      r.2.session.store = (s.runAll (scripts taken)).store ∧
      r.2.session.output =
        s.output ++ String.join ((entries s [] taken).map (prompt ++ ·.text)) ++ prompt ∧
      plain.2.session.scope = r.2.session.scope ∧ plain.2.session.store = r.2.session.store ∧
      plain.2.session.output = s.output ++ String.join
        (((entries s [] taken).filterMap Entry.withoutDump?).map (prompt ++ ·.text)) ++ prompt ∧
      (∀ debug sources line d,
        (((CommandLine.startSession debug).runAll sources).run line).1 ≠ .error (.defect d)) ∧
      ∀ debug files input, CommandLine.work debug files input [] = (.done 0,
        ((start (CommandLine.startSession debug)).run CommandLine.prompt
          ((Text.inputLines input.toList).map String.ofList)).2.session, "") := by
  intro taken r plain
  obtain ⟨hn, ht, ho⟩ := (taken_nil s).run prompt lines
  obtain ⟨-, ht', ho'⟩ := (taken_nil s).run prompt (scripts lines)
  have he := entries_scripts s [] taken
  rw [takeWhile_scripts] at ht' ho'
  rw [show scripts ([] : List String) = [] from rfl] at he
  rw [he] at ho'
  have hplain : plain.2.session.bare = r.2.session.bare := by
    rw [ht.bare, ht'.bare, List.nil_append, List.nil_append, scripts_scripts]
  obtain ⟨hscope, hstore⟩ := Session.of_bare_eq ht.bare
  obtain ⟨hscope', hstore'⟩ := Session.of_bare_eq hplain
  refine ⟨hn, hscope, hstore, ho, hscope', hstore', ho', fun debug sources line d => ?_,
    fun _ _ _ => rfl⟩
  rw [Session.run_eq_runWithin]
  exact (holds_runAll (CommandLine.holds_startSession debug) sources).runWithin_ne_defect _ _ line d

end Repl

end Scriptlet
