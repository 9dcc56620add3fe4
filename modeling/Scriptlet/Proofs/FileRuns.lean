import Scriptlet.Proofs.Logging
import Scriptlet.Proofs.Transcript

/-!
# Runs of files

The script in a file is the text that its bytes are the UTF-8 of, with one line feed for each end of
a line (`Text.Unified`); bytes that are the UTF-8 of no text make no script (`scriptAt_eq_ok_iff`,
`scriptAt_eq_error_iff`).

`Succeeds files s paths shown t`: the scripts in the files, run in order as scripts of one session
that starts as `s`, all come to values. They leave the session `t`, and `shown` is what they print,
each followed by the line of its value. The program shows just that of the files in front of the
first one that stops it (`runFiles_of_succeeds`), and there either is such a file or none
(`succeeds_or_stops`).

* `run_files`: how the program ends for any list of files, by the first one that stops it. It does
  not depend on the files behind that one.
-/

namespace Scriptlet

/-! ## Texts in files -/

namespace Text

/-- The second text is the first one with one line feed for each end of a line: for a carriage
return, together with a line feed right behind it, and for any other line feed. -/
inductive Unified : List Char → List Char → Prop
  | nil : Unified [] []
  | pair {cs ds : List Char} : Unified cs ds → Unified ('\r' :: '\n' :: cs) ('\n' :: ds)
  | lone {cs ds : List Char} : cs.head? ≠ some '\n' → Unified cs ds →
    Unified ('\r' :: cs) ('\n' :: ds)
  | other {c : Char} {cs ds : List Char} : c ≠ '\r' → Unified cs ds → Unified (c :: cs) (c :: ds)

theorem unifyLineEnds_cons {c : Char} {cs : List Char} (h : c = '\r' → cs.head? ≠ some '\n') :
    unifyLineEnds (c :: cs) = (if c = '\r' then '\n' else c) :: unifyLineEnds cs := by
  refine unifyLineEnds.eq_3 c cs fun rest hc hcs => h hc ?_
  rw [hcs, List.head?_cons]

theorem unified_iff {cs ds : List Char} : Unified cs ds ↔ ds = unifyLineEnds cs := by
  constructor
  · intro h
    induction h with
    | nil => rfl
    | pair _ ih => rw [ih, unifyLineEnds]
    | lone hne _ ih => rw [ih, unifyLineEnds_cons fun _ => hne, if_pos rfl]
    | other hc _ ih => rw [ih, unifyLineEnds_cons fun h => absurd h hc, if_neg hc]
  · rintro rfl
    fun_induction unifyLineEnds cs with
    | case1 => exact .nil
    | case2 cs ih => exact .pair ih
    | case3 c cs hne ih =>
      by_cases hc : c = '\r'
      · subst hc
        refine .lone (fun h => ?_) ih
        obtain ⟨rest, rfl⟩ := List.head?_eq_some_iff.1 h
        exact hne rest rfl rfl
      · rw [if_neg hc]
        exact .other hc ih

theorem fromUTF8?_eq_some_iff {content : ByteArray} {text : String} :
    String.fromUTF8? content = some text ↔ content = text.toUTF8 := by
  constructor
  · intro h
    unfold String.fromUTF8? at h
    split at h
    · cases h
      rfl
    · cases h
  · rintro rfl
    exact dif_pos text.isValidUTF8

end Text

namespace CommandLine

/-! ## Requests -/

theorem understand_sources (u : Understood) (run : List String) (sources : List String) :
    understand u run (sources.map .source) = (u.take (run ++ sources)).finish := by
  induction sources generalizing run with
  | nil => rw [List.map_nil, understand, List.append_nil]
  | cons source sources ih =>
    rw [List.map_cons, understand, ih, List.append_assoc, List.singleton_append]

/-- Every list of files can be asked for. -/
theorem ofArguments_sources (sources : List String) :
    Request.ofArguments ("--" :: sources) = .start false sources := by
  have before : ([] : List String).mapM Argument.ofText = .ok [] := rfl
  rw [Request.ofArguments, List.takeWhile_cons_of_neg (by simp),
    List.dropWhile_cons_of_neg (by simp), before]
  dsimp only
  rw [List.nil_append, understand_sources]
  simp [Understood.take, Understood.finish]

/-! ## Scripts in files -/

section
variable {files : String → Except Unreadable ByteArray}

/-- The script in a file, if it can be opened and decoded. -/
def scriptAt (files : String → Except Unreadable ByteArray) (path : String) :
    Except Unreadable String :=
  (files path).bind scriptOf

theorem scriptOf_eq_ok_iff {content : ByteArray} {source : String} :
    scriptOf content = .ok source ↔
      ∃ text : String, content = text.toUTF8 ∧ Text.Unified text.toList source.toList := by
  simp only [← Text.fromUTF8?_eq_some_iff, Text.unified_iff]
  unfold scriptOf
  cases String.fromUTF8? content with
  | none => simp
  | some text =>
    simp only [Except.ok.injEq, Option.some.injEq, exists_eq_left']
    rw [← String.toList_inj, String.toList_ofList, eq_comm]

theorem scriptOf_eq_error_iff {content : ByteArray} {reason : Unreadable} :
    scriptOf content = .error reason ↔
      reason = .notText ∧ ∀ text : String, content ≠ text.toUTF8 := by
  simp only [ne_eq, ← Text.fromUTF8?_eq_some_iff]
  unfold scriptOf
  cases String.fromUTF8? content with
  | none => simp [eq_comm]
  | some text => simp

theorem scriptAt_eq_ok_iff {path source : String} : scriptAt files path = .ok source ↔
    ∃ text : String, files path = .ok text.toUTF8 ∧
      Text.Unified text.toList source.toList := by
  unfold scriptAt
  cases files path with
  | error reason => exact ⟨nofun, nofun⟩
  | ok content => simpa [Except.bind] using scriptOf_eq_ok_iff

theorem scriptAt_eq_error_iff {path : String} {reason : Unreadable} :
    scriptAt files path = .error reason ↔ files path = .error reason ∨
      reason = .notText ∧
        ∃ content, files path = .ok content ∧ ∀ text : String, content ≠ text.toUTF8 := by
  unfold scriptAt
  cases files path with
  | error r => simp [Except.bind]
  | ok content => simpa [Except.bind] using scriptOf_eq_error_iff

/-! ## Files that do not stop a run -/

/-- The scripts in the files all come to values, one after the other in one session. -/
inductive Succeeds (files : String → Except Unreadable ByteArray) :
    Session → List String → String → Session → Prop
  | nil (s : Session) : Succeeds files s [] "" s
  | cons {s t u : Session} {path source shown : String} {paths : List String} {v : Value} :
    scriptAt files path = .ok source → s.run source = (.ok v, t) →
    Succeeds files t paths shown u →
    Succeeds files s (path :: paths) (s.printed source ++ v.display ++ "\n" ++ shown) u

/-- A file that cannot be read, or whose script comes to no value. -/
def Stops (files : String → Except Unreadable ByteArray) (s : Session) (path : String) : Prop :=
  (∃ reason, scriptAt files path = .error reason) ∨
    ∃ source f t, scriptAt files path = .ok source ∧ s.run source = (.error f, t)

/-- Either no file stops the run, or there is a first one that does. -/
theorem succeeds_or_stops (files : String → Except Unreadable ByteArray) (s : Session)
    (paths : List String) :
    (∃ shown t, Succeeds files s paths shown t) ∨
      ∃ before path after shown t, paths = before ++ path :: after ∧
        Succeeds files s before shown t ∧ Stops files t path := by
  induction paths generalizing s with
  | nil => exact .inl ⟨_, _, .nil s⟩
  | cons path paths ih =>
    cases hp : scriptAt files path with
    | error reason => exact .inr ⟨[], path, paths, _, _, rfl, .nil s, .inl ⟨reason, hp⟩⟩
    | ok source =>
      rcases hr : s.run source with ⟨f | v, t⟩
      · exact .inr ⟨[], path, paths, _, _, rfl, .nil s, .inr ⟨source, f, t, hp, hr⟩⟩
      · obtain ⟨shown, u, h⟩ | ⟨before, stop, after, shown, u, rfl, h, hs⟩ := ih t
        · exact .inl ⟨_, u, .cons hp hr h⟩
        · exact .inr ⟨path :: before, stop, after, _, u, rfl, .cons hp hr h, hs⟩

namespace Succeeds

variable {s t : Session} {paths : List String} {shown : String}

/-- Only the files that are run are looked at. -/
theorem congr (h : Succeeds files s paths shown t) {other : String → Except Unreadable ByteArray}
    (ho : ∀ path ∈ paths, other path = files path) : Succeeds other s paths shown t := by
  induction h with
  | nil s => exact .nil s
  | cons hp hr _ ih =>
    obtain ⟨hpath, ho⟩ := List.forall_mem_cons.1 ho
    exact .cons (by rw [scriptAt, hpath]; exact hp) hr (ih ho)

/-- Scripts keep to bodies of scripts. -/
theorem holds (h : Succeeds files s paths shown t) (hs : s.Holds Value.OfScript) :
    t.Holds Value.OfScript := by
  induction h with
  | nil s => exact hs
  | @cons s t u path source shown paths v _ hr _ ih =>
    have ht := hs.runWithin nestingLimit .standard source
    rw [← s.run_eq_runWithin, hr] at ht
    exact ih ht

end Succeeds

/-! ## Runs -/

section
variable {s s' t : Session} {path source : String}

theorem runFile_of_error {reason : Unreadable} (hp : scriptAt files path = .error reason) :
    runFile s (files path) = (.unreadable reason, s) := by
  have hc : (files path).bind scriptOf = .error reason := hp
  rw [runFile, hc]

theorem runFile_of_value {v : Value} (hp : scriptAt files path = .ok source)
    (hr : s.run source = (.ok v, t)) :
    runFile s (files path) = (.completed, t.writeLine v.display) := by
  have hc : (files path).bind scriptOf = .ok source := hp
  rw [runFile, hc]
  dsimp only
  rw [hr]

theorem runFile_of_failure {f : Failure} (hp : scriptAt files path = .ok source)
    (hr : s.run source = (.error f, t)) : runFile s (files path) = (.failed f, t) := by
  have hc : (files path).bind scriptOf = .ok source := hp
  rw [runFile, hc]
  dsimp only
  rw [hr]

/-- What is printed before a script makes no difference to it, and neither does a log. -/
theorem run_of_bare_eq (hb : s'.bare = s.bare) (source : String) :
    (s'.run source).1 = (s.run source).1 ∧ (s'.run source).2.bare = (s.run source).2.bare ∧
      (s'.run source).2.output = s'.output ++ s.printed source := by
  obtain ⟨hr', hb', ho'⟩ := s'.run_of_bare source
  obtain ⟨hr, hbare, -⟩ := s.run_of_bare source
  rw [Session.printed, hb] at ho'
  rw [hr', hb', hb, hr, hbare]
  exact ⟨rfl, rfl, ho'⟩

/-- The files that do not stop the run are run first, and then the others. -/
theorem runFiles_of_succeeds {paths : List String} {shown : String}
    (h : Succeeds files s paths shown t) (hb : s'.bare = s.bare) (rest : List String) :
    ∃ t', t'.bare = t.bare ∧ t'.output = s'.output ++ shown ∧
      runFiles files s' (paths ++ rest) = runFiles files t' rest := by
  induction h generalizing s' with
  | nil s => exact ⟨s', hb, by simp, rfl⟩
  | @cons s t u path source shown paths v hp hr _ ih =>
    obtain ⟨hres, hbare, hout⟩ := run_of_bare_eq hb source
    rw [hr] at hres hbare
    have hline : ((s'.run source).2.writeLine v.display).bare = t.bare := hbare
    obtain ⟨u', hu, ho, hrun⟩ := ih hline
    refine ⟨u', hu, ?_, ?_⟩
    · rw [ho]
      simp [Session.writeLine, Session.write, hout, String.append_assoc]
    · have hr' : s'.run source = (.ok v, (s'.run source).2) := Prod.ext hres rfl
      rw [List.cons_append, runFiles, runFile_of_value hp hr']
      exact hrun

end

/-! ## The program -/

/-- The program without the switch for the log: no line of a log is among its errors. -/
theorem run_files_eq {args sources : List String}
    (hargs : Request.ofArguments args = .start false sources) (hs : sources ≠ []) (input : String) :
    run files input args = ⟨(runFiles files (startSession false) sources).1,
      (runFiles files (startSession false) sources).2.1.output,
      (runFiles files (startSession false) sources).2.2⟩ := by
  obtain ⟨path, paths, rfl⟩ := List.exists_cons_of_ne_nil hs
  have hwork : runFiles files (startSession false) (path :: paths) =
      work false files input (path :: paths) := rfl
  have hlog : (work false files input (path :: paths)).2.1.logText = "" := by
    rw [work_unlogged]
    rfl
  rw [run_start files input hargs, hlog, String.empty_append, hwork]

section
variable {args before after : List String} {path shown : String} {t : Session}
  (h : Succeeds files (startSession false) before shown t) (input : String)
include h

theorem run_of_succeeds (hargs : Request.ofArguments args = .start false before)
    (hs : before ≠ []) : run files input args = ⟨.done 0, shown, ""⟩ := by
  obtain ⟨t', -, ho, hrun⟩ := runFiles_of_succeeds h rfl []
  rw [List.append_nil, runFiles] at hrun
  rw [run_files_eq hargs hs, hrun, ho]
  exact congrArg (Report.mk _ · _) String.empty_append

/-- The program is stopped by a script that comes to no value. -/
theorem run_of_failure (hargs : Request.ofArguments args = .start false (before ++ path :: after))
    {source : String} {f : Failure} {u : Session} (hp : scriptAt files path = .ok source)
    (hr : t.run source = (.error f, u)) :
    run files input args =
      ⟨.done 1, shown ++ t.printed source, "error: " ++ path ++ ": " ++ f.report ++ "\n"⟩ := by
  obtain ⟨t', hb, ho, hrun⟩ := runFiles_of_succeeds h rfl (path :: after)
  obtain ⟨hres, -, hout⟩ := run_of_bare_eq hb source
  rw [hr] at hres
  have hr' : t'.run source = (.error f, (t'.run source).2) := Prod.ext hres rfl
  rw [runFiles, runFile_of_failure hp hr'] at hrun
  rw [run_files_eq hargs (by simp), hrun]
  have hshown : t'.output = shown := ho.trans String.empty_append
  rw [← hshown, ← hout]
  rfl

/-- The program is stopped by a file that cannot be read. -/
theorem run_of_unreadable
    (hargs : Request.ofArguments args = .start false (before ++ path :: after))
    {reason : Unreadable} (hp : scriptAt files path = .error reason) :
    run files input args = ⟨.unreadable reason, shown, ""⟩ ∧
      ∃ t', work false files input (before ++ path :: after) = (.unreadable reason, t', "") ∧
        t'.scope = t.scope ∧ t'.store = t.store := by
  obtain ⟨t', hb, ho, hrun⟩ := runFiles_of_succeeds h rfl (path :: after)
  rw [runFiles, runFile_of_error hp] at hrun
  have hwork : work false files input (before ++ path :: after) =
      runFiles files (startSession false) (before ++ path :: after) := by
    cases before <;> rfl
  refine ⟨?_, t', hwork.trans hrun, Session.of_bare_eq hb⟩
  rw [run_files_eq hargs (by simp), hrun, ho]
  exact congrArg (Report.mk _ · _) String.empty_append

end

end

/-- The program without the switch for the log, for any files. The script in a file is the text that
its bytes are the UTF-8 of, with one line feed for each end of a line. The session that the scripts
are run in starts with nothing but the builtins. If the scripts in all files come to values, one
after the other, the program ends well and shows what each script prints and the line of its value.
If not, there is a first file that stops it. Where its script fails, the program shows what was
shown for the files before it and what the script printed, and reports the failure with the path;
where it cannot be read, nothing of it is run. The files behind it make no difference, whatever they
are and whether they are there. A script that never ends is cut off in place of a failure, and no
script meets a defect. -/
theorem run_files {files : String → Except Unreadable ByteArray} {args sources : List String}
    (hargs : Request.ofArguments args = .start false sources) (hs : sources ≠ [])
    (input : String) :
    Request.ofArguments ("--" :: sources) = .start false sources ∧
    (∀ path source, scriptAt files path = .ok source ↔
      ∃ text : String, files path = .ok text.toUTF8 ∧
        Text.Unified text.toList source.toList) ∧
    (∀ path reason, scriptAt files path = .error reason ↔ files path = .error reason ∨
      reason = .notText ∧
        ∃ content, files path = .ok content ∧ ∀ text : String, content ≠ text.toUTF8) ∧
    startSession false = Session.initial.withBuiltins ∧
    (∀ f : Failure, f.report = f.message ++ f.position.elim "" fun n => " @ " ++ toString n) ∧
    (∀ shown t, Succeeds files (startSession false) sources shown t →
      run files input args = ⟨.done 0, shown, ""⟩) ∧
    (∀ before path after shown t, sources = before ++ path :: after →
      Succeeds files (startSession false) before shown t →
      (∀ source f u kind, scriptAt files path = .ok source → t.run source = (.error f, u) →
        f.kind? = some kind → run files input args =
          ⟨.done 1, shown ++ t.printed source, "error: " ++ path ++ ": " ++ f.report ++ "\n"⟩) ∧
      (∀ reason, scriptAt files path = .error reason →
        run files input args = ⟨.unreadable reason, shown, ""⟩ ∧
          ∃ u, work false files input sources = (.unreadable reason, u, "") ∧
            u.scope = t.scope ∧ u.store = t.store) ∧
      (Stops files t path → ∀ (other : String → Except Unreadable ByteArray) (args' later),
        (∀ p ∈ before ++ [path], other p = files p) →
        Request.ofArguments args' = .start false (before ++ path :: later) →
        run other input args' = run files input args)) ∧
    ((∃ shown t, Succeeds files (startSession false) sources shown t) ∨
      ∃ before path after shown t, sources = before ++ path :: after ∧
        Succeeds files (startSession false) before shown t ∧
        ((∃ reason, scriptAt files path = .error reason) ∨
          ∃ source f u, scriptAt files path = .ok source ∧ t.run source = (.error f, u) ∧
            (f = .unfinished ∨ ∃ kind, f.kind? = some kind))) := by
  refine ⟨ofArguments_sources sources, fun _ _ => scriptAt_eq_ok_iff,
    fun _ _ => scriptAt_eq_error_iff, rfl, Failure.report_eq,
    fun shown t h => run_of_succeeds h input hargs hs, ?_, ?_⟩
  · rintro before path after shown t rfl h
    refine ⟨fun source f u kind hp hr _ => run_of_failure h input hargs hp hr,
      fun reason hp => run_of_unreadable h input hargs hp, fun hstop other args' later ho ho' => ?_⟩
    obtain ⟨hbefore, hpath⟩ := List.forall_mem_append.1 ho
    have hsame : scriptAt other path = scriptAt files path := by
      rw [scriptAt, scriptAt, List.forall_mem_singleton.1 hpath]
    have h' := h.congr hbefore
    obtain ⟨reason, hp⟩ | ⟨source, f, u, hp, hr⟩ := hstop
    · rw [(run_of_unreadable h' input ho' (hsame.trans hp)).1,
        (run_of_unreadable h input hargs hp).1]
    · rw [run_of_failure h' input ho' (hsame.trans hp) hr, run_of_failure h input hargs hp hr]
  · obtain hall | ⟨before, path, after, shown, t, rfl, h, hstop⟩ :=
      succeeds_or_stops files (startSession false) sources
    · exact .inl hall
    refine .inr ⟨before, path, after, shown, t, rfl, h, hstop.imp_right ?_⟩
    rintro ⟨source, f, u, hp, hr⟩
    have hdefect := (h.holds (holds_startSession false)).runWithin_ne_defect nestingLimit .standard
      source
    rw [← t.run_eq_runWithin, hr] at hdefect
    refine ⟨source, f, u, hp, hr, ?_⟩
    cases f with
    | unfinished => exact .inl rfl
    | defect d => exact absurd rfl (hdefect d)
    | parse e | eval e => exact .inr ⟨_, rfl⟩

/-- A file with a script that ends its line as two characters do, and one with a bracket that closes
nothing. -/
def twoFiles (path : String) : Except Unreadable ByteArray :=
  if path = "a" then .ok "x\r\n".toUTF8 else if path = "b" then .ok ")".toUTF8
  else .error .missing

/-- The second file stops the program, so it does not matter that there is no third one. -/
theorem run_files_unmatched :
    Request.ofArguments ["a", "b", "c"] = .start false ["a", "b", "c"] ∧
      ∃ (t : Session) (e : ParseError),
        scriptAt twoFiles "a" = .ok "x\n" ∧
        Succeeds twoFiles (startSession false) ["a"] "null\n" t ∧
        scriptAt twoFiles "b" = .ok ")" ∧ t.run ")" = (.error (.parse e), t) ∧
        (Failure.parse e).kind? = some .unmatchedBracket ∧
        run twoFiles "" ["a", "b", "c"] =
          ⟨.done 1, "null\n" ++ t.printed ")", "error: " ++ "b" ++ ": " ++ (Failure.parse e).report
            ++ "\n"⟩ := by
  have hargs : Request.ofArguments ["a", "b", "c"] = .start false ["a", "b", "c"] := rfl
  have hp : Expr.parse ")" = .error ⟨.unmatched .round, some 0⟩ := rfl
  have hb : scriptAt twoFiles "b" = .ok ")" := rfl
  have hr : ∃ t, (startSession false).run "x\n" = (.ok .null, t) := ⟨_, rfl⟩
  obtain ⟨t, ht⟩ := hr
  obtain ⟨-, hscript, -, -, -, -, hstops, -⟩ := @run_files twoFiles _ _ hargs (by simp) ""
  have hx : scriptAt twoFiles "a" = .ok "x\n" :=
    (hscript "a" "x\n").2 ⟨"x\r\n", rfl, .other (by decide) (.pair .nil)⟩
  have ha : Succeeds twoFiles (startSession false) ["a"] "null\n" t := .cons hx ht (.nil t)
  have hstop := Session.run_of_parse_error hp t
  exact ⟨hargs, t, _, hx, ha, hb, hstop, rfl,
    (hstops ["a"] "b" ["c"] _ t rfl ha).1 ")" _ t _ hb hstop rfl⟩

end CommandLine

end Scriptlet
