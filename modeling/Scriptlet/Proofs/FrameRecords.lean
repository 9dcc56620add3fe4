import Scriptlet.Proofs.Logging
import Std.Data.String.ToNat

/-!
# The records of frames

A log tells when a frame is put on and when it is taken off, and `framesAfter n events` is the
number of frames that its records tell of, from `n` frames on. `Nested n events`: from `n` frames
on, the events are those of calls, each one recorded, given a frame, gone through and rid of the
frame again. What an evaluation adds to the log is nested, however the evaluation ends
(`logs_eval`), and so is what a script adds.

* `Event.message_eq_entered_iff`, `Event.message_eq_left_iff`, `Event.message_eq_called_iff`: the
  texts of the records, and that each of them is the record of no other event.
* `Nested.allFit`: what this means for each single record, between the events in front of it and
  behind it (`Event.Fits`).
* `logs_call`: what the call of a function logs.
* `run_balanced`: the log of the program, for files and for lines.
-/

namespace Scriptlet

/-! ## Texts of records -/

namespace Event

/-- The first letter of a record, which tells events of one kind from all others. -/
def letter : Event → Char
  | entered _ => 'E'
  | left _ => 'L'
  | called _ _ => 'C'
  | parsed _ _ => 'P'

theorem head?_append {start : String} {c : Char} (h : start.toList.head? = some c)
    (text : String) : (start ++ text).toList.head? = some c := by
  rw [String.toList_append, List.head?_append, h, Option.some_or]

theorem head?_message (e : Event) : e.message.toList.head? = some e.letter := by
  cases e with
  | entered depth => exact head?_append rfl _
  | left depth => exact head?_append rfl _
  | called p v => exact head?_append (head?_append (head?_append rfl _) _) _
  | parsed source tree => exact head?_append (head?_append (head?_append rfl _) _) _

theorem letter_eq_of_message {e : Event} {start text : String} {c : Char}
    (hs : start.toList.head? = some c) (h : e.message = start ++ text) : e.letter = c := by
  have hl := e.head?_message
  rw [h, head?_append hs] at hl
  exact (Option.some.inj hl).symm

theorem append_toString_inj {start : String} {m n : Nat} :
    start ++ toString m = start ++ toString n ↔ m = n := by
  rw [String.append_right_inj, Nat.toString_eq_repr, Nat.toString_eq_repr, Nat.repr_inj]

/-- A text with a number is the record of one event only. -/
theorem message_eq_counted_iff {start : String} {c : Char} {record : Nat → Event}
    (hs : start.toList.head? = some c) (hr : ∀ n, (record n).message = start ++ toString n)
    (hc : ∀ e : Event, e.letter = c → ∃ n, e = record n) {e : Event} {n : Nat} :
    e.message = start ++ toString n ↔ e = record n := by
  constructor
  · intro h
    obtain ⟨m, rfl⟩ := hc e (letter_eq_of_message hs h)
    rw [hr] at h
    rw [append_toString_inj.1 h]
  · rintro rfl
    exact hr n

theorem message_eq_entered_iff {e : Event} {n : Nat} :
    e.message = "Entered scope, depth " ++ toString n ↔ e = .entered n := by
  refine message_eq_counted_iff (c := 'E') rfl (fun _ => rfl) fun e h => ?_
  cases e with
  | entered depth => exact ⟨depth, rfl⟩
  | _ => simp [letter] at h

theorem message_eq_left_iff {e : Event} {n : Nat} :
    e.message = "Left scope, depth " ++ toString n ↔ e = .left n := by
  refine message_eq_counted_iff (c := 'L') rfl (fun _ => rfl) fun e h => ?_
  cases e with
  | left depth => exact ⟨depth, rfl⟩
  | _ => simp [letter] at h

theorem message_called (p : String) (v : Value) :
    (called p v).message = "Calling function(" ++ (p ++ ") with " ++ v.display) := by
  have h : (called p v).message = "Calling function(" ++ p ++ ") with " ++ v.display := rfl
  simp only [h, String.append_assoc]

theorem message_eq_called_iff {e : Event} {text : String} :
    e.message = "Calling function(" ++ text ↔
      ∃ p v, e = .called p v ∧ text = p ++ ") with " ++ v.display := by
  constructor
  · intro h
    have hl := letter_eq_of_message (c := 'C') rfl h
    cases e with
    | called p v =>
      rw [message_called, String.append_right_inj] at h
      exact ⟨p, v, rfl, h.symm⟩
    | _ => simp [letter] at hl
  · rintro ⟨p, v, rfl, rfl⟩
    exact message_called p v

end Event

/-! ## Nested events -/

/-- The number of frames after an event, as the event tells. -/
def Event.frames (before : Nat) : Event → Nat
  | entered depth => depth
  | left depth => depth
  | called _ _ => before
  | parsed _ _ => before

/-- The number of frames after events, as the last record of a frame among them has it. -/
def framesAfter (start : Nat) (events : List Event) : Nat := events.foldl Event.frames start

theorem framesAfter_append (n : Nat) (xs ys : List Event) :
    framesAfter n (xs ++ ys) = framesAfter (framesAfter n xs) ys :=
  List.foldl_append

/-- Events of scripts and calls, from a number of frames on. Between the record of its frame and the
record that the frame is taken off, a call has events that are nested one frame deeper. -/
inductive Nested : Nat → List Event → Prop
  | nil (n : Nat) : Nested n []
  | parsed {n : Nat} {source : String} {tree : Expr} {later : List Event} :
    Nested n later → Nested n (.parsed source tree :: later)
  | call {n : Nat} {p : String} {v : Value} {inside later : List Event} :
    Nested (n + 1) inside → Nested n later →
    Nested n (.called p v :: .entered (n + 1) :: (inside ++ .left n :: later))

theorem Nested.append {n : Nat} {xs ys : List Event} (hx : Nested n xs) (hy : Nested n ys) :
    Nested n (xs ++ ys) := by
  induction hx with
  | nil n => exact hy
  | parsed _ ih => exact .parsed (ih hy)
  | call hi _ _ ih => simpa using Nested.call hi (ih hy)

/-- Nested events come back to the frames that they start with. -/
theorem Nested.framesAfter_eq {n : Nat} {xs : List Event} (h : Nested n xs) :
    framesAfter n xs = n := by
  induction h with
  | nil n => rfl
  | parsed _ ih => exact ih
  | @call n p v inside later _ _ _ ih =>
    have hcall : framesAfter n (.called p v :: .entered (n + 1) :: (inside ++ .left n :: later)) =
        framesAfter (framesAfter (n + 1) inside) (.left n :: later) :=
      framesAfter_append (n + 1) inside (.left n :: later)
    rw [hcall]
    exact ih

/-! ## Single records -/

/-- What a record says of the events in front of it and behind it, in a log that starts with one
frame and keeps the second one. The record of a frame follows that of a call, and goes with the
record that the frame is taken off, with nested events between the two. -/
def Event.Fits (before : List Event) : Event → List Event → Prop
  | entered depth, after => depth = framesAfter 1 before + 1 ∧
    (∃ earlier p v, before = earlier ++ [.called p v]) ∧
    ∃ inside later, after = inside ++ .left (framesAfter 1 before) :: later ∧ Nested depth inside
  | left depth, _ => framesAfter 1 before = depth + 1 ∧ 2 ≤ depth
  | called _ _, after => ∃ later, after = .entered (framesAfter 1 before + 1) :: later
  | parsed _ _, _ => True

/-- Each of the events fits in, between events in front of all of them and behind all of them. -/
def AllFit (before : List Event) : List Event → List Event → Prop
  | [], _ => True
  | e :: later, after => e.Fits before (later ++ after) ∧ AllFit (before ++ [e]) later after

theorem allFit_append {before xs ys after : List Event} (hx : AllFit before xs (ys ++ after))
    (hy : AllFit (before ++ xs) ys after) : AllFit before (xs ++ ys) after := by
  induction xs generalizing before with
  | nil => simpa using hy
  | cons e xs ih => exact ⟨by simpa using hx.1, ih hx.2 (by simpa using hy)⟩

theorem AllFit.fits {before xs : List Event} {e : Event} {ys after : List Event}
    (h : AllFit before (xs ++ e :: ys) after) : e.Fits (before ++ xs) (ys ++ after) := by
  induction xs generalizing before with
  | nil => simpa using h.1
  | cons x xs ih => simpa using ih h.2

theorem Nested.allFit {n : Nat} {events : List Event} (h : Nested n events) (hn : 2 ≤ n)
    {before : List Event} (hb : framesAfter 1 before = n) (after : List Event) :
    AllFit before events after := by
  induction h generalizing before after with
  | nil n => trivial
  | parsed _ ih =>
    refine ⟨trivial, ih hn ?_ after⟩
    rw [framesAfter_append, hb]
    rfl
  | @call n p v inside later hi _ ihi ihl =>
    have hcalled : framesAfter 1 (before ++ [.called p v]) = n := by
      rw [framesAfter_append, hb]
      rfl
    have hentered : framesAfter 1 (before ++ [.called p v] ++ [.entered (n + 1)]) = n + 1 := by
      rw [framesAfter_append]
      rfl
    refine ⟨⟨_, by rw [hb]; rfl⟩, ⟨by rw [hcalled], ⟨before, p, v, rfl⟩, inside, later ++ after,
      by simp [hcalled], hi⟩, ?_⟩
    refine allFit_append (ihi (Nat.le_succ_of_le hn) hentered _) ⟨⟨?_, hn⟩, ihl hn ?_ after⟩
    · rw [framesAfter_append, hentered, hi.framesAfter_eq]
    · rw [framesAfter_append]
      rfl

/-- The log of a program: it starts with the second frame, which is never taken off, and every other
record fits in. -/
structure Balanced (events : List Event) : Prop where
  first : events.head? = some (.entered 2)
  fits : ∀ before e after, before ≠ [] → events = before ++ e :: after → e.Fits before after

theorem Balanced.of_nested {events : List Event} (h : Nested 2 events) :
    Balanced (.entered 2 :: events) where
  first := rfl
  fits before e after hne heq := by
    obtain ⟨b, before, rfl⟩ := List.exists_cons_of_ne_nil hne
    obtain ⟨rfl, rfl⟩ := List.cons.inj heq
    have hall : AllFit [.entered 2] (before ++ e :: after) [] :=
      h.allFit (Nat.le_refl 2) rfl []
    simpa using hall.fits

/-! ## Evaluations -/

namespace Session

/-- The events of the log, if one is kept. -/
def events? (s : Session) : Option (List Event) := s.log.map Array.toList

theorem events?_record (s : Session) (e : Event) :
    (s.record e).events? = s.events?.map (· ++ [e]) := by
  cases h : s.log <;> simp [events?, record, h]

/-- The second session has as many frames as the first one, and its log, if one is kept, goes on
with events that are nested. -/
structure Logs (s : Session) (events : List Event) (t : Session) : Prop where
  depth : t.scope.depth = s.scope.depth
  log : t.events? = s.events?.map (· ++ events)
  nested : Nested s.scope.depth events

namespace Logs

variable {s t u : Session} {xs ys : List Event}

/-- What has nothing to do with frames and the log logs nothing. -/
theorem of_eq (hd : t.scope.depth = s.scope.depth) (hl : t.log = s.log) : s.Logs [] t :=
  ⟨hd, by simp [events?, hl, Function.comp_def], .nil _⟩

theorem refl (s : Session) : s.Logs [] s := .of_eq rfl rfl

theorem trans (h : s.Logs xs t) (h' : t.Logs ys u) : s.Logs (xs ++ ys) u where
  depth := h'.depth.trans h.depth
  log := by
    rw [h'.log, h.log, Option.map_map]
    simp [Function.comp_def]
  nested := h.nested.append (h.depth ▸ h'.nested)

/-- However a call ends, its frame is on record, what is logged in it, and that it is taken off. -/
theorem call {p : String} {v : Value} (h : (s.callee p v).Logs xs t) :
    s.Logs (.called p v :: .entered (s.scope.depth + 1) :: (xs ++ [.left s.scope.depth]))
      (t.returnTo s.scope) where
  depth := rfl
  log := by
    have hcallee : (s.callee p v).events? =
        ((s.record (.called p v)).record (.entered (s.scope.depth + 1))).events? := rfl
    have hreturn : (t.returnTo s.scope).events? = (t.record (.left s.scope.depth)).events? := rfl
    rw [hreturn, events?_record, h.log, hcallee, events?_record, events?_record]
    simp [Function.comp_def]
  nested := .call h.nested (.nil _)

end Logs

end Session

theorem logs_stable : Session.Stable fun s t => ∃ events, s.Logs events t where
  refl s := ⟨[], .refl s⟩
  trans := fun ⟨xs, h⟩ ⟨ys, h'⟩ => ⟨xs ++ ys, h.trans h'⟩
  set _ _ _ := ⟨[], .of_eq rfl rfl⟩
  write _ _ _ := ⟨[], .of_eq rfl rfl⟩
  newArray _ := ⟨[], .of_eq rfl rfl⟩
  newDictionary _ := ⟨[], .of_eq rfl rfl⟩
  writeLine _ _ := ⟨[], .of_eq rfl rfl⟩
  call := fun _ ⟨_, h⟩ => ⟨_, h.call⟩

/-- An evaluation logs nested events, be it that it comes to a value, fails or escapes. -/
theorem logs_eval (rounds depth : Nat) (e : Expr) (s : Session) :
    ∃ events, s.Logs events ((eval rounds depth e).final s) :=
  (logs_stable.keeps_eval rounds depth e s).2

/-- The call of a function logs that it is called, its frame, what its body logs, and that the frame
is taken off, however the body ends. -/
theorem logs_call {rounds depth : Nat} {name : String} {argument body : Expr} {s t : Session}
    {p : String} {v : Value} (ha : eval rounds depth argument s = .ok v t)
    (hf : t.scope.get name = .function p body) :
    ∃ inside, (t.callee p v).Logs inside ((eval rounds depth body).final (t.callee p v)) ∧
      t.Logs (.called p v :: .entered (t.scope.depth + 1) :: (inside ++ [.left t.scope.depth]))
        ((eval rounds (depth + 1) (.call name argument)).final s) := by
  obtain ⟨inside, h⟩ := logs_eval rounds depth body (t.callee p v)
  have hcall : (eval rounds (depth + 1) (.call name argument)).final s =
      (Eval.enterFunction p v (eval rounds depth body)).final t := by
    have run : eval rounds (depth + 1) (.call name argument) =
        Eval.call (eval rounds depth) name argument := rfl
    rw [run, Eval.call, Run.final_bind, ha]
    simp only [Run.final_bind, Run.get_apply, hf]
  rw [hcall, final_enterFunction (below_eval rounds depth body _)]
  exact ⟨inside, h, h.call⟩

namespace Session

theorem logs_evaluate (s : Session) (e : Expr) : ∃ events, s.Logs events (s.evaluate e).2 := by
  rw [evaluate, evaluateWithin_snd]
  exact logs_eval _ _ e s

theorem logs_run (s : Session) (source : String) :
    ∃ events, s.Logs events (s.run source).2 := by
  unfold Session.run
  cases Expr.parse source with
  | error e => exact ⟨[], .refl s⟩
  | ok e =>
    obtain ⟨events, h⟩ := (s.record (.parsed source e)).logs_evaluate e
    have hparsed : s.Logs [.parsed source e] (s.record (.parsed source e)) :=
      ⟨rfl, events?_record s _, .parsed (.nil _)⟩
    exact ⟨_, hparsed.trans h⟩

end Session

/-! ## The program -/

namespace Repl

theorem logs_report (answer : Except Failure Value) (s : Session) :
    s.Logs [] (report (answer, s)) := by
  cases answer <;> exact .of_eq rfl rfl

theorem logs_answer (pretty : Bool) (s : Session) (line : String) :
    ∃ events, s.Logs events (answer pretty s line) := by
  unfold answer
  cases Expr.parse line with
  | error e => exact ⟨[], logs_report _ s⟩
  | ok e =>
    have shown : s.Logs [] (if pretty then s.writeLine e.form.onPage else s) := by
      cases pretty <;> exact .of_eq rfl rfl
    obtain ⟨events, h⟩ := (if pretty then s.writeLine e.form.onPage else s).logs_evaluate e
    exact ⟨_, (shown.trans h).trans (logs_report _ _)⟩

theorem logs_step (r : Repl) (line : String) :
    ∃ events, r.session.Logs events (r.step line).session := by
  unfold step
  split
  · exact ⟨[], .refl _⟩
  · exact logs_answer _ _ _

/-- What the loop logs is cut into the events of the single lines. -/
theorem logs_lines (prompt : String) (r : Repl) (lines : List String) :
    ∃ pieces : List (List Event), ∀ count,
      r.session.Logs (pieces.take count).flatten (r.run prompt (lines.take count)).2.session := by
  have prompted (r : Repl) : r.session.Logs [] (r.session.write prompt) := .of_eq rfl rfl
  induction lines generalizing r with
  | nil => exact ⟨[], fun count => by simpa [Repl.run] using prompted r⟩
  | cons line lines ih =>
    by_cases hl : line = ""
    · refine ⟨[], fun count => ?_⟩
      cases count <;> simpa [Repl.run, hl] using prompted r
    · obtain ⟨events, h⟩ := logs_step { r with session := r.session.write prompt } line
      obtain ⟨pieces, hp⟩ := ih ({ r with session := r.session.write prompt }.step line)
      refine ⟨events :: pieces, fun count => ?_⟩
      cases count with
      | zero => simpa [Repl.run] using prompted r
      | succ count => simpa [Repl.run, hl] using ((prompted r).trans h).trans (hp count)

end Repl

namespace CommandLine

variable (files : String → Except Unreadable ByteArray)

theorem logs_runFile (s : Session) (content : Except Unreadable ByteArray) :
    ∃ events, s.Logs events (runFile s content).2 := by
  unfold runFile
  cases content.bind scriptOf with
  | error reason => exact ⟨[], .refl s⟩
  | ok source =>
    obtain ⟨events, h⟩ := s.logs_run source
    dsimp only
    rcases hr : s.run source with ⟨f | v, t⟩
    all_goals rw [hr] at h
    · exact ⟨events, h⟩
    · have shown : t.Logs [] (t.writeLine v.display) := .of_eq rfl rfl
      exact ⟨_, h.trans shown⟩

/-- What the files log is cut into the events of the single files. -/
theorem logs_files (s : Session) (paths : List String) :
    ∃ pieces : List (List Event), ∀ count,
      s.Logs (pieces.take count).flatten (runFiles files s (paths.take count)).2.1 := by
  induction paths generalizing s with
  | nil => exact ⟨[], fun count => by simpa [runFiles] using .refl s⟩
  | cons path paths ih =>
    obtain ⟨events, h⟩ := logs_runFile s (files path)
    have start (pieces : List (List Event)) :
        s.Logs ((events :: pieces).take 0).flatten (runFiles files s []).2.1 := .refl s
    rcases hr : runFile s (files path) with ⟨fileEnd, t⟩
    rw [hr] at h
    cases fileEnd with
    | completed =>
      obtain ⟨pieces, hp⟩ := ih t
      refine ⟨events :: pieces, fun count => ?_⟩
      cases count with
      | zero => exact start pieces
      | succ count => simpa [runFiles, hr] using h.trans (hp count)
    | failed f | unreadable reason =>
      refine ⟨[events], fun count => ?_⟩
      cases count with
      | zero => exact start []
      | succ count => simpa [runFiles, hr] using h

/-- The session of the program with a log after some of its scripts, be they files or lines. -/
def sessionAfter (input : String) (sources : List String) (count : Nat) : Session :=
  match sources with
  | [] => ((Repl.start (startSession true)).run prompt
      (((Text.inputLines input.toList).map String.ofList).take count)).2.session
  | paths => (runFiles files (startSession true) (paths.take count)).2.1

/-- After enough scripts it is the session at the end. -/
theorem exists_sessionAfter_eq (input : String) (sources : List String) :
    ∃ total, ∀ count ≥ total,
      sessionAfter files input sources count = (work true files input sources).2.1 := by
  cases sources with
  | nil =>
    refine ⟨((Text.inputLines input.toList).map String.ofList).length, fun count hc => ?_⟩
    rw [work_lines, sessionAfter, List.take_of_length_le hc]
  | cons path paths =>
    refine ⟨(path :: paths).length, fun count hc => ?_⟩
    have all : (path :: paths).take count = path :: paths := List.take_of_length_le hc
    exact congrArg (fun ps => (runFiles files (startSession true) ps).2.1) all

theorem logs_scripts (input : String) (sources : List String) :
    ∃ pieces : List (List Event), ∀ count,
      (startSession true).Logs (pieces.take count).flatten
        (sessionAfter files input sources count) := by
  cases sources with
  | nil => exact Repl.logs_lines prompt (Repl.start (startSession true)) _
  | cons path paths => exact logs_files files (startSession true) (path :: paths)

/-- The log of the program is balanced. Read from one frame on, every record of a frame that is put
on tells of one frame more, and every record of one that is taken off of one frame less. The first
record is that of the frame above the builtins, which is never taken off. Every other record of a
frame stands right behind that of a call, as every call has one, and goes with the record that this
frame is taken off, however the call ends. The log is cut into the events of the single scripts, be
they files or lines, and after each of them there are two frames. The texts are those of these
events and of no others, and no call of a function goes without its records. -/
theorem run_balanced (input : String) {args sources : List String}
    (hargs : Request.ofArguments args = .start true sources) :
    ∃ pieces : List (List Event),
      (run files input args).errors =
        String.join ((.entered 2 :: pieces.flatten).map fun e =>
          "DEBUG tilde: " ++ e.message ++ "\n") ++ (work true files input sources).2.2 ∧
      ((∀ (e : Event) n, e.message = "Entered scope, depth " ++ toString n ↔ e = .entered n) ∧
        (∀ (e : Event) n, e.message = "Left scope, depth " ++ toString n ↔ e = .left n) ∧
        ∀ (e : Event) text, e.message = "Calling function(" ++ text ↔
          ∃ p v, e = .called p v ∧ text = p ++ ") with " ++ v.display) ∧
      Balanced (.entered 2 :: pieces.flatten) ∧
      (∀ count,
        (sessionAfter files input sources count).events? =
          some (.entered 2 :: (pieces.take count).flatten) ∧
        framesAfter 1 (.entered 2 :: (pieces.take count).flatten) = 2 ∧
        (sessionAfter files input sources count).scope.depth = 2) ∧
      ∀ rounds depth name argument body s t p v, eval rounds depth argument s = .ok v t →
        t.scope.get name = .function p body →
        ∃ inside, (t.callee p v).Logs inside ((eval rounds depth body).final (t.callee p v)) ∧
          t.Logs (.called p v :: .entered (t.scope.depth + 1) :: (inside ++ [.left t.scope.depth]))
            ((eval rounds (depth + 1) (.call name argument)).final s) := by
  obtain ⟨pieces, hp⟩ := logs_scripts files input sources
  have hstart : (startSession true).events? = some [.entered 2] := rfl
  have hlog (count : Nat) : (sessionAfter files input sources count).events? =
      some (.entered 2 :: (pieces.take count).flatten) := by
    rw [(hp count).log, hstart]
    rfl
  obtain ⟨total, htotal⟩ := exists_sessionAfter_eq files input sources
  have hall : pieces.take (max total pieces.length) = pieces :=
    List.take_of_length_le (Nat.le_max_right _ _)
  have hnested := (hp (max total pieces.length)).nested
  have hend := hlog (max total pieces.length)
  rw [hall] at hnested hend
  rw [htotal _ (Nat.le_max_left _ _)] at hend
  refine ⟨pieces, ?_, ⟨fun _ _ => Event.message_eq_entered_iff, fun _ _ =>
    Event.message_eq_left_iff, fun _ _ => Event.message_eq_called_iff⟩, .of_nested hnested,
    fun count => ⟨hlog count, ?_, (hp count).depth⟩, fun _ _ _ _ _ _ _ _ _ ha hf => ?_⟩
  · rw [run_start files input hargs, Session.logText]
    obtain ⟨log, hl, hevents⟩ := Option.map_eq_some_iff.1 hend
    rw [hl, Option.getD_some, hevents]
    rfl
  · exact (hp count).nested.framesAfter_eq
  · exact logs_call ha hf

/-- A function ends by an error inside another one, and a line follows. -/
theorem run_balanced_lines :
    Request.ofArguments ["--debug"] = .start true [] ∧
      ∃ pieces : List (List Event),
        (run (fun _ => .error .missing) "f(x):-f;g(y):f(y)\ng(1)\nf\n" ["--debug"]).errors =
          String.join ((.entered 2 :: pieces.flatten).map fun e =>
            "DEBUG tilde: " ++ e.message ++ "\n") ++ "" ∧
        Balanced (.entered 2 :: pieces.flatten) := by
  have hargs : Request.ofArguments ["--debug"] = .start true [] := rfl
  obtain ⟨pieces, herrors, -, hbalanced, -⟩ :=
    run_balanced (fun _ => .error .missing) "f(x):-f;g(y):f(y)\ng(1)\nf\n" hargs
  exact ⟨hargs, pieces, herrors, hbalanced⟩

end CommandLine

end Scriptlet
