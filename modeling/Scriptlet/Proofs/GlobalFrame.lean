import Scriptlet.CommandLine
import Scriptlet.Proofs.Outcome

/-!
# The frames of a session

Whatever scripts and lines are run in a session that starts with the builtins, between two of them
it has two frames. The older one is the frame of the builtins as it was bound at the start, and all
names of the newer one are written like names: a script has no other way to bind one than an
assignment to a name, the definition of a function, or a call that binds a parameter (`named`).

* `frames_of_uses`: the frames of a session after any history, and how they are shown.
-/

namespace Scriptlet

/-- The frame that all names are looked up in last. -/
def Scope.builtinFrame : Frame :=
  [(builtinsMark, .null), ("print", .builtin .print), ("len", .builtin .len)]

/-- A function has a name for its parameter and a body that a script can have. -/
def Value.IsNamed : Value → Prop
  | function p body => Text.isName p = true ∧ body.WellFormed Double.IsUnsigned
  | _ => True

/-! ## Sessions whose names are names -/

/-- The names of the newest frame and the parameters of all functions are written like names. -/
structure Session.Named (s : Session) : Prop where
  values : s.Holds Value.IsNamed
  top : ∀ n ∈ s.scope.top.names, Text.isName n = true

namespace Session.Named

variable {s : Session}

theorem set (h : s.Named) {n : String} (hn : Text.isName n = true) {v : Value} (hv : v.IsNamed) :
    (s.set n v).Named := by
  refine ⟨h.values.set n hv, fun m hm => ?_⟩
  have hs : (s.set n v).scope.top.names = (s.scope.top.set n v).names := rfl
  rw [hs, Bindings.names_set] at hm
  split at hm
  · exact h.top m hm
  · rcases List.mem_append.1 hm with hm | hm
    · exact h.top m hm
    · rwa [List.mem_singleton.1 hm]

theorem callee (h : s.Named) {p : String} (hp : Text.isName p = true) {v : Value}
    (hv : v.IsNamed) : (s.callee p v).Named := by
  refine ⟨h.values.callee p hv, fun m hm => ?_⟩
  have hs : (s.callee p v).scope.top.names = [p] := rfl
  rw [hs] at hm
  rwa [List.mem_singleton.1 hm]

theorem returnTo {t : Session} (h : t.Named) (hs : s.Named) : (t.returnTo s.scope).Named :=
  ⟨h.values.returnTo hs.values.scope, hs.top⟩

end Session.Named

/-- Scripts bind nothing but names. -/
def named : Invariant where
  name n := Text.isName n = true
  tree e := e.WellFormed Double.IsUnsigned
  value := Value.IsNamed
  exit
    | .result v => v.IsNamed
    | _ => True
  session := Session.Named
  part := Expr.WellFormed.part
  target h := h.1
  definition h := ⟨h.1.1, h.1.2, h.2⟩
  plain {v} h := by
    cases v with
    | function p b => exact absurd rfl (h p b)
    | _ => trivial
  error _ := trivial
  unfinished := trivial
  stop _ := trivial
  result _ hv := hv
  notATree _ := trivial
  noSuchOperator _ := trivial
  get n hs := hs.values.scope.get trivial n
  item hs hv := hs.values.store.getItem trivial hv
  set hs hn hv := hs.set hn hv
  write hs _ hv := ⟨⟨hs.values.scope, hs.values.store.write _ hv⟩, hs.top⟩
  newArray hs := ⟨⟨hs.values.scope, hs.values.store.newArray⟩, hs.top⟩
  newDictionary hs := ⟨⟨hs.values.scope, hs.values.store.newDictionary⟩, hs.top⟩
  writeLine _ hs := ⟨⟨hs.values.scope, hs.values.store⟩, hs.top⟩
  call hb hf hv hx := .enterFunction hb (fun _ h => h) (fun _ hs => hs.callee hf.1 hv)
    (fun _ _ hs ht => ht.returnTo hs) (hx hf.2)

/-! ## Histories -/

/-- The session has the frame of the builtins and one frame of names on top of it. -/
structure Session.Global (s : Session) : Prop where
  named : s.Named
  below : s.scope.below = [Scope.builtinFrame]

namespace Session.Global

variable {s : Session}

/-- What is printed and logged has nothing to do with the frames. -/
theorem congr (h : s.Global) {t : Session} (hs : t.scope = s.scope) (ht : t.store = s.store) :
    t.Global := by
  obtain ⟨⟨⟨hv, hst⟩, htop⟩, hb⟩ := h
  rw [← hs] at hv htop hb
  rw [← ht] at hst
  exact ⟨⟨⟨hv, hst⟩, htop⟩, hb⟩

theorem start : Session.initial.withBuiltins.Global where
  named := ⟨(Session.Holds.initial _).withBuiltins trivial fun _ => trivial, nofun⟩
  below := rfl

theorem evaluateWithin (h : s.Global) (limits : Limits) {e : Expr}
    (he : e.WellFormed Double.IsUnsigned) : (s.evaluateWithin limits e).2.Global := by
  refine ⟨Scriptlet.named.evaluateWithin limits he h.named, ?_⟩
  rw [evaluateWithin_snd, below_eval]
  exact h.below

/-- A script keeps the frames, whether it is parsed or not and however it ends. -/
theorem runWithin (h : s.Global) (nesting : Nat) (limits : Limits) (source : String) :
    (s.runWithin nesting limits source).2.Global := by
  cases hp : Expr.ofTokensWithin nesting (Token.scan source) with
  | error e => rwa [runWithin_of_error hp]
  | ok e =>
    rw [runWithin_of_ok hp]
    have hr : (s.record (.parsed source e)).Global := h.congr rfl rfl
    exact hr.evaluateWithin limits (wellFormed_of_ofTokensWithin hp)

theorem report (r : Except Failure Value) (h : s.Global) : (Repl.report (r, s)).Global := by
  cases r <;> exact h.congr rfl rfl

theorem answer (h : s.Global) (pretty : Bool) (line : String) :
    (Repl.answer pretty s line).Global := by
  unfold Repl.answer
  cases hp : Expr.parse line with
  | error e => exact h.report _
  | ok e =>
    have hs : (if pretty then s.writeLine e.form.onPage else s).Global := by
      split
      · exact h.congr rfl rfl
      · exact h
    exact (hs.evaluateWithin .standard (wellFormed_of_ofTokensWithin hp)).report _

theorem step {r : Repl} (h : r.session.Global) (line : String) : (r.step line).session.Global := by
  unfold Repl.step
  split
  · exact h
  · exact h.answer _ line

/-- Lines are answered one after the other, and prompts are only printed. -/
theorem run (prompt : String) {r : Repl} (h : r.session.Global) (lines : List String) :
    (r.run prompt lines).2.session.Global := by
  induction lines generalizing r with
  | nil => exact h.congr rfl rfl
  | cons line lines ih =>
    have hp : (r.session.write prompt).Global := h.congr rfl rfl
    unfold Repl.run
    dsimp only
    split
    · exact hp
    · exact ih (step (r := { r with session := r.session.write prompt }) hp line)

/-- The names in the newest frame are not the mark of the builtins, which no name looks like. -/
theorem builtinsMark_notMem (h : s.Global) : Scope.builtinsMark ∉ s.scope.top.names := by
  intro hm
  have hn : Text.isName Scope.builtinsMark = false := by decide
  rw [h.named.top _ hm] at hn
  cases hn

theorem text (h : s.Global) :
    s.scope.text = "[" ++ ", ".intercalate s.scope.top.names ++ "] < [__builtins__]" := by
  have hm : ¬ s.scope.top.binds Scope.builtinsMark = true := fun hb =>
    h.builtinsMark_notMem (Bindings.binds_eq_true_iff.1 hb)
  have ht : Scope.frameText s.scope.top = "[" ++ ", ".intercalate s.scope.top.names ++ "]" := by
    rw [Scope.frameText, if_neg hm]
  have hb : Scope.frameText Scope.builtinFrame = "[__builtins__]" := by decide
  have hs : "]" ++ (" < " ++ "[__builtins__]") = "] < [__builtins__]" := by decide
  rw [Scope.text, Scope.frames, h.below, List.map_cons, List.map_singleton, ht, hb,
    String.intercalate_cons_cons, String.intercalate_singleton]
  simp only [String.append_assoc, hs]

end Session.Global

/-- Something that is done in a session. -/
inductive Session.Use where
  /-- Runs a script within given limits; an ordinary run is one of them (`run_eq_runWithin`). -/
  | script (nesting : Nat) (limits : Limits) (source : String)
  /-- Answers lines, each after a prompt, until one is empty. -/
  | lines (prompt : String) (pretty : Bool) (lines : List String)

namespace Session

/-- The session that is left, whether what was done failed or not. -/
def after (s : Session) : Use → Session
  | .script nesting limits source => (s.runWithin nesting limits source).2
  | .lines prompt pretty lines => ((⟨s, pretty⟩ : Repl).run prompt lines).2.session

theorem Global.after {s : Session} (h : s.Global) (use : Use) : (s.after use).Global := by
  cases use with
  | script nesting limits source => exact h.runWithin nesting limits source
  | lines prompt pretty lines => exact run prompt (r := ⟨s, pretty⟩) h lines

theorem Global.foldl_after {s : Session} (h : s.Global) (uses : List Use) :
    (uses.foldl Session.after s).Global := by
  induction uses generalizing s with
  | nil => exact h
  | cons use uses ih => exact ih (h.after use)

/-- After any history a session has two frames. The older one holds the builtins and nothing else,
and the names of the newer one are written like names, so none of them is the mark of the builtins,
and the scope is shown by them and that mark. -/
theorem frames_of_uses (uses : List Use) :
    let scope := (uses.foldl Session.after Session.initial.withBuiltins).scope
    scope.frames = [scope.top, Scope.builtinFrame] ∧
      (∀ n ∈ scope.top.names, Text.isName n = true) ∧
      Scope.builtinsMark ∉ scope.top.names ∧
      scope.text = "[" ++ ", ".intercalate scope.top.names ++ "] < [__builtins__]" := by
  intro scope
  have h := Global.start.foldl_after uses
  refine ⟨?_, h.named.top, h.builtinsMark_notMem, h.text⟩
  rw [Scope.frames, h.below]

end Session

end Scriptlet
