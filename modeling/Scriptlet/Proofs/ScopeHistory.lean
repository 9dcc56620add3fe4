import Scriptlet.Proofs.GlobalFrame

/-!
# The frames of a session, command by command

A host may enter and leave frames, drop them, bind and look up names, bind the builtins and run
scripts, in any order (`Session.Command`). No command touches a frame below the newest one except by
taking the frames on top of it off (`perform_below`). So the frames that were there when a frame was
entered are there again once it is left, whatever happened in between (`below_performAll`).

`Session.History cs ps`: after the commands `cs` in a new session, `ps` are the bindings that were
made in each frame that is left, newest frame first. A script adds the bindings that its evaluation
makes in the newest frame (`Session.Binds`); those of a called function go with the frame of the call.

* `scope_of_commands`: the scope is a stack of maps, and a name has the value that it was last bound
  to in the newest frame that has it.
-/

namespace Scriptlet

/-! ## Scopes -/

namespace Scope

theorem frames_injective {s t : Scope} (h : s.frames = t.frames) : s = t := by
  obtain ⟨top, below⟩ := s
  obtain ⟨top', below'⟩ := t
  obtain ⟨rfl, rfl⟩ := List.cons.inj h
  rfl

theorem below_suffix (s : Scope) : s.below <:+ s.frames := List.suffix_cons _ _

theorem length_frames (s : Scope) : s.frames.length = s.depth := rfl

theorem frames_restore (s : Scope) (n : Int) :
    (s.restore n).frames = s.frames.drop (s.depth - (max n 1).toNat) := by
  have hlt : s.depth - (max n 1).toNat < s.frames.length := by
    rw [length_frames]
    have : 0 < s.depth := Nat.succ_pos _
    omega
  rw [restore]
  split
  · rename_i h
    exact absurd (List.drop_eq_nil_iff.1 h) (Nat.not_le.2 hlt)
  · rename_i h
    rw [h]
    rfl

/-- The oldest frames are kept, and how many they are. -/
theorem depth_restore (s : Scope) (n : Int) :
    ((s.restore n).depth : Int) = min (s.depth : Int) (max n 1) := by
  rw [← length_frames (s.restore n), frames_restore, List.length_drop, length_frames]
  omega

theorem frames_leave {s t : Scope} (h : s.leave? = some t) : t.frames = s.below := by
  unfold leave? at h
  split at h
  · cases h
  · rename_i hb
    rw [hb, ← Option.some.inj h]
    rfl

theorem leave?_eq_none_iff {s : Scope} : s.leave? = none ↔ s.depth = 1 := by
  unfold leave? depth
  cases s.below with
  | nil => simp
  | cons top below => simp

end Scope

namespace Session

/-! ## Commands -/

/-- Something that a host does with a session. -/
inductive Command where
  | enter
  | leave
  /-- Drops all but a number of the oldest frames. -/
  | restore (depth : Int)
  | set (name : String) (v : Value)
  | get (name : String)
  /-- Binds the builtins, in a frame below a new one. -/
  | builtins
  | run (nesting : Nat) (limits : Limits) (source : String)

/-- Does what a command says. A command without a result gives null. -/
def perform (s : Session) : Command → Except Failure Value × Session
  | .enter => (.ok .null, s.enter)
  | .leave =>
    match s.leave? with
    | some t => (.ok .null, t)
    | none => (.error (.defect .outermostScope), s)
  | .restore depth => (.ok .null, s.restore depth)
  | .set name v => (.ok v, s.set name v)
  | .get name => (.ok (s.scope.get name), s)
  | .builtins => (.ok .null, s.withBuiltins)
  | .run nesting limits source => s.runWithin nesting limits source

/-- The session behind commands, whether they fail or not. -/
def performAll (s : Session) (cs : List Command) : Session :=
  cs.foldl (fun s c => (s.perform c).2) s

theorem performAll_append (s : Session) (cs ds : List Command) :
    s.performAll (cs ++ ds) = (s.performAll cs).performAll ds := List.foldl_append

theorem performAll_concat (s : Session) (cs : List Command) (c : Command) :
    s.performAll (cs ++ [c]) = ((s.performAll cs).perform c).2 := performAll_append s cs [c]

theorem leave?_eq_none {s : Session} (h : s.scope.depth = 1) : s.leave? = none := by
  rw [leave?, Scope.leave?_eq_none_iff.2 h]

/-- The last frame is not left, and the attempt changes nothing. -/
theorem perform_leave_of_depth_eq_one {s : Session} (h : s.scope.depth = 1) :
    s.perform .leave = (.error (.defect .outermostScope), s) := by
  rw [perform, leave?_eq_none h]

theorem frames_perform_leave {s : Session} (h : s.scope.depth ≠ 1) :
    (s.perform .leave).2.scope.frames = s.scope.below := by
  cases hl : s.scope.leave? with
  | none => exact absurd (Scope.leave?_eq_none_iff.1 hl) h
  | some scope =>
    have hleave : s.leave? = some ({ s with scope }.record (.left scope.depth)) := by
      rw [leave?, hl]
    rw [perform, hleave]
    exact Scope.frames_leave hl

theorem below_runWithin (nesting : Nat) (limits : Limits) (s : Session) (source : String) :
    (s.runWithin nesting limits source).2.scope.below = s.scope.below := by
  cases hp : Expr.ofTokensWithin nesting (Token.scan source) with
  | error e => rw [runWithin_of_error hp]
  | ok e =>
    rw [runWithin_of_ok hp, evaluateWithin_snd, below_eval]
    rfl

/-! ## The frames below -/

/-- A command either takes frames off the top, and then what is below the newest frame was there
before, or leaves the frames below the newest one where they are. -/
theorem perform_below (s : Session) (c : Command) :
    (s.perform c).2.scope.below <:+ s.scope.frames ∨
      s.scope.below <:+ (s.perform c).2.scope.below := by
  cases c with
  | enter => exact .inr (List.suffix_cons _ _)
  | leave =>
    by_cases h : s.scope.depth = 1
    · rw [perform_leave_of_depth_eq_one h]
      exact .inr (List.suffix_refl _)
    · have hf : (s.perform .leave).2.scope.frames <:+ s.scope.frames := by
        rw [frames_perform_leave h]
        exact s.scope.below_suffix
      exact .inl ((Scope.below_suffix _).trans hf)
  | restore n =>
    have hf : (s.perform (.restore n)).2.scope.frames <:+ s.scope.frames := by
      rw [perform, restore, Scope.frames_restore]
      exact List.drop_suffix _ _
    exact .inl ((Scope.below_suffix _).trans hf)
  | set name v => exact .inr (List.suffix_refl _)
  | get name => exact .inr (List.suffix_refl _)
  | builtins => exact .inr (List.suffix_cons _ _)
  | run nesting limits source =>
    rw [perform, below_runWithin]
    exact .inr (List.suffix_refl _)

/-- Frames below the newest one stay there as long as there are more frames than they are. -/
theorem below_perform {s : Session} {base : List Frame} (h : base <:+ s.scope.below) (c : Command)
    (hd : base.length < (s.perform c).2.scope.depth) :
    base <:+ (s.perform c).2.scope.below := by
  rcases s.perform_below c with hs | hs
  · have hf : base <:+ s.scope.frames := h.trans s.scope.below_suffix
    exact List.suffix_of_suffix_length_le hf hs (Nat.le_of_lt_succ hd)
  · exact h.trans hs

theorem below_performAll {s : Session} {base : List Frame} (h : base <:+ s.scope.below)
    (cs : List Command)
    (hd : ∀ before, before <+: cs → base.length < (s.performAll before).scope.depth) :
    base <:+ (s.performAll cs).scope.below := by
  induction cs generalizing s with
  | nil => exact h
  | cons c cs ih =>
    have hc := hd [c] (List.prefix_cons_inj c |>.2 (List.nil_prefix))
    refine ih (below_perform h c hc) fun before hb => ?_
    exact hd (c :: before) ((List.prefix_cons_inj c).2 hb)

/-- Leaving takes the newest frames off one by one. -/
theorem frames_leaves {s : Session} {k : Nat} (h : k < s.scope.depth) :
    (s.performAll (List.replicate k .leave)).scope.frames = s.scope.frames.drop k := by
  induction k with
  | zero => rfl
  | succ k ih =>
    have hk := ih (by omega)
    have hd : (s.performAll (List.replicate k .leave)).scope.depth = s.scope.depth - k := by
      rw [← Scope.length_frames, hk, List.length_drop, Scope.length_frames]
    rw [List.replicate_succ', performAll_concat, frames_perform_leave (by omega)]
    show (s.performAll (List.replicate k .leave)).scope.frames.tail = _
    rw [hk, List.tail_drop]

end Session

/-! ## What was bound -/

/-- The bindings that were made in a frame, oldest first. -/
abbrev Past := List (String × Value)

/-- A frame in which more bindings are made. -/
def Frame.bindAll (f : Frame) (p : Past) : Frame := p.foldl (fun f b => f.set b.1 b.2) f

theorem Frame.bindAll_append (f : Frame) (p q : Past) :
    f.bindAll (p ++ q) = (f.bindAll p).bindAll q := List.foldl_append

/-- The value that a name was last bound to in the newest frame that has it. -/
def lastBound? (ps : List Past) (name : String) : Option Value :=
  ps.findSome? fun p => p.reverse.lookup name

theorem Frame.get?_bindAll (p : Past) (name : String) :
    (Frame.bindAll [] p).get? name = p.reverse.lookup name := by
  induction p using List.reverseRecOn with
  | nil => rfl
  | append_singleton p b ih =>
    obtain ⟨n, v⟩ := b
    rw [bindAll_append, List.reverse_append, List.reverse_singleton, List.singleton_append,
      List.lookup_cons]
    show (((Frame.bindAll [] p).set n v).get? name = _)
    by_cases h : name = n
    · rw [h, Bindings.get?_set_self, beq_self_eq_true]
    · rw [Bindings.get?_set_of_ne h, beq_eq_false_iff_ne.2 h]
      exact ih

namespace Session

/-- The bindings `p` are made in the newest frame on the way from one session to the other, by the
effects that an evaluation has. What a called function binds goes with its frame. -/
inductive Binds : Session → Past → Session → Prop
  | refl (s : Session) : Binds s [] s
  | trans {s t u : Session} {p q : Past} : Binds s p t → Binds t q u → Binds s (p ++ q) u
  | set (s : Session) (name : String) (v : Value) : Binds s [(name, v)] (s.set name v)
  | write (s : Session) (slot : Slot) (v : Value) :
    Binds s [] { s with store := s.store.write slot v }
  | newArray (s : Session) : Binds s [] { s with store := (s.store.newArray #[]).2 }
  | newDictionary (s : Session) : Binds s [] { s with store := (s.store.newDictionary ∅).2 }
  | writeLine (s : Session) (text : String) : Binds s [] (s.writeLine text)
  | call {s t : Session} {parameter : String} {v : Value} {p : Past} :
    t.scope.below = s.scope.frames → Binds (s.callee parameter v) p t →
    Binds s [] (t.returnTo s.scope)

theorem Binds.scope_eq {s t : Session} {p : Past} (h : s.Binds p t) :
    t.scope = ⟨s.scope.top.bindAll p, s.scope.below⟩ := by
  induction h with
  | trans _ _ ih ih' =>
    rw [ih', ih, Frame.bindAll_append]
  | _ => rfl

theorem binds_stable : Stable fun s t => ∃ p, s.Binds p t where
  refl s := ⟨[], .refl s⟩
  trans := fun ⟨p, hp⟩ ⟨q, hq⟩ => ⟨p ++ q, hp.trans hq⟩
  set s name v := ⟨_, .set s name v⟩
  write s slot v := ⟨_, .write s slot v⟩
  newArray s := ⟨_, .newArray s⟩
  newDictionary s := ⟨_, .newDictionary s⟩
  writeLine s text := ⟨_, .writeLine s text⟩
  call := fun hb ⟨_, hp⟩ => ⟨[], .call hb hp⟩

/-- What a command done in a session makes of the bindings that were made in its frames. -/
inductive Records (s : Session) : Command → List Past → List Past → Prop
  | enter (ps : List Past) : Records s .enter ps ([] :: ps)
  | leave (p q : Past) (ps : List Past) : Records s .leave (p :: q :: ps) (q :: ps)
  | stay (p : Past) : Records s .leave [p] [p]
  | restore {n : Int} {newer kept : List Past} :
    (kept.length : Int) = min ((newer ++ kept).length : Int) (max n 1) →
    Records s (.restore n) (newer ++ kept) kept
  | set (name : String) (v : Value) (p : Past) (ps : List Past) :
    Records s (.set name v) (p :: ps) ((p ++ [(name, v)]) :: ps)
  | get (name : String) (ps : List Past) : Records s (.get name) ps ps
  | builtins (p : Past) (ps : List Past) :
    Records s .builtins (p :: ps) ([] :: (p ++ Scope.builtinFrame) :: ps)
  | rejected {nesting : Nat} {source : String} {error : ParseError} (limits : Limits)
    (ps : List Past) : Expr.ofTokensWithin nesting (Token.scan source) = .error error →
    Records s (.run nesting limits source) ps ps
  | run {nesting : Nat} {limits : Limits} {source : String} {e : Expr} {p q : Past}
    {ps : List Past} : Expr.ofTokensWithin nesting (Token.scan source) = .ok e →
    (s.record (.parsed source e)).Binds q (s.runWithin nesting limits source).2 →
    Records s (.run nesting limits source) (p :: ps) ((p ++ q) :: ps)

/-- The bindings that were made in each frame by commands in a new session, newest frame first. -/
inductive History : List Command → List Past → Prop
  | start : History [] [[]]
  | step {cs : List Command} {c : Command} {ps qs : List Past} :
    History cs ps → Records (initial.performAll cs) c ps qs → History (cs ++ [c]) qs

/-- The frames of the session are those in which the bindings were made. -/
def Matches (s : Session) (ps : List Past) : Prop :=
  s.scope.frames = ps.map (Frame.bindAll [])

namespace Matches

variable {s : Session} {ps qs : List Past} {c : Command}

theorem exists_cons (h : s.Matches ps) : ∃ p rest, ps = p :: rest ∧
    s.scope.top = Frame.bindAll [] p ∧ s.scope.below = rest.map (Frame.bindAll []) := by
  cases ps with
  | nil => cases h
  | cons p rest =>
    obtain ⟨ht, hb⟩ := List.cons.inj h
    exact ⟨p, rest, rfl, ht, hb⟩

theorem length_eq (h : s.Matches ps) : ps.length = s.scope.depth := by
  rw [← Scope.length_frames, h, List.length_map]

theorem get (h : s.Matches ps) (name : String) :
    s.scope.get name = (lastBound? ps name).getD .null := by
  rw [Scope.get, Scope.get?, h, List.findSome?_map, lastBound?]
  simp only [Function.comp_def, Frame.get?_bindAll]

/-- Every command has something to record. -/
theorem exists_records (h : s.Matches ps) (c : Command) : ∃ qs, Records s c ps qs := by
  obtain ⟨p, rest, rfl, ht, hb⟩ := h.exists_cons
  cases c with
  | enter => exact ⟨_, .enter _⟩
  | leave =>
    cases rest with
    | nil => exact ⟨_, .stay p⟩
    | cons q rest => exact ⟨_, .leave p q rest⟩
  | restore n =>
    obtain ⟨k, hk⟩ : ∃ k : Nat, k = (p :: rest).length - (max n 1).toNat := ⟨_, rfl⟩
    have hr : Records s (.restore n) ((p :: rest).take k ++ (p :: rest).drop k)
        ((p :: rest).drop k) := by
      refine .restore ?_
      rw [List.take_append_drop, List.length_drop]
      omega
    rw [List.take_append_drop] at hr
    exact ⟨_, hr⟩
  | set name v => exact ⟨_, .set name v p rest⟩
  | get name => exact ⟨_, .get name _⟩
  | builtins => exact ⟨_, .builtins p rest⟩
  | run nesting limits source =>
    cases hp : Expr.ofTokensWithin nesting (Token.scan source) with
    | error error => exact ⟨_, .rejected limits _ hp⟩
    | ok e =>
      obtain ⟨q, hq⟩ := (binds_stable.keeps_eval limits.rounds limits.depth e
        (s.record (.parsed source e))).2
      rw [← evaluateWithin_snd, ← runWithin_of_ok hp] at hq
      exact ⟨_, .run hp hq⟩

/-- What is recorded of a command are the bindings in the frames behind it. -/
theorem perform (h : s.Matches ps) (hr : Records s c ps qs) : (s.perform c).2.Matches qs := by
  cases hr with
  | enter => exact congrArg _ h
  | leave p q rest =>
    have hd := h.length_eq
    rw [Matches, frames_perform_leave (by simp at hd; omega)]
    exact (List.cons.inj h).2
  | stay p =>
    rw [perform_leave_of_depth_eq_one h.length_eq.symm]
    exact h
  | @restore n newer kept hk =>
    have hd := h.length_eq
    have hn : s.scope.depth - (max n 1).toNat = newer.length := by
      rw [List.length_append] at hd hk
      omega
    rw [Matches, Session.perform, Session.restore, Scope.frames_restore, h, hn, ← List.map_drop,
      List.drop_left]
  | set name v p rest =>
    obtain ⟨ht, hb⟩ := List.cons.inj h
    refine congrArg₂ List.cons ?_ hb
    rw [Frame.bindAll_append, ← ht]
    rfl
  | get name => exact h
  | builtins p rest =>
    obtain ⟨ht, hb⟩ := List.cons.inj h
    refine congrArg₂ List.cons rfl (congrArg₂ List.cons ?_ hb)
    rw [Frame.bindAll_append, ← ht]
    rfl
  | rejected limits _ hp =>
    rw [Session.perform, runWithin_of_error hp]
    exact h
  | run hp hq =>
    obtain ⟨ht, hb⟩ := List.cons.inj h
    rw [Matches, Session.perform, hq.scope_eq]
    refine congrArg₂ List.cons ?_ hb
    rw [Frame.bindAll_append, ← ht]
    rfl

end Matches

theorem History.matches_initial {cs : List Command} {ps : List Past} (h : History cs ps) :
    (initial.performAll cs).Matches ps := by
  induction h with
  | start => rfl
  | step _ hr ih =>
    rw [performAll_concat]
    exact ih.perform hr

theorem exists_history (cs : List Command) : ∃ ps, History cs ps := by
  induction cs using List.reverseRecOn with
  | nil => exact ⟨_, .start⟩
  | append_singleton cs c ih =>
    obtain ⟨ps, h⟩ := ih
    obtain ⟨qs, hr⟩ := h.matches_initial.exists_records c
    exact ⟨qs, .step h hr⟩

/-! ## Frames that were left -/

/-- After commands that left no frame that was there before, the frames that were there come back
by dropping what is above them, or by leaving it. -/
theorem restored_of_below {s t : Session} (h : s.scope.frames <:+ t.scope.below) :
    (t.restore s.scope.depth).scope = s.scope ∧
      (t.performAll (List.replicate (t.scope.depth - s.scope.depth) .leave)).scope = s.scope := by
  obtain ⟨newer, hn⟩ := h.trans t.scope.below_suffix
  have hlen : t.scope.depth = newer.length + s.scope.depth := by
    rw [← Scope.length_frames t.scope, ← hn, List.length_append, Scope.length_frames]
  have hpos : 0 < s.scope.depth := Nat.succ_pos _
  constructor
  · refine Scope.frames_injective ?_
    have hk : t.scope.depth - (max (s.scope.depth : Int) 1).toNat = newer.length := by omega
    rw [restore, Scope.frames_restore, hk, ← hn, List.drop_left]
  · refine Scope.frames_injective ?_
    rw [frames_leaves (by omega), ← hn, hlen, Nat.add_sub_cancel, List.drop_left]

/-- The variables are a stack of maps, whatever is done with a session. There is always a frame. A
name has the value that it was last bound to in the newest frame that has it, and is null if none
has. The last frame is not left, and the attempt changes nothing. Restoring keeps a number of the
oldest frames, but at least one, and drops the others. If a frame is entered and no command takes off
what was there before, then restoring the depth from before, or leaving frame by frame, gives back
the frames as they were. -/
theorem scope_of_commands :
    (∀ cs : List Command, 1 ≤ (initial.performAll cs).scope.depth ∧
      (∃ ps, History cs ps) ∧
      ∀ ps, History cs ps → ps.length = (initial.performAll cs).scope.depth ∧
        ∀ name, (initial.performAll cs).perform (.get name) =
          (.ok ((lastBound? ps name).getD .null), initial.performAll cs)) ∧
    (∀ s : Session, s.scope.depth = 1 →
      s.perform .leave = (.error (.defect .outermostScope), s)) ∧
    (∀ (s : Session) (n : Int),
      (s.perform (.restore n)).2.scope.frames <:+ s.scope.frames ∧
      ((s.perform (.restore n)).2.scope.depth : Int) = min (s.scope.depth : Int) (max n 1)) ∧
    ∀ (s : Session) (cs : List Command),
      (∀ before, before <+: cs →
        s.scope.depth + 1 ≤ (s.performAll (.enter :: before)).scope.depth) →
      let t := s.performAll (.enter :: cs)
      (t.perform (.restore s.scope.depth)).2.scope = s.scope ∧
        (t.performAll (List.replicate (t.scope.depth - s.scope.depth) .leave)).scope =
          s.scope := by
  refine ⟨fun cs => ⟨Nat.succ_pos _, exists_history cs, fun ps h => ?_⟩,
    fun s h => perform_leave_of_depth_eq_one h, fun s n => ?_, fun s cs h => ?_⟩
  · refine ⟨h.matches_initial.length_eq, fun name => ?_⟩
    rw [perform, h.matches_initial.get]
  · rw [perform, restore]
    refine ⟨?_, s.scope.depth_restore n⟩
    rw [Scope.frames_restore]
    exact List.drop_suffix _ _
  · have hb : s.scope.frames <:+ (s.perform .enter).2.scope.below := List.suffix_refl _
    exact restored_of_below (below_performAll hb cs h)

/-- A name is bound in the only frame, bound again in a frame above it, and then restored. -/
theorem scope_of_commands_rebound :
    let s := initial.performAll [.set "a" (.text "x")]
    History [.set "a" (.text "x")] [[("a", .text "x")]] ∧
      s.perform (.get "a") = (.ok (.text "x"), s) ∧
      s.perform .leave = (.error (.defect .outermostScope), s) ∧
      (∀ before, before <+: [.set "a" (.text "y")] →
        s.scope.depth + 1 ≤ (s.performAll (.enter :: before)).scope.depth) ∧
      (s.performAll [.enter, .set "a" (.text "y")]).scope.get "a" = .text "y" ∧
      ((s.performAll [.enter, .set "a" (.text "y")]).perform (.restore 1)).2.scope = s.scope := by
  intro s
  obtain ⟨hget, hleave, -, hframes⟩ := scope_of_commands
  have hhistory : History [.set "a" (.text "x")] [[("a", .text "x")]] :=
    .step .start (.set "a" (.text "x") [] [])
  have hdepth : ∀ before, before <+: [.set "a" (.text "y")] →
      s.scope.depth + 1 ≤ (s.performAll (.enter :: before)).scope.depth := by
    intro before hb
    rcases List.prefix_cons_iff.1 hb with rfl | ⟨rest, rfl, hr⟩
    · exact Nat.le_refl _
    · obtain rfl := List.prefix_nil.1 hr
      exact Nat.le_refl _
  exact ⟨hhistory, ((hget _).2.2 _ hhistory).2 "a", hleave s rfl, hdepth, rfl,
    (hframes s _ hdepth).1⟩

end Session

end Scriptlet
