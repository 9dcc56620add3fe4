import Scriptlet.Proofs.Run

/-!
# The rounds of a loop

`Eval.Rounds c b s n last t`: the condition `c` and the body `b` have been run in turn `n` times
from the session `s` on, each in the session that the other one left. The condition came to a true
value every time, and its last value is `last`. `Eval.Ends c b last t r`: the next round is the last
one, and `r` is how it ends the loop.

* `Eval.loop_of_round`, `Eval.loop_of_ends`: what one round does.
* `Eval.loop_eq_iff`: a loop goes round until it ends, or until there are no rounds left.
* `Eval.loop_congr`: it depends on nothing but the condition and the body where they are run, and
  not on the values of the body.
* `eval_loop`: so it is for a loop in a script.
-/

namespace Scriptlet

namespace Eval

/-- The loop has gone round a number of times. The value is the last one of the condition, or null
if there was none. -/
inductive Rounds (c b : Run Value) (s : Session) : Nat → Value → Session → Prop
  | start : Rounds c b s 0 .null s
  | next {n : Nat} {last v w : Value} {t u z : Session} :
      Rounds c b s n last t → c t = .ok v u → v.isTrue = true → b u = .ok w z →
      Rounds c b s (n + 1) v z

/-- The loop ends in its next round. -/
inductive Ends (c b : Run Value) (last : Value) (t : Session) :
    EStateM.Result Exit Session Value → Prop
  /-- The condition is not true. -/
  | false {v : Value} {u : Session} :
      c t = .ok v u → v.isTrue = false → Ends c b last t (.ok v u)
  /-- The condition leaves the loop, so it has no value in this round. -/
  | stopInCondition {u : Session} : c t = .error .stop u → Ends c b last t (.ok last u)
  /-- The body leaves the loop. -/
  | stopInBody {v : Value} {u z : Session} :
      c t = .ok v u → v.isTrue = true → b u = .error .stop z → Ends c b last t (.ok v z)
  /-- The condition gives a result or fails. -/
  | exitInCondition {x : Exit} {u : Session} :
      c t = .error x u → x ≠ .stop → Ends c b last t (.error x u)
  /-- The body gives a result or fails. -/
  | exitInBody {v : Value} {x : Exit} {u z : Session} :
      c t = .ok v u → v.isTrue = true → b u = .error x z → x ≠ .stop →
      Ends c b last t (.error x z)

section
variable {c b : Run Value} {s t u z : Session} {last v w : Value} {n : Nat}
  {r : EStateM.Result Exit Session Value}

/-! ## One round -/

theorem loop_succ_apply (c b : Run Value) (rounds : Nat) (last : Value) (t : Session) :
    loop c b (rounds + 1) last t =
      match c t with
      | .ok v u =>
        if v.isTrue then
          match b u with
          | .ok _ z => loop c b rounds v z
          | .error .stop z => .ok v z
          | .error x z => .error x z
        else .ok v u
      | .error .stop u => .ok last u
      | .error x u => .error x u := by
  rw [loop, Run.bind_apply, Run.untilStop_apply]
  cases c t with
  | error x u => cases x <;> rfl
  | ok v u =>
    dsimp only
    split
    · rw [Run.bind_apply, Run.untilStop_apply]
      cases b u with
      | ok w z => rfl
      | error x z => cases x <;> rfl
    · rfl

theorem loop_of_round (hc : c t = .ok v u) (hv : v.isTrue = true) (hb : b u = .ok w z)
    (rounds : Nat) (last : Value) : loop c b (rounds + 1) last t = loop c b rounds v z := by
  rw [loop_succ_apply, hc]
  simp only [hv, if_true, hb]

theorem loop_of_ends (h : Ends c b last t r) (rounds : Nat) :
    loop c b (rounds + 1) last t = r := by
  rw [loop_succ_apply]
  cases h with
  | «false» hc hv => simp [hc, hv]
  | stopInCondition hc => simp [hc]
  | stopInBody hc hv hb => simp [hc, hv, hb]
  | @exitInCondition x u hc hx => cases x <;> simp_all
  | @exitInBody v x u z hc hv hb hx => cases x <;> simp_all

/-- A loop ends in its next round or goes on to another one. -/
theorem ends_or_round (c b : Run Value) (last : Value) (t : Session) :
    (∃ r, Ends c b last t r) ∨
      ∃ v u w z, c t = .ok v u ∧ v.isTrue = true ∧ b u = .ok w z := by
  cases hc : c t with
  | error x u =>
    by_cases hx : x = .stop
    · subst hx
      exact .inl ⟨_, .stopInCondition hc⟩
    · exact .inl ⟨_, .exitInCondition hc hx⟩
  | ok v u =>
    cases hv : v.isTrue with
    | false => exact .inl ⟨_, .false hc hv⟩
    | true =>
      cases hb : b u with
      | ok w z => exact .inr ⟨v, u, w, z, rfl, hv, hb⟩
      | error x z =>
        by_cases hx : x = .stop
        · subst hx
          exact .inl ⟨_, .stopInBody hc hv hb⟩
        · exact .inl ⟨_, .exitInBody hc hv hb hx⟩

/-- A loop that ends does not go on. -/
theorem Ends.not_round (h : Ends c b last t r) (hc : c t = .ok v u) (hv : v.isTrue = true) :
    b u ≠ .ok w z := by
  intro hb
  cases h with
  | «false» hc' hv' =>
    cases hc.symm.trans hc'
    rw [hv] at hv'
    cases hv'
  | stopInCondition hc' | exitInCondition hc' _ => cases hc.symm.trans hc'
  | stopInBody hc' _ hb' | exitInBody hc' _ hb' _ =>
    cases hc.symm.trans hc'
    cases hb.symm.trans hb'

/-! ## All rounds -/

theorem loop_of_rounds (h : Rounds c b s n last t) (more : Nat) :
    loop c b (more + n) .null s = loop c b more last t := by
  -- the last round is taken off, so the rounds before it leave one more to go
  induction h generalizing more with
  | start => rfl
  | @next n last v w t u z _ hc hv hb ih =>
    calc loop c b (more + (n + 1)) .null s
        = loop c b (more + 1 + n) .null s := by rw [Nat.add_right_comm, Nat.add_assoc]
      _ = loop c b (more + 1) last t := ih (more + 1)
      _ = loop c b more v z := loop_of_round hc hv hb more last

/-- The rounds of a loop go on until it ends. -/
theorem exists_ends_or_rounds (c b : Run Value) (s : Session) (rounds : Nat) :
    (∃ n < rounds, ∃ last t r, Rounds c b s n last t ∧ Ends c b last t r) ∨
      ∃ last t, Rounds c b s rounds last t := by
  induction rounds with
  | zero => exact .inr ⟨.null, s, .start⟩
  | succ rounds ih =>
    obtain ⟨n, hn, h⟩ | ⟨last, t, h⟩ := ih
    · exact .inl ⟨n, Nat.lt_succ_of_lt hn, h⟩
    · obtain ⟨r, hr⟩ | ⟨v, u, w, z, hc, hv, hb⟩ := ends_or_round c b last t
      · exact .inl ⟨rounds, Nat.lt_succ_self rounds, last, t, r, h, hr⟩
      · exact .inr ⟨v, z, h.next hc hv hb⟩

/-- A loop comes to `r` if it goes round some number of times and then ends with `r`, or if it is
cut off when it has gone round as often as it may. -/
theorem loop_eq_iff {rounds : Nat} :
    loop c b rounds .null s = r ↔
      (∃ n < rounds, ∃ last t, Rounds c b s n last t ∧ Ends c b last t r) ∨
        ∃ last t, Rounds c b s rounds last t ∧ r = .error .unfinished t := by
  have ended {n : Nat} {last : Value} {t : Session} {r : EStateM.Result Exit Session Value}
      (hn : n < rounds) (h : Rounds c b s n last t) (hr : Ends c b last t r) :
      loop c b rounds .null s = r := by
    obtain ⟨k, rfl⟩ : ∃ k, rounds = k + 1 + n := ⟨rounds - n - 1, by omega⟩
    rw [loop_of_rounds h, loop_of_ends hr]
  have cut {last : Value} {t : Session} (h : Rounds c b s rounds last t) :
      loop c b rounds .null s = .error .unfinished t := by
    have := loop_of_rounds h 0
    rwa [Nat.zero_add] at this
  constructor
  · rintro rfl
    obtain ⟨n, hn, last, t, r, h, hr⟩ | ⟨last, t, h⟩ := exists_ends_or_rounds c b s rounds
    · rw [ended hn h hr]
      exact .inl ⟨n, hn, last, t, h, hr⟩
    · exact .inr ⟨last, t, h, cut h⟩
  · rintro (⟨n, hn, last, t, h, hr⟩ | ⟨last, t, h, rfl⟩)
    · exact ended hn h hr
    · exact cut h

/-! ### The first end -/

theorem Rounds.unique {last' : Value} {t' : Session} (h : Rounds c b s n last t)
    (h' : Rounds c b s n last' t') : last' = last ∧ t' = t := by
  induction h generalizing last' t' with
  | start =>
    cases h'
    exact ⟨rfl, rfl⟩
  | next _ hc _ hb ih =>
    obtain _ | ⟨h', hc', -, hb'⟩ := h'
    obtain ⟨-, rfl⟩ := ih h'
    cases hc.symm.trans hc'
    cases hb.symm.trans hb'
    exact ⟨rfl, rfl⟩

/-- Before a later round there was no end. -/
theorem Rounds.not_ends_of_lt {m : Nat} {last' : Value} {t' : Session}
    (h : Rounds c b s n last t) (hm : m < n) (h' : Rounds c b s m last' t') :
    ¬ Ends c b last' t' r := by
  intro hr
  induction h with
  | start => cases hm
  | @next n last v w t u z h hc hv hb ih =>
    rcases Nat.lt_succ_iff_lt_or_eq.1 hm with hm | rfl
    · exact ih hm
    · obtain ⟨rfl, rfl⟩ := h.unique h'
      exact hr.not_round hc hv hb

/-- A loop ends but once. -/
theorem ends_unique {m : Nat} {last' : Value} {t' : Session}
    {r' : EStateM.Result Exit Session Value} (h : Rounds c b s n last t) (hr : Ends c b last t r)
    (h' : Rounds c b s m last' t') (hr' : Ends c b last' t' r') :
    m = n ∧ last' = last ∧ t' = t ∧ r' = r := by
  rcases Nat.lt_trichotomy m n with hm | rfl | hm
  · exact absurd hr' (h.not_ends_of_lt hm h')
  · obtain ⟨rfl, rfl⟩ := h.unique h'
    exact ⟨rfl, rfl, rfl, (loop_of_ends hr' 0).symm.trans (loop_of_ends hr 0)⟩
  · exact absurd hr (h'.not_ends_of_lt hm h)

end

/-! ## What a loop depends on -/

/-- The same exit, or two values in the same session. -/
inductive SameButValue : EStateM.Result Exit Session Value → EStateM.Result Exit Session Value →
  Prop | value (v w : Value) (s : Session) : SameButValue (.ok v s) (.ok w s)
  | exit (x : Exit) (s : Session) : SameButValue (.error x s) (.error x s)

section
variable {c b c' b' : Run Value} {s t : Session} {last : Value}
  {r : EStateM.Result Exit Session Value}

theorem SameButValue.eq_error {x : Exit} (h : SameButValue (.error x t) r) : r = .error x t := by
  cases h
  rfl

theorem SameButValue.exists_eq_ok {w : Value} (h : SameButValue (.ok w t) r) :
    ∃ w', r = .ok w' t := by
  cases h
  exact ⟨_, rfl⟩

/-- The second loop does in a session what the first one does there, up to the value of the body. -/
def Follows (c b c' b' : Run Value) (t : Session) : Prop :=
  c' t = c t ∧ ∀ v u, c t = .ok v u → v.isTrue = true → SameButValue (b u) (b' u)

theorem Ends.of_follows (hr : Ends c b last t r) (h : Follows c b c' b' t) :
    Ends c' b' last t r := by
  obtain ⟨hc', hb'⟩ := h
  cases hr with
  | «false» hc hv => exact .false (hc'.trans hc) hv
  | stopInCondition hc => exact .stopInCondition (hc'.trans hc)
  | exitInCondition hc hx => exact .exitInCondition (hc'.trans hc) hx
  | stopInBody hc hv hb =>
    exact .stopInBody (hc'.trans hc) hv (hb ▸ hb' _ _ hc hv).eq_error
  | exitInBody hc hv hb hx =>
    exact .exitInBody (hc'.trans hc) hv (hb ▸ hb' _ _ hc hv).eq_error hx

theorem Rounds.of_follows {n : Nat} (hn : Rounds c b s n last t)
    (h : ∀ n last t, Rounds c b s n last t → Follows c b c' b' t) :
    Rounds c' b' s n last t := by
  induction hn with
  | start => exact .start
  | @next n last v w t u z hn hc hv hb ih =>
    obtain ⟨hc', hb'⟩ := h n last t hn
    obtain ⟨w', hw⟩ := (hb ▸ hb' v u hc hv).exists_eq_ok
    exact ih.next (hc'.trans hc) hv hw

/-- A loop depends only on its condition at the start of each round and on its body behind a true
condition, and not on the values of the body. -/
theorem loop_congr (h : ∀ n last t, Rounds c b s n last t → Follows c b c' b' t) (rounds : Nat) :
    loop c' b' rounds .null s = loop c b rounds .null s := by
  rw [loop_eq_iff]
  obtain ⟨n, hn, last, t, hrounds, hr⟩ | ⟨last, t, hrounds, hr⟩ :=
    loop_eq_iff.1 (rfl : loop c b rounds .null s = _)
  · exact .inl ⟨n, hn, last, t, hrounds.of_follows h, hr.of_follows (h n last t hrounds)⟩
  · exact .inr ⟨last, t, hrounds.of_follows h, hr⟩

end

end Eval

/-- The value of a loop in a script. The condition and the body are run in turn until the loop ends
(`Eval.Ends` says how), or until it has gone round as often as it may and is cut off. It ends but
once, and whatever the condition and the body would do in any other session, and whatever values the
body comes to, the loop does the same. -/
theorem eval_loop (rounds depth : Nat) (c b : Expr) (s : Session) :
    (∀ r, eval rounds (depth + 1) (.binary .loop c b) s = r ↔
      (∃ n < rounds, ∃ last t,
        Eval.Rounds (eval rounds depth c) (eval rounds depth b) s n last t ∧
          Eval.Ends (eval rounds depth c) (eval rounds depth b) last t r) ∨
        ∃ last t, Eval.Rounds (eval rounds depth c) (eval rounds depth b) s rounds last t ∧
          r = .error .unfinished t) ∧
      (∀ n last t r m last' t' r',
        Eval.Rounds (eval rounds depth c) (eval rounds depth b) s n last t →
        Eval.Ends (eval rounds depth c) (eval rounds depth b) last t r →
        Eval.Rounds (eval rounds depth c) (eval rounds depth b) s m last' t' →
        Eval.Ends (eval rounds depth c) (eval rounds depth b) last' t' r' →
        m = n ∧ last' = last ∧ t' = t ∧ r' = r) ∧
      ∀ c' b' : Run Value,
        (∀ n last t, Eval.Rounds (eval rounds depth c) (eval rounds depth b) s n last t →
          Eval.Follows (eval rounds depth c) (eval rounds depth b) c' b' t) →
        Eval.loop c' b' rounds .null s = eval rounds (depth + 1) (.binary .loop c b) s :=
  ⟨fun _ => Eval.loop_eq_iff,
    fun _ _ _ _ _ _ _ _ h hr h' hr' => Eval.ends_unique h hr h' hr',
    fun _ _ h => Eval.loop_congr h rounds⟩

/-- A session in which `x` is bound to a text. -/
def Session.withText : Session := Session.initial.set "x" (.text "a")

/-- Binds `x` to the empty text, which is not true. -/
def Expr.emptying : Expr := .binary .assign (.ident "x") (.text "")

/-- A loop on `x` that empties `x` goes round once and in no other way, and it does the same if its
body comes to null. -/
theorem eval_loop_once :
    ∃ t, Eval.Rounds (eval 2 2 (.ident "x")) (eval 2 2 .emptying) Session.withText 1 (.text "a") t ∧
      Eval.Ends (eval 2 2 (.ident "x")) (eval 2 2 .emptying) (.text "a") t (.ok (.text "") t) ∧
      eval 2 3 (.binary .loop (.ident "x") .emptying) Session.withText = .ok (.text "") t ∧
      (∀ m last u r, Eval.Rounds (eval 2 2 (.ident "x")) (eval 2 2 .emptying) Session.withText m
          last u → Eval.Ends (eval 2 2 (.ident "x")) (eval 2 2 .emptying) last u r →
        m = 1 ∧ last = .text "a" ∧ u = t ∧ r = .ok (.text "") t) ∧
      Eval.loop (eval 2 2 (.ident "x")) (do let _ ← eval 2 2 .emptying; return .null) 2 .null
        Session.withText = .ok (.text "") t := by
  obtain ⟨hends, hunique, hcongr⟩ := eval_loop 2 2 (.ident "x") .emptying Session.withText
  have hround : Eval.Rounds (eval 2 2 (.ident "x")) (eval 2 2 .emptying) Session.withText 1
      (.text "a") (Session.withText.set "x" (.text "")) := .next .start rfl rfl rfl
  have hend : Eval.Ends (eval 2 2 (.ident "x")) (eval 2 2 .emptying) (.text "a")
      (Session.withText.set "x" (.text ""))
      (.ok (.text "") (Session.withText.set "x" (.text ""))) := .false rfl rfl
  have hloop := (hends _).2 (.inl ⟨1, by decide, _, _, hround, hend⟩)
  refine ⟨_, hround, hend, hloop,
    fun m last u r hm hr => hunique 1 _ _ _ m last u r hround hend hm hr,
    (hcongr _ _ fun n last t _ => ⟨rfl, fun v u _ _ => ?_⟩).trans hloop⟩
  rw [Run.bind_apply]
  cases eval 2 2 .emptying u with
  | ok w z => exact .value _ _ _
  | error x z => exact .exit _ _

end Scriptlet
