/-
Going back to a checkpoint.  A checkpoint keeps only how much a session held and whether it had
halted, so the way back is right because every action on a session adds behind what is there.  Main
statement: `Session.rollback_restores`.
-/
import DataTemplate.Proofs.HostFreedom

namespace DataTemplate

variable {σ : Type}

/-! ### Actions -/

/-- What a speculative reading does to a session.  An attempt takes a checkpoint of its own, acts,
and goes back to it. -/
inductive Session.Action where
  | commit (cause : Cause) (position : Nat)
  | push (cause : Cause) (position : Nat)
  | finish (e : Expression)
  | observe (node : Node)
  | attempt (actions : List Session.Action)

mutual

/-- A session after an action. -/
def Session.perform (s : Session σ) : Session.Action → Session σ
  | .commit cause position => s.commit cause position
  | .push cause position => s.push cause position
  | .finish e => (s.finishExpression e).2
  | .observe node => s.observe node
  | .attempt actions => (s.performAll actions).rollback s.checkpoint

/-- A session after some actions. -/
def Session.performAll (s : Session σ) : List Session.Action → Session σ
  | [] => s
  | action :: actions => (s.perform action).performAll actions

end

/-! ### Actions only add -/

namespace Session.Extends

variable {s t u : Session σ}

theorem refl (s : Session σ) : s.Extends s :=
  ⟨rfl, rfl, rfl, List.prefix_refl _, List.prefix_refl _⟩

theorem trans (h : s.Extends t) (k : t.Extends u) : s.Extends u where
  hooks_eq := k.hooks_eq.trans h.hooks_eq
  haltOnProblem_eq := k.haltOnProblem_eq.trans h.haltOnProblem_eq
  handled_eq := k.handled_eq.trans h.handled_eq
  problems := h.problems.trans k.problems
  expressions := h.expressions.trans k.expressions

/-- A problem is added also where the session has halted. -/
theorem push (s : Session σ) (cause : Cause) (position : Nat) :
    s.Extends (s.push cause position) :=
  ⟨rfl, rfl, rfl, by simp [Session.push], List.prefix_refl _⟩

/-- An attempt comes back to where it began, so that nothing is added. -/
theorem attempt (h : s.Extends t) : s.Extends (t.rollback s.checkpoint) := by
  rw [h.rollback_eq]
  exact ⟨rfl, rfl, rfl, List.prefix_refl _, List.prefix_refl _⟩

end Session.Extends

mutual

theorem Session.extends_perform (s : Session σ) : ∀ action, s.Extends (s.perform action)
  | .commit cause position => (Session.Grows.commit s cause position).toExtends
  | .push cause position => .push s cause position
  | .finish e => (Session.Grows.finishExpression s e).toExtends
  | .observe node => (Session.Grows.observe s node).toExtends
  | .attempt actions => (s.extends_performAll actions).attempt

theorem Session.extends_performAll (s : Session σ) : ∀ actions, s.Extends (s.performAll actions)
  | [] => .refl s
  | action :: actions =>
    (s.extends_perform action).trans ((s.perform action).extends_performAll actions)

end

/-! ### Sessions that differ in their host alone -/

/-- `t` is `s`, but for what the host has come to. -/
def Session.Alike (s t : Session σ) : Prop := ∃ state, t = { s with state := state }

/-- Two sessions hold the same problems and expressions, and both have halted or neither has. -/
structure Session.SameRecord (s t : Session σ) : Prop where
  problems_eq : s.problems = t.problems
  expressions_eq : s.expressions = t.expressions
  halted_eq : s.halted = t.halted

namespace Session.Alike

variable {s t : Session σ}

theorem sameRecord (h : s.Alike t) : t.SameRecord s := by
  obtain ⟨state, rfl⟩ := h
  exact ⟨rfl, rfl, rfl⟩

theorem push (h : s.Alike t) (cause : Cause) (position : Nat) :
    (s.push cause position).Alike (t.push cause position) := by
  obtain ⟨state, rfl⟩ := h
  exact ⟨state, rfl⟩

theorem commit (h : s.Alike t) (cause : Cause) (position : Nat) :
    (s.commit cause position).Alike (t.commit cause position) := by
  obtain ⟨state, rfl⟩ := h
  refine ⟨state, ?_⟩
  unfold Session.commit
  split <;> rfl

theorem observe (h : s.Alike t) (node : Node) : (s.observe node).Alike (t.observe node) := by
  obtain ⟨state, rfl⟩ := h
  exact ⟨_, rfl⟩

theorem rollback (h : s.Alike t) (mark : Checkpoint) :
    (s.rollback mark).Alike (t.rollback mark) := by
  obtain ⟨state, rfl⟩ := h
  exact ⟨state, rfl⟩

/-- A host whose answers depend on the expression alone answers the same in any state. -/
theorem finish {f : Expression → Revision} (hhooks : s.hooks.AnswersBy f) (h : s.Alike t)
    (e : Expression) : (t.finishExpression e).1 = (s.finishExpression e).1 ∧
      (s.finishExpression e).2.Alike (t.finishExpression e).2 := by
  obtain ⟨state, rfl⟩ := h
  have hanswer : s.hooks.revise state e = (f e, (s.hooks.revise state e).2) := by
    rw [← hhooks state e]
  have hother : s.hooks.revise s.state e = (f e, (s.hooks.revise s.state e).2) := by
    rw [← hhooks s.state e]
  unfold Session.finishExpression
  dsimp only
  split
  · exact ⟨rfl, state, rfl⟩
  · simp only [ask]
    rw [hanswer, hother]
    exact ⟨rfl, _, rfl⟩

end Session.Alike

mutual

theorem Session.Alike.perform {f : Expression → Revision} {s t : Session σ}
    (hhooks : s.hooks.AnswersBy f) (h : s.Alike t) :
    ∀ action, (s.perform action).Alike (t.perform action)
  | .commit cause position => h.commit cause position
  | .push cause position => h.push cause position
  | .finish e => (h.finish hhooks e).2
  | .observe node => h.observe node
  | .attempt actions => by
    have hmark : t.checkpoint = s.checkpoint := by
      obtain ⟨state, rfl⟩ := h
      rfl
    have hall := (h.performAll hhooks actions).rollback s.checkpoint
    rw [Session.perform, Session.perform, hmark]
    exact hall

/-- Actions do the same to sessions that differ in their host alone. -/
theorem Session.Alike.performAll {f : Expression → Revision} {s t : Session σ}
    (hhooks : s.hooks.AnswersBy f) (h : s.Alike t) :
    ∀ actions, (s.performAll actions).Alike (t.performAll actions)
  | [] => h
  | action :: actions => by
    have hnext : (s.perform action).hooks.AnswersBy f := by
      rw [(s.extends_perform action).hooks_eq]
      exact hhooks
    exact (h.perform hhooks action).performAll hnext actions

end

/-! ### Going back -/

theorem Session.rollback_alike (s : Session σ) (actions : List Session.Action) :
    s.Alike ((s.performAll actions).rollback s.checkpoint) :=
  ⟨_, (s.extends_performAll actions).rollback_eq⟩

/-- Going back to a checkpoint brings back the problems, the expressions and the halt of the moment
when it was taken, whatever was done since.  What follows does to them what it would have done
then: a problem in any case, and an expression and all further actions if the answers of the host
depend on the expression alone. -/
theorem Session.rollback_restores (s : Session σ) (actions : List Session.Action) :
    let back := (s.performAll actions).rollback s.checkpoint
    back.SameRecord s ∧
    (∀ cause position,
      (back.commit cause position).SameRecord (s.commit cause position)) ∧
    ∀ f, s.hooks.AnswersBy f →
      (∀ e, (back.finishExpression e).1 = (s.finishExpression e).1 ∧
        (back.finishExpression e).2.SameRecord (s.finishExpression e).2) ∧
      ∀ more, (back.performAll more).SameRecord (s.performAll more) := by
  intro back
  have hback : s.Alike back := s.rollback_alike actions
  refine ⟨hback.sameRecord, fun cause position => (hback.commit cause position).sameRecord, ?_⟩
  intro f hhooks
  constructor
  · intro e
    obtain ⟨hresult, hsession⟩ := hback.finish hhooks e
    exact ⟨hresult, hsession.sameRecord⟩
  · intro more
    exact (hback.performAll hhooks more).sameRecord

/-- A session that halts at a problem takes a later one after all once it has gone back, and asks
its host again about an expression that it had met. -/
theorem Session.rollback_restores_halted :
    let host : Hooks Nat := { revise := fun calls e => (⟨e.raw ++ "!", .number⟩, calls + 1) }
    let e : Expression := ⟨4, 2, "a", "a", .unknown⟩
    let s : Session Nat := { Session.start host 0 true with handled := #[⟨9, 2, "b", "c", .string⟩] }
    let t := s.performAll [.commit .missingValue 3, .commit .missingKey 5, .push .trailingText 8,
      .attempt [.finish e, .attempt [.push .noValue 0]], .finish e]
    let back := t.rollback s.checkpoint
    s.hooks.AnswersBy (fun e => ⟨e.raw ++ "!", .number⟩) ∧
      t.problems = #[⟨.missingValue, 3⟩, ⟨.trailingText, 8⟩] ∧ t.halted = true ∧
      t.expressions = #[⟨4, 2, "a", "a!", .number⟩] ∧ t.state = 2 ∧ back.SameRecord s ∧
      (back.commit .missingKey 5).SameRecord (s.commit .missingKey 5) ∧
      (back.finishExpression e).1 = (s.finishExpression e).1 ∧
      (back.performAll [.finish e]).SameRecord (s.performAll [.finish e]) := by
  intro host e s t back
  have hhooks : s.hooks.AnswersBy fun e => ⟨e.raw ++ "!", .number⟩ := fun _ _ => rfl
  obtain ⟨hback, hcommit, hhost⟩ := Session.rollback_restores s
    [.commit .missingValue 3, .commit .missingKey 5, .push .trailingText 8,
      .attempt [.finish e, .attempt [.push .noValue 0]], .finish e]
  obtain ⟨hfinish, hmore⟩ := hhost _ hhooks
  have hproblems : t.problems = #[⟨.missingValue, 3⟩, ⟨.trailingText, 8⟩] := by decide +kernel
  have hexpressions : t.expressions = #[⟨4, 2, "a", "a!", .number⟩] := by decide +kernel
  exact ⟨hhooks, hproblems, by decide +kernel, hexpressions, by decide +kernel, hback, hcommit _ _,
    (hfinish e).1, hmore _⟩

end DataTemplate
