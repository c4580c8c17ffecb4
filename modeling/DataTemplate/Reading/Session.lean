/-
The record of one reading of a document: the problems met, the expressions met, and what the
host's hooks made of them.  A checkpoint marks a moment that a speculative step can go back to.
-/
import DataTemplate.Document.Node
import DataTemplate.Reading.Problem

namespace DataTemplate

/-- What a host makes of an expression. -/
structure Revision where
  text : String
  valueType : ValueType
deriving DecidableEq, Repr

/-- The expression with what a host made of it. -/
def Expression.revise (e : Expression) (revision : Revision) : Expression :=
  { e with text := revision.text, valueType := revision.valueType }

/-- What a host does while a document is read, over a state of its own: `revise` is asked about
each expression as soon as it is read, `observe` is told of each node once it is complete. -/
structure Hooks (σ : Type) where
  revise : σ → Expression → Revision × σ := fun state e => (⟨e.text, e.valueType⟩, state)
  observe : σ → Node → σ := fun state _ => state

/-- The record of one reading.  `handled` holds the expressions of an earlier scan of the same
text. -/
structure Session (σ : Type) where
  hooks : Hooks σ
  state : σ
  haltOnProblem : Bool
  halted : Bool
  problems : Array Problem
  expressions : Array Expression
  handled : Array Expression

/-- How much a session held at some moment. -/
structure Checkpoint where
  expressions : Nat
  problems : Nat
  halted : Bool
deriving DecidableEq, Repr

namespace Session

variable {σ : Type}

/-- A fresh session. -/
def start (hooks : Hooks σ) (state : σ) (haltOnProblem : Bool) : Session σ where
  hooks := hooks
  state := state
  haltOnProblem := haltOnProblem
  halted := false
  problems := #[]
  expressions := #[]
  handled := #[]

/-- Add a problem whether or not the session has halted. -/
def push (s : Session σ) (cause : Cause) (position : Nat) : Session σ :=
  { s with problems := s.problems.push ⟨cause, position⟩ }

/-- Add a problem of the grammar; a session that halts on problems halts, and takes no more. -/
def commit (s : Session σ) (cause : Cause) (position : Nat) : Session σ :=
  if s.halted then s
  else { s.push cause position with halted := s.haltOnProblem }

/-- Whether a problem was met. -/
def hasProblems (s : Session σ) : Bool := !s.problems.isEmpty

/-- Forget all problems and go on. -/
def clearProblems (s : Session σ) : Session σ :=
  { s with problems := #[], halted := false }

/-- Get ready for another scan of the same text. -/
def restartExpressions (s : Session σ) : Session σ :=
  { s with handled := s.handled ++ s.expressions, expressions := #[] }

/-- Mark this moment. -/
def checkpoint (s : Session σ) : Checkpoint :=
  ⟨s.expressions.size, s.problems.size, s.halted⟩

/-- Forget the problems and expressions added since a checkpoint. -/
def rollback (s : Session σ) (mark : Checkpoint) : Session σ :=
  { s with
    expressions := s.expressions.take mark.expressions
    problems := s.problems.take mark.problems
    halted := mark.halted }

/-- Tell the host of a complete node. -/
def observe (s : Session σ) (node : Node) : Session σ :=
  { s with state := s.hooks.observe s.state node }

/-- Add an expression. -/
def record (s : Session σ) (e : Expression) : Session σ :=
  { s with expressions := s.expressions.push e }

/-- Ask the host about an expression. -/
def ask (s : Session σ) (e : Expression) : Expression × Session σ :=
  let answer := s.hooks.revise s.state e
  (e.revise answer.1, { s with state := answer.2 })

/-- Complete an expression.  One that an earlier scan met in the same place keeps what the host made
of it then; any other goes to the host. -/
def finishExpression (s : Session σ) (e : Expression) : Expression × Session σ :=
  match s.handled.find? fun earlier => earlier.bodySpan == e.bodySpan with
  | some earlier =>
    let done := e.revise ⟨earlier.text, earlier.valueType⟩
    (done, s.record done)
  | none =>
    let (done, s) := s.ask e
    (done, (s.record done).observe (.value (.expression done)))

@[simp] theorem hooks_commit (s : Session σ) (cause : Cause) (position : Nat) :
    (s.commit cause position).hooks = s.hooks := by
  rw [commit]
  split <;> rfl

@[simp] theorem commit_of_halted {s : Session σ} (h : s.halted = true) (cause : Cause)
    (position : Nat) : s.commit cause position = s := by
  simp [commit, h]

end Session

end DataTemplate
