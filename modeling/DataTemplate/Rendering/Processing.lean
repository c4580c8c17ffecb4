/-
A pass over a value that lets a host replace the text of each expression.  The host is shown the
expression and the arrays, objects and strings around it, outermost first, in document order.
-/
import DataTemplate.Document.Node

namespace DataTemplate

variable {τ : Type}

/-- A host that replaces the text of expressions, over a state of its own. -/
abbrev Processor (τ : Type) := τ → List Node → Expression → String × τ

/-- Let the host replace the text of an expression. -/
def Expression.process (host : Processor τ) (parents : List Node) (e : Expression) (state : τ) :
    Expression × τ :=
  let (text, state) := host state parents e
  ({ e with text := text }, state)

/-- Let the host replace the text of the expressions after the first segment of a string. -/
def processParts (host : Processor τ) (parents : List Node) :
    List (Expression × Segment) → τ → List (Expression × Segment) × τ
  | [], state => ([], state)
  | (e, segment) :: more, state =>
    let (e, state) := e.process host parents state
    let (more, state) := processParts host parents more state
    ((e, segment) :: more, state)

/-- Let the host replace the text of the expressions of a string. -/
def Text.process (host : Processor τ) (parents : List Node) (t : Text) (state : τ) : Text × τ :=
  let (more, state) := processParts host (parents ++ [.value (.text t)]) t.more state
  ({ t with more := more }, state)

/-- Let the host replace the text of the expressions of a key. -/
def Key.process (host : Processor τ) (parents : List Node) (key : Key) (state : τ) : Key × τ :=
  match key with
  | text t =>
    let (t, state) := t.process host parents state
    (text t, state)
  | expression e =>
    let (e, state) := e.process host parents state
    (expression e, state)
  | identifier i => (identifier i, state)

mutual

/-- Let the host replace the text of every expression of a value. -/
def Value.process (host : Processor τ) (parents : List Node) : Value → τ → Value × τ
  | .scalar s, state => (.scalar s, state)
  | .expression e, state =>
    let (e, state) := e.process host parents state
    (.expression e, state)
  | .text t, state =>
    let (t, state) := t.process host parents state
    (.text t, state)
  | .array span slots, state =>
    let (slots, state) :=
      processSlots host (parents ++ [.value (.array span slots)]) slots state
    (.array span slots, state)
  | .object span properties, state =>
    let (properties, state) :=
      processProperties host (parents ++ [.value (.object span properties)]) properties state
    (.object span properties, state)

/-- Let the host replace the text of every expression in some slots. -/
def processSlots (host : Processor τ) (parents : List Node) :
    List (Slot Value) → τ → List (Slot Value) × τ
  | [], state => ([], state)
  | ⟨some value, start, comma⟩ :: slots, state =>
    let (value, state) := value.process host parents state
    let (slots, state) := processSlots host parents slots state
    (⟨some value, start, comma⟩ :: slots, state)
  | ⟨none, start, comma⟩ :: slots, state =>
    let (slots, state) := processSlots host parents slots state
    (⟨none, start, comma⟩ :: slots, state)

/-- Let the host replace the text of every expression in some properties, keys before values. -/
def processProperties (host : Processor τ) (parents : List Node) :
    List (Property Value) → τ → List (Property Value) × τ
  | [], state => ([], state)
  | ⟨key, colon, some value, comma⟩ :: properties, state =>
    let (key, state) := key.process host parents state
    let (value, state) := value.process host parents state
    let (properties, state) := processProperties host parents properties state
    (⟨key, colon, some value, comma⟩ :: properties, state)
  | ⟨key, colon, none, comma⟩ :: properties, state =>
    let (key, state) := key.process host parents state
    let (properties, state) := processProperties host parents properties state
    (⟨key, colon, none, comma⟩ :: properties, state)

end

end DataTemplate
