/-
From the text of a document to JavaScript in one step.
-/
import DataTemplate.Reading.Document
import DataTemplate.Rendering.JavaScript
import DataTemplate.Rendering.Processing

namespace DataTemplate

variable {σ τ : Type}

/-- How a document is read, and how its value is rendered. -/
structure CompileOptions where
  reading : ReadOptions := {}
  rendering : RenderOptions := {}
deriving DecidableEq, Repr

/-- A document and the code of its value. -/
structure Compiled where
  document : Document
  body : String

/-- The code of what a document holds; one without a value stands for `undefined`. -/
def Document.body (options : RenderOptions) (document : Document) : String :=
  match document.root with
  | none => "undefined"
  | some value => value.render options

/-- Let a host replace the text of every expression of the value of a document. -/
def Document.process (host : Processor τ) (document : Document) (state : τ) : Document × τ :=
  match document.root with
  | none => (document, state)
  | some value =>
    let (value, state) := value.process host [] state
    ({ document with root := some value }, state)

/-- Compile a document, with hooks for the reading and a host for the rendering. -/
def compileWith (options : CompileOptions) (hooks : Hooks σ) (host : Processor τ) (state : σ × τ)
    (source : List Char) : Except Problem Compiled × σ × τ :=
  match readDocument options.reading hooks state.1 source with
  | (.error problem, read) => (.error problem, read, state.2)
  | (.ok document, read) =>
    let (processed, rendered) := document.process host state.2
    (.ok ⟨document, processed.body options.rendering⟩, read, rendered)

/-- A host that leaves every expression as it is. -/
def Processor.keep : Processor Unit := fun state _ e => (e.text, state)

/-- Compile a document. -/
def compile (options : CompileOptions) (source : String) : Except Problem Compiled :=
  (compileWith options ({} : Hooks Unit) Processor.keep ((), ()) source.toList).1

end DataTemplate
