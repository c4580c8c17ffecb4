/-
Values.  A value is a string, an expression, an array, an object, a keyword or a number; two opening
braces are an expression, never an object in an object.
-/
import DataTemplate.Reading.Properties

namespace DataTemplate

variable {σ : Type}

/-- Read the value here. -/
def readValue (c : Cursor) (s : Session σ) : Reading σ Value c :=
  match readText c s with
  | (some (text, d), s) => (some (.text text, d), s)
  | (none, s) =>
    match readExpression c s with
    | (some (e, d), s) => (some (.expression e, d), s)
    | (none, s) =>
      match readArray c (fun d _ s => readValue d s) s with
      | (some found, s) => (some found, s)
      | (none, s) =>
        match readObject c (fun d _ s => readValue d s) s with
        | (some found, s) => (some found, s)
        | (none, s) =>
          match readScalar c s with
          | (some (scalar, d), s) => (some (.scalar scalar, d), s)
          | (none, s) => (none, s)
termination_by c.rest.length

end DataTemplate
