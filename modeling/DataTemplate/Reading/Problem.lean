/-
What can be wrong with a document, where, and how it is worded.
-/
import DataTemplate.Text.LineColumn

namespace DataTemplate

/-- The causes of a problem; `stated` holds the words of a host. -/
inductive Cause where
  | unclosedString
  | missingItem
  | missingItemSeparator
  | unclosedArray
  | missingKey
  | missingColon
  | missingValue
  | missingPropertySeparator
  | noValue
  | trailingText
  | stated (message : String)
deriving DecidableEq, Repr

/-- The wording of a cause. -/
def Cause.message : Cause → String
  | unclosedString => "expect end of string"
  | missingItem => "expect value, comma or right square bracket"
  | missingItemSeparator => "expect comma or right square bracket"
  | unclosedArray => "expect right square bracket"
  | missingKey => "expect property identifier or right curly bracket"
  | missingColon => "expect colon"
  | missingValue => "expect property value"
  | missingPropertySeparator => "expect comma or right curly bracket"
  | noValue => "invalid input"
  | trailingText => "unexpected remainder"
  | stated message => message

/-- A problem at a byte position. -/
structure Problem where
  cause : Cause
  position : Nat
deriving DecidableEq, Repr

namespace Problem

/-- The wording of a problem without its place. -/
def message (problem : Problem) : String := problem.cause.message

/-- The wording of a problem with its byte position. -/
def display (problem : Problem) : String :=
  s!"Cannot parse: {problem.message} (at :{problem.position})"

/-- The place of a problem in its source. -/
def lineColumn (source : List Char) (problem : Problem) : LineColumn :=
  .at source problem.position

end Problem

end DataTemplate
