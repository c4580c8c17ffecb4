/-
The log of a task: what reading and compiling say of themselves on the way.  How a line of the log
looks besides its message, with the time in it, is left to the console.
-/
import DataTemplate.Rendering.Compile

namespace DataTemplate.Command

/-- Something that reading or compiling says of itself. -/
inductive LogEvent where
  | joined
  | discarded (problems : Nat) (loose : Bool)
  | partialResult (problems : Nat) (policy : ErrorPolicy)
  | compiled (bodyLength problems : Nat)
deriving DecidableEq, Repr

/-- What is under way on a source of some length. -/
inductive Activity where
  | compiling (length : Nat)
  | reading (length : Nat)
deriving DecidableEq, Repr

/-- An entry of the log: an event, and what it happens within, from the outside in. -/
structure LogEntry where
  within : List Activity
  event : LogEvent
deriving DecidableEq, Repr

/-! ### Wording -/

/-- A policy as the log names it. -/
def policyLabel : ErrorPolicy → String
  | .fail => "Throw"
  | .stop => "Return"
  | .recover => "Recover"
  | .asString => "AsString"

/-- The message of an event, with what it tells. -/
def LogEvent.message : LogEvent → String
  | joined => "expression followed by text, reading input as a string"
  | discarded problems loose =>
    s!"discarding structure, reading input as a string errors={problems} loose={loose}"
  | partialResult problems policy =>
    s!"returning partial result errors={problems} policy={policyLabel policy}"
  | compiled bodyLength problems => s!"compiled body_len={bodyLength} errors={problems}"

/-- The name of an activity, with the length of its source. -/
def Activity.label : Activity → String
  | compiling length => s!"compile\x7blen={length}\x7d"
  | reading length => s!"parse\x7blen={length}\x7d"

/-- The line of an entry, without the time. -/
def LogEntry.line (entry : LogEntry) : String :=
  "DEBUG " ++ ":".intercalate (entry.within.map Activity.label) ++ ": " ++ entry.event.message

/-! ### What is logged -/

/-- What a reading says: that the text is taken as a string, and why; and that there are problems in
what it comes to. -/
def readingEvents (options : ReadOptions) (source : List Char) : List LogEvent :=
  let root := (firstRoot options ({} : Hooks Unit) () source).1
  let noted := notedSession options ({} : Hooks Unit) () source
  let reread : List LogEvent :=
    if rereads options ({} : Hooks Unit) () source then
      if noted.hasProblems then
        [.discarded noted.problems.size (options.loose && mayBeLoose root.value)]
      else [.joined]
    else []
  match (readDocument options ({} : Hooks Unit) () source).1 with
  | .error _ => reread
  | .ok document =>
    if document.problems.isEmpty then reread
    else reread ++ [.partialResult document.problems.length options.onError]

/-- The log of a reading, which happens within other activities. -/
def readingLog (within : List Activity) (options : ReadOptions) (source : String) : List LogEntry :=
  (readingEvents options source.toList).map fun event =>
    ⟨within ++ [.reading source.utf8ByteSize], event⟩

/-- The log of a compilation: that of the reading in it, and that there is code. -/
def compilingLog (options : CompileOptions) (source : String) : List LogEntry :=
  let within : List Activity := [.compiling source.utf8ByteSize]
  readingLog within options.reading source ++
    match compile options source with
    | .error _ => []
    | .ok compiled =>
      [⟨within, .compiled compiled.body.utf8ByteSize compiled.document.problems.length⟩]

end DataTemplate.Command
