/-
Running a task.  All that a task does to the world goes through a console: it reads files and the
standard input, writes files, prints, and keeps a log if it is asked to.  Main function: `Task.run`,
whose answer is the exit code.
-/
import DataTemplate.Command.Arguments
import DataTemplate.Command.Log
import DataTemplate.Json.Document

namespace DataTemplate.Command

/-- Why a file cannot be read or written. -/
inductive FileError where
  | notFound
  | notFolder
  | isFolder
  | invalidUtf8
  | other (message : String)
deriving DecidableEq, Repr

/-- The wording of a file error. -/
def FileError.message : FileError → String
  | notFound => "No such file or directory (os error 2)"
  | notFolder => "Not a directory (os error 20)"
  | isFolder => "Is a directory (os error 21)"
  | invalidUtf8 => "stream did not contain valid UTF-8"
  | other message => message

/-- Whether an error means that nothing is there. -/
def FileError.isAbsence : FileError → Bool
  | notFound | notFolder => true
  | _ => false

/-- What a task may do to the world. -/
structure Console (m : Type → Type) where
  readBytes : String → m (Except FileError ByteArray)
  readInput : m (Except FileError ByteArray)
  writeText : String → String → m (Except FileError Unit)
  print : String → m Unit
  report : String → m Unit
  log : LogEntry → m Unit

/-- The text in some bytes. -/
def textOf (bytes : Except FileError ByteArray) : Except FileError String :=
  match bytes with
  | .error error => .error error
  | .ok bytes =>
    match String.fromUTF8? bytes with
    | some text => .ok text
    | none => .error .invalidUtf8

/-- Why a task fails before its document is read. -/
inductive Failure where
  | unreadableOptions (path : String) (error : FileError)
  | invalidOptions (path reason : String)
  | missingSource (path : String)
  | unreadableSource (path : String) (error : FileError)
  | unreadableInput (error : FileError)
deriving DecidableEq, Repr

/-- The line that reports a failure. -/
def Failure.line : Failure → String
  | unreadableOptions path error => s!"Error: Error reading {path}: {error.message}"
  | invalidOptions path reason => s!"Error: Invalid options in {path}: {reason}"
  | missingSource path => s!"Error: file not found: {path}"
  | unreadableSource path error => s!"Error reading {path}: {error.message}"
  | unreadableInput error => s!"Error reading stdin: {error.message}"

/-- The options in the text of an options file. -/
def optionsOfText (path text : String) : Except Failure CompileOptions :=
  match JsonSource.read text.toList with
  | none => .error (.invalidOptions path "not a JSON text")
  | some value =>
    match CompileOptions.ofJson? value with
    | none => .error (.invalidOptions path "not an object of compile options")
    | some options => .ok options

/-- The line that shows a problem: the path, the place in the source, and the message. -/
def diagnostic (path : String) (source : List Char) (problem : Problem) : String :=
  let place := problem.lineColumn source
  s!"{path}:{place.line}:{place.column}: {problem.message}"

variable {m : Type → Type} [Monad m]

namespace Console

/-- Report some lines. -/
def reportLines (console : Console m) : List String → m Unit
  | [] => pure ()
  | line :: lines => do
    console.report (line ++ "\n")
    console.reportLines lines

/-- Log some entries. -/
def logEntries (console : Console m) : List LogEntry → m Unit
  | [] => pure ()
  | entry :: entries => do
    console.log entry
    console.logEntries entries

/-- Report lines, and fail. -/
def fail (console : Console m) (lines : List String) : m UInt32 := do
  console.reportLines lines
  return 1

end Console

namespace Task

/-- Find out the options of a task. -/
def readOptions (console : Console m) (task : Task) : m (Except Failure CompileOptions) := do
  match task.value? .optionsFile with
  | none => return .ok (task.override {})
  | some path =>
    match textOf (← console.readBytes path) with
    | .error error => return .error (.unreadableOptions path error)
    | .ok text => return (optionsOfText path text).map task.override

/-- Read the source of a task; a dash is the standard input. -/
def readSource (console : Console m) (task : Task) : m (Except Failure String) := do
  if task.path = "-" then
    match textOf (← console.readInput) with
    | .error error => return .error (.unreadableInput error)
    | .ok text => return .ok text
  else
    match textOf (← console.readBytes task.path) with
    | .error error =>
      if error.isAbsence then return .error (.missingSource task.path)
      else return .error (.unreadableSource task.path error)
    | .ok text => return .ok text

/-- The lines that show the problems of a document. -/
def diagnostics (task : Task) (source : String) (problems : List Problem) : List String :=
  problems.map (diagnostic task.path source.toList)

/-- The line that shows the problem for which a document is not accepted. -/
def refusal (task : Task) (source : String) (problem : Problem) : String :=
  "Parse error: " ++ diagnostic task.path source.toList problem

/-- Put the code of a document where the task wants it. -/
def deliver (console : Console m) (task : Task) (body : String) : m UInt32 := do
  match task.value? .output with
  | none =>
    console.print (body ++ "\n")
    return 0
  | some path =>
    match ← console.writeText path (body ++ "\n") with
    | .error error => console.fail [s!"Error writing {path}: {error.message}"]
    | .ok () =>
      console.report s!"Built: {path}\n"
      return 0

/-- Compile the source; problems that the options let pass are warnings. -/
def build (console : Console m) (task : Task) (options : CompileOptions) (source : String) :
    m UInt32 := do
  match compile options source with
  | .error problem => console.fail [task.refusal source problem]
  | .ok compiled =>
    console.reportLines
      ((task.diagnostics source compiled.document.problems).map ("Warning: " ++ ·))
    task.deliver console compiled.body

/-- Report all problems of the source, whatever the options say of them. -/
def check (console : Console m) (task : Task) (options : CompileOptions) (source : String) :
    m UInt32 := do
  match parse { options.reading with onError := .recover } source with
  | .error problem => console.fail (task.diagnostics source [problem])
  | .ok document =>
    if document.problems.isEmpty then
      console.report s!"OK: {task.path}\n"
      return 0
    else console.fail (task.diagnostics source document.problems)

/-- Print what was read of the source. -/
def printDocument (console : Console m) (task : Task) (options : CompileOptions)
    (source : String) : m UInt32 := do
  match parse options.reading source with
  | .error problem => console.fail [task.refusal source problem]
  | .ok document =>
    console.print (document.toJson.indented 0 ++ "\n")
    return 0

/-- What a task logs once it has its options and its source: nothing unless it is verbose. -/
def log (task : Task) (options : CompileOptions) (source : String) : List LogEntry :=
  if task.has .verbose then
    match task.verb with
    | .build => compilingLog options source
    | .check => readingLog [] { options.reading with onError := .recover } source
    | .ast => readingLog [] options.reading source
  else []

/-- Do what the verb of a task says.  All that is logged is logged before anything is reported. -/
def perform (console : Console m) (task : Task) (options : CompileOptions) (source : String) :
    m UInt32 := do
  console.logEntries (task.log options source)
  match task.verb with
  | .build => task.build console options source
  | .check => task.check console options source
  | .ast => task.printDocument console options source

/-- Run a task: find out its options, read its source, do what its verb says. -/
def run (console : Console m) (task : Task) : m UInt32 := do
  match ← task.readOptions console with
  | .error failure => console.fail [failure.line]
  | .ok options =>
    match ← task.readSource console with
    | .error failure => console.fail [failure.line]
    | .ok source => task.perform console options source

end Task

/-- The help text. -/
def helpText : String :=
  "Usage: build | check | ast PATH [SETTING...]

Compile data with embedded expressions to a JavaScript expression (build), report every problem of
a document (check), or print what was read as JSON (ast). The path - is the standard input.

  --options FILE      JSON file with compile options; the settings below override it
  --compact           single-line output
  --indent TEXT       indentation unit for arrays and objects
  --to-string NAME    function wrapped around expressions inside strings
  --on-error POLICY   throw, return, recover or as-string
  --loose             read bare literals followed by text as strings
  --ignore-remainder  accept text after the root value
  --empty-as-string   read empty input as an empty string instead of undefined
  -o, --output FILE   file for the output of build
  --verbose           log what reading and compiling do; also in front of the command
"

/-- The version of the program. -/
def versionText : String := "0.1.0\n"

/-- Run a command line.  A wrong one has the exit code 2. -/
def runArguments (console : Console m) (arguments : List String) : m UInt32 := do
  match Request.ofArguments arguments with
  | .error error =>
    console.reportLines [s!"error: {error.message}"]
    return 2
  | .ok .help =>
    console.print helpText
    return 0
  | .ok .version =>
    console.print versionText
    return 0
  | .ok (.run task) => task.run console

end DataTemplate.Command
