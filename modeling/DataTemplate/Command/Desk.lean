/-
A console that is a value: one flat folder of files, the text on standard input, and what was printed.
Paths lead through the folder by the usual rules for `.`, `..` and slashes; what lies outside the
folder is not known.
-/
import DataTemplate.Command.Run

namespace DataTemplate.Command

/-- One flat folder of files, the standard input, and what was printed so far.  The log stands among
the reports; `logLine` says how it writes an entry. -/
structure Desk where
  files : List (String × ByteArray)
  input : ByteArray
  printed : String := ""
  reported : String := ""
  logLine : LogEntry → String := LogEntry.line

/-- Where a path leads. -/
inductive Place where
  | file (name : String)
  | folder
  | free (name : String)
  | unreachable (error : FileError)
deriving DecidableEq, Repr

namespace Desk

/-- The parts of a path between slashes. -/
def pathParts (path : String) : List (List Char) :=
  path.toList.splitOn '/'

/-- Go on from the folder, or from `outside` levels above it. -/
def follow (desk : Desk) : (outside : Nat) → List (List Char) → Place
  | _, [] => .folder
  | 0, part :: parts =>
    if part.isEmpty || part = ['.'] then desk.follow 0 parts
    else if part = ['.', '.'] then desk.follow 1 parts
    else
      let name := String.ofList part
      match desk.files.any (·.1 == name), parts with
      | true, [] => .file name
      | true, _ :: _ => .unreachable .notFolder
      | false, [] => .free name
      | false, [[]] => .unreachable .isFolder
      | false, _ :: _ => .unreachable .notFound
  | outside + 1, part :: parts =>
    if part.isEmpty || part = ['.'] then desk.follow (outside + 1) parts
    else if part = ['.', '.'] then desk.follow (outside + 2) parts
    else .unreachable .notFound

/-- Where a path leads.  The empty path leads nowhere, and one that begins with a slash outside. -/
def place (desk : Desk) (path : String) : Place :=
  match pathParts path with
  | [[]] => .unreachable .notFound
  | [] :: parts => desk.follow 1 parts
  | parts => desk.follow 0 parts

/-- Read a file. -/
def readBytes (desk : Desk) (path : String) : Except FileError ByteArray :=
  match desk.place path with
  | .file name =>
    match desk.files.lookup name with
    | some bytes => .ok bytes
    | none => .error .notFound
  | .folder => .error .isFolder
  | .free _ | .unreachable .isFolder => .error .notFound
  | .unreachable error => .error error

/-- Put bytes into a file of the folder, which is new if there is none of that name. -/
def put (desk : Desk) (name : String) (bytes : ByteArray) : Desk :=
  if desk.files.any (·.1 == name) then
    { desk with files := desk.files.map fun file => if file.1 == name then (name, bytes) else file }
  else { desk with files := desk.files ++ [(name, bytes)] }

/-- Write a file. -/
def writeText (desk : Desk) (path text : String) : Except FileError Unit × Desk :=
  match desk.place path with
  | .file name | .free name => (.ok (), desk.put name text.toUTF8)
  | .folder => (.error .isFolder, desk)
  | .unreachable error => (.error error, desk)

/-- The console that works on a desk. -/
def console : Console (StateM Desk) where
  readBytes path desk := (desk.readBytes path, desk)
  readInput desk := (.ok desk.input, desk)
  writeText path text desk := desk.writeText path text
  print text desk := ((), { desk with printed := desk.printed ++ text })
  report text desk := ((), { desk with reported := desk.reported ++ text })
  log entry desk := ((), { desk with reported := desk.reported ++ (desk.logLine entry ++ "\n") })

/-- Run a command line on a desk: the exit code, and the desk afterwards. -/
def run (desk : Desk) (arguments : List String) : UInt32 × Desk :=
  runArguments console arguments desk

end Desk

end DataTemplate.Command
