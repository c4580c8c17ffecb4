/-
The program: a command line on the files and streams of the system.
-/
import DataTemplate.Command.Run

namespace DataTemplate.Command

/-- The file error behind an error of the system. -/
def FileError.ofSystem : IO.Error → FileError
  | .noFileOrDirectory _ _ _ => .notFound
  | .inappropriateType _ 20 _ => .notFolder
  | .inappropriateType _ 21 _ => .isFolder
  | error => .other (toString error)

/-- Do something that the system may refuse. -/
def attempt {α : Type} (action : IO α) : IO (Except FileError α) := do
  try
    return .ok (← action)
  catch error =>
    return .error (.ofSystem error)

/-- The console of the system. -/
def systemConsole : Console IO where
  readBytes path := attempt (IO.FS.readBinFile path)
  readInput := attempt do (← IO.getStdin).readBinToEnd
  writeText path text := attempt (IO.FS.writeFile path text)
  print text := do (← IO.getStdout).putStr text
  report text := do (← IO.getStderr).putStr text
  log entry := do (← IO.getStderr).putStr (entry.line ++ "\n")

end DataTemplate.Command

/-- Run the command line. -/
def main (arguments : List String) : IO UInt32 :=
  DataTemplate.Command.runArguments DataTemplate.Command.systemConsole arguments
