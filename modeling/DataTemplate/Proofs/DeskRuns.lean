/-
Command lines on a desk whose system may fail.  Any file may be refused to a reader or a writer, and
a write that breaks off may spoil the file.  Reading leaves no trace on the desk, and a task either
reports that it cannot begin or writes its log and does what its verb says.  Main statements:
`Desk.readOptions_under`, `Desk.readSource_under`, `Desk.runTask_under` and `Desk.perform_under`.
-/
import DataTemplate.Command.Desk

namespace DataTemplate.Command

/-- What the system may fail to do: to read the standard input or the file at a path, and to write
the file at a path.  A write that breaks off may leave some bytes in the file. -/
structure Faults where
  input : Option FileError := none
  reading : String → Option FileError := fun _ => none
  writing : String → Option (FileError × Option ByteArray) := fun _ => none

/-- The name of the file that a write to a place makes or replaces. -/
def Place.name? : Place → Option String
  | file name | free name => some name
  | _ => none

/-- Some lines as they are printed. -/
def linesText (lines : List String) : String := String.join (lines.map (· ++ "\n"))

theorem linesText_append (lines more : List String) :
    linesText (lines ++ more) = linesText lines ++ linesText more := by
  simp [linesText, String.join_append]

namespace Desk

/-! ### A desk with faults -/

/-- Read a file, unless the system fails to. -/
def readBytesUnder (faults : Faults) (desk : Desk) (path : String) : Except FileError ByteArray :=
  match faults.reading path with
  | some error => .error error
  | none => desk.readBytes path

/-- Read the standard input, unless the system fails to. -/
def readInputUnder (faults : Faults) (desk : Desk) : Except FileError ByteArray :=
  match faults.input with
  | some error => .error error
  | none => .ok desk.input

/-- A desk on which a write to a path broke off. -/
def spoil (desk : Desk) (path : String) (rest : Option ByteArray) : Desk :=
  match (desk.place path).name?, rest with
  | some name, some bytes => desk.put name bytes
  | _, _ => desk

/-- Write a file, unless the system fails to. -/
def writeTextUnder (faults : Faults) (desk : Desk) (path text : String) :
    Except FileError Unit × Desk :=
  match faults.writing path with
  | some (error, rest) => (.error error, desk.spoil path rest)
  | none => desk.writeText path text

/-- The console that works on a desk whose system may fail. -/
def consoleUnder (faults : Faults) : Console (StateM Desk) where
  readBytes path desk := (desk.readBytesUnder faults path, desk)
  readInput desk := (desk.readInputUnder faults, desk)
  writeText path text desk := desk.writeTextUnder faults path text
  print := Desk.console.print
  report := Desk.console.report
  log := Desk.console.log

/-- Run a command line on a desk whose system may fail. -/
def runUnder (faults : Faults) (desk : Desk) (arguments : List String) : UInt32 × Desk :=
  runArguments (consoleUnder faults) arguments desk

/-- Without faults this is a run on the desk. -/
theorem runUnder_none (desk : Desk) (arguments : List String) :
    desk.runUnder {} arguments = desk.run arguments := rfl

/-! ### Reports -/

/-- The desk once some text was reported. -/
def told (desk : Desk) (text : String) : Desk := { desk with reported := desk.reported ++ text }

@[simp] theorem told_files (desk : Desk) (text : String) : (desk.told text).files = desk.files := rfl

@[simp] theorem told_told (desk : Desk) (text more : String) :
    (desk.told text).told more = desk.told (text ++ more) := by
  simp [told, String.append_assoc]

theorem follow_told (desk : Desk) (text : String) (outside : Nat) (parts : List (List Char)) :
    (desk.told text).follow outside parts = desk.follow outside parts := by
  induction parts generalizing outside with
  | nil => cases outside <;> rfl
  | cons part parts ih => cases outside <;> simp only [follow, told_files, ih]

theorem place_told (desk : Desk) (text path : String) :
    (desk.told text).place path = desk.place path := by
  unfold place
  split
  · rfl
  · exact follow_told ..
  · exact follow_told ..

/-- A step that comes to an answer hands it on, with the desk that it leaves. -/
theorem bind_eq {α β : Type} {step : StateM Desk α} {next : α → StateM Desk β} {answer : α}
    {after : Desk} (h : step desk = (answer, after)) :
    (step >>= next) desk = next answer after := by
  show (let (a, s) := step desk; next a s) = next answer after
  rw [h]

theorem reportLines_under (faults : Faults) (desk : Desk) (lines : List String) :
    (consoleUnder faults).reportLines lines desk = ((), desk.told (linesText lines)) := by
  induction lines generalizing desk with
  | nil =>
    have hnothing : desk.told (linesText []) = desk := by simp [told, linesText]
    rw [hnothing]
    rfl
  | cons line lines ih =>
    have hmore : (desk.told (line ++ "\n")).told (linesText lines) =
        desk.told (linesText (line :: lines)) := by
      simp [told, linesText, String.append_assoc]
    rw [← hmore]
    exact ih (desk.told (line ++ "\n"))

/-- On a desk the log is told line by line, as reports are. -/
theorem logEntries_under (faults : Faults) (desk : Desk) (entries : List LogEntry) :
    (consoleUnder faults).logEntries entries desk =
      ((), desk.told (linesText (entries.map desk.logLine))) := by
  have hlines : (consoleUnder faults).logEntries entries desk =
      (consoleUnder faults).reportLines (entries.map desk.logLine) desk := by
    induction entries generalizing desk with
    | nil => rfl
    | cons entry entries ih => exact ih (desk.told (desk.logLine entry ++ "\n"))
  rw [hlines, reportLines_under]

theorem fail_under (faults : Faults) (desk : Desk) (lines : List String) :
    (consoleUnder faults).fail lines desk = (1, desk.told (linesText lines)) :=
  bind_eq (desk.reportLines_under faults lines)

/-- The desk once a task has written its log. -/
def logged (desk : Desk) (task : Task) (options : CompileOptions) (source : String) : Desk :=
  desk.told (linesText ((task.log options source).map desk.logLine))

theorem perform_under (faults : Faults) (desk : Desk) (task : Task) (options : CompileOptions)
    (source : String) : task.perform (consoleUnder faults) options source desk =
      (match task.verb with
        | .build => task.build (consoleUnder faults) options source
        | .check => task.check (consoleUnder faults) options source
        | .ast => task.printDocument (consoleUnder faults) options source)
        (desk.logged task options source) :=
  bind_eq (desk.logEntries_under faults _)

/-! ### Reading -/

/-- The options that a task finds on a desk. -/
def optionsUnder (faults : Faults) (desk : Desk) (task : Task) : Except Failure CompileOptions :=
  match task.value? .optionsFile with
  | none => .ok (task.override {})
  | some path =>
    ((textOf (desk.readBytesUnder faults path)).mapError (.unreadableOptions path)).bind fun text =>
      (optionsOfText path text).map task.override

/-- The source that a task finds on a desk. -/
def sourceUnder (faults : Faults) (desk : Desk) (task : Task) : Except Failure String :=
  if task.path = "-" then (textOf (desk.readInputUnder faults)).mapError .unreadableInput
  else (textOf (desk.readBytesUnder faults task.path)).mapError fun error =>
    if error.isAbsence then .missingSource task.path else .unreadableSource task.path error

theorem readOptions_under (faults : Faults) (desk : Desk) (task : Task) :
    task.readOptions (consoleUnder faults) desk = (desk.optionsUnder faults task, desk) := by
  unfold Task.readOptions optionsUnder
  cases task.value? .optionsFile with
  | none => rfl
  | some path =>
    have hbytes : (consoleUnder faults).readBytes path desk =
        (desk.readBytesUnder faults path, desk) := rfl
    simp only
    rw [bind_eq hbytes]
    cases textOf (desk.readBytesUnder faults path) <;> rfl

theorem readSource_under (faults : Faults) (desk : Desk) (task : Task) :
    task.readSource (consoleUnder faults) desk = (desk.sourceUnder faults task, desk) := by
  have hinput : (consoleUnder faults).readInput desk = (desk.readInputUnder faults, desk) := rfl
  have hbytes : (consoleUnder faults).readBytes task.path desk =
      (desk.readBytesUnder faults task.path, desk) := rfl
  unfold Task.readSource sourceUnder
  split
  · rw [bind_eq hinput]
    cases textOf (desk.readInputUnder faults) <;> rfl
  · rw [bind_eq hbytes]
    cases textOf (desk.readBytesUnder faults task.path) with
    | error error =>
      show _ = (Except.error (if error.isAbsence then _ else _), desk)
      cases hkind : error.isAbsence <;> simp only [hkind] <;> rfl
    | ok text => rfl

theorem runTask_under (faults : Faults) (desk : Desk) (task : Task) :
    task.run (consoleUnder faults) desk =
      match desk.optionsUnder faults task, desk.sourceUnder faults task with
      | .error failure, _ | .ok _, .error failure => (1, desk.told (linesText [failure.line]))
      | .ok options, .ok source => task.perform (consoleUnder faults) options source desk := by
  unfold Task.run
  rw [bind_eq (desk.readOptions_under faults task)]
  cases desk.optionsUnder faults task with
  | error failure => exact desk.fail_under faults _
  | ok options =>
    simp only
    rw [bind_eq (desk.readSource_under faults task)]
    cases desk.sourceUnder faults task with
    | error failure => exact desk.fail_under faults _
    | ok source => rfl

end Desk

end DataTemplate.Command
