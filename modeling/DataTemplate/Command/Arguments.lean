/-
The command line.  A verb is followed by a path and settings in any order; a setting is given by a
long name, the output file also by a letter, and at most once.
-/
import DataTemplate.Json.Options

namespace DataTemplate.Command

/-- What the program is asked to do with a document: compile it, report its problems, or print what
was read. -/
inductive Verb where
  | build
  | check
  | ast
deriving DecidableEq, Repr

/-- The word for a verb. -/
def Verb.name : Verb → String
  | build => "build"
  | check => "check"
  | ast => "ast"

/-- The verb that a word stands for. -/
def Verb.ofName? (name : String) : Option Verb :=
  [build, check, ast].find? fun verb => verb.name == name

/-- The settings of the command line. -/
inductive Setting where
  | verbose
  | optionsFile
  | compact
  | indent
  | stringFunction
  | onError
  | loose
  | ignoreRemainder
  | emptyAsString
  | output
deriving DecidableEq, Repr

namespace Setting

/-- The long name, without its dashes. -/
def name : Setting → String
  | verbose => "verbose"
  | optionsFile => "options"
  | compact => "compact"
  | indent => "indent"
  | stringFunction => "to-string"
  | onError => "on-error"
  | loose => "loose"
  | ignoreRemainder => "ignore-remainder"
  | emptyAsString => "empty-as-string"
  | output => "output"

/-- The letter of a setting that has one. -/
def letter? : Setting → Option Char
  | output => some 'o'
  | _ => none

/-- Whether a setting comes with a value. -/
def takesValue : Setting → Bool
  | optionsFile | indent | stringFunction | onError | output => true
  | _ => false

/-- Whether a value is one that the setting can have: a file has a name, a policy is a known one. -/
def accepts (setting : Setting) (value : String) : Bool :=
  match setting with
  | optionsFile | output => !value.isEmpty
  | onError => (ErrorPolicy.names.lookup value).isSome
  | _ => true

/-- The settings that a verb knows. -/
def known : Verb → List Setting
  | .build => [verbose, optionsFile, compact, indent, stringFunction, onError, loose,
      ignoreRemainder, emptyAsString, output]
  | _ => [verbose, optionsFile, compact, indent, stringFunction, onError, loose,
      ignoreRemainder, emptyAsString]

end Setting

/-- What is wrong with a command line. -/
inductive UsageError where
  | missingVerb
  | unknownVerb (word : String)
  | unknownArgument (argument : String)
  | missingPath
  | missingValue (setting : Setting)
  | needlessValue (setting : Setting)
  | badValue (setting : Setting) (value : String)
  | repeated (setting : Setting)
deriving DecidableEq, Repr

/-- The wording of a usage error. -/
def UsageError.message : UsageError → String
  | missingVerb => "a command is required: build, check or ast"
  | unknownVerb word => s!"unknown command {word}"
  | unknownArgument argument => s!"unexpected argument {argument}"
  | missingPath => "a path is required"
  | missingValue setting => s!"--{setting.name} requires a value"
  | needlessValue setting => s!"--{setting.name} takes no value"
  | badValue setting value => s!"invalid value {value} for --{setting.name}"
  | repeated setting => s!"--{setting.name} cannot be used multiple times"

/-- A task: a verb, the path of a document, and the settings with their values. -/
structure Task where
  verb : Verb
  path : String
  settings : List (Setting × String)
deriving DecidableEq, Repr

/-- What a command line asks for. -/
inductive Request where
  | run (task : Task)
  | help
  | version
deriving DecidableEq, Repr

/-- Why the reading of a command line ends early. -/
inductive Interruption where
  | request (request : Request)
  | usage (error : UsageError)
deriving DecidableEq, Repr

/-- The outcome of reading a command line or a part of it. -/
abbrev Parsed (α : Type) := Except Interruption α

/-- End with a usage error. -/
def refuse {α : Type} (error : UsageError) : Parsed α := .error (.usage error)

/-- End with a request for the help text. -/
def askHelp {α : Type} : Parsed α := .error (.request .help)

/-! ### Settings -/

/-- The arguments read so far. -/
structure Collected where
  path : Option String := none
  settings : List (Setting × String) := []
deriving DecidableEq, Repr

namespace Collected

/-- Add a setting. -/
def add (collected : Collected) (setting : Setting) (value : String) : Parsed Collected :=
  if collected.settings.any (·.1 == setting) then refuse (.repeated setting)
  else if !setting.accepts value then refuse (.badValue setting value)
  else .ok { collected with settings := collected.settings ++ [(setting, value)] }

/-- Add the path. -/
def addPath (collected : Collected) (path : String) : Parsed Collected :=
  match collected.path with
  | some _ => refuse (.unknownArgument path)
  | none => .ok { collected with path := some path }

end Collected

/-- The form of an argument. -/
inductive Form where
  | separator
  | long (name : List Char) (value : Option (List Char))
  | short (letters : List Char)
  | word
deriving DecidableEq, Repr

/-- Cut at the first equals sign. -/
def cutAtEquals (cs : List Char) : List Char × Option (List Char) :=
  match cs.span (· != '=') with
  | (name, []) => (name, none)
  | (name, _ :: value) => (name, some value)

/-- The form of an argument.  A lone dash is a word. -/
def formOf (argument : List Char) : Form :=
  match argument with
  | ['-', '-'] => .separator
  | '-' :: '-' :: cs => .long (cutAtEquals cs).1 (cutAtEquals cs).2
  | '-' :: c :: cs => .short (c :: cs)
  | _ => .word

/-- An argument that has been taken in; a setting may still wait for its value. -/
structure Taken where
  collected : Collected
  waiting : Option Setting := none
deriving DecidableEq, Repr

/-- Take a setting, with the value that was attached to it. -/
def takeSetting (collected : Collected) (setting : Setting) (value : Option (List Char)) :
    Parsed Taken :=
  match setting.takesValue, value with
  | true, some value => (collected.add setting (String.ofList value)).map (⟨·, none⟩)
  | true, none => .ok ⟨collected, some setting⟩
  | false, some _ => refuse (.needlessValue setting)
  | false, none => (collected.add setting "").map (⟨·, none⟩)

/-- Take an argument that starts with two dashes. -/
def takeLong (known : List Setting) (collected : Collected) (name : List Char)
    (value : Option (List Char)) : Parsed Taken :=
  match known.find? fun setting => setting.name.toList == name with
  | some setting => takeSetting collected setting value
  | none =>
    if name == "help".toList && value.isNone then askHelp
    else refuse (.unknownArgument ("--" ++ String.ofList name))

/-- Take an argument that starts with one dash.  A value may follow the letter, after an equals sign
or right away. -/
def takeShort (known : List Setting) (collected : Collected) (letters : List Char) :
    Parsed Taken :=
  match letters with
  | [] => .ok ⟨collected, none⟩
  | letter :: rest =>
    match known.find? fun setting => setting.letter? == some letter with
    | some setting =>
      takeSetting collected setting
        (match rest with
          | [] => none
          | '=' :: value => some value
          | value => some value)
    | none =>
      if letter == 'h' then askHelp else refuse (.unknownArgument (String.ofList ['-', letter]))

/-- Take the arguments after a verb.  After a separator all arguments are paths; a setting that
waits for its value takes the next argument unless that looks like a setting. -/
def takeAll (known : List Setting) (separated : Bool) (taken : Taken) :
    List String → Parsed Collected
  | [] =>
    match taken.waiting with
    | some setting => refuse (.missingValue setting)
    | none => .ok taken.collected
  | argument :: arguments =>
    if separated then do
      let collected ← taken.collected.addPath argument
      takeAll known true ⟨collected, none⟩ arguments
    else
      match formOf argument.toList, taken.waiting with
      | .word, some setting => do
        let collected ← taken.collected.add setting argument
        takeAll known false ⟨collected, none⟩ arguments
      | .word, none => do
        let collected ← taken.collected.addPath argument
        takeAll known false ⟨collected, none⟩ arguments
      | _, some setting => refuse (.missingValue setting)
      | .separator, none => takeAll known true taken arguments
      | .long name value, none => do
        let taken ← takeLong known taken.collected name value
        takeAll known false taken arguments
      | .short letters, none => do
        let taken ← takeShort known taken.collected letters
        takeAll known false taken arguments

/-- Read the arguments after a verb.  A task is verbose also if that was asked for in front of the
verb. -/
def parseTask (verbose : Bool) (verb : Verb) (arguments : List String) : Parsed Task := do
  let collected ← takeAll (Setting.known verb) false ⟨{}, none⟩ arguments
  match collected.path with
  | none => refuse .missingPath
  | some path =>
    let early := verbose && !collected.settings.any (·.1 == .verbose)
    let settings := if early then (.verbose, "") :: collected.settings else collected.settings
    .ok ⟨verb, path, settings⟩

/-! ### Verbs -/

/-- Answer a request for help on the command named by some words. -/
def parseHelp : List String → Parsed Task
  | [] => askHelp
  | [word] =>
    if word == "help" || (Verb.ofName? word).isSome then askHelp else refuse (.unknownVerb word)
  | _ :: word :: _ => refuse (.unknownVerb word)

/-- Read the arguments in front of a verb, the verb, and those after it.  `verbose` is true once
the setting was met in front of the verb. -/
def parseVerb (verbose : Bool) : List String → Parsed Task
  | [] => refuse .missingVerb
  | argument :: arguments =>
    match formOf argument.toList with
    | .separator => refuse .missingVerb
    | .word =>
      match Verb.ofName? argument with
      | some verb => parseTask verbose verb arguments
      | none => if argument == "help" then parseHelp arguments else refuse (.unknownVerb argument)
    | .long name none =>
      if name == "verbose".toList then
        if verbose then refuse (.repeated .verbose) else parseVerb true arguments
      else if name == "help".toList then askHelp
      else if name == "version".toList then .error (.request .version)
      else refuse (.unknownArgument argument)
    | .long _ (some _) => refuse (.unknownArgument argument)
    | .short letters =>
      if letters.head? == some 'h' then askHelp
      else if letters.head? == some 'V' then .error (.request .version)
      else refuse (.unknownArgument argument)

/-- Read a command line. -/
def Request.ofArguments (arguments : List String) : Except UsageError Request :=
  match parseVerb false arguments with
  | .ok task => .ok (.run task)
  | .error (.request request) => .ok request
  | .error (.usage error) => .error error

/-! ### What a task asks for -/

namespace Task

/-- The value of a setting, if it was given. -/
def value? (task : Task) (setting : Setting) : Option String := task.settings.lookup setting

/-- Whether a setting was given. -/
def has (task : Task) (setting : Setting) : Bool := (task.value? setting).isSome

/-- The options of a task: those of its options file, and what its settings say instead. -/
def override (task : Task) (options : CompileOptions) : CompileOptions where
  reading := {
    loose := task.has .loose || options.reading.loose
    emptyInput := if task.has .emptyAsString then .asEmptyString else options.reading.emptyInput
    remainder := if task.has .ignoreRemainder then .ignore else options.reading.remainder
    onError :=
      ((task.value? .onError).bind fun name => ErrorPolicy.names.lookup name).getD
        options.reading.onError }
  rendering := {
    stringFunction := (task.value? .stringFunction).getD options.rendering.stringFunction
    compact := task.has .compact || options.rendering.compact
    indent := (task.value? .indent).or options.rendering.indent
    lineBreak := options.rendering.lineBreak }

end Task

end DataTemplate.Command
