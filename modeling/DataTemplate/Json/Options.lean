/-
Options as JSON.  Options are an object whose members name them, or, where the kind of options
allows it, an array of their values in a fixed order.  An option that is left out has its default,
one that is given twice is an error, and a member that names no option is ignored.
-/
import DataTemplate.Json.Source
import DataTemplate.Json.Tree
import DataTemplate.Rendering.Compile

namespace DataTemplate

/-- An option of the options `α`: its name, and how its value is taken from JSON. -/
structure OptionField (α : Type) where
  name : String
  set : JsonSource → α → Option α

/-- An option of a part of some options. -/
def OptionField.within {α β : Type} (get : β → α) (put : α → β → β) (field : OptionField α) :
    OptionField β where
  name := field.name
  set value options := (field.set value (get options)).map (put · options)

/-- Take options from the members of an object; `taken` holds the names met before. -/
def optionsOfMembers {α : Type} (fields : List (OptionField α)) :
    List (List Char × JsonSource) → List String → α → Option α
  | [], _, options => some options
  | (name, value) :: members, taken, options =>
    match JsonSource.decodeString name with
    | none => none
    | some name =>
      match fields.find? fun field => field.name.toList == name with
      | none => optionsOfMembers fields members taken options
      | some field =>
        if taken.contains field.name then none
        else
          match field.set value options with
          | none => none
          | some options => optionsOfMembers fields members (field.name :: taken) options

/-- Take options from the elements of an array. -/
def optionsOfElements {α : Type} : List (OptionField α) → List JsonSource → α → Option α
  | _, [], options => some options
  | [], _ :: _, _ => none
  | field :: fields, value :: values, options =>
    match field.set value options with
    | none => none
    | some options => optionsOfElements fields values options

/-- Take options from an object or an array. -/
def optionsOf {α : Type} (fields : List (OptionField α)) (default : α) :
    JsonSource → Option α
  | .object members => optionsOfMembers fields members [] default
  | .array values => optionsOfElements fields values default
  | _ => none

/-- The name that JSON picks from some alternatives: a string, or an object with the name as its
only member, whose value says nothing. -/
def chosenName? (saysNothing : JsonSource → Bool) : JsonSource → Option String
  | .string body => (JsonSource.decodeString body).map String.ofList
  | .object [(name, value)] =>
    if saysNothing value then (JsonSource.decodeString name).map String.ofList else none
  | _ => none

/-- Pick one of some named alternatives. -/
def chosen? {α : Type} (saysNothing : JsonSource → Bool) (alternatives : List (String × α))
    (value : JsonSource) : Option α := do
  let name ← chosenName? saysNothing value
  alternatives.lookup name

/-- A string, or nothing for `null`. -/
def optionalText? : JsonSource → Option (Option String)
  | .null => some none
  | value => value.text?.map some

/-- Whether a value is `null`. -/
def JsonSource.isNull : JsonSource → Bool
  | .null => true
  | _ => false

/-- Whether a value is `null` or an object without members. -/
def JsonSource.isNullOrEmpty : JsonSource → Bool
  | .null | .object [] => true
  | _ => false

/-! ### Names -/

/-- The names of what an empty document may stand for. -/
def EmptyInput.names : List (String × EmptyInput) :=
  [("as-undefined", .asUndefined), ("as-empty-string", .asEmptyString)]

/-- The names of what may become of text after the value. -/
def Remainder.names : List (String × Remainder) :=
  [("as-error", .asError), ("ignore", .ignore)]

/-- The names of the error policies. -/
def ErrorPolicy.names : List (String × ErrorPolicy) :=
  [("throw", .fail), ("return", .stop), ("recover", .recover), ("as-string", .asString)]

/-- The name of what an empty document stands for. -/
def EmptyInput.name : EmptyInput → String
  | asUndefined => "as-undefined"
  | asEmptyString => "as-empty-string"

/-- The name of what becomes of text after the value. -/
def Remainder.name : Remainder → String
  | asError => "as-error"
  | ignore => "ignore"

/-- The name of an error policy. -/
def ErrorPolicy.name : ErrorPolicy → String
  | fail => "throw"
  | stop => "return"
  | recover => "recover"
  | asString => "as-string"

theorem EmptyInput.lookup_name (empty : EmptyInput) : names.lookup empty.name = some empty := by
  cases empty <;> decide

theorem Remainder.lookup_name (rest : Remainder) : names.lookup rest.name = some rest := by
  cases rest <;> decide

theorem ErrorPolicy.lookup_name (policy : ErrorPolicy) :
    names.lookup policy.name = some policy := by
  cases policy <;> decide

/-! ### Reading -/

/-- The options of reading; `saysNothing` tells which values may stand beside a chosen name. -/
def ReadOptions.fields (saysNothing : JsonSource → Bool) : List (OptionField ReadOptions) := [
  ⟨"loose", fun value options => value.boolean?.map fun b => { options with loose := b }⟩,
  ⟨"treatEmptyInput", fun value options =>
    (chosen? saysNothing EmptyInput.names value).map fun e => { options with emptyInput := e }⟩,
  ⟨"treatUnparsedRemainder", fun value options =>
    (chosen? saysNothing Remainder.names value).map fun r => { options with remainder := r }⟩,
  ⟨"onError", fun value options =>
    (chosen? saysNothing ErrorPolicy.names value).map fun p => { options with onError := p }⟩]

/-- The options of rendering. -/
def RenderOptions.fields : List (OptionField RenderOptions) := [
  ⟨"globalToStringMethod", fun value options =>
    value.text?.map fun t => { options with stringFunction := t }⟩,
  ⟨"compact", fun value options => value.boolean?.map fun b => { options with compact := b }⟩,
  ⟨"indent", fun value options =>
    (optionalText? value).map fun t => { options with indent := t }⟩,
  ⟨"lineBreak", fun value options =>
    (optionalText? value).map fun t => { options with lineBreak := t }⟩]

/-- The options of compiling: those of reading and of rendering, side by side. -/
def CompileOptions.fields : List (OptionField CompileOptions) :=
  (ReadOptions.fields JsonSource.isNullOrEmpty).map
      (.within (·.reading) fun part options => { options with reading := part }) ++
    RenderOptions.fields.map
      (.within (·.rendering) fun part options => { options with rendering := part })

/-- Take the options of reading from JSON. -/
def ReadOptions.ofJson? (value : JsonSource) : Option ReadOptions :=
  optionsOf (fields JsonSource.isNull) {} value

/-- Take the options of rendering from JSON. -/
def RenderOptions.ofJson? (value : JsonSource) : Option RenderOptions :=
  optionsOf fields {} value

/-- How deep the JSON of compile options may be nested. -/
def CompileOptions.depthLimit : Nat := 127

/-- Take the options of compiling from a JSON object.  As its members serve two kinds of options,
all of them must make sense, the ignored ones too, and none may be nested too deep. -/
def CompileOptions.ofJson? (value : JsonSource) : Option CompileOptions :=
  match value with
  | .object members =>
    if value.isMeaningful && value.depth ≤ depthLimit then
      optionsOfMembers fields members [] {}
    else none
  | _ => none

/-! ### Writing -/

/-- The members that give the options of reading. -/
def ReadOptions.members (options : ReadOptions) : List (String × Json) := [
  ("loose", .boolean options.loose),
  ("treatEmptyInput", .string options.emptyInput.name),
  ("treatUnparsedRemainder", .string options.remainder.name),
  ("onError", .string options.onError.name)]

/-- The members that give the options of rendering. -/
def RenderOptions.members (options : RenderOptions) : List (String × Json) := [
  ("globalToStringMethod", .string options.stringFunction),
  ("compact", .boolean options.compact),
  ("indent", .ofOption .string options.indent),
  ("lineBreak", .ofOption .string options.lineBreak)]

/-- The members that give the options of compiling. -/
def CompileOptions.members (options : CompileOptions) : List (String × Json) :=
  options.reading.members ++ options.rendering.members

end DataTemplate
