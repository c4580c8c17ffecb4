/-
Code made in one pass.  A generator walks a value once: it asks the host about each expression as it
comes to it, and sets the lines of an array or an object as soon as it has their code.  That is the
same as to let the host replace all expressions first, to make the code in pieces, and to lay them
out last.  Main statement: `Value.generate_eq`.
-/
import DataTemplate.Proofs.Code
import DataTemplate.Rendering.Compile

namespace DataTemplate

variable {τ : Type}

/-! ### The generator -/

/-- The code of an expression with the text that the host gives it. -/
def Expression.generate (host : Processor τ) (parents : List Node) (e : Expression) (state : τ) :
    String × τ :=
  let (text, state) := host state parents e
  ("(" ++ text ++ ")", state)

/-- The operands of a concatenation, part by part. -/
def generateParts (stringFunction : String) (host : Processor τ) (parents : List Node) :
    List TextPart → τ → List String × τ
  | [], state => ([], state)
  | .expression e :: parts, state =>
    let (code, state) := e.generate host parents state
    let (operands, state) := generateParts stringFunction host parents parts state
    ((stringFunction ++ "(" ++ code ++ ")") :: operands, state)
  | .segment s :: parts, state =>
    let (operands, state) := generateParts stringFunction host parents parts state
    (s.operands ++ operands, state)

/-- The code of a string, made in one pass. -/
def Text.generate (stringFunction : String) (host : Processor τ) (parents : List Node) (t : Text)
    (state : τ) : String × τ :=
  let (operands, state) :=
    generateParts stringFunction host (parents ++ [.value (.text t)]) t.parts state
  (if operands.isEmpty then quoteText [] else String.intercalate " + " operands, state)

/-- The code of a key, made in one pass. -/
def Key.generate (stringFunction : String) (host : Processor τ) (parents : List Node) (key : Key)
    (state : τ) : String × τ :=
  match key with
  | identifier i => (i.raw, state)
  | expression e =>
    let (code, state) := e.generate host parents state
    ("[" ++ code ++ "]", state)
  | text t =>
    let (code, state) := t.generate stringFunction host parents state
    (if t.isDynamic then "[" ++ code ++ "]" else code, state)

mutual

/-- The code of a value, made in one pass.  `indent` stands in front of the line that the value
begins on. -/
def Value.generate (options : RenderOptions) (host : Processor τ) (parents : List Node)
    (indent : String) : Value → τ → String × τ
  | .scalar s, state => (s.raw, state)
  | .expression e, state => e.generate host parents state
  | .text t, state => t.generate options.stringFunction host parents state
  | .array span slots, state =>
    if slots.isEmpty then ("[]", state)
    else
      let (lines, state) := slotLines options host (parents ++ [.value (.array span slots)])
        (options.indentUnit ++ indent) slots state
      (String.intercalate (options.lineBreakText ++ indent) ("[" :: (lines ++ ["]"])), state)
  | .object span properties, state =>
    if properties.isEmpty then ("\x7b\x7d", state)
    else
      let (lines, state) := propertyLines options host
        (parents ++ [.value (.object span properties)]) (options.indentUnit ++ indent) properties
        state
      (String.intercalate (options.lineBreakText ++ indent) ("\x7b" :: (lines ++ ["\x7d"])), state)

/-- The lines of some slots, made in one pass. -/
def slotLines (options : RenderOptions) (host : Processor τ) (parents : List Node)
    (inner : String) : List (Slot Value) → τ → List String × τ
  | [], state => ([], state)
  | ⟨some value, _, _⟩ :: slots, state =>
    let (code, state) := value.generate options host parents inner state
    let (lines, state) := slotLines options host parents inner slots state
    ((options.indentUnit ++ (code ++ ",")) :: lines, state)
  | ⟨none, _, _⟩ :: slots, state =>
    let (lines, state) := slotLines options host parents inner slots state
    ((options.indentUnit ++ ("/* empty */" ++ ",")) :: lines, state)

/-- The lines of some properties, made in one pass, keys before values. -/
def propertyLines (options : RenderOptions) (host : Processor τ) (parents : List Node)
    (inner : String) : List (Property Value) → τ → List String × τ
  | [], state => ([], state)
  | ⟨key, _, some value, _⟩ :: properties, state =>
    let (name, state) := key.generate options.stringFunction host parents state
    let (code, state) := value.generate options host parents inner state
    let (lines, state) := propertyLines options host parents inner properties state
    ((options.indentUnit ++ (name ++ ": " ++ (code ++ ","))) :: lines, state)
  | ⟨key, _, none, _⟩ :: properties, state =>
    let (name, state) := key.generate options.stringFunction host parents state
    let (lines, state) := propertyLines options host parents inner properties state
    ((options.indentUnit ++ (name ++ ": " ++ ("undefined" ++ ","))) :: lines, state)

end

/-! ### Leaves -/

section Leaves

variable (stringFunction : String) (host : Processor τ) (parents : List Node)

theorem Expression.generate_eq (e : Expression) (state : τ) :
    e.generate host parents state =
      ((e.process host parents state).1.code, (e.process host parents state).2) := rfl

/-- The code of a string, by whether one of its parts leaves anything. -/
theorem Text.code_eq_ite (t : Text) (stringFunction : String) :
    t.code stringFunction =
      if (t.parts.flatMap (TextPart.operands stringFunction)).isEmpty then quoteText []
      else String.intercalate " + " (t.parts.flatMap (TextPart.operands stringFunction)) := by
  rw [code]
  cases t.parts.flatMap (TextPart.operands stringFunction) <;> rfl

/-- The parts of a string after its first segment. -/
theorem generateParts_more (more : List (Expression × Segment)) (state : τ) :
    generateParts stringFunction host parents
        (more.flatMap fun (e, s) => [.expression e, .segment s]) state =
      (((processParts host parents more state).1.flatMap fun (e, s) =>
          [TextPart.expression e, .segment s]).flatMap (TextPart.operands stringFunction),
        (processParts host parents more state).2) := by
  induction more generalizing state with
  | nil => rfl
  | cons pair more ih =>
    obtain ⟨e, s⟩ := pair
    simp only [List.flatMap_cons, List.cons_append, List.nil_append, generateParts, processParts,
      Expression.generate_eq, ih, TextPart.operands, Expression.codeInText]

theorem Text.generate_eq (t : Text) (state : τ) :
    t.generate stringFunction host parents state =
      ((t.process host parents state).1.code stringFunction, (t.process host parents state).2) := by
  rw [generate, parts, code_eq_ite]
  simp only [generateParts, generateParts_more]
  rfl

@[simp] theorem processParts_isEmpty (more : List (Expression × Segment)) (state : τ) :
    (processParts host parents more state).1.isEmpty = more.isEmpty := by
  cases more <;> rfl

theorem Text.isDynamic_process (t : Text) (state : τ) :
    (t.process host parents state).1.isDynamic = t.isDynamic := by
  simp [isDynamic, process]

theorem Key.generate_eq (key : Key) (state : τ) :
    key.generate stringFunction host parents state =
      ((key.process host parents state).1.code stringFunction,
        (key.process host parents state).2) := by
  cases key with
  | identifier => rfl
  | expression => rfl
  | text t => simp only [generate, process, code, Text.generate_eq, Text.isDynamic_process]

end Leaves

/-! ### Lines -/

theorem repeatText_append (text : String) (n : Nat) :
    repeatText text n ++ text = text ++ repeatText text n := by
  induction n with
  | zero => simp [repeatText]
  | succ n ih => rw [repeatText, String.append_assoc, ih]

namespace Layout

variable (layout : Layout)

@[simp] theorem writeAll_nil : layout.writeAll [] = "" := by simp [writeAll]

@[simp] theorem writeAll_cons (piece : Piece) (pieces : List Piece) :
    layout.writeAll (piece :: pieces) = layout.write piece ++ layout.writeAll pieces := by
  simp [writeAll]

@[simp] theorem writeAll_append (pieces others : List Piece) :
    layout.writeAll (pieces ++ others) = layout.writeAll pieces ++ layout.writeAll others := by
  simp [writeAll]

/-- What stands between the lines of an array or object on a line of the given depth. -/
def separator (depth : Nat) : String := layout.lineBreak ++ repeatText layout.indentUnit depth

theorem write_line_succ (depth : Nat) :
    layout.write (.line (depth + 1)) = layout.separator depth ++ layout.indentUnit := by
  rw [write, separator, String.append_assoc, repeatText_append, repeatText]

/-- The entries of an array or object, each on a line of its own, and the bracket that closes it. -/
theorem writeAll_bracketed {α : Type} {pieces : α → List Piece} {line : α → String} {depth : Nat}
    (h : ∀ x, layout.writeAll (pieces x) = layout.separator depth ++ line x) (entries : List α)
    (closing : String) :
    layout.writeAll (entries.flatMap pieces ++ [.line depth, .text closing]) =
      String.join (entries.map fun x => layout.separator depth ++ line x) ++
        (layout.separator depth ++ closing) := by
  have hclosing : layout.writeAll [.line depth, .text closing] =
      layout.separator depth ++ closing := by simp [write, separator]
  rw [writeAll_append, hclosing]
  congr 1
  induction entries with
  | nil => simp
  | cons x entries ih => simp [h, ih]

end Layout

/-- Lines in brackets: each line after the first follows a separator. -/
theorem intercalate_bracketed (separator opening closing : String) (lines : List String) :
    String.intercalate separator (opening :: (lines ++ [closing])) =
      opening ++ (String.join (lines.map (separator ++ ·)) ++ (separator ++ closing)) := by
  induction lines generalizing opening with
  | nil => simp [String.append_assoc]
  | cons line lines ih =>
    rw [List.cons_append, String.intercalate_cons_cons, ih, List.map_cons, String.join_cons]
    simp only [String.append_assoc]

/-! ### Values -/

section Values

variable (options : RenderOptions) (host : Processor τ)

/-- The line of a slot, set on its own. -/
def slotLine (depth : Nat) (slot : Slot Value) : String :=
  options.indentUnit ++ (slot.value.elim "/* empty */" (fun value =>
    options.layout.writeAll (value.pieces options.stringFunction (depth + 1))) ++ ",")

/-- The line of a property, set on its own. -/
def propertyLine (depth : Nat) (p : Property Value) : String :=
  options.indentUnit ++ (p.key.code options.stringFunction ++ ": " ++
    (options.layout.writeAll (p.valueOrUndefined.pieces options.stringFunction (depth + 1)) ++ ","))

theorem writeAll_slot (depth : Nat) (slot : Slot Value) :
    options.layout.writeAll (slot.pieces options.stringFunction depth) =
      options.layout.separator depth ++ slotLine options depth slot := by
  obtain ⟨value, start, comma⟩ := slot
  have hunit : options.layout.indentUnit = options.indentUnit := rfl
  rw [Slot.pieces, Layout.writeAll_cons, Layout.write_line_succ, slotLine, hunit]
  cases value <;> simp [Layout.write, String.append_assoc]

theorem writeAll_property (depth : Nat) (p : Property Value) :
    options.layout.writeAll (p.pieces options.stringFunction depth) =
      options.layout.separator depth ++ propertyLine options depth p := by
  have hunit : options.layout.indentUnit = options.indentUnit := rfl
  rw [Property.pieces, Layout.writeAll_cons, Layout.write_line_succ, propertyLine, hunit]
  simp [Layout.write, String.append_assoc]

/-- One pass over a value on a line of the given depth comes to what the passes come to. -/
def Value.InOnePass (depth : Nat) (value : Value) : Prop :=
  ∀ parents state,
    value.generate options host parents (repeatText options.indentUnit depth) state =
      (options.layout.writeAll
          ((value.process host parents state).1.pieces options.stringFunction depth),
        (value.process host parents state).2)

variable {options host} {depth : Nat}

theorem slotLines_eq {slots : List (Slot Value)}
    (h : ∀ slot ∈ slots, ∀ v, slot.value = some v → v.InOnePass options host (depth + 1))
    (parents : List Node) (state : τ) :
    slotLines options host parents (repeatText options.indentUnit (depth + 1)) slots state =
      ((processSlots host parents slots state).1.map (slotLine options depth),
        (processSlots host parents slots state).2) := by
  induction slots generalizing state with
  | nil => simp [slotLines, processSlots]
  | cons slot slots ih =>
    obtain ⟨value, start, comma⟩ := slot
    have hrest := ih fun other hother => h other (List.mem_cons_of_mem _ hother)
    cases value with
    | none => simp [slotLines, processSlots, slotLine, hrest]
    | some value =>
      have hvalue := h _ List.mem_cons_self value rfl parents state
      simp [slotLines, processSlots, slotLine, hvalue, hrest]

theorem propertyLines_eq {properties : List (Property Value)}
    (h : ∀ p ∈ properties, ∀ v, p.value = some v → v.InOnePass options host (depth + 1))
    (parents : List Node) (state : τ) :
    propertyLines options host parents (repeatText options.indentUnit (depth + 1)) properties
        state =
      ((processProperties host parents properties state).1.map (propertyLine options depth),
        (processProperties host parents properties state).2) := by
  induction properties generalizing state with
  | nil => simp [propertyLines, processProperties]
  | cons p properties ih =>
    obtain ⟨key, colon, value, comma⟩ := p
    have hrest := ih fun other hother => h other (List.mem_cons_of_mem _ hother)
    cases value with
    | none =>
      simp [propertyLines, processProperties, propertyLine, Key.generate_eq, hrest,
        Property.valueOrUndefined, undefinedValue, Value.pieces, Layout.write]
    | some value =>
      have hvalue (state : τ) := h _ List.mem_cons_self value rfl parents state
      simp [propertyLines, processProperties, propertyLine, Key.generate_eq, hvalue, hrest,
        Property.valueOrUndefined]

@[simp] theorem processSlots_isEmpty (parents : List Node) (slots : List (Slot Value))
    (state : τ) : (processSlots host parents slots state).1.isEmpty = slots.isEmpty := by
  cases slots with
  | nil => rfl
  | cons slot slots =>
    obtain ⟨value, start, comma⟩ := slot
    cases value <;> simp [processSlots]

@[simp] theorem processProperties_isEmpty (parents : List Node)
    (properties : List (Property Value)) (state : τ) :
    (processProperties host parents properties state).1.isEmpty = properties.isEmpty := by
  cases properties with
  | nil => rfl
  | cons p properties =>
    obtain ⟨key, colon, value, comma⟩ := p
    cases value <;> simp [processProperties]

end Values

/-- One pass over a value gives the code that it has once the host has replaced its expressions, and
leaves the host in the same state. -/
theorem Value.generate_eq (options : RenderOptions) (host : Processor τ) (value : Value)
    (depth : Nat) : value.InOnePass options host depth := by
  induction value using Value.induction generalizing depth with
  | scalar s =>
    intro parents state
    simp [generate, process, pieces, Layout.write]
  | expression e =>
    intro parents state
    simp [generate, process, pieces, Layout.write, Expression.generate_eq]
  | text t =>
    intro parents state
    simp [generate, process, pieces, Layout.write, Text.generate_eq]
  | array span slots ih =>
    intro parents state
    have hlines := slotLines_eq (fun slot hslot v hv => ih slot hslot v hv (depth + 1))
      (parents ++ [.value (.array span slots)]) state
    rw [repeatText] at hlines
    simp only [generate, process, pieces, hlines, processSlots_isEmpty]
    cases hslots : slots.isEmpty with
    | true =>
      obtain rfl := List.isEmpty_iff.mp hslots
      simp [processSlots, Layout.write]
    | false =>
      simp only [Bool.false_eq_true, if_false, intercalate_bracketed, Layout.writeAll_cons,
        slotPieces_eq, options.layout.writeAll_bracketed (writeAll_slot options depth),
        List.map_map, Layout.write]
      rfl
  | object span properties ih =>
    intro parents state
    have hlines := propertyLines_eq (fun p hp v hv => ih p hp v hv (depth + 1))
      (parents ++ [.value (.object span properties)]) state
    rw [repeatText] at hlines
    simp only [generate, process, pieces, hlines, processProperties_isEmpty]
    cases hproperties : properties.isEmpty with
    | true =>
      obtain rfl := List.isEmpty_iff.mp hproperties
      simp [processProperties, Layout.write]
    | false =>
      simp only [Bool.false_eq_true, if_false, intercalate_bracketed, Layout.writeAll_cons,
        propertyPieces_eq, options.layout.writeAll_bracketed (writeAll_property options depth),
        List.map_map, Layout.write]
      rfl

/-- The code of a value for a host is the code of what the host makes of it. -/
theorem Value.generate_render (options : RenderOptions) (host : Processor τ) (value : Value)
    (state : τ) : value.generate options host [] "" state =
      ((value.process host [] state).1.render options, (value.process host [] state).2) :=
  value.generate_eq options host 0 [] state

/-! ### No host -/

section Keep

variable (parents : List Node)

@[simp] theorem Expression.process_keep (e : Expression) :
    e.process Processor.keep parents () = (e, ()) := rfl

theorem processParts_keep (more : List (Expression × Segment)) :
    processParts Processor.keep parents more () = (more, ()) := by
  induction more with
  | nil => rfl
  | cons pair more ih => simp [processParts, ih]

theorem Text.process_keep (t : Text) : t.process Processor.keep parents () = (t, ()) := by
  simp [process, processParts_keep]

theorem Key.process_keep (key : Key) : key.process Processor.keep parents () = (key, ()) := by
  cases key <;> simp [process, Text.process_keep]

variable {parents}

theorem processSlots_keep {slots : List (Slot Value)}
    (h : ∀ slot ∈ slots, ∀ v, slot.value = some v →
      v.process Processor.keep parents () = (v, ())) :
    processSlots Processor.keep parents slots () = (slots, ()) := by
  induction slots with
  | nil => rfl
  | cons slot slots ih =>
    obtain ⟨value, start, comma⟩ := slot
    have hrest := ih fun other hother => h other (List.mem_cons_of_mem _ hother)
    cases value with
    | none => simp [processSlots, hrest]
    | some value => simp [processSlots, hrest, h _ List.mem_cons_self value rfl]

theorem processProperties_keep {properties : List (Property Value)}
    (h : ∀ p ∈ properties, ∀ v, p.value = some v →
      v.process Processor.keep parents () = (v, ())) :
    processProperties Processor.keep parents properties () = (properties, ()) := by
  induction properties with
  | nil => rfl
  | cons p properties ih =>
    obtain ⟨key, colon, value, comma⟩ := p
    have hrest := ih fun other hother => h other (List.mem_cons_of_mem _ hother)
    cases value with
    | none => simp [processProperties, Key.process_keep, hrest]
    | some value =>
      simp [processProperties, Key.process_keep, hrest, h _ List.mem_cons_self value rfl]

/-- A host that keeps every expression leaves a value as it is: so code is made without a host. -/
theorem Value.process_keep (value : Value) (parents : List Node) :
    value.process Processor.keep parents () = (value, ()) := by
  induction value using Value.induction generalizing parents with
  | scalar | expression => simp [process]
  | text t => simp [process, Text.process_keep]
  | array span slots ih =>
    simp [process, processSlots_keep fun slot hslot v hv => ih slot hslot v hv _]
  | object span properties ih =>
    simp [process, processProperties_keep fun p hp v hv => ih p hp v hv _]

end Keep

end DataTemplate
