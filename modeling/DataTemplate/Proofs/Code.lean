/-
What the code of a value depends on.  Code does not show positions, quote characters, the escapes of
a string, whether the value of a property was missing, or which commas and colons were there, so a
value and its settled form have the same code.  Main statements: `Value.pieces_erase` and `Value.pieces_requote`.
-/
import DataTemplate.Proofs.Forms
import DataTemplate.Proofs.Preorder
import DataTemplate.Proofs.Quoting
import DataTemplate.Rendering.JavaScript

namespace DataTemplate

/-! ### Code by parts -/

/-- The code of a slot. -/
def Slot.pieces (stringFunction : String) (depth : Nat) (slot : Slot Value) : List Piece :=
  .line (depth + 1) ::
    (slot.value.elim [.text "/* empty */"] (Value.pieces stringFunction (depth + 1)) ++
      [.text ","])

/-- The value that stands for one that is missing. -/
def undefinedValue : Value := .scalar ⟨.erased, "undefined", .nullish⟩

/-- The value of a property, or what stands for one that is missing. -/
def Property.valueOrUndefined (p : Property Value) : Value := p.value.getD undefinedValue

/-- The code of a property. -/
def Property.pieces (stringFunction : String) (depth : Nat) (p : Property Value) : List Piece :=
  .line (depth + 1) :: .text (p.key.code stringFunction ++ ": ") ::
    (p.valueOrUndefined.pieces stringFunction (depth + 1) ++ [.text ","])

theorem slotPieces_eq (stringFunction : String) (depth : Nat) (slots : List (Slot Value)) :
    slotPieces stringFunction depth slots =
      slots.flatMap (Slot.pieces stringFunction depth) ++ [.line depth, .text "]"] := by
  induction slots with
  | nil => simp [slotPieces]
  | cons slot slots ih =>
    obtain ⟨value, start, comma⟩ := slot
    cases value with
    | none => simp [slotPieces, Slot.pieces, ih]
    | some value => simp [slotPieces, Slot.pieces, ih]

theorem propertyPieces_eq (stringFunction : String) (depth : Nat)
    (properties : List (Property Value)) :
    propertyPieces stringFunction depth properties =
      properties.flatMap (Property.pieces stringFunction depth) ++
        [.line depth, .text "\x7d"] := by
  induction properties with
  | nil => simp [propertyPieces]
  | cons property properties ih =>
    obtain ⟨key, colon, value, comma⟩ := property
    cases value with
    | none =>
      simp [propertyPieces, Property.pieces, Property.valueOrUndefined, undefinedValue,
        Value.pieces, ih]
    | some value => simp [propertyPieces, Property.pieces, Property.valueOrUndefined, ih]

/-! ### Settled trees -/

/-- A key without positions, whose string is made over by `f`. -/
def Key.settle (f : Text → Text) : Key → Key
  | text t => .text (f t)
  | expression e => .expression e.erase
  | identifier i => .identifier i.erase

mutual

/-- A value without positions, as its code has it: a comma stands behind every slot and every
property, and a colon in every property, whether or not it did so before; a missing value is
`undefined`; and each string is made over by `f`. -/
def Value.settle (f : Text → Text) : Value → Value
  | .scalar s => .scalar s.erase
  | .expression e => .expression e.erase
  | .text t => .text (f t)
  | .array _ slots => .array .erased (settleSlots f slots)
  | .object _ properties => .object .erased (settleProperties f properties)

/-- Some slots, settled. -/
def settleSlots (f : Text → Text) : List (Slot Value) → List (Slot Value)
  | [] => []
  | ⟨some value, _, _⟩ :: slots => ⟨some (value.settle f), 0, some 0⟩ :: settleSlots f slots
  | ⟨none, _, _⟩ :: slots => ⟨none, 0, some 0⟩ :: settleSlots f slots

/-- Some properties, settled. -/
def settleProperties (f : Text → Text) : List (Property Value) → List (Property Value)
  | [] => []
  | ⟨key, _, some value, _⟩ :: properties =>
    ⟨key.settle f, some 0, some (value.settle f), some 0⟩ :: settleProperties f properties
  | ⟨key, _, none, _⟩ :: properties =>
    ⟨key.settle f, some 0, some undefinedValue, some 0⟩ :: settleProperties f properties

end

/-- A slot, settled. -/
def Slot.settle (f : Text → Text) (slot : Slot Value) : Slot Value :=
  ⟨slot.value.map (Value.settle f), 0, some 0⟩

/-- A property, settled. -/
def Property.settle (f : Text → Text) (p : Property Value) : Property Value :=
  ⟨p.key.settle f, some 0, some (p.valueOrUndefined.settle f), some 0⟩

section Settling

variable {f g : Text → Text}

@[simp] theorem settle_undefinedValue : undefinedValue.settle f = undefinedValue := by
  simp [undefinedValue, Value.settle, Scalar.erase]

theorem settleSlots_eq (slots : List (Slot Value)) :
    settleSlots f slots = slots.map (Slot.settle f) := by
  induction slots with
  | nil => simp [settleSlots]
  | cons slot slots ih =>
    obtain ⟨value, start, comma⟩ := slot
    cases value with
    | none => simp [settleSlots, Slot.settle, ih]
    | some value => simp [settleSlots, Slot.settle, ih]

theorem settleProperties_eq (properties : List (Property Value)) :
    settleProperties f properties = properties.map (Property.settle f) := by
  induction properties with
  | nil => simp [settleProperties]
  | cons property properties ih =>
    obtain ⟨key, colon, value, comma⟩ := property
    cases value with
    | none => simp [settleProperties, Property.settle, Property.valueOrUndefined, ih]
    | some value => simp [settleProperties, Property.settle, Property.valueOrUndefined, ih]

/-- Positions make no difference to the settled form. -/
theorem Value.settle_erase (hf : ∀ t : Text, f t.erase = f t) (value : Value) :
    value.erase.settle f = value.settle f := by
  induction value using Value.induction with
  | scalar s => simp [erase, settle, Scalar.erase]
  | expression e => simp [erase, settle, Expression.erase]
  | text t => simp [erase, settle, hf]
  | array span slots ih =>
    simp only [erase, settle, eraseSlots_eq, settleSlots_eq, List.map_map]
    congr 1
    refine List.map_congr_left fun slot hslot => ?_
    cases hvalue : slot.value with
    | none => simp [Slot.settle, Slot.erase, hvalue]
    | some v => simp [Slot.settle, Slot.erase, hvalue, ih slot hslot v hvalue]
  | object span properties ih =>
    have hkey (key : Key) : key.erase.settle f = key.settle f := by
      cases key <;> simp [Key.erase, Key.settle, hf, Expression.erase, Identifier.erase]
    simp only [erase, settle, eraseProperties_eq, settleProperties_eq, List.map_map]
    congr 1
    refine List.map_congr_left fun p hp => ?_
    cases hvalue : p.value with
    | none => simp [Property.settle, Property.erase, Property.valueOrUndefined, hvalue, hkey]
    | some v =>
      simp [Property.settle, Property.erase, Property.valueOrUndefined, hvalue, hkey,
        ih p hp v hvalue]

/-- Settling twice makes each string over twice. -/
theorem Value.settle_settle (value : Value) :
    (value.settle f).settle g = value.settle fun t => g (f t) := by
  induction value using Value.induction with
  | scalar s => simp [settle, Scalar.erase]
  | expression e => simp [settle, Expression.erase]
  | text t => simp [settle]
  | array span slots ih =>
    simp only [settle, settleSlots_eq, List.map_map]
    congr 1
    refine List.map_congr_left fun slot hslot => ?_
    cases hvalue : slot.value with
    | none => simp [Slot.settle, hvalue]
    | some v => simp [Slot.settle, hvalue, ih slot hslot v hvalue]
  | object span properties ih =>
    have hkey (key : Key) : (key.settle f).settle g = key.settle fun t => g (f t) := by
      cases key <;> simp [Key.settle, Expression.erase, Identifier.erase]
    simp only [settle, settleProperties_eq, List.map_map]
    congr 1
    refine List.map_congr_left fun p hp => ?_
    cases hvalue : p.value with
    | none => simp [Property.settle, Property.valueOrUndefined, hvalue, hkey]
    | some v => simp [Property.settle, Property.valueOrUndefined, hvalue, hkey, ih p hp v hvalue]

end Settling

/-! ### Strings by what they say -/

/-- A segment without its position, its escapes decoded. -/
def Segment.decode (s : Segment) : Segment := ⟨.erased, String.ofList (unescape s.raw.toList)⟩

/-- A string without positions and quotes, its escapes decoded. -/
def Text.decode (t : Text) : Text :=
  ⟨.erased, none, t.first.decode, t.more.map fun (e, s) => (e.erase, s.decode)⟩

/-- A segment without its position, its escapes spelled as in a literal. -/
def Segment.requote (s : Segment) : Segment :=
  ⟨.erased, String.ofList (quoteBody (unescape s.raw.toList))⟩

/-- A string without positions, spelled as a literal. -/
def Text.requote (t : Text) : Text :=
  ⟨.erased, some .double, t.first.requote, t.more.map fun (e, s) => (e.erase, s.requote)⟩

theorem Text.decode_erase (t : Text) : t.erase.decode = t.decode := by
  simp [decode, erase, Segment.decode, Segment.erase, Expression.erase]

theorem Text.decode_requote (t : Text) : t.requote.decode = t.decode := by
  simp [decode, requote, Segment.decode, Segment.requote, Expression.erase]

/-- The strings of a tree that is settled as code spells it say what they said before. -/
theorem Value.settle_decode_of_erase {value other : Value}
    (h : other.erase = value.settle Text.requote) :
    other.settle Text.decode = value.settle Text.decode := by
  calc other.settle Text.decode
      = other.erase.settle Text.decode := (settle_erase Text.decode_erase other).symm
    _ = (value.settle Text.requote).settle Text.decode := by rw [h]
    _ = value.settle fun t => t.requote.decode := settle_settle value
    _ = value.settle Text.decode := by simp only [Text.decode_requote]

/-! ### Code of settled trees -/

theorem quoteText_toList (text : List Char) :
    (quoteText text).toList = '\x22' :: (quoteBody text ++ ['\x22']) := by
  simp [quoteText]

/-- The code of a string without expressions is one literal. -/
theorem Text.code_static {t : Text} (h : t.more = []) (stringFunction : String) :
    t.code stringFunction = quoteText (unescape t.first.raw.toList) := by
  by_cases hraw : t.first.raw = ""
  · simp [code, parts, h, TextPart.operands, Segment.operands, hraw, unescape]
  · simp [code, parts, h, TextPart.operands, Segment.operands, hraw]

theorem Text.code_erase (t : Text) (stringFunction : String) :
    t.erase.code stringFunction = t.code stringFunction := by
  have hmore (more : List (Expression × Segment)) :
      (more.map fun (e, s) => (e.erase, s.erase)).flatMap
          (fun part => (TextPart.expression part.1).operands stringFunction ++
            (TextPart.segment part.2).operands stringFunction) =
        more.flatMap fun part => (TextPart.expression part.1).operands stringFunction ++
            (TextPart.segment part.2).operands stringFunction := by
    rw [List.flatMap_map]
    rfl
  have hparts (u : Text) : u.parts.flatMap (TextPart.operands stringFunction) =
      u.first.operands ++ u.more.flatMap fun part =>
        (TextPart.expression part.1).operands stringFunction ++
          (TextPart.segment part.2).operands stringFunction := by
    simp [parts, List.flatMap_assoc, TextPart.operands]
  rw [code, code, hparts, hparts, erase, hmore]
  rfl

@[simp] theorem Text.isDynamic_erase (t : Text) : t.erase.isDynamic = t.isDynamic := by
  simp [isDynamic, erase]

@[simp] theorem Text.isDynamic_requote (t : Text) : t.requote.isDynamic = t.isDynamic := by
  simp [isDynamic, requote]

theorem Text.more_eq_nil {t : Text} (h : (Value.text t).expressions = []) : t.more = [] := by
  simpa [Value.expressions_text] using h

section Pieces

variable {stringFunction : String} {depth : Nat}

theorem Value.pieces_array_map {slots : List (Slot Value)} {f : Slot Value → Slot Value}
    (h : ∀ slot ∈ slots, (f slot).pieces stringFunction depth = slot.pieces stringFunction depth)
    (span span' : Span) :
    (array span' (slots.map f)).pieces stringFunction depth =
      (array span slots).pieces stringFunction depth := by
  have hslots : (slots.map f).flatMap (Slot.pieces stringFunction depth) =
      slots.flatMap (Slot.pieces stringFunction depth) := by
    rw [List.flatMap_map, List.flatMap_def, List.flatMap_def, List.map_congr_left h]
  simp only [pieces, slotPieces_eq, List.isEmpty_map, hslots]

theorem Value.pieces_object_map {properties : List (Property Value)}
    {f : Property Value → Property Value}
    (h : ∀ p ∈ properties, (f p).pieces stringFunction depth = p.pieces stringFunction depth)
    (span span' : Span) :
    (object span' (properties.map f)).pieces stringFunction depth =
      (object span properties).pieces stringFunction depth := by
  have hproperties : (properties.map f).flatMap (Property.pieces stringFunction depth) =
      properties.flatMap (Property.pieces stringFunction depth) := by
    rw [List.flatMap_map, List.flatMap_def, List.flatMap_def, List.map_congr_left h]
  simp only [pieces, propertyPieces_eq, List.isEmpty_map, hproperties]

end Pieces

/-- Code does not show positions. -/
theorem Value.pieces_erase (stringFunction : String) (value : Value) (depth : Nat) :
    value.erase.pieces stringFunction depth = value.pieces stringFunction depth := by
  induction value using Value.induction generalizing depth with
  | scalar s => simp [erase, pieces, Scalar.erase]
  | expression e => simp [erase, pieces, Expression.erase, Expression.code]
  | text t => simp [erase, pieces, Text.code_erase]
  | array span slots ih =>
    rw [erase, eraseSlots_eq]
    refine pieces_array_map (fun slot hslot => ?_) span .erased
    cases hvalue : slot.value with
    | none => simp [Slot.pieces, Slot.erase, hvalue]
    | some v => simp [Slot.pieces, Slot.erase, hvalue, ih slot hslot v hvalue]
  | object span properties ih =>
    have hkey (key : Key) : key.erase.code stringFunction = key.code stringFunction := by
      cases key with
      | text t => simp [Key.erase, Key.code, Text.code_erase]
      | expression e => rfl
      | identifier i => rfl
    rw [erase, eraseProperties_eq]
    refine pieces_object_map (fun p hp => ?_) span .erased
    cases hvalue : p.value with
    | none => simp [Property.pieces, Property.erase, Property.valueOrUndefined, hvalue, hkey]
    | some v =>
      simp [Property.pieces, Property.erase, Property.valueOrUndefined, hvalue, hkey,
        ih p hp v hvalue]

theorem Text.code_requote {t : Text} (h : t.more = []) (stringFunction : String) :
    t.requote.code stringFunction = t.code stringFunction := by
  have hmore : t.requote.more = [] := by simp [requote, h]
  rw [code_static h, code_static hmore]
  simp [requote, Segment.requote]

theorem Key.code_requote {key : Key} (h : key.expressions = []) (stringFunction : String) :
    (key.settle Text.requote).code stringFunction = key.code stringFunction := by
  cases key with
  | text t =>
    have hmore : t.more = [] := by simpa [Key.expressions_text] using h
    simp [settle, code, Text.code_requote hmore]
  | expression e => rfl
  | identifier i => rfl

/-- Code without expressions does not show how the strings were spelled, or which values were
missing. -/
theorem Value.pieces_requote (stringFunction : String) {value : Value} (h : value.expressions = [])
    (depth : Nat) : (value.settle Text.requote).pieces stringFunction depth =
      value.pieces stringFunction depth := by
  induction value using Value.induction generalizing depth with
  | scalar s => simp [settle, pieces, Scalar.erase]
  | expression e => simp [settle, pieces, Expression.erase, Expression.code]
  | text t => simp [settle, pieces, Text.code_requote (Text.more_eq_nil h)]
  | array span slots ih =>
    rw [settle, settleSlots_eq]
    refine pieces_array_map (fun slot hslot => ?_) span .erased
    cases hvalue : slot.value with
    | none => simp [Slot.pieces, Slot.settle, hvalue]
    | some v =>
      have hmem : v ∈ slotValues slots := List.mem_filterMap.mpr ⟨slot, hslot, hvalue⟩
      have hv : v.expressions = [] :=
        List.flatMap_eq_nil_iff.mp (expressions_array span slots ▸ h) v hmem
      simp [Slot.pieces, Slot.settle, hvalue, ih slot hslot v hvalue hv]
  | object span properties ih =>
    rw [settle, settleProperties_eq]
    refine pieces_object_map (fun p hp => ?_) span .erased
    have hp' : p.expressions = [] :=
      List.flatMap_eq_nil_iff.mp (expressions_object span properties ▸ h) p hp
    obtain ⟨hkey, hvalues⟩ := List.append_eq_nil_iff.mp hp'
    cases hvalue : p.value with
    | none =>
      simp [Property.pieces, Property.settle, Property.valueOrUndefined, hvalue,
        Key.code_requote hkey]
    | some v =>
      have hv : v.expressions = [] := by simpa [hvalue] using hvalues
      simp [Property.pieces, Property.settle, Property.valueOrUndefined, hvalue,
        Key.code_requote hkey, ih p hp v hvalue hv]

end DataTemplate
