/-
A layout only adds to code.  Without its line breaks and its indentation, code is a run of chunks
that no layout changes: a layout puts in front of each chunk but the first one line break, and one
level of indentation for each array or object that the line stands in.  Main statement:
`generate_layouts`.
-/
import DataTemplate.Proofs.OnePass

namespace DataTemplate

variable {τ : Type}

/-! ### Chunks -/

/-- The depth of the line that a piece begins. -/
def Piece.depth? : Piece → Option Nat
  | line depth => some depth
  | text _ => none

/-- The text of some pieces up to the first line break, and the depth and the text of every line
after it. -/
def chunks : List Piece → String × List (Nat × String)
  | [] => ("", [])
  | .text text :: pieces =>
    let (first, lines) := chunks pieces
    (text ++ first, lines)
  | .line depth :: pieces =>
    let (first, lines) := chunks pieces
    ("", (depth, first) :: lines)

/-- A text, and lines set behind it by a layout. -/
def Layout.setLines (layout : Layout) (first : String) (lines : List (Nat × String)) : String :=
  first ++ String.join (lines.map fun (depth, text) =>
    layout.lineBreak ++ (repeatText layout.indentUnit depth ++ text))

theorem writeAll_eq_setLines (layout : Layout) (pieces : List Piece) :
    layout.writeAll pieces = layout.setLines (chunks pieces).1 (chunks pieces).2 := by
  induction pieces with
  | nil => simp [chunks, Layout.setLines]
  | cons piece pieces ih =>
    rw [Layout.writeAll_cons, ih]
    cases piece with
    | text text => simp [chunks, Layout.setLines, Layout.write, String.append_assoc]
    | line depth => simp [chunks, Layout.setLines, Layout.write, String.append_assoc]

theorem chunks_depths (pieces : List Piece) :
    (chunks pieces).2.map Prod.fst = pieces.filterMap Piece.depth? := by
  induction pieces with
  | nil => rfl
  | cons piece pieces ih => cases piece <;> simp [chunks, List.filterMap_cons, Piece.depth?, ih]

/-- A text stands whole in one of the chunks. -/
theorem exists_chunk {pieces : List Piece} {text : String} (h : .text text ∈ pieces) :
    ∃ chunk ∈ (chunks pieces).1 :: (chunks pieces).2.map Prod.snd,
      text.toList <:+: chunk.toList := by
  induction pieces with
  | nil => simp at h
  | cons piece pieces ih =>
    cases piece with
    | text other =>
      rcases List.mem_cons.mp h with heq | hmem
      · obtain rfl := Piece.text.inj heq
        refine ⟨_, List.mem_cons_self, ?_⟩
        simpa [chunks] using List.infix_append [] text.toList (chunks pieces).1.toList
      · obtain ⟨chunk, hchunk, hin⟩ := ih hmem
        rcases List.mem_cons.mp hchunk with rfl | hlater
        · refine ⟨_, List.mem_cons_self, ?_⟩
          rw [chunks, String.toList_append]
          exact hin.trans (List.suffix_append _ _).isInfix
        · exact ⟨chunk, List.mem_cons_of_mem _ hlater, hin⟩
    | line depth =>
      obtain ⟨chunk, hchunk, hin⟩ := ih (by simpa using h)
      exact ⟨chunk, List.mem_cons_of_mem _ hchunk, hin⟩

/-! ### Nesting -/

mutual

/-- For each line of the code of a value after the first, the arrays and objects of the value that
the line stands in, outermost first.  A bracket that closes stands outside of what it closes. -/
def Value.nestings : Value → List (List Value)
  | .scalar _ | .expression _ | .text _ => []
  | .array span slots =>
    if slots.isEmpty then []
    else (slotNestings slots).map (.array span slots :: ·) ++ [[]]
  | .object span properties =>
    if properties.isEmpty then []
    else (propertyNestings properties).map (.object span properties :: ·) ++ [[]]

/-- The same for the lines of some slots. -/
def slotNestings : List (Slot Value) → List (List Value)
  | [] => []
  | ⟨some value, _, _⟩ :: slots => [] :: (value.nestings ++ slotNestings slots)
  | ⟨none, _, _⟩ :: slots => [] :: slotNestings slots

/-- The same for the lines of some properties. -/
def propertyNestings : List (Property Value) → List (List Value)
  | [] => []
  | ⟨_, _, some value, _⟩ :: properties => [] :: (value.nestings ++ propertyNestings properties)
  | ⟨_, _, none, _⟩ :: properties => [] :: propertyNestings properties

end

/-- The values that stand in an array or in an object. -/
def Value.entries : Value → List Value
  | .array _ slots => slotValues slots
  | .object _ properties => properties.filterMap (·.value)
  | _ => []

/-- Arrays and objects that stand one in the other, from a value inwards. -/
inductive Value.Nested : Value → List Value → Prop
  | outside (value : Value) : Nested value []
  | line {value : Value} (h : value.kind = .array ∨ value.kind = .object) : Nested value [value]
  | entry {value inner : Value} {around : List Value} (h : inner ∈ value.entries)
      (hinner : Nested inner around) : Nested value (value :: around)

/-- For each line of an entry of an array or object, which begins with a line of its own, the arrays
and objects in the entry that the line stands in. -/
def entryNestings (entry : Option Value) : List (List Value) := [] :: entry.elim [] Value.nestings

theorem slotNestings_eq (slots : List (Slot Value)) :
    slotNestings slots = slots.flatMap fun slot => entryNestings slot.value := by
  induction slots with
  | nil => rfl
  | cons slot slots ih =>
    obtain ⟨value, start, comma⟩ := slot
    cases value <;> simp [slotNestings, entryNestings, ih]

theorem propertyNestings_eq (properties : List (Property Value)) :
    propertyNestings properties = properties.flatMap fun p => entryNestings p.value := by
  induction properties with
  | nil => rfl
  | cons p properties ih =>
    obtain ⟨key, colon, value, comma⟩ := p
    cases value <;> simp [propertyNestings, entryNestings, ih]

theorem mem_entryNestings {entry : Option Value} {around : List Value}
    (h : around ∈ entryNestings entry) :
    around = [] ∨ ∃ value, entry = some value ∧ around ∈ value.nestings := by
  rcases List.mem_cons.mp h with rfl | hin
  · exact .inl rfl
  · cases entry with
    | none => simp at hin
    | some value => exact .inr ⟨value, rfl, hin⟩

/-- What a line stands in is nested. -/
theorem Value.nested_of_mem_nestings {value : Value} {around : List Value}
    (h : around ∈ value.nestings) : value.Nested around := by
  induction value using Value.induction generalizing around with
  | scalar | expression | text => simp [nestings] at h
  | array span slots ih =>
    cases hslots : slots.isEmpty with
    | true => simp [nestings, hslots] at h
    | false =>
      simp only [nestings, hslots, Bool.false_eq_true, if_false, List.mem_append, List.mem_map,
        List.mem_singleton] at h
      obtain ⟨inner, hinner, rfl⟩ | rfl := h
      · rw [slotNestings_eq] at hinner
        obtain ⟨slot, hslot, hinner⟩ := List.mem_flatMap.mp hinner
        obtain rfl | ⟨entry, hvalue, hin⟩ := mem_entryNestings hinner
        · exact .line (.inl rfl)
        · exact .entry (List.mem_filterMap.mpr ⟨slot, hslot, hvalue⟩)
            (ih slot hslot entry hvalue hin)
      · exact .outside _
  | object span properties ih =>
    cases hproperties : properties.isEmpty with
    | true => simp [nestings, hproperties] at h
    | false =>
      simp only [nestings, hproperties, Bool.false_eq_true, if_false, List.mem_append,
        List.mem_map, List.mem_singleton] at h
      obtain ⟨inner, hinner, rfl⟩ | rfl := h
      · rw [propertyNestings_eq] at hinner
        obtain ⟨p, hp, hinner⟩ := List.mem_flatMap.mp hinner
        obtain rfl | ⟨entry, hvalue, hin⟩ := mem_entryNestings hinner
        · exact .line (.inr rfl)
        · exact .entry (List.mem_filterMap.mpr ⟨p, hp, hvalue⟩) (ih p hp entry hvalue hin)
      · exact .outside _

section Depths

variable (stringFunction : String)

/-- The depths of the lines of a value that begins at the given depth. -/
def Value.LinesNested (depth : Nat) (value : Value) : Prop :=
  (value.pieces stringFunction depth).filterMap Piece.depth? =
    value.nestings.map (depth + ·.length)

variable {stringFunction} {depth : Nat}

theorem Slot.pieces_depths {slot : Slot Value}
    (h : ∀ v, slot.value = some v → v.LinesNested stringFunction (depth + 1)) :
    (slot.pieces stringFunction depth).filterMap Piece.depth? =
      (entryNestings slot.value).map (depth + 1 + ·.length) := by
  obtain ⟨value, start, comma⟩ := slot
  cases value with
  | none => simp [pieces, entryNestings, List.filterMap_cons, Piece.depth?]
  | some value =>
    have hvalue := h value rfl
    rw [Value.LinesNested] at hvalue
    simp [pieces, entryNestings, List.filterMap_cons, Piece.depth?, hvalue]

theorem Property.pieces_depths {p : Property Value}
    (h : ∀ v, p.value = some v → v.LinesNested stringFunction (depth + 1)) :
    (p.pieces stringFunction depth).filterMap Piece.depth? =
      (entryNestings p.value).map (depth + 1 + ·.length) := by
  obtain ⟨key, colon, value, comma⟩ := p
  cases value with
  | none =>
    simp [pieces, valueOrUndefined, undefinedValue, Value.pieces, entryNestings,
      List.filterMap_cons, Piece.depth?]
  | some value =>
    have hvalue := h value rfl
    rw [Value.LinesNested] at hvalue
    simp [pieces, valueOrUndefined, entryNestings, List.filterMap_cons, Piece.depth?, hvalue]

/-- The lines of the entries of an array or object, and of the bracket that closes it. -/
theorem bracketed_depths {α : Type} {entries : List α} {pieces : α → List Piece}
    {entry : α → Option Value} (closing : String)
    (h : ∀ x ∈ entries, (pieces x).filterMap Piece.depth? =
      (entryNestings (entry x)).map (depth + 1 + ·.length)) :
    (entries.flatMap pieces ++ [Piece.line depth, .text closing]).filterMap Piece.depth? =
      (entries.flatMap fun x => entryNestings (entry x)).map (depth + 1 + ·.length) ++
        [depth] := by
  have hclosing : [Piece.line depth, .text closing].filterMap Piece.depth? = [depth] := rfl
  rw [List.filterMap_append, hclosing, List.filterMap_flatMap, List.map_flatMap, List.flatMap_def,
    List.flatMap_def, List.map_congr_left h]

end Depths

/-- The depth of a line is the number of arrays and objects around it. -/
theorem Value.linesNested (stringFunction : String) (value : Value) (depth : Nat) :
    value.LinesNested stringFunction depth := by
  induction value using Value.induction generalizing depth with
  | scalar | expression | text =>
    simp [LinesNested, pieces, nestings, List.filterMap_cons, Piece.depth?]
  | array span slots ih =>
    have hslots := bracketed_depths "]" fun slot hslot =>
      Slot.pieces_depths fun v hv => ih slot hslot v hv (depth + 1)
    rw [← slotPieces_eq, ← slotNestings_eq] at hslots
    rw [LinesNested, pieces, nestings]
    split
    · simp [List.filterMap_cons, Piece.depth?]
    · simp [List.filterMap_cons, Piece.depth?, hslots, Nat.add_assoc, Nat.add_comm 1]
  | object span properties ih =>
    have hproperties := bracketed_depths "\x7d" fun p hp =>
      Property.pieces_depths fun v hv => ih p hp v hv (depth + 1)
    rw [← propertyPieces_eq, ← propertyNestings_eq] at hproperties
    rw [LinesNested, pieces, nestings]
    split
    · simp [List.filterMap_cons, Piece.depth?]
    · simp [List.filterMap_cons, Piece.depth?, hproperties, Nat.add_assoc, Nat.add_comm 1]

/-! ### Leaves -/

/-- The code of a leaf or of a key: a literal, an expression, a string and each of its segments, and
the key of a property. -/
def Node.codes (stringFunction : String) : Node → List String
  | identifier i => [i.raw]
  | segment s => s.operands
  | property p => [p.key.code stringFunction]
  | value (.scalar s) => [s.raw]
  | value (.expression e) => [e.code]
  | value (.text t) => [t.code stringFunction]
  | _ => []

theorem infix_intercalate {separator text : String} {texts : List String} (h : text ∈ texts) :
    text.toList <:+: (String.intercalate separator texts).toList := by
  induction texts with
  | nil => simp at h
  | cons first texts ih =>
    cases texts with
    | nil =>
      obtain rfl := List.mem_singleton.mp h
      simp
    | cons second texts =>
      rw [String.intercalate_cons_cons, String.append_assoc, String.toList_append,
        String.toList_append]
      rcases List.mem_cons.mp h with rfl | hrest
      · exact List.infix_append_left
      · exact List.infix_append_of_infix_right (List.infix_append_of_infix_right (ih hrest))

section Leaves

variable {stringFunction code : String}

theorem Text.infix_code {t : Text} {operand : String}
    (h : operand ∈ t.parts.flatMap (TextPart.operands stringFunction)) :
    operand.toList <:+: (t.code stringFunction).toList := by
  rw [Text.code]
  split
  · rename_i hnone
    simp [hnone] at h
  · exact infix_intercalate h

theorem Expression.infix_codeInText (e : Expression) :
    e.code.toList <:+: (e.codeInText stringFunction).toList := by
  rw [codeInText, String.toList_append, String.toList_append]
  exact List.infix_append _ _ _

/-- What a string holds stands in its code. -/
theorem Text.codes_infix {t : Text} {node : Node} (hnode : node ∈ t.nodes)
    (hcode : code ∈ node.codes stringFunction) :
    code.toList <:+: (t.code stringFunction).toList := by
  rcases List.mem_cons.mp hnode with rfl | hpart
  · obtain rfl := List.mem_singleton.mp hcode
    exact List.infix_rfl
  · obtain ⟨part, hmem, rfl⟩ := List.mem_map.mp hpart
    cases part with
    | segment s => exact Text.infix_code (List.mem_flatMap.mpr ⟨.segment s, hmem, hcode⟩)
    | expression e =>
      obtain rfl := List.mem_singleton.mp hcode
      have hoperand : e.codeInText stringFunction ∈
          (TextPart.expression e).operands stringFunction := List.mem_singleton_self _
      exact e.infix_codeInText.trans
        (Text.infix_code (List.mem_flatMap.mpr ⟨.expression e, hmem, hoperand⟩))

theorem infix_bracketed (code : String) : code.toList <:+: ("[" ++ code ++ "]").toList := by
  rw [String.toList_append, String.toList_append]
  exact List.infix_append _ _ _

/-- What a key holds stands in its code. -/
theorem Key.codes_infix {key : Key} {node : Node} (hnode : node ∈ key.nodes)
    (hcode : code ∈ node.codes stringFunction) :
    code.toList <:+: (key.code stringFunction).toList := by
  cases key with
  | identifier i =>
    obtain rfl := List.mem_singleton.mp hnode
    obtain rfl := List.mem_singleton.mp hcode
    exact List.infix_rfl
  | expression e =>
    obtain rfl := List.mem_singleton.mp hnode
    obtain rfl := List.mem_singleton.mp hcode
    exact infix_bracketed e.code
  | text t =>
    have htext := Text.codes_infix hnode hcode
    rw [Key.code]
    split
    · exact htext.trans (infix_bracketed _)
    · exact htext

/-- The code of every leaf and key stands in one text of the code of a value. -/
theorem Value.exists_text {value : Value} {node : Node} (hnode : node ∈ value.nodes)
    (hcode : code ∈ node.codes stringFunction) (depth : Nat) :
    ∃ text, .text text ∈ value.pieces stringFunction depth ∧ code.toList <:+: text.toList := by
  induction value using Value.induction generalizing depth with
  | scalar s =>
    obtain rfl := List.mem_singleton.mp (by simpa [nodes] using hnode)
    obtain rfl := List.mem_singleton.mp hcode
    exact ⟨s.raw, by simp [pieces], List.infix_rfl⟩
  | expression e =>
    obtain rfl := List.mem_singleton.mp (by simpa [nodes] using hnode)
    obtain rfl := List.mem_singleton.mp hcode
    exact ⟨e.code, by simp [pieces], List.infix_rfl⟩
  | text t =>
    rw [nodes] at hnode
    exact ⟨t.code stringFunction, by simp [pieces], Text.codes_infix hnode hcode⟩
  | array span slots ih =>
    rw [nodes, slotNodes_eq] at hnode
    rcases List.mem_cons.mp hnode with rfl | hnode
    · simp [Node.codes] at hcode
    · obtain ⟨entry, hentry, hnode⟩ := List.mem_flatMap.mp hnode
      obtain ⟨slot, hslot, hvalue⟩ := List.mem_filterMap.mp hentry
      obtain ⟨text, htext, hin⟩ := ih slot hslot entry hvalue hnode (depth + 1)
      have hpieces : .text text ∈ slot.pieces stringFunction depth := by
        simp [Slot.pieces, hvalue, htext]
      refine ⟨text, ?_, hin⟩
      rw [pieces, if_neg (by simp [List.ne_nil_of_mem hslot]), slotPieces_eq]
      exact List.mem_cons_of_mem _
        (List.mem_append_left _ (List.mem_flatMap.mpr ⟨slot, hslot, hpieces⟩))
  | object span properties ih =>
    rw [nodes, propertyNodes_eq] at hnode
    rcases List.mem_cons.mp hnode with rfl | hnode
    · simp [Node.codes] at hcode
    · obtain ⟨p, hp, hnode⟩ := List.mem_flatMap.mp hnode
      have hpieces {text : String} (htext : .text text ∈ p.pieces stringFunction depth) :
          .text text ∈ (object span properties).pieces stringFunction depth := by
        rw [pieces, if_neg (by simp [List.ne_nil_of_mem hp]), propertyPieces_eq]
        exact List.mem_cons_of_mem _ (List.mem_append_left _ (List.mem_flatMap.mpr ⟨p, hp, htext⟩))
      have hkey (h : code.toList <:+: (p.key.code stringFunction).toList) :
          ∃ text, .text text ∈ (object span properties).pieces stringFunction depth ∧
            code.toList <:+: text.toList := by
        refine ⟨_, hpieces (List.mem_cons_of_mem _ List.mem_cons_self), ?_⟩
        rw [String.toList_append]
        exact List.infix_append_of_infix_left h
      rcases List.mem_cons.mp hnode with rfl | hnode
      · obtain rfl := List.mem_singleton.mp hcode
        exact hkey List.infix_rfl
      rcases List.mem_append.mp hnode with hnode | hnode
      · exact hkey (Key.codes_infix hnode hcode)
      · obtain ⟨entry, hentry, hnode⟩ := List.mem_flatMap.mp hnode
        have hvalue : p.value = some entry := by simpa using hentry
        obtain ⟨text, htext, hin⟩ := ih p hp entry hvalue hnode (depth + 1)
        refine ⟨text, hpieces ?_, hin⟩
        simp [Property.pieces, Property.valueOrUndefined, hvalue, htext]

end Leaves

/-! ### Layouts -/

/-- Code under all layouts.  Whatever the host makes of the expressions of a value, the code of the
value is a text and the same lines behind it under every choice of layout.  A line is as deep as the
number of arrays and objects around it, and the code of every leaf and key stands whole in the first
text or in one line. -/
theorem generate_layouts (host : Processor τ) (value : Value) (state : τ)
    (stringFunction : String) : ∃ (first : String) (lines : List (Nat × String)),
      (∀ options : RenderOptions, options.stringFunction = stringFunction →
        (value.generate options host [] "" state).1 = options.layout.setLines first lines ∧
        (value.process host [] state).1.render options = options.layout.setLines first lines) ∧
      lines.map Prod.fst = (value.process host [] state).1.nestings.map List.length ∧
      (∀ around ∈ (value.process host [] state).1.nestings,
        (value.process host [] state).1.Nested around) ∧
      ∀ node ∈ (value.process host [] state).1.nodes, ∀ code ∈ node.codes stringFunction,
        ∃ chunk ∈ first :: lines.map Prod.snd, code.toList <:+: chunk.toList := by
  generalize hmade : (value.process host [] state).1 = made
  refine ⟨(chunks (made.pieces stringFunction 0)).1, (chunks (made.pieces stringFunction 0)).2,
    ?_, ?_, ?_, ?_⟩
  · rintro options rfl
    have hrender : made.render options = options.layout.setLines
        (chunks (made.pieces options.stringFunction 0)).1
        (chunks (made.pieces options.stringFunction 0)).2 := writeAll_eq_setLines _ _
    rw [Value.generate_render, hmade]
    exact ⟨hrender, hrender⟩
  · have hdepths := made.linesNested stringFunction 0
    rw [chunks_depths]
    simpa [Value.LinesNested] using hdepths
  · exact fun around haround => Value.nested_of_mem_nestings haround
  · intro node hnode code hcode
    obtain ⟨text, htext, hin⟩ := Value.exists_text hnode hcode 0
    obtain ⟨chunk, hchunk, hwhole⟩ := exists_chunk htext
    exact ⟨chunk, hchunk, hin.trans hwhole⟩

end DataTemplate
