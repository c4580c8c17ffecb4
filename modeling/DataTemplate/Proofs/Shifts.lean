/-
Trees moved along their text.  A tree that was read in one text stands in another, longer text as the
same tree with all of its positions moved; and so do arrays and objects under construction.  A string
is settled if none of its braces could open an expression in a longer text.  Main statements:
`Value.erase_shift`, `SlotDraft.finish_shift` and `PropertyDraft.properties_shift`.
-/
import DataTemplate.Proofs.Drafts
import DataTemplate.Proofs.Forms

namespace DataTemplate

variable {σ τ : Type}

/-! ### Trees -/

/-- The span `k` bytes further on. -/
def Span.shift (k : Nat) (span : Span) : Span := ⟨span.start + k, span.stop + k⟩

/-- A scalar `k` bytes further on. -/
def Scalar.shift (k : Nat) (s : Scalar) : Scalar := { s with span := s.span.shift k }

/-- An identifier `k` bytes further on. -/
def Identifier.shift (k : Nat) (i : Identifier) : Identifier := { i with span := i.span.shift k }

/-- An expression `k` bytes further on. -/
def Expression.shift (k : Nat) (e : Expression) : Expression := { e with start := e.start + k }

/-- A segment `k` bytes further on. -/
def Segment.shift (k : Nat) (s : Segment) : Segment := { s with span := s.span.shift k }

/-- The parts of a string after its first segment, `k` bytes further on. -/
def shiftMore (k : Nat) (more : List (Expression × Segment)) : List (Expression × Segment) :=
  more.map fun (e, s) => (e.shift k, s.shift k)

/-- A string `k` bytes further on. -/
def Text.shift (k : Nat) (t : Text) : Text :=
  ⟨t.span.shift k, t.quote, t.first.shift k, shiftMore k t.more⟩

/-- A key `k` bytes further on. -/
def Key.shift (k : Nat) : Key → Key
  | text t => .text (t.shift k)
  | expression e => .expression (e.shift k)
  | identifier i => .identifier (i.shift k)

mutual

/-- A value `k` bytes further on. -/
def Value.shift (k : Nat) : Value → Value
  | .scalar s => .scalar (s.shift k)
  | .expression e => .expression (e.shift k)
  | .text t => .text (t.shift k)
  | .array span slots => .array (span.shift k) (shiftSlots k slots)
  | .object span properties => .object (span.shift k) (shiftProperties k properties)

/-- Some slots `k` bytes further on. -/
def shiftSlots (k : Nat) : List (Slot Value) → List (Slot Value)
  | [] => []
  | ⟨some value, start, comma⟩ :: slots =>
    ⟨some (value.shift k), start + k, comma.map (· + k)⟩ :: shiftSlots k slots
  | ⟨none, start, comma⟩ :: slots => ⟨none, start + k, comma.map (· + k)⟩ :: shiftSlots k slots

/-- Some properties `k` bytes further on. -/
def shiftProperties (k : Nat) : List (Property Value) → List (Property Value)
  | [] => []
  | ⟨key, colon, some value, comma⟩ :: properties =>
    ⟨key.shift k, colon.map (· + k), some (value.shift k), comma.map (· + k)⟩ ::
      shiftProperties k properties
  | ⟨key, colon, none, comma⟩ :: properties =>
    ⟨key.shift k, colon.map (· + k), none, comma.map (· + k)⟩ :: shiftProperties k properties

end

/-- A slot `k` bytes further on. -/
def Slot.shift (k : Nat) (slot : Slot Value) : Slot Value :=
  ⟨slot.value.map (Value.shift k), slot.start + k, slot.comma.map (· + k)⟩

/-- A property `k` bytes further on. -/
def Property.shift (k : Nat) (p : Property Value) : Property Value :=
  ⟨p.key.shift k, p.colon.map (· + k), p.value.map (Value.shift k), p.comma.map (· + k)⟩

variable {k : Nat}

theorem shiftSlots_eq (slots : List (Slot Value)) :
    shiftSlots k slots = slots.map (Slot.shift k) := by
  induction slots with
  | nil => simp [shiftSlots]
  | cons slot slots ih =>
    obtain ⟨value, start, comma⟩ := slot
    cases value with
    | none => simp [shiftSlots, Slot.shift, ih]
    | some value => simp [shiftSlots, Slot.shift, ih]

theorem shiftProperties_eq (properties : List (Property Value)) :
    shiftProperties k properties = properties.map (Property.shift k) := by
  induction properties with
  | nil => simp [shiftProperties]
  | cons property properties ih =>
    obtain ⟨key, colon, value, comma⟩ := property
    cases value with
    | none => simp [shiftProperties, Property.shift, ih]
    | some value => simp [shiftProperties, Property.shift, ih]

@[simp] theorem Expression.span_shift (e : Expression) :
    (e.shift k).span = e.span.shift k := by
  simp only [Expression.span, Expression.bodySpan, Expression.shift, Span.shift, Span.mk.injEq,
    true_and]
  omega

theorem Value.span_shift (value : Value) : (value.shift k).span = value.span.shift k := by
  cases value with
  | scalar | text | array | object => simp only [shift]; rfl
  | expression e => simp only [shift, span, Expression.span_shift]

/-! ### Positions erased -/

theorem eraseMark_shift (mark : Option Nat) : eraseMark (mark.map (· + k)) = eraseMark mark := by
  cases mark <;> rfl

theorem Text.erase_shift (t : Text) : (t.shift k).erase = t.erase := by
  simp only [shift, erase, shiftMore, List.map_map]
  rfl

theorem Key.erase_shift (key : Key) : (key.shift k).erase = key.erase := by
  cases key with
  | text t => simp only [shift, erase, Text.erase_shift]
  | expression | identifier => rfl

mutual

/-- A tree that is moved is the same tree but for its positions. -/
theorem Value.erase_shift : ∀ value : Value, (value.shift k).erase = value.erase
  | .scalar _ => by simp only [Value.shift, Value.erase]; rfl
  | .expression _ => by simp only [Value.shift, Value.erase]; rfl
  | .text t => by simp only [Value.shift, Value.erase, Text.erase_shift]
  | .array _ slots => by simp only [Value.shift, Value.erase, eraseSlots_shift slots]
  | .object _ properties => by
    simp only [Value.shift, Value.erase, eraseProperties_shift properties]

theorem eraseSlots_shift : ∀ slots, eraseSlots (shiftSlots k slots) = eraseSlots slots
  | [] => by simp only [shiftSlots]
  | ⟨some value, _, comma⟩ :: slots => by
    simp [shiftSlots, eraseSlots, eraseMark_shift, Value.erase_shift value, eraseSlots_shift slots]
  | ⟨none, _, comma⟩ :: slots => by
    simp [shiftSlots, eraseSlots, eraseMark_shift, eraseSlots_shift slots]

theorem eraseProperties_shift :
    ∀ properties, eraseProperties (shiftProperties k properties) = eraseProperties properties
  | [] => by simp only [shiftProperties]
  | ⟨key, colon, some value, comma⟩ :: properties => by
    simp [shiftProperties, eraseProperties, eraseMark_shift, Key.erase_shift,
      Value.erase_shift value, eraseProperties_shift properties]
  | ⟨key, colon, none, comma⟩ :: properties => by
    simp [shiftProperties, eraseProperties, eraseMark_shift, Key.erase_shift,
      eraseProperties_shift properties]

end

/-! ### Drafts -/

namespace SlotDraft

/-- An array under construction, `k` bytes further on. -/
def shift (k : Nat) (draft : SlotDraft) : SlotDraft :=
  ⟨draft.closed.map (Slot.shift k), draft.current.map (Slot.shift k)⟩

theorem shift_empty : shift k {} = {} := by simp [shift]

theorem awaitsValue_shift (draft : SlotDraft) :
    (draft.shift k).awaitsValue = draft.awaitsValue := by
  cases hcurrent : draft.current with
  | none => simp [awaitsValue, shift, hcurrent]
  | some slot => simp [awaitsValue, shift, hcurrent, Slot.shift]

theorem currentAt_shift (draft : SlotDraft) (position : Nat) :
    (draft.shift k).currentAt (position + k) = (draft.currentAt position).shift k := by
  cases hcurrent : draft.current with
  | none => simp [currentAt, shift, hcurrent, Slot.shift]
  | some slot => simp [currentAt, shift, hcurrent]

theorem comma_shift (draft : SlotDraft) (position : Nat) :
    (draft.shift k).comma (position + k) = (draft.comma position).shift k := by
  have hcurrent := draft.currentAt_shift (k := k) position
  rw [comma, hcurrent]
  simp [comma, shift, Slot.shift, Nat.add_right_comm]

theorem fill_shift (draft : SlotDraft) (value : Value) :
    (draft.shift k).fill (value.shift k) = (draft.fill value).shift k := by
  have hcurrent := draft.currentAt_shift (k := k) value.span.start
  have hstart : (value.shift k).span.start = value.span.start + k := by
    rw [Value.span_shift]
    rfl
  rw [fill, hstart, hcurrent]
  rfl

theorem slots_shift (draft : SlotDraft) :
    (draft.shift k).slots = draft.slots.map (Slot.shift k) := by
  cases hcurrent : draft.current <;> simp [slots, shift, hcurrent]

theorem finish_shift (draft : SlotDraft) :
    (draft.shift k).finish = draft.finish.map (Slot.shift k) := by
  rw [finish, slots_shift, awaitsValue_shift, List.length_map, finish]
  split
  · rw [List.map_dropLast]
  · rfl

end SlotDraft

namespace PropertyDraft

/-- An object under construction, `k` bytes further on. -/
def shift (k : Nat) (draft : PropertyDraft) : PropertyDraft :=
  ⟨draft.finished.map (Property.shift k), draft.current.map (Property.shift k), draft.awaited⟩

theorem shift_empty : shift k {} = {} := by simp [shift]

theorem flush_shift (draft : PropertyDraft) (s : Session σ) (t : Session τ) :
    ((draft.shift k).flush s).1 = (draft.flush t).1.shift k := by
  cases hcurrent : draft.current <;> simp [flush, shift, hcurrent]

theorem begin_shift (draft : PropertyDraft) (key : Key) (s : Session σ) (t : Session τ) :
    ((draft.shift k).begin (key.shift k) s).1 = (draft.begin key t).1.shift k := by
  simp only [begin, draft.flush_shift (k := k) s t]
  rfl

theorem colon_shift (draft : PropertyDraft) (position : Nat) :
    (draft.shift k).colon (position + k) = (draft.colon position).shift k := by
  cases hcurrent : draft.current <;> simp [colon, modify, shift, hcurrent, Property.shift]

theorem fill_shift (draft : PropertyDraft) (value : Value) :
    (draft.shift k).fill (value.shift k) = (draft.fill value).shift k := by
  cases hcurrent : draft.current <;> simp [fill, modify, shift, hcurrent, Property.shift]

theorem comma_shift (draft : PropertyDraft) (position : Nat) :
    (draft.shift k).comma (position + k) = (draft.comma position).shift k := by
  cases hcurrent : draft.current <;> simp [comma, modify, shift, hcurrent, Property.shift]

theorem properties_shift (draft : PropertyDraft) :
    (draft.shift k).properties = draft.properties.map (Property.shift k) := by
  cases hcurrent : draft.current <;> simp [properties, shift, hcurrent]

end PropertyDraft

/-! ### Settled strings -/

/-- Whether two braces in a row, the first not behind a backslash, stand in some static text. -/
def bracesOpen : List Char → Bool
  | [] => false
  | c :: cs =>
    if c = '\\' then
      match cs with
      | [] => false
      | _ :: ds => bracesOpen ds
    else (c == '{' && cs.head? == some '{') || bracesOpen cs

/-- Whether no brace in the static parts of a string could open an expression if more text came
after it.  A brace right before an expression belongs to its opening. -/
def partsSettled (first : Segment) : List (Expression × Segment) → Bool
  | [] => !bracesOpen first.raw.toList
  | (_, next) :: more => !bracesOpen (first.raw.toList ++ ['{']) && partsSettled next more

/-- Whether a string reads the same whatever text it stands in. -/
def Text.settled (t : Text) : Bool := partsSettled t.first t.more

/-- Whether a node is no unsettled string. -/
def Node.settled : Node → Bool
  | value (.text t) => t.settled
  | _ => true

/-- Whether all strings of a value are settled, those of keys included. -/
def Value.settled (value : Value) : Bool := value.nodes.all Node.settled

/-- Whether a key is no unsettled string. -/
def Key.settled (key : Key) : Bool := key.nodes.all Node.settled

theorem bracesOpen_append {xs ys : List Char} (hxs : isStatic [] xs = true)
    (hys : bracesOpen ys = true) : bracesOpen (xs ++ ys) = true := by
  fun_induction isStatic [] xs with
  | case1 => exact hys
  | case2 => simp at hxs
  | case3 d ds ih => simpa [bracesOpen] using ih hxs
  | case4 c cs hc ih =>
    have hcs : isStatic [] cs = true := by simpa using hxs
    rw [List.cons_append, bracesOpen.eq_def]
    simp [hc, ih hcs]

theorem Text.settled_nodes (t : Text) : t.nodes.all Node.settled = t.settled := by
  have hparts : (t.parts.map TextPart.node).all Node.settled = true := by
    simp only [List.all_map, List.all_eq_true]
    intro part _
    cases part <;> rfl
  rw [Text.nodes, List.all_cons, hparts, Bool.and_true]
  rfl

theorem Value.settled_text (t : Text) : (Value.text t).settled = t.settled := by
  rw [settled, nodes, Text.settled_nodes]

theorem Key.settled_text (t : Text) : (Key.text t).settled = t.settled := by
  rw [settled, nodes, Text.settled_nodes]

theorem Value.settled_array {span : Span} {slots : List (Slot Value)} :
    (Value.array span slots).settled = true ↔ ∀ v ∈ slotValues slots, v.settled = true := by
  simp [settled, nodes, slotNodes_eq, Node.settled, List.all_flatMap]

/-- Whether the key and the value of a property are settled. -/
def Property.settled (p : Property Value) : Prop :=
  p.key.settled = true ∧ ∀ value, p.value = some value → value.settled = true

theorem Value.settled_object {span : Span} {properties : List (Property Value)} :
    (Value.object span properties).settled = true ↔ ∀ p ∈ properties, p.settled := by
  have hproperty (p : Property Value) : p.nodes.all Node.settled = true ↔ p.settled := by
    cases hvalue : p.value <;>
      simp [Property.nodes, Property.settled, Key.settled, settled, hvalue, Node.settled]
  simp only [settled, nodes, propertyNodes_eq, List.all_cons, List.all_flatMap, Node.settled,
    Bool.true_and, List.all_eq_true (p := fun p => List.all _ _), hproperty]

example : bracesOpen ['a', '{', '{'] ∧ ¬ bracesOpen ['\\', '{', '{', 'b', '{'] := by decide

end DataTemplate
