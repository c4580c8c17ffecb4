/-
Trees with their expressions replaced.  A function of expressions is applied to every expression of
a tree, wherever it stands: as a value, as a computed key, or as a part of a string.
Main statements: `Value.expressions_mapExpressions`, `Value.mapExpressions_mapExpressions` and
`Value.mapExpressions_eq_self`.
-/
import DataTemplate.Proofs.Preorder
import DataTemplate.Reading.Document
import Mathlib.Data.List.Basic

namespace DataTemplate

/-! ### Replacing the expressions of a tree -/

section Definitions

variable (f : Expression → Expression)

/-- The parts of a string after its first segment, with `f` applied to the expressions. -/
def mapMore (more : List (Expression × Segment)) : List (Expression × Segment) :=
  more.map fun (e, s) => (f e, s)

/-- A string with `f` applied to its expressions. -/
def Text.mapExpressions (t : Text) : Text := { t with more := mapMore f t.more }

/-- A key with `f` applied to its expressions. -/
def Key.mapExpressions : Key → Key
  | text t => .text (t.mapExpressions f)
  | expression e => .expression (f e)
  | identifier i => .identifier i

mutual

/-- A value with `f` applied to its expressions. -/
def Value.mapExpressions : Value → Value
  | .scalar s => .scalar s
  | .expression e => .expression (f e)
  | .text t => .text (t.mapExpressions f)
  | .array span slots => .array span (mapSlots slots)
  | .object span properties => .object span (mapProperties properties)

/-- Some slots with `f` applied to the expressions. -/
def mapSlots : List (Slot Value) → List (Slot Value)
  | [] => []
  | ⟨some value, start, comma⟩ :: slots =>
    ⟨some value.mapExpressions, start, comma⟩ :: mapSlots slots
  | ⟨none, start, comma⟩ :: slots => ⟨none, start, comma⟩ :: mapSlots slots

/-- Some properties with `f` applied to the expressions. -/
def mapProperties : List (Property Value) → List (Property Value)
  | [] => []
  | ⟨key, colon, some value, comma⟩ :: properties =>
    ⟨key.mapExpressions f, colon, some value.mapExpressions, comma⟩ :: mapProperties properties
  | ⟨key, colon, none, comma⟩ :: properties =>
    ⟨key.mapExpressions f, colon, none, comma⟩ :: mapProperties properties

end

/-- A slot with `f` applied to its expressions. -/
def Slot.mapExpressions (slot : Slot Value) : Slot Value :=
  { slot with value := slot.value.map (Value.mapExpressions f) }

/-- A property with `f` applied to its expressions. -/
def Property.mapExpressions (p : Property Value) : Property Value :=
  { p with key := p.key.mapExpressions f, value := p.value.map (Value.mapExpressions f) }

/-- A document with `f` applied to its expressions, in the tree and in the registry. -/
def Document.mapExpressions (document : Document) : Document :=
  { document with
    root := document.root.map (Value.mapExpressions f)
    expressions := document.expressions.map f }

end Definitions

variable {f g : Expression → Expression}

theorem mapSlots_eq (slots : List (Slot Value)) :
    mapSlots f slots = slots.map (Slot.mapExpressions f) := by
  induction slots with
  | nil => simp [mapSlots]
  | cons slot slots ih =>
    obtain ⟨value, start, comma⟩ := slot
    cases value with
    | none => simp [mapSlots, Slot.mapExpressions, ih]
    | some value => simp [mapSlots, Slot.mapExpressions, ih]

theorem mapProperties_eq (properties : List (Property Value)) :
    mapProperties f properties = properties.map (Property.mapExpressions f) := by
  induction properties with
  | nil => simp [mapProperties]
  | cons property properties ih =>
    obtain ⟨key, colon, value, comma⟩ := property
    cases value with
    | none => simp [mapProperties, Property.mapExpressions, ih]
    | some value => simp [mapProperties, Property.mapExpressions, ih]

/-! ### Laws -/

theorem slotValues_mapExpressions (slots : List (Slot Value)) :
    slotValues (slots.map (Slot.mapExpressions f)) =
      (slotValues slots).map (Value.mapExpressions f) := by
  simp only [slotValues, List.filterMap_map, List.map_filterMap]
  rfl

theorem Text.expressions_mapExpressions (t : Text) :
    (t.mapExpressions f).more.map Prod.fst = (t.more.map Prod.fst).map f := by
  simp [mapExpressions, mapMore]

theorem Key.expressions_mapExpressions (key : Key) :
    (key.mapExpressions f).expressions = key.expressions.map f := by
  cases key with
  | text t => simp only [mapExpressions, expressions_text, Text.expressions_mapExpressions]
  | expression | identifier => rfl

/-- The expressions of the new tree are the replaced expressions of the old one, in its order. -/
theorem Value.expressions_mapExpressions (value : Value) :
    (value.mapExpressions f).expressions = value.expressions.map f := by
  induction value using Value.induction with
  | scalar s => simp [mapExpressions, expressions_scalar]
  | expression e => simp [mapExpressions, expressions_expression]
  | text t => simp only [mapExpressions, expressions_text, Text.expressions_mapExpressions]
  | array span slots ih =>
    have hvalues : ∀ value ∈ slotValues slots,
        (value.mapExpressions f).expressions = value.expressions.map f := by
      intro value hvalue
      obtain ⟨slot, hslot, hvalue⟩ := List.mem_filterMap.mp hvalue
      exact ih slot hslot value hvalue
    simp only [mapExpressions, mapSlots_eq, expressions_array, slotValues_mapExpressions,
      List.flatMap_map, List.map_flatMap]
    exact List.flatMap_congr hvalues
  | object span properties ih =>
    have hproperties : ∀ p ∈ properties,
        (p.mapExpressions f).expressions = p.expressions.map f := by
      intro p hp
      cases hvalue : p.value with
      | none =>
        simp [Property.expressions, Property.mapExpressions, Key.expressions_mapExpressions,
          hvalue]
      | some value =>
        simp [Property.expressions, Property.mapExpressions, Key.expressions_mapExpressions,
          hvalue, ih p hp value hvalue]
    simp only [mapExpressions, mapProperties_eq, expressions_object, List.flatMap_map,
      List.map_flatMap]
    exact List.flatMap_congr hproperties

theorem Text.mapExpressions_mapExpressions (t : Text) :
    (t.mapExpressions f).mapExpressions g = t.mapExpressions (g ∘ f) := by
  simp [mapExpressions, mapMore]

theorem Key.mapExpressions_mapExpressions (key : Key) :
    (key.mapExpressions f).mapExpressions g = key.mapExpressions (g ∘ f) := by
  cases key with
  | text t => simp only [mapExpressions, Text.mapExpressions_mapExpressions]
  | expression | identifier => rfl

theorem Value.mapExpressions_mapExpressions (value : Value) :
    (value.mapExpressions f).mapExpressions g = value.mapExpressions (g ∘ f) := by
  induction value using Value.induction with
  | scalar s => simp [mapExpressions]
  | expression e => simp [mapExpressions]
  | text t => simp only [mapExpressions, Text.mapExpressions_mapExpressions]
  | array span slots ih =>
    simp only [mapExpressions, mapSlots_eq, List.map_map, array.injEq, true_and]
    refine List.map_congr_left fun slot hslot => ?_
    cases hvalue : slot.value with
    | none => simp [Slot.mapExpressions, hvalue]
    | some value => simp [Slot.mapExpressions, hvalue, ih slot hslot value hvalue]
  | object span properties ih =>
    simp only [mapExpressions, mapProperties_eq, List.map_map, object.injEq, true_and]
    refine List.map_congr_left fun p hp => ?_
    cases hvalue : p.value with
    | none => simp [Property.mapExpressions, Key.mapExpressions_mapExpressions, hvalue]
    | some value =>
      simp [Property.mapExpressions, Key.mapExpressions_mapExpressions, hvalue,
        ih p hp value hvalue]

theorem Text.mapExpressions_eq_self {t : Text} (h : ∀ e ∈ t.more.map Prod.fst, f e = e) :
    t.mapExpressions f = t := by
  have hmore : mapMore f t.more = t.more := by
    refine (List.map_congr_left fun (e, s) hpart => ?_).trans (List.map_id _)
    exact congrArg (·, s) (h e (List.mem_map_of_mem hpart))
  rw [mapExpressions, hmore]

theorem Key.mapExpressions_eq_self {key : Key} (h : ∀ e ∈ key.expressions, f e = e) :
    key.mapExpressions f = key := by
  cases key with
  | text t =>
    rw [expressions_text] at h
    simp only [mapExpressions, Text.mapExpressions_eq_self h]
  | expression e => simp only [mapExpressions, h e (List.mem_singleton_self e)]
  | identifier => rfl

/-- A function that keeps the expressions of a tree keeps the tree. -/
theorem Value.mapExpressions_eq_self {value : Value} (h : ∀ e ∈ value.expressions, f e = e) :
    value.mapExpressions f = value := by
  induction value using Value.induction with
  | scalar s => simp [mapExpressions]
  | expression e =>
    simp only [expressions_expression, List.forall_mem_singleton] at h
    simp only [mapExpressions, h]
  | text t =>
    rw [expressions_text] at h
    simp only [mapExpressions, Text.mapExpressions_eq_self h]
  | array span slots ih =>
    rw [expressions_array, List.forall_mem_flatMap] at h
    simp only [mapExpressions, mapSlots_eq, array.injEq, true_and]
    refine (List.map_congr_left fun slot hslot => ?_).trans (List.map_id _)
    obtain ⟨value, start, comma⟩ := slot
    cases value with
    | none => rfl
    | some value =>
      have hmem : value ∈ slotValues slots := List.mem_filterMap.mpr ⟨_, hslot, rfl⟩
      simp [Slot.mapExpressions, ih _ hslot value rfl (h value hmem)]
  | object span properties ih =>
    rw [expressions_object, List.forall_mem_flatMap] at h
    simp only [mapExpressions, mapProperties_eq, object.injEq, true_and]
    refine (List.map_congr_left fun p hp => ?_).trans (List.map_id _)
    obtain ⟨key, colon, value, comma⟩ := p
    have hkey : ∀ e ∈ key.expressions, f e = e :=
      fun e he => h _ hp e (List.mem_append_left _ he)
    cases value with
    | none => simp [Property.mapExpressions, Key.mapExpressions_eq_self hkey]
    | some value =>
      have hvalue : ∀ e ∈ value.expressions, f e = e :=
        fun e he => h _ hp e (List.mem_append_right _ (by simpa using he))
      simp [Property.mapExpressions, Key.mapExpressions_eq_self hkey, ih _ hp value rfl hvalue]

theorem Document.mapExpressions_mapExpressions (document : Document) :
    (document.mapExpressions f).mapExpressions g = document.mapExpressions (g ∘ f) := by
  have hroot : Value.mapExpressions g ∘ Value.mapExpressions f = Value.mapExpressions (g ∘ f) :=
    funext Value.mapExpressions_mapExpressions
  simp only [mapExpressions, Option.map_map, List.map_map, hroot]

theorem Document.mapExpressions_eq_self {document : Document}
    (htree : ∀ root, document.root = some root → ∀ e ∈ root.expressions, f e = e)
    (hregistry : ∀ e ∈ document.expressions, f e = e) : document.mapExpressions f = document := by
  have hroot : document.root.map (Value.mapExpressions f) = document.root := by
    cases hvalue : document.root with
    | none => rfl
    | some root => exact congrArg some (Value.mapExpressions_eq_self (htree root hvalue))
  have hexpressions : document.expressions.map f = document.expressions :=
    (List.map_congr_left hregistry).trans (List.map_id _)
  rw [mapExpressions, hroot, hexpressions]

end DataTemplate
