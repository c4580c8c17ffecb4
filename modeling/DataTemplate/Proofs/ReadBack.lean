/-
Code of static values is read back.  The code of a value without expressions is a document again, in
every layout that is made of white space.  Its tree is that of the value, but for positions, quotes
and escapes, for missing values, which are `undefined`, and for commas and colons, which code writes
everywhere.  Main statement: `parse_render`.
-/
import Mathlib.Data.List.Infix
import DataTemplate.Proofs.Code
import DataTemplate.Proofs.Composites
import DataTemplate.Proofs.Spellings

namespace DataTemplate

variable {σ : Type}

/-! ### Static values -/

/-- A value whose code says all that it says: no expression, no array of exactly one slot, and no
string with two opening braces in a row. -/
structure Value.Static (value : Value) : Prop where
  no_expression : value.expressions = []
  no_single : ∀ span slots, Node.value (.array span slots) ∈ value.nodes → slots.length ≠ 1
  no_opening : ∀ t, Node.value (.text t) ∈ value.nodes →
    ¬ ['{', '{'] <:+: unescape t.first.raw.toList

/-- A key whose code says all that it says. -/
structure Key.Static (key : Key) : Prop where
  no_expression : key.expressions = []
  no_opening : ∀ t, Node.value (.text t) ∈ key.nodes →
    ¬ ['{', '{'] <:+: unescape t.first.raw.toList

/-- Whether a node, other than an expression, may be in a static value. -/
def Node.mayBeStatic : Node → Bool
  | value (.array _ slots) => slots.length != 1
  | value (.text t) => !decide (['{', '{'] <:+: unescape t.first.raw.toList)
  | _ => true

theorem Value.static_iff (value : Value) :
    value.Static ↔ value.expressions = [] ∧ value.nodes.all Node.mayBeStatic = true := by
  rw [List.all_eq_true]
  constructor
  · rintro ⟨hexpression, hsingle, hopening⟩
    refine ⟨hexpression, fun node hnode => ?_⟩
    unfold Node.mayBeStatic
    split
    · simpa using hsingle _ _ hnode
    · simpa using hopening _ hnode
    · rfl
  · rintro ⟨hexpression, hnodes⟩
    refine ⟨hexpression, fun span slots hnode => ?_, fun t hnode => ?_⟩
    · simpa [Node.mayBeStatic] using hnodes _ hnode
    · simpa [Node.mayBeStatic] using hnodes _ hnode

instance (value : Value) : Decidable value.Static := decidable_of_iff' _ value.static_iff

section Parts

variable {span : Span} {slots : List (Slot Value)} {properties : List (Property Value)}

theorem Value.nodes_of_slot {slot : Slot Value} (hslot : slot ∈ slots) {value : Value}
    (hvalue : slot.value = some value) {node : Node} (hnode : node ∈ value.nodes) :
    node ∈ (array span slots).nodes := by
  rw [nodes, slotNodes_eq]
  have hmem : value ∈ slotValues slots := List.mem_filterMap.mpr ⟨slot, hslot, hvalue⟩
  exact List.mem_cons_of_mem _ (List.mem_flatMap.mpr ⟨value, hmem, hnode⟩)

theorem Value.nodes_of_property {p : Property Value} (hp : p ∈ properties) {node : Node}
    (hnode : node ∈ p.nodes) : node ∈ (object span properties).nodes := by
  rw [nodes, propertyNodes_eq]
  exact List.mem_cons_of_mem _ (List.mem_flatMap.mpr ⟨p, hp, hnode⟩)

theorem Property.nodes_of_key {p : Property Value} {node : Node} (hnode : node ∈ p.key.nodes) :
    node ∈ p.nodes := by
  simp [nodes, hnode]

theorem Property.nodes_of_value {p : Property Value} {value : Value} (hvalue : p.value = some value)
    {node : Node} (hnode : node ∈ value.nodes) : node ∈ p.nodes := by
  simp [nodes, hvalue, hnode]

theorem Value.Static.slot (h : (array span slots).Static) {slot : Slot Value} (hslot : slot ∈ slots)
    {value : Value} (hvalue : slot.value = some value) : value.Static where
  no_expression := by
    have hmem : value ∈ slotValues slots := List.mem_filterMap.mpr ⟨slot, hslot, hvalue⟩
    exact List.flatMap_eq_nil_iff.mp (expressions_array span slots ▸ h.no_expression) value hmem
  no_single _ _ hnode := h.no_single _ _ (nodes_of_slot hslot hvalue hnode)
  no_opening _ hnode := h.no_opening _ (nodes_of_slot hslot hvalue hnode)

theorem Property.no_expression (h : (Value.object span properties).Static) {p : Property Value}
    (hp : p ∈ properties) :
    p.key.expressions = [] ∧ p.value.toList.flatMap Value.expressions = [] :=
  List.append_eq_nil_iff.mp (List.flatMap_eq_nil_iff.mp
    (Value.expressions_object span properties ▸ h.no_expression) p hp)

theorem Value.Static.key (h : (object span properties).Static) {p : Property Value}
    (hp : p ∈ properties) : p.key.Static where
  no_expression := (Property.no_expression h hp).1
  no_opening _ hnode := h.no_opening _ (nodes_of_property hp (Property.nodes_of_key hnode))

theorem Value.Static.property (h : (object span properties).Static) {p : Property Value}
    (hp : p ∈ properties) {value : Value} (hvalue : p.value = some value) : value.Static where
  no_expression := by simpa [hvalue] using (Property.no_expression h hp).2
  no_single _ _ hnode :=
    h.no_single _ _ (nodes_of_property hp (Property.nodes_of_value hvalue hnode))
  no_opening _ hnode := h.no_opening _ (nodes_of_property hp (Property.nodes_of_value hvalue hnode))

end Parts

/-! ### Layouts -/

/-- A layout that is made of white space. -/
structure Layout.Blank (layout : Layout) : Prop where
  lineBreak : ∀ c ∈ layout.lineBreak.toList, isBlank c = true
  indentUnit : ∀ c ∈ layout.indentUnit.toList, isBlank c = true

/-- Pieces as characters. -/
def Layout.chars (layout : Layout) (pieces : List Piece) : List Char :=
  pieces.flatMap fun piece => (layout.write piece).toList

namespace Layout

variable {layout : Layout}

@[simp] theorem chars_nil : layout.chars [] = [] := rfl

@[simp] theorem chars_text (text : String) (pieces : List Piece) :
    layout.chars (.text text :: pieces) = text.toList ++ layout.chars pieces := rfl

@[simp] theorem chars_append (xs ys : List Piece) :
    layout.chars (xs ++ ys) = layout.chars xs ++ layout.chars ys := List.flatMap_append

theorem toList_writeAll (layout : Layout) (pieces : List Piece) :
    (layout.writeAll pieces).toList = layout.chars pieces := by
  simp [writeAll, chars, String.toList_join, List.flatMap_map]

theorem Blank.repeatText (h : layout.Blank) (depth : Nat) :
    ∀ c ∈ (repeatText layout.indentUnit depth).toList, isBlank c = true := by
  induction depth with
  | zero => simp [DataTemplate.repeatText]
  | succ depth ih =>
    rw [DataTemplate.repeatText, String.toList_append]
    exact List.forall_mem_append.mpr ⟨h.indentUnit, ih⟩

/-- A line break of a blank layout is a gap between tokens. -/
theorem Blank.exists_gap (h : layout.Blank) (depth : Nat) :
    ∃ gap : Gap, ∀ pieces, layout.chars (.line depth :: pieces) =
      gap.text ++ layout.chars pieces := by
  have hblank : ∀ c ∈ (layout.write (.line depth)).toList, isBlank c = true := by
    rw [write, String.toList_append]
    exact List.forall_mem_append.mpr ⟨h.lineBreak, h.repeatText depth⟩
  obtain ⟨gap, hgap⟩ := exists_gap_of_blanks hblank
  exact ⟨gap, fun pieces => by rw [hgap]; rfl⟩

end Layout

/-! ### Code of leaves -/

section Leaves

variable (stringFunction : String)

/-- The code of a static string is read back as one segment. -/
theorem readText_code {stringFunction : String} {t : Text} (hmore : t.more = [])
    (hopening : ¬ ['{', '{'] <:+: unescape t.first.raw.toList) {c : Cursor} {rest : List Char}
    {s : Session σ} (hplain : s.Plain) (hc : c.rest = (t.code stringFunction).toList ++ rest) :
    Yields (readText c s) Text.erase t.requote rest := by
  have hbraces : ¬ ['{', '{'] <:+: quoteBody (unescape t.first.raw.toList) := fun h =>
    hopening (doubled_infix_quoteBody h)
  have htext : c.rest = Quote.double.char ::
      (quoteBody (unescape t.first.raw.toList) ++ Quote.double.char :: rest) := by
    rw [hc, Text.code_static hmore, quoteText_toList]
    simp [Quote.char]
  have hstatic : isStatic [Quote.double.char] (quoteBody (unescape t.first.raw.toList)) = true :=
    isStatic_quoteBody _
  have hrequote : t.requote = ⟨.erased, some .double, t.first.requote, []⟩ := by
    simp [Text.requote, hmore]
  rw [hrequote]
  exact readText_quoted hstatic hbraces hplain htext

theorem Text.code_starts {t : Text} (hmore : t.more = []) :
    ∃ tail, (t.code stringFunction).toList = '\x22' :: tail :=
  ⟨_, by rw [code_static hmore, quoteText_toList]⟩

theorem Text.reads_code {t : Text} (hmore : t.more = [])
    (hopening : ¬ ['{', '{'] <:+: unescape t.first.raw.toList) :
    ReadsValue σ (t.code stringFunction).toList (.text t.requote) where
  starts := by
    obtain ⟨tail, htail⟩ := t.code_starts stringFunction hmore
    exact ⟨_, tail, htail, by decide⟩
  yields _ _ _ hplain _ hc := by
    obtain ⟨text, d, t, hread, htext, hd, ht⟩ := readText_code hmore hopening hplain hc
    rw [readValue_eq, hread]
    exact ⟨.text text, d, t, rfl, by rw [Value.erase, htext], hd, ht⟩

/-- The code of a static key is read back, and does not start with a brace. -/
theorem Key.reads_code {key : Key} (hstatic : key.Static)
    (hspelled : ∀ node ∈ key.nodes, node.Spelled) :
    ReadsKey σ (key.code stringFunction).toList (key.settle Text.requote) ∧
      (key.code stringFunction).toList.head? ≠ some '{' := by
  cases key with
  | text t =>
    have hmore : t.more = [] := by
      simpa [Key.expressions_text] using hstatic.no_expression
    have hopening := hstatic.no_opening t (by simp [nodes, Text.nodes])
    have hcode : (Key.text t).code stringFunction = t.code stringFunction := by
      simp [code, Text.isDynamic, hmore]
    obtain ⟨tail, htail⟩ := t.code_starts stringFunction hmore
    rw [hcode]
    refine ⟨⟨⟨_, tail, htail, by decide⟩, fun c rest s hplain _ hc => ?_⟩, by simp [htail]⟩
    obtain ⟨text, d, t, hread, htext, hd, ht⟩ := readText_code hmore hopening hplain hc
    rw [readKey_eq, hread]
    exact ⟨.text text, d, t, rfl, by rw [Key.erase, htext]; rfl, hd, ht⟩
  | expression e =>
    simpa [expressions, nodes, expressionsOf, Node.expression?] using hstatic.no_expression
  | identifier i =>
    obtain ⟨form, hraw⟩ := hspelled (.identifier i) (by simp [nodes])
    have hreads := (KeyForm.identifier form).reads (σ := σ)
    have hfirst := form.first_ne
    simp only [openers, List.mem_append, List.mem_cons, not_or] at hfirst
    constructor
    · simpa [code, settle, Identifier.erase, hraw, KeyForm.spelling, KeyForm.node] using hreads
    · simpa [code, hraw, IdentifierForm.text] using hfirst.1.2.2.1

theorem undefinedValue_reads : ReadsValue σ "undefined".toList undefinedValue := by
  have hword : (['u', 'n', 'd', 'e', 'f', 'i', 'n', 'e', 'd'], Meaning.nullish) ∈ keywords := by
    decide
  exact (ScalarForm.keyword _ _ hword).reads

end Leaves

/-! ### Code of composites -/

theorem itemsOf_trailing {slots : List (Slot Value)} (h : 2 ≤ slots.length) :
    itemsOf (slots ++ [⟨none, 0, none⟩]) = slots := by
  have hmany : 2 < slots.length + 1 := by omega
  simp [itemsOf, hmany]

section Composites

variable {layout : Layout} (hlayout : layout.Blank) (stringFunction : String)
include hlayout

/-- The code of a slot is its text with a comma, if its value is read back. -/
theorem Slot.reads_code {slot : Slot Value} {depth : Nat}
    (hvalue : ∀ v, slot.value = some v →
      ReadsValue σ (layout.chars (v.pieces stringFunction (depth + 1))) (v.settle Text.requote)) :
    ∃ text, ReadsSlot σ text (slot.settle Text.requote).value ∧
      layout.chars (slot.pieces stringFunction depth) = text ++ [','] := by
  obtain ⟨gap, hgap⟩ := hlayout.exists_gap (depth + 1)
  cases hslot : slot.value with
  | some v =>
    have hsettled : (slot.settle Text.requote).value = some (v.settle Text.requote) := by
      simp [settle, hslot]
    rw [hsettled]
    refine ⟨_, ReadsSlot.value gap [] (hvalue v hslot), ?_⟩
    simp [pieces, hslot, hgap, Gap.text]
  | none =>
    have hsettled : (slot.settle Text.requote).value = none := by simp [settle, hslot]
    rw [hsettled]
    let comment : Filler := .block [' ', 'e', 'm', 'p', 't', 'y', ' '] (by decide)
    refine ⟨_, ReadsSlot.gap (gap ++ [comment]), ?_⟩
    simp [pieces, hslot, hgap, Gap.text]
    rfl

theorem slots_reads_code {slots : List (Slot Value)} {depth : Nat}
    (hvalues : ∀ slot ∈ slots, ∀ v, slot.value = some v →
      ReadsValue σ (layout.chars (v.pieces stringFunction (depth + 1))) (v.settle Text.requote)) :
    ReadsSlots σ (layout.chars (slotPieces stringFunction depth slots))
      (slots.map (Slot.settle Text.requote) ++ [⟨none, 0, none⟩]) := by
  rw [slotPieces_eq]
  induction slots with
  | nil =>
    obtain ⟨gap, hgap⟩ := hlayout.exists_gap depth
    have hlast := ReadsSlots.last (ReadsSlot.gap (σ := σ) gap)
    simpa [hgap] using hlast
  | cons slot slots ih =>
    obtain ⟨hslot, hslots⟩ := List.forall_mem_cons.mp hvalues
    obtain ⟨text, hreads, htext⟩ := slot.reads_code hlayout stringFunction hslot
    have hcons := ReadsSlots.cons hreads (ih hslots)
    simpa [htext, Slot.settle] using hcons

/-- The code of a property is its front, its value and a comma, if its value is read back. -/
theorem Property.reads_code {p : Property Value} {depth : Nat} (hstatic : p.key.Static)
    (hspelled : ∀ node ∈ p.key.nodes, node.Spelled)
    (hvalue : ∀ v, p.value = some v →
      ReadsValue σ (layout.chars (v.pieces stringFunction (depth + 1))) (v.settle Text.requote)) :
    ∃ front value, ReadsFront σ front (p.key.settle Text.requote) ∧
      (∀ rest, (front ++ rest).head? ≠ some '{') ∧
      ReadsValue σ value (p.valueOrUndefined.settle Text.requote) ∧
      layout.chars (p.pieces stringFunction depth) = front ++ (value ++ [',']) := by
  obtain ⟨gap, hgap⟩ := hlayout.exists_gap (depth + 1)
  obtain ⟨hkey, hhead⟩ := Key.reads_code (σ := σ) stringFunction hstatic hspelled
  let space : Gap := [.blank ' ' (by decide)]
  have hor : ReadsValue σ
      (layout.chars (p.valueOrUndefined.pieces stringFunction (depth + 1)))
      (p.valueOrUndefined.settle Text.requote) := by
    cases hp : p.value with
    | some v => simpa [valueOrUndefined, hp] using hvalue v hp
    | none =>
      have hundefined := undefinedValue_reads (σ := σ)
      simpa [valueOrUndefined, hp, undefinedValue, Value.pieces, Value.settle, Scalar.erase]
        using hundefined
  refine ⟨_, _, hkey.front gap [] space, fun rest => ?_, hor, ?_⟩
  · rw [List.append_assoc]
    refine gap.head?_text_ne fun _ => ?_
    obtain ⟨x, tail, htail, -⟩ := hkey.starts
    rw [htail] at hhead ⊢
    exact hhead
  · simp [pieces, hgap, Gap.text, space, Filler.text]

theorem properties_reads_code {properties : List (Property Value)} {depth : Nat}
    (hstatic : ∀ p ∈ properties, p.key.Static)
    (hspelled : ∀ p ∈ properties, ∀ node ∈ p.key.nodes, node.Spelled)
    (hvalues : ∀ p ∈ properties, ∀ v, p.value = some v →
      ReadsValue σ (layout.chars (v.pieces stringFunction (depth + 1))) (v.settle Text.requote)) :
    ReadsMore σ (',' :: layout.chars (propertyPieces stringFunction depth properties)) (some 0)
      (properties.map (Property.settle Text.requote)) := by
  rw [propertyPieces_eq]
  induction properties with
  | nil =>
    obtain ⟨gap, hgap⟩ := hlayout.exists_gap depth
    have hlast := ReadsMore.finalComma (σ := σ) gap
    simpa [hgap] using hlast
  | cons p properties ih =>
    obtain ⟨hp, hrest⟩ := List.forall_mem_cons.mp hstatic
    obtain ⟨hpSpelled, hrestSpelled⟩ := List.forall_mem_cons.mp hspelled
    obtain ⟨hpValue, hrestValues⟩ := List.forall_mem_cons.mp hvalues
    obtain ⟨front, value, hfront, -, hvalue, htext⟩ :=
      p.reads_code hlayout stringFunction hp hpSpelled hpValue
    have hcons := ReadsMore.cons hfront hvalue [] (ih hrest hrestSpelled hrestValues)
    simpa [htext, Property.settle, Gap.text] using hcons

/-- The code of a static value is read back, at any depth. -/
theorem Value.reads_code {value : Value} (hstatic : value.Static) (hspelled : value.Spelled)
    (depth : Nat) : ReadsValue σ (layout.chars (value.pieces stringFunction depth))
      (value.settle Text.requote) := by
  induction value using Value.induction generalizing depth with
  | scalar s =>
    obtain ⟨form, hraw, hmeaning⟩ := hspelled (.value (.scalar s)) (by simp [nodes])
    have hnode : s.erase = form.node := by simp [Scalar.erase, ScalarForm.node, hraw, hmeaning]
    simpa [pieces, settle, hnode, hraw] using form.reads (σ := σ)
  | expression e => simpa [expressions_expression] using hstatic.no_expression
  | text t =>
    have hopening := hstatic.no_opening t (by simp [nodes, Text.nodes])
    have hreads := Text.reads_code (σ := σ) stringFunction
      (Text.more_eq_nil hstatic.no_expression) hopening
    simpa [pieces, settle] using hreads
  | array span slots ih =>
    have hvalues : ∀ slot ∈ slots, ∀ v, slot.value = some v →
        ReadsValue σ (layout.chars (v.pieces stringFunction (depth + 1)))
          (v.settle Text.requote) := fun slot hslot v hv =>
      ih slot hslot v hv (hstatic.slot hslot hv)
        (fun node hnode => hspelled node (nodes_of_slot hslot hv hnode)) (depth + 1)
    have hreads := ReadsValue.array (slots_reads_code hlayout stringFunction hvalues)
    have hsingle := hstatic.no_single span slots (by simp [nodes])
    rw [pieces, settle, settleSlots_eq]
    cases slots with
    | nil =>
      have hempty := ReadsValue.array (ReadsSlots.last (ReadsSlot.gap (σ := σ) []))
      simpa [itemsOf, Gap.text] using hempty
    | cons slot slots =>
      have hlength : 2 ≤ ((slot :: slots).map (Slot.settle Text.requote)).length := by
        simp at hsingle ⊢
        have hpos := List.length_pos_iff.mpr hsingle
        omega
      rw [itemsOf_trailing hlength] at hreads
      simpa using hreads
  | object span properties ih =>
    have hvalues : ∀ p ∈ properties, ∀ v, p.value = some v →
        ReadsValue σ (layout.chars (v.pieces stringFunction (depth + 1)))
          (v.settle Text.requote) := fun p hp v hv =>
      ih p hp v hv (hstatic.property hp hv) (fun node hnode =>
        hspelled node (nodes_of_property hp (Property.nodes_of_value hv hnode))) (depth + 1)
    have hkeys : ∀ p ∈ properties, p.key.Static := fun p hp => hstatic.key hp
    have hkeysSpelled : ∀ p ∈ properties, ∀ node ∈ p.key.nodes, node.Spelled :=
      fun p hp node hnode => hspelled node (nodes_of_property hp (Property.nodes_of_key hnode))
    rw [pieces, settle, settleProperties_eq]
    cases properties with
    | nil => simpa [Gap.text] using ReadsValue.emptyObject (σ := σ) []
    | cons p properties =>
      obtain ⟨hp, hrest⟩ := List.forall_mem_cons.mp hkeys
      obtain ⟨hpSpelled, hrestSpelled⟩ := List.forall_mem_cons.mp hkeysSpelled
      obtain ⟨hpValue, hrestValues⟩ := List.forall_mem_cons.mp hvalues
      obtain ⟨front, value, hfront, hapart, hvalue, htext⟩ :=
        p.reads_code hlayout stringFunction hp hpSpelled hpValue
      have hreads := ReadsValue.object hapart hfront hvalue []
        (properties_reads_code hlayout stringFunction hrest hrestSpelled hrestValues)
      rw [propertyPieces_eq, List.flatMap_cons, List.append_assoc, ← propertyPieces_eq]
      simpa [htext, Property.settle, Gap.text] using hreads

end Composites

/-! ### Documents -/

theorem RenderOptions.render_eq (options : RenderOptions) (value : Value) :
    value.render options =
      String.ofList (options.layout.chars (value.pieces options.stringFunction 0)) := by
  rw [← Layout.toList_writeAll, String.ofList_toList]
  rfl

/-- The code of a static value, whatever document it came from and whatever the white space of the
layout, is a document again.  Its tree is the settled one of the value, with strings that are spelled
as code spells them and say what they said, and it has the same code. -/
theorem parse_render {options : ReadOptions} {hooks : Hooks σ} {state : σ} {source : List Char}
    {document : Document} {value : Value} {renderOptions : RenderOptions}
    (hdocument : (readDocument options hooks state source).1 = .ok document)
    (hroot : document.root = some value) (hstatic : value.Static)
    (hlayout : renderOptions.layout.Blank) :
    ∃ reread again, parse {} (value.render renderOptions) = .ok reread ∧ reread.problems = [] ∧
      reread.readAsString = false ∧ reread.root = some again ∧
      again.erase = value.settle Text.requote ∧
      again.settle Text.decode = value.settle Text.decode ∧
      again.render renderOptions = value.render renderOptions := by
  have hspelled := readDocument_spelled hdocument hroot
  have hreads :=
    value.reads_code (σ := Unit) hlayout renderOptions.stringFunction hstatic hspelled 0
  obtain ⟨reread, hparse, htree, hproblems, hvalue⟩ := parse_reads [] hreads (List.forall_mem_nil _)
  obtain ⟨again, hagain, herase⟩ := Option.map_eq_some_iff.mp htree
  refine ⟨reread, again, ?_, hproblems, hvalue, hagain, herase,
    Value.settle_decode_of_erase herase, ?_⟩
  · rw [renderOptions.render_eq]
    simpa [Gap.text] using hparse
  · rw [renderOptions.render_eq, renderOptions.render_eq, ← Value.pieces_erase, herase,
      Value.pieces_requote _ hstatic.no_expression]

/-- A broken object with a missing value, a gap, an escape and a lone brace, in a layout of tabs. -/
theorem parse_render_broken :
    ∃ document value reread again, (readDocument { onError := .recover } ({} : Hooks Unit) ()
        "\x7ba: , 'b\x7b': [1,, '\\x41'], c".toList).1 = .ok document ∧
      document.root = some value ∧ value.Static ∧
      (RenderOptions.layout { indent := some "\t", lineBreak := some "" }).Blank ∧
      parse {} (value.render { indent := some "\t", lineBreak := some "" }) = .ok reread ∧
      reread.problems = [] ∧ reread.readAsString = false ∧ reread.root = some again ∧
      again.erase = value.settle Text.requote ∧
      again.settle Text.decode = value.settle Text.decode ∧
      again.render { indent := some "\t", lineBreak := some "" } =
        value.render { indent := some "\t", lineBreak := some "" } := by
  have hdocument : ∃ document, (readDocument { onError := .recover } ({} : Hooks Unit) ()
      "\x7ba: , 'b\x7b': [1,, '\\x41'], c".toList).1 = .ok document ∧
      (document.root.any fun value => decide value.Static) = true :=
    ⟨_, rfl, by decide +kernel⟩
  obtain ⟨document, hdocument, hroot⟩ := hdocument
  obtain ⟨value, hvalue, hstatic⟩ := (Option.any_eq_true _ _).mp hroot
  have hlayout : (RenderOptions.layout { indent := some "\t", lineBreak := some "" }).Blank :=
    ⟨List.all_eq_true.mp (by decide), List.all_eq_true.mp (by decide)⟩
  obtain ⟨reread, again, hreread⟩ :=
    parse_render hdocument hvalue (of_decide_eq_true hstatic) hlayout
  exact ⟨document, value, reread, again, hdocument, hvalue, of_decide_eq_true hstatic, hlayout,
    hreread⟩

/-- How many slots of an array have a comma. -/
def Value.commaCount : Value → Nat
  | array _ slots => slots.countP fun slot => slot.comma.isSome
  | _ => 0

theorem Value.commaCount_erase (value : Value) : value.erase.commaCount = value.commaCount := by
  cases value with
  | array span slots =>
    rw [erase, commaCount, commaCount, eraseSlots_eq, List.countP_map]
    refine List.countP_congr fun slot _ => ?_
    simp [Slot.erase, eraseMark]
  | scalar | expression | text | object => simp [erase, commaCount]

/-- Code has a comma behind every slot, which the tree that it was made of need not have. -/
theorem parse_render_gains_comma :
    ∃ document value reread again, parse {} "[1,2]" = .ok document ∧ document.root = some value ∧
      value.Static ∧ parse {} (value.render {}) = .ok reread ∧ reread.root = some again ∧
      again.erase ≠ value.erase := by
  have hok {answer : Except Problem Document} {found : Document}
      (h : answer.toOption = some found) : answer = .ok found := by
    cases answer with
    | error problem => simp [Except.toOption] at h
    | ok other => exact congrArg Except.ok (Option.some.inj h)
  have hroots : (parse {} "[1,2]").toOption.any (fun document => document.root.any fun value =>
      decide value.Static && value.commaCount == 1 &&
        (parse {} (value.render {})).toOption.any fun reread =>
          reread.root.any (·.commaCount == 2)) = true := by decide +kernel
  obtain ⟨document, hdocument, hroot⟩ := (Option.any_eq_true _ _).mp hroots
  obtain ⟨value, hvalue, hroot⟩ := (Option.any_eq_true _ _).mp hroot
  simp only [Bool.and_eq_true, decide_eq_true_eq, beq_iff_eq] at hroot
  obtain ⟨⟨hstatic, hone⟩, hagain⟩ := hroot
  obtain ⟨reread, hreread, hagain⟩ := (Option.any_eq_true _ _).mp hagain
  obtain ⟨again, hroot, htwo⟩ := (Option.any_eq_true _ _).mp hagain
  refine ⟨document, value, reread, again, hok hdocument, hvalue, hstatic,
    hok hreread, hroot, fun herase => ?_⟩
  have hsame : again.commaCount = value.commaCount := by
    rw [← again.commaCount_erase, herase, value.commaCount_erase]
  simp [hsame, hone] at htwo

end DataTemplate
