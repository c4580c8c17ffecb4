/-
Code on one line.  Literals, keys and quoted strings hold no line feed, whatever the text that was
read, so the code of a tree holds one only where its layout or an expression puts it there.  Main
statement: `parse_onOneLine_iff`.
-/
import DataTemplate.Proofs.HostFreedom
import DataTemplate.Proofs.NumberLiterals

namespace DataTemplate

/-! ### Texts without line feeds -/

/-- A text that holds no line feed. -/
def OnOneLine (text : String) : Prop := '\n' ∉ text.toList

instance (text : String) : Decidable (OnOneLine text) :=
  inferInstanceAs (Decidable ('\n' ∉ text.toList))

@[simp] theorem onOneLine_append {a b : String} :
    OnOneLine (a ++ b) ↔ OnOneLine a ∧ OnOneLine b := by
  simp [OnOneLine]

theorem onOneLine_intercalate {separator : String} (hseparator : OnOneLine separator)
    {texts : List String} (h : ∀ text ∈ texts, OnOneLine text) :
    OnOneLine (String.intercalate separator texts) := by
  induction texts with
  | nil => exact List.not_mem_nil
  | cons first texts ih =>
    obtain ⟨hfirst, hmore⟩ := List.forall_mem_cons.mp h
    cases texts with
    | nil => simpa using hfirst
    | cons second texts =>
      rw [String.intercalate_cons_cons, onOneLine_append, onOneLine_append]
      exact ⟨⟨hfirst, hseparator⟩, ih hmore⟩

theorem onOneLine_repeatText {text : String} (h : OnOneLine text) (n : Nat) :
    OnOneLine (repeatText text n) := by
  induction n with
  | zero => exact List.not_mem_nil
  | succ n ih =>
    rw [repeatText, onOneLine_append]
    exact ⟨h, ih⟩

theorem onOneLine_of_infix_toList {a b : String} (hin : a.toList <:+: b.toList) (h : OnOneLine b) :
    OnOneLine a := fun hmem => h (hin.subset hmem)

/-! ### Literals and keys -/

theorem lineFeed_notMem_quoteChar (c : Char) : '\n' ∉ quoteChar c := by
  by_cases hcontrol : c.toNat < 0x20
  · have hall : ∀ n : Fin 0x20, '\n' ∉ quoteChar (Char.ofNat n) := by decide
    have hc := hall ⟨c.toNat, hcontrol⟩
    rwa [Char.ofNat_toNat] at hc
  · have hne : '\n' ≠ c := by
      rintro rfl
      exact hcontrol (by decide)
    unfold quoteChar
    grind

/-- A quoted literal holds no line feed, whatever its text. -/
theorem onOneLine_quoteText (text : List Char) : OnOneLine (quoteText text) := by
  rw [OnOneLine, quoteText_toList]
  have hbody : '\n' ∉ quoteBody text := by
    intro hmem
    obtain ⟨c, -, hc⟩ := List.mem_flatMap.mp hmem
    exact lineFeed_notMem_quoteChar c hc
  simp [hbody]

theorem lineFeed_notMem_of_all {p : Char → Bool} (hp : p '\n' = false) {text : List Char}
    (h : ∀ c ∈ text, p c = true) : '\n' ∉ text := by
  intro hmem
  rw [h _ hmem] at hp
  exact Bool.noConfusion hp

theorem lineFeed_notMem_signText (sign : Option Sign) : '\n' ∉ signText sign := by
  cases sign with
  | none => decide
  | some sign => cases sign <;> decide

theorem lineFeed_notMem_exponentText {exponent : Option Exponent}
    (h : ∀ e, exponent = some e → e.Proper) : '\n' ∉ exponentText exponent := by
  cases exponent with
  | none => exact List.not_mem_nil
  | some e =>
    obtain ⟨hmark, -, hdigits⟩ := h e rfl
    have hsign := lineFeed_notMem_signText e.sign
    have hdigits := lineFeed_notMem_of_all (by decide) hdigits
    rcases hmark with hmark | hmark
    · simp [exponentText, Exponent.text, hmark, hsign, hdigits]
    · simp [exponentText, Exponent.text, hmark, hsign, hdigits]

theorem Magnitude.lineFeed_notMem_text {magnitude : Magnitude} (h : magnitude.Proper) :
    '\n' ∉ magnitude.text := by
  cases magnitude with
  | inRadix radix digits =>
    have hletter : '\n' ≠ radix.letter := by cases radix <;> decide
    have hdigits := lineFeed_notMem_of_all (by cases radix <;> decide) h.2
    simp [text, hletter, hdigits]
  | decimal whole fraction exponent =>
    obtain ⟨-, hdigits, hexponent⟩ := h
    have hexponent := lineFeed_notMem_exponentText hexponent
    have hdigits := lineFeed_notMem_of_all (by decide) hdigits
    rw [List.mem_append, not_or] at hdigits
    cases fraction with
    | none => simp [text, fractionText, hdigits.1, hexponent]
    | some digits =>
      have hfraction : '\n' ∉ digits := hdigits.2
      simp [text, fractionText, hdigits.1, hfraction, hexponent]

/-- The spelling of a keyword or a number holds no line feed. -/
theorem ScalarForm.lineFeed_notMem_text (form : ScalarForm) : '\n' ∉ form.text := by
  cases form with
  | keyword word meaning hword =>
    have hall : ∀ keyword ∈ keywords, '\n' ∉ keyword.1 := by decide
    exact hall _ hword
  | number numeral hproper =>
    rw [text, Numeral.text, List.mem_append, not_or]
    exact ⟨lineFeed_notMem_signText _, Magnitude.lineFeed_notMem_text hproper⟩

/-- The spelling of an identifier holds no line feed. -/
theorem IdentifierForm.lineFeed_notMem_text (form : IdentifierForm) : '\n' ∉ form.text := by
  rw [text, List.mem_cons, not_or]
  refine ⟨?_, lineFeed_notMem_of_all (by decide) form.hmore⟩
  intro hfirst
  have hstart := form.hfirst
  rw [← hfirst] at hstart
  exact absurd hstart (by decide)

/-! ### Trees -/

/-- The text of a piece holds no line feed. -/
def Piece.OnOneLine : Piece → Prop
  | .text code => DataTemplate.OnOneLine code
  | .line _ => True

@[simp] theorem Piece.onOneLine_text {code : String} :
    (Piece.text code).OnOneLine ↔ DataTemplate.OnOneLine code := Iff.rfl

@[simp] theorem Piece.onOneLine_line (depth : Nat) : (Piece.line depth).OnOneLine := True.intro

theorem Node.eq_of_expression? {node : Node} {e : Expression} (h : node.expression? = some e) :
    node = .value (.expression e) := by
  unfold expression? at h
  split at h
  · rw [Option.some.inj h]
  · cases h

/-- The text that a leaf gives to the code as it is holds no line feed. -/
def Node.OnOneLine : Node → Prop
  | identifier i => DataTemplate.OnOneLine i.raw
  | value (.scalar s) => DataTemplate.OnOneLine s.raw
  | value (.expression e) => DataTemplate.OnOneLine e.text
  | _ => True

theorem Node.Spelled.onOneLine {node : Node} (h : node.Spelled)
    (hexpression : ∀ e, node.expression? = some e → DataTemplate.OnOneLine e.text) :
    node.OnOneLine := by
  cases node with
  | identifier i =>
    obtain ⟨form, hraw⟩ := h
    simpa [OnOneLine, DataTemplate.OnOneLine, hraw] using form.lineFeed_notMem_text
  | value v =>
    cases v with
    | scalar s =>
      obtain ⟨form, hraw, -⟩ := h
      simpa [OnOneLine, DataTemplate.OnOneLine, hraw] using form.lineFeed_notMem_text
    | expression e => exact hexpression e rfl
    | text | array | object => trivial
  | comment | segment | property => trivial

theorem onOneLine_expressionCode {e : Expression} : OnOneLine e.code ↔ OnOneLine e.text := by
  have hopen : OnOneLine "(" := by decide
  have hclose : OnOneLine ")" := by decide
  simp [Expression.code, hopen, hclose]

/-- The code of an array or object holds no line feed besides its line breaks if its brackets and its
entries hold none. -/
theorem onOneLine_bracketed {α : Type} {pieces : α → List Piece} {entries : List α} {depth : Nat}
    {opening closing : String} (hopening : OnOneLine opening) (hclosing : OnOneLine closing)
    (h : ∀ x ∈ entries, ∀ piece ∈ pieces x, piece.OnOneLine) :
    ∀ piece ∈ .text opening :: (entries.flatMap pieces ++ [.line depth, .text closing]),
      piece.OnOneLine := by
  have hentries : ∀ piece ∈ entries.flatMap pieces, piece.OnOneLine := by
    intro piece hpiece
    obtain ⟨x, hx, hin⟩ := List.mem_flatMap.mp hpiece
    exact h x hx piece hin
  simpa [or_imp, forall_and, hopening, hclosing] using hentries

theorem Slot.onOneLine_pieces {slot : Slot Value} {depth : Nat}
    (h : ∀ value, slot.value = some value →
      ∀ piece ∈ value.pieces stringFunction (depth + 1), piece.OnOneLine) :
    ∀ piece ∈ slot.pieces stringFunction depth, piece.OnOneLine := by
  have hcomma : OnOneLine "," := by decide
  have hempty : OnOneLine "/* empty */" := by decide
  cases hvalue : slot.value with
  | none => simp [pieces, hvalue, hcomma, hempty]
  | some value => simpa [pieces, hvalue, hcomma, forall_and, or_imp] using h value hvalue

section Code

variable {stringFunction : String} (hfunction : OnOneLine stringFunction)

include hfunction

theorem Text.onOneLine_code {t : Text} (h : ∀ node ∈ t.nodes, node.OnOneLine) :
    OnOneLine (t.code stringFunction) := by
  have hoperands : ∀ operand ∈ t.parts.flatMap (TextPart.operands stringFunction),
      OnOneLine operand := by
    intro operand hoperand
    obtain ⟨part, hpart, hin⟩ := List.mem_flatMap.mp hoperand
    have hnode := h part.node (List.mem_cons_of_mem _ (List.mem_map_of_mem hpart))
    cases part with
    | segment s =>
      rw [TextPart.operands, Segment.operands] at hin
      split at hin
      · simp at hin
      · obtain rfl := List.mem_singleton.mp hin
        exact onOneLine_quoteText _
    | expression e =>
      obtain rfl := List.mem_singleton.mp hin
      have hcode : OnOneLine e.code := onOneLine_expressionCode.mpr hnode
      have hopen : OnOneLine "(" := by decide
      have hclose : OnOneLine ")" := by decide
      simp [Expression.codeInText, hfunction, hcode, hopen, hclose]
  rw [code]
  split
  · exact onOneLine_quoteText []
  · exact onOneLine_intercalate (by decide) hoperands

theorem Key.onOneLine_code {key : Key} (h : ∀ node ∈ key.nodes, node.OnOneLine) :
    OnOneLine (key.code stringFunction) := by
  have hopen : OnOneLine "[" := by decide
  have hclose : OnOneLine "]" := by decide
  cases key with
  | identifier i => exact h _ (List.mem_singleton_self _)
  | expression e =>
    have he : OnOneLine e.code :=
      onOneLine_expressionCode.mpr (h (.value (.expression e)) (List.mem_singleton_self _))
    simp [code, he, hopen, hclose]
  | text t =>
    have htext := Text.onOneLine_code hfunction h
    rw [code]
    split
    · simp [htext, hopen, hclose]
    · exact htext

theorem Property.onOneLine_pieces {p : Property Value} {depth : Nat}
    (hkey : ∀ node ∈ p.key.nodes, node.OnOneLine)
    (h : ∀ value, p.value = some value →
      ∀ piece ∈ value.pieces stringFunction (depth + 1), piece.OnOneLine) :
    ∀ piece ∈ p.pieces stringFunction depth, piece.OnOneLine := by
  have hcomma : OnOneLine "," := by decide
  have hundefined : OnOneLine "undefined" := by decide
  have hcolon : OnOneLine ": " := by decide
  have hkey := Key.onOneLine_code hfunction hkey
  cases hvalue : p.value with
  | none =>
    simp [pieces, valueOrUndefined, undefinedValue, Value.pieces, hvalue, hcomma, hundefined,
      hcolon, hkey]
  | some value =>
    have hcode := h value hvalue
    simpa [pieces, valueOrUndefined, hvalue, hcomma, hcolon, hkey, forall_and, or_imp] using hcode

/-- The code of a value holds no line feed besides its line breaks if its leaves hold none. -/
theorem Value.onOneLine_pieces {value : Value} (h : ∀ node ∈ value.nodes, node.OnOneLine)
    (depth : Nat) : ∀ piece ∈ value.pieces stringFunction depth, piece.OnOneLine := by
  induction value using Value.induction generalizing depth with
  | scalar s =>
    have hs : OnOneLine s.raw := h (.value (.scalar s)) (by simp [nodes])
    simpa [pieces] using hs
  | expression e =>
    have he : OnOneLine e.text := h (.value (.expression e)) (by simp [nodes])
    simpa [pieces] using onOneLine_expressionCode.mpr he
  | text t =>
    rw [nodes] at h
    simpa [pieces] using Text.onOneLine_code hfunction h
  | array span slots ih =>
    rw [nodes, slotNodes_eq] at h
    have hslots : ∀ slot ∈ slots, ∀ piece ∈ slot.pieces stringFunction depth,
        piece.OnOneLine := by
      intro slot hslot
      refine Slot.onOneLine_pieces fun value hvalue =>
        ih slot hslot value hvalue (fun node hnode => h node ?_) (depth + 1)
      have hmem : value ∈ slotValues slots := List.mem_filterMap.mpr ⟨slot, hslot, hvalue⟩
      exact List.mem_cons_of_mem _ (List.mem_flatMap.mpr ⟨value, hmem, hnode⟩)
    have hempty : OnOneLine "[]" := by decide
    rw [pieces]
    split
    · simpa using hempty
    · rw [slotPieces_eq]
      exact onOneLine_bracketed (by decide) (by decide) hslots
  | object span properties ih =>
    rw [nodes, propertyNodes_eq] at h
    have hproperties : ∀ p ∈ properties, ∀ piece ∈ p.pieces stringFunction depth,
        piece.OnOneLine := by
      intro p hp
      have hnodes : ∀ node ∈ p.nodes, node.OnOneLine := fun node hnode =>
        h node (List.mem_cons_of_mem _ (List.mem_flatMap.mpr ⟨p, hp, hnode⟩))
      obtain ⟨hkey, hvalues⟩ :=
        List.forall_mem_append.mp (List.forall_mem_cons.mp hnodes).2
      refine Property.onOneLine_pieces hfunction hkey fun value hvalue =>
        ih p hp value hvalue (fun node hnode => hvalues node ?_) (depth + 1)
      simpa [hvalue] using hnode
    have hempty : OnOneLine "\x7b\x7d" := by decide
    rw [pieces]
    split
    · simpa using hempty
    · rw [propertyPieces_eq]
      exact onOneLine_bracketed (by decide) (by decide) hproperties

end Code

/-! ### Layouts -/

theorem Layout.onOneLine_writeAll {layout : Layout} (hbreak : OnOneLine layout.lineBreak)
    (hindent : OnOneLine layout.indentUnit) {pieces : List Piece}
    (h : ∀ piece ∈ pieces, piece.OnOneLine) : OnOneLine (layout.writeAll pieces) := by
  induction pieces with
  | nil => exact List.not_mem_nil
  | cons piece pieces ih =>
    obtain ⟨hpiece, hmore⟩ := List.forall_mem_cons.mp h
    rw [writeAll_cons, onOneLine_append]
    refine ⟨?_, ih hmore⟩
    cases piece with
    | text text => exact hpiece
    | line depth => exact onOneLine_append.mpr ⟨hbreak, onOneLine_repeatText hindent depth⟩

/-- Under a layout without line feeds, the code of a tree holds one just if an expression of the
tree does. -/
theorem Value.onOneLine_render_iff {value : Value} (hspelled : value.Spelled)
    {options : RenderOptions} (hfunction : OnOneLine options.stringFunction)
    (hbreak : OnOneLine options.lineBreakText) (hindent : OnOneLine options.indentUnit) :
    OnOneLine (value.render options) ↔ ∀ e ∈ value.expressions, OnOneLine e.text := by
  constructor
  · intro hline e he
    obtain ⟨node, hnode, hexpression⟩ := List.mem_filterMap.mp he
    have hcode : e.code ∈ node.codes options.stringFunction := by
      rw [Node.eq_of_expression? hexpression]
      exact List.mem_singleton_self _
    obtain ⟨text, htext, hin⟩ := Value.exists_text hnode hcode 0
    have hinfix : e.code.toList <:+: (value.render options).toList :=
      hin.trans (Layout.infix_writeAll htext)
    exact onOneLine_expressionCode.mp (onOneLine_of_infix_toList hinfix hline)
  · intro hexpressions
    have hnodes : ∀ node ∈ value.nodes, node.OnOneLine := fun node hnode =>
      (hspelled node hnode).onOneLine fun e he =>
        hexpressions e (List.mem_filterMap.mpr ⟨node, hnode, he⟩)
    exact Layout.onOneLine_writeAll hbreak hindent (Value.onOneLine_pieces hfunction hnodes 0)

/-! ### Documents -/

/-- Whatever the host made of its expressions, the code of a document on one line holds a line feed
just if an expression of the document does. -/
theorem readDocument_onOneLine_iff {options : ReadOptions} {hooks : Hooks σ} {state : σ}
    {source : List Char} {document : Document}
    (hdocument : (readDocument options hooks state source).1 = .ok document) :
    OnOneLine (document.body .onOneLine) ↔
      ∀ root, document.root = some root → ∀ e ∈ root.expressions, OnOneLine e.text := by
  cases hroot : document.root with
  | none =>
    have hbody : document.body .onOneLine = "undefined" := by rw [Document.body, hroot]
    have hword : OnOneLine "undefined" := by decide
    simp [hbody, hword]
  | some root =>
    have hbody : document.body .onOneLine = root.render .onOneLine := by
      rw [Document.body, hroot]
    have hrender : OnOneLine (root.render .onOneLine) ↔ ∀ e ∈ root.expressions, OnOneLine e.text :=
      Value.onOneLine_render_iff (readDocument_spelled hdocument hroot)
        (by decide) (by decide) (by decide)
    rw [hbody, hrender]
    constructor
    · rintro h _ ⟨⟩
      exact h
    · exact fun h => h root rfl

/-- Without a host the text of an expression is the text that was read. -/
theorem parse_expression_text {options : ReadOptions} {source : String} {document : Document}
    {root : Value} (hdocument : parse options source = .ok document)
    (hroot : document.root = some root) {e : Expression} (he : e ∈ root.expressions) :
    e.text = e.raw := by
  have hbare := parse_bare options source
  rw [hdocument] at hbare
  have hsame : document.mapExpressions Expression.bare = document := Except.ok.inj hbare
  have htree : root.mapExpressions Expression.bare = root := by
    have hroots := congrArg Document.root hsame
    rw [Document.mapExpressions, hroot] at hroots
    exact Option.some.inj hroots
  rw [← htree, Value.expressions_mapExpressions] at he
  obtain ⟨scanned, -, rfl⟩ := List.mem_map.mp he
  rfl

/-- The code of a text on one line.  Whatever its strings, keys, nesting, gaps and missing values,
it holds a line feed just if an expression of the text does, which is copied as it stands. -/
theorem parse_onOneLine_iff {options : ReadOptions} {source : String} {document : Document}
    (hdocument : parse options source = .ok document) :
    OnOneLine (document.body .onOneLine) ↔
      ∀ root, document.root = some root → ∀ e ∈ root.expressions, OnOneLine e.raw := by
  rw [readDocument_onOneLine_iff hdocument]
  refine forall₂_congr fun root hroot => forall₂_congr fun e he => ?_
  rw [parse_expression_text hdocument hroot he]

/-- An expression with a line feed breaks the line of its code. -/
theorem parse_onOneLine_iff_broken : ∃ document,
    parse { onError := .recover } "\x7b\x7ba\n\x7d\x7d" = .ok document ∧
      (OnOneLine (document.body .onOneLine) ↔
        ∀ root, document.root = some root → ∀ e ∈ root.expressions, OnOneLine e.raw) ∧
      ¬ OnOneLine (document.body .onOneLine) := by
  have hdocument : ∃ document,
      parse { onError := .recover } "\x7b\x7ba\n\x7d\x7d" = .ok document ∧
        document.root = some (.expression ⟨0, 2, "a\n", "a\n", .unknown⟩) :=
    ⟨_, rfl, by with_unfolding_all rfl⟩
  obtain ⟨document, hparse, hroot⟩ := hdocument
  have hiff := parse_onOneLine_iff hparse
  refine ⟨document, hparse, hiff, fun hline => ?_⟩
  have hraw := hiff.mp hline _ hroot _
    (Value.expressions_expression _ ▸ List.mem_singleton_self _)
  exact absurd hraw (by decide)

end DataTemplate
