/-
A document is faithful to its source: each leaf keeps the text that stands at its span, composites
and quoted strings start at their bracket or quote, and every recorded colon or comma is one.  The
marks of a property stay inside it because its end only ever moves on.  Main statement:
`readDocument_reaches_faithful`.
-/
import DataTemplate.Proofs.Placement

namespace DataTemplate

variable {σ : Type} {n : Nat} {source : List Char}

/-! ### Text at a span -/

/-- The text that stands at a span of `source`. -/
def Span.Spells (source : List Char) (span : Span) (text : List Char) : Prop :=
  ∃ before after, source = before ++ (text ++ after) ∧
    span = ⟨byteLength before, byteLength before + byteLength text⟩

theorem Cursor.Moves.spells {c d : Cursor} {text : List Char} (h : c.Moves text d) :
    Span.Spells c.source ⟨c.position, d.position⟩ text := by
  obtain ⟨before, hsource, hposition⟩ := c.splits
  exact ⟨before, d.rest, by rw [← h.rest_eq, hsource], by rw [h.position_eq, hposition]⟩

/-- At most one text stands at a span. -/
theorem Span.Spells.unique {span : Span} {xs ys : List Char} (h : span.Spells source xs)
    (k : span.Spells source ys) : xs = ys := by
  obtain ⟨before, after, hsource, rfl⟩ := h
  obtain ⟨before', after', hsource', hspan⟩ := k
  obtain ⟨hstart, hstop⟩ := Span.mk.inj hspan
  have hcut := cutBytes_byteLength before (xs ++ after)
  rw [← hsource, hsource', hstart, cutBytes_byteLength] at hcut
  obtain ⟨rfl, hrest⟩ := Prod.mk.inj hcut
  have hlength : byteLength xs = byteLength ys := by omega
  have hcut := cutBytes_byteLength xs after
  rw [← hrest, hlength, cutBytes_byteLength] at hcut
  exact (Prod.mk.inj hcut).1.symm

/-- A character of punctuation and where it stands. -/
structure Mark where
  position : Nat
  char : Char
deriving DecidableEq, Repr

/-- The bytes of a mark. -/
def Mark.span (mark : Mark) : Span := ⟨mark.position, mark.position + mark.char.utf8Size⟩

/-- A span of `source` at which a mark stands. -/
structure Span.Holds (source : List Char) (span : Span) (mark : Mark) : Prop where
  inside : span.contains mark.span = true
  spelled : mark.span.Spells source [mark.char]

theorem Span.Holds.mono {inner outer : Span} {mark : Mark} (h : inner.Holds source mark)
    (hle : outer.contains inner = true) : outer.Holds source mark :=
  ⟨Span.contains_trans hle h.inside, h.spelled⟩

theorem Span.contains_of_le {a b c d : Nat} (hleft : a ≤ b) (hright : c ≤ d) :
    Span.contains ⟨a, d⟩ ⟨b, c⟩ = true := by
  simp [Span.contains, hleft, hright]

theorem Cursor.Moves.holds {c d : Cursor} {x : Char} (h : c.Moves [x] d) :
    Span.Holds c.source ⟨c.position, d.position⟩ ⟨c.position, x⟩ := by
  have hspan : (Mark.mk c.position x).span = ⟨c.position, d.position⟩ := by
    simp [Mark.span, h.position_eq]
  exact ⟨hspan ▸ Span.contains_refl _, hspan ▸ h.spells⟩

/-- A mark that was read between two places. -/
theorem Cursor.Moves.holds_within {c d : Cursor} {x : Char} {start stop : Nat} (h : c.Moves [x] d)
    (hstart : start ≤ c.position) (hstop : d.position ≤ stop) :
    Span.Holds c.source ⟨start, stop⟩ ⟨c.position, x⟩ :=
  h.holds.mono (Span.contains_of_le hstart hstop)

/-! ### Faithful nodes -/

/-- An expression whose braces and raw text stand where it says. -/
structure Expression.Faithful (source : List Char) (e : Expression) : Prop where
  braces : ∃ n, 2 ≤ n ∧ e.opening.toList = List.replicate n '{' ∧
    e.closing.toList = List.replicate n '}'
  whole : e.span.Spells source (e.opening.toList ++ e.raw.toList ++ e.closing.toList)
  body : e.bodySpan.Spells source e.raw.toList

/-- The marks of a property, as far as they were met. -/
def Property.marks (p : Property Value) : List Mark :=
  p.colon.toList.map (⟨·, ':'⟩) ++ p.comma.toList.map (⟨·, ','⟩)

/-- A node is faithful to its source: a leaf to its text, a string to its quote, and composites and
properties to their marks. -/
def Node.Faithful (source : List Char) : Node → Prop
  | comment _ => True
  | identifier i => i.span.Spells source i.raw.toList
  | segment s => s.span.Spells source s.raw.toList
  | property p => ∀ mark ∈ p.marks, p.span.Holds source mark
  | value (.scalar s) => s.span.Spells source s.raw.toList
  | value (.expression e) => e.Faithful source
  | value (.text t) => ∀ quote, t.quote = some quote → t.span.Holds source ⟨t.span.start, quote.char⟩
  | value (.array span slots) => span.Holds source ⟨span.start, '['⟩ ∧
      ∀ position ∈ slotCommas slots, span.Holds source ⟨position, ','⟩
  | value (.object span _) => span.Holds source ⟨span.start, '{'⟩

/-- Nodes that are all faithful. -/
def AllFaithful (source : List Char) (nodes : List Node) : Prop :=
  ∀ node ∈ nodes, node.Faithful source

theorem AllFaithful.cons {node : Node} {nodes : List Node} (h : node.Faithful source)
    (k : AllFaithful source nodes) : AllFaithful source (node :: nodes) :=
  List.forall_mem_cons.mpr ⟨h, k⟩

theorem AllFaithful.append {xs ys : List Node} (h : AllFaithful source xs)
    (k : AllFaithful source ys) : AllFaithful source (xs ++ ys) :=
  List.forall_mem_append.mpr ⟨h, k⟩

theorem AllFaithful.flatMap {α : Type} {f : α → List Node} {xs : List α}
    (h : ∀ x ∈ xs, AllFaithful source (f x)) : AllFaithful source (xs.flatMap f) := by
  intro node hnode
  obtain ⟨x, hx, hnode⟩ := List.mem_flatMap.mp hnode
  exact h x hx node hnode

theorem allFaithful_singleton {node : Node} (h : node.Faithful source) :
    AllFaithful source [node] := .cons h (by simp [AllFaithful])

/-! ### Leaves -/

@[simp] theorem Expression.toList_opening (e : Expression) :
    e.opening.toList = List.replicate e.braces '{' := by
  simp [opening]

@[simp] theorem Expression.toList_closing (e : Expression) :
    e.closing.toList = List.replicate e.braces '}' := by
  simp [closing]

theorem byteLength_toList (text : String) : byteLength text.toList = text.utf8ByteSize := by
  rw [← utf8ByteSize_ofList, String.ofList_toList]

theorem Expression.scan_faithful {c : Cursor} {e : Expression} {d : c.After}
    (h : Expression.scan c = some (e, d)) : e.Faithful c.source := by
  obtain ⟨opened, closed, hopen, hbody, hclose, hstart, htwo, -, -⟩ := Expression.scan_some h
  have hspelled := ((hopen.trans hbody).trans hclose).spells
  have hbodySpan : e.bodySpan = ⟨opened.position, closed.position⟩ := by
    rw [Expression.bodySpan, hbody.position_eq, hopen.position_eq, hstart,
      byteLength_replicate (by decide), byteLength_toList]
  constructor
  · exact ⟨e.braces, htwo, e.toList_opening, e.toList_closing⟩
  · rw [e.toList_opening, e.toList_closing, Expression.scan_span h]
    exact hspelled
  · rw [hbodySpan, ← hopen.source_eq]
    exact hbody.spells

theorem Expression.Faithful.revise {e : Expression} (h : e.Faithful source)
    (revision : Revision) : (e.revise revision).Faithful source :=
  ⟨h.braces, h.whole, h.body⟩

theorem readExpression_faithful {c : Cursor} {s t : Session σ} {e : Expression} {d : c.After}
    (h : readExpression c s = (some (e, d), t)) : e.Faithful c.source := by
  obtain ⟨scanned, hscan, hfinish⟩ := readExpression_some h
  obtain ⟨revision, hrevise⟩ := s.finishExpression_revise scanned
  rw [hfinish] at hrevise
  obtain rfl : e = scanned.revise revision := hrevise
  exact (Expression.scan_faithful hscan).revise revision

theorem segmentBetween_faithful {c d : Cursor} (h : c ≤ d) :
    (Node.segment (segmentBetween c d)).Faithful c.source := by
  obtain ⟨text, hmoves⟩ := h
  simpa [Node.Faithful, segmentBetween, hmoves.textTo_eq] using hmoves.spells

/-- The nodes of the parts of string content. -/
def Content.nodes (content : Content) : List Node :=
  .segment content.first ::
    content.more.flatMap fun (e, s) => [.value (.expression e), .segment s]

theorem readContent_faithful (quote : Option Quote) {segment c : Cursor} (hle : segment ≤ c)
    (s : Session σ) : AllFaithful segment.source (readContent quote segment c s).1.nodes := by
  fun_induction readContent quote segment c s with
  | case1 segment c s hfind last =>
    exact allFaithful_singleton (segmentBetween_faithful (Cursor.le_trans hle c.le_toEnd))
  | case2 segment c s hit hfind hneedle t hread hlt content d u hrest ih =>
    have hnext := ih (Cursor.le_trans hle (Cursor.le_of_lt hlt))
    rwa [hrest] at hnext
  | case3 segment c s hit hfind hneedle e after t hread hlt first content d u hrest ih =>
    have hstart := Cursor.le_trans hle hit.le_start
    have hexpression := readExpression_faithful hread
    have hnext := ih (Cursor.le_refl _)
    rw [Cursor.source_eq_of_le hstart] at hexpression
    rw [hrest, Cursor.source_eq_of_lt after.2, Cursor.source_eq_of_le hstart] at hnext
    exact .cons (segmentBetween_faithful hstart) (.cons hexpression hnext)
  | case4 segment c s hit hfind hneedle last =>
    exact allFaithful_singleton (segmentBetween_faithful (Cursor.le_trans hle hit.le_start))

theorem Text.nodes_eq (t : Text) :
    t.nodes = .value (.text t) :: Content.nodes ⟨t.first, t.more, true⟩ := by
  have hmore (more : List (Expression × Segment)) :
      (more.flatMap fun (e, s) => [TextPart.expression e, .segment s]).map TextPart.node =
        more.flatMap fun (e, s) => [.value (.expression e), .segment s] := by
    induction more with
    | nil => rfl
    | cons part more ih => simp [ih, TextPart.node]
  rw [nodes, parts, List.map_cons, hmore]
  rfl

/-- A string is faithful if it starts at its quote and its content is faithful. -/
theorem Content.text_faithful {quote : Option Quote} {span : Span} {content : Content}
    (hquote : ∀ q, quote = some q → span.Holds source ⟨span.start, q.char⟩)
    (hcontent : AllFaithful source content.nodes) :
    AllFaithful source (Text.mk span quote content.first content.more).nodes := by
  rw [Text.nodes_eq]
  exact .cons hquote hcontent

theorem staticContent_faithful {c : Cursor} {raw : List Char} {d : c.After}
    (h : c.matchQuoted = .ok (some (raw, d))) :
    AllFaithful c.source (staticContent c d raw).nodes := by
  obtain ⟨quote, inner, stop, -, hinner, hstop, hd⟩ := Cursor.matchQuoted_some h
  have hstart : inner.position = c.position + 1 := hinner.position_succ quote.utf8Size_char
  have hend : d.1.position = stop.position + 1 := hd.position_succ quote.utf8Size_char
  have hspells := hstop.spells
  rw [hinner.source_eq, hstart] at hspells
  exact allFaithful_singleton (by simpa [Node.Faithful, staticContent, hend] using hspells)

theorem readText_faithful {c : Cursor} {s t : Session σ} {text : Text} {d : c.After}
    (h : readText c s = (some (text, d), t)) : AllFaithful c.source text.nodes := by
  have hread := readText_read c s
  rw [h] at hread
  cases hread with
  | @static quote raw _ _ _ hquote hraw hbrace hfinish =>
    obtain rfl := finishText_eq hfinish
    refine Content.text_faithful ?_ (staticContent_faithful hraw)
    rintro q hq
    obtain rfl := Option.some.inj hq
    obtain ⟨quote', inner, stop, hquote', hinner, hstop, hd⟩ := Cursor.matchQuoted_some hraw
    obtain rfl : quote = quote' := Option.some.inj (hquote.symm.trans hquote')
    exact hinner.holds_within (Nat.le_refl _)
      (Cursor.position_le_of_le (Cursor.le_trans hstop.le hd.le))
  | @content quote inner content e _ _ _ hquote hinner hcontent hfinish hd =>
    obtain rfl := finishText_eq hfinish
    refine Content.text_faithful ?_ ?_
    · rintro q hq
      obtain rfl := Option.some.inj hq
      exact hinner.holds_within (Nat.le_refl _) (Cursor.position_le_of_le e.2)
    · have hnodes := readContent_faithful (some quote) (Cursor.le_refl inner) s
      rwa [hcontent, hinner.source_eq] at hnodes

theorem readKey_faithful {c : Cursor} {s t : Session σ} {key : Key} {d : c.After}
    (h : readKey c s = (some (key, d), t)) : AllFaithful c.source key.nodes := by
  have hread := readKey_read c s
  rw [h] at hread
  cases hread with
  | text h => exact readText_faithful h
  | expression _ h => exact allFaithful_singleton (readExpression_faithful h)
  | identifier _ _ hidentifier =>
    refine allFaithful_singleton ?_
    unfold Identifier.scan at hidentifier
    split at hidentifier
    · obtain ⟨rfl, rfl⟩ := by simpa using hidentifier
      simpa [Node.Faithful] using (c.moves_matchWhile isIdentifierContinue).spells
    · simp at hidentifier

theorem Scalar.scan_faithful {c : Cursor} {scalar : Scalar} {d : c.After}
    (h : Scalar.scan c = some (scalar, d)) : (Node.value (.scalar scalar)).Faithful c.source := by
  unfold Scalar.scan at h
  split at h
  · simp at h
  · rename_i raw meaning rest hliteral
    obtain ⟨rfl, rfl⟩ := by simpa using h
    simpa [Node.Faithful] using (c.moves_past (literalAt?_append hliteral).1).spells

/-! ### Arrays -/

/-- What an array from `start` on has read up to `c`: faithful values, and commas that are there. -/
structure SlotDraft.FaithfulTo (start : Nat) (c : Cursor) (draft : SlotDraft) : Prop where
  values : ∀ value ∈ slotValues draft.slots, AllFaithful c.source value.nodes
  commas : ∀ position ∈ slotCommas draft.slots,
    Span.Holds c.source ⟨start, c.position⟩ ⟨position, ','⟩

/-- Every value that the rule reads is faithful, and stands where it was read. -/
def ValueRule.Faithful (rule : ValueRule σ n) : Prop :=
  ∀ ⦃c hc s value d t⦄, rule c hc s = (some (value, d), t) → AllFaithful c.source value.nodes

theorem SlotDraft.FaithfulTo.mono {start : Nat} {c d : Cursor} {draft : SlotDraft}
    (h : draft.FaithfulTo start c) (hle : c ≤ d) : draft.FaithfulTo start d := by
  have hspan : Span.contains ⟨start, d.position⟩ ⟨start, c.position⟩ = true :=
    Span.contains_of_le (Nat.le_refl _) (Cursor.position_le_of_le hle)
  constructor
  · rw [Cursor.source_eq_of_le hle]
    exact h.values
  · intro position hposition
    rw [Cursor.source_eq_of_le hle]
    exact (h.commas position hposition).mono hspan

theorem SlotRound.faithful {rule : ValueRule σ n} (hfaithful : rule.Faithful) {start : Nat}
    {c : Cursor} {hc : c.rest.length < n} {draft : SlotDraft} {s : Session σ}
    {round : Round σ SlotDraft c} (hround : SlotRound rule c hc draft s round)
    (hopen : draft.OpenEnded) (hstart : start ≤ c.position) (h : draft.FaithfulTo start c) :
    round.outcome.2.FaithfulTo start round.outcome.1 := by
  have hmono := h.mono round.le_outcome
  cases hround with
  | @comma d hd =>
    constructor
    · rw [Round.outcome_again, SlotDraft.values_comma]
      exact hmono.values
    · rw [Round.outcome_again, SlotDraft.commas_comma hopen]
      refine List.forall_mem_append.mpr ⟨hmono.commas, List.forall_mem_singleton.mpr ?_⟩
      rw [hd.source_eq]
      exact hd.holds_within hstart (Nat.le_refl _)
  | @value value d _ _ hopen hvalue =>
    constructor
    · rw [Round.outcome_again, SlotDraft.values_fill hopen]
      refine List.forall_mem_append.mpr ⟨hmono.values, List.forall_mem_singleton.mpr ?_⟩
      rw [Cursor.source_eq_of_lt d.2]
      exact hfaithful hvalue
    · rw [Round.outcome_again, SlotDraft.commas_fill]
      exact hmono.commas
  | ended | closed | comment | halt | recover => exact hmono

theorem readSlots_faithful {rule : ValueRule σ n} (hquiet : rule.Quiet)
    (hfaithful : rule.Faithful) {start : Nat} {c : Cursor} (hc : c.rest.length < n)
    (draft : SlotDraft) (s : Session σ) (hopen : draft.OpenEnded) (hstart : start ≤ c.position)
    (h : draft.FaithfulTo start c) :
    (readSlots rule c hc draft s).2.1.OpenEnded ∧
      (readSlots rule c hc draft s).2.1.FaithfulTo start (readSlots rule c hc draft s).1.1 := by
  let holds (d : Cursor) (draft : SlotDraft) (_ : Session σ) : Prop :=
    start ≤ d.position ∧ draft.OpenEnded ∧ draft.FaithfulTo start d
  have hrounds := rounds_invariant (slotStep rule) holds ?_ ?_ hc draft s ⟨hstart, hopen, h⟩
  · rw [readSlots_eq_rounds]
    exact hrounds.2
  · rintro d draft t ⟨hstart, hopen, h⟩
    have hle := d.le_skipBlanks
    exact ⟨Nat.le_trans hstart (Cursor.position_le_of_le hle), hopen, h.mono hle⟩
  · rintro d hd draft t ⟨hstart, hopen, h⟩
    have hround := slotStep_round hquiet d hd draft t
    have hle := Round.le_outcome (slotStep rule d hd draft t)
    exact ⟨Nat.le_trans hstart (Cursor.position_le_of_le hle), hround.openEnded hopen,
      hround.faithful hfaithful hopen hstart h⟩

/-! ### Objects -/

/-- A property that is faithful with all its parts. -/
structure Property.Faithful (source : List Char) (p : Property Value) : Prop where
  key : AllFaithful source p.key.nodes
  value : ∀ value, p.value = some value → AllFaithful source value.nodes
  marks : ∀ mark ∈ p.marks, p.span.Holds source mark

theorem Property.Faithful.nodes {p : Property Value} (h : p.Faithful source) :
    AllFaithful source p.nodes := by
  refine .cons h.marks (h.key.append (.flatMap ?_))
  intro value hvalue
  exact h.value value (by simpa using hvalue)

/-- A property that comes to end later keeps its marks, and may take another. -/
theorem Property.Faithful.of_stop {p q : Property Value} (h : p.Faithful source)
    (hkey : q.key = p.key)
    (hvalue : ∀ value, q.value = some value →
      p.value = some value ∨ AllFaithful source value.nodes)
    (hle : p.stop ≤ q.stop)
    (hmarks : ∀ mark ∈ q.marks, mark ∈ p.marks ∨ q.span.Holds source mark) :
    q.Faithful source where
  key := hkey ▸ h.key
  value := by
    intro value hq
    rcases hvalue value hq with hp | hfaithful
    · exact h.value value hp
    · exact hfaithful
  marks := by
    intro mark hmark
    rcases hmarks mark hmark with hp | hholds
    · have hspan : q.span.contains p.span = true := by
        simp [Property.span, Span.contains, hkey, hle]
      exact (h.marks mark hp).mono hspan
    · exact hholds

namespace PropertyDraft

variable {c d : Cursor} {draft : PropertyDraft} {start : Nat}

/-- The properties that an object has read are all faithful. -/
def AllFaithful (source : List Char) (draft : PropertyDraft) : Prop :=
  ∀ p ∈ draft.properties, p.Faithful source

/-- The property being built ends before the place reached, and does not begin after its end. -/
theorem PlacedTo.current_le (h : draft.PlacedTo start c) {p : Property Value}
    (hp : draft.current = some p) : p.key.span.start ≤ p.stop ∧ p.stop ≤ c.position :=
  ⟨(h.placed p (by simp [properties, hp])).row.le, h.stop_le hp⟩

theorem AllFaithful.flush (h : draft.AllFaithful source) (s : Session σ) :
    (draft.flush s).1.AllFaithful source := by
  rw [AllFaithful, properties_flush]
  exact h

theorem AllFaithful.begin (h : draft.AllFaithful c.source) {key : Key} {after : c.After}
    {s t : Session σ} (hkey : readKey c s = (some (key, after), t)) :
    (draft.begin key t).1.AllFaithful c.source := by
  rw [AllFaithful, properties_begin]
  refine List.forall_mem_append.mpr ⟨h, List.forall_mem_singleton.mpr ?_⟩
  exact ⟨readKey_faithful hkey, by simp, by simp [Property.marks]⟩

theorem AllFaithful.colon (h : draft.AllFaithful c.source) (hplaced : draft.PlacedTo start c)
    (hd : c.Moves [':'] d)
    (hlacks : ∀ p, draft.current = some p → p.colon = none ∧ p.value = none ∧ p.comma = none) :
    (draft.colon c.position).AllFaithful c.source := by
  refine forall_modify h ?_
  intro p hp hkept
  obtain ⟨hcolon, hvalue, hcomma⟩ := hlacks p hp
  obtain ⟨hkey, hstop⟩ := hplaced.current_le hp
  have hend : d.position = c.position + 1 := hd.position_succ (by decide)
  refine hkept.of_stop rfl (fun _ => .inl) ?_ ?_
  · simp only [Property.stop, hvalue, hcomma] at hstop ⊢
    omega
  · intro mark hmark
    obtain rfl : mark = ⟨c.position, ':'⟩ := by simpa [Property.marks, hcomma] using hmark
    refine .inr (hd.holds_within (Nat.le_trans hkey hstop) ?_)
    simp [Property.stop, hvalue, hcomma, hend]

theorem AllFaithful.comma (h : draft.AllFaithful c.source) (hplaced : draft.PlacedTo start c)
    (hd : c.Moves [','] d) : (draft.comma c.position).AllFaithful c.source := by
  refine forall_modify h ?_
  intro p hp hkept
  obtain ⟨hkey, hstop⟩ := hplaced.current_le hp
  have hend : d.position = c.position + 1 := hd.position_succ (by decide)
  refine hkept.of_stop rfl (fun _ => .inl) (Nat.le_succ_of_le hstop) ?_
  intro mark hmark
  rcases List.mem_append.mp hmark with hcolon | hcomma
  · exact .inl (List.mem_append_left _ hcolon)
  · obtain rfl : mark = ⟨c.position, ','⟩ := by simpa using hcomma
    exact .inr (hd.holds_within (Nat.le_trans hkey hstop) (Nat.le_of_eq hend))

theorem AllFaithful.fill (h : draft.AllFaithful c.source) (hplaced : draft.PlacedTo start c)
    {value : Value} (hle : c.position ≤ value.span.stop)
    (hlacks : ∀ p, draft.current = some p → p.value = none ∧ p.comma = none)
    (hvalue : DataTemplate.AllFaithful c.source value.nodes) :
    (draft.fill value).AllFaithful c.source := by
  refine forall_modify h ?_
  intro p hp hkept
  obtain ⟨-, hcomma⟩ := hlacks p hp
  obtain ⟨-, hstop⟩ := hplaced.current_le hp
  refine hkept.of_stop rfl ?_ ?_ (fun _ => .inl)
  · intro other hother
    obtain rfl := Option.some.inj hother
    exact .inr hvalue
  · have hend : ({ p with value := some value } : Property Value).stop = value.span.stop := by
      simp [Property.stop, hcomma]
    omega

end PropertyDraft

theorem PropertyRecovery.faithful {c : Cursor} {draft : PropertyDraft} {s : Session σ}
    {start : Nat} {round : Round σ PropertyDraft c} (hround : PropertyRecovery c draft s round)
    (hplaced : draft.PlacedTo start c) (h : draft.AllFaithful c.source) :
    round.outcome.2.AllFaithful c.source := by
  cases hround with
  | lost | closed => exact h
  | @comma landing hland hdelimiter =>
    rw [← Cursor.source_eq_of_le landing.reach] at h ⊢
    exact h.comma (hplaced.mono landing.reach) (Landing.moves hdelimiter)
  | @key landing key d t hland hdelimiter hlt hkey hd =>
    have hbegin := h.begin hkey
    rw [← Cursor.source_eq_of_le landing.reach] at hbegin ⊢
    exact hbegin.colon (hplaced.begin_before hkey landing.reach hd) (Landing.moves hdelimiter)
      ((PropertyDraft.lacks_begin draft key t).of_colon rfl)
  | @detach landing tried hland hdelimiter =>
    have hflush := h.flush (tried.rollback s.checkpoint)
    rw [← Cursor.source_eq_of_le landing.reach] at hflush ⊢
    exact hflush.colon (PropertyDraft.Placed.flush (hplaced.mono landing.reach) _)
      (Landing.moves hdelimiter) (by simp [PropertyDraft.current_flush])

theorem PropertyRound.faithful {rule : ValueRule σ n} (hplaces : rule.Places)
    (hfaithful : rule.Faithful) {c : Cursor} {hc : c.rest.length < n} {draft : PropertyDraft}
    {s : Session σ} {start : Nat} {round : Round σ PropertyDraft c}
    (hround : PropertyRound rule c hc draft s round) (hlacks : draft.Lacks)
    (hplaced : draft.PlacedTo start c) (h : draft.AllFaithful c.source) :
    round.outcome.2.AllFaithful c.source := by
  cases hround with
  | ended | comment | closed | halt => exact h
  | key _ hkey => exact h.begin hkey
  | colon hawaited hd => exact h.colon hplaced hd (hlacks.of_colon hawaited)
  | @value value d t _ hawaited hvalue =>
    have hle := Cursor.position_le_of_le (Cursor.le_of_lt d.2)
    exact h.fill hplaced (by simpa [(hplaces hvalue).1] using hle) (hlacks.of_value hawaited)
      (hfaithful hvalue)
  | comma _ hd => exact h.comma hplaced hd
  | recover _ _ hround => exact hround.faithful hplaced h

theorem readProperties_faithful {rule : ValueRule σ n} (hquiet : rule.Quiet)
    (hplaces : rule.Places) (hfaithful : rule.Faithful) {start : Nat} {c : Cursor}
    (hc : c.rest.length < n) (draft : PropertyDraft) (s : Session σ) (hlacks : draft.Lacks)
    (hplaced : draft.PlacedTo start c) (h : draft.AllFaithful c.source) :
    (readProperties rule c hc draft s).2.1.AllFaithful c.source := by
  let holds (d : Cursor) (draft : PropertyDraft) (_ : Session σ) : Prop :=
    d.source = c.source ∧ draft.Lacks ∧ draft.PlacedTo start d ∧ draft.AllFaithful c.source
  have hrounds := rounds_invariant (propertyStep rule) holds ?_ ?_ hc draft s
    ⟨rfl, hlacks, hplaced, h⟩
  · rw [readProperties_eq_rounds]
    exact hrounds.2.2.2
  · rintro d draft t ⟨hsource, hlacks, hplaced, h⟩
    have hle := d.le_skipBlanks
    exact ⟨(Cursor.source_eq_of_le hle).trans hsource, hlacks, hplaced.mono hle, h⟩
  · rintro d hd draft t ⟨hsource, hlacks, hplaced, h⟩
    have hround := propertyStep_round hquiet d hd draft t
    have hle := Round.le_outcome (propertyStep rule d hd draft t)
    rw [← hsource] at h
    have hnext := hround.faithful hplaces hfaithful hlacks hplaced h
    rw [hsource] at hnext
    exact ⟨(Cursor.source_eq_of_le hle).trans hsource, hround.lacks hlacks,
      hround.placed hplaces hlacks hplaced, hnext⟩

/-! ### Values and documents -/

/-- Every value that is read is faithful, with all nodes below it. -/
theorem readValue_faithful {c : Cursor} {s t : Session σ} {value : Value} {d : c.After}
    (h : readValue c s = (some (value, d), t)) : AllFaithful c.source value.nodes := by
  have hread := readValue_read c s
  rw [h] at hread
  cases hread with
  | text htext => exact readText_faithful htext
  | expression _ hexpression => exact allFaithful_singleton (readExpression_faithful hexpression)
  | @array inner hlt e draft closed u _ hinner hslots hvalue hd =>
    subst hvalue
    have hstart := Cursor.position_le_of_le hinner.le
    have hopened : (readSlots (fun d _ s => readValue d s) inner hlt {} s).2.1.Opened :=
      readSlots_opened readValue_quiet hlt {} s (fun _ => rfl)
    have hloop := readSlots_faithful readValue_quiet
      (fun _ _ _ _ _ _ hvalue => readValue_faithful hvalue) hlt {} s (by simp [SlotDraft.OpenEnded])
      hstart ⟨by simp [slotValues, SlotDraft.slots], by simp [slotCommas, SlotDraft.slots]⟩
    rw [hslots] at hloop hopened
    obtain ⟨hopen, hvalues, hcommas⟩ := hloop
    have hsource : e.1.source = c.source := Cursor.source_eq_of_lt hd
    rw [hsource] at hvalues hcommas
    rw [Value.nodes, slotNodes_eq, SlotDraft.values_finish hopened]
    refine .cons ⟨?_, ?_⟩ (.flatMap hvalues)
    · exact hinner.holds_within (Nat.le_refl _) (Cursor.position_le_of_le e.2)
    · rw [SlotDraft.commas_finish hopened hopen]
      exact hcommas
  | @object inner hlt e draft closed u v _ hinner hbrace hproperties hv hvalue hd =>
    subst hvalue
    have hloop := readProperties_faithful readValue_quiet
      (fun _ _ _ _ _ _ hvalue => readValue_placed hvalue)
      (fun _ _ _ _ _ _ hvalue => readValue_faithful hvalue) hlt {} s
      (by simp [PropertyDraft.Lacks]) ⟨Nat.le_refl inner.position, by simp [PropertyDraft.properties]⟩
      (by simp [PropertyDraft.AllFaithful, PropertyDraft.properties])
    rw [hproperties, hinner.source_eq] at hloop
    rw [Value.nodes, propertyNodes_eq, draft.finished_flush v]
    refine .cons ?_ (.flatMap fun p hp => (hloop p hp).nodes)
    exact hinner.holds_within (Nat.le_refl _) (Cursor.position_le_of_le e.2)
  | scalar _ _ hscalar => exact allFaithful_singleton (Scalar.scan_faithful hscalar)
termination_by c.rest.length

theorem readTextContent_faithful (c : Cursor) (s : Session σ) :
    AllFaithful c.source (readTextContent none c c s).1.nodes :=
  Content.text_faithful (by simp) (readContent_faithful none c.le_refl s)

/-- The value of a document without one is not in its text; all that stands below it is. -/
theorem firstRoot_faithful {options : ReadOptions} {hooks : Hooks σ} {state : σ} {value : Value}
    (h : (firstRoot options hooks state source).1.value = some value) {node : Node}
    (hnode : node ∈ value.nodes)
    (hplaceholder : node ≠ .value (options.emptyInput.value (byteLength source))) :
    node.Faithful source := by
  have hsource := documentStart_source options hooks state source
  have hlength := (documentStart options hooks state source).sourceLength_eq
  have hread := firstRoot_read options hooks state source
  rw [hsource] at hlength
  generalize firstRoot options hooks state source = outcome at hread h
  cases hread with
  | empty hend hvalue =>
    obtain rfl := Option.some.inj h
    rw [hlength] at hvalue
    subst hvalue
    cases hempty : options.emptyInput with
    | asUndefined =>
      rw [hempty] at hnode hplaceholder
      exact absurd (List.mem_singleton.mp (by simpa [EmptyInput.value, Value.nodes] using hnode))
        hplaceholder
    | asEmptyString =>
      rw [hempty] at hnode hplaceholder
      simp only [EmptyInput.value, Value.nodes, Text.nodes_eq, Content.nodes, List.flatMap_nil,
        List.mem_cons, List.not_mem_nil, or_false] at hnode
      rcases hnode with rfl | rfl
      · exact absurd rfl hplaceholder
      · exact ⟨source, [], by simp, by simp⟩
  | value hvalue =>
    obtain rfl := Option.some.inj h
    exact hsource ▸ readValue_faithful hvalue node hnode
  | none => simp at h

/-- Every node of a document is faithful to its source, whatever the text and the options; the
value that stands for an empty document is the one exception. -/
theorem readDocument_reaches_faithful {options : ReadOptions} {hooks : Hooks σ} {state : σ}
    {document : Document} {root : Value} {node : Node}
    (hdocument : (readDocument options hooks state source).1 = .ok document)
    (hroot : document.root = some root) (hnode : (Node.value root).Reaches node)
    (hplaceholder : node ≠ .value (options.emptyInput.value (byteLength source))) :
    node.Faithful source := by
  have hmem : node ∈ root.nodes := hnode.mem_preorder
  have hread := readDocument_read options hooks state source
  generalize readDocument options hooks state source = outcome at hread hdocument
  cases hread with
  | asValue =>
    obtain rfl := Except.ok.inj hdocument
    exact firstRoot_faithful hroot hmem hplaceholder
  | asString =>
    obtain rfl := Except.ok.inj hdocument
    obtain rfl := Option.some.inj hroot
    have hfaithful := readTextContent_faithful (documentStart options hooks state source)
      (notedSession options hooks state source).clearProblems.restartExpressions
    rw [documentStart_source] at hfaithful
    exact hfaithful node hmem
  | failed => simp at hdocument

/-- A broken object between wide characters: a slot without a comma, a colon without a key, and a
string that is not closed. -/
theorem readDocument_reaches_faithful_broken :
    ∃ document root,
      (readDocument { onError := .recover } ({} : Hooks Unit) ()
        "/*é*/\x7bk: [1, 2 3], é, :\x7b\x7bx\x7d\x7d \"ü".toList).1 = .ok document ∧
      document.root = some root ∧ (Node.value root).Reaches (.value root) ∧
      Node.value root ≠ .value (EmptyInput.value (byteLength
        "/*é*/\x7bk: [1, 2 3], é, :\x7b\x7bx\x7d\x7d \"ü".toList) .asUndefined) ∧
      (Node.value root).Faithful "/*é*/\x7bk: [1, 2 3], é, :\x7b\x7bx\x7d\x7d \"ü".toList := by
  have hdocument : ∃ document, (readDocument { onError := .recover } ({} : Hooks Unit) ()
      "/*é*/\x7bk: [1, 2 3], é, :\x7b\x7bx\x7d\x7d \"ü".toList).1 = .ok document ∧
      document.root.map Value.kind = some .object := ⟨_, rfl, by decide +kernel⟩
  obtain ⟨document, hdocument, hkind⟩ := hdocument
  obtain ⟨root, hroot, hkind⟩ := Option.map_eq_some_iff.mp hkind
  have hplaceholder : Node.value root ≠ .value (EmptyInput.value (byteLength
      "/*é*/\x7bk: [1, 2 3], é, :\x7b\x7bx\x7d\x7d \"ü".toList) .asUndefined) := by
    intro heq
    obtain rfl := Node.value.inj heq
    simp [EmptyInput.value, Value.kind, Meaning.kind] at hkind
  exact ⟨document, root, hdocument, hroot, .refl _, hplaceholder,
    readDocument_reaches_faithful hdocument hroot (.refl _) hplaceholder⟩

end DataTemplate
