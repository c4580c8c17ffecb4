/-
A reading without problems passes over nothing but trivia.  Tiles lie side by side: white space and
comments, the punctuation that a composite records, and its parts; together they make up its text.
The rounds of an array or an object add one tile after the other, and a problem is the only way to
leave text out.  Main statements: `readValue_accounted` and `readDocument_accounted`.
-/
import DataTemplate.Proofs.Fidelity
import DataTemplate.Proofs.Scanning
import DataTemplate.Proofs.SessionLaws

namespace DataTemplate

variable {σ : Type} {n : Nat} {source : List Char} {start stop : Nat}

/-! ### Tiles -/

/-- A stretch of the text of a composite: trivia, punctuation of its own, or one of its parts. -/
inductive Tile where
  | filler (position : Nat) (trivia : Filler)
  | mark (sign : Mark)
  | part (inner : Span)

namespace Tile

/-- Where a tile lies. -/
def span : Tile → Span
  | filler position trivia => ⟨position, position + byteLength trivia.text⟩
  | mark sign => sign.span
  | part inner => inner

/-- The punctuation that a tile is. -/
def mark? : Tile → Option Mark
  | mark sign => some sign
  | _ => none

/-- Where the part stands that a tile is. -/
def part? : Tile → Option Span
  | part inner => some inner
  | _ => none

/-- A tile is what it says: trivia and punctuation have their text, and a part is in the source. -/
def In (source : List Char) : Tile → Prop
  | filler position trivia =>
    Span.Spells source ⟨position, position + byteLength trivia.text⟩ trivia.text
  | mark sign => sign.span.Spells source [sign.char]
  | part inner => inner.In source

end Tile

/-- Tiles that lie side by side from `start` to `stop`. -/
def Tiles (source : List Char) (start stop : Nat) : List Tile → Prop
  | [] => start = stop
  | tile :: tiles =>
    tile.span.start = start ∧ tile.In source ∧ Tiles source tile.span.stop stop tiles

theorem Tiles.append {middle : Nat} {tiles others : List Tile} (h : Tiles source start middle tiles)
    (k : Tiles source middle stop others) : Tiles source start stop (tiles ++ others) := by
  induction tiles generalizing start with
  | nil =>
    obtain rfl : start = middle := h
    exact k
  | cons tile tiles ih =>
    obtain ⟨hstart, hin, hrest⟩ := h
    exact ⟨hstart, hin, ih hrest⟩

/-- Whether a byte belongs to a span. -/
def Span.Covers (span : Span) (byte : Nat) : Prop := span.start ≤ byte ∧ byte < span.stop

/-- No byte lies between two tiles. -/
theorem Tiles.covers {tiles : List Tile} (h : Tiles source start stop tiles) {byte : Nat}
    (hstart : start ≤ byte) (hstop : byte < stop) : ∃ tile ∈ tiles, tile.span.Covers byte := by
  induction tiles generalizing start with
  | nil =>
    obtain rfl : start = stop := h
    omega
  | cons tile tiles ih =>
    obtain ⟨hfirst, -, hrest⟩ := h
    by_cases hbyte : byte < tile.span.stop
    · exact ⟨tile, List.mem_cons_self, by omega, hbyte⟩
    · obtain ⟨other, hmem, hcovers⟩ := ih hrest (by omega)
      exact ⟨other, List.mem_cons_of_mem _ hmem, hcovers⟩

theorem Tiles.in_of_mem {tiles : List Tile} (h : Tiles source start stop tiles) {tile : Tile}
    (hmem : tile ∈ tiles) : tile.In source := by
  induction tiles generalizing start with
  | nil => simp at hmem
  | cons first tiles ih =>
    obtain ⟨-, hin, hrest⟩ := h
    rcases List.mem_cons.mp hmem with rfl | hmem
    · exact hin
    · exact ih hrest hmem

/-- Tiles from `start` to `stop` with the given punctuation and the given parts, both in order. -/
def Accounted (source : List Char) (start stop : Nat) (marks : List Mark) (parts : List Span) :
    Prop :=
  ∃ tiles, Tiles source start stop tiles ∧ tiles.filterMap Tile.mark? = marks ∧
    tiles.filterMap Tile.part? = parts

namespace Accounted

variable {marks : List Mark} {parts : List Span}

/-- One more tile. -/
theorem snoc (h : Accounted source start stop marks parts) (tile : Tile)
    (hstart : tile.span.start = stop) (hin : tile.In source) :
    Accounted source start tile.span.stop (marks ++ tile.mark?.toList)
      (parts ++ tile.part?.toList) := by
  obtain ⟨tiles, htiles, rfl, rfl⟩ := h
  refine ⟨tiles ++ [tile], htiles.append ⟨hstart, hin, rfl⟩, ?_, ?_⟩
  · rw [List.filterMap_append]
    cases tile <;> rfl
  · rw [List.filterMap_append]
    cases tile <;> rfl

end Accounted

/-- What is accounted for from `start` up to a place. -/
def AccountedTo (start : Nat) (c : Cursor) (marks : List Mark) (parts : List Span) : Prop :=
  Accounted c.source start c.position marks parts

namespace AccountedTo

variable {c d : Cursor} {marks : List Mark} {parts : List Span}

/-- Nothing lies between a place and itself. -/
theorem nil (c : Cursor) : AccountedTo c.position c [] [] := ⟨[], rfl, rfl, rfl⟩

theorem filler (h : AccountedTo start c marks parts) {trivia : Filler}
    (hd : c.Moves trivia.text d) : AccountedTo start d marks parts := by
  have hin : Tile.In c.source (.filler c.position trivia) := by
    have hspells := hd.spells
    rwa [hd.position_eq] at hspells
  have hnext := Accounted.snoc h (.filler c.position trivia) rfl hin
  rw [AccountedTo, hd.source_eq, hd.position_eq]
  simpa [Tile.span, Tile.mark?, Tile.part?] using hnext

theorem mark (h : AccountedTo start c marks parts) {x : Char} (hd : c.Moves [x] d) :
    AccountedTo start d (marks ++ [⟨c.position, x⟩]) parts := by
  have hnext := Accounted.snoc h (.mark ⟨c.position, x⟩) rfl hd.holds.spelled
  rw [AccountedTo, hd.source_eq, hd.position_eq]
  simpa [Tile.span, Mark.span, Tile.mark?, Tile.part?] using hnext

theorem part (h : AccountedTo start c marks parts) (hle : c ≤ d) {span : Span}
    (hspan : span = ⟨c.position, d.position⟩) : AccountedTo start d marks (parts ++ [span]) := by
  subst hspan
  have hnext := Accounted.snoc h (.part ⟨c.position, d.position⟩) rfl (Span.in_of_le hle)
  rw [AccountedTo, Cursor.source_eq_of_le hle]
  simpa [Tile.span, Tile.mark?, Tile.part?] using hnext

theorem gap (h : AccountedTo start c marks parts) {gap : Gap} (hd : c.Moves gap.text d) :
    AccountedTo start d marks parts := by
  induction gap generalizing c with
  | nil =>
    obtain rfl := (Cursor.Moves.refl c).unique hd
    exact h
  | cons trivia gap ih =>
    obtain ⟨middle, hfirst, hrest⟩ := hd.split
    exact ih (h.filler hfirst) hrest

theorem blanks (h : AccountedTo start c marks parts) {text : List Char}
    (htext : ∀ x ∈ text, isBlank x = true) (hd : c.Moves text d) :
    AccountedTo start d marks parts := by
  obtain ⟨gap, rfl⟩ := exists_gap_of_blanks htext
  exact h.gap hd

theorem skipBlanks (h : AccountedTo start c marks parts) :
    AccountedTo start c.skipBlanks marks parts :=
  h.blanks (List.all_eq_true.mp List.all_takeWhile) (c.moves_matchWhile isBlank)

end AccountedTo

/-! ### Nodes whose text is accounted for -/

/-- All the text of a composite belongs to its parts, to its punctuation or to trivia. -/
structure Span.Explained (source : List Char) (span : Span) (marks : List Mark)
    (parts : List Span) : Prop where
  tiled : Accounted source span.start span.stop marks parts
  covered : ∀ byte, span.Covers byte → (∃ part ∈ parts, part.Covers byte) ∨
    (∃ mark ∈ marks, mark.span.Covers byte) ∨
    ∃ (trivia : Filler) (stretch : Span), stretch.Spells source trivia.text ∧ stretch.Covers byte

theorem Accounted.explained {span : Span} {marks : List Mark} {parts : List Span}
    (h : Accounted source span.start span.stop marks parts) : span.Explained source marks parts where
  tiled := h
  covered := by
    rintro byte ⟨hstart, hstop⟩
    obtain ⟨tiles, htiles, rfl, rfl⟩ := h
    obtain ⟨tile, hmem, hcovers⟩ := htiles.covers hstart hstop
    have hin := htiles.in_of_mem hmem
    cases tile with
    | filler position trivia => exact .inr (.inr ⟨trivia, _, hin, hcovers⟩)
    | mark sign => exact .inr (.inl ⟨sign, List.mem_filterMap.mpr ⟨_, hmem, rfl⟩, hcovers⟩)
    | part inner => exact .inl ⟨inner, List.mem_filterMap.mpr ⟨_, hmem, rfl⟩, hcovers⟩

/-- A closing bracket completes a composite. -/
theorem AccountedTo.close {c d : Cursor} {first : Mark} {marks : List Mark} {parts : List Span}
    (h : AccountedTo start c (first :: marks) parts) {x : Char} (hd : c.Moves [x] d)
    (hx : x.utf8Size = 1) (hsource : d.source = source) :
    Span.Explained source ⟨start, d.position⟩ (first :: (marks ++ [⟨d.position - 1, x⟩])) parts := by
  have hclosed := h.mark hd
  rw [AccountedTo, hsource] at hclosed
  rw [hd.position_succ hx, Nat.add_sub_cancel, ← hd.position_succ hx]
  exact Accounted.explained hclosed

/-- The brackets of an array and its commas. -/
def arrayMarks (span : Span) (slots : List (Slot Value)) : List Mark :=
  ⟨span.start, '['⟩ :: ((slotCommas slots).map (⟨·, ','⟩) ++ [⟨span.stop - 1, ']'⟩])

/-- The braces of an object, and the colons and commas of its properties. -/
def objectMarks (span : Span) (properties : List (Property Value)) : List Mark :=
  ⟨span.start, '{'⟩ :: (properties.flatMap Property.marks ++ [⟨span.stop - 1, '}'⟩])

/-- Where the key and the value of a property stand. -/
def Property.parts (p : Property Value) : List Span :=
  p.key.span :: (p.value.map Value.span).toList

/-- A node that passes over nothing: the text of an array or an object is accounted for. -/
def Node.Accounted (source : List Char) : Node → Prop
  | value (.array span slots) =>
    span.Explained source (arrayMarks span slots) ((slotValues slots).map Value.span)
  | value (.object span properties) =>
    span.Explained source (objectMarks span properties) (properties.flatMap Property.parts)
  | _ => True

/-- Nodes that all pass over nothing. -/
def AllAccounted (source : List Char) (nodes : List Node) : Prop :=
  ∀ node ∈ nodes, node.Accounted source

theorem Text.accounted (t : Text) : AllAccounted source t.nodes := by
  intro node hnode
  rcases List.mem_cons.mp hnode with rfl | hnode
  · trivial
  · obtain ⟨part, -, rfl⟩ := List.mem_map.mp hnode
    cases part <;> trivial

theorem Key.accounted (key : Key) : AllAccounted source key.nodes := by
  cases key with
  | text t => exact t.accounted
  | expression | identifier =>
    intro node hnode
    obtain rfl := List.mem_singleton.mp hnode
    trivial

theorem Property.accounted {p : Property Value}
    (h : ∀ value, p.value = some value → AllAccounted source value.nodes) :
    AllAccounted source p.nodes := by
  refine List.forall_mem_cons.mpr ⟨trivial, List.forall_mem_append.mpr ⟨p.key.accounted, ?_⟩⟩
  intro node hnode
  obtain ⟨value, hvalue, hnode⟩ := List.mem_flatMap.mp hnode
  exact h value (by simpa using hvalue) node hnode

/-! ### Arrays -/

/-- All text of an array that starts at `start` is accounted for up to `c`, and so is the text of
its values. -/
structure SlotDraft.AccountedTo (start : Nat) (c : Cursor) (draft : SlotDraft) : Prop where
  tiled : DataTemplate.AccountedTo start c
    (⟨start, '['⟩ :: (slotCommas draft.slots).map (⟨·, ','⟩))
    ((slotValues draft.slots).map Value.span)
  values : ∀ value ∈ slotValues draft.slots, AllAccounted c.source value.nodes

/-- A rule passes over nothing in the values that it reads without a problem. -/
def ValueRule.Accounts (rule : ValueRule σ n) : Prop :=
  ∀ ⦃c hc s value d t⦄, rule c hc s = (some (value, d), t) → t.Unbroken →
    AllAccounted c.source value.nodes

/-- While no problem is met, all text is accounted for, unless a comment has run to its end. -/
structure SlotDraft.Accounts (start : Nat) (c : Cursor) (draft : SlotDraft) (s : Session σ) :
    Prop where
  opened : draft.Opened
  openEnded : draft.OpenEnded
  accounted : s.Unbroken → draft.AccountedTo start c ∨ c.rest = []

theorem Cursor.rest_skipBlanks_nil {c : Cursor} (h : c.rest = []) : c.skipBlanks.rest = [] := by
  have hle := Cursor.length_le_of_le c.le_skipBlanks
  rw [h, List.length_nil, Nat.le_zero, List.length_eq_zero_iff] at hle
  exact hle

theorem SlotDraft.Accounts.skipBlanks {start : Nat} {c : Cursor} {draft : SlotDraft}
    {s : Session σ} (h : draft.Accounts start c s) : draft.Accounts start c.skipBlanks s where
  opened := h.opened
  openEnded := h.openEnded
  accounted hs := by
    rcases h.accounted hs with ⟨htiled, hvalues⟩ | hend
    · exact .inl ⟨htiled.skipBlanks, (Cursor.source_eq_of_le c.le_skipBlanks).symm ▸ hvalues⟩
    · exact .inr (Cursor.rest_skipBlanks_nil hend)

theorem SlotRound.accounts {rule : ValueRule σ n} (hplaces : rule.Places)
    (haccounts : rule.Accounts) (hgrows : rule.Grows) {start : Nat} {c : Cursor}
    {hc : c.rest.length < n} {draft draft' : SlotDraft} {s t : Session σ} {next : c.After}
    (hround : SlotRound rule c hc draft s (.again next draft' t)) (h : draft.Accounts start c s) :
    draft'.Accounts start next.1 t where
  opened := hround.opened h.opened
  openEnded := hround.openEnded h.openEnded
  accounted ht := by
    have hsource := Cursor.source_eq_of_lt next.2
    have hne := Cursor.rest_ne_nil_of_lt next.2
    cases hround with
    | comma hd =>
      obtain ⟨htiled, hvalues⟩ := (h.accounted ht).resolve_right hne
      left
      constructor
      · rw [SlotDraft.values_comma, SlotDraft.commas_comma h.openEnded]
        simpa using htiled.mark hd
      · rw [SlotDraft.values_comma, hsource]
        exact hvalues
    | comment hd =>
      obtain ⟨htiled, hvalues⟩ := (h.accounted (ht.of_grows (.observe s _))).resolve_right hne
      rcases Cursor.comment?_filler hd with ⟨trivia, hmoves⟩ | hend
      · exact .inl ⟨htiled.filler hmoves, hsource.symm ▸ hvalues⟩
      · exact .inr hend
    | value _ hopen hvalue =>
      obtain ⟨htiled, hvalues⟩ := (h.accounted (ht.of_grows (hgrows hvalue))).resolve_right hne
      left
      constructor
      · rw [SlotDraft.values_fill hopen, SlotDraft.commas_fill, List.map_append]
        exact htiled.part (Cursor.le_of_lt next.2) (hplaces hvalue).1
      · rw [SlotDraft.values_fill hopen, hsource]
        exact List.forall_mem_append.mpr
          ⟨hvalues, List.forall_mem_singleton.mpr (haccounts hvalue ht)⟩
    | recover => exact absurd ht (Session.Unbroken.not_commit _ _ _)

/-- The text of an array that was closed without a problem is accounted for. -/
theorem readSlots_accounted {rule : ValueRule σ n} (hquiet : rule.Quiet) (hplaces : rule.Places)
    (haccounts : rule.Accounts) (hgrows : rule.Grows) {start : Nat} {c : Cursor}
    (hc : c.rest.length < n) (s : Session σ) (h : SlotDraft.Accounts start c {} s)
    (hclosed : (readSlots rule c hc {} s).2.2.1 = true) :
    ∃ d : Cursor, d.Moves [']'] (readSlots rule c hc {} s).1.1 ∧
      (readSlots rule c hc {} s).2.1.Accounts start d (readSlots rule c hc {} s).2.2.2 := by
  have hstep ⦃d : Cursor⦄ (hd : d.rest.length < n) ⦃draft : SlotDraft⦄ ⦃t : Session σ⦄
      ⦃next : d.After⦄ ⦃draft' : SlotDraft⦄ ⦃u : Session σ⦄ (hholds : draft.Accounts start d t)
      (hstep : slotStep rule d hd draft t = .again next draft' u) :
      draft'.Accounts start next.1 u := by
    have hround := slotStep_round hquiet d hd draft t
    rw [hstep] at hround
    exact hround.accounts hplaces haccounts hgrows hholds
  rw [readSlots_eq_rounds] at hclosed ⊢
  obtain ⟨d, hd, draft, t, last, hholds, hstop, hlast⟩ := rounds_closed (slotStep rule)
    (fun d draft t => draft.Accounts start d t) (fun _ _ _ h => h.skipBlanks) hstep hc {} s h hclosed
  have hround := slotStep_round hquiet d hd draft t
  rw [hstop] at hround
  rw [← hlast]
  generalize (rounds (slotStep rule) c hc {} s).2.1 = final at hround ⊢
  generalize (rounds (slotStep rule) c hc {} s).2.2.2 = u at hround ⊢
  cases hround with
  | closed hmoves => exact ⟨d, hmoves, hholds⟩

/-! ### Objects -/

namespace PropertyDraft

variable {draft : PropertyDraft}

/-- A change of the last property that adds to a list of its parts adds to the list of them all. -/
theorem flatMap_modify {α : Type} (g : Property Value → List α) (f : Property Value → Property Value)
    (extra : List α) {p : Property Value} (hp : draft.current = some p) (hf : g (f p) = g p ++ extra) :
    (draft.modify f).properties.flatMap g = draft.properties.flatMap g ++ extra := by
  simp [properties, modify, hp, hf]

/-- All text of an object that starts at `start` is accounted for up to `c`, and so is the text of
its values. -/
structure AccountedTo (start : Nat) (c : Cursor) (draft : PropertyDraft) : Prop where
  tiled : DataTemplate.AccountedTo start c
    (⟨start, '{'⟩ :: draft.properties.flatMap Property.marks)
    (draft.properties.flatMap Property.parts)
  properties : ∀ p ∈ draft.properties, AllAccounted c.source p.nodes
  current : draft.awaited ≠ .keyOrEnd → ∃ p, draft.current = some p

/-- While no problem is met, all text is accounted for, unless a comment has run to its end. -/
structure Accounts (start : Nat) (c : Cursor) (draft : PropertyDraft) (s : Session σ) : Prop where
  lacks : draft.Lacks
  accounted : s.Unbroken → draft.AccountedTo start c ∨ c.rest = []

variable {start : Nat} {c d : Cursor}

theorem Accounts.skipBlanks {s : Session σ} (h : draft.Accounts start c s) :
    draft.Accounts start c.skipBlanks s where
  lacks := h.lacks
  accounted hs := by
    rcases h.accounted hs with hkept | hend
    · exact .inl ⟨hkept.tiled.skipBlanks,
        (Cursor.source_eq_of_le c.le_skipBlanks).symm ▸ hkept.properties, hkept.current⟩
    · exact .inr (Cursor.rest_skipBlanks_nil hend)

/-- A change of the property being built may add a mark or a part, and give it a value. -/
theorem AccountedTo.modify (h : draft.AccountedTo start c) (f : Property Value → Property Value)
    {p : Property Value} (hp : draft.current = some p) {marks : List Mark} {parts : List Span}
    (hmarks : (f p).marks = p.marks ++ marks) (hparts : (f p).parts = p.parts ++ parts)
    (hvalue : ∀ value, (f p).value = some value →
      p.value = some value ∨ AllAccounted c.source value.nodes)
    (hd : DataTemplate.AccountedTo start d
      (⟨start, '{'⟩ :: draft.properties.flatMap Property.marks ++ marks)
      (draft.properties.flatMap Property.parts ++ parts))
    (hsource : d.source = c.source) (awaited : Awaited) :
    { draft.modify f with awaited := awaited }.AccountedTo start d where
  tiled := by
    have hall := draft.flatMap_modify Property.marks f marks hp hmarks
    have hboth := draft.flatMap_modify Property.parts f parts hp hparts
    change DataTemplate.AccountedTo start d
      (_ :: (draft.modify f).properties.flatMap _) ((draft.modify f).properties.flatMap _)
    rw [hall, hboth]
    exact hd
  properties := by
    rw [hsource]
    refine forall_modify h.properties ?_
    intro q hq hkept
    obtain rfl : p = q := Option.some.inj (hp.symm.trans hq)
    apply Property.accounted
    intro value hfp
    rcases hvalue value hfp with hsame | hnew
    · exact fun node hnode => hkept node (by simp [Property.nodes, hsame, hnode])
    · exact hnew
  current := fun _ => ⟨f p, by simp [PropertyDraft.modify, hp]⟩

theorem AccountedTo.begin (h : draft.AccountedTo start c) {key : Key} {after : c.After}
    {s t : Session σ} (hkey : readKey c s = (some (key, after), t)) :
    (draft.begin key t).1.AccountedTo start after.1 := by
  have hsource := Cursor.source_eq_of_lt after.2
  constructor
  · rw [properties_begin]
    simpa [Property.marks, Property.parts] using
      h.tiled.part (Cursor.le_of_lt after.2) (readKey_span hkey)
  · rw [properties_begin, hsource]
    refine List.forall_mem_append.mpr ⟨h.properties, List.forall_mem_singleton.mpr ?_⟩
    exact Property.accounted (by simp)
  · exact fun _ => ⟨_, rfl⟩

theorem AccountedTo.colon (h : draft.AccountedTo start c) (hlacks : draft.Lacks)
    (hawaited : draft.awaited = .colon) (hd : c.Moves [':'] d) :
    (draft.colon c.position).AccountedTo start d := by
  obtain ⟨p, hp⟩ := h.current (by simp [hawaited])
  obtain ⟨hcolon, -, hcomma⟩ := hlacks.of_colon hawaited p hp
  refine h.modify _ hp (by simp [Property.marks, hcolon, hcomma]; rfl) (List.append_nil _).symm
    (fun _ => .inl) ?_ hd.source_eq _
  simpa using h.tiled.mark hd

theorem AccountedTo.comma (h : draft.AccountedTo start c) (hlacks : draft.Lacks)
    (hawaited : draft.awaited = .commaOrEnd) (hd : c.Moves [','] d) :
    (draft.comma c.position).AccountedTo start d := by
  obtain ⟨p, hp⟩ := h.current (by simp [hawaited])
  have hcomma : p.comma = none := by
    have hlast := hlacks p hp
    rwa [hawaited] at hlast
  refine h.modify _ hp (by simp [Property.marks, hcomma]; rfl) (List.append_nil _).symm
    (fun _ => .inl) ?_ hd.source_eq _
  simpa using h.tiled.mark hd

theorem AccountedTo.fill (h : draft.AccountedTo start c) (hlacks : draft.Lacks)
    (hawaited : draft.awaited = .value) {value : Value} (hle : c ≤ d)
    (hspan : value.span = ⟨c.position, d.position⟩)
    (hvalue : AllAccounted c.source value.nodes) : (draft.fill value).AccountedTo start d := by
  obtain ⟨p, hp⟩ := h.current (by simp [hawaited])
  obtain ⟨hnone, -⟩ := hlacks.of_value hawaited p hp
  refine h.modify _ hp (List.append_nil _).symm (by simp [Property.parts, hnone]; rfl) ?_ ?_
    (Cursor.source_eq_of_le hle) _
  · intro other hother
    obtain rfl := Option.some.inj hother
    exact .inr hvalue
  · simpa using h.tiled.part hle hspan

end PropertyDraft

theorem PropertyRound.accounts {rule : ValueRule σ n} (hplaces : rule.Places)
    (haccounts : rule.Accounts) (hgrows : rule.Grows) {start : Nat} {c : Cursor}
    {hc : c.rest.length < n} {draft draft' : PropertyDraft} {s t : Session σ} {next : c.After}
    (hround : PropertyRound rule c hc draft s (.again next draft' t))
    (h : draft.Accounts start c s) : draft'.Accounts start next.1 t where
  lacks := hround.lacks h.lacks
  accounted ht := by
    have hne := Cursor.rest_ne_nil_of_lt next.2
    have hbefore (hgrow : s.Grows t) : draft.AccountedTo start c :=
      (h.accounted (ht.of_grows hgrow)).resolve_right hne
    cases hround with
    | comment hd =>
      have hkept := hbefore (.observe s _)
      rcases Cursor.comment?_filler hd with ⟨trivia, hmoves⟩ | hend
      · exact .inl ⟨hkept.tiled.filler hmoves, hmoves.source_eq.symm ▸ hkept.properties,
          hkept.current⟩
      · exact .inr hend
    | key _ hkey =>
      have law := Session.Grows.law (σ := σ)
      exact .inl ((hbefore (.trans (law.key hkey) (law.begin c _ _ _))).begin hkey)
    | colon hawaited hd => exact .inl ((hbefore (.refl s)).colon h.lacks hawaited hd)
    | value _ hawaited hvalue =>
      exact .inl ((hbefore (hgrows hvalue)).fill h.lacks hawaited (Cursor.le_of_lt next.2)
        (hplaces hvalue).1 (haccounts hvalue ht))
    | comma hawaited hd => exact .inl ((hbefore (.refl s)).comma h.lacks hawaited hd)
    | recover _ hgo hround =>
      exact absurd (ht.of_grows (hround.grows (Session.commit_recovering hgo)))
        (Session.Unbroken.not_commit _ _ _)

/-- The text of an object that was closed without a problem is accounted for. -/
theorem readProperties_accounted {rule : ValueRule σ n} (hquiet : rule.Quiet)
    (hplaces : rule.Places) (haccounts : rule.Accounts) (hgrows : rule.Grows) {start : Nat}
    {c : Cursor} (hc : c.rest.length < n) (s : Session σ)
    (h : PropertyDraft.Accounts start c {} s)
    (hclosed : (readProperties rule c hc {} s).2.2.1 = true)
    (ht : (readProperties rule c hc {} s).2.2.2.Unbroken) :
    ∃ d : Cursor, d.Moves ['}'] (readProperties rule c hc {} s).1.1 ∧
      (readProperties rule c hc {} s).2.1.AccountedTo start d := by
  have hstep ⦃d : Cursor⦄ (hd : d.rest.length < n) ⦃draft : PropertyDraft⦄ ⦃t : Session σ⦄
      ⦃next : d.After⦄ ⦃draft' : PropertyDraft⦄ ⦃u : Session σ⦄ (hholds : draft.Accounts start d t)
      (hstep : propertyStep rule d hd draft t = .again next draft' u) :
      draft'.Accounts start next.1 u := by
    have hround := propertyStep_round hquiet d hd draft t
    rw [hstep] at hround
    exact hround.accounts hplaces haccounts hgrows hholds
  rw [readProperties_eq_rounds] at hclosed ht ⊢
  obtain ⟨d, hd, draft, t, last, hholds, hstop, hlast⟩ := rounds_closed (propertyStep rule)
    (fun d draft t => draft.Accounts start d t) (fun _ _ _ h => h.skipBlanks) hstep hc {} s h hclosed
  have hround := propertyStep_round hquiet d hd draft t
  rw [hstop] at hround
  rw [← hlast]
  generalize (rounds (propertyStep rule) c hc {} s).2.1 = final at hround ⊢
  generalize (rounds (propertyStep rule) c hc {} s).2.2.2 = u at hround ht
  cases hround with
  | closed hmoves =>
    have hne : d.rest ≠ [] := by simp [hmoves.rest_eq]
    exact ⟨d, hmoves, (hholds.accounted ht).resolve_right hne⟩
  | recover _ hgo hround =>
    exact absurd (ht.of_grows (hround.grows (Session.commit_recovering hgo)))
      (Session.Unbroken.not_commit _ _ _)

/-! ### Values and documents -/

/-- A value that is read without a problem passes over nothing, nor does any node below it. -/
theorem readValue_accounted {c : Cursor} {s t : Session σ} {value : Value} {d : c.After}
    (h : readValue c s = (some (value, d), t)) (ht : t.Unbroken) :
    AllAccounted c.source value.nodes := by
  have hread := readValue_read c s
  rw [h] at hread
  cases hread with
  | @text text => exact text.accounted
  | expression | scalar =>
    intro node hnode
    obtain rfl := List.mem_singleton.mp hnode
    trivial
  | @array inner hlt e draft closed u _ hinner hslots hvalue hd =>
    subst hvalue
    have hstart : SlotDraft.Accounts c.position inner {} s := by
      refine ⟨fun _ => rfl, by simp [SlotDraft.OpenEnded], fun _ => .inl ⟨?_, ?_⟩⟩
      · exact (AccountedTo.nil c).mark hinner
      · simp [slotValues, SlotDraft.slots]
    obtain ⟨hu, hclosed⟩ := (ht.of_grows (.observe _ _)).of_commitUnclosed
    have hloop := readSlots_accounted readValue_quiet
      (fun _ _ _ _ _ _ hvalue => readValue_placed hvalue)
      (fun _ _ _ _ _ _ hvalue ht => readValue_accounted hvalue ht)
      (fun _ _ _ _ _ hvalue => readValue_grows hvalue) hlt s hstart
    rw [hslots] at hloop
    obtain ⟨last, hlast, hopened, hopen, haccounted⟩ := hloop hclosed
    obtain ⟨htiled, hvalues⟩ := (haccounted hu).resolve_right (by simp [hlast.rest_eq])
    have hsource : last.source = c.source :=
      hlast.source_eq.symm.trans (Cursor.source_eq_of_lt hd)
    have hexplained := htiled.close hlast (by decide) (Cursor.source_eq_of_lt hd)
    rw [Value.nodes, slotNodes_eq, SlotDraft.values_finish hopened]
    refine List.forall_mem_cons.mpr ⟨?_, ?_⟩
    · rw [Node.Accounted, arrayMarks, SlotDraft.values_finish hopened,
        SlotDraft.commas_finish hopened hopen]
      exact hexplained
    · intro node hnode
      obtain ⟨value, hvalue, hnode⟩ := List.mem_flatMap.mp hnode
      exact hsource ▸ hvalues value hvalue node hnode
  | @object inner hlt e draft closed u v _ hinner hbrace hproperties hv hvalue hd =>
    subst hvalue
    have hstart : PropertyDraft.Accounts c.position inner {} s := by
      refine ⟨by simp [PropertyDraft.Lacks], fun _ => .inl ⟨?_, ?_, by simp⟩⟩
      · exact (AccountedTo.nil c).mark hinner
      · simp [PropertyDraft.properties]
    have hflush := Session.Grows.law.flush c draft v
    obtain ⟨hu, hclosed⟩ :=
      (hv ▸ (ht.of_grows (.observe _ _)).of_grows hflush).of_commitUnclosed
    have hloop := readProperties_accounted readValue_quiet
      (fun _ _ _ _ _ _ hvalue => readValue_placed hvalue)
      (fun _ _ _ _ _ _ hvalue ht => readValue_accounted hvalue ht)
      (fun _ _ _ _ _ hvalue => readValue_grows hvalue) hlt s hstart
    rw [hproperties] at hloop
    obtain ⟨last, hlast, htiled, hnodes, -⟩ := hloop hclosed hu
    have hsource : last.source = c.source :=
      hlast.source_eq.symm.trans (Cursor.source_eq_of_lt hd)
    have hexplained := htiled.close hlast (by decide) (Cursor.source_eq_of_lt hd)
    rw [Value.nodes, propertyNodes_eq, draft.finished_flush v]
    refine List.forall_mem_cons.mpr ⟨hexplained, ?_⟩
    intro node hnode
    obtain ⟨p, hp, hnode⟩ := List.mem_flatMap.mp hnode
    exact hsource ▸ hnodes p hp node hnode
termination_by c.rest.length

/-- What is skipped is trivia, unless a comment has run to the end of the text. -/
theorem skipTrivia_moves (c : Cursor) (s : Session σ) :
    (∃ gap : Gap, c.Moves gap.text (skipTrivia c s).1.1) ∨ (skipTrivia c s).1.1.rest = [] := by
  have hblanks (c : Cursor) : ∃ gap : Gap, c.Moves gap.text c.skipBlanks := by
    have hrun : ∀ x ∈ c.runOf isBlank, isBlank x = true := List.all_eq_true.mp List.all_takeWhile
    obtain ⟨gap, hgap⟩ := exists_gap_of_blanks hrun
    exact ⟨gap, hgap ▸ c.moves_matchWhile isBlank⟩
  fun_induction skipTrivia c s with
  | case1 c s => exact .inl (hblanks c)
  | case2 c s d hd hlt e t hrest ih =>
    rw [hrest] at ih
    rcases ih with ⟨gap, hgap⟩ | hend
    · obtain ⟨blanks, hskip⟩ := hblanks c
      rcases Cursor.comment?_filler hd with ⟨trivia, hmoves⟩ | hend
      · have htext : Gap.text (blanks ++ trivia :: gap) =
            blanks.text ++ (trivia.text ++ gap.text) := by simp [Gap.text]
        exact .inl ⟨blanks ++ trivia :: gap, htext ▸ hskip.trans (hmoves.trans hgap)⟩
      · obtain ⟨text, hgap⟩ : d.1 ≤ e.1 := hgap.le
        right
        have hle := Cursor.length_le_of_le hgap.le
        rw [hend, List.length_nil, Nat.le_zero, List.length_eq_zero_iff] at hle
        exact hle
    · exact .inr hend

theorem Cursor.isBlank_of_atEnd {c : Cursor} (h : c.skipBlanks.atEnd = true) :
    ∀ x ∈ c.rest, isBlank x = true := by
  have hnone : c.skipBlanks.rest = [] := by simpa [atEnd] using h
  have hrest := (c.moves_matchWhile isBlank).rest_eq
  rw [show (c.matchWhile isBlank).rest = [] from hnone, List.append_nil] at hrest
  rw [hrest]
  exact List.all_eq_true.mp List.all_takeWhile

section Document

variable {options : ReadOptions} {hooks : Hooks σ} {state : σ}

/-- Without a problem no note about text after the value was made: there is none that matters. -/
theorem notedSession_of_no_problems
    (h : (notedSession options hooks state source).problems = #[]) :
    notedSession options hooks state source = (firstRoot options hooks state source).2 ∧
      (options.remainder = .asError →
        isExpression (firstRoot options hooks state source).1.value = false →
        (firstRoot options hooks state source).1.after.1.atEnd = true) := by
  unfold notedSession noteRemainder at h ⊢
  dsimp only at h ⊢
  split at h
  · simp [Session.push] at h
  · rename_i hquiet
    rw [if_neg hquiet]
    refine ⟨rfl, fun hremainder hother => ?_⟩
    simpa [Session.hasProblems, h, hremainder, hother] using hquiet

/-- Text after the value is white space if it would be a problem, or make the value a string. -/
theorem firstRoot_atEnd (hkeeps : rereads options hooks state source = false)
    (hproblems : (notedSession options hooks state source).problems = #[])
    (hremainder : options.remainder = .asError) :
    (firstRoot options hooks state source).1.after.1.atEnd = true := by
  cases hkind : isExpression (firstRoot options hooks state source).1.value with
  | false => exact (notedSession_of_no_problems hproblems).2 hremainder hkind
  | true => simpa [rereads, wantsString, Session.hasProblems, hproblems, hkind] using hkeeps

/-- The value of a document without problems is read by a session without problems. -/
theorem firstRoot_unbroken {value : Value} {d : (documentStart options hooks state source).After}
    (hvalue : readValue (documentStart options hooks state source)
      (openDocument options hooks state source).2 =
        (some (value, d), (firstRoot options hooks state source).2))
    (hproblems : (firstRoot options hooks state source).2.problems = #[]) :
    (firstRoot options hooks state source).2.Unbroken := by
  have hopen := Session.Grows.law.trivia (.ofText source)
    (Session.start hooks state options.onError.halts)
  exact Session.Unbroken.of_problems ⟨rfl, rfl⟩ (hopen.trans (readValue_grows hvalue)) hproblems

end Document

/-- A document without problems that is not read as a string passes over nothing but trivia: in
front of its value, inside every array and every object, and, where the options ask for it, after
its value. -/
theorem readDocument_accounted {options : ReadOptions} {hooks : Hooks σ} {state : σ}
    {document : Document} (hdocument : (readDocument options hooks state source).1 = .ok document)
    (hproblems : document.problems = []) (hkept : document.readAsString = false)
    (hplaceholder : document.root ≠ some (options.emptyInput.value (byteLength source))) :
    (∃ gap : Gap, Span.Spells source ⟨0, document.start⟩ gap.text) ∧
    (∃ root, document.root = some root ∧
      ∀ node, (Node.value root).Reaches node → node.Accounted source) ∧
    (options.remainder = .asError → ∃ blanks, (∀ x ∈ blanks, isBlank x = true) ∧
      Span.Spells source ⟨document.stop, byteLength source⟩ blanks) := by
  have hread := readDocument_read options hooks state source
  generalize readDocument options hooks state source = outcome at hread hdocument
  cases hread with
  | asString =>
    obtain rfl := Except.ok.inj hdocument
    simp at hkept
  | failed => simp at hdocument
  | asValue hkeeps =>
    obtain rfl := Except.ok.inj hdocument
    have hnone : (notedSession options hooks state source).problems = #[] := by
      simpa using hproblems
    have hsource := documentStart_source options hooks state source
    have hlength := (documentStart options hooks state source).sourceLength_eq
    rw [hsource] at hlength
    have hfirst : (firstRoot options hooks state source).2.problems = #[] :=
      (notedSession_of_no_problems hnone).1 ▸ hnone
    obtain ⟨value, d, hvalue, hroot, hend⟩ :=
      (firstRoot_read options hooks state source).exists_value hfirst (hlength ▸ hplaceholder)
    refine ⟨?_, ⟨value, hroot, ?_⟩, ?_⟩
    · rcases skipTrivia_moves (.ofText source)
        (Session.start hooks state options.onError.halts) with ⟨gap, hgap⟩ | hrest
      · exact ⟨gap, hgap.spells⟩
      · exact absurd hrest (Cursor.rest_ne_nil_of_lt d.2)
    · intro node hnode
      exact hsource ▸ readValue_accounted hvalue (firstRoot_unbroken hvalue hfirst) node
        hnode.mem_preorder
    · intro hremainder
      have hatEnd := firstRoot_atEnd hkeeps hnone hremainder
      rw [hend] at hatEnd
      refine ⟨d.1.rest, Cursor.isBlank_of_atEnd hatEnd, ?_⟩
      have hspells := d.1.moves_toEnd.spells
      have htotal : d.1.toEnd.position = d.1.sourceLength := d.1.moves_toEnd.position_eq
      rw [htotal, d.1.sourceLength_eq, Cursor.source_eq_of_lt d.2, hsource] at hspells
      simpa [hroot, (readValue_placed hvalue).1] using hspells

/-- An array between comments, with a gap and a dropped last slot, and an object in it. -/
theorem readDocument_accounted_nested :
    ∃ document,
      (readDocument { onError := .stop } ({} : Hooks Unit) ()
        "/*é*/ [1, , \x7bk: '\x7d', // c\n\x7d,] \t".toList).1 = .ok document ∧
      document.problems = [] ∧ document.readAsString = false ∧
      document.root ≠ some (EmptyInput.value (byteLength
        "/*é*/ [1, , \x7bk: '\x7d', // c\n\x7d,] \t".toList) .asUndefined) ∧
      (∃ root, document.root = some root ∧
        (Node.value root).Accounted "/*é*/ [1, , \x7bk: '\x7d', // c\n\x7d,] \t".toList) := by
  have hdocument : ∃ document, (readDocument { onError := .stop } ({} : Hooks Unit) ()
      "/*é*/ [1, , \x7bk: '\x7d', // c\n\x7d,] \t".toList).1 = .ok document ∧
      document.problems = [] ∧ document.readAsString = false ∧
      document.root.map Value.kind = some .array :=
    ⟨_, rfl, by decide +kernel, by decide +kernel, by decide +kernel⟩
  obtain ⟨document, hdocument, hproblems, hkept, hkind⟩ := hdocument
  have hplaceholder : document.root ≠ some (EmptyInput.value (byteLength
      "/*é*/ [1, , \x7bk: '\x7d', // c\n\x7d,] \t".toList) .asUndefined) := by
    intro hroot
    simp [hroot, EmptyInput.value, Value.kind, Meaning.kind] at hkind
  obtain ⟨-, ⟨root, hroot, haccounted⟩, -⟩ :=
    readDocument_accounted hdocument hproblems hkept hplaceholder
  exact ⟨document, hdocument, hproblems, hkept, hplaceholder, root, hroot, haccounted _ (.refl _)⟩

end DataTemplate
