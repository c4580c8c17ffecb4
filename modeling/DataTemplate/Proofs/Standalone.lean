/-
Texts that stand for a value or a key.  Such a text, read alone, is one value from its first character
to its last, and wherever it stands in another text it is read as the same value, moved along.  All
printed values and keys are such texts.  Main statements: `parse_of_readValue`, `ValueText.finds`,
`KeyText.finds` and `Form.exists_valueText`.
-/
import DataTemplate.Proofs.Locality
import DataTemplate.Proofs.Placement
import DataTemplate.Proofs.RoundTrip

namespace DataTemplate

variable {τ : Type}

/-! ### Documents that are one value -/

/-- A document that opens with a token starts at its first character. -/
theorem documentStart_of_token {σ : Type} {options : ReadOptions} {hooks : Hooks σ} {state : σ}
    {source : List Char} (hplain : (Session.start hooks state options.onError.halts).Plain)
    (h : tokenMayStart source = true) :
    documentStart options hooks state source = .ofText source := by
  have hstart : (documentStart options hooks state source).rest = source :=
    (skipTrivia_gap [] (c := .ofText source) hplain rfl h).1
  have hle : Cursor.ofText source ≤ documentStart options hooks state source :=
    (skipTrivia (.ofText source) (Session.start hooks state options.onError.halts)).1.2
  have hmoves : (Cursor.ofText source).Moves [] (documentStart options hooks state source) :=
    Cursor.moves_of_rest_eq hle (by rw [hstart]; rfl)
  exact hmoves.unique (.refl _)

theorem openDocument_plain (options : ReadOptions) (source : List Char) :
    (openDocument options ({} : Hooks Unit) () source).2.Plain ∧
      (openDocument options ({} : Hooks Unit) () source).2.haltOnProblem = options.onError.halts := by
  obtain ⟨state, hsession⟩ := skipTrivia_session (.ofText source)
    (Session.start ({} : Hooks Unit) () options.onError.halts)
  have hopen : (openDocument options ({} : Hooks Unit) () source).2 =
      { Session.start ({} : Hooks Unit) () options.onError.halts with state := state } := hsession
  rw [hopen]
  exact ⟨⟨rfl, rfl, rfl, fun _ _ => rfl⟩, rfl⟩

/-- A value up to the end of the text is the root, and nothing comes after it. -/
theorem readRoot_of_value (emptyInput : EmptyInput) {σ : Type} {c : Cursor} {s t : Session σ}
    {value : Value} {d : c.After} (h : readValue c s = (some (value, d), t)) (hend : d.1.rest = []) :
    (readRoot emptyInput c s).1.value = some value ∧
      (readRoot emptyInput c s).1.after.1.rest = [] ∧ (readRoot emptyInput c s).2 = t := by
  have hopen : c.atEnd = false := by simpa [Cursor.atEnd] using Cursor.rest_ne_nil_of_lt d.2
  have hskip : d.1.skipBlanks.rest = [] := by
    simp [Cursor.skipBlanks, Cursor.matchWhile, Cursor.past, hend]
  unfold readRoot
  simp only [hopen, h]
  exact ⟨rfl, hskip, rfl⟩

/-- Text with a string, an array or an object as its value is not read again, whatever problems it
has, unless the options ask for it. -/
theorem wantsString_of_kind {σ : Type} {options : ReadOptions} (hpolicy : options.onError ≠ .asString)
    {c : Cursor} {root : Root c} (hkind : mayBeLoose root.value = false) (s : Session σ) :
    wantsString options root s = false := by
  have hexpression : isExpression root.value = false := by
    unfold mayBeLoose at hkind
    split at hkind
    all_goals simp_all [isExpression]
  simp [wantsString, hkind, hexpression, hpolicy]

/-- A document that is one value has it as its root: if the value is read without a problem, and under
recovery, for a string, an array or an object, with whatever problems it has. -/
theorem parse_of_readValue (options : ReadOptions) (source : List Char)
    (hstart : tokenMayStart source = true) :
    ∃ s : Session Unit, s.Plain ∧ s.haltOnProblem = options.onError.halts ∧ ∀ ⦃value d t⦄,
      readValue (.ofText source) s = (some (value, d), t) → d.1.rest = [] →
      t.problems = #[] ∨ options.onError = .recover ∧ mayBeLoose (some value) = false →
      ∃ document, parse options (String.ofList source) = .ok document ∧
        document.root = some value ∧ document.start = 0 ∧ document.stop = value.span.stop ∧
        document.problems = t.problems.toList ∧ document.readAsString = false := by
  let hooks : Hooks Unit := {}
  have hfresh : (Session.start hooks () options.onError.halts).Plain :=
    ⟨rfl, rfl, rfl, fun _ _ => rfl⟩
  have hc := documentStart_of_token hfresh hstart
  obtain ⟨hplain, hhalts⟩ := openDocument_plain options source
  refine ⟨(openDocument options hooks () source).2, hplain, hhalts, ?_⟩
  rw [← hc]
  intro value d t hread hend hcases
  obtain ⟨hvalue, hafter, hlast⟩ := readRoot_of_value options.emptyInput hread hend
  have hnoted : notedSession options hooks () source = t :=
    (noteRemainder_of_end options _ hafter).trans hlast
  have hkeeps : rereads options hooks () source = false := by
    rcases hcases with hnone | ⟨hrecover, hkind⟩
    · exact wantsString_of_end options (hnoted ▸ hnone) hafter
    · exact wantsString_of_kind (by simp [hrecover]) (hvalue ▸ hkind) _
  have hroot : (firstRoot options hooks () source).1.value = some value := hvalue
  have hdocument := readDocument_read options hooks () source
  unfold parse
  rw [String.toList_ofList]
  generalize readDocument options hooks () source = outcome at hdocument ⊢
  cases hdocument with
  | asValue hvalues hpolicy =>
    exact ⟨_, rfl, hroot, congrArg Cursor.position hc, by rw [hroot]; rfl, by rw [hnoted], rfl⟩
  | asString hrereads => simp [hkeeps] at hrereads
  | failed hvalues hpolicy hproblem =>
    rw [hnoted] at hproblem
    rcases hcases with hnone | ⟨hrecover, -⟩
    · simp [hnone] at hproblem
    · simp [hrecover] at hpolicy

/-! ### Values -/

/-- The value that a text is when it is read alone: all of the text is the value, and no problem is
met. -/
def aloneValue? (text : List Char) : Option Value :=
  match parse {} (String.ofList text) with
  | .error _ => none
  | .ok document =>
    if document.start == 0 && document.stop == byteLength text && !document.readAsString then
      document.root
    else none

/-- The value that a text is when it is read alone, if no string in it leaves braces open to whatever
comes after it. -/
def valueOf? (text : List Char) : Option Value := (aloneValue? text).filter Value.settled

/-- A text that is a value when it is read alone, and that leaves no braces open. -/
structure ValueText where
  text : List Char
  ne_nil : text ≠ []
  isValue : (valueOf? text).isSome = true

/-- The value that the text is when it is read alone. -/
def ValueText.value (t : ValueText) : Value := (valueOf? t.text).get t.isValue

theorem ValueText.valueOf?_eq (t : ValueText) : valueOf? t.text = some t.value :=
  (Option.some_get t.isValue).symm

/-- A document that starts at the first character has no trivia in front of it. -/
theorem documentStart_of_zero {σ : Type} {options : ReadOptions} {hooks : Hooks σ} {state : σ}
    {source : List Char} (h : (documentStart options hooks state source).position = 0) :
    documentStart options hooks state source = .ofText source := by
  obtain ⟨text, hmoves⟩ :=
    (skipTrivia (.ofText source) (Session.start hooks state options.onError.halts)).1.2
  have hposition : byteLength text = 0 := by
    have hend : (documentStart options hooks state source).position =
        (Cursor.ofText source).position + byteLength text := hmoves.position_eq
    rw [h] at hend
    omega
  obtain rfl := byteLength_eq_zero_iff.mp hposition
  exact hmoves.unique (Cursor.Moves.refl _)

/-- What is noted after the value of a document is one more problem, if anything. -/
theorem firstRoot_problems {σ : Type} (options : ReadOptions) (hooks : Hooks σ) (state : σ)
    (source : List Char) (h : (notedSession options hooks state source).problems.size ≤ 0) :
    (firstRoot options hooks state source).2.problems = #[] := by
  unfold notedSession at h
  dsimp only at h
  rcases noteRemainder_cases options (firstRoot options hooks state source).1
    (firstRoot options hooks state source).2 with hsame | ⟨position, hpush⟩
  · rw [hsame] at h
    exact Array.eq_empty_of_size_eq_zero (Nat.le_zero.mp h)
  · rw [hpush] at h
    simp [Session.push] at h

theorem Session.Plain.unbroken {σ : Type} {s : Session σ} (h : s.Plain) : s.Unbroken :=
  ⟨h.none_met, h.going⟩

theorem Cursor.rest_nil_of_position {text : List Char} {d : Cursor} (hle : ofText text ≤ d)
    (h : d.position = byteLength text) : d.rest = [] := by
  have hlength := sourceLength_eq_of_le hle
  have hstart : (ofText text).sourceLength = byteLength text := sourceLength_eq _
  rw [hstart, sourceLength, h] at hlength
  exact byteLength_eq_zero_iff.mp (by omega)

theorem Cursor.position_of_rest_nil {text : List Char} {d : Cursor} (hle : ofText text ≤ d)
    (h : d.rest = []) : d.position = byteLength text := by
  have hlength := sourceLength_eq_of_le hle
  have hstart : (ofText text).sourceLength = byteLength text := sourceLength_eq _
  rw [hstart, sourceLength, h] at hlength
  exact hlength

/-- Reading a text that is a value finds that value, up to the end of the text. -/
theorem readValue_of_valueOf? {text : List Char} {value : Value} (hne : text ≠ [])
    (h : valueOf? text = some value) :
    ∃ s d t, s.Plain ∧ readValue (σ := Unit) (.ofText text) s = (some (value, d), t) ∧
      t.Unbroken ∧ d.1.rest = [] ∧ value.settled = true := by
  obtain ⟨halone, hsettled⟩ := Option.filter_eq_some_iff.mp h
  unfold aloneValue? at halone
  split at halone
  · simp at halone
  · rename_i document hparse
    split at halone
    · rename_i hwhole
      simp only [Bool.and_eq_true, beq_iff_eq, Bool.not_eq_true'] at hwhole
      obtain ⟨⟨hstart, hstop⟩, hstring⟩ := hwhole
      rw [parse, String.toList_ofList] at hparse
      have hread := readDocument_read {} ({} : Hooks Unit) () text
      generalize readDocument {} ({} : Hooks Unit) () text = outcome at hread hparse
      cases hread with
      | asString => obtain rfl := Except.ok.inj hparse; simp at hstring
      | failed => simp at hparse
      | asValue hkeeps hpolicy =>
        obtain rfl := Except.ok.inj hparse
        have hnoted := hpolicy rfl
        have hplain := (openDocument_plain {} text).1
        have hproblems := firstRoot_problems {} ({} : Hooks Unit) () text
          (Array.getElem?_eq_none_iff.mp hnoted)
        have hfirst := firstRoot_read {} ({} : Hooks Unit) () text
        generalize firstRoot {} ({} : Hooks Unit) () text = first at *
        generalize (openDocument {} ({} : Hooks Unit) () text).2 = s at *
        have hc := documentStart_of_zero hstart
        generalize documentStart {} ({} : Hooks Unit) () text = c at *
        subst hc
        cases hfirst with
        | empty hend => exact absurd hend hne
        | none => simp at halone
        | @value found d t hread =>
          obtain rfl : found = value := Option.some.inj halone
          have hspan := (readValue_placed hread).1
          have hend : d.1.position = byteLength text := by simpa [hspan] using hstop
          have ht := hplain.unbroken.of_problems (readValue_grows hread) hproblems
          exact ⟨s, d, t, hplain, hread, ht, Cursor.rest_nil_of_position (Cursor.le_of_lt d.2) hend,
            hsettled⟩
    · simp at halone

/-- The text alone stands in the longer text from `c` on. -/
theorem Cursor.embeds_ofText {c : Cursor} {text rest : List Char} (hc : c.rest = text ++ rest) :
    (ofText text).Embeds c.position rest c := ⟨hc, (Nat.zero_add _).symm⟩

/-- What is found at the end of the text alone is found right behind the text. -/
theorem Finds.moves {α : Type} {c d : Cursor} {text rest : List Char} {s : Session τ}
    {reading : Reading τ α c} {a : α} (hc : c.rest = text ++ rest) (hd : d.rest = [])
    (h : Finds c.position rest s reading a d) :
    ∃ d' t, reading = (some (a, d'), t) ∧ c.Moves text d'.1 ∧ s.Quiet t := by
  obtain ⟨d', t, hread, hembeds, hquiet⟩ := h
  have hrest : d'.1.rest = rest := by rw [hembeds.rest_eq, hd, List.nil_append]
  exact ⟨d', t, hread, Cursor.moves_of_rest_eq (Cursor.le_of_lt d'.2) (hrest ▸ hc), hquiet⟩

/-- Wherever a text that is a value stands, it is read as that value, moved along, if a token may end
behind it. -/
theorem ValueText.finds (v : ValueText) {c : Cursor} {rest : List Char} {s : Session τ}
    (hs : s.Neutral) (hc : c.rest = v.text ++ rest) (hrest : tokenMayEnd rest = true) :
    ∃ d t, readValue c s = (some (v.value.shift c.position, d), t) ∧ c.Moves v.text d.1 ∧
      s.Quiet t := by
  obtain ⟨s₀, d, t, hplain, hread, ht, hend, hsettled⟩ :=
    readValue_of_valueOf? v.ne_nil v.valueOf?_eq
  have hfinds := readValue_embeds (.ofText v.text) hplain hs (Cursor.embeds_ofText hc) hread ht
    hsettled (by rw [hend]; exact hrest)
  exact hfinds.moves hc hend

/-- A text that is a value starts with no blank, no comment and no delimiter. -/
theorem ValueText.head (v : ValueText) : ∃ x rest, v.text = x :: rest ∧ x ∉ breakChars := by
  obtain ⟨s, d, t, -, hread, -⟩ := readValue_of_valueOf? v.ne_nil v.valueOf?_eq
  exact readValue_head hread

/-! ### Keys -/

/-- The key that a value is, if it is a string or an expression. -/
def Value.key? : Value → Option Key
  | .text t => some (.text t)
  | .expression e => some (.expression e)
  | _ => none

/-- A text that is a key: a string or an expression by itself, or a bare identifier. -/
inductive KeyText where
  | value (v : ValueText) (isKey : v.value.key?.isSome = true)
  | identifier (form : IdentifierForm)

namespace KeyText

/-- The spelling of a key. -/
def text : KeyText → List Char
  | value v _ => v.text
  | identifier form => form.text

/-- The key that the text is when it is read alone. -/
def key : KeyText → Key
  | value v isKey => v.value.key?.get isKey
  | identifier form =>
    .identifier ⟨⟨0, byteLength form.text⟩, String.ofList form.text⟩

/-- A text that is a key starts with no blank, no comment and no delimiter. -/
theorem head (k : KeyText) : ∃ x rest, k.text = x :: rest ∧ x ∉ breakChars := by
  cases k with
  | value v => exact v.head
  | identifier form =>
    have hfirst := form.first_ne
    rw [List.mem_append, not_or] at hfirst
    exact ⟨form.first, form.more, rfl, hfirst.2⟩

end KeyText

/-- A string or an expression that is read as a value is read as a key too. -/
theorem readKey_of_readValue {σ : Type} {c : Cursor} {s t : Session σ} {value : Value} {key : Key}
    {d : c.After} (h : readValue c s = (some (value, d), t)) (hkey : value.key? = some key) :
    readKey c s = (some (key, d), t) := by
  have hread := readValue_read c s
  rw [h] at hread
  cases hread with
  | text h =>
    obtain rfl := Option.some.inj hkey
    rw [readKey_eq, h, orElse]
  | expression hquote h =>
    obtain rfl := Option.some.inj hkey
    rw [readKey_eq, readText_eq_none hquote, orElse, h, orElse]
  | array _ _ hvalue | object _ _ _ _ hvalue => simp [hvalue, Value.key?] at hkey
  | scalar => simp [Value.key?] at hkey

theorem Value.key?_shift {value : Value} {key : Key} (k : Nat) (h : value.key? = some key) :
    (value.shift k).key? = some (key.shift k) := by
  cases value with
  | text | expression => obtain rfl := Option.some.inj h; rw [shift]; rfl
  | _ => simp [key?] at h

theorem IdentifierForm.scan_alone (form : IdentifierForm) :
    ∃ d, Identifier.scan (.ofText form.text) =
      some (⟨⟨0, byteLength form.text⟩, String.ofList form.text⟩, d) ∧ d.1.rest = [] := by
  have hall : ∀ x ∈ form.text, isIdentifierContinue x = true :=
    List.forall_mem_cons.mpr ⟨isIdentifierContinue_of_start form.hfirst, form.hmore⟩
  have hc : (Cursor.ofText form.text).rest = form.text ++ [] := (List.append_nil _).symm
  obtain ⟨hrun, hleft⟩ := Cursor.rest_matchWhile hc hall rfl
  have hmoves := (Cursor.ofText form.text).moves_matchWhile isIdentifierContinue
  have hend : ((Cursor.ofText form.text).matchWhile isIdentifierContinue).position =
      byteLength form.text := by
    rw [hmoves.position_eq, hrun]
    exact Nat.zero_add _
  have hstart : (Cursor.ofText form.text).rest.head?.any isIdentifierStart = true := form.hfirst
  unfold Identifier.scan
  rw [dif_pos hstart]
  simp only [hrun, hend]
  exact ⟨_, rfl, hleft⟩

/-- Wherever a text that is a key stands, it is read as that key, moved along, if a token may end
behind it. -/
theorem KeyText.finds (k : KeyText) {c : Cursor} {rest : List Char} {s : Session τ}
    (hs : s.Neutral) (hc : c.rest = k.text ++ rest) (hrest : tokenMayEnd rest = true) :
    ∃ d t, readKey c s = (some (k.key.shift c.position, d), t) ∧ c.Moves k.text d.1 ∧
      s.Quiet t := by
  cases k with
  | value v isKey =>
    obtain ⟨d, t, hread, hmoves, hquiet⟩ := v.finds hs hc hrest
    have hkey := Value.key?_shift c.position (Option.some_get isKey).symm
    exact ⟨d, t, readKey_of_readValue hread hkey, hmoves, hquiet⟩
  | identifier form =>
    obtain ⟨d, hscan, hend⟩ := form.scan_alone
    obtain ⟨d', hscan', hd⟩ :=
      Identifier.scan_embeds (Cursor.embeds_ofText hc) hscan (by rw [hend]; exact hrest)
    have hfinds : Finds c.position rest s (readKey c s) _ d.1 :=
      ⟨d', _, readKey_of_identifier hscan', hd, .observe s _⟩
    exact hfinds.moves hc hend


/-! ### Printed values -/

theorem bracesOpen_static {stops cs : List Char} (h : isStatic stops cs = true) (hbrace : '{' ∈ stops)
    (tail : List Char) : bracesOpen (cs ++ tail) = bracesOpen tail := by
  fun_induction isStatic stops cs with
  | case1 => rfl
  | case2 => simp at h
  | case3 d ds ih => simpa [bracesOpen] using ih h
  | case4 c cs hc ih =>
    obtain ⟨hstop, hcs⟩ : c ∉ stops ∧ isStatic stops cs = true := by simpa using h
    have hne : c ≠ '{' := fun hsame => hstop (hsame ▸ hbrace)
    rw [List.cons_append, bracesOpen.eq_def]
    simp [hc, hne, ih hcs]

theorem StaticText.bracesOpen_node {quote : Quote} (form : StaticText quote) (tail : List Char) :
    bracesOpen (form.node.raw.toList ++ tail) = bracesOpen tail := by
  rw [StaticText.node, String.toList_ofList, bracesOpen_static form.2 (by simp)]

theorem TextForm.settled_node (form : TextForm) : form.node.settled = true := by
  have hparts (more : List (Braced × StaticText form.quote)) (first : StaticText form.quote) :
      partsSettled first.node (more.map fun part => (part.1.node, part.2.node)) = true := by
    induction more generalizing first with
    | nil =>
      have hfirst := first.bracesOpen_node []
      rw [List.append_nil] at hfirst
      simp [partsSettled, hfirst, bracesOpen]
    | cons part more ih =>
      rw [List.map_cons, partsSettled, first.bracesOpen_node, ih]
      rfl
  exact hparts form.more form.first

theorem mem_of_mem_itemsOf {slots : List (Slot Value)} {slot : Slot Value}
    (h : slot ∈ itemsOf slots) : slot ∈ slots := by
  unfold itemsOf at h
  split at h
  · exact List.dropLast_subset slots h
  · exact h

theorem KeyForm.settled_node (form : KeyForm) : form.node.settled = true := by
  cases form with
  | text form => exact (Key.settled_text _).trans form.settled_node
  | expression | identifier => rfl

mutual

/-- No printed value leaves braces open. -/
theorem Form.settled_tree : ∀ form : Form, form.tree.settled = true
  | .scalar form | .expression form => by rw [Form.tree]; rfl
  | .text form => by rw [Form.tree, Value.settled_text, form.settled_node]
  | .array slots => by
    rw [Form.tree, Value.settled_array]
    intro v hv
    obtain ⟨slot, hslot, hvalue⟩ := List.mem_filterMap.mp hv
    exact slots.settled_printed slot (mem_of_mem_itemsOf hslot) v hvalue
  | .emptyObject gap => by
    rw [Form.tree, Value.settled_object]
    simp
  | .object front apart value after more => by
    rw [Form.tree, Value.settled_object]
    refine List.forall_mem_cons.mpr ⟨⟨front.key.settled_node, ?_⟩, more.settled_properties⟩
    simpa using value.settled_tree

theorem SlotForm.settled_item : ∀ slot : SlotForm, ∀ v, slot.item = some v → v.settled = true
  | .gap _ => by simp [SlotForm.item]
  | .value _ value _ => by
    rintro v hv
    rw [SlotForm.item] at hv
    obtain rfl := Option.some.inj hv
    exact value.settled_tree

theorem SlotForms.settled_printed : ∀ slots : SlotForms, ∀ slot ∈ slots.printed, ∀ v,
    slot.value = some v → v.settled = true
  | .last slot => by
    rw [SlotForms.printed]
    simpa using slot.settled_item
  | .cons slot more => by
    rw [SlotForms.printed]
    exact List.forall_mem_cons.mpr ⟨slot.settled_item, more.settled_printed⟩

theorem MoreProperties.settled_properties : ∀ more : MoreProperties, ∀ p ∈ more.properties, p.settled
  | .close | .finalComma _ => by simp [MoreProperties.properties]
  | .cons front value _ more => by
    rw [MoreProperties.properties]
    refine List.forall_mem_cons.mpr ⟨⟨front.key.settled_node, ?_⟩, more.settled_properties⟩
    simpa using value.settled_tree

end

theorem partsSettled_erase (first : Segment) (more : List (Expression × Segment)) :
    partsSettled first.erase (more.map fun (e, s) => (e.erase, s.erase)) =
      partsSettled first more := by
  induction more generalizing first with
  | nil => rfl
  | cons part more ih =>
    rw [List.map_cons, partsSettled, partsSettled, ih]
    rfl

theorem Key.settled_erase (key : Key) : key.erase.settled = key.settled := by
  cases key with
  | text t =>
    rw [erase, settled_text, settled_text]
    exact partsSettled_erase t.first t.more
  | expression | identifier => rfl

/-- Whether a tree leaves braces open does not depend on its positions. -/
theorem Value.settled_erase (value : Value) : value.erase.settled = value.settled := by
  induction value using Value.induction with
  | scalar | expression => rw [erase]; rfl
  | text t =>
    rw [erase, settled_text, settled_text]
    exact partsSettled_erase t.first t.more
  | array span slots ih =>
    have hmem : ∀ v, v ∈ slotValues slots → v.erase.settled = v.settled := by
      intro v hv
      obtain ⟨slot, hslot, hvalue⟩ := List.mem_filterMap.mp hv
      exact ih slot hslot v hvalue
    have hvalues : slotValues (slots.map Slot.erase) = (slotValues slots).map Value.erase := by
      rw [slotValues, slotValues, List.filterMap_map, List.map_filterMap]
      rfl
    rw [erase, Bool.eq_iff_iff, settled_array, settled_array, eraseSlots_eq, hvalues,
      List.forall_mem_map]
    exact forall₂_congr fun v hv => by rw [hmem v hv]
  | object span properties ih =>
    rw [erase, Bool.eq_iff_iff, settled_object, settled_object, eraseProperties_eq,
      List.forall_mem_map]
    refine forall₂_congr fun p hp => ?_
    have hvalue := ih p hp
    cases hfound : p.value with
    | none => simp [Property.settled, Property.erase, Key.settled_erase, hfound]
    | some v => simp [Property.settled, Property.erase, Key.settled_erase, hfound, hvalue v hfound]

/-- Every printed value is a value when it is read alone, and it is the tree that was printed. -/
theorem Form.valueOf?_spelling (form : Form) :
    ∃ value, valueOf? form.spelling = some value ∧ value.erase = form.tree := by
  obtain ⟨x, tail, htail, hx⟩ := (form.reads (σ := Unit)).starts
  have hstart : tokenMayStart form.spelling = true := htail ▸ tokenMayStart_cons hx
  obtain ⟨s, hplain, -, hparse⟩ := parse_of_readValue {} form.spelling hstart
  have htext : (Cursor.ofText form.spelling).rest = form.spelling ++ [] :=
    (List.append_nil form.spelling).symm
  have hnothing : tokenMayEnd [] = true := rfl
  obtain ⟨value, d, t, hread, hvalue, hend, ht⟩ := form.reads.yields hplain hnothing htext
  obtain ⟨document, hok, hroot, hfrom, hto, -, hstring⟩ := hparse hread hend (.inl ht.none_met)
  have hstop : document.stop = byteLength form.spelling := by
    rw [hto, (readValue_placed hread).1]
    exact Cursor.position_of_rest_nil (Cursor.le_of_lt d.2) hend
  have hsettled : value.settled = true := by
    rw [← value.settled_erase, hvalue, form.settled_tree]
  refine ⟨value, ?_, hvalue⟩
  unfold valueOf? aloneValue?
  rw [hok]
  simp only [hfrom, hstop, hstring, hroot, beq_self_eq_true, Bool.not_false, Bool.and_self, if_true,
    Option.filter_some, hsettled]

/-- Every printed value is the text of the value that was printed. -/
theorem Form.exists_valueText (form : Form) :
    ∃ v : ValueText, v.text = form.spelling ∧ v.value.erase = form.tree := by
  obtain ⟨value, hvalue, htree⟩ := form.valueOf?_spelling
  obtain ⟨x, tail, htail, -⟩ := (form.reads (σ := Unit)).starts
  let v : ValueText := ⟨form.spelling, by simp [htail], by rw [hvalue]; rfl⟩
  have hsame : v.value = value := Option.some.inj (v.valueOf?_eq.symm.trans hvalue)
  exact ⟨v, rfl, hsame ▸ htree⟩

theorem Value.key?_erase {value : Value} {key : Key} (h : value.erase.key? = some key) :
    ∃ found, value.key? = some found ∧ found.erase = key := by
  cases value with
  | text | expression =>
    rw [erase] at h
    exact ⟨_, rfl, Option.some.inj h⟩
  | _ => simp [erase, key?] at h

/-- A printed string or expression is the text of a key too. -/
theorem Form.exists_keyText (form : Form) {key : Key} (h : form.tree.key? = some key) :
    ∃ k : KeyText, k.text = form.spelling ∧ k.key.erase = key := by
  obtain ⟨v, htext, htree⟩ := form.exists_valueText
  obtain ⟨found, hfound, hsame⟩ := Value.key?_erase (htree ▸ h)
  have hkey : (KeyText.value v (by rw [hfound]; rfl)).key = found :=
    Option.get_of_eq_some _ hfound
  exact ⟨.value v _, htext, hkey ▸ hsame⟩

/-- Every printed key is the text of the key that was printed. -/
theorem KeyForm.exists_keyText (form : KeyForm) :
    ∃ k : KeyText, k.text = form.spelling ∧ k.key.erase = form.node := by
  cases form with
  | text form =>
    have htree : (Form.text form).tree.key? = some (.text form.node) := by rw [Form.tree]; rfl
    have hkeys := (Form.text form).exists_keyText htree
    rwa [Form.spelling] at hkeys
  | expression form =>
    have htree : (Form.expression form).tree.key? = some (.expression form.node) := by
      rw [Form.tree]
      rfl
    have hkeys := (Form.expression form).exists_keyText htree
    rwa [Form.spelling] at hkeys
  | identifier form => exact ⟨.identifier form, rfl, rfl⟩

end DataTemplate
